import Xv6.Files.State

/-!
Blocks and inodes (`fs.c`).

The functions of `fs.c` up to `writei`, in the order of the source.  A loop over a range is a
search in the list of its values, or a recursion with as much fuel as the loop can make
rounds.  Reading and writing a device node is the console's `consoleread` and
`consolewrite`, which unlock the inode while they wait.
-/

namespace Xv6.Files

open Xv6.Fs

variable (sb : Superblock)

/-! ### Blocks -/

def logWrite (b : ℕ) : FsM Unit := modify fun s => s.log b

/-- The data of a block, as `bread` shows it. -/
def bdata (b : ℕ) : FsM Bytes := do
  if sb.nmeta ≤ b ∧ b < sb.size then
    return (← get).data b
  else throw .stray

/-- The data of a block is changed and passed to `log_write`. -/
def bwrite (b : ℕ) (d : Bytes) : FsM Unit := do
  modify fun s => s.setData b d
  logWrite b

/-- Zero a block. -/
def bzero (b : ℕ) : FsM Unit := do
  let _ ← bdata sb b
  bwrite b fun _ => 0

/-- The bit of a block is not set in the free map. -/
def isFree (bitmap : ℕ → ℕ) (b : ℕ) : Bool := bitmap (b / 8) &&& (1 <<< (b % 8)) = 0

/-- Allocate a zeroed disk block. -/
def balloc : FsM ℕ := do
  let s ← get
  match (List.range sb.size).find? (isFree s.bitmap) with
  | none => throw .outOfBlocks
  | some b =>
    set (s.setByte (b / 8) (s.bitmap (b / 8) ||| (1 <<< (b % 8))))
    logWrite (sb.bblock b)
    bzero sb b
    return b

/-- Free a disk block. -/
def bfree (b : ℕ) : FsM Unit := do
  let s ← get
  if isFree s.bitmap b then throw .freeingFreeBlock
  else
    set (s.setByte (b / 8) (s.bitmap (b / 8) &&& (255 ^^^ (1 <<< (b % 8)))))
    logWrite (sb.bblock b)

/-! ### Inodes -/

def inode (k : Ip) : FsM Inode := do return (← get).inode k

def setInode (k : Ip) (ip : Inode) : FsM Unit := modify fun s => s.setInode k ip

/-- The copy of the dinode is changed. -/
def setDin (k : Ip) (d : Dinode) : FsM Unit := do
  setInode k { ← inode k with din := d }

/-- Find the inode with number `inum` and return the in-memory copy. -/
def iget (inum : ℕ) : FsM Ip := do
  let s ← get
  -- Is the inode already cached?
  match (List.finRange NINODE).find? fun k => 0 < (s.inode k).ref ∧ (s.inode k).inum = inum with
  | some k =>
    setInode k { s.inode k with ref := (s.inode k).ref + 1 }
    return k
  | none =>
    -- Recycle an inode cache entry.
    match (List.finRange NINODE).find? fun k => (s.inode k).ref = 0 with
    | some k =>
      setInode k { s.inode k with inum := inum, ref := 1, valid := false }
      return k
    | none => throw .igetNoInodes

/-- Allocate an inode of type `ty`. -/
def ialloc (ty : InodeType) : FsM Ip := do
  let s ← get
  match (List.range' 1 (sb.ninodes - 1)).find? fun i => (s.dinode i).type = .free with
  | none => throw .iallocNoInodes
  | some inum =>
    set (s.setDinode inum (.fresh ty))
    logWrite (sb.iblock inum)
    iget inum

/-- Copy a modified in-memory inode to disk. -/
def iupdate (k : Ip) : FsM Unit := do
  let ip ← inode k
  modify fun s => s.setDinode ip.inum ip.din
  logWrite (sb.iblock ip.inum)

def idup (k : Ip) : FsM Ip := do
  let ip ← inode k
  setInode k { ip with ref := ip.ref + 1 }
  return k

/-- In a call that runs alone a lock that is held is held by the process itself. -/
def acquiresleep (k : Ip) : FsM Unit := do
  let ip ← inode k
  if ip.lock then throw .asleep else setInode k { ip with lock := true }

def releasesleep (k : Ip) : FsM Unit := do
  let s ← get
  let ip := s.inode k
  set { s.setInode k { ip with lock := false } with
    through := s.through && (!ip.valid || ip.din = s.dinode ip.inum) }

/-- Lock the given inode.  Reads the inode from disk if necessary. -/
def ilock (k : Ip) : FsM Unit := do
  if (← inode k).ref < 1 then throw .ilock
  acquiresleep k
  let s ← get
  let ip := s.inode k
  if ip.valid then return ()
  else if sb.bmapstart ≤ sb.iblock ip.inum then throw .stray
  else
    setInode k { ip with din := s.dinode ip.inum, valid := true }
    if (s.dinode ip.inum).type = .free then throw .ilockNoType

def iunlock (k : Ip) : FsM Unit := do
  let ip ← inode k
  if !ip.lock ∨ ip.ref < 1 then throw .iunlock
  releasesleep k

/-- A slot of the inode: the address in it, or a new block. -/
def ensure (k : Ip) (p : Fin (NDIRECT + 1)) : FsM ℕ := do
  let addr := (← inode k).din.addrs p
  if addr = 0 then
    let b ← balloc sb
    let d := (← inode k).din
    setDin k { d with addrs := Function.update d.addrs p b }
    return b
  else return addr

/-- Return the disk block address of the `bn`th block of the inode.  If there is no such
block, `bmap` allocates one. -/
def bmap (k : Ip) (bn : ℕ) : FsM ℕ := do
  if h : bn < NDIRECT then ensure sb k ⟨bn, by omega⟩
  else if bn - NDIRECT < NINDIRECT then
    -- Load indirect block, allocating if necessary.
    let ind ← ensure sb k (Fin.last NDIRECT)
    let addr := word (← bdata sb ind) (bn - NDIRECT)
    if addr = 0 then
      let b ← balloc sb
      bwrite ind (setWord ((← get).data ind) (bn - NDIRECT) b)
      return b
    else return addr
  else throw .bmapOutOfRange

/-- Truncate inode (discard contents). -/
def itrunc (k : Ip) : FsM Unit := do
  (List.finRange NDIRECT).forM fun i => do
    let d := (← inode k).din
    if d.addrs i.castSucc ≠ 0 then
      bfree sb (d.addrs i.castSucc)
      setDin k { d with addrs := Function.update d.addrs i.castSucc 0 }
  let ind := (← inode k).din.addrs (Fin.last NDIRECT)
  if ind ≠ 0 then
    let a ← bdata sb ind
    (List.range NINDIRECT).forM fun j => do
      if word a j ≠ 0 then bfree sb (word a j)
    bfree sb ind
    let d := (← inode k).din
    setDin k { d with addrs := Function.update d.addrs (Fin.last NDIRECT) 0 }
  setDin k { (← inode k).din with size := 0 }
  iupdate sb k

/-- Drop a reference to an in-memory inode.  If that was the last reference and the inode has
no links to it, free the inode (and its content) on disk. -/
def iput (k : Ip) : FsM Unit := do
  acquiresleep k
  let ip ← inode k
  if ip.valid ∧ ip.din.nlink = 0 then
    if ip.ref = 1 then
      -- inode has no links and no other references: truncate and free.
      itrunc sb k
      setDin k { (← inode k).din with type := .free }
      iupdate sb k
      setInode k { ← inode k with valid := false }
  releasesleep k
  let ip ← inode k
  setInode k { ip with ref := ip.ref - 1 }

/-- Common idiom: unlock, then put. -/
def iunlockput (k : Ip) : FsM Unit := do
  iunlock k
  iput sb k

/-! ### Contents -/

/-- `consoleread`; the bytes it delivers, or -1. -/
def consoleread (k : Ip) (n : ℕ) : FsM (Option (List ℕ)) := do
  iunlock k
  match (← get).input with
  | [] => throw .asleep
  | line :: rest =>
    modify fun s => { s with input := rest }
    ilock sb k
    return line.map (·.take n)

/-- `consolewrite`. -/
def consolewrite (k : Ip) (n : ℕ) : FsM (Option ℕ) := do
  iunlock k
  ilock sb k
  return some n

/-- The loop of `readi`. -/
def readLoop (k : Ip) : ℕ → ℕ → ℕ → FsM (List ℕ)
  | 0, _, _ => return []
  | fuel + 1, off, n => do
    if n = 0 then return []
    else
      let d ← bdata sb (← bmap sb k (off / BSIZE))
      let m := min n (BSIZE - off % BSIZE)
      let rest ← readLoop k fuel (off + m) (n - m)
      return (List.range m).map (fun j => d (off % BSIZE + j)) ++ rest

/-- Read data from inode.  `none` is -1. -/
def readi (k : Ip) (off n : ℕ) : FsM (Option (List ℕ)) := do
  let d := (← inode k).din
  if d.type = .dev then
    if d.major < 0 ∨ d.major ≥ NDEV ∨ d.major ≠ CONSOLE then return none
    else consoleread sb k n
  else if d.size < off ∨ (off + n) % 2 ^ 32 < off then return none
  else
    let n := if d.size < off + n then d.size - off else n
    return some (← readLoop sb k n off n)

/-- The loop of `writei`. -/
def writeLoop (k : Ip) : ℕ → ℕ → List ℕ → FsM Unit
  | 0, _, _ => return ()
  | fuel + 1, off, src => do
    if src.length = 0 then return ()
    else
      let b ← bmap sb k (off / BSIZE)
      let d ← bdata sb b
      let m := min src.length (BSIZE - off % BSIZE)
      bwrite b (splice d (off % BSIZE) (src.take m))
      writeLoop k fuel (off + m) (src.drop m)

/-- Write data to inode.  `none` is -1. -/
def writei (k : Ip) (src : List ℕ) (off : ℕ) : FsM (Option ℕ) := do
  let n := src.length
  let d := (← inode k).din
  if d.type = .dev then
    if d.major < 0 ∨ d.major ≥ NDEV ∨ d.major ≠ CONSOLE then return none
    else consolewrite sb k n
  else if d.size < off ∨ (off + n) % 2 ^ 32 < off then return none
  else if MAXFILE * BSIZE < off + n then return none
  else
    writeLoop sb k n off src
    let d := (← inode k).din
    if 0 < n ∧ d.size < off + n then
      setDin k { d with size := off + n }
      iupdate sb k
    return some n

end Xv6.Files
