import Xv6.Files.Blocks
import Xv6.Files.Calls

/-!
Making a file system (`mkfs.c`).

The image is the host's file; `wsect` and `rsect` are the only ways to it, and reading past its end
is an error after which `mkfs` exits.  The host is little-endian, so that a `uint` in its memory has
the bytes that `xint` asks for.  What `read` returns for an input file is an argument of the model:
the pieces are in `Input.reads`, in the order of the calls.

* `RawDinode`, `getDinode`, `putDinode`: a `struct dinode` in a block.
* `Host`, `MkM`: the state of `mkfs`, and code that may exit early.
* `winode` to `iappend`, and `main`: the functions of `mkfs.c`.
* `mount`: what the kernel finds in an image.
-/

namespace Xv6.Mkfs

open Xv6.Files
open Xv6.Fs hiding word

abbrev FSSIZE : ℕ := 1000
abbrev NINODES : ℕ := 200
abbrev nbitmap : ℕ := FSSIZE / (BSIZE * 8) + 1
abbrev ninodeblocks : ℕ := NINODES / IPB + 1
abbrev nlog : ℕ := LOGSIZE
/-- Number of meta blocks (boot, sb, nlog, inode, bitmap). -/
abbrev nmeta : ℕ := 2 + nlog + ninodeblocks + nbitmap
/-- Number of data blocks. -/
abbrev nblocks : ℕ := FSSIZE - nmeta

abbrev T_DIR : ℕ := 1
abbrev T_FILE : ℕ := 2

/-- Convert to intel byte order. -/
def xshort (x : ℕ) : ℕ := x % 256 + 256 * (x / 2 ^ 8 % 256)

def xint (x : ℕ) : ℕ :=
  x % 256 + 256 * (x / 2 ^ 8 % 256) + 256 ^ 2 * (x / 2 ^ 16 % 256) + 256 ^ 3 * (x / 2 ^ 24 % 256)

lemma xshort_eq {x : ℕ} (h : x < 2 ^ 16) : xshort x = x := by
  unfold xshort
  omega

lemma xint_eq {x : ℕ} (h : x < 2 ^ 32) : xint x = x := by
  unfold xint
  omega

/-! ### Inodes in a block -/

/-- `struct dinode`, with the fields as they are in memory. -/
structure RawDinode where
  type : ℕ := 0
  major : ℕ := 0
  minor : ℕ := 0
  nlink : ℕ := 0
  size : ℕ := 0
  addrs : Fin (NDIRECT + 1) → ℕ := fun _ => 0

/-- The `struct` as 16 words. -/
def RawDinode.word (r : RawDinode) (j : ℕ) : ℕ :=
  if j = 0 then r.type + 2 ^ 16 * r.major
  else if j = 1 then r.minor + 2 ^ 16 * r.nlink
  else if j = 2 then r.size
  else if h : j - 3 < NDIRECT + 1 then r.addrs ⟨j - 3, h⟩
  else 0

/-- `*dip = *ip` for the `q`th dinode of a block. -/
def putDinode (d : Bytes) (q : ℕ) (r : RawDinode) : Bytes := fun j =>
  if j / 64 = q then r.word (j % 64 / 4) / 256 ^ (j % 4) % 256 else d j

/-- `*ip = *dip` for the `q`th dinode of a block. -/
def getDinode (d : Bytes) (q : ℕ) : RawDinode where
  type := word d (16 * q) % 2 ^ 16
  major := word d (16 * q) / 2 ^ 16
  minor := word d (16 * q + 1) % 2 ^ 16
  nlink := word d (16 * q + 1) / 2 ^ 16
  size := word d (16 * q + 2)
  addrs p := word d (16 * q + 3 + p)

lemma word_putDinode_self (d : Bytes) (q : ℕ) (r : RawDinode) {j : ℕ} (hj : j < 16) :
    word (putDinode d q r) (16 * q + j) = r.word j % 2 ^ 32 := by
  have hdiv : ∀ i < 4, (4 * (16 * q + j) + i) / 64 = q := fun i hi => by omega
  have hword : ∀ i < 4, (4 * (16 * q + j) + i) % 64 / 4 = j := fun i hi => by omega
  have hmod : ∀ i < 4, (4 * (16 * q + j) + i) % 4 = i := fun i hi => by omega
  have hbyte : ∀ i < 4, putDinode d q r (4 * (16 * q + j) + i) = r.word j / 256 ^ i % 256 := by
    intro i hi
    rw [putDinode, if_pos (hdiv i hi), hword i hi, hmod i hi]
  have h0 := hbyte 0 (by omega)
  rw [Nat.add_zero] at h0
  rw [word, h0, hbyte 1 (by omega), hbyte 2 (by omega), hbyte 3 (by omega)]
  omega

lemma word_putDinode_of_ne (d : Bytes) {q j : ℕ} (r : RawDinode) (hj : j / 16 ≠ q) :
    word (putDinode d q r) j = word d j := by
  have hdiv : ∀ i < 4, (4 * j + i) / 64 ≠ q := fun i hi => by omega
  have hbyte : ∀ i < 4, putDinode d q r (4 * j + i) = d (4 * j + i) := fun i hi =>
    if_neg (hdiv i hi)
  have h0 := hbyte 0 (by omega)
  rw [Nat.add_zero] at h0
  rw [word, h0, hbyte 1 (by omega), hbyte 2 (by omega), hbyte 3 (by omega), word]

/-- The fields have as many bits as they have in the `struct`. -/
structure RawDinode.Sized (r : RawDinode) : Prop where
  type : r.type < 2 ^ 16
  major : r.major < 2 ^ 16
  minor : r.minor < 2 ^ 16
  nlink : r.nlink < 2 ^ 16
  size : r.size < 2 ^ 32
  addrs : ∀ p, r.addrs p < 2 ^ 32

lemma getDinode_putDinode_self (d : Bytes) (q : ℕ) {r : RawDinode} (h : r.Sized) :
    getDinode (putDinode d q r) q = r := by
  obtain ⟨ht, hma, hmi, hn, hs, ha⟩ := h
  have h0 := word_putDinode_self d q r (j := 0) (by omega)
  have h1 := word_putDinode_self d q r (j := 1) (by omega)
  have h2 := word_putDinode_self d q r (j := 2) (by omega)
  have h3 : ∀ p : Fin (NDIRECT + 1), word (putDinode d q r) (16 * q + 3 + p) = r.addrs p := by
    intro p
    have hp : p.val < 13 := p.isLt
    have hword : r.word (3 + p) = r.addrs p := by
      rw [RawDinode.word, if_neg (by omega), if_neg (by omega), if_neg (by omega),
        dif_pos (show 3 + p.val - 3 < 13 by omega)]
      exact congrArg r.addrs (Fin.ext (Nat.add_sub_cancel_left ..))
    rw [Nat.add_assoc, word_putDinode_self d q r (by omega), hword, Nat.mod_eq_of_lt (ha p)]
  simp only [RawDinode.word, if_true] at h0
  simp only [RawDinode.word, Nat.one_ne_zero, if_false, if_true] at h1
  simp only [RawDinode.word, OfNat.ofNat_ne_zero, OfNat.ofNat_ne_one, if_false, if_true] at h2
  rw [Nat.add_zero] at h0
  rw [getDinode, h0, h1, h2, funext h3]
  obtain ⟨type, major, minor, nlink, size, addrs⟩ := r
  simp only [RawDinode.mk.injEq, and_true] at ht hma hmi hn hs ⊢
  omega

lemma getDinode_putDinode_of_ne (d : Bytes) {q q' : ℕ} (r : RawDinode) (h : q' ≠ q) :
    getDinode (putDinode d q r) q' = getDinode d q' := by
  have hword : ∀ j < 16, word (putDinode d q r) (16 * q' + j) = word d (16 * q' + j) := fun j hj =>
    word_putDinode_of_ne d r (by omega)
  have h0 := hword 0 (by omega)
  rw [Nat.add_zero] at h0
  have h3 : ∀ p : Fin (NDIRECT + 1), word (putDinode d q r) (16 * q' + 3 + p)
      = word d (16 * q' + 3 + p) := by
    intro p
    have hp : p.val < 13 := p.isLt
    rw [Nat.add_assoc, hword _ (by omega)]
  rw [getDinode, getDinode, h0, hword 1 (by omega), hword 2 (by omega), funext h3]

/-! ### The code -/

/-- How `mkfs` exits early. -/
inductive Exit where
  /-- `read` in `rsect` -/
  | rsect
  /-- `assert(rootino == ROOTINO)` -/
  | rootino
  /-- `assert(index(shortname, '/') == 0)` -/
  | index
  /-- `assert(fbn < MAXFILE)` -/
  | fbn
  /-- `assert(used < BSIZE*8)` -/
  | used
  deriving DecidableEq, Repr

/-- The image, of which the first `sectors` blocks have been written, and the counters. -/
structure Host where
  disk : ℕ → Bytes := fun _ _ => 0
  sectors : ℕ := 0
  freeinode : ℕ := 1
  freeblock : ℕ := 0

abbrev MkM : Type → Type := EStateM Exit Host

/-- The fields of `struct superblock`. -/
structure RawSb where
  size : ℕ
  nblocks : ℕ
  ninodes : ℕ
  nlog : ℕ
  logstart : ℕ
  inodestart : ℕ
  bmapstart : ℕ
  deriving DecidableEq

def sb : RawSb where
  size := xint FSSIZE
  nblocks := xint Mkfs.nblocks
  ninodes := xint NINODES
  nlog := xint Mkfs.nlog
  logstart := xint 2
  inodestart := xint (2 + Mkfs.nlog)
  bmapstart := xint (2 + Mkfs.nlog + ninodeblocks)

/-- The bytes of a `struct superblock` in a block. -/
def RawSb.toBytes (s : RawSb) : Bytes :=
  [s.size, s.nblocks, s.ninodes, s.nlog, s.logstart, s.inodestart, s.bmapstart].zipIdx.foldl
    (fun d v => setWord d v.2 v.1) fun _ => 0

def wsect (sec : ℕ) (buf : Bytes) : MkM Unit := modify fun m =>
  { m with disk := Function.update m.disk sec buf, sectors := max m.sectors (sec + 1) }

def rsect (sec : ℕ) : MkM Bytes := do
  let m ← get
  if sec < m.sectors then return m.disk sec else throw .rsect

/-- `IBLOCK` -/
def iblock (inum : ℕ) : ℕ := inum / IPB + sb.inodestart

def winode (inum : ℕ) (ip : RawDinode) : MkM Unit := do
  let buf ← rsect (iblock inum)
  wsect (iblock inum) (putDinode buf (inum % IPB) ip)

def rinode (inum : ℕ) : MkM RawDinode := do
  let buf ← rsect (iblock inum)
  return getDinode buf (inum % IPB)

def ialloc (type : ℕ) : MkM ℕ := do
  let inum := (← get).freeinode
  modify fun m => { m with freeinode := inum + 1 }
  winode inum { type := xshort type, nlink := xshort 1, size := xint 0 }
  return inum

def balloc (used : ℕ) : MkM Unit := do
  if used < BSIZE * 8 then
    wsect sb.bmapstart ((List.range used).foldl
      (fun buf i => Function.update buf (i / 8) (buf (i / 8) ||| (1 <<< (i % 8)))) fun _ => 0)
  else throw .used

/-- `freeblock++` -/
def newBlock : MkM ℕ := do
  let b := (← get).freeblock
  modify fun m => { m with freeblock := b + 1 }
  return b

/-- A slot of the inode gets a block if it has none. -/
def fillSlot (din : RawDinode) (p : Fin (NDIRECT + 1)) : MkM RawDinode := do
  if xint (din.addrs p) = 0 then
    let b ← newBlock
    return { din with addrs := Function.update din.addrs p (xint b) }
  else return din

/-- The block `x` for the `fbn`th block of a file. -/
def blockFor (din : RawDinode) (fbn : ℕ) : MkM (RawDinode × ℕ) := do
  if h : fbn < NDIRECT then
    let din ← fillSlot din (Fin.castSucc ⟨fbn, h⟩)
    return (din, xint (din.addrs (Fin.castSucc ⟨fbn, h⟩)))
  else
    let din ← fillSlot din (Fin.last NDIRECT)
    let indirect ← rsect (xint (din.addrs (Fin.last NDIRECT)))
    if word indirect (fbn - NDIRECT) = 0 then
      let b ← newBlock
      let indirect := setWord indirect (fbn - NDIRECT) (xint b)
      wsect (xint (din.addrs (Fin.last NDIRECT))) indirect
      return (din, xint (word indirect (fbn - NDIRECT)))
    else return (din, xint (word indirect (fbn - NDIRECT)))

/-- The loop of `iappend`. -/
def appendLoop : ℕ → RawDinode → ℕ → List ℕ → MkM (RawDinode × ℕ)
  | 0, din, off, _ => return (din, off)
  | fuel + 1, din, off, p => do
    if p.length = 0 then return (din, off)
    else if MAXFILE ≤ off / BSIZE then throw .fbn
    else
      let (din, x) ← blockFor din (off / BSIZE)
      let n1 := min p.length ((off / BSIZE + 1) * BSIZE - off)
      let buf ← rsect x
      wsect x (splice buf (off - off / BSIZE * BSIZE) (p.take n1))
      appendLoop fuel din (off + n1) (p.drop n1)

def iappend (inum : ℕ) (p : List ℕ) : MkM Unit := do
  let din ← rinode inum
  let (din, off) ← appendLoop p.length din (xint din.size) p
  winode inum { din with size := xint off }

/-- An argument of `mkfs`, with what the calls of `read` return for the file. -/
structure Input where
  arg : List ℕ
  reads : List (List ℕ)

/-- `"user/"` -/
abbrev userDir : List ℕ := [117, 115, 101, 114, 47]

/-- Get rid of `"user/"`. -/
def Input.shortname (f : Input) : List ℕ :=
  if strncmp f.arg userDir 5 = 0 then f.arg.drop 5 else f.arg

/-- Skip leading `_` in name when writing to file system. -/
def Input.name (f : Input) : List ℕ :=
  if f.shortname.headD 0 = 95 then f.shortname.tail else f.shortname

def Input.contents (f : Input) : List ℕ := f.reads.flatten

/-- An entry is added to the root directory. -/
def addEntry (rootino inum : ℕ) (name : List ℕ) : MkM Unit :=
  iappend rootino (Dirent.toBytes ⟨xshort inum, strncpy name DIRSIZ⟩)

/-- The body of the loop of `main`. -/
def addFile (rootino : ℕ) (f : Input) : MkM Unit := do
  if slash ∈ f.shortname then throw .index
  else
    let inum ← ialloc T_FILE
    addEntry rootino inum f.name
    f.reads.forM (iappend inum)

/-- The loop that writes `zeroes` to all blocks. -/
def zeroLoop (n : ℕ) : MkM Unit := (List.range n).forM fun i => wsect i fun _ => 0

-- A thousand rounds are not to be evaluated in the elaborator.
attribute [irreducible] zeroLoop

def main (files : List Input) : MkM Unit := do
  modify fun m => { m with freeblock := nmeta }
  zeroLoop FSSIZE
  wsect 1 sb.toBytes
  let rootino ← ialloc T_DIR
  if rootino ≠ ROOTINO then throw .rootino
  else
    addEntry rootino rootino dot
    addEntry rootino rootino dotdot
    files.forM (addFile rootino)
    -- fix size of root inode dir
    let din ← rinode rootino
    let off := xint din.size
    winode rootino { din with size := xint ((off / BSIZE + 1) * BSIZE) }
    balloc (← get).freeblock

/-! ### The image in the kernel -/

/-- What `mkfs` puts in the superblock, for the kernel. -/
def layout : Superblock where
  size := FSSIZE
  ninodes := NINODES
  inodestart := 2 + nlog
  bmapstart := 2 + nlog + ninodeblocks
  size_lt := by decide
  inodes := by decide
  room := by decide
  ninodes_le := by decide
  root := by decide

lemma layout_size : layout.size = FSSIZE := rfl

lemma layout_ninodes : layout.ninodes = NINODES := rfl

lemma layout_nmeta : layout.nmeta = nmeta := rfl

lemma layout_iblock (i : ℕ) : layout.iblock i = iblock i := rfl

lemma layout_bmapstart : layout.bmapstart = sb.bmapstart := rfl

-- A search through the blocks of `layout` is not to be evaluated in the elaborator.
attribute [irreducible] layout

/-- `readsb` -/
def readsb (disk : ℕ → Bytes) : RawSb where
  size := word (disk 1) 0
  nblocks := word (disk 1) 1
  ninodes := word (disk 1) 2
  nlog := word (disk 1) 3
  logstart := word (disk 1) 4
  inodestart := word (disk 1) 5
  bmapstart := word (disk 1) 6

/-- The values of `type`; `mkfs` and the kernel write no others. -/
def typeOf : ℕ → InodeType
  | 1 => .dir
  | 2 => .file
  | 3 => .dev
  | _ => .free

/-- A `struct dinode` as the kernel copies it. -/
def RawDinode.toDinode (r : RawDinode) : Dinode :=
  ⟨typeOf r.type, short r.major, short r.minor, short r.nlink, r.size, r.addrs⟩

def dinodes (disk : ℕ → Bytes) (i : ℕ) : Dinode :=
  if i < layout.ninodes then (getDinode (disk (layout.iblock i)) (i % IPB)).toDinode
  else .fresh .free

/-- **The file system in an image**, with an empty cache. -/
def mount (disk : ℕ → Bytes) : Fs where
  dinode := dinodes disk
  bitmap k := disk (layout.bmapstart + k / BSIZE) (k % BSIZE)
  data := disk

end Xv6.Mkfs
