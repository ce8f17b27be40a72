import Xv6.Files.Inodes

/-!
Directories and paths (`fs.c`, `string.c`).

A name or a path is the list of its bytes up to the terminating NUL; where a buffer has no
NUL the list is as long as the buffer.
-/

namespace Xv6.Files

open Xv6.Fs

variable (sb : Superblock)

/-! ### Directory entries -/

/-- `strncmp`; a byte past the end of a list is the NUL. -/
def strncmp (p q : List ℕ) : ℕ → ℤ
  | 0 => 0
  | n + 1 =>
    if p.headD 0 ≠ 0 ∧ p.headD 0 = q.headD 0 then strncmp p.tail q.tail n
    else p.headD 0 - q.headD 0

/-- What `strncpy` leaves in a buffer of `n` bytes. -/
def strncpy (t : List ℕ) (n : ℕ) : List ℕ :=
  let copied := (t.takeWhile (· ≠ 0)).take n
  copied ++ List.replicate (n - copied.length) 0

def namecmp (s t : List ℕ) : ℤ := strncmp s t DIRSIZ

/-- `struct dirent`. -/
structure Dirent where
  inum : ℕ
  name : List ℕ
  deriving DecidableEq, Repr

/-- `sizeof(struct dirent)`. -/
abbrev DESIZE : ℕ := 2 + DIRSIZ

namespace Dirent

def toBytes (de : Dirent) : List ℕ := [de.inum % 256, de.inum / 256 % 256] ++ de.name

def ofBytes (bs : List ℕ) : Dirent := ⟨bs.getD 0 0 + 256 * bs.getD 1 0, bs.drop 2⟩

end Dirent

/-- An entry is read; `stop` is the panic of the caller. -/
def readDirent (dp : Ip) (off : ℕ) (stop : Stop) : FsM Dirent := do
  match ← readi sb dp off DESIZE with
  | none => throw stop
  | some bs => if bs.length = DESIZE then return .ofBytes bs else throw stop

/-- The loop of `dirlookup`. -/
def lookupLoop (dp : Ip) (name : List ℕ) : ℕ → ℕ → FsM (Option (Ip × ℕ))
  | 0, _ => return none
  | fuel + 1, off => do
    if off < (← inode dp).din.size then
      let de ← readDirent sb dp off .dirlookupRead
      if de.inum = 0 then lookupLoop dp name fuel (off + DESIZE)
      else if namecmp name de.name = 0 then
        -- entry matches path element
        let ip ← iget de.inum
        return some (ip, off)
      else lookupLoop dp name fuel (off + DESIZE)
    else return none

/-- Look for a directory entry in a directory.  If found, return the inode and the byte
offset of the entry. -/
def dirlookup (dp : Ip) (name : List ℕ) : FsM (Option (Ip × ℕ)) := do
  let d := (← inode dp).din
  if d.type ≠ .dir then throw .dirlookupNotDir
  else lookupLoop sb dp name (d.size + 1) 0

/-- The loop of `dirlink`: the offset of an empty entry, or of the end. -/
def emptyLoop (dp : Ip) : ℕ → ℕ → FsM ℕ
  | 0, off => return off
  | fuel + 1, off => do
    if off < (← inode dp).din.size then
      let de ← readDirent sb dp off .dirlinkRead
      if de.inum = 0 then return off else emptyLoop dp fuel (off + DESIZE)
    else return off

/-- Write a new directory entry (name, inum) into the directory `dp`.  `false` is -1. -/
def dirlink (dp : Ip) (name : List ℕ) (inum : ℕ) : FsM Bool := do
  -- Check that name is not present.
  match ← dirlookup sb dp name with
  | some (ip, _) =>
    iput sb ip
    return false
  | none =>
    -- Look for an empty dirent.
    let off ← emptyLoop sb dp ((← inode dp).din.size + 1) 0
    let de : Dirent := ⟨inum, strncpy name DIRSIZ⟩
    match ← writei sb dp de.toBytes off with
    | some n => if n = DESIZE then return true else throw .dirlink
    | none => throw .dirlink

/-! ### Paths -/

/-- The character `/`. -/
abbrev slash : ℕ := 47

/-- Copy the next path element from path into name.  Return it with the rest of the path,
which has no leading slashes.  If no name to remove, return `none`. -/
def skipelem (path : List ℕ) : Option (List ℕ × List ℕ) :=
  let path := path.dropWhile (· = slash)
  if path = [] then none
  else
    some ((path.takeWhile (· ≠ slash)).take DIRSIZ,
      (path.dropWhile (· ≠ slash)).dropWhile (· = slash))

section Walk

variable (skip : List ℕ → List ℕ → Option (List ℕ × List ℕ))

/-- The loop of `namex`; `name` is the buffer, and `skip` takes the next element from the path. -/
def namexLoopWith (parent : Bool) : ℕ → Ip → List ℕ → List ℕ → FsM (Option (Ip × List ℕ))
  | 0, _, _, _ => return none
  | fuel + 1, ip, path, name => do
    match skip path name with
    | none =>
      if parent then
        iput sb ip
        return none
      else return some (ip, name)
    | some (name, path) =>
      ilock sb ip
      if (← inode ip).din.type ≠ .dir then
        iunlockput sb ip
        return none
      else if parent ∧ path = [] then
        -- Stop one level early.
        iunlock ip
        return some (ip, name)
      else
        match ← dirlookup sb ip name with
        | none =>
          iunlockput sb ip
          return none
        | some (next, _) =>
          iunlockput sb ip
          namexLoopWith parent fuel next path name

/-- Look up and return the inode for a path name.  If `parent`, return the inode for the
parent and the final path element. -/
def namexWith (cwd : Ip) (path : List ℕ) (parent : Bool) (name : List ℕ) :
    FsM (Option (Ip × List ℕ)) := do
  let ip ← if path.head? = some slash then iget ROOTINO else idup cwd
  namexLoopWith sb skip parent (path.length + 1) ip path name

end Walk

/-- The loop of `namex`, over names. -/
abbrev namexLoop := namexLoopWith sb fun path _ => skipelem path

def namex (cwd : Ip) (path : List ℕ) (parent : Bool) : FsM (Option (Ip × List ℕ)) :=
  namexWith sb (fun path _ => skipelem path) cwd path parent []

def namei (cwd : Ip) (path : List ℕ) : FsM (Option Ip) := do
  return (← namex sb cwd path false).map Prod.fst

def nameiparent (cwd : Ip) (path : List ℕ) : FsM (Option (Ip × List ℕ)) :=
  namex sb cwd path true

end Xv6.Files
