import Xv6.Fs.Block

/-!
The state of the file system, for calls that run one after the other (`fs.h`, `file.h`).

The disk is what the buffer cache shows of it, in three areas: the dinodes, the bytes of the
free map and the bytes of the data blocks.  A `Superblock` says where the areas are; an
address that leads out of its area is the `Stop` `stray`, and what the code does then is not
followed.

* `Fs`: the disk and the inode cache.  `logged` lists the blocks passed to `log_write` in the
  current transaction.  `through` says that whenever an inode was unlocked its valid copy was
  equal to the dinode.  No code reads the two.
* `Stop`: the panics, and a process that sleeps with nobody to wake it.
* `FsM`: the code runs in a state and may stop.
-/

namespace Xv6.Files

open Xv6.Fs Function

abbrev DIRSIZ : ℕ := 14
abbrev NDEV : ℕ := 10
abbrev CONSOLE : ℤ := 1
/-- Inodes per block. -/
abbrev IPB : ℕ := BSIZE / 64
/-- Bitmap bits per block. -/
abbrev BPB : ℕ := BSIZE * 8

/-- The fields of `struct superblock` that the kernel uses, with a layout as `mkfs` chooses
it: the inode blocks, the free map, and the data blocks up to `size`. -/
structure Superblock where
  size : ℕ
  ninodes : ℕ
  inodestart : ℕ
  bmapstart : ℕ
  size_lt : size < 2 ^ 32
  inodes : inodestart + ninodes / IPB < bmapstart
  room : bmapstart + (size / BPB + 1) < size
  /-- A directory entry has 16 bits for an inode number. -/
  ninodes_le : ninodes ≤ 2 ^ 16
  root : ROOTINO < ninodes

namespace Superblock

variable (sb : Superblock)

/-- The number of blocks before the data blocks. -/
def nmeta : ℕ := sb.bmapstart + (sb.size / BPB + 1)

/-- `IBLOCK`: the block of an inode. -/
def iblock (inum : ℕ) : ℕ := inum / IPB + sb.inodestart

/-- `BBLOCK`: the block of a bit of the free map. -/
def bblock (b : ℕ) : ℕ := b / BPB + sb.bmapstart

end Superblock

/-- The bytes of a block. -/
abbrev Bytes : Type := ℕ → ℕ

/-- The `k`th `uint` of a block. -/
def word (d : Bytes) (k : ℕ) : ℕ :=
  d (4 * k) + 256 * d (4 * k + 1) + 256 ^ 2 * d (4 * k + 2) + 256 ^ 3 * d (4 * k + 3)

def setWord (d : Bytes) (k v : ℕ) : Bytes := fun j =>
  if j / 4 = k then v / 256 ^ (j % 4) % 256 else d j

/-- A `memmove` into a block. -/
def splice (d : Bytes) (o : ℕ) (src : List ℕ) : Bytes := fun j =>
  if o ≤ j ∧ j < o + src.length then src.getD (j - o) 0 else d j

abbrev Ip : Type := Fin NINODE

/-- `struct inode`; `din` is the copy of the dinode. -/
structure Inode where
  inum : ℕ := 0
  ref : ℕ := 0
  lock : Bool := false
  valid : Bool := false
  din : Dinode := .fresh .free

structure Fs where
  dinode : ℕ → Dinode
  /-- The free map; byte `k` has the bits of the blocks `8 * k` to `8 * k + 7`. -/
  bitmap : ℕ → ℕ
  data : ℕ → Bytes
  inode : Ip → Inode := fun _ => {}
  /-- What the next calls of `consoleread` get; `none` for a process that is killed. -/
  input : List (Option (List ℕ)) := []
  logged : List ℕ := []
  through : Bool := true

inductive Stop where
  /-- `balloc: out of blocks` -/
  | outOfBlocks
  /-- `freeing free block` -/
  | freeingFreeBlock
  /-- `ialloc: no inodes` -/
  | iallocNoInodes
  /-- `iget: no inodes` -/
  | igetNoInodes
  /-- `ilock` -/
  | ilock
  /-- `ilock: no type` -/
  | ilockNoType
  /-- `iunlock` -/
  | iunlock
  /-- `bmap: out of range` -/
  | bmapOutOfRange
  /-- `dirlookup not DIR` -/
  | dirlookupNotDir
  /-- `dirlookup read` -/
  | dirlookupRead
  /-- `dirlink read` -/
  | dirlinkRead
  /-- `dirlink` -/
  | dirlink
  /-- `isdirempty: readi` -/
  | isdiremptyReadi
  /-- `unlink: nlink < 1` -/
  | unlinkNlink
  /-- `unlink: writei` -/
  | unlinkWritei
  /-- `create dots` -/
  | createDots
  /-- `create: dirlink` -/
  | createDirlink
  /-- `filedup` -/
  | filedup
  /-- `fileclose` -/
  | fileclose
  /-- The process sleeps and nobody is there to wake it. -/
  | asleep
  /-- An address leads out of its area of the disk. -/
  | stray
  deriving DecidableEq, Repr

/-- Code of the file system. -/
abbrev FsM : Type → Type := EStateM Stop Fs

namespace Fs

variable (s : Fs)

def setInode (k : Ip) (ip : Inode) : Fs := { s with inode := update s.inode k ip }

def setDinode (i : ℕ) (d : Dinode) : Fs := { s with dinode := update s.dinode i d }

def setData (b : ℕ) (d : Bytes) : Fs := { s with data := update s.data b d }

def setByte (k v : ℕ) : Fs := { s with bitmap := update s.bitmap k v }

def log (b : ℕ) : Fs := { s with logged := s.logged ++ [b] }

@[simp] lemma setInode_inode_self (k : Ip) (ip : Inode) : (s.setInode k ip).inode k = ip :=
  update_self ..

@[simp] lemma setInode_dinode (k : Ip) (ip : Inode) : (s.setInode k ip).dinode = s.dinode := rfl

@[simp] lemma setDinode_inode (i : ℕ) (d : Dinode) : (s.setDinode i d).inode = s.inode := rfl

@[simp] lemma log_inode (b : ℕ) : (s.log b).inode = s.inode := rfl

@[simp] lemma log_dinode (b : ℕ) : (s.log b).dinode = s.dinode := rfl

@[simp] lemma setInode_setInode (k : Ip) (ip ip' : Inode) :
    (s.setInode k ip).setInode k ip' = s.setInode k ip' := by
  simp only [setInode, update_idem]

end Fs

/-- A `short`. -/
def short (x : ℤ) : ℤ := x.bmod (2 ^ 16)

end Xv6.Files
