import Xv6.Transition.RedoLog

/-!
Disk blocks, the log area and inodes on disk (`fs.h`, `stat.h`, `param.h`, `log.c`).

A block is its `BSIZE / 4` ints; the header block of the log is a block read as a
`struct logheader`: the int `n` and after it `n` block numbers.  `Layout` says
where the log is: `nlog = LOGSIZE` blocks from `logstart`, as `mkfs` writes them
into the superblock.  The first of these is the header, so that there is room
for `LOGSIZE - 1` blocks.

* `writeHead`, `readHead`: `write_head` and `read_head`, on the data of the
  header block; `readHead_writeHead` is their round trip.
* `Layout.redo`: the log area as a layout of the redo log protocol.
* `Dinode`: a `struct dinode`, what an inode block holds for one inode number and
  what the inode cache keeps a copy of.  Type 0 marks a dinode that is not in use;
  `ialloc` turns such a dinode into `Dinode.fresh`, and `itrunc` leaves
  `Dinode.truncated`.
-/

namespace Xv6.Fs

abbrev MAXOPBLOCKS : ℕ := 10
abbrev LOGSIZE : ℕ := MAXOPBLOCKS * 3
abbrev NBUF : ℕ := MAXOPBLOCKS * 3
abbrev FSSIZE : ℕ := 1000

/-- The ints of a block, `BSIZE / sizeof(int)`. -/
abbrev NWORDS : ℕ := 512 / 4

abbrev Block : Type := Fin NWORDS → Int32

abbrev Disk : Type := ℕ → Block

/-! ### The header block -/

/-- The int at an offset of the header; only offsets up to `LOGSIZE` are ever
read. -/
def word (b : Block) (i : ℕ) : Int32 := if h : i < NWORDS then b ⟨i, h⟩ else 0

/-- The header that `read_head` finds in a block.  A negative `n` ends its loop,
and that of `install_trans`, before the first block. -/
def readHead (b : Block) : List ℕ :=
  (List.range (word b 0).toInt.toNat).map fun i => (word b (i + 1)).toInt.toNat

/-- The block that `write_head` writes, where `old` is what it read. -/
def writeHead (lh : List ℕ) (old : Block) : Block := fun w =>
  if w.val = 0 then Int32.ofInt lh.length
  else
    match lh[w.val - 1]? with
    | some b => Int32.ofInt b
    | none => old w

lemma LOGSIZE_eq : LOGSIZE = 30 := rfl

lemma toNat_ofInt {n : ℕ} (h : n < 1000) : (Int32.ofInt n).toInt.toNat = n := by
  rw [Int32.toInt_ofInt_of_le (by omega) (by omega), Int.toNat_natCast]

/-- `read_head` reads back what `write_head` wrote. -/
lemma readHead_writeHead {lh : List ℕ} (hn : lh.length < LOGSIZE) (hb : ∀ b ∈ lh, b < FSSIZE)
    (old : Block) : readHead (writeHead lh old) = lh := by
  rw [LOGSIZE_eq] at hn
  have hlen : (word (writeHead lh old) 0).toInt.toNat = lh.length := by
    simp only [word, writeHead]
    exact toNat_ofInt (by omega)
  apply List.ext_getElem
  · simp [readHead, hlen]
  · intro i _ hi
    have hw : i + 1 < 128 := by omega
    simp only [readHead, List.getElem_map, List.getElem_range, word, dif_pos hw, writeHead,
      Nat.add_one_ne_zero, if_false, Nat.add_sub_cancel, List.getElem?_eq_getElem hi]
    exact toNat_ofInt (hb _ (List.getElem_mem hi))

example : readHead (writeHead [45, 32] fun _ => 7) = [45, 32] := by decide

/-! ### The log area -/

/-- Where the log is on the disk. -/
structure Layout where
  logstart : ℕ
  fits : logstart + LOGSIZE ≤ FSSIZE

namespace Layout

variable (L : Layout)

/-- The blocks of the log, its header included. -/
def InLog (b : ℕ) : Prop := L.logstart ≤ b ∧ b < L.logstart + LOGSIZE

/-- The blocks outside the log. -/
def Home (b : ℕ) : Prop := b < FSSIZE ∧ ¬L.InLog b

instance (b : ℕ) : Decidable (L.InLog b) := inferInstanceAs (Decidable (_ ∧ _))

instance (b : ℕ) : Decidable (L.Home b) := inferInstanceAs (Decidable (_ ∧ _))

/-- The block `log.start+tail+1`. -/
def slot (tail : ℕ) : ℕ := L.logstart + tail + 1

/-- The log area as a redo log with one block of it taken by the header. -/
def redo : RedoLog.Layout ℕ Block where
  head := L.logstart
  slot := L.slot
  cap := LOGSIZE - 1
  home := L.Home
  read := readHead
  head_not_home h := h.2 ⟨le_rfl, Nat.lt_add_of_pos_right (by decide)⟩
  slot_not_home i hi h := h.2 ⟨by rw [slot]; omega, by rw [slot]; omega⟩
  slot_ne_head i _ h := by rw [slot] at h; omega
  slot_inj i _ j _ h := by rw [slot, slot] at h; omega

lemma inLog_head : L.InLog L.logstart := ⟨le_rfl, Nat.lt_add_of_pos_right (by decide)⟩

lemma inLog_slot {i : ℕ} (hi : i < LOGSIZE - 1) : L.InLog (L.slot i) :=
  ⟨by rw [slot]; omega, by rw [slot]; omega⟩

end Layout

/-! ### Inodes on disk -/

abbrev BSIZE : ℕ := 512
abbrev NDIRECT : ℕ := 12
/-- `BSIZE / sizeof(uint)`. -/
abbrev NINDIRECT : ℕ := BSIZE / 4
abbrev MAXFILE : ℕ := NDIRECT + NINDIRECT
abbrev NINODE : ℕ := 50
abbrev ROOTINO : ℕ := 1

/-- The values of `type`: 0, `T_DIR`, `T_FILE` and `T_DEV`. -/
inductive InodeType where
  | free
  | dir
  | file
  | dev
  deriving DecidableEq, Repr

structure Dinode where
  type : InodeType
  major : ℤ
  minor : ℤ
  nlink : ℤ
  size : ℕ
  addrs : Fin (NDIRECT + 1) → ℕ
  deriving DecidableEq

namespace Dinode

/-- What `ialloc` writes: `memset` to zero and then the type. -/
def fresh (ty : InodeType) : Dinode := ⟨ty, 0, 0, 0, 0, fun _ => 0⟩

/-- What `itrunc` leaves of an inode. -/
def truncated (d : Dinode) : Dinode := { d with size := 0, addrs := fun _ => 0 }

@[simp] lemma fresh_type (ty : InodeType) : (fresh ty).type = ty := rfl
@[simp] lemma fresh_nlink (ty : InodeType) : (fresh ty).nlink = 0 := rfl
@[simp] lemma truncated_type (d : Dinode) : d.truncated.type = d.type := rfl
@[simp] lemma truncated_nlink (d : Dinode) : d.truncated.nlink = d.nlink := rfl

end Dinode

end Xv6.Fs
