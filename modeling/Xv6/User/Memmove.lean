import Mathlib.Algebra.Order.Ring.Int
import Mathlib.Logic.Function.Basic

/-!
The two versions of `memmove`: the kernel's (`kernel/string.c`) and that of the user library
(`user/ulib.c`).

* `moved`: what a move should leave in memory.
* `kernelMemmove_eq`: the kernel's version does it, for ranges that overlap in any way.
* `copyUp_eq_moved_iff`: copying upwards does it exactly if no byte of the source is
  overwritten with another value before it is read.
* `memmove_iff`: when the two agree.
-/

namespace Xv6.User

open Function

/-- The contents of the address space. -/
abbrev Memory := ℕ → ℕ

/-- `while(n-- > 0) *d++ = *s++;` -/
def copyUp (mem : Memory) (d s : ℕ) : ℕ → Memory
  | 0 => mem
  | n + 1 => copyUp (update mem d (mem s)) (d + 1) (s + 1) n

/-- `while(n-- > 0) *--d = *--s;` with `s` and `d` advanced by `n` before. -/
def copyDown (mem : Memory) (d s : ℕ) : ℕ → Memory
  | 0 => mem
  | n + 1 => copyDown (update mem (d + n) (mem (s + n))) d s n

/-- `memmove` of the kernel. -/
def kernelMemmove (mem : Memory) (dst src n : ℕ) : Memory :=
  -- the sum of a pointer and `n` is again a pointer
  if src < dst ∧ (src + n) % 2 ^ 32 > dst then copyDown mem dst src n
  else copyUp mem dst src n

/-- `memmove` of the user library. -/
def memmove (mem : Memory) (vdst vsrc : ℕ) (n : ℤ) : Memory := copyUp mem vdst vsrc n.toNat

/-- An unsigned number passed as an `int`. -/
def asInt (n : ℕ) : ℤ := Int.bmod n (2 ^ 32)

/-- The bytes of the source at the destination, and everything else as it was. -/
def moved (mem : Memory) (d s n : ℕ) : Memory :=
  fun a => if d ≤ a ∧ a < d + n then mem (s + (a - d)) else mem a

section Copy

variable {mem : Memory} {d s n : ℕ}

@[simp] lemma moved_zero : moved mem d s 0 = mem := by
  funext a
  exact if_neg (by omega)

lemma moved_add {i : ℕ} (hi : i < n) : moved mem d s n (d + i) = mem (s + i) := by
  rw [moved, if_pos (by omega), Nat.add_sub_cancel_left]

lemma moved_of_lt {a : ℕ} (ha : a < d) : moved mem d s n a = mem a := if_neg (by omega)

lemma moved_of_le {a : ℕ} (ha : d + n ≤ a) : moved mem d s n a = mem a := if_neg (by omega)

/-- Downwards, a byte of the source is read before it is overwritten. -/
lemma copyDown_eq_moved (h : s < d) : copyDown mem d s n = moved mem d s n := by
  induction n generalizing mem with
  | zero => exact moved_zero.symm
  | succ n ih =>
    rw [copyDown, ih]
    funext a
    rcases lt_or_ge a d with ha | ha
    · rw [moved_of_lt ha, moved_of_lt ha, update_of_ne (by omega)]
    · obtain ⟨i, rfl⟩ := Nat.exists_eq_add_of_le ha
      rcases lt_trichotomy i n with hi | rfl | hi
      · rw [moved_add hi, moved_add (by omega), update_of_ne (by omega)]
      · rw [moved_of_le (by omega), moved_add (by omega), update_self]
      · rw [moved_of_le (by omega), moved_of_le (by omega), update_of_ne (by omega)]

/-- What the move reads in the destination is what it writes there. -/
def Repeats (mem : Memory) (d s n : ℕ) : Prop :=
  s < d → ∀ i, d + i < s + n → mem (d + i) = mem (s + i)

/-- In a range that repeats the first byte is there already. -/
lemma Repeats.update_eq (h : Repeats mem d s n) (hsd : s < d) (hdn : d < s + n) :
    update mem d (mem s) = mem :=
  update_eq_self_iff.mpr (h hsd 0 hdn).symm

lemma Repeats.tail (h : Repeats mem d s (n + 1)) :
    Repeats (update mem d (mem s)) (d + 1) (s + 1) n := by
  intro hsd i hi
  have hsd' : s < d := by omega
  rw [h.update_eq hsd' (by omega), Nat.add_assoc, Nat.add_assoc, Nat.add_comm 1]
  exact h hsd' (i + 1) (by omega)

lemma copyUp_eq_moved (h : Repeats mem d s n) : copyUp mem d s n = moved mem d s n := by
  induction n generalizing mem d s with
  | zero => exact moved_zero.symm
  | succ n ih =>
    rw [copyUp, ih h.tail]
    funext a
    rcases lt_trichotomy a d with ha | rfl | ha
    · rw [moved_of_lt (by omega), moved_of_lt ha, update_of_ne (by omega)]
    · rw [moved_of_lt (by omega), update_self]
      exact (moved_add (i := 0) (by omega)).symm
    · obtain ⟨i, rfl⟩ := Nat.exists_eq_add_of_le (Nat.add_one_le_iff.mpr ha)
      rcases lt_or_ge i n with hi | hi
      · have hread : update mem d (mem s) (s + 1 + i) = mem (s + 1 + i) := by
          by_cases hd : s + 1 + i = d
          · rw [h.update_eq (by omega) (by omega)]
          · exact update_of_ne hd ..
        rw [moved_add hi, hread, Nat.add_assoc d, moved_add (by omega), Nat.add_assoc]
      · rw [moved_of_le (by omega), moved_of_le (by omega), update_of_ne (by omega)]

/-- Upwards, a byte of the source below the destination is not written after it is read. -/
lemma copyUp_of_lt {a : ℕ} (ha : a < d) : copyUp mem d s n a = mem a := by
  induction n generalizing mem d s with
  | zero => rfl
  | succ n ih => rw [copyUp, ih (by omega), update_of_ne (by omega)]

lemma copyUp_add (h : s < d) {i : ℕ} (hi : i < n) :
    copyUp mem d s n (d + i) = copyUp mem d s n (s + i) := by
  induction n generalizing mem d s i with
  | zero => omega
  | succ n ih =>
    cases i with
    | zero =>
      rw [copyUp, copyUp_of_lt (by omega), copyUp_of_lt (by omega), Nat.add_zero, Nat.add_zero,
        update_self, update_of_ne (by omega)]
    | succ i =>
      rw [copyUp, Nat.add_comm i, ← Nat.add_assoc, ← Nat.add_assoc]
      exact ih (by omega) (by omega)

lemma copyUp_eq_moved_iff : copyUp mem d s n = moved mem d s n ↔ Repeats mem d s n := by
  refine ⟨fun h hsd i hi => ?_, copyUp_eq_moved⟩
  obtain ⟨k, rfl⟩ := Nat.exists_eq_add_of_lt hsd
  -- the byte at `d + i` of the source is the one that was written there
  have hcopy : copyUp mem _ s n _ = _ := copyUp_add hsd (show k + 1 + i < n by omega)
  rw [h, moved_add (by omega), show s + (k + 1 + i) = s + k + 1 + i by omega,
    moved_add (by omega)] at hcopy
  exact hcopy

end Copy

/-- **The kernel's version is right**: ranges for which `s + n` wraps around do not overlap. -/
lemma kernelMemmove_eq (mem : Memory) {dst src n : ℕ} (hsrc : src + n ≤ 2 ^ 32)
    (hdst : dst + n ≤ 2 ^ 32) : kernelMemmove mem dst src n = moved mem dst src n := by
  unfold kernelMemmove
  split_ifs with h
  · exact copyDown_eq_moved h.1
  · apply copyUp_eq_moved
    intro hlt i hi
    have hmod : (src + n) % 2 ^ 32 = src + n := Nat.mod_eq_of_lt (by omega)
    omega

/-- Passed as an `int`, a number from `2 ^ 31` on is negative. -/
lemma toNat_asInt {n : ℕ} (hn : n < 2 ^ 32) : (asInt n).toNat = if n < 2 ^ 31 then n else 0 := by
  unfold asInt
  rw [Int.bmod_def]
  split_ifs <;> omega

/-- **When the two versions agree**: the number of bytes is not negative as an `int` and no
byte of the source is overwritten with another value before it is read, or there is nothing
to change. -/
theorem memmove_iff (mem : Memory) {dst src n : ℕ} (hn : n < 2 ^ 32) (hsrc : src + n ≤ 2 ^ 32)
    (hdst : dst + n ≤ 2 ^ 32) :
    (kernelMemmove mem dst src n = moved mem dst src n ∧
      memmove mem dst src (asInt n) = moved mem dst src n) ↔
    (n < 2 ^ 31 ∧ (src < dst → ∀ i, dst + i < src + n → mem (dst + i) = mem (src + i))) ∨
      ∀ i < n, mem (dst + i) = mem (src + i) := by
  have hsame : mem = moved mem dst src n ↔ ∀ i < n, mem (dst + i) = mem (src + i) := by
    refine ⟨fun h i hi => (congrFun h _).trans (moved_add hi), fun h => ?_⟩
    funext a
    rcases lt_or_ge a dst with ha | ha
    · exact (moved_of_lt ha).symm
    · obtain ⟨i, rfl⟩ := Nat.exists_eq_add_of_le ha
      rcases lt_or_ge i n with hi | hi
      · rw [h i hi, moved_add hi]
      · exact (moved_of_le (by omega)).symm
  rw [and_iff_right (kernelMemmove_eq mem hsrc hdst), memmove, toNat_asInt hn]
  split_ifs with h31
  · rw [copyUp_eq_moved_iff]
    exact ⟨fun h => .inl ⟨h31, h⟩, fun h => h.elim And.right fun h _ i hi => h i (by omega)⟩
  · rw [copyUp, hsame]
    exact ⟨.inr, fun h => h.resolve_left fun h => h31 h.1⟩

/-- Two bytes, moved down by one. -/
theorem memmove_iff_down : kernelMemmove id 0 1 2 = moved id 0 1 2 ∧
    memmove id 0 1 (asInt 2) = moved id 0 1 2 :=
  (memmove_iff id (by decide) (by decide) (by decide)).mpr
    (.inl ⟨by decide, fun h => absurd h (by decide)⟩)

/-- Two bytes, moved up by one: the second one is overwritten before it is read. -/
theorem memmove_overlap : ¬ (kernelMemmove id 1 0 2 = moved id 1 0 2 ∧
    memmove id 1 0 (asInt 2) = moved id 1 0 2) :=
  fun h => absurd (congrFun h.2 2) (by decide)

end Xv6.User
