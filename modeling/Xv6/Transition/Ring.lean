import Mathlib.Tactic

/-!
A ring buffer with free-running counters.

The places of the ring are numbered modulo its size `N`; a position is a natural number that
only grows.  `Spells N buf b l` says that the ring holds the list `l` from position `b` on.  A
program keeps positions in 32-bit counters, which wrap: `count n` is the counter of position
`n`, and counters tell positions apart as long as these are near each other.
-/

namespace Transition

variable {β : Type*} {N : ℕ} {buf : ℕ → β} {b : ℕ} {l : List β} {x : β}

/-! ### Contents -/

/-- The ring holds `l` from position `b` on. -/
def Spells (N : ℕ) (buf : ℕ → β) (b : ℕ) (l : List β) : Prop :=
  ∀ j x, l[j]? = some x → buf ((b + j) % N) = x

@[simp] lemma spells_nil : Spells N buf b [] := nofun

/-- Positions less than a round apart have different places. -/
lemma add_mod_ne {i j : ℕ} (hij : i < j) (hj : j < i + N) : (b + i) % N ≠ (b + j) % N := by
  intro heq
  have hmod : j - i ≡ 0 [MOD N] := by
    refine Nat.ModEq.add_left_cancel' (b + i) ?_
    rw [Nat.add_zero, show b + i + (j - i) = b + j by omega]
    exact heq.symm
  have hdvd := (Nat.modEq_zero_iff_dvd).mp hmod
  have hle := Nat.le_of_dvd (by omega) hdvd
  omega

/-- A ring that is not full takes an entry at its end. -/
lemma Spells.push (h : Spells N buf b l) (hl : l.length < N) (x : β) :
    Spells N (Function.update buf ((b + l.length) % N) x) b (l ++ [x]) := by
  intro j y hy
  rcases lt_trichotomy j l.length with hj | rfl | hj
  · rw [List.getElem?_append_left hj] at hy
    rw [Function.update_of_ne (add_mod_ne hj (by omega))]
    exact h j y hy
  · rw [List.getElem?_concat_length] at hy
    rw [Function.update_self]
    exact Option.some.inj hy
  · rw [List.getElem?_eq_none (by rw [List.length_append, List.length_singleton]; omega)] at hy
    cases hy

/-- The first entry. -/
lemma Spells.head (h : Spells N buf b (x :: l)) : buf (b % N) = x := h 0 x rfl

/-- The ring without its first entry. -/
lemma Spells.tail (h : Spells N buf b (x :: l)) : Spells N buf (b + 1) l := by
  intro j y hy
  rw [Nat.add_assoc, Nat.add_comm 1 j]
  exact h (j + 1) y hy

/-- The ring without its last entries. -/
lemma Spells.of_append {l' : List β} (h : Spells N buf b (l ++ l')) : Spells N buf b l := by
  intro j y hy
  refine h j y ?_
  rw [List.getElem?_append_left (List.getElem?_eq_some_iff.mp hy).1]
  exact hy

/-! ### Counters -/

/-- The counter at a position. -/
def count (n : ℕ) : UInt32 := UInt32.ofNat n

lemma count_succ (n : ℕ) : count (n + 1) = count n + 1 := by
  simp only [count, UInt32.ofNat_add]
  rfl

/-- The place of a position is the counter modulo the size of the ring. -/
lemma count_mod (n : ℕ) {N : ℕ} (hN : N ∣ 2 ^ 32) : (count n).toNat % N = n % N := by
  rw [count, UInt32.toNat_ofNat', Nat.mod_mod_of_dvd _ hN]

lemma count_inj {m n : ℕ} (hmn : m ≤ n) (hn : n < m + 2 ^ 32) : count m = count n ↔ m = n := by
  refine ⟨fun h => ?_, fun h => h ▸ rfl⟩
  have hmod := congrArg UInt32.toNat h
  rw [count, count, UInt32.toNat_ofNat', UInt32.toNat_ofNat'] at hmod
  by_contra hne
  refine add_mod_ne (N := 2 ^ 32) (b := 0) (lt_of_le_of_ne hmn hne) hn ?_
  rwa [Nat.zero_add, Nat.zero_add]

/-- The difference of two counters. -/
lemma count_sub {m n : ℕ} (hmn : m ≤ n) (hn : n < m + 2 ^ 32) :
    (count n - count m).toNat = n - m := by
  rw [count, count, UInt32.toNat_sub, UInt32.toNat_ofNat', UInt32.toNat_ofNat']
  omega

end Transition
