import Mathlib.Tactic

/-!
Counting the members of a family that are in a given condition, under a change of
one member.

`tally p f` is the number of indices `t` with `p (f t)`.  `tally_update` is
stated without subtraction, so that a counter kept by a program is compared with
a tally by `omega`.
-/

namespace Transition

open Function

variable {T β : Type*} [Fintype T] {p : β → Prop} [DecidablePred p] {f : T → β}

/-- The number of members of the family that satisfy `p`. -/
def tally (p : β → Prop) [DecidablePred p] (f : T → β) : ℕ :=
  (Finset.univ.filter fun t => p (f t)).card

/-- A change of one member changes the number by what it adds less what it takes. -/
lemma tally_update [DecidableEq T] (p : β → Prop) [DecidablePred p] (f : T → β) (t : T) (v : β) :
    tally p (update f t v) + (if p (f t) then 1 else 0)
      = tally p f + (if p v then 1 else 0) := by
  have hother : ∑ u ∈ Finset.univ.erase t, (if p (update f t v u) then 1 else 0)
      = ∑ u ∈ Finset.univ.erase t, if p (f u) then 1 else 0 :=
    Finset.sum_congr rfl fun u hu => by rw [update_of_ne (Finset.ne_of_mem_erase hu)]
  rw [tally, tally, Finset.card_filter, Finset.card_filter,
    ← Finset.add_sum_erase _ _ (Finset.mem_univ t), hother, update_self,
    ← Finset.add_sum_erase Finset.univ (fun u => if p (f u) then 1 else 0) (Finset.mem_univ t)]
  omega

/-- A change of one share changes the sum by as much. -/
lemma sum_update_add [DecidableEq T] (g : T → ℕ) (t : T) (k : ℕ) :
    ∑ u, update g t k u + g t = ∑ u, g u + k := by
  rw [Finset.sum_update_of_mem (Finset.mem_univ t),
    ← Finset.add_sum_erase Finset.univ g (Finset.mem_univ t), Finset.sdiff_singleton_eq_erase]
  omega

/-- When one member's share changes and no other's grows, the sum grows by no more
than that share. -/
lemma sum_add_le_of_ne [DecidableEq T] {g h : T → ℕ} (t : T) (hle : ∀ u ≠ t, h u ≤ g u) :
    ∑ u, h u + g t ≤ ∑ u, g u + h t := by
  have hother : ∑ u ∈ Finset.univ.erase t, h u ≤ ∑ u ∈ Finset.univ.erase t, g u :=
    Finset.sum_le_sum fun u hu => hle u (Finset.ne_of_mem_erase hu)
  rw [← Finset.add_sum_erase _ h (Finset.mem_univ t),
    ← Finset.add_sum_erase _ g (Finset.mem_univ t)]
  omega

/-- A sum of shares of at most `k` over the members with `p`. -/
lemma sum_le_mul_tally {k : ℕ} {g : T → ℕ} (h : ∀ t, g t ≤ if p (f t) then k else 0) :
    ∑ t, g t ≤ k * tally p f := by
  calc ∑ t, g t ≤ ∑ t, if p (f t) then k else 0 := Finset.sum_le_sum fun t _ => h t
    _ = k * tally p f := by
      rw [← Finset.sum_filter, Finset.sum_const, tally, smul_eq_mul, Nat.mul_comm]

lemma tally_pos {t : T} (h : p (f t)) : 0 < tally p f :=
  Finset.card_pos.mpr ⟨t, by simp [h]⟩

lemma tally_eq_zero : tally p f = 0 ↔ ∀ t, ¬p (f t) := by
  simp [tally, Finset.filter_eq_empty_iff]

lemma tally_congr {β' : Type*} {q : β' → Prop} [DecidablePred q] {g : T → β'}
    (h : ∀ t, p (f t) ↔ q (g t)) : tally p f = tally q g := by
  simp only [tally, h]

end Transition
