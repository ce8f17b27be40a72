import Mathlib.Tactic

/-!
Places that own resources.

`addr x` is the resource that the place `x` owns, with 0 for none, and `used` marks the
resources that are taken.  The resources below `lo` belong to nobody's place; they are always
taken.  `Owned` says that each resource from `lo` to `hi` is owned at most once and is marked
exactly when it is owned.  `Owned.take` and `Owned.drop` are the two ways to change this.
-/

namespace Transition

variable {π : Type*} {lo hi : ℕ} {addr : π → ℕ} {used : ℕ → Bool}

structure Owned (lo hi : ℕ) (addr : π → ℕ) (used : ℕ → Bool) : Prop where
  range : ∀ x, addr x ≠ 0 → lo ≤ addr x ∧ addr x < hi
  inj : ∀ x y, addr x ≠ 0 → addr x = addr y → x = y
  used : ∀ b < hi, used b = true ↔ b < lo ∨ ∃ x, addr x ≠ 0 ∧ addr x = b

namespace Owned

variable {addr' : π → ℕ} {used' : ℕ → Bool}

variable (h : Owned lo hi addr used)

include h

lemma congr (haddr : ∀ x, addr' x = addr x) (hused : ∀ b < hi, used' b = used b) :
    Owned lo hi addr' used' := by
  obtain rfl : addr' = addr := funext haddr
  exact ⟨h.range, h.inj, fun b hb => by rw [hused b hb, h.used b hb]⟩

/-- What is owned is marked. -/
lemma used_addr {x : π} (hx : addr x ≠ 0) : used (addr x) = true :=
  (h.used _ (h.range x hx).2).mpr (.inr ⟨x, hx, rfl⟩)

/-- What is not marked is not owned. -/
lemma addr_ne {b : ℕ} (hb : used b = false) {x : π} (hx : addr x ≠ 0) : addr x ≠ b := by
  rintro rfl
  simp [h.used_addr hx] at hb

/-- A place that owns nothing takes a resource that is not marked. -/
lemma take [DecidableEq π] {x : π} {b : ℕ} (hlo : 0 < lo) (hx : addr x = 0) (hb : used b = false)
    (hhi : b < hi) (haddr : ∀ y, addr' y = if y = x then b else addr y)
    (hused : ∀ c, used' c = (used c || decide (c = b))) : Owned lo hi addr' used' := by
  have hblo : lo ≤ b := by
    by_contra hlt
    have hmark := (h.used b hhi).mpr (.inl (by omega))
    simp [hb] at hmark
  refine ⟨fun y hy => ?_, fun y z hy hyz => ?_, fun c hc => ?_⟩
  · rw [haddr] at hy ⊢
    split at hy
    · rw [if_pos ‹_›]
      exact ⟨hblo, hhi⟩
    · rw [if_neg ‹_›]
      exact h.range y hy
  · rw [haddr] at hy
    rw [haddr, haddr] at hyz
    by_cases hyx : y = x <;> by_cases hzx : z = x
    · rw [hyx, hzx]
    · rw [if_pos hyx, if_neg hzx] at hyz
      exact absurd hyz.symm (h.addr_ne hb (by omega))
    · rw [if_neg hyx, if_pos hzx] at hyz
      rw [if_neg hyx] at hy
      exact absurd hyz (h.addr_ne hb hy)
    · rw [if_neg hyx] at hy
      rw [if_neg hyx, if_neg hzx] at hyz
      exact h.inj y z hy hyz
  · rw [hused, Bool.or_eq_true, h.used c hc, decide_eq_true_eq]
    constructor
    · rintro ((hlt | ⟨y, hy, rfl⟩) | rfl)
      · exact .inl hlt
      · refine .inr ⟨y, ?_⟩
        rw [haddr, if_neg (by rintro rfl; exact hy hx)]
        exact ⟨hy, rfl⟩
      · refine .inr ⟨x, ?_⟩
        rw [haddr, if_pos rfl]
        exact ⟨by omega, rfl⟩
    · rintro (hlt | ⟨y, hy, hyc⟩)
      · exact .inl (.inl hlt)
      · rw [haddr] at hy hyc
        split at hyc
        · exact .inr hyc.symm
        · rw [if_neg ‹_›] at hy
          exact .inl (.inr ⟨y, hy, hyc⟩)

/-- A place gives its resource back. -/
lemma drop [DecidableEq π] {x : π} (hx : addr x ≠ 0)
    (haddr : ∀ y, addr' y = if y = x then 0 else addr y)
    (hused : ∀ c, used' c = (used c && decide (c ≠ addr x))) : Owned lo hi addr' used' := by
  refine ⟨fun y hy => ?_, fun y z hy hyz => ?_, fun c hc => ?_⟩
  · rw [haddr] at hy ⊢
    split at hy
    · exact absurd rfl hy
    · rw [if_neg ‹_›]
      exact h.range y hy
  · rw [haddr] at hy
    rw [haddr, haddr] at hyz
    split at hy
    · exact absurd rfl hy
    · rw [if_neg ‹_›] at hyz
      split at hyz
      · exact absurd hyz hy
      · exact h.inj y z hy hyz
  · rw [hused, Bool.and_eq_true, h.used c hc, decide_eq_true_eq]
    constructor
    · rintro ⟨hlt | ⟨y, hy, rfl⟩, hne⟩
      · exact .inl hlt
      · refine .inr ⟨y, ?_⟩
        rw [haddr, if_neg (by rintro rfl; exact hne rfl)]
        exact ⟨hy, rfl⟩
    · rintro (hlt | ⟨y, hy, rfl⟩)
      · exact ⟨.inl hlt, fun heq => by have := (h.range x hx).1; omega⟩
      · rw [haddr] at hy ⊢
        split at hy
        · exact absurd rfl hy
        · rw [if_neg ‹_›]
          exact ⟨.inr ⟨y, hy, rfl⟩, fun heq => ‹¬y = x› (h.inj y x hy heq)⟩

end Owned

end Transition
