import Mathlib.Data.List.Nodup
import Mathlib.Logic.Function.Basic
import Mathlib.Tactic

/-!
A pool of resources and the places that hold them.

`hold p` is the resource that the place `p` holds, if any.  `free` lists the resources that are in
the pool, and `H` are resources that are held elsewhere.  `Holdings` says that the resources in `W`
are exactly these, each of them once.  A resource is taken out of the pool and given back
(`Holdings.take`, `Holdings.give`), and is put in a place and taken out of it (`Holdings.place`,
`Holdings.unplace`); `Holdings.exchange` changes the places that are looked at, `Holdings.hide`
looks at none and `Holdings.reveal` looks at them again.  `Holdings.encard_le` bounds the resources
when the pool is empty, and `Holdings.encard_free` counts the pool.
-/

namespace Transition

open Function

/-- Each resource of `W` is free, held elsewhere or at one place. -/
structure Holdings {π ρ : Type*} (hold : π → Option ρ) (free : List ρ) (H W : Set ρ) : Prop where
  inj : ∀ p q n, hold p = some n → hold q = some n → p = q
  nodup : free.Nodup
  free_hold : ∀ n ∈ free, ∀ p, hold p ≠ some n
  free_held : ∀ n ∈ free, n ∉ H
  held_hold : ∀ n ∈ H, ∀ p, hold p ≠ some n
  total : ∀ n, n ∈ W ↔ n ∈ free ∨ n ∈ H ∨ ∃ p, hold p = some n

namespace Holdings

variable {π π' ρ : Type*} {hold : π → Option ρ} {hold' : π' → Option ρ} {free : List ρ}
  {H W : Set ρ} {n : ρ} {p : π}

/-- What the places hold. -/
def held (hold : π → Option ρ) : Set ρ := {n | ∃ p, hold p = some n}

lemma mem_of_hold (h : Holdings hold free H W) (hp : hold p = some n) : n ∈ W :=
  (h.total n).mpr (.inr (.inr ⟨p, hp⟩))

lemma mem_of_free (h : Holdings hold free H W) (hn : n ∈ free) : n ∈ W := (h.total n).mpr (.inl hn)

lemma mem_of_held (h : Holdings hold free H W) (hn : n ∈ H) : n ∈ W :=
  (h.total n).mpr (.inr (.inl hn))

lemma ne_of_hold (h : Holdings hold free H W) {q : π} {m : ρ} (hp : hold p = some n)
    (hq : hold q = some m) (hne : p ≠ q) : n ≠ m := by
  rintro rfl
  exact hne (h.inj p q n hp hq)

/-- A resource is taken out of the pool. -/
lemma take (h : Holdings hold (n :: free) H W) : Holdings hold free (insert n H) W where
  inj := h.inj
  nodup := h.nodup.of_cons
  free_hold m hm := h.free_hold m (List.mem_cons_of_mem n hm)
  free_held m hm hmem := by
    rcases hmem with rfl | hmem
    · exact (List.nodup_cons.mp h.nodup).1 hm
    · exact h.free_held m (List.mem_cons_of_mem n hm) hmem
  held_hold m hm := by
    rcases hm with rfl | hm
    · exact h.free_hold m List.mem_cons_self
    · exact h.held_hold m hm
  total m := by
    rw [h.total m, List.mem_cons, Set.mem_insert_iff]
    tauto

/-- A resource is given back to the pool. -/
lemma give (h : Holdings hold free (insert n H) W) (hn : n ∉ H) :
    Holdings hold (n :: free) H W where
  inj := h.inj
  nodup := List.nodup_cons.mpr ⟨fun hmem => h.free_held n hmem (.inl rfl), h.nodup⟩
  free_hold m hm := by
    rcases List.mem_cons.mp hm with rfl | hm
    · exact h.held_hold m (.inl rfl)
    · exact h.free_hold m hm
  free_held m hm hmem := by
    rcases List.mem_cons.mp hm with rfl | hm
    · exact hn hmem
    · exact h.free_held m hm (.inr hmem)
  held_hold m hm := h.held_hold m (.inr hm)
  total m := by
    rw [h.total m, List.mem_cons, Set.mem_insert_iff]
    tauto

section Update

variable [DecidableEq π]

/-- A resource is put in a place that holds nothing. -/
lemma place (h : Holdings hold free (insert n H) W) (hn : n ∉ H) (hp : hold p = none) :
    Holdings (update hold p (some n)) free H W where
  inj q r m hq hr := by
    by_cases hqp : q = p <;> by_cases hrp : r = p
    · rw [hqp, hrp]
    · subst hqp
      rw [update_self] at hq
      rw [update_of_ne hrp] at hr
      cases hq
      exact absurd hr (h.held_hold n (.inl rfl) r)
    · subst hrp
      rw [update_self] at hr
      rw [update_of_ne hqp] at hq
      cases hr
      exact absurd hq (h.held_hold n (.inl rfl) q)
    · rw [update_of_ne hqp] at hq
      rw [update_of_ne hrp] at hr
      exact h.inj q r m hq hr
  nodup := h.nodup
  free_hold m hm q hq := by
    by_cases hqp : q = p
    · subst hqp
      rw [update_self] at hq
      cases hq
      exact h.free_held n hm (.inl rfl)
    · rw [update_of_ne hqp] at hq
      exact h.free_hold m hm q hq
  free_held m hm hmem := h.free_held m hm (.inr hmem)
  held_hold m hm q hq := by
    by_cases hqp : q = p
    · subst hqp
      rw [update_self] at hq
      cases hq
      exact hn hm
    · rw [update_of_ne hqp] at hq
      exact h.held_hold m (.inr hm) q hq
  total m := by
    rw [h.total m, Set.mem_insert_iff]
    constructor
    · rintro (hm | (rfl | hm) | ⟨q, hq⟩)
      · exact .inl hm
      · exact .inr (.inr ⟨p, update_self ..⟩)
      · exact .inr (.inl hm)
      · have hqp : q ≠ p := by
          rintro rfl
          rw [hp] at hq
          cases hq
        exact .inr (.inr ⟨q, by rwa [update_of_ne hqp]⟩)
    · rintro (hm | hm | ⟨q, hq⟩)
      · exact .inl hm
      · exact .inr (.inl (.inr hm))
      · by_cases hqp : q = p
        · subst hqp
          rw [update_self] at hq
          cases hq
          exact .inr (.inl (.inl rfl))
        · rw [update_of_ne hqp] at hq
          exact .inr (.inr ⟨q, hq⟩)

/-- A resource is taken out of its place. -/
lemma unplace (h : Holdings hold free H W) (hp : hold p = some n) :
    Holdings (update hold p none) free (insert n H) W := by
  have hback : ∀ {q m}, update hold p none q = some m → hold q = some m ∧ q ≠ p := by
    intro q m hq
    by_cases hqp : q = p
    · subst hqp
      rw [update_self] at hq
      cases hq
    · rw [update_of_ne hqp] at hq
      exact ⟨hq, hqp⟩
  refine ⟨fun q r m hq hr => h.inj q r m (hback hq).1 (hback hr).1, h.nodup,
    fun m hm q hq => h.free_hold m hm q (hback hq).1, fun m hm hmem => ?_, fun m hm q hq => ?_,
    fun m => ?_⟩
  · rcases hmem with rfl | hmem
    · exact h.free_hold m hm p hp
    · exact h.free_held m hm hmem
  · obtain ⟨hq, hqp⟩ := hback hq
    rcases hm with rfl | hm
    · exact hqp (h.inj q p m hq hp)
    · exact h.held_hold m hm q hq
  · rw [h.total m, Set.mem_insert_iff]
    constructor
    · rintro (hm | hm | ⟨q, hq⟩)
      · exact .inl hm
      · exact .inr (.inl (.inr hm))
      · by_cases hqp : q = p
        · subst hqp
          rw [hp] at hq
          cases hq
          exact .inr (.inl (.inl rfl))
        · exact .inr (.inr ⟨q, by rwa [update_of_ne hqp]⟩)
    · rintro (hm | (rfl | hm) | ⟨q, hq⟩)
      · exact .inl hm
      · exact .inr (.inr ⟨p, hp⟩)
      · exact .inr (.inl hm)
      · exact .inr (.inr ⟨q, (hback hq).1⟩)

end Update

/-- The places that are looked at are exchanged for others, whose resources were held elsewhere. -/
lemma exchange (h : Holdings hold free (H ∪ held hold') W)
    (hinj : ∀ p q n, hold' p = some n → hold' q = some n → p = q)
    (hdisj : ∀ n ∈ H, n ∉ held hold') : Holdings hold' free (H ∪ held hold) W where
  inj := hinj
  nodup := h.nodup
  free_hold n hn q hq := h.free_held n hn (.inr ⟨q, hq⟩)
  free_held n hn hmem := by
    rcases hmem with hmem | ⟨q, hq⟩
    · exact h.free_held n hn (.inl hmem)
    · exact h.free_hold n hn q hq
  held_hold n hn q hq := by
    rcases hn with hn | ⟨r, hr⟩
    · exact hdisj n hn ⟨q, hq⟩
    · exact h.held_hold n (.inr ⟨q, hq⟩) r hr
  total n := by
    rw [h.total n, Set.mem_union, Set.mem_union]
    constructor
    · rintro (hn | (hn | hn) | hn)
      · exact .inl hn
      · exact .inr (.inl (.inl hn))
      · exact .inr (.inr hn)
      · exact .inr (.inl (.inr hn))
    · rintro (hn | (hn | hn) | hn)
      · exact .inl hn
      · exact .inr (.inl (.inl hn))
      · exact .inr (.inr hn)
      · exact .inr (.inl (.inr hn))

/-- When none is free, there are no more resources than places. -/
lemma encard_le (h : Holdings hold [] H W) (ps : List π) (hps : ∀ p n, hold p = some n → p ∈ ps) :
    (W \ H).encard ≤ ps.length := by
  classical
  have hsub : W \ H ⊆ {n | n ∈ ps.filterMap hold} := by
    rintro n ⟨hn, hH⟩
    obtain ⟨q, hq⟩ := (((h.total n).mp hn).resolve_left List.not_mem_nil).resolve_left hH
    exact List.mem_filterMap.mpr ⟨q, hps q n hq, hq⟩
  calc (W \ H).encard ≤ {n | n ∈ ps.filterMap hold}.encard := Set.encard_le_encard hsub
    _ = (ps.filterMap hold).toFinset.card := by
      rw [← Set.encard_coe_eq_coe_finsetCard, List.coe_toFinset]
    _ ≤ ps.length := by exact_mod_cast (List.toFinset_card_le _).trans (List.length_filterMap_le ..)

lemma held_none (π' : Type*) : held (fun _ : π' => (none : Option ρ)) = ∅ :=
  Set.eq_empty_of_forall_notMem fun n hn => by
    obtain ⟨q, hq⟩ := hn
    cases hq

/-- No place is looked at: what the places hold is held elsewhere. -/
lemma hide (π' : Type*) (h : Holdings hold free H W) :
    Holdings (fun _ : π' => none) free (H ∪ held hold) W := by
  refine exchange ?_ (fun q r n hq => (by cases hq)) fun n _ hn => ?_
  · rwa [held_none, Set.union_empty]
  · rw [held_none] at hn
    exact hn

/-- Places whose resources were held elsewhere are looked at. -/
lemma reveal (h : Holdings (fun _ : π' => none) free (H ∪ held hold) W)
    (hinj : ∀ p q n, hold p = some n → hold q = some n → p = q)
    (hdisj : ∀ n ∈ H, n ∉ held hold) : Holdings hold free H W := by
  have h' := h.exchange hinj hdisj
  rwa [held_none, Set.union_empty] at h'

/-- The free resources are those that are not held. -/
lemma mem_free_iff (h : Holdings hold free H W) : n ∈ free ↔ n ∈ W ∧ n ∉ H ∧ n ∉ held hold := by
  refine ⟨fun hn => ⟨h.mem_of_free hn, h.free_held n hn, ?_⟩, ?_⟩
  · rintro ⟨q, hq⟩
    exact h.free_hold n hn q hq
  · rintro ⟨hn, hH, hhold⟩
    rcases (h.total n).mp hn with hn | hn | hn
    · exact hn
    · exact absurd hn hH
    · exact absurd hn hhold

/-- How many resources are free. -/
lemma encard_free (h : Holdings hold free H W) : (W \ (H ∪ held hold)).encard = free.length := by
  classical
  have hset : W \ (H ∪ held hold) = free.toFinset := by
    ext n
    rw [List.coe_toFinset, Set.mem_ofPred_eq, h.mem_free_iff, Set.mem_sdiff, Set.mem_union, not_or]
  rw [hset, Set.encard_coe_eq_coe_finsetCard, List.toFinset_card_of_nodup h.nodup]

end Holdings

end Transition
