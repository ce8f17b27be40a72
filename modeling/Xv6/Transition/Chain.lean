import Mathlib.Tactic

/-!
Lists that are threaded through their cells.

`Chain next h l`: from the head `h` on, `next` leads through the cells of `l` and ends.  A walk
along the chain stays in the list, and the cell where it ends is the last one.
-/

namespace Transition

open Function

variable {β : Type*} {next next' : β → Option β} {h : Option β} {l : List β} {b x y : β}

/-- The cells from `h` on are `l`. -/
def Chain (next : β → Option β) : Option β → List β → Prop
  | h, [] => h = none
  | h, b :: l => h = some b ∧ Chain next (next b) l

namespace Chain

lemma head_eq (hc : Chain next h l) : h = l.head? := by
  cases l with
  | nil => exact hc
  | cons b l => exact hc.1

/-- The links of other cells do not matter. -/
lemma congr (hc : Chain next h l) (hnext : ∀ b ∈ l, next' b = next b) : Chain next' h l := by
  induction l generalizing h with
  | nil => exact hc
  | cons b l ih =>
    refine ⟨hc.1, ?_⟩
    rw [hnext b List.mem_cons_self]
    exact ih hc.2 fun x hx => hnext x (List.mem_cons_of_mem b hx)

/-- The cell after a cell of the list is in the list. -/
lemma mem_next (hc : Chain next h l) (hx : x ∈ l) (hy : next x = some y) : y ∈ l := by
  induction l generalizing h with
  | nil => cases hx
  | cons b l ih =>
    rcases List.mem_cons.mp hx with rfl | hx
    · have hhead := hc.2.head_eq
      rw [hy] at hhead
      exact List.mem_cons_of_mem _ (List.mem_of_mem_head? hhead.symm)
    · exact List.mem_cons_of_mem _ (ih hc.2 hx)

/-- The cell without a next one is the last. -/
lemma getLast? (hc : Chain next h l) (hx : x ∈ l) (hend : next x = none) : l.getLast? = some x := by
  induction l generalizing h with
  | nil => cases hx
  | cons b l ih =>
    cases l with
    | nil =>
      rw [List.mem_singleton] at hx
      rw [hx, List.getLast?_singleton]
    | cons c l =>
      rw [List.getLast?_cons_cons]
      rcases List.mem_cons.mp hx with rfl | hx
      · have hnext := hc.2.1
        rw [hend] at hnext
        cases hnext
      · exact ih hc.2 hx

variable [DecidableEq β]

/-- A cell is linked to the last one. -/
lemma link (hc : Chain next h l) (hl : l.Nodup) (hb : b ∉ l) (hnext : next b = none)
    (hlast : l.getLast? = some x) : Chain (update next x (some b)) h (l ++ [b]) := by
  have hbx : b ≠ x := by
    rintro rfl
    exact hb (List.mem_of_getLast? hlast)
  induction l generalizing h with
  | nil => cases hlast
  | cons c l ih =>
    rw [List.cons_append]
    refine ⟨hc.1, ?_⟩
    obtain ⟨hcl, hl⟩ := List.nodup_cons.mp hl
    cases l with
    | nil =>
      rw [List.getLast?_singleton, Option.some.injEq] at hlast
      rw [hlast, update_self]
      refine ⟨rfl, ?_⟩
      rw [update_of_ne hbx]
      exact hnext
    | cons d l =>
      rw [List.getLast?_cons_cons] at hlast
      have hcx : c ≠ x := by
        rintro rfl
        exact hcl (List.mem_of_getLast? hlast)
      rw [update_of_ne hcx]
      exact ih hc.2 hl (fun hmem => hb (List.mem_cons_of_mem _ hmem)) hlast

end Chain

end Transition
