import Mathlib.Tactic

/-!
A redo log on a disk whose only atomic operation is the write of one block.

The disk is a function from addresses to blocks.  A part of the addresses is the
*home* of the data; beside it there are a header and slots `slot 0, slot 1, …`.
The header block, read by `read`, lists the home addresses whose new contents
are in the first slots.

* `replay ws f`: the contents `f` after the writes `ws`, in order.
* `Recoverable L H d`: copying every listed slot home makes the home contents of
  `d` equal to `H`.
* `Recoverable.write_slot`, `commit`, `install`, `erase`: the four writes of the
  protocol and what each needs.  Only `commit` changes `H`.
* `Recoverable.installed`: when every listed slot has been copied, the home
  contents are `H`.
-/

namespace RedoLog

open Function

variable {A B : Type*} [DecidableEq A]

/-! ### Replay -/

/-- The contents `f` after the writes `ws`, in order. -/
def replay (ws : List (A × B)) (f : A → B) : A → B :=
  ws.foldl (fun f w => update f w.1 w.2) f

lemma replay_append (ws vs : List (A × B)) (f : A → B) :
    replay (ws ++ vs) f = replay vs (replay ws f) := by
  simp only [replay, List.foldl_append]

/-! ### The protocol -/

/-- Where the log is on the disk, with room for `cap` blocks. -/
structure Layout (A B : Type*) where
  head : A
  slot : ℕ → A
  cap : ℕ
  home : A → Prop
  read : B → List A
  head_not_home : ¬home head
  slot_not_home : ∀ i < cap, ¬home (slot i)
  slot_ne_head : ∀ i < cap, slot i ≠ head
  slot_inj : ∀ i < cap, ∀ j < cap, slot i = slot j → i = j

/-- The addresses the header on the disk lists. -/
def Layout.listed (L : Layout A B) (d : A → B) : List A := L.read (d L.head)

/-- Copying the listed slots home gives the contents `H`. -/
structure Recoverable (L : Layout A B) (H d : A → B) : Prop where
  room : (L.listed d).length ≤ L.cap
  home : ∀ a ∈ L.listed d, L.home a
  logged : ∀ i a, (L.listed d)[i]? = some a → d (L.slot i) = H a
  rest : ∀ a, L.home a → a ∉ L.listed d → d a = H a

variable {L : Layout A B} {H d : A → B}

/-- A write outside the header leaves the list as it is. -/
lemma listed_update {a : A} (ha : a ≠ L.head) (v : B) :
    L.listed (update d a v) = L.listed d := by
  rw [Layout.listed, update_of_ne (Ne.symm ha), Layout.listed]

lemma listed_update_head (v : B) : L.listed (update d L.head v) = L.read v := by
  rw [Layout.listed, update_self]

namespace Recoverable

omit [DecidableEq A] in
/-- An empty header needs nothing of the slots. -/
lemma of_listed_nil (hn : L.listed d = []) (h : ∀ a, L.home a → d a = H a) :
    Recoverable L H d := by
  refine ⟨?_, ?_, ?_, fun a ha _ => h a ha⟩ <;> simp [hn]

/-- A write to a slot is harmless while the header is empty. -/
lemma write_slot (h : Recoverable L H d) (hn : L.listed d = []) {i : ℕ} (hi : i < L.cap)
    (v : B) : Recoverable L H (update d (L.slot i) v) := by
  apply of_listed_nil
  · rw [listed_update (L.slot_ne_head i hi), hn]
  · intro a ha
    have hne : a ≠ L.slot i := fun he => L.slot_not_home i hi (he ▸ ha)
    rw [update_of_ne hne]
    exact h.rest a ha (by simp [hn])

/-- **The commit point**: the write of a header whose slots are filled makes the
new contents the ones that recovery leads to. -/
lemma commit {H' : A → B} (h : Recoverable L H d) (hn : L.listed d = []) {v : B}
    (hroom : (L.read v).length ≤ L.cap) (hhome : ∀ a ∈ L.read v, L.home a)
    (hlog : ∀ i a, (L.read v)[i]? = some a → d (L.slot i) = H' a)
    (hrest : ∀ a, L.home a → a ∉ L.read v → H' a = H a) :
    Recoverable L H' (update d L.head v) := by
  refine ⟨?_, ?_, ?_, ?_⟩ <;> simp only [listed_update_head]
  · exact hroom
  · exact hhome
  · intro i a hi
    have hlt : i < (L.read v).length := (List.getElem?_eq_some_iff.mp hi).1
    rw [update_of_ne (L.slot_ne_head i (by omega))]
    exact hlog i a hi
  · intro a ha hm
    have hne : a ≠ L.head := fun he => L.head_not_home (he ▸ ha)
    rw [update_of_ne hne, hrest a ha hm]
    exact h.rest a ha (by simp [hn])

/-- A listed slot can be copied home at any time, and again after a crash. -/
lemma install (h : Recoverable L H d) {i : ℕ} {a : A} (hi : (L.listed d)[i]? = some a) :
    Recoverable L H (update d a (H a)) := by
  have ha : L.home a := h.home a (List.mem_of_getElem? hi)
  have hne : a ≠ L.head := fun he => L.head_not_home (he ▸ ha)
  refine ⟨?_, ?_, ?_, ?_⟩ <;> simp only [listed_update hne]
  · exact h.room
  · exact h.home
  · intro j b hj
    have hlt : j < (L.listed d).length := (List.getElem?_eq_some_iff.mp hj).1
    have hroom := h.room
    have hs : L.slot j ≠ a := fun he => L.slot_not_home j (by omega) (he ▸ ha)
    rw [update_of_ne hs]
    exact h.logged j b hj
  · intro b hb hm
    have hba : b ≠ a := fun he => hm (he ▸ List.mem_of_getElem? hi)
    rw [update_of_ne hba]
    exact h.rest b hb hm

/-- When every listed address has its contents, the home contents are `H`. -/
lemma installed (h : Recoverable L H d) (hd : ∀ a ∈ L.listed d, d a = H a) :
    ∀ a, L.home a → d a = H a := by
  intro a ha
  by_cases hm : a ∈ L.listed d
  · exact hd a hm
  · exact h.rest a ha hm

/-- The header can be emptied when the home contents are `H`. -/
lemma erase (hd : ∀ a, L.home a → d a = H a) {v : B} (hv : L.read v = []) :
    Recoverable L H (update d L.head v) := by
  apply of_listed_nil
  · rw [listed_update_head, hv]
  · intro a ha
    have hne : a ≠ L.head := fun he => L.head_not_home (he ▸ ha)
    rw [update_of_ne hne]
    exact hd a ha

end Recoverable

end RedoLog
