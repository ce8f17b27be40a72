import Mathlib.Tactic

/-!
Circular lists with a sentinel, linked in both directions.

The sentinel is `none`. `insert` and `remove` change one link at a time, and a later assignment
reads what an earlier one has written, as code with pointers does.

* `Linked k l`: the links `k` go through the list `l` and around the sentinel.
* `Linked.insert`, `Linked.remove`: an element is put at the head, and taken out.
* `Linked.walk_next`, `Linked.walk_prev`: a search along the links ends, and finds what a
  search in the list finds.
* `Linked.iterate_next`, `Linked.prev_next`, `Linked.next_prev`: the links as functions.
-/

namespace Transition

open Function

variable {β : Type*}

/-- The links of the elements and of the sentinel. -/
structure Links (β : Type*) where
  next : Option β → Option β
  prev : Option β → Option β

/-- A search along links, until it is back at the sentinel. -/
def walk (link : Option β → Option β) (test : β → Bool) : ℕ → Option β → Option (Option β)
  | 0, _ => none
  | _ + 1, none => some none
  | fuel + 1, some b => if test b then some (some b) else walk link test fuel (link (some b))

/-- Wherever the list is cut, the links lead across: `next` from the last element before the cut to
the first one after it, and `prev` back. -/
def Linked (k : Links β) (l : List β) : Prop :=
  ∀ u v, l = u ++ v → k.next u.getLast? = v.head? ∧ k.prev v.head? = u.getLast?

namespace Links

/-- Only the sentinel. -/
def empty : Links β := ⟨fun _ => none, fun _ => none⟩

/-- The links the other way round. -/
def flip (k : Links β) : Links β := ⟨k.prev, k.next⟩

variable [DecidableEq β]

/-- Put `b` after the sentinel. -/
def insert (k : Links β) (b : β) : Links β :=
  let next := update k.next (some b) (k.next none)
  let prev := update k.prev (some b) none
  let prev := update prev (next none) (some b)
  ⟨update next none (some b), prev⟩

/-- Link the neighbours of `b` to each other. -/
def remove (k : Links β) (b : β) : Links β :=
  let prev := update k.prev (k.next (some b)) (k.prev (some b))
  ⟨update k.next (prev (some b)) (k.next (some b)), prev⟩

end Links

namespace Linked

variable {k : Links β} {l u v : List β} {b : β} {test : β → Bool} {fuel : ℕ}

lemma empty : Linked (Links.empty : Links β) [] := by
  intro u v huv
  obtain ⟨rfl, rfl⟩ := List.append_eq_nil_iff.mp huv.symm
  exact ⟨rfl, rfl⟩

lemma next_none (h : Linked k l) : k.next none = l.head? := (h [] l rfl).1

lemma flip (h : Linked k l) : Linked k.flip l.reverse := by
  intro u v huv
  have hl : l = v.reverse ++ u.reverse := by
    rw [← List.reverse_append, ← huv, List.reverse_reverse]
  obtain ⟨hnext, hprev⟩ := h _ _ hl
  rw [List.getLast?_reverse, List.head?_reverse] at hnext hprev
  exact ⟨hprev, hnext⟩

/-- The search from an element on; by induction on the part of the list that is left. -/
lemma walk_part (h : Linked k (u ++ v)) (hfuel : v.length < fuel) :
    walk k.next test fuel v.head? = some (v.find? test) := by
  induction v generalizing u fuel with
  | nil =>
    obtain ⟨fuel, rfl⟩ := Nat.exists_eq_add_one.mpr hfuel
    rfl
  | cons b v ih =>
    obtain ⟨fuel, rfl⟩ := Nat.exists_eq_add_one.mpr (Nat.zero_lt_of_lt hfuel)
    rw [List.append_cons] at h
    have hnext := (h (u ++ [b]) v rfl).1
    rw [List.getLast?_append, List.getLast?_singleton, Option.some_or] at hnext
    rw [List.head?_cons, walk, List.find?_cons, hnext, ih h (by simpa using hfuel)]
    cases test b <;> rfl

/-- **A search from the sentinel on ends** and is a search in the list. -/
lemma walk_next (h : Linked k l) (hfuel : l.length < fuel) :
    walk k.next test fuel (k.next none) = some (l.find? test) := by
  rw [h.next_none]
  exact walk_part (u := []) h hfuel

lemma walk_prev (h : Linked k l) (hfuel : l.length < fuel) :
    walk k.prev test fuel (k.prev none) = some (l.reverse.find? test) :=
  h.flip.walk_next (by rwa [List.length_reverse])

lemma iterate_part (h : Linked k (u ++ v)) :
    (List.range (v.length + 1)).map (fun i => k.next^[i] v.head?) = v.map some ++ [none] := by
  induction v generalizing u with
  | nil => rfl
  | cons b v ih =>
    rw [List.append_cons] at h
    have hnext := (h (u ++ [b]) v rfl).1
    rw [List.getLast?_append, List.getLast?_singleton, Option.some_or] at hnext
    rw [List.length_cons, List.range_succ_eq_map, List.map_cons, List.map_map]
    simp only [comp_def, iterate_succ_apply, List.head?_cons, hnext, iterate_zero, id]
    rw [ih h, List.map_cons, List.cons_append]

/-- **The list is circular**: `next` leads from the sentinel through it and back. -/
lemma iterate_next (h : Linked k l) :
    (List.range (l.length + 1)).map (fun i => k.next^[i + 1] none) = l.map some ++ [none] := by
  simp only [iterate_succ_apply, h.next_none]
  exact iterate_part (u := []) h

lemma prev_next (h : Linked k l) {x : Option β} (hx : ∀ b ∈ x, b ∈ l) :
    k.prev (k.next x) = x := by
  obtain ⟨u, v, rfl, rfl⟩ : ∃ u v, l = u ++ v ∧ x = u.getLast? := by
    cases x with
    | none => exact ⟨[], l, rfl, rfl⟩
    | some b =>
      obtain ⟨u, v, rfl⟩ := List.append_of_mem (hx b rfl)
      exact ⟨u ++ [b], v, List.append_cons .., List.getLast?_concat.symm⟩
  obtain ⟨hnext, hprev⟩ := h u v rfl
  rw [hnext, hprev]

lemma next_prev (h : Linked k l) {x : Option β} (hx : ∀ b ∈ x, b ∈ l) :
    k.next (k.prev x) = x :=
  h.flip.prev_next fun b hb => List.mem_reverse.mpr (hx b hb)

lemma exists_head? (hl : l ≠ []) : ∃ z ∈ l, ∀ t, (l ++ t).head? = some z := by
  obtain ⟨z, l, rfl⟩ := List.exists_cons_of_ne_nil hl
  exact ⟨z, List.mem_cons_self, fun _ => rfl⟩

lemma exists_getLast? (hl : l ≠ []) : ∃ x ∈ l, ∀ t, (t ++ l).getLast? = some x :=
  ⟨l.getLast hl, List.getLast_mem hl, fun t => by
    rw [List.getLast?_append, List.getLast?_eq_some_getLast hl, Option.some_or]⟩

lemma head?_ne (hb : b ∉ l) : l.head? ≠ some b := fun h => hb (List.mem_of_mem_head? h)

lemma getLast?_ne (hb : b ∉ l) : l.getLast? ≠ some b := fun h => hb (List.mem_of_getLast? h)

variable [DecidableEq β]

/-- **An element is put at the head.** -/
lemma insert (h : Linked k l) (hl : l.Nodup) (hb : b ∉ l) : Linked (k.insert b) (b :: l) := by
  have hnext : (k.insert b).next = update (update k.next (some b) l.head?) none (some b) := by
    rw [← h.next_none]
    rfl
  have hprev : (k.insert b).prev = update (update k.prev (some b) none) l.head? (some b) := by
    rw [← h.next_none]
    simp [Links.insert]
  rw [Linked, hnext, hprev]
  intro u v huv
  cases u with
  | nil =>
    subst huv
    rw [List.head?_cons, List.getLast?_nil, update_self, update_of_ne (head?_ne hb).symm,
      update_self]
    exact ⟨rfl, rfl⟩
  | cons c u =>
    rw [List.cons_append] at huv
    obtain ⟨rfl, rfl⟩ := List.cons.inj huv
    cases u with
    | nil =>
      rw [List.nil_append, List.getLast?_singleton, update_of_ne (Option.some_ne_none _),
        update_self, update_self]
      exact ⟨rfl, rfl⟩
    | cons c u =>
      -- the links of the other elements are as before
      obtain ⟨hnext, hprev⟩ := h _ _ rfl
      have hlast : (c :: u).getLast? ≠ none := by simp
      have hu : b ∉ c :: u := fun hmem => hb (List.mem_append_left _ hmem)
      have hv : b ∉ v := fun hmem => hb (List.mem_append_right _ hmem)
      have hc : c ∉ v := fun hmem =>
        (List.nodup_append.mp hl).2.2 c List.mem_cons_self c hmem rfl
      rw [List.getLast?_cons_cons, update_of_ne hlast, update_of_ne (getLast?_ne hu), hnext,
        List.cons_append, List.head?_cons, update_of_ne (head?_ne hc), update_of_ne (head?_ne hv),
        hprev]
      exact ⟨rfl, rfl⟩

/-- Elements are put at the head one after the other. -/
lemma foldl_insert (h : Linked k l) {bs : List β} (hl : (bs.reverse ++ l).Nodup) :
    Linked (bs.foldl Links.insert k) (bs.reverse ++ l) := by
  induction bs generalizing k l with
  | nil => exact h
  | cons b bs ih =>
    rw [List.reverse_cons, List.append_assoc, List.singleton_append] at hl ⊢
    obtain ⟨hb, hl'⟩ := List.nodup_cons.mp (List.nodup_append.mp hl).2.1
    exact ih (h.insert hl' hb) hl

/-- **An element is taken out.** -/
lemma remove (h : Linked k (u ++ b :: v)) (hl : (u ++ b :: v).Nodup) :
    Linked (k.remove b) (u ++ v) := by
  obtain ⟨hu, hbv, huv⟩ := List.nodup_append.mp hl
  have hb : k.next (some b) = v.head? := by
    have hcut := (h (u ++ [b]) v (List.append_cons ..)).1
    rwa [List.getLast?_concat] at hcut
  have hb' : k.prev (some b) = u.getLast? := (h u (b :: v) rfl).2
  have hbv' : v.head? ≠ some b := head?_ne (List.nodup_cons.mp hbv).1
  have hprev : (k.remove b).prev = update k.prev v.head? u.getLast? := by
    rw [← hb, ← hb']
    rfl
  have hnext : (k.remove b).next = update k.next u.getLast? v.head? := by
    have hself : (k.remove b).prev (some b) = u.getLast? := by
      rw [hprev, update_of_ne hbv'.symm, hb']
    rw [← hb, ← hself]
    rfl
  rw [Linked, hnext, hprev]
  intro u' v' huv'
  rcases List.append_eq_append_iff.mp huv' with ⟨a, rfl, rfl⟩ | ⟨a, rfl, rfl⟩
  · -- the cut is where `b` was, or after it
    rcases eq_or_ne a [] with rfl | ha
    · rw [List.append_nil, List.nil_append, update_self, update_self]
      exact ⟨rfl, rfl⟩
    · obtain ⟨hnext, hprev⟩ := h (u ++ [b] ++ a) v' (by simp)
      obtain ⟨z, hz, hhead⟩ := exists_head? ha
      obtain ⟨x, hx, hlast⟩ := exists_getLast? ha
      have hxu : x ∉ u := fun hmem =>
        huv x hmem x (List.mem_cons_of_mem _ (List.mem_append_left _ hx)) rfl
      have hzv : z ∉ v' := fun hmem =>
        (List.nodup_append.mp (List.nodup_cons.mp hbv).2).2.2 z hz z hmem rfl
      rw [hlast] at hnext hprev
      rw [hlast, hhead, update_of_ne (getLast?_ne hxu).symm, update_of_ne (head?_ne hzv)]
      exact ⟨hnext, hprev⟩
  · -- the cut is before it
    rcases eq_or_ne a [] with rfl | ha
    · rw [List.append_nil, List.nil_append, update_self, update_self]
      exact ⟨rfl, rfl⟩
    · obtain ⟨hnext, hprev⟩ := h u' (a ++ b :: v) (List.append_assoc ..)
      obtain ⟨z, hz, hhead⟩ := exists_head? ha
      obtain ⟨x, hx, hlast⟩ := exists_getLast? ha
      have hxu : x ∉ u' := fun hmem => (List.nodup_append.mp hu).2.2 x hmem x hx rfl
      have hzv : z ∉ v := fun hmem =>
        huv z (List.mem_append_right _ hz) z (List.mem_cons_of_mem _ hmem) rfl
      rw [hhead] at hnext hprev
      rw [hlast, hhead, update_of_ne (getLast?_ne hxu), update_of_ne (head?_ne hzv).symm]
      exact ⟨hnext, hprev⟩

end Linked

end Transition
