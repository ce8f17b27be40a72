import Mathlib.Tactic

/-!
Round robin over a table of `n` slots.

A cursor stands at a slot.  Each pick takes a slot that is no farther ahead of the cursor than a
slot `q` that waits all the time, and the cursor moves behind the slot that was picked.

* `ahead n c q`: how far the slot `q` is ahead of the cursor `c`.
* `Rotation n q c l`: the picks `l` from the cursor `c` on, while `q` waits.
* `Rotation.length_le`: `q` waits for at most `ahead n c q` picks.
* `Rotation.mem_between`: between two picks of another slot there is one of `q`.
-/

namespace RoundRobin

/-- The distance from the cursor `c` to the slot `q`, around a table of `n` slots. -/
def ahead (n c q : ℕ) : ℕ := (q + n - c) % n

variable {n q c p : ℕ} {l : List ℕ}

lemma ahead_eq (hc : c < n) (hq : q < n) : ahead n c q = if c ≤ q then q - c else q + n - c := by
  unfold ahead
  split
  · next h =>
    rw [show q + n - c = q - c + n by omega, Nat.add_mod_right, Nat.mod_eq_of_lt (by omega)]
  · next h => exact Nat.mod_eq_of_lt (by omega)

lemma ahead_lt (hc : c < n) : ahead n c q < n := Nat.mod_lt _ (by omega)

/-- The cursor reaches a slot by its distance. -/
lemma add_ahead (hc : c < n) (hq : q < n) : (c + ahead n c q) % n = q := by
  rw [ahead_eq hc hq]
  split
  · rw [Nat.add_sub_cancel' (by omega), Nat.mod_eq_of_lt hq]
  · rw [show c + (q + n - c) = q + n by omega, Nat.add_mod_right, Nat.mod_eq_of_lt hq]

lemma ahead_add {j : ℕ} (hc : c < n) (hj : j < n) : ahead n c ((c + j) % n) = j := by
  rw [ahead_eq hc (Nat.mod_lt _ (by omega))]
  rcases lt_or_ge (c + j) n with h | h
  · rw [Nat.mod_eq_of_lt h, if_pos (by omega), Nat.add_sub_cancel_left]
  · rw [Nat.mod_eq_sub_mod h, Nat.mod_eq_of_lt (by omega), if_neg (by omega)]
    omega

/-- The cursor has moved behind `p`, and `q` is not passed. -/
lemma ahead_succ (hc : c < n) (hp : p < n) (hq : q < n) (h : ahead n c p < ahead n c q) :
    ahead n ((p + 1) % n) q = ahead n c q - ahead n c p - 1 := by
  rw [ahead_eq hc hp, ahead_eq hc hq] at *
  rcases Nat.lt_or_ge (p + 1) n with hlt | hge
  · rw [Nat.mod_eq_of_lt hlt, ahead_eq hlt hq]
    split_ifs at h ⊢ <;> omega
  · obtain rfl : p + 1 = n := by omega
    rw [Nat.mod_self, ahead_eq (by omega) hq]
    split_ifs at h ⊢ <;> omega

/-- Behind the cursor is the farthest slot. -/
lemma ahead_behind (hp : p < n) : ahead n ((p + 1) % n) p = n - 1 := by
  rcases Nat.lt_or_ge (p + 1) n with hlt | hge
  · rw [Nat.mod_eq_of_lt hlt, ahead_eq hlt hp, if_neg (by omega)]
    omega
  · obtain rfl : p + 1 = n := by omega
    rw [Nat.mod_self, ahead_eq (by omega) hp, if_pos (Nat.zero_le p)]
    omega

lemma ahead_inj (hc : c < n) (hp : p < n) (hq : q < n) (h : ahead n c p = ahead n c q) : p = q := by
  rw [← add_ahead hc hp, ← add_ahead hc hq, h]

/-- **Picks while `q` waits**: none of them is farther ahead than `q`. -/
inductive Rotation (n q : ℕ) : ℕ → List ℕ → Prop
  | nil (c : ℕ) : Rotation n q c []
  | cons {c p : ℕ} {l : List ℕ} (hc : c < n) (hp : p < n) (hle : ahead n c p ≤ ahead n c q)
      (h : Rotation n q ((p + 1) % n) l) : Rotation n q c (p :: l)

/-- **The wait is bounded** by the distance. -/
theorem Rotation.length_le (hq : q < n) (h : Rotation n q c l) (hno : q ∉ l) :
    l.length ≤ ahead n c q := by
  induction h with
  | nil => exact Nat.zero_le _
  | @cons c p l hc hp hle _ ih =>
    rw [List.mem_cons, not_or] at hno
    have hne : ahead n c p ≠ ahead n c q := fun he => hno.1 (ahead_inj hc hp hq he).symm
    have hrest := ih hno.2
    rw [ahead_succ hc hp hq (by omega)] at hrest
    rw [List.length_cons]
    omega

variable {l₁ l₂ : List ℕ}

/-- A slot that is farther ahead than `q` is not picked before `q`. -/
lemma Rotation.mem_of_farther (hq : q < n) (hp : p < n) (hfar : ahead n c q < ahead n c p)
    (h : Rotation n q c (l₁ ++ p :: l₂)) : q ∈ l₁ := by
  induction l₁ generalizing c with
  | nil =>
    cases h with
    | cons _ _ hle _ => omega
  | cons r l₁ ih =>
    cases h with
    | cons hc hr hle h =>
      rcases eq_or_ne r q with rfl | hne
      · exact List.mem_cons_self
      · -- The cursor stays on this side of `q`, so `p` stays behind `q`.
        have hlt : ahead n c r < ahead n c q :=
          lt_of_le_of_ne hle fun he => hne (ahead_inj hc hr hq he)
        refine List.mem_cons_of_mem _ (ih ?_ h)
        rw [ahead_succ hc hr hq hlt, ahead_succ hc hr hp (hlt.trans hfar)]
        omega

lemma Rotation.append_right (h : Rotation n q c (l₁ ++ l₂)) : ∃ c', Rotation n q c' l₂ := by
  induction l₁ generalizing c with
  | nil => exact ⟨c, h⟩
  | cons r l₁ ih =>
    cases h with
    | cons _ _ _ h => exact ih h

/-- **Turns**: between two picks of another slot `q` is picked. -/
theorem Rotation.mem_between {l₃ : List ℕ} (hq : q < n) (hne : p ≠ q)
    (h : Rotation n q c (l₁ ++ p :: (l₂ ++ p :: l₃))) : q ∈ l₂ := by
  obtain ⟨c', h⟩ := h.append_right
  cases h with
  | cons hc hp hle h =>
    refine h.mem_of_farther hq hp ?_
    have hn : (p + 1) % n < n := Nat.mod_lt _ (by omega)
    have hbehind := ahead_behind hp
    have hle := ahead_lt (q := q) hn
    have hdiff : ahead n ((p + 1) % n) q ≠ n - 1 := fun he =>
      hne (ahead_inj hn hp hq (hbehind.trans he.symm))
    omega

end RoundRobin
