import Mathlib.Tactic

/-!
Loops over a table.

Two loop shapes occur again and again in table-driven code.  The first stops at
the first entry that passes a test; that is `List.find?` and Mathlib has its
lemmas.  The second runs over the whole table and keeps the best entry seen so
far among those that pass a test; it is `scanBest` here.

* `scanBest ok key l`: the loop that keeps an entry `x` with `ok x` whenever its
  key is strictly smaller than the key of the best one so far, so that ties go
  to the earlier entry.
* `scanBest_eq_none_iff`, `scanBest_spec`: the loop comes back empty exactly
  when no entry passes the test, and otherwise with an entry of least key.
* `mem_circular`: the indices `(start + j) % n` for `j < n` visit the whole
  table.
* `findSome?_range`: where a search through the first `n` numbers stops.
-/

namespace Scan

variable {α κ : Type*} [LinearOrder κ]

/-- One iteration of the loop: the entry `x` replaces the best one so far when
it passes the test and its key is strictly smaller. -/
def keepBest (ok : α → Bool) (key : α → κ) (best : Option α) (x : α) : Option α :=
  if ok x then
    match best with
    | none => some x
    | some b => if key x < key b then some x else some b
  else best

/-- The best entry of a table: the loop run from the start with nothing found. -/
def scanBest (ok : α → Bool) (key : α → κ) (l : List α) : Option α :=
  l.foldl (keepBest ok key) none

/-- The loop invariant: the best entry so far passes the test, and its key is
least among the entries of the part `seen` already scanned that pass it. -/
def IsBest (ok : α → Bool) (key : α → κ) (seen : List α) : Option α → Prop
  | none => ∀ y ∈ seen, ok y = false
  | some b => b ∈ seen ∧ ok b = true ∧ ∀ y ∈ seen, ok y = true → key b ≤ key y

variable {ok : α → Bool} {key : α → κ}

/-- One more iteration keeps the invariant. -/
lemma IsBest.keep {seen : List α} {best : Option α} (h : IsBest ok key seen best) (x : α) :
    IsBest ok key (seen ++ [x]) (keepBest ok key best x) := by
  by_cases hx : ok x = true
  · cases best with
    | none =>
      simp only [keepBest, hx, if_true]
      refine ⟨by simp, hx, fun y hy hoky => ?_⟩
      rcases List.mem_append.mp hy with hy | hy
      · exact absurd hoky (by rw [h y hy]; simp)
      · rw [List.mem_singleton.mp hy]
    | some b =>
      obtain ⟨hb, hokb, hle⟩ := h
      simp only [keepBest, hx, if_true]
      by_cases hlt : key x < key b
      · rw [if_pos hlt]
        refine ⟨by simp, hx, fun y hy hoky => ?_⟩
        rcases List.mem_append.mp hy with hy | hy
        · exact hlt.le.trans (hle y hy hoky)
        · rw [List.mem_singleton.mp hy]
      · rw [if_neg hlt]
        refine ⟨by simp [hb], hokb, fun y hy hoky => ?_⟩
        rcases List.mem_append.mp hy with hy | hy
        · exact hle y hy hoky
        · rw [List.mem_singleton.mp hy]
          exact not_lt.mp hlt
  · have hx' : ok x = false := by simpa using hx
    have hk : keepBest ok key best x = best := by simp [keepBest, hx']
    rw [hk]
    cases best with
    | none =>
      intro y hy
      rcases List.mem_append.mp hy with hy | hy
      · exact h y hy
      · rwa [List.mem_singleton.mp hy]
    | some b =>
      obtain ⟨hb, hokb, hle⟩ := h
      refine ⟨by simp [hb], hokb, fun y hy hoky => ?_⟩
      rcases List.mem_append.mp hy with hy | hy
      · exact hle y hy hoky
      · exact absurd hoky (by rw [List.mem_singleton.mp hy]; exact hx)

/-- The loop invariant holds at the end of the scan. -/
lemma isBest_scanBest (ok : α → Bool) (key : α → κ) (l : List α) :
    IsBest ok key l (scanBest ok key l) := by
  have key' : ∀ (rest seen : List α) (best : Option α), IsBest ok key seen best →
      IsBest ok key (seen ++ rest) (rest.foldl (keepBest ok key) best) := by
    intro rest
    induction rest with
    | nil => intro seen best h; simpa using h
    | cons x rest ih =>
      intro seen best h
      have h2 := ih (seen ++ [x]) (keepBest ok key best x) (h.keep x)
      simpa using h2
  simpa [scanBest] using key' l [] none (by simp [IsBest])

/-- The loop comes back empty exactly when no entry passes the test. -/
theorem scanBest_eq_none_iff {l : List α} :
    scanBest ok key l = none ↔ ∀ y ∈ l, ok y = false := by
  have h := isBest_scanBest ok key l
  constructor
  · intro hn
    rw [hn] at h
    exact h
  · intro hall
    cases hb : scanBest ok key l with
    | none => rfl
    | some b =>
      rw [hb] at h
      have := hall b h.1
      rw [h.2.1] at this
      simp at this

/-- The entry found passes the test and has the least key of those that do. -/
theorem scanBest_spec {l : List α} {b : α} (hb : scanBest ok key l = some b) :
    b ∈ l ∧ ok b = true ∧ ∀ y ∈ l, ok y = true → key b ≤ key y := by
  have h := isBest_scanBest ok key l
  rw [hb] at h
  exact h

/-- A scan of a table of `n` entries that starts at any index and wraps around
visits every index. -/
lemma mem_circular (n start : ℕ) {i : ℕ} (hi : i < n) : ∃ j < n, (start + j) % n = i := by
  have hn : 0 < n := by omega
  refine ⟨(i + (n - start % n)) % n, Nat.mod_lt _ hn, ?_⟩
  have hs : start % n < n := Nat.mod_lt _ hn
  rw [Nat.add_mod, Nat.mod_mod, ← Nat.add_mod, Nat.add_mod start, ← Nat.mod_mod start n,
    ← Nat.add_mod, Nat.mod_mod]
  rw [show start % n + (i + (n - start % n)) = i + n from by omega, Nat.add_mod_right]
  exact Nat.mod_eq_of_lt hi

/-- A search through the first `n` numbers stops at the first one that gives something. -/
lemma findSome?_range {β : Type*} {f : ℕ → Option β} {n : ℕ} {b : β}
    (h : (List.range n).findSome? f = some b) : ∃ j < n, f j = some b ∧ ∀ i < j, f i = none := by
  induction n with
  | zero => simp at h
  | succ n ih =>
    rw [List.range_succ, List.findSome?_append] at h
    cases hf : (List.range n).findSome? f with
    | some b' =>
      rw [hf, Option.some_or] at h
      obtain ⟨j, hj, hrest⟩ := ih (hf.trans h)
      exact ⟨j, hj.trans (Nat.lt_succ_self n), hrest⟩
    | none =>
      rw [hf, Option.none_or, List.findSome?_singleton] at h
      exact ⟨n, Nat.lt_succ_self n, h, fun i hi =>
        List.findSome?_eq_none_iff.mp hf i (List.mem_range.mpr hi)⟩

end Scan
