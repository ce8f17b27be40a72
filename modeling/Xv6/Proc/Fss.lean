import Xv6.Proc.Table
import Xv6.Transition.Scan

/-!
Fair-share scheduling: the `fss_*` functions of `kernel/proc.c` and one
specification for each.

* `fssInitGroups`, `fssGroupLookup`, `fssGroupEnsure`: the group table.  A lookup
  finds an active entry with the gid asked for (`fssGroupLookup_some`), and
  `fssGroupEnsure_cases` says all that `fss_group_ensure` can do: find one, take
  the first free entry, or give up.
* `fssGroupHasRunnable`, `fssPickGroup`: the group the scheduler runs next.
  `fssPickGroup_spec` is the lexicographically least pair `(pass, gid)` among the
  active groups with a `RUNNABLE` process, `fssPickGroup_eq_none_iff` the case
  where there is none.
* `fssPickProcInGroup`: the circular search for the next process of a group,
  with `fssPickProcInGroup_some` and `fssPickProcInGroup_none`.
-/

namespace Xv6

open Ptable

/-! ### The group table -/

/-- A group as `fss_group_ensure` and `fss_init_groups` set it up. -/
def Group.fresh (gid : ℤ) : Group :=
  { gid := gid, active := true, pass := 0, stride := FSS_BIG, rrCursor := 0 }

/-- `fss_init_groups`: every entry is cleared, then entry 0 becomes group 0. -/
def fssInitGroups (t : Ptable) : Ptable :=
  let cleared := { t with gtable := fun _ => { Group.fresh 0 with active := false } }
  cleared.setGroup 0 (Group.fresh 0)

/-- `fss_group_lookup`: the first active entry with this gid. -/
def fssGroupLookup (t : Ptable) (gid : ℤ) : Option GSlot :=
  findGroup t fun g => g.active && g.gid == gid

/-- `fss_group_ensure`: the entry of this gid, allocated if there is none yet. -/
def fssGroupEnsure (t : Ptable) (gid : ℤ) : Ptable × Option GSlot :=
  match fssGroupLookup t gid with
  | some i => (t, some i)
  | none =>
    match findGroup t fun g => !g.active with
    | some i => (t.setGroup i (Group.fresh gid), some i)
    | none => (t, none)

variable {t : Ptable} {gid : ℤ} {i : GSlot}

lemma fssGroupLookup_some (h : fssGroupLookup t gid = some i) :
    (t.gtable i).active = true ∧ (t.gtable i).gid = gid := by
  simpa using findGroup_some h

lemma fssGroupLookup_eq_none :
    fssGroupLookup t gid = none ↔ ∀ i, (t.gtable i).active = true → (t.gtable i).gid ≠ gid := by
  rw [fssGroupLookup, findGroup_eq_none]
  simp

/-- All that `fss_group_ensure` can do: find the group, allocate it in an entry
that was not active when no active entry had the gid, or find the table full. -/
lemma fssGroupEnsure_cases (t : Ptable) (gid : ℤ) :
    (∃ i, fssGroupEnsure t gid = (t, some i) ∧ (t.gtable i).active = true
        ∧ (t.gtable i).gid = gid)
      ∨ (∃ i, fssGroupEnsure t gid = (t.setGroup i (Group.fresh gid), some i)
        ∧ (t.gtable i).active = false
        ∧ ∀ j, (t.gtable j).active = true → (t.gtable j).gid ≠ gid)
      ∨ (fssGroupEnsure t gid = (t, none) ∧ (∀ i, (t.gtable i).active = true)
        ∧ ∀ j, (t.gtable j).active = true → (t.gtable j).gid ≠ gid) := by
  cases hl : fssGroupLookup t gid with
  | some i =>
    have h := fssGroupLookup_some hl
    exact Or.inl ⟨i, by simp [fssGroupEnsure, hl], h.1, h.2⟩
  | none =>
    have hn := fssGroupLookup_eq_none.mp hl
    cases hf : findGroup t fun g => !g.active with
    | some i =>
      have h := findGroup_some hf
      exact Or.inr (Or.inl ⟨i, by simp [fssGroupEnsure, hl, hf], by simpa using h, hn⟩)
    | none =>
      have h := findGroup_eq_none.mp hf
      exact Or.inr (Or.inr ⟨by simp [fssGroupEnsure, hl, hf], by simpa using h, hn⟩)

/-- Asking for a group that exists changes nothing. -/
lemma fssGroupEnsure_of_active (ha : (t.gtable i).active = true) (hg : (t.gtable i).gid = gid) :
    (fssGroupEnsure t gid).1 = t := by
  rcases fssGroupEnsure_cases t gid with ⟨j, h, _⟩ | ⟨j, _, _, h⟩ | ⟨h, _⟩
  · rw [h]
  · exact absurd hg (h i ha)
  · rw [h]

@[simp] lemma fssGroupEnsure_proc (t : Ptable) (gid : ℤ) :
    (fssGroupEnsure t gid).1.proc = t.proc := by
  rcases fssGroupEnsure_cases t gid with ⟨j, h, _⟩ | ⟨j, h, _⟩ | ⟨h, _⟩ <;> rw [h]
  rfl

@[simp] lemma fssGroupEnsure_initproc (t : Ptable) (gid : ℤ) :
    (fssGroupEnsure t gid).1.initproc = t.initproc := by
  rcases fssGroupEnsure_cases t gid with ⟨j, h, _⟩ | ⟨j, h, _⟩ | ⟨h, _⟩ <;> rw [h]
  rfl

@[simp] lemma fssGroupEnsure_nextpid (t : Ptable) (gid : ℤ) :
    (fssGroupEnsure t gid).1.nextpid = t.nextpid := by
  rcases fssGroupEnsure_cases t gid with ⟨j, h, _⟩ | ⟨j, h, _⟩ | ⟨h, _⟩ <;> rw [h]
  rfl

/-! ### The choice of a group -/

/-- The test `p->state == RUNNABLE && p->gid == g->gid`. -/
def runnableIn (g : Group) (x : Proc) : Bool :=
  x.state == .runnable && x.gid == g.gid

lemma runnableIn_iff {g : Group} {x : Proc} :
    runnableIn g x = true ↔ x.state = .runnable ∧ x.gid = g.gid := by
  simp [runnableIn]

/-- `fss_group_has_runnable`. -/
def fssGroupHasRunnable (t : Ptable) (g : GSlot) : Bool :=
  (findProc t (runnableIn (t.gtable g))).isSome

variable {g : GSlot}

lemma fssGroupHasRunnable_iff :
    fssGroupHasRunnable t g = true
      ↔ ∃ p, (t.proc p).state = .runnable ∧ (t.proc p).gid = (t.gtable g).gid := by
  rw [fssGroupHasRunnable, Option.isSome_iff_ne_none, Ne, findProc_eq_none, not_forall]
  simp only [Bool.not_eq_false, runnableIn_iff]

/-- The body of the loop of `fss_pick_group`, at entry `i` with `best` so far. -/
def fssPickGroupBody (t : Ptable) (best : Option GSlot) (i : GSlot) : Option GSlot :=
  if !(t.gtable i).active then best
  else if !fssGroupHasRunnable t i then best
  else
    match best with
    | none => some i
    | some b =>
      if (t.gtable i).pass < (t.gtable b).pass
          || ((t.gtable i).pass == (t.gtable b).pass && (t.gtable i).gid < (t.gtable b).gid) then
        some i
      else best

/-- `fss_pick_group`. -/
def fssPickGroup (t : Ptable) : Option GSlot :=
  (List.finRange NGROUPS).foldl (fssPickGroupBody t) none

/-- A group the scheduler may choose: active, with a `RUNNABLE` process. -/
def Eligible (t : Ptable) (i : GSlot) : Prop :=
  (t.gtable i).active = true ∧ fssGroupHasRunnable t i = true

instance (t : Ptable) (i : GSlot) : Decidable (Eligible t i) :=
  inferInstanceAs (Decidable (_ ∧ _))

/-- The pair the scheduler compares groups by, in lexicographic order. -/
def rank (t : Ptable) (i : GSlot) : ℕ ×ₗ ℤ := toLex ((t.gtable i).pass.toNat, (t.gtable i).gid)

variable {j : GSlot}

lemma rank_lt_iff :
    rank t i < rank t j ↔ (t.gtable i).pass < (t.gtable j).pass
      ∨ (t.gtable i).pass = (t.gtable j).pass ∧ (t.gtable i).gid < (t.gtable j).gid := by
  rw [rank, rank, Prod.Lex.toLex_lt_toLex, UInt32.lt_iff_toNat_lt, ← UInt32.toNat_inj]

lemma rank_le_iff :
    rank t i ≤ rank t j ↔ (t.gtable i).pass.toNat < (t.gtable j).pass.toNat
      ∨ (t.gtable i).pass.toNat = (t.gtable j).pass.toNat
        ∧ (t.gtable i).gid ≤ (t.gtable j).gid := by
  rw [rank, rank, Prod.Lex.toLex_le_toLex]

/-- A group of least rank has least pass. -/
lemma pass_le_of_rank_le (h : rank t i ≤ rank t j) :
    (t.gtable i).pass.toNat ≤ (t.gtable j).pass.toNat := by
  rcases rank_le_iff.mp h with h | ⟨h, _⟩ <;> omega

/-- The loop of `fss_pick_group` is the search for an eligible group of least
rank. -/
lemma fssPickGroup_eq_scanBest (t : Ptable) :
    fssPickGroup t = Scan.scanBest (fun i => decide (Eligible t i)) (rank t)
      (List.finRange NGROUPS) := by
  have hbody : fssPickGroupBody t = Scan.keepBest (fun i => decide (Eligible t i)) (rank t) := by
    funext best i
    by_cases ha : (t.gtable i).active = true <;> by_cases hr : fssGroupHasRunnable t i = true
    · have he : decide (Eligible t i) = true := decide_eq_true ⟨ha, hr⟩
      cases best with
      | none => simp [fssPickGroupBody, Scan.keepBest, he, ha, hr]
      | some b => simp [fssPickGroupBody, Scan.keepBest, he, ha, hr, rank_lt_iff]
    all_goals simp [fssPickGroupBody, Scan.keepBest, Eligible, ha, hr]
  rw [fssPickGroup, Scan.scanBest, hbody]

/-- `fss_pick_group` returns null exactly when no group is eligible. -/
theorem fssPickGroup_eq_none_iff :
    fssPickGroup t = none ↔ ∀ i, ¬ Eligible t i := by
  rw [fssPickGroup_eq_scanBest, Scan.scanBest_eq_none_iff]
  simp

/-- The group `fss_pick_group` returns is eligible and has least rank. -/
theorem fssPickGroup_spec (h : fssPickGroup t = some g) :
    Eligible t g ∧ ∀ i, Eligible t i → rank t g ≤ rank t i := by
  rw [fssPickGroup_eq_scanBest] at h
  obtain ⟨_, hg, hle⟩ := Scan.scanBest_spec h
  exact ⟨of_decide_eq_true hg, fun i hi => hle i (List.mem_finRange i) (decide_eq_true hi)⟩

/-! ### The choice of a process -/

/-- The table entry at an index computed as an `int`, if it is one. -/
def slotAt (i : ℤ) : Option Slot :=
  if h : 0 ≤ i ∧ i.toNat < NPROC then some ⟨i.toNat, h.2⟩ else none

/-- The entry that iteration `j` of `fss_pick_proc_in_group` looks at. -/
def cursorAt (g : Group) (j : ℕ) : Option Slot :=
  slotAt ((g.rrCursor.tmod NPROC + j).tmod NPROC)

/-- `fss_pick_proc_in_group`: the first `RUNNABLE` process of the group at or
after its cursor, which moves past the process found. -/
def fssPickProcInGroup (t : Ptable) : Option GSlot → Ptable × Option Slot
  | none => (t, none)
  | some g =>
    match (List.range NPROC).findSome? fun j =>
        (cursorAt (t.gtable g) j).filter fun p => runnableIn (t.gtable g) (t.proc p) with
    | some p =>
      (t.setGroup g { t.gtable g with rrCursor := (p.val + 1 : ℤ).tmod NPROC }, some p)
    | none => (t, none)

/-- A cursor inside the table reaches every entry. -/
lemma exists_cursorAt {g : Group} (hc : 0 ≤ g.rrCursor) (p : Slot) :
    ∃ j < NPROC, cursorAt g j = some p := by
  obtain ⟨j, hj, hp⟩ := Scan.mem_circular NPROC g.rrCursor.toNat p.isLt
  refine ⟨j, hj, ?_⟩
  have hstart : 0 ≤ g.rrCursor % NPROC := Int.emod_nonneg _ (by decide)
  have hcur : (g.rrCursor.tmod NPROC + j).tmod NPROC = (p.val : ℤ) := by
    rw [Int.tmod_eq_emod_of_nonneg hc, Int.tmod_eq_emod_of_nonneg (by omega), Int.emod_add_emod,
      ← hp]
    push_cast
    rw [Int.toNat_of_nonneg hc]
  rw [cursorAt, hcur, slotAt, dif_pos ⟨by omega, by simp⟩]
  exact congrArg some (Fin.ext (by simp))

/-- The process `fss_pick_proc_in_group` returns is a `RUNNABLE` one of the group,
and the cursor moves past it. -/
lemma fssPickProcInGroup_some {t' : Ptable} {p : Slot}
    (h : fssPickProcInGroup t (some g) = (t', some p)) :
    t' = t.setGroup g { t.gtable g with rrCursor := (p.val + 1 : ℤ).tmod NPROC }
      ∧ (t.proc p).state = .runnable ∧ (t.proc p).gid = (t.gtable g).gid := by
  simp only [fssPickProcInGroup] at h
  split at h
  · rename_i q hq
    simp only [Prod.mk.injEq, Option.some.injEq] at h
    obtain ⟨rfl, rfl⟩ := h
    obtain ⟨j, _, hj⟩ := List.exists_of_findSome?_eq_some hq
    exact ⟨rfl, runnableIn_iff.mp (Option.filter_eq_some_iff.mp hj).2⟩
  · simp at h

/-- When `fss_pick_proc_in_group` finds nothing it changes nothing, and then, for
a cursor that is not negative, the group has no `RUNNABLE` process. -/
lemma fssPickProcInGroup_none {t' : Ptable} (h : fssPickProcInGroup t (some g) = (t', none)) :
    t' = t ∧ (0 ≤ (t.gtable g).rrCursor → fssGroupHasRunnable t g = false) := by
  simp only [fssPickProcInGroup] at h
  split at h
  · simp at h
  · rename_i hf
    simp only [Prod.mk.injEq, and_true] at h
    refine ⟨h.symm, fun hc => ?_⟩
    by_contra hne
    obtain ⟨p, hp⟩ := fssGroupHasRunnable_iff.mp (by simpa using hne)
    obtain ⟨j, hj, hcur⟩ := exists_cursorAt hc p
    have h1 := List.findSome?_eq_none_iff.mp hf j (List.mem_range.mpr hj)
    rw [hcur, Option.filter_some, runnableIn_iff.mpr hp] at h1
    simp at h1

end Xv6
