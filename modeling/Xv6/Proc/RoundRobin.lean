import Xv6.Proc.Groups
import Xv6.Transition.RoundRobin

/-!
Round robin inside a group.

The cursor of a group is moved by `fss_pick_proc_in_group` alone, and the process it finds is the
`RUNNABLE` one of the group that is least ahead of the cursor.

* `pickedIn`: the process of a group that a step picks; `CallsPick`: a step that calls
  `fss_pick_proc_in_group` for the group.
* `pick_least`: no process of the group that waits is closer to the cursor than the one that is
  picked.
* `cursor_of_step`: what a step does to the cursor.
* `round_robin`: a process that waits all the time has its turn between any two picks of another
  one.
-/

namespace Xv6

open Ptable Transition

variable {k : ℕ} {s s' : Kernel k} {a : Act k} {g : GSlot}

/-- The process of the group `g` that a step picks. -/
def pickedIn (g : GSlot) (e : Kernel k × Act k) : Option Slot :=
  match e.2 with
  | .dispatch _ =>
    if fssPickGroup e.1.mem = some g then (fssPickProcInGroup e.1.mem (some g)).2 else none
  | _ => none

/-- The step calls `fss_pick_proc_in_group` for the group `g`. -/
def CallsPick (g : GSlot) (e : Kernel k × Act k) : Prop :=
  ∃ c, e.2 = .dispatch c ∧ fssPickGroup e.1.mem = some g

/-- The process in the slot `q` waits in the group `g`. -/
def WaitsIn (g : GSlot) (q : Slot) (t : Ptable) : Prop :=
  (t.proc q).state = .runnable ∧ (t.proc q).gid = (t.gtable g).gid

instance (g : GSlot) (e : Kernel k × Act k) : Decidable (CallsPick g e) :=
  inferInstanceAs (Decidable (∃ _, _))

instance (g : GSlot) (q : Slot) (t : Ptable) : Decidable (WaitsIn g q t) :=
  inferInstanceAs (Decidable (_ ∧ _))

/-! ### One pick -/

/-- The entry that the search looks at in its step `j`. -/
lemma cursorAt_eq {x : Group} {c : ℕ} (hc : x.rrCursor = c) (j : ℕ) :
    cursorAt x j = some ⟨(c + j) % NPROC, Nat.mod_lt _ (by decide)⟩ := by
  have hlt : (c + j) % NPROC < NPROC := Nat.mod_lt _ (by decide)
  have hstart : 0 ≤ (c : ℤ) % NPROC := Int.emod_nonneg _ (by decide)
  have hcur : (x.rrCursor.tmod NPROC + j).tmod NPROC = ((c + j) % NPROC : ℕ) := by
    rw [hc, Int.tmod_eq_emod_of_nonneg (Int.natCast_nonneg c),
      Int.tmod_eq_emod_of_nonneg (by omega), Int.emod_add_emod]
    exact_mod_cast rfl
  rw [cursorAt, hcur, slotAt, dif_pos ⟨Int.natCast_nonneg _, by rwa [Int.toNat_natCast]⟩]
  exact congrArg some (Fin.ext (Int.toNat_natCast _))

/-- **The pick is the closest one.** -/
lemma pick_least {t t' : Ptable} {p q : Slot} {c : ℕ} (hc : (t.gtable g).rrCursor = c)
    (hlt : c < NPROC) (h : fssPickProcInGroup t (some g) = (t', some p)) (hq : WaitsIn g q t) :
    RoundRobin.ahead NPROC c p ≤ RoundRobin.ahead NPROC c q := by
  simp only [fssPickProcInGroup] at h
  split at h
  · next p' hp' =>
    obtain rfl : p' = p := by
      simp only [Prod.mk.injEq, Option.some.injEq] at h
      exact h.2
    obtain ⟨j, hj, hfound, hnone⟩ := Scan.findSome?_range hp'
    rw [cursorAt_eq hc, Option.filter_eq_some_iff, Option.some.injEq] at hfound
    have hjp : RoundRobin.ahead NPROC c p' = j := by
      rw [← hfound.1]
      exact RoundRobin.ahead_add hlt hj
    rw [hjp]
    by_contra hcloser
    have hskip := hnone _ (not_le.mp hcloser)
    have hthere : cursorAt (t.gtable g) (RoundRobin.ahead NPROC c q) = some q := by
      rw [cursorAt_eq hc]
      exact congrArg some (Fin.ext (RoundRobin.add_ahead hlt q.isLt))
    rw [hthere, Option.filter_some, runnableIn_iff.mpr hq] at hskip
    cases hskip
  · simp at h

/-! ### The cursor along a run -/

lemma pickedIn_of_dispatch {c : Fin k} {p : Slot} {t : Ptable}
    (hpick : fssPickGroup s.mem = some g) (hp : fssPickProcInGroup s.mem (some g) = (t, some p)) :
    pickedIn g (s, .dispatch c) = some p := by
  simp [pickedIn, hpick, hp]

/-- **What a step does to the cursor of a group**: it picks a process and moves the cursor behind
it, or it picks none and the cursor of an active group stays. -/
lemma cursor_of_step (hI : GroupsOk s ∧ Wf s) (hs : step s a = some s') :
    (∃ c t p, a = .dispatch c ∧ fssPickGroup s.mem = some g ∧ fssPickProcInGroup s.mem (some g)
      = (t, some p) ∧
      pickedIn g (s, a) = some p ∧ (s'.mem.gtable g).rrCursor = ((p.val + 1) % NPROC : ℕ)) ∨
    pickedIn g (s, a) = none ∧
      ((s.mem.gtable g).active = true →
        (s'.mem.gtable g).rrCursor = (s.mem.gtable g).rrCursor) := by
  have ht := trans_of_step hs
  have hgs := groupStep_of_trans hI.1 hI.2 ht
  by_cases hd : ∃ c, a = .dispatch c
  · obtain ⟨c, rfl⟩ := hd
    cases ht with
    | idle _ _ hpick => exact .inr ⟨by simp [pickedIn, hpick], fun _ => rfl⟩
    | @emptyGroup _ g' t _ _ hpick hp =>
      refine .inr ⟨?_, fun _ => by rw [(fssPickProcInGroup_none hp).1]⟩
      simp only [pickedIn, hpick, Option.some.injEq]
      split
      · next he => rw [← he, hp]
      · rfl
    | @dispatch _ g' p t _ _ hpick hp =>
      obtain ⟨rfl, -, -⟩ := fssPickProcInGroup_some hp
      rcases eq_or_ne g' g with rfl | hne
      · refine .inl ⟨c, _, p, rfl, hpick, hp, pickedIn_of_dispatch hpick hp, ?_⟩
        simp only [setProc_gtable, setGroup_gtable_self]
        rw [Int.tmod_eq_emod_of_nonneg (by omega)]
        push_cast
        rfl
      · refine .inr ⟨by simp [pickedIn, hpick, hne], fun _ => ?_⟩
        simp only [setProc_gtable, setGroup_gtable, if_neg (Ne.symm hne)]
    | waitReap hwf | waitFail hwf | waitSleep hwf =>
      cases hwf with
      | call _ _ _ ha => rcases ha with ha | ⟨w, r, ha⟩ <;> cases ha
  · -- Only a dispatch moves a cursor.
    have hnone : pickedIn g (s, a) = none := by
      unfold pickedIn
      split
      · next c hc => exact absurd ⟨c, hc⟩ hd
      · rfl
    refine .inr ⟨hnone, fun hact => ?_⟩
    generalize s'.mem.gtable = f at hgs
    generalize s'.cpu = u at hgs
    cases hgs with
    | same => rfl
    | @create c pid gid i _ hi _ =>
      have hgi : g ≠ i := by
        rintro rfl
        rw [hact] at hi
        cases hi
      rw [Function.update_of_ne hgi]
    | @dispatch c => exact absurd ⟨c, rfl⟩ hd
    | @ret c g' _ =>
      rcases eq_or_ne g g' with rfl | hne
      · rw [Function.update_self]
      · rw [Function.update_of_ne hne]

/-- **The picks of a run are a rotation**, for a process that waits at every call. -/
lemma rotation_of_run {q : Slot} {tr : List (Kernel k × Act k)} (hI : GroupsOk s ∧ Wf s)
    (hr : Run step s tr s') (hq : ∀ e ∈ tr, CallsPick g e → WaitsIn g q e.1.mem) :
    ∃ c : ℕ, ((s.mem.gtable g).active = true → (s.mem.gtable g).rrCursor = c) ∧
      RoundRobin.Rotation NPROC q c ((tr.filterMap (pickedIn g)).map Fin.val) := by
  induction hr with
  | nil s =>
    refine ⟨(s.mem.gtable g).rrCursor.toNat, fun hact => ?_, .nil _⟩
    exact (Int.toNat_of_nonneg (hI.1.table.active g hact).2.1).symm
  | @cons s u s' a tr hs _ ih =>
    have hI' : GroupsOk u ∧ Wf u := ⟨hI.1.step hI.2 hs, hI.2.step (trans_of_step hs)⟩
    have hgs := groupStep_of_trans hI.1 hI.2 (trans_of_step hs)
    obtain ⟨c', hcur, hrot⟩ := ih hI' fun e he => hq e (List.mem_cons_of_mem _ he)
    rcases cursor_of_step (g := g) hI hs with ⟨cpu, t, p, rfl, hpick, hp, hpicked,
      hmove⟩ | ⟨hnone, hstay⟩
    · -- The group is active, and its cursor is in the table.
      have hact := (fssPickGroup_spec hpick).1.1
      obtain ⟨-, hpos, hlt⟩ := hI.1.table.active g hact
      obtain ⟨c, hc⟩ := Int.eq_ofNat_of_zero_le hpos
      have hc' : c' = (p.val + 1) % NPROC := by
        have hact' := (hgs.keeps g hact).1
        rw [hcur hact'] at hmove
        exact_mod_cast hmove
      rw [List.filterMap_cons, hpicked, List.map_cons]
      refine ⟨c, fun _ => hc, .cons (by omega) p.isLt ?_ (hc' ▸ hrot)⟩
      exact pick_least hc (by omega) hp (hq _ List.mem_cons_self ⟨cpu, rfl, hpick⟩)
    · rw [List.filterMap_cons, hnone]
      refine ⟨c', fun hact => ?_, hrot⟩
      rw [← hstay hact, hcur (hgs.keeps g hact).1]

/-- **Round robin**: if the process in the slot `q` waits at every pick of its group over a stretch
of a run, then it is picked between any two picks of another process, and it waits for fewer than
`NPROC` picks. -/
theorem round_robin {q : Slot} {tr : List (Kernel k × Act k)} (h : Reachable step (boot k) s)
    (hr : Run step s tr s') (hq : ∀ e ∈ tr, CallsPick g e → WaitsIn g q e.1.mem) :
    (∀ p l₁ l₂ l₃, tr.filterMap (pickedIn g) = l₁ ++ p :: (l₂ ++ p :: l₃) → p ≠ q → q ∈ l₂) ∧
      (q ∉ tr.filterMap (pickedIn g) → (tr.filterMap (pickedIn g)).length ≤ NPROC - 1) := by
  obtain ⟨c, -, hrot⟩ := rotation_of_run (ok_of_reachable h) hr hq
  refine ⟨fun p l₁ l₂ l₃ hl hne => ?_, fun hno => ?_⟩
  · rw [hl, List.map_append, List.map_cons, List.map_append, List.map_cons] at hrot
    have hmem := hrot.mem_between q.isLt fun he => hne (Fin.ext he)
    obtain ⟨r, hr, hrq⟩ := List.mem_map.mp hmem
    rwa [Fin.ext hrq] at hr
  · have hno' : q.val ∉ (tr.filterMap (pickedIn g)).map Fin.val := by
      intro hmem
      obtain ⟨r, hr, hrq⟩ := List.mem_map.mp hmem
      rw [Fin.ext hrq] at hr
      exact hno hr
    have hle := hrot.length_le q.isLt hno'
    have hlt : RoundRobin.ahead NPROC c q < NPROC := Nat.mod_lt _ (by decide)
    rw [List.length_map] at hle
    omega

/-- Init forks two children and yields. -/
def twoChildren (c : Fin 1) : List (Act 1) :=
  [.userinit, .dispatch c, .resume c] ++ List.replicate 14 (.fork c true) ++ [.yield c, .ret c]

/-- Five times a process is picked, and yields. -/
def fiveTurns (c : Fin 1) : List (Act 1) :=
  (List.replicate 5 [.dispatch c, .resume c, .yield c, .ret c]).flatten

theorem round_robin_fiveTurns :
    ∃ s s' tr, Reachable step (boot 1) s ∧ Run step s tr s' ∧
      (∀ e ∈ tr, CallsPick 0 e → WaitsIn 0 0 e.1.mem) ∧
      tr.filterMap (pickedIn 0) = [1, 2, 0, 1, 2] ∧
      (∀ p l₁ l₂ l₃, tr.filterMap (pickedIn 0) = l₁ ++ p :: (l₂ ++ p :: l₃) → p ≠ 0 → 0 ∈ l₂) := by
  obtain ⟨s, hs, s', hs', hwaits, hpicked⟩ :
      ∃ s, exec step (boot 1) (twoChildren 0) = some s ∧
        ∃ s', exec step s (fiveTurns 0) = some s' ∧
          (∀ e ∈ traceOf step s (fiveTurns 0), CallsPick 0 e → WaitsIn 0 0 e.1.mem) ∧
          (traceOf step s (fiveTurns 0)).filterMap (pickedIn 0) = [1, 2, 0, 1, 2] := by
    decide +kernel
  have hreach : Reachable step (boot 1) s := ⟨_, run_traceOf hs⟩
  exact ⟨s, s', _, hreach, run_traceOf hs', hwaits, hpicked,
    (round_robin hreach (run_traceOf hs') hwaits).1⟩

end Xv6
