import Xv6.Proc.FairShare
import Xv6.Proc.RoundRobin

/-!
No process starves.

`fss_pick_group` chooses a group and `fss_pick_proc_in_group` a process of it, so a
`RUNNABLE` process is kept waiting by two queues at once: by the other groups, which
the passes hold to a fair share, and by the other processes of its own group, which
take turns with it.  `no_starvation` puts the two bounds together to one on all that
the scheduler may dispatch, on any number of CPUs, before it picks the process.
-/

namespace Xv6

open Ptable Transition

variable {k : ℕ} {s t : Kernel k} {tr : List (Kernel k × Act k)} {g : GSlot} {q : Slot}

/-- How often a CPU went through the loop of `scheduler`. -/
def iterations (tr : List (Kernel k × Act k)) : ℕ :=
  tr.countP fun e => ∃ c, e.2 = .dispatch c

/-- The most that the group `A` may be dispatched while a process of the group `g` waits. -/
def turnsBefore (s : Kernel k) (g A : GSlot) : ℕ :=
  NPROC - 1 + 2 * k + ((s.mem.gtable g).pass.toNat - (s.mem.gtable A).pass.toNat) / FSS_BIG.toNat

/-- An iteration dispatches a process as soon as there is one that waits. -/
lemma picks_of_runnable (hg : GroupsOk s) (hq : (s.mem.proc q).state = .runnable) (c : Fin k) :
    ∃ A, picks s (.dispatch c) = some A := by
  obtain ⟨i, hi⟩ := (exists_eligible_iff hg).mpr ⟨q, hq⟩
  cases hpick : fssPickGroup s.mem with
  | none => exact absurd hi (fssPickGroup_eq_none_iff.mp hpick i)
  | some A =>
    obtain ⟨m, p, hp⟩ := fssPickProcInGroup_ne_none hg hpick
    exact ⟨A, by simp [picks, scheduler, hpick, hp]⟩

/-- The iterations are shared out among the groups. -/
lemma iterations_le_sum (h : ∀ e ∈ tr, ∀ c, e.2 = .dispatch c → ∃ A, picks e.1 e.2 = some A) :
    iterations tr ≤ ∑ A, dispatched tr A := by
  induction tr with
  | nil => simp [iterations]
  | cons e tr ih =>
    have hrest := ih fun e' he' => h e' (List.mem_cons_of_mem _ he')
    have hone : (if ∃ c, e.2 = .dispatch c then 1 else 0) ≤ ∑ A, if picks e.1 e.2
        = some A then 1 else 0 := by
      split
      · next hd =>
        obtain ⟨c, hc⟩ := hd
        obtain ⟨A, hA⟩ := h e List.mem_cons_self c hc
        rw [hA]
        simp
      · exact Nat.zero_le _
    calc iterations (e :: tr) = iterations tr + if ∃ c, e.2 = .dispatch c then 1 else 0 := by
          simp only [iterations, List.countP_cons, decide_eq_true_eq]
      _ ≤ ∑ A, dispatched tr A + ∑ A, if picks e.1 e.2 = some A then 1 else 0 := by omega
      _ = ∑ A, dispatched (e :: tr) A := by
          rw [← Finset.sum_add_distrib]
          simp only [dispatched, List.countP_cons, decide_eq_true_eq]

/-- Each dispatch of a group is a pick in it. -/
lemma dispatched_le_picks (hs : Reachable step (boot k) s) (hr : Run step s tr t) :
    dispatched tr g ≤ (tr.filterMap (pickedIn g)).length := by
  rw [List.length_filterMap_eq_countP]
  refine List.countP_mono_left fun e he hp => ?_
  obtain ⟨tr₁, tr₂, rfl⟩ := List.append_of_mem he
  obtain ⟨_, h1, _, _⟩ := hr.split_cons
  obtain ⟨⟨c, hc⟩, hpick⟩ := picks_eq_some (of_decide_eq_true hp)
  obtain ⟨m, p, hm⟩ := fssPickProcInGroup_ne_none (ok_of_reachable (hs.trans_run h1)).1 hpick
  simp [pickedIn, hc, hpick, hm]

/-- The own group of a process that is never picked has fewer than `NPROC` turns. -/
lemma dispatched_of_unpicked (hs : Reachable step (boot k) s) (hr : Run step s tr t)
    (hq : ∀ e ∈ tr, CallsPick g e → WaitsIn g q e.1.mem) (hno : q ∉ tr.filterMap (pickedIn g)) :
    dispatched tr g ≤ NPROC - 1 := by
  obtain ⟨c, -, hrot⟩ := rotation_of_run (ok_of_reachable hs) hr hq
  have hno' : q.val ∉ (tr.filterMap (pickedIn g)).map Fin.val := by
    rwa [List.mem_map_of_injective Fin.val_injective]
  have hlen := hrot.length_le q.isLt hno'
  have hlt : RoundRobin.ahead NPROC c q < NPROC := Nat.mod_lt _ (by decide)
  have hle := dispatched_le_picks (g := g) hs hr
  rw [List.length_map] at hlen
  omega

/-- **No starvation.**  On any number of CPUs, while a process of an active group waits at every
iteration of the scheduler, is never picked and no pass wraps, there are no more iterations than
`turnsBefore` allows the groups: `NPROC - 1` turns, two for each CPU, and for a group that starts
with a smaller pass the strides up to that of the process's own group. -/
theorem no_starvation (hs : Reachable step (boot k) s) (hr : Run step s tr t)
    (hact : (s.mem.gtable g).active = true)
    (hq : ∀ e ∈ tr, ∀ c, e.2 = .dispatch c → WaitsIn g q e.1.mem)
    (hw : NoWrap tr) (hno : q ∉ tr.filterMap (pickedIn g)) :
    iterations tr ≤ ∑ A, turnsBefore s g A := by
  have hown := dispatched_of_unpicked hs hr (fun e he ⟨c, hc, _⟩ => hq e he c hc) hno
  have hrun : ∀ e ∈ tr, picks e.1 e.2 ≠ none → fssGroupHasRunnable e.1.mem g = true := by
    intro e he hp
    obtain ⟨A, hA⟩ := Option.ne_none_iff_exists'.mp hp
    obtain ⟨⟨c, hc⟩, -⟩ := picks_eq_some hA
    exact fssGroupHasRunnable_iff.mpr ⟨q, hq e he c hc⟩
  have hbooks := books_of_run hs hr hw
  have hflg := Stride.flight_of_run hbooks g
  have hcpus := card_cpusOf_le s.cpu g
  calc iterations tr ≤ ∑ A, dispatched tr A := iterations_le_sum fun e he c hc => by
        obtain ⟨tr₁, tr₂, rfl⟩ := List.append_of_mem he
        obtain ⟨_, h1, _, _⟩ := hr.split_cons
        rw [hc]
        exact picks_of_runnable (ok_of_reachable (hs.trans_run h1)).1 (hq e he c hc).1 c
    _ ≤ ∑ A, turnsBefore s g A := Finset.sum_le_sum fun A _ => by
        -- what `A` has under way at the end is charged to it as well
        have hlag := lag_of_groups hs hr (A := A) hact hrun hw
        have hflA := Stride.flight_of_run hbooks A
        rw [rets_entries, dispatches_entries] at hflg hflA
        simp only [books] at hflg hflA
        rw [turnsBefore]
        omega

theorem no_starvation_twoTurns :
    ∃ (s t : Kernel 1) (tr : List (Kernel 1 × Act 1)), Run step s tr t ∧ iterations tr = 2 ∧
      (∀ e ∈ tr, ∀ c, e.2 = .dispatch c → WaitsIn 0 0 e.1.mem) ∧ 0 ∉ tr.filterMap (pickedIn 0) ∧
      iterations tr ≤ ∑ A, turnsBefore s 0 A := by
  obtain ⟨s, hs, t, ht, hcount, hwaits, hno, hwrap⟩ :
      ∃ s, exec step (boot 1) (twoChildren 0) = some s ∧
        ∃ t, exec step s (turn 0 ++ turn 0) = some t ∧
          let tr := traceOf step s (turn 0 ++ turn 0)
          iterations tr = 2 ∧ (∀ e ∈ tr, ∀ c, e.2 = .dispatch c → WaitsIn 0 0 e.1.mem) ∧
            0 ∉ tr.filterMap (pickedIn 0) ∧ ∀ e ∈ tr, ∀ g, returns e.1 e.2 = some g →
              (e.1.mem.gtable g).pass.toNat + (e.1.mem.gtable g).stride.toNat < 2 ^ 32 := by
    decide +kernel
  have hreach : Reachable step (boot 1) s := ⟨_, run_traceOf hs⟩
  exact ⟨s, t, _, run_traceOf ht, hcount, hwaits, hno,
    no_starvation hreach (run_traceOf ht) (ok_of_reachable hreach).1.table.zero.1 hwaits hwrap hno⟩

end Xv6
