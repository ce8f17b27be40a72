import Xv6.Proc.Waitx

/-!
Every child is reaped once.

`wait` and `waitx` hand the pid of a zombie child to the parent and free its entry.  As pids are not
given twice before `nextpid` wraps, no pid is returned twice, by whichever process and on whichever
CPU, and a pid that was returned names no process any more: `reaped_once`.
-/

namespace Xv6

open Ptable Transition

variable {k : ℕ} {s s' : Kernel k} {a : Act k} {tr : List (Kernel k × Act k)} {pid : ℤ}

/-- The pid that a step of `wait` or `waitx` returns. -/
def reaped (e : Kernel k × Act k) : Option ℤ :=
  match e.2 with
  | .wait _ | .waitx _ _ _ | .resume _ => ((result e.1 e.2).map Prod.fst).filter (0 < ·)
  | _ => none

/-- A pass that returns a pid frees the entry that has it. -/
lemma free_of_pass {f : Option (Bool × Bool)} {m : Ptable} {p : Slot}
    {v : ℤ × Option UInt32 × Option UInt32} (h : (pass f m p).2.result = some v) (hv : 0 < v.1) :
    ∃ z, (m.proc z).state ≠ .unused ∧ (m.proc z).pid = v.1 ∧
      ((pass f m p).1.proc z).state = .unused := by
  cases hw : waitPass m p with
  | reap z =>
    refine ⟨z, by simp [(waitPass_reap hw).2], ?_⟩
    cases f <;> simp only [pass, wait, waitx, hw, WaitResult.result, Option.some.injEq] at h ⊢ <;>
      subst h <;> simp [Proc.reapWait, Proc.reapWaitx]
  | fail =>
    cases f <;> simp only [pass, wait, waitx, hw, WaitResult.result, Option.some.injEq] at h <;>
      subst h <;> simp at hv
  | sleep => cases f <;> simp [pass, wait, waitx, hw, WaitResult.result] at h

lemma waitEnd_mem (s : Kernel k) (c : Fin k) (p : Slot) (cx : Ctx) (x : Ptable × WaitResult) :
    (s.waitEnd c p cx x).mem = x.1 := by
  obtain ⟨t, _ | _⟩ := x <;> rfl

/-- **A pid that is returned** is that of a process whose entry the step frees. -/
lemma free_of_reaped (hs : step s a = some s') (h : reaped (s, a) = some pid) :
    ∃ z, (s.mem.proc z).state ≠ .unused ∧ (s.mem.proc z).pid = pid ∧
      (s'.mem.proc z).state = .unused := by
  cases a with
  | wait c | waitx c w r =>
    simp only [reaped, result, Option.filter_eq_some_iff, Option.map_eq_some_iff,
      decide_eq_true_eq] at h
    simp only [step, Option.map_eq_some_iff] at hs
    obtain ⟨p, hp, rfl⟩ := hs
    rw [hp, Option.bind_some] at h
    obtain ⟨⟨v, hres, rfl⟩, hpos⟩ := h
    rw [waitEnd_mem]
    exact free_of_pass hres hpos
  | resume c =>
    simp only [step, Option.ite_none_right_eq_some, Option.map_eq_some_iff] at hs
    obtain ⟨hl, p, hp, rfl⟩ := hs
    simp only [reaped, result, hl, if_true, hp, Option.bind_some, Option.filter_eq_some_iff,
      Option.map_eq_some_iff, decide_eq_true_eq, Option.bind_eq_some_iff] at h
    obtain ⟨⟨v, ⟨f, hf, hres⟩, rfl⟩, hpos⟩ := h
    obtain ⟨z, hst, hpid, hfree⟩ := free_of_pass hres hpos
    have hz : ((sleepEnd s.mem p).proc z).state = (s.mem.proc z).state ∧
        ((sleepEnd s.mem p).proc z).pid = (s.mem.proc z).pid := by
      rw [sleepEnd, setProc_proc]
      split
      · next hq => exact hq ▸ ⟨rfl, rfl⟩
      · exact ⟨rfl, rfl⟩
    refine ⟨z, hz.1 ▸ hst, hz.2 ▸ hpid, ?_⟩
    cases hx : s.ctx p with
    | wait | waitx w r =>
      rw [hx] at hf
      cases hf
      rw [Kernel.resume, hx, waitEnd_mem]
      exact hfree
    | _ =>
      rw [hx] at hf
      cases hf
  | _ => cases h

/-- After `n` allocations, the pid was given and names no process any more. -/
def Gone (n : ℕ) (t : Ptable) (pid : ℤ) : Prop :=
  pid ≤ n ∧ ∀ q, (t.proc q).state ≠ .unused → (t.proc q).pid ≠ pid

/-- A pid does not come back: whoever has it after a step had it before. -/
lemma gone_of_step {n n' : ℕ} (hw : Wf s) (hpids : Pids n s.mem) (hs : step s a = some s')
    (hn : n ≤ n') (hle : pid ≤ n)
    (hno : ∀ q, (s.mem.proc q).state ≠ .unused → (s'.mem.proc q).state ≠ .unused →
      (s.mem.proc q).pid ≠ pid) : Gone n' s'.mem pid := by
  refine ⟨by omega, fun q hq => ?_⟩
  rcases pid_of_trans hw (trans_of_step hs) q hq with ⟨-, hnew⟩ | ⟨-, hlive, hsame⟩
  · rw [hnew, hpids.next]
    omega
  · rw [hsame]
    exact hno q hlive hq

/-- **No child is reaped twice.** On any number of CPUs and along every run with fewer than `2^31 -
1` allocations, the pids that `wait` and `waitx` return are pairwise distinct, and each was given to
a process that is gone. -/
theorem reaped_once (hr : Run step (boot k) tr s) (hn : allocations tr < 2 ^ 31 - 1) :
    (tr.filterMap reaped).Nodup ∧ ∀ pid ∈ tr.filterMap reaped, Gone (allocations tr) s.mem pid := by
  revert hn
  refine hr.snoc_induction
    (P := fun tr s => allocations tr < 2 ^ 31 - 1 → (tr.filterMap reaped).Nodup ∧
    ∀ pid ∈ tr.filterMap reaped, Gone (allocations tr) s.mem pid) ?_ ?_
  · exact fun _ => ⟨List.nodup_nil, fun _ h => absurd h List.not_mem_nil⟩
  · intro tr s a s' hr ih hs hn
    have hle : allocations tr ≤ allocations (tr ++ [(s, a)]) := by
      simp [allocations, List.countP_append]
    obtain ⟨hnodup, hgone⟩ := ih (by omega)
    have hpids := pids_of_run hr (by omega)
    have hw := wf_of_reachable ⟨tr, hr⟩
    have hold : ∀ pid ∈ tr.filterMap reaped, Gone (allocations (tr ++ [(s, a)])) s'.mem pid :=
      fun pid hmem => gone_of_step hw hpids hs hle (hgone pid hmem).1
        fun q hq _ => (hgone pid hmem).2 q hq
    rw [List.filterMap_append]
    cases hreap : reaped (s, a) with
    | none =>
      simp only [List.filterMap_cons, hreap, List.filterMap_nil, List.append_nil]
      exact ⟨hnodup, hold⟩
    | some pid =>
      obtain ⟨z, hz, rfl, hfree⟩ := free_of_reaped hs hreap
      simp only [List.filterMap_cons, hreap, List.filterMap_nil]
      refine ⟨List.nodup_append.mpr ⟨hnodup, List.nodup_singleton _,
        fun pid hmem pid' hmem' heq => ?_⟩,
        List.forall_mem_append.mpr ⟨hold, List.forall_mem_singleton.mpr ?_⟩⟩
      · exact (hgone pid hmem).2 z hz (heq.trans (List.mem_singleton.mp hmem')).symm
      · refine gone_of_step hw hpids hs hle (hpids.bounds z hz).2 fun q hq hq' heq => hq' ?_
        rw [hpids.inj q z hq hz heq]
        exact hfree

/-- Init forks twice and waits twice, and the children exit. -/
def twoExits (c : Fin 1) : List (Act 1) :=
  [.userinit, .dispatch c, .resume c] ++ List.replicate 14 (.fork c true) ++ [.wait c, .ret c] ++
    (List.replicate 2 [.dispatch c, .resume c, .exit c, .ret c]).flatten ++
    [.dispatch c, .resume c, .wait c]

theorem reaped_once_twoExits :
    ∃ s tr, Run step (boot 1) tr s ∧ tr.filterMap reaped = [2, 3] ∧
      Gone (allocations tr) s.mem 2 := by
  obtain ⟨s, hs, hpids, hn⟩ : ∃ s, exec step (boot 1) (twoExits 0) = some s ∧
      (traceOf step (boot 1) (twoExits 0)).filterMap reaped = [2, 3] ∧
      allocations (traceOf step (boot 1) (twoExits 0)) = 3 := by
    decide +kernel
  have hgone := (reaped_once (run_traceOf hs) (by rw [hn]; decide)).2 2
  exact ⟨s, _, run_traceOf hs, hpids, hgone (by rw [hpids]; simp)⟩

end Xv6
