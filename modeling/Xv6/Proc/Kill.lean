import Xv6.Proc.Entry

/-!
Whom `kill` reaches.

`kill` looks for its pid in every entry of the process table, also in those that are
`UNUSED`.  These hold pid 0, or the pid of a `fork` that failed, which gives its
entry back as it is.  So `kill(0)` succeeds and marks a free entry, and the mark is
passed on to the process that is created in it: `kill_strays` is such a run.

* `fails`: the entry that a failing `fork` gives back.
* `Unmarked`: with the pids that `kill` must avoid collected in `F`, free entries
  hold only such pids and are not marked.
* `kill_reaches_target`: in a run in which no `kill` has the argument 0 or the pid of
  a `fork` that fails, `kill` succeeds only on a process with that pid, and a new
  process is marked only by a `kill` with its pid or by its own fault.
-/

namespace Xv6

open Ptable Transition

variable {k : ℕ} {s s' : Kernel k} {a : Act k} {tr : List (Kernel k × Act k)} {F : ℤ → Prop}

/-- The entry that a `fork` gives back because an allocation failed. -/
def fails (s : Kernel k) : Act k → Option Slot
  | .fork c false =>
    (s.runs c).bind fun p =>
      match s.code p with
      | .fork .allocated np => some np
      | .fork .stacked np => some np
      | _ => none
  | _ => none

/-- The pids in `F` are never the argument of `kill`, and the pids of `fork`s that
fail are among them. -/
def Avoids (F : ℤ → Prop) (e : Kernel k × Act k) : Prop :=
  (∀ c pid, e.2 = .kill c pid → ¬ F pid)
    ∧ ∀ np, fails e.1 e.2 = some np → F (e.1.mem.proc np).pid

/-- A free entry holds a pid that no `kill` has for its argument and is not marked;
neither is the entry of a `fork` under way if it has such a pid. -/
structure Unmarked (F : ℤ → Prop) (t : Ptable) : Prop where
  unused : ∀ q, (t.proc q).state = .unused → F (t.proc q).pid ∧ (t.proc q).killed = false
  embryo : ∀ q, (t.proc q).state = .embryo → F (t.proc q).pid → (t.proc q).killed = false

/-- The process on a CPU outside any critical section is `RUNNING`. -/
lemma Wf.running_of_runs (h : Wf s) {c : Fin k} {p : Slot} (hr : s.runs c = some p) :
    (s.mem.proc p).state = .running := by
  obtain ⟨_, hl, hp⟩ := runs_eq_some.mp hr
  exact h.onCpu c p hp hl

/-- The entry `kill` finds has the pid. -/
lemma pid_of_find {t : Ptable} {pid : ℤ} {q : Slot}
    (h : findProc t (fun x => x.pid == pid) = some q) : (t.proc q).pid = pid := by
  simpa using findProc_some h

/-- One step, with the pids in `F` avoided. -/
lemma Unmarked.step (h : Unmarked F s.mem) (hw : Wf s) (hF : F 0) (ha : Avoids F (s, a))
    (hs : Xv6.step s a = some s') : Unmarked F s'.mem := by
  have hentry : ∀ q, ((s'.mem.proc q).state = .unused →
        F (s'.mem.proc q).pid ∧ (s'.mem.proc q).killed = false)
      ∧ ((s'.mem.proc q).state = .embryo → F (s'.mem.proc q).pid →
        (s'.mem.proc q).killed = false) := by
    intro q
    rcases touch_of_trans hw (trans_of_step hs) q with ⟨rfl, hx⟩ | ⟨_, hx⟩
    · rw [hx, Proc.tick_eq]
      exact ⟨h.unused q, h.embryo q⟩
    · generalize s'.mem.proc q = x at hx
      cases hx with
      | alloc _ hu hst =>
        refine ⟨fun hun => ?_, fun _ _ => (h.unused q hu).2⟩
        rcases hst with rfl | rfl <;> simp at hun
      | move _ hst hemb => exact ⟨fun hu => h.unused q (hst.mp hu), fun he => h.embryo q (hemb he)⟩
      | inherit _ _ _ | setgroup _ _ _ _ => exact ⟨h.unused q, h.embryo q⟩
      | @fail c p pt hf hr hc hpt =>
        -- the pid is avoided, so nobody has marked the entry since it was taken
        subst hf
        have hfail : fails s (.fork c false) = some q := by
          rcases hpt with rfl | rfl <;> simp [fails, hr, hc]
        have hpid := ha.2 q hfail
        exact ⟨fun _ => ⟨hpid, h.embryo q (hw.forking _ _ _ hc).2 hpid⟩, by simp⟩
      | reap _ _ hx =>
        rcases hx with rfl | rfl <;>
          exact ⟨fun _ => ⟨hF, rfl⟩, by simp [Proc.reapWait, Proc.reapWaitx]⟩
      | @kill c pid hk hf =>
        have hno : ¬ F (s.mem.proc q).pid := by
          rw [pid_of_find hf]
          exact ha.1 c pid hk
        refine ⟨fun hu => ?_, fun _ hp => absurd hp hno⟩
        have hun : (s.mem.proc q).state = .unused := by
          by_contra hne
          simp only at hu
          split at hu <;> simp_all
        exact absurd (h.unused q hun).1 hno
      | @trap c _ hr =>
        have hrun := hw.running_of_runs hr
        exact ⟨fun hu => by simp [hrun] at hu, fun he => by simp [hrun] at he⟩
  exact ⟨fun q => (hentry q).1, fun q => (hentry q).2⟩

/-- The entries along a run. -/
lemma unmarked_of_run (hF : F 0) (hr : Run step (boot k) tr s) (ha : ∀ e ∈ tr, Avoids F e) :
    Unmarked F s.mem := by
  refine hr.snoc_induction (P := fun tr s => (∀ e ∈ tr, Avoids F e) → Unmarked F s.mem) ?_ ?_ ha
  · intro _
    constructor <;> simp [boot, pinit, fssInitGroups, Proc.zero, hF]
  · intro tr s a s' hr ih hs ha
    exact (ih fun e he => ha e (List.mem_append_left _ he)).step (wf_of_reachable ⟨tr, hr⟩) hF
      (ha (s, a) (by simp)) hs

/-- A process that is neither killed by its pid nor faults stays unmarked. -/
lemma killed_of_run {s₀ : Kernel k} {p : Slot} (h0 : Reachable step (boot k) s₀)
    (hk0 : (s₀.mem.proc p).killed = false) (hr : Run step s₀ tr s)
    (hno : ∀ f ∈ tr, allocates f.1 f.2 ≠ some p) (hp : (s.mem.proc p).state ≠ .unused)
    (hkill : ∀ f ∈ tr, ∀ c, f.2 ≠ .kill c (s.mem.proc p).pid)
    (htrap : ∀ f ∈ tr, ∀ c, f.2 = .trap c → f.1.runs c ≠ some p) :
    (s.mem.proc p).killed = false := by
  refine hr.snoc_induction
    (P := fun tr s => (∀ f ∈ tr, allocates f.1 f.2 ≠ some p) → (s.mem.proc p).state ≠ .unused →
      (∀ f ∈ tr, ∀ c, f.2 ≠ .kill c (s.mem.proc p).pid) →
      (∀ f ∈ tr, ∀ c, f.2 = .trap c → f.1.runs c ≠ some p) → (s.mem.proc p).killed = false)
    (fun _ _ _ _ => hk0) ?_ hno hp hkill htrap
  intro tr s a s' hr ih ha hno hp hkill htrap
  have hw := wf_of_reachable (h0.trans_run hr)
  rcases pid_of_trans hw (trans_of_step ha) p hp with ⟨h, _⟩ | ⟨hal, hs, hpid⟩
  · exact absurd h (hno (s, a) (by simp))
  · have hprev := ih (fun f hf => hno f (List.mem_append_left _ hf)) hs
      (fun f hf => hpid ▸ hkill f (List.mem_append_left _ hf))
      (fun f hf => htrap f (List.mem_append_left _ hf))
    have hkillA := hkill (s, a) (by simp)
    have htrapA := htrap (s, a) (by simp)
    rcases touch_of_trans hw (trans_of_step ha) p with ⟨rfl, hx⟩ | ⟨_, hx⟩
    · rw [hx, Proc.tick_eq]
      exact hprev
    · generalize s'.mem.proc p = x at hp hpid hkillA hx
      cases hx with
      | alloc h _ _ => exact absurd h hal
      | fail => exact absurd rfl hp
      | reap _ _ hx => rcases hx with rfl | rfl <;> exact absurd rfl hp
      | @kill c pid hk hf => exact absurd (hk.trans (by rw [← pid_of_find hf])) (hkillA c)
      | @trap c ht hr => exact absurd hr (htrapA c ht)
      | _ => exact hprev

/-- **`kill` reaches only its target**, in every run in which no `kill` has the
argument 0 or the pid of a `fork` that fails.  Then `kill` returns 0 only if some
process has the pid; and a process, from the step `e` that allocated its entry on,
is not marked as killed as long as there is no `kill` with its pid and no fault of
its own. -/
theorem kill_reaches_target (hr : Run step (boot k) tr s)
    (hsafe : ∀ e ∈ tr, ∀ c pid, e.2 = .kill c pid →
      pid ≠ 0 ∧ ∀ f ∈ tr, ∀ np, fails f.1 f.2 = some np → (f.1.mem.proc np).pid ≠ pid) :
    (∀ e ∈ tr, ∀ c pid, e.2 = .kill c pid → (kill e.1.mem pid).2 = 0 →
      ∃ q, (e.1.mem.proc q).state ≠ .unused ∧ (e.1.mem.proc q).pid = pid)
    ∧ ∀ tr₁ e tr₂ p, tr = tr₁ ++ e :: tr₂ → allocates e.1 e.2 = some p →
      (∀ f ∈ tr₂, allocates f.1 f.2 ≠ some p) → (s.mem.proc p).state ≠ .unused →
      (∀ f ∈ tr₂, ∀ c, f.2 ≠ .kill c (s.mem.proc p).pid) →
      (∀ f ∈ tr₂, ∀ c, f.2 = .trap c → f.1.runs c ≠ some p) →
      (s.mem.proc p).killed = false := by
  -- the pids to avoid: 0, and those of the failing forks of this run
  let F : ℤ → Prop := fun n => n = 0 ∨ ∃ f ∈ tr, ∃ np, fails f.1 f.2 = some np
    ∧ (f.1.mem.proc np).pid = n
  have havoid : ∀ e ∈ tr, Avoids F e := by
    refine fun e he => ⟨fun c pid hk hF => ?_, fun np hf => Or.inr ⟨e, he, np, hf, rfl⟩⟩
    obtain ⟨h0, hne⟩ := hsafe e he c pid hk
    rcases hF with hF | ⟨f, hf, np, hnp, hpid⟩
    · exact h0 hF
    · exact hne f hf np hnp hpid
  constructor
  · intro e he c pid hk hret
    obtain ⟨tr₁, tr₂, rfl⟩ := List.append_of_mem he
    obtain ⟨_, h1, _, _⟩ := hr.split_cons
    have hun := unmarked_of_run (F := F) (Or.inl rfl) h1 fun e he =>
      havoid e (List.mem_append_left _ he)
    rcases kill_cases e.1.mem pid with ⟨hkill, _⟩ | ⟨q, _, hpid, _⟩
    · simp [hkill] at hret
    · refine ⟨q, fun hu => (havoid e he).1 c pid hk ?_, hpid⟩
      rw [← hpid]
      exact (hun.unused q hu).1
  · rintro tr₁ e tr₂ p rfl hal hno hp hkill htrap
    obtain ⟨s₁, h1, hs, h2⟩ := hr.split_cons
    have hun := unmarked_of_run (F := F) (Or.inl rfl) h1 fun e he =>
      havoid e (List.mem_append_left _ he)
    have hk1 : (s₁.mem.proc p).killed = false := by
      obtain ⟨hu, st, hx⟩ := proc_of_alloc (wf_of_reachable ⟨tr₁, h1⟩) (trans_of_step hs) hal
      rw [hx]
      exact (hun.unused p hu).2
    exact killed_of_run ⟨_, h1.snoc hs⟩ hk1 h2 hno hp hkill htrap

/-- Init is running. -/
def initRuns : List (Act 1) := [.userinit, .dispatch 0, .resume 0]

/-- A whole `fork` that succeeds. -/
def wholeFork : List (Act 1) := List.replicate 7 (.fork 0 true)

/-- Init makes two children, after a `fork` that fails, and kills the first. -/
def killsChild : List (Act 1) :=
  initRuns ++ [.fork 0 true, .fork 0 false] ++ wholeFork ++ wholeFork ++ [.kill 0 3]

theorem kill_reaches_target_child :
    ∃ s tr, Run step (boot 1) tr s ∧ (∃ f ∈ tr, fails f.1 f.2 = some 1 ∧ (f.1.mem.proc 1).pid = 2)
      ∧ (∃ e ∈ tr, e.2 = .kill 0 3 ∧ (kill e.1.mem 3).2 = 0
        ∧ ∃ q, (e.1.mem.proc q).state ≠ .unused ∧ (e.1.mem.proc q).pid = 3)
      ∧ (s.mem.proc 1).killed = true
      ∧ (s.mem.proc 2).state = .runnable ∧ (s.mem.proc 2).killed = false := by
  obtain ⟨s, hs, h1, h2, hpid⟩ : ∃ s, exec step (boot 1) killsChild = some s
      ∧ (s.mem.proc 1).killed = true ∧ (s.mem.proc 2).state = .runnable
      ∧ (s.mem.proc 2).pid = 4 := by
    decide +kernel
  have hfails : (∃ f ∈ traceOf step (boot 1) killsChild, fails f.1 f.2 = some 1
        ∧ (f.1.mem.proc 1).pid = 2)
      ∧ ∀ f ∈ traceOf step (boot 1) killsChild, ∀ np, fails f.1 f.2 = some np →
        (f.1.mem.proc np).pid = 2 := by
    decide +kernel
  obtain ⟨e, he, hkill, hret⟩ : ∃ e ∈ traceOf step (boot 1) killsChild,
      e.2 = .kill 0 3 ∧ (kill e.1.mem 3).2 = 0 := by
    decide +kernel
  have htr : (traceOf step (boot 1) killsChild).all (fun e =>
      match e.2 with
      | .kill _ pid => pid = 3
      | .trap _ => false
      | _ => true) = true := by
    decide +kernel
  have honly : ∀ e ∈ traceOf step (boot 1) killsChild, ∀ c,
      (∀ pid, e.2 = .kill c pid → pid = 3) ∧ e.2 ≠ .trap c := by
    intro e hmem c
    have hall := List.all_eq_true.mp htr e hmem
    refine ⟨fun pid hk => ?_, fun hc => ?_⟩
    · simpa [hk] using hall
    · simp [hc] at hall
  obtain ⟨hreach, hmark⟩ := kill_reaches_target (run_traceOf hs) fun e hmem c pid hk => by
    obtain rfl := (honly e hmem c).1 pid hk
    refine ⟨by decide, fun f hf np hnp => ?_⟩
    rw [hfails.2 f hf np hnp]
    decide
  obtain ⟨tr₁, f, tr₂, htr, hal, hno⟩ := exists_allocated (run_traceOf hs) (p := 2) (by simp [h2])
  have hsub : ∀ f ∈ tr₂, f ∈ traceOf step (boot 1) killsChild := fun f hf =>
    htr ▸ List.mem_append_right _ (List.mem_cons_of_mem _ hf)
  refine ⟨s, _, run_traceOf hs, hfails.1, ⟨e, he, hkill, hret, hreach e he 0 3 hkill hret⟩, h1, h2,
    hmark tr₁ f tr₂ 2 htr hal hno (by simp [h2]) (fun f hf c hk => ?_)
    fun f hf c ht => absurd ht (honly f (hsub f hf) c).2⟩
  rw [hpid] at hk
  exact absurd ((honly f (hsub f hf) c).1 4 hk) (by decide)

/-- **`kill` goes astray.**  `kill(0)` returns 0 although no process has pid 0, and it
marks the free entry that the next `fork` takes: the child, with pid 2, is born
killed. -/
theorem kill_strays :
    ∃ s s' t, exec step (boot 1) initRuns = some s
      ∧ step s (.kill 0 0) = some s' ∧ (kill s.mem 0).2 = 0
      ∧ (∀ q, (s.mem.proc q).state ≠ .unused → (s.mem.proc q).pid ≠ 0)
      ∧ allocates s' (.fork 0 true) = some 1 ∧ exec step s' wholeFork = some t
      ∧ (t.mem.proc 1).state = .runnable ∧ (t.mem.proc 1).pid = 2
      ∧ (t.mem.proc 1).killed = true := by
  simp only [exists_and_left]
  decide +kernel

end Xv6
