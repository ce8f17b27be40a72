import Xv6.Proc.Entry

/-!
Tick accounting.

The counters `rtime`, `wtime` and `stime` live in entries of the process table that
are used again and again: `wait` leaves the counters of the child it reaps behind,
`waitx` clears them, and `allocproc` clears them in any case.  So they count the
ticks since the entry was last allocated, and only those.

* `Counts`: the counters against the ticks of a trace.
* `counts_of_run`: from the allocation of a process on, the counters agree with the
  ticks of the run.
* `tick_accounting_exact`: what `waitx` reports of a child it reaps, and the sum of
  the counters of any process.
-/

namespace Xv6

open Ptable Transition

variable {k : ℕ} {s s' : Kernel k} {a : Act k} {tr : List (Kernel k × Act k)} {p : Slot}

instance (x : Proc) : Decidable x.Live := inferInstanceAs (Decidable (_ ∨ _))

/-- The number of ticks in a trace at which the process `p` was in the state `st`. -/
def ticksIn (st : ProcState) (p : Slot) (tr : List (Kernel k × Act k)) : ℕ :=
  tr.countP fun e => e.2 = .tick ∧ (e.1.mem.proc p).state = st

/-- The number of ticks in a trace at which the process `p` was `RUNNING`,
`RUNNABLE` or `SLEEPING`. -/
def ticksLive (p : Slot) (tr : List (Kernel k × Act k)) : ℕ :=
  tr.countP fun e => e.2 = .tick ∧ (e.1.mem.proc p).Live

lemma ticksIn_snoc (st : ProcState) (e : Kernel k × Act k) :
    ticksIn st p (tr ++ [e]) = ticksIn st p tr
      + if e.2 = .tick ∧ (e.1.mem.proc p).state = st then 1 else 0 := by
  simp [ticksIn, List.countP_append, List.countP_singleton]

/-- The live states are the three that are counted. -/
lemma ticksLive_eq (p : Slot) (tr : List (Kernel k × Act k)) :
    ticksLive p tr = ticksIn .running p tr + ticksIn .runnable p tr + ticksIn .sleeping p tr := by
  induction tr with
  | nil => rfl
  | cons e tr ih =>
    have hone : (if e.2 = .tick ∧ (e.1.mem.proc p).Live then 1 else 0)
        = (if e.2 = .tick ∧ (e.1.mem.proc p).state = .running then 1 else 0)
          + (if e.2 = .tick ∧ (e.1.mem.proc p).state = .runnable then 1 else 0)
          + if e.2 = .tick ∧ (e.1.mem.proc p).state = .sleeping then 1 else 0 := by
      by_cases ht : e.2 = .tick
      · rcases hs : e.1.mem.proc p with ⟨st, _⟩
        cases st <;> simp [ht, Proc.Live]
      · simp [ht]
    simp only [ticksLive, ticksIn, List.countP_cons, decide_eq_true_eq] at ih ⊢
    omega

/-- The counters of an entry agree with the ticks of a trace. -/
structure Counts (p : Slot) (tr : List (Kernel k × Act k)) (x : Proc) : Prop where
  rtime : x.rtime = UInt32.ofNat (ticksIn .running p tr)
  wtime : x.wtime = UInt32.ofNat (ticksIn .runnable p tr)
  stime : x.stime = UInt32.ofNat (ticksIn .sleeping p tr)

/-- `allocproc` clears the counters. -/
lemma counts_of_alloc (hw : Wf s) (hs : step s a = some s') (ha : allocates s a = some p) :
    Counts p ([] : List (Kernel k × Act k)) (s'.mem.proc p) := by
  obtain ⟨_, st, hx⟩ := proc_of_alloc hw (trans_of_step hs) ha
  rw [hx]
  exact ⟨rfl, rfl, rfl⟩

/-- A step counts on a process that stays one exactly if it is a tick. -/
lemma counts_of_step (hw : Wf s) (hs : step s a = some s') (ha : allocates s a ≠ some p)
    (hp : (s'.mem.proc p).state ≠ .unused) (h : Counts p tr (s.mem.proc p)) :
    Counts p (tr ++ [(s, a)]) (s'.mem.proc p) := by
  obtain ⟨hr, hwt, hst⟩ := h
  rcases touch_of_trans hw (trans_of_step hs) p with ⟨rfl, hx⟩ | ⟨hnt, hx⟩
  · rw [hx, Proc.tick_eq]
    constructor <;> simp only [ticksIn_snoc, true_and, UInt32.ofNat_add, hr, hwt, hst] <;>
      split <;> rfl
  · have hkeep : (s'.mem.proc p).rtime = (s.mem.proc p).rtime
        ∧ (s'.mem.proc p).wtime = (s.mem.proc p).wtime
        ∧ (s'.mem.proc p).stime = (s.mem.proc p).stime := by
      generalize s'.mem.proc p = x at hp hx
      cases hx with
      | alloc h _ _ => exact absurd h ha
      | fail => exact absurd rfl hp
      | reap _ _ hx => rcases hx with rfl | rfl <;> exact absurd rfl hp
      | _ => exact ⟨rfl, rfl, rfl⟩
    constructor <;> simp only [ticksIn_snoc, hnt, false_and, if_false, Nat.add_zero, hkeep] <;>
      assumption

/-- **From its allocation on the counters of a process agree with the run.** -/
theorem counts_of_run {s₀ : Kernel k} (h0 : Reachable step (boot k) s₀)
    (hc : Counts p ([] : List (Kernel k × Act k)) (s₀.mem.proc p)) (hr : Run step s₀ tr s)
    (hno : ∀ f ∈ tr, allocates f.1 f.2 ≠ some p) (hp : (s.mem.proc p).state ≠ .unused) :
    Counts p tr (s.mem.proc p) := by
  refine hr.snoc_induction
    (P := fun tr s => (∀ f ∈ tr, allocates f.1 f.2 ≠ some p) → (s.mem.proc p).state ≠ .unused →
      Counts p tr (s.mem.proc p)) (fun _ _ => hc) ?_ hno hp
  intro tr s a s' hr ih ha hno hp
  have hw := wf_of_reachable (h0.trans_run hr)
  have hal : allocates s a ≠ some p := hno (s, a) (by simp)
  rcases pid_of_trans hw (trans_of_step ha) p hp with ⟨h, _⟩ | ⟨_, hs, _⟩
  · exact absurd h hal
  · exact counts_of_step hw ha hal hp (ih (fun f hf => hno f (List.mem_append_left _ hf)) hs)

/-- **Tick accounting is exact.**  Every process was allocated by a step of the run;
with `tr₂` the run since then, its counters are the numbers of ticks (modulo `2^32`)
in `tr₂` at which it was `RUNNING`, `RUNNABLE` and `SLEEPING`, so they add up to the
ticks at which it was in one of these; and when a pass of `waitx` reaps it, that is
what is stored through `wtime` and `rtime`, where these are not null. -/
theorem tick_accounting_exact (hr : Run step (boot k) tr s) (hp : (s.mem.proc p).state ≠ .unused) :
    ∃ tr₁ e tr₂, tr = tr₁ ++ e :: tr₂ ∧ allocates e.1 e.2 = some p
      ∧ (∀ f ∈ tr₂, allocates f.1 f.2 ≠ some p)
      ∧ Counts p tr₂ (s.mem.proc p)
      ∧ (s.mem.proc p).rtime + (s.mem.proc p).wtime + (s.mem.proc p).stime
        = UInt32.ofNat (ticksLive p tr₂)
      ∧ ∀ c cur a m w r, WaitFrom s c cur a m → waitPass m cur = .reap p →
        (waitx m cur w r).2 = .returns (s.mem.proc p).pid
          (if w then some (UInt32.ofNat (ticksIn .runnable p tr₂)) else none)
          (if r then some (UInt32.ofNat (ticksIn .running p tr₂)) else none) := by
  obtain ⟨tr₁, e, tr₂, rfl, he, hno⟩ := exists_allocated hr hp
  obtain ⟨s₁, h1, hs, h2⟩ := hr.split_cons
  have hw1 := wf_of_reachable ⟨tr₁, h1⟩
  have hcounts := counts_of_run ⟨_, h1.snoc hs⟩ (counts_of_alloc hw1 hs he) h2 hno hp
  refine ⟨tr₁, e, tr₂, rfl, he, hno, hcounts, ?_, ?_⟩
  · rw [hcounts.rtime, hcounts.wtime, hcounts.stime, ticksLive_eq, UInt32.ofNat_add,
      UInt32.ofNat_add]
  · intro c cur a m w r hwf hreap
    obtain ⟨ch, rfl, hrun⟩ := (wf_of_reachable ⟨_, hr⟩).waitFrom_mem hwf
    -- a pass of `waitx` first clears the caller's channel, which leaves the child alone
    have hfield : ∀ {β : Type} (f : Proc → β),
        f { s.mem.proc cur with chan := ch } = f (s.mem.proc cur) →
        f ((s.mem.setProc cur { s.mem.proc cur with chan := ch }).proc p) = f (s.mem.proc p) :=
      fun f hf => setProc_field f hf p
    simp only [waitx, hreap, hfield Proc.pid rfl, hfield Proc.wtime rfl, hfield Proc.rtime rfl,
      hcounts.rtime, hcounts.wtime]

/-- Init forks and yields; the child waits for a tick, runs for another and exits;
init runs again. -/
def childLife (c : Fin 1) : List (Act 1) :=
  [.userinit, .dispatch c, .resume c] ++ List.replicate 7 (.fork c true)
    ++ [.tick, .yield c, .ret c, .dispatch c, .resume c, .tick, .exit c, .ret c, .dispatch c,
      .resume c]

theorem tick_accounting_exact_childLife :
    ∃ s tr₁ e tr₂, exec step (boot 1) (childLife 0) = some s
      ∧ traceOf step (boot 1) (childLife 0) = tr₁ ++ e :: tr₂ ∧ allocates e.1 e.2 = some 1
      ∧ (waitx s.mem 0 true true).2 = .returns 2 (some (UInt32.ofNat (ticksIn .runnable 1 tr₂)))
        (some (UInt32.ofNat (ticksIn .running 1 tr₂))) := by
  obtain ⟨s, hs, hl, hcpu, hcode, hpass, hz, hpid⟩ :
      ∃ s, exec step (boot 1) (childLife 0) = some s ∧ s.lock = .free ∧ (s.cpu 0).proc = some 0 ∧
        s.code 0 = .user ∧ waitPass s.mem 0 = .reap 1 ∧ (s.mem.proc 1).state = .zombie ∧
        (s.mem.proc 1).pid = 2 := by
    decide +kernel
  obtain ⟨tr₁, e, tr₂, htr, hal, _, _, _, hx⟩ := tick_accounting_exact (run_traceOf hs)
    (p := 1) (by simp [hz])
  have hret := hx 0 0 (.waitx 0 true true) s.mem true true
    (.call hl hcpu hcode (Or.inr ⟨true, true, rfl⟩)) hpass
  rw [hpid] at hret
  exact ⟨s, tr₁, e, tr₂, hs, htr, hal, hret⟩

end Xv6
