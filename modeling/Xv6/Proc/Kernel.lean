import Xv6.Proc.Calls
import Xv6.Transition.Run

/-!
The processes and the CPUs, as one transition system.

`ptable.lock` is held across `swtch`, so it is released by another thread than
the one that took it.  The model keeps this: `Lock` says on which CPU the lock
is held and on which side of the `swtch`.  `scheduler` takes it, picks a process
and switches to it (`dispatch`, leaving the lock `atProc`); the process finishes
the section it had left in `sched` (`resume`).  A process that calls `yield`,
`sleep`, `exit` or a `wait` that has to wait takes the lock and switches back
(leaving it `atSched`), and `scheduler` charges the group and releases it (`ret`).
The other sections take and release the lock in one step, and the steps of `fork`
that hold no lock can be taken while another CPU holds it.

* `Kernel k`, `Act k`, `step`: the state of a machine with `k` CPUs, the actions
  and the step function.  `userinit` is an action, so that every process, the
  first one included, is allocated by a step of the run; `boot` is the state
  `pinit` leaves.
* `Trans`, `trans_of_step`: all that a step can do, one constructor for each
  transition.  Every invariant is proved from it.
-/

namespace Xv6

open Ptable Transition Function

/-! ### The scheduler -/

/-- How an iteration of `scheduler` goes: no group, a group without a process
(the branch `p == 0`), or a process to run. -/
inductive Sched where
  | idle
  | emptyGroup (g : GSlot)
  | run (g : GSlot) (p : Slot)
  deriving DecidableEq, Repr

/-- An iteration of `scheduler` up to `swtch`. -/
def scheduler (t : Ptable) : Ptable × Sched :=
  match fssPickGroup t with
  | none => (t, .idle)
  | some g =>
    match fssPickProcInGroup t (some g) with
    | (t, none) => (t, .emptyGroup g)
    | (t, some p) => (t.setProc p { t.proc p with state := .running }, .run g p)

/-- `g->pass += g->stride`. -/
def charge (t : Ptable) (g : GSlot) : Ptable :=
  t.setGroup g { t.gtable g with pass := (t.gtable g).pass + (t.gtable g).stride }

/-! ### The state -/

/-- The points of `fork` between two steps, the first two inside `allocproc`:
the entry is taken, the stack is allocated, the memory is copied, the parent is
set, the gid is copied, the group is ensured. -/
inductive ForkAt where
  | allocated | stacked | copied | parented | gidCopied | ensured
  deriving DecidableEq, Repr

/-- Where the code of a process is between two critical sections: inside `fork`
with the new entry, or anywhere else. -/
inductive Code where
  | user
  | fork (pt : ForkAt) (np : Slot)
  deriving DecidableEq, Repr

/-- Where a process that does not run continues once it is switched to: at
`forkret`, or after the `sched` of `yield`, of `sleep`, or of the `sleep` inside
`wait` and `waitx`. -/
inductive Ctx where
  | forkret | yield | sleep | wait | waitx (w r : Bool)
  deriving DecidableEq, Repr

/-- `struct cpu`, with the local variable `g` of the `scheduler` loop. -/
structure Cpu where
  proc : Option Slot
  g : Option GSlot
  deriving DecidableEq, Repr

/-- `ptable.lock`: free, or held on a CPU by the process just switched to, or
held there by `scheduler` just switched back to. -/
inductive Lock (k : ℕ) where
  | free
  | atProc (c : Fin k)
  | atSched (c : Fin k)
  deriving DecidableEq, Repr

/-- A machine with `k` CPUs. -/
structure Kernel (k : ℕ) where
  mem : Ptable
  cpu : Fin k → Cpu
  lock : Lock k
  code : Slot → Code
  ctx : Slot → Ctx

variable {k : ℕ}

/-- The state `pinit` leaves. -/
def boot (k : ℕ) : Kernel k where
  mem := pinit
  cpu := fun _ => ⟨none, none⟩
  lock := .free
  code := fun _ => .user
  ctx := fun _ => .forkret

/-! ### The steps -/

/-- The actions.  A CPU `c` acts for the process it runs; `ok` tells whether the
allocation `fork` is at succeeds. -/
inductive Act (k : ℕ) where
  | userinit
  | dispatch (c : Fin k)
  | resume (c : Fin k)
  | ret (c : Fin k)
  | yield (c : Fin k)
  | sleep (c : Fin k) (a : ℕ)
  | exit (c : Fin k)
  | wait (c : Fin k)
  | waitx (c : Fin k) (w r : Bool)
  | fork (c : Fin k) (ok : Bool)
  | kill (c : Fin k) (pid : ℤ)
  | trap (c : Fin k)
  | setgroup (c : Fin k) (pid gid : ℤ)
  | wakeup (ch : Chan)
  | tick
  deriving DecidableEq, Repr

namespace Kernel

/-- The process that CPU `c` runs and that can take the free lock. -/
def enter (s : Kernel k) (c : Fin k) : Option Slot :=
  if s.lock = .free then (s.cpu c).proc else none

/-- The same, for a process that is not inside `fork`. -/
def enterUser (s : Kernel k) (c : Fin k) : Option Slot :=
  (s.enter c).filter fun p => s.code p = .user

/-- The process that CPU `c` runs outside any critical section. -/
def runs (s : Kernel k) (c : Fin k) : Option Slot :=
  if s.lock = .atProc c ∨ s.lock = .atSched c then none else (s.cpu c).proc

/-- `sched`: switch from process `p` to the scheduler of CPU `c`, holding the
lock; the process will continue at `cx`. -/
def sched (s : Kernel k) (c : Fin k) (p : Slot) (cx : Ctx) (t : Ptable) : Kernel k :=
  { s with mem := t, lock := .atSched c, ctx := update s.ctx p cx }

/-- The end of a pass of `wait` or `waitx`: return, or `sched`. -/
def waitEnd (s : Kernel k) (c : Fin k) (p : Slot) (cx : Ctx) : Ptable × WaitResult → Kernel k
  | (t, .sleeps) => s.sched c p cx t
  | (t, .returns _ _ _) => { s with mem := t, lock := .free }

/-- An iteration of `scheduler` on CPU `c`, up to `swtch`. -/
def dispatch (s : Kernel k) (c : Fin k) : Kernel k :=
  match Xv6.scheduler s.mem with
  | (t, .run g p) =>
    { s with mem := t, cpu := update s.cpu c ⟨some p, some g⟩, lock := .atProc c }
  | (t, _) => { s with mem := t }

/-- The process just switched to finishes the section it had left. -/
def resume (s : Kernel k) (c : Fin k) (p : Slot) : Kernel k :=
  match s.ctx p with
  | .forkret => { s with lock := .free }
  | .yield => { s with lock := .free }
  | .sleep => { s with mem := sleepEnd s.mem p, lock := .free }
  | .wait => s.waitEnd c p .wait (Xv6.wait (sleepEnd s.mem p) p)
  | .waitx w r => s.waitEnd c p (.waitx w r) (Xv6.waitx (sleepEnd s.mem p) p w r)

/-- `scheduler` after `swtch` has returned. -/
def ret (s : Kernel k) (c : Fin k) (g : GSlot) : Kernel k :=
  { s with
    mem := charge s.mem g
    cpu := update s.cpu c ⟨none, none⟩
    lock := .free }

/-- Set the point where the code of a process is. -/
def goto (s : Kernel k) (p : Slot) (co : Code) (t : Ptable) : Kernel k :=
  { s with mem := t, code := update s.code p co }

/-- The next step of `fork`, called by process `p`. -/
def fork (s : Kernel k) (p : Slot) (ok : Bool) : Option (Kernel k) :=
  match s.code p with
  | .user =>
    if s.lock = .free then
      match allocproc s.mem with
      | (t, none) => some { s with mem := t }
      | (t, some np) => some (s.goto p (.fork .allocated np) t)
    else none
  | .fork .allocated np =>
    if ok then
      some { s.goto p (.fork .stacked np) s.mem with ctx := update s.ctx np .forkret }
    else some (s.goto p .user (forkFail s.mem np))
  | .fork .stacked np =>
    if ok then some (s.goto p (.fork .copied np) s.mem)
    else some (s.goto p .user (forkFail s.mem np))
  | .fork .copied np => some (s.goto p (.fork .parented np) (forkParent s.mem p np))
  | .fork .parented np => some (s.goto p (.fork .gidCopied np) (forkGid s.mem p np))
  | .fork .gidCopied np => some (s.goto p (.fork .ensured np) (forkEnsure s.mem np))
  | .fork .ensured np =>
    if s.lock = .free then some (s.goto p .user (forkRunnable s.mem np)) else none

end Kernel

/-- **The step function.** -/
def step (s : Kernel k) : Act k → Option (Kernel k)
  | .userinit =>
    if s.lock = .free ∧ s.mem.initproc = none then some { s with mem := userinit s.mem } else none
  | .dispatch c =>
    if s.lock = .free ∧ (s.cpu c).proc = none then some (s.dispatch c) else none
  | .resume c => if s.lock = .atProc c then (s.cpu c).proc.map (s.resume c) else none
  | .ret c => if s.lock = .atSched c then (s.cpu c).g.map (s.ret c) else none
  | .yield c => (s.enter c).map fun p => s.sched c p .yield (yield s.mem p)
  | .sleep c a => (s.enterUser c).map fun p => s.sched c p .sleep (sleep s.mem p (.obj a))
  | .exit c =>
    -- `exit` panics when init calls it
    ((s.enterUser c).filter fun p => s.mem.initproc ≠ some p).map fun p =>
      s.sched c p (s.ctx p) (exit s.mem p)
  | .wait c => (s.enterUser c).map fun p => s.waitEnd c p .wait (wait s.mem p)
  | .waitx c w r => (s.enterUser c).map fun p => s.waitEnd c p (.waitx w r) (waitx s.mem p w r)
  | .fork c ok => (s.runs c).bind fun p => s.fork p ok
  | .kill c pid => (s.enterUser c).map fun _ => { s with mem := (kill s.mem pid).1 }
  | .trap c =>
    ((s.runs c).filter fun p => s.code p = .user).map fun p =>
      { s with mem := trapKill s.mem p }
  | .setgroup c pid gid =>
    (s.enterUser c).map fun _ => { s with mem := (setgroupK s.mem pid gid).1 }
  | .wakeup ch => if s.lock = .free then some { s with mem := wakeup1 s.mem (some ch) } else none
  | .tick => if s.lock = .free then some { s with mem := tickAccounting s.mem } else none

/-! ### All that a step can do -/

/-- A pass of `wait` or `waitx` by process `p` on CPU `c` begins with action `a`
on the memory `m`: at the call, or when the process is switched to after a sleep
inside it. -/
inductive WaitFrom (s : Kernel k) (c : Fin k) (p : Slot) : Act k → Ptable → Prop where
  | call {a} : s.lock = .free → (s.cpu c).proc = some p → s.code p = .user →
      a = .wait c ∨ (∃ w r, a = .waitx c w r) → WaitFrom s c p a s.mem
  | woken : s.lock = .atProc c → (s.cpu c).proc = some p →
      s.ctx p = .wait ∨ (∃ w r, s.ctx p = .waitx w r) →
      WaitFrom s c p (.resume c) (sleepEnd s.mem p)

/-- The transitions, one constructor for each thing a step can do. -/
inductive Trans (s : Kernel k) : Act k → Kernel k → Prop where
  | userinit : s.lock = .free → s.mem.initproc = none →
      Trans s .userinit { s with mem := userinit s.mem }
  | idle {c} : s.lock = .free → (s.cpu c).proc = none → fssPickGroup s.mem = none →
      Trans s (.dispatch c) s
  | emptyGroup {c g t} : s.lock = .free → (s.cpu c).proc = none → fssPickGroup s.mem = some g →
      fssPickProcInGroup s.mem (some g) = (t, none) →
      Trans s (.dispatch c) { s with mem := t }
  | dispatch {c g p t} : s.lock = .free → (s.cpu c).proc = none → fssPickGroup s.mem = some g →
      fssPickProcInGroup s.mem (some g) = (t, some p) →
      Trans s (.dispatch c)
        { s with
          mem := t.setProc p { t.proc p with state := .running }
          cpu := update s.cpu c ⟨some p, some g⟩
          lock := .atProc c }
  | resume {c p} : s.lock = .atProc c → (s.cpu c).proc = some p →
      s.ctx p = .forkret ∨ s.ctx p = .yield →
      Trans s (.resume c) { s with lock := .free }
  | resumeSleep {c p} : s.lock = .atProc c → (s.cpu c).proc = some p → s.ctx p = .sleep →
      Trans s (.resume c) { s with mem := sleepEnd s.mem p, lock := .free }
  | waitReap {a c p m z x} : WaitFrom s c p a m → waitPass m p = .reap z →
      x = (m.proc z).reapWait ∨ x = (m.proc z).reapWaitx →
      Trans s a { s with mem := m.setProc z x, lock := .free }
  | waitFail {a c p m} : WaitFrom s c p a m → waitPass m p = .fail →
      Trans s a { s with mem := m, lock := .free }
  | waitSleep {a c p m cx} : WaitFrom s c p a m → waitPass m p = .sleep →
      cx = .wait ∨ (∃ w r, cx = .waitx w r) →
      Trans s a (s.sched c p cx (Xv6.sleep m p (.proc p)))
  | ret {c g} : s.lock = .atSched c → (s.cpu c).g = some g → Trans s (.ret c) (s.ret c g)
  | yield {c p} : s.lock = .free → (s.cpu c).proc = some p →
      Trans s (.yield c) (s.sched c p .yield (Xv6.yield s.mem p))
  | sleep {c p a} : s.lock = .free → (s.cpu c).proc = some p → s.code p = .user →
      Trans s (.sleep c a) (s.sched c p .sleep (Xv6.sleep s.mem p (.obj a)))
  | exit {c p} : s.lock = .free → (s.cpu c).proc = some p → s.code p = .user →
      s.mem.initproc ≠ some p → Trans s (.exit c) (s.sched c p (s.ctx p) (Xv6.exit s.mem p))
  | forkFull {c p ok} : s.lock = .free → (s.cpu c).proc = some p → s.code p = .user →
      allocproc s.mem = (s.mem, none) → Trans s (.fork c ok) s
  | forkAlloc {c p ok np t} : s.lock = .free → (s.cpu c).proc = some p → s.code p = .user →
      allocproc s.mem = (t, some np) →
      Trans s (.fork c ok) (s.goto p (.fork .allocated np) t)
  | forkStack {c p np} : s.runs c = some p → s.code p = .fork .allocated np →
      Trans s (.fork c true)
        { s.goto p (.fork .stacked np) s.mem with ctx := update s.ctx np .forkret }
  | forkCopy {c p np} : s.runs c = some p → s.code p = .fork .stacked np →
      Trans s (.fork c true) (s.goto p (.fork .copied np) s.mem)
  | forkFail {c p pt np} : s.runs c = some p → s.code p = .fork pt np →
      pt = .allocated ∨ pt = .stacked →
      Trans s (.fork c false) (s.goto p .user (Xv6.forkFail s.mem np))
  | forkParent {c p ok np} : s.runs c = some p → s.code p = .fork .copied np →
      Trans s (.fork c ok) (s.goto p (.fork .parented np) (Xv6.forkParent s.mem p np))
  | forkGid {c p ok np} : s.runs c = some p → s.code p = .fork .parented np →
      Trans s (.fork c ok) (s.goto p (.fork .gidCopied np) (Xv6.forkGid s.mem p np))
  | forkEnsure {c p ok np} : s.runs c = some p → s.code p = .fork .gidCopied np →
      Trans s (.fork c ok) (s.goto p (.fork .ensured np) (Xv6.forkEnsure s.mem np))
  | forkRunnable {c p ok np} : s.lock = .free → (s.cpu c).proc = some p →
      s.code p = .fork .ensured np →
      Trans s (.fork c ok) (s.goto p .user (Xv6.forkRunnable s.mem np))
  | kill {c p pid} : s.lock = .free → (s.cpu c).proc = some p → s.code p = .user →
      Trans s (.kill c pid) { s with mem := (Xv6.kill s.mem pid).1 }
  | trap {c p} : s.runs c = some p → s.code p = .user →
      Trans s (.trap c) { s with mem := trapKill s.mem p }
  | setgroup {c p pid gid} : s.lock = .free → (s.cpu c).proc = some p → s.code p = .user →
      Trans s (.setgroup c pid gid) { s with mem := (setgroupK s.mem pid gid).1 }
  | wakeup {ch} : s.lock = .free → Trans s (.wakeup ch) { s with mem := wakeup1 s.mem (some ch) }
  | tick : s.lock = .free → Trans s .tick { s with mem := tickAccounting s.mem }

variable {s : Kernel k} {c : Fin k} {p : Slot}

/-- The end of a pass of `wait` or `waitx`, by the way the pass ends. -/
lemma trans_waitEnd {m : Ptable} {a : Act k} (h : WaitFrom s c p a m) :
    Trans s a (s.waitEnd c p .wait (wait m p))
      ∧ ∀ w r, Trans s a (s.waitEnd c p (.waitx w r) (waitx m p w r)) := by
  cases hw : waitPass m p with
  | reap z =>
    simp only [wait, waitx, hw, Kernel.waitEnd]
    exact ⟨.waitReap h hw (Or.inl rfl), fun _ _ => .waitReap h hw (Or.inr rfl)⟩
  | fail =>
    simp only [wait, waitx, hw, Kernel.waitEnd]
    exact ⟨.waitFail h hw, fun _ _ => .waitFail h hw⟩
  | sleep =>
    simp only [wait, waitx, hw, Kernel.waitEnd]
    exact ⟨.waitSleep h hw (Or.inl rfl), fun w r => .waitSleep h hw (Or.inr ⟨w, r, rfl⟩)⟩

lemma enter_eq_some :
    s.enter c = some p ↔ s.lock = .free ∧ (s.cpu c).proc = some p := by
  simp [Kernel.enter]

lemma enterUser_eq_some :
    s.enterUser c = some p ↔ s.lock = .free ∧ (s.cpu c).proc = some p ∧ s.code p = .user := by
  simp [Kernel.enterUser, Option.filter_eq_some_iff, enter_eq_some, and_assoc]

lemma runs_eq_some :
    s.runs c = some p ↔ s.lock ≠ .atProc c ∧ s.lock ≠ .atSched c ∧ (s.cpu c).proc = some p := by
  simp only [Kernel.runs]
  split
  · rename_i h
    simp only [reduceCtorEq, false_iff]
    tauto
  · rename_i h
    simp only [not_or] at h
    simp [h.1, h.2]

/-- Every step is one of the transitions. -/
theorem trans_of_step {s' : Kernel k} {a : Act k} (h : step s a = some s') : Trans s a s' := by
  cases a with
  | userinit =>
    simp only [step, Option.ite_none_right_eq_some, Option.some.injEq] at h
    obtain ⟨⟨hl, hi⟩, rfl⟩ := h
    exact .userinit hl hi
  | dispatch c =>
    simp only [step, Option.ite_none_right_eq_some, Option.some.injEq] at h
    obtain ⟨⟨hl, hc⟩, rfl⟩ := h
    cases hg : fssPickGroup s.mem with
    | none =>
      simp only [Kernel.dispatch, scheduler, hg]
      exact .idle hl hc hg
    | some g =>
      rcases hp : fssPickProcInGroup s.mem (some g) with ⟨t, _ | p⟩
      · simp only [Kernel.dispatch, scheduler, hg, hp]
        exact .emptyGroup hl hc hg hp
      · simp only [Kernel.dispatch, scheduler, hg, hp]
        exact .dispatch hl hc hg hp
  | resume c =>
    simp only [step, Option.ite_none_right_eq_some, Option.map_eq_some_iff] at h
    obtain ⟨hl, p, hp, rfl⟩ := h
    have hw : s.ctx p = .wait ∨ (∃ w r, s.ctx p = .waitx w r) →
        WaitFrom s c p (.resume c) (sleepEnd s.mem p) := fun hx => .woken hl hp hx
    cases hx : s.ctx p with
    | forkret => simp only [Kernel.resume, hx]; exact .resume hl hp (Or.inl hx)
    | yield => simp only [Kernel.resume, hx]; exact .resume hl hp (Or.inr hx)
    | sleep => simp only [Kernel.resume, hx]; exact .resumeSleep hl hp hx
    | wait => simp only [Kernel.resume, hx]; exact (trans_waitEnd (hw (Or.inl hx))).1
    | waitx w r =>
      simp only [Kernel.resume, hx]
      exact (trans_waitEnd (hw (Or.inr ⟨w, r, hx⟩))).2 w r
  | ret c =>
    simp only [step, Option.ite_none_right_eq_some, Option.map_eq_some_iff] at h
    obtain ⟨hl, g, hg, rfl⟩ := h
    exact .ret hl hg
  | yield c =>
    simp only [step, Option.map_eq_some_iff, enter_eq_some] at h
    obtain ⟨p, ⟨hl, hp⟩, rfl⟩ := h
    exact .yield hl hp
  | sleep c a =>
    simp only [step, Option.map_eq_some_iff, enterUser_eq_some] at h
    obtain ⟨p, ⟨hl, hp, hu⟩, rfl⟩ := h
    exact .sleep hl hp hu
  | exit c =>
    simp only [step, Option.map_eq_some_iff, Option.filter_eq_some_iff, enterUser_eq_some,
      decide_eq_true_eq] at h
    obtain ⟨p, ⟨⟨hl, hp, hu⟩, hi⟩, rfl⟩ := h
    exact .exit hl hp hu hi
  | wait c =>
    simp only [step, Option.map_eq_some_iff, enterUser_eq_some] at h
    obtain ⟨p, ⟨hl, hp, hu⟩, rfl⟩ := h
    exact (trans_waitEnd (.call hl hp hu (Or.inl rfl))).1
  | waitx c w r =>
    simp only [step, Option.map_eq_some_iff, enterUser_eq_some] at h
    obtain ⟨p, ⟨hl, hp, hu⟩, rfl⟩ := h
    exact (trans_waitEnd (.call hl hp hu (Or.inr ⟨w, r, rfl⟩))).2 w r
  | fork c ok =>
    simp only [step, Option.bind_eq_some_iff] at h
    obtain ⟨p, hr, h⟩ := h
    have hp := (runs_eq_some.mp hr).2.2
    cases hc : s.code p with
    | user =>
      simp only [Kernel.fork, hc, Option.ite_none_right_eq_some] at h
      obtain ⟨hl, h⟩ := h
      rcases allocproc_cases s.mem with ⟨ha, _⟩ | ⟨np, t, ha, _⟩
      · simp only [ha, Option.some.injEq] at h
        subst h
        exact .forkFull hl hp hc ha
      · simp only [ha, Option.some.injEq] at h
        subst h
        exact .forkAlloc hl hp hc ha
    | fork pt np =>
      cases pt with
      | allocated =>
        cases ok <;> simp only [Kernel.fork, hc, Bool.false_eq_true, if_true, if_false,
          Option.some.injEq] at h <;> subst h
        · exact .forkFail hr hc (Or.inl rfl)
        · exact .forkStack hr hc
      | stacked =>
        cases ok <;> simp only [Kernel.fork, hc, Bool.false_eq_true, if_true, if_false,
          Option.some.injEq] at h <;> subst h
        · exact .forkFail hr hc (Or.inr rfl)
        · exact .forkCopy hr hc
      | copied =>
        simp only [Kernel.fork, hc, Option.some.injEq] at h
        subst h
        exact .forkParent hr hc
      | parented =>
        simp only [Kernel.fork, hc, Option.some.injEq] at h
        subst h
        exact .forkGid hr hc
      | gidCopied =>
        simp only [Kernel.fork, hc, Option.some.injEq] at h
        subst h
        exact .forkEnsure hr hc
      | ensured =>
        simp only [Kernel.fork, hc, Option.ite_none_right_eq_some, Option.some.injEq] at h
        obtain ⟨hl, rfl⟩ := h
        exact .forkRunnable hl hp hc
  | kill c pid =>
    simp only [step, Option.map_eq_some_iff, enterUser_eq_some] at h
    obtain ⟨p, ⟨hl, hp, hu⟩, rfl⟩ := h
    exact .kill hl hp hu
  | trap c =>
    simp only [step, Option.map_eq_some_iff, Option.filter_eq_some_iff, decide_eq_true_eq] at h
    obtain ⟨p, ⟨hr, hu⟩, rfl⟩ := h
    exact .trap hr hu
  | setgroup c pid gid =>
    simp only [step, Option.map_eq_some_iff, enterUser_eq_some] at h
    obtain ⟨p, ⟨hl, hp, hu⟩, rfl⟩ := h
    exact .setgroup hl hp hu
  | wakeup ch =>
    simp only [step, Option.ite_none_right_eq_some, Option.some.injEq] at h
    obtain ⟨hl, rfl⟩ := h
    exact .wakeup hl
  | tick =>
    simp only [step, Option.ite_none_right_eq_some, Option.some.injEq] at h
    obtain ⟨hl, rfl⟩ := h
    exact .tick hl

end Xv6
