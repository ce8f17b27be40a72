import Xv6.Proc.Calls
import Xv6.Transition.Run

/-!
Processes that share memory under a spin lock and sleep (`acquire` and `release` of
`spinlock.c`, `sleep` and `wakeup` of `proc.c`).

A `Component` is code that works on shared memory under one lock `lk`: a pipe, a sleep lock,
the disk queue.  A label says where in the code a process is and holds its local variables;
the code tells what is done there.  The calls of `sleep` and `wakeup` are cut at each
acquisition and each release of a lock, and a process can be at any of these places (`Pc`).
As in the source `lk` is either a lock of its own or `ptable.lock` itself, for which `sleep`
skips the exchange of the locks.

`ptable.lock` is held across `sched`: the process that goes to sleep leaves it to the
scheduler, which releases it (`ret`), and a process that is switched to again finds it held
(`dispatch`).  Where a timer takes the CPU from a process that holds no lock nothing changes
but the time of its next step, so this has no step of its own.

* `Sys`, `Act`, `step`: the state, the actions and the step function.
* `Trans`, `trans_of_step`: all that a step can do, one constructor for each transition.
-/

namespace Xv6.Sync

open Transition Function

/-! ### Code -/

/-- The spin locks a call of `sleep` is about. -/
inductive SpinLock where
  | ptable
  | own
  deriving DecidableEq, Repr

/-- What code does next: an operation on the lock `lk` of the component, a store to the memory
that it protects, or a call of `sleep(ch, lk)`, `wakeup(ch)` or `wakeup1(ch)`; `l` is the place
after it.  Code that does nothing waits for its caller. -/
inductive Instr (σ L : Type) where
  | acquire (l : L)
  | release (l : L)
  | store (m : σ) (l : L)
  | sleep (ch : Chan) (l : L)
  | wakeup (ch : Chan) (l : L)
  | wakeup1 (ch : Chan) (l : L)
  | stay

/-- The place after an operation that does not store. -/
def Instr.next {σ L : Type} : Instr σ L → Option L
  | .acquire l | .release l | .sleep _ l | .wakeup _ l | .wakeup1 _ l => some l
  | .store _ _ | .stay => none

/-- Code under a lock.  It reads the entry of its own process (`myproc()`), its local
variables and the shared memory; `calls l l'` says that a process at `l` may begin at `l'`. -/
structure Component (σ L : Type) where
  lk : SpinLock
  code : Proc → L → σ → Instr σ L
  calls : L → L → Bool

/-- Where a process is: in the code of the component, or inside a call of `sleep` or
`wakeup` that returns to `l`, before the operation that the name gives. -/
inductive Pc (L : Type) where
  | code (l : L)
  | sleepAcquire (ch : Chan) (l : L)
  | sleepRelease (ch : Chan) (l : L)
  | sleepStore (ch : Chan) (l : L)
  /-- In `sched`. -/
  | asleep (ch : Chan) (l : L)
  /-- `sched` has returned. -/
  | woken (l : L)
  | reacquire (l : L)
  | wakeAcquire (ch : Chan) (l : L)
  | wake (ch : Chan) (l : L)
  | wakeRelease (ch : Chan) (l : L)
  deriving DecidableEq

/-- The place in the code of the component to which a process returns. -/
def Pc.label {L : Type} : Pc L → L
  | .code l | .sleepAcquire _ l | .sleepRelease _ l | .sleepStore _ l | .asleep _ l | .woken l
  | .reacquire l | .wakeAcquire _ l | .wake _ l | .wakeRelease _ l => l

/-! ### The state -/

/-- Who holds a lock: a process, or the scheduler after a process has switched to it. -/
inductive Holder (P : Type) where
  | proc (p : P)
  | sched
  deriving DecidableEq, Repr

structure Sys (P σ L : Type) where
  mem : σ
  proc : P → Proc
  pc : P → Pc L
  lock : SpinLock → Option (Holder P) := fun _ => none

/-- `wakeup1`, on any table. -/
def wakeup1 {P : Type} (proc : P → Proc) (ch : Chan) : P → Proc :=
  fun p => (proc p).wake (some ch)

/-- What `kill` does to the entry it finds. -/
def kill (x : Proc) : Proc :=
  { x with killed := true, state := if x.state = .sleeping then .runnable else x.state }

variable {P σ L : Type}

namespace Sys

section Lock

variable (s : Sys P σ L) (a : SpinLock) (h : Option (Holder P))

def setLock : Sys P σ L := { s with lock := update s.lock a h }

@[simp] lemma setLock_mem : (s.setLock a h).mem = s.mem := rfl

@[simp] lemma setLock_pc : (s.setLock a h).pc = s.pc := rfl

@[simp] lemma setLock_proc : (s.setLock a h).proc = s.proc := rfl

@[simp] lemma setLock_lock_self : (s.setLock a h).lock a = h := update_self ..

lemma setLock_lock_of_ne {a b : SpinLock} (hb : b ≠ a) : (s.setLock a h).lock b = s.lock b :=
  update_of_ne hb ..

end Lock

variable [DecidableEq P] (s : Sys P σ L) (p q : P) (x : Proc) (c : Pc L)

def goto : Sys P σ L := { s with pc := update s.pc p c }

def setProc : Sys P σ L := { s with proc := update s.proc p x }

@[simp] lemma goto_mem : (s.goto p c).mem = s.mem := rfl

@[simp] lemma goto_proc : (s.goto p c).proc = s.proc := rfl

@[simp] lemma goto_lock : (s.goto p c).lock = s.lock := rfl

@[simp] lemma goto_pc_self : (s.goto p c).pc p = c := update_self ..

@[simp] lemma setProc_mem : (s.setProc p x).mem = s.mem := rfl

@[simp] lemma setProc_pc : (s.setProc p x).pc = s.pc := rfl

@[simp] lemma setProc_lock : (s.setProc p x).lock = s.lock := rfl

@[simp] lemma setProc_proc_self : (s.setProc p x).proc p = x := update_self ..

variable {p q}

lemma goto_pc_of_ne (hq : q ≠ p) : (s.goto p c).pc q = s.pc q := update_of_ne hq ..

lemma setProc_proc_of_ne (hq : q ≠ p) : (s.setProc p x).proc q = s.proc q :=
  update_of_ne hq ..

end Sys

variable [DecidableEq P]

/-! ### The steps -/

/-- The actions: a process begins a call, or goes on; the scheduler switches to a process, or
releases `ptable.lock` after a switch; a process is killed. -/
inductive Act (P L : Type) where
  | call (p : P) (l : L)
  | run (p : P)
  | dispatch (p : P)
  | ret
  | kill (p : P)
  deriving DecidableEq

/-- The next step of a process that is `RUNNING`. -/
def run (c : Component σ L) (s : Sys P σ L) (p : P) : Option (Sys P σ L) :=
  match s.pc p with
  | .code l =>
    match c.code (s.proc p) l s.mem with
    | .acquire l' =>
      if s.lock c.lk = none then
        some ((s.setLock c.lk (some (.proc p))).goto p (.code l'))
      else none
    | .release l' => some ((s.setLock c.lk none).goto p (.code l'))
    | .store m l' => some ({ s with mem := m }.goto p (.code l'))
    | .sleep ch l' =>
      -- `if(lk != &ptable.lock)`
      if c.lk = .ptable then some (s.goto p (.sleepStore ch l'))
      else some (s.goto p (.sleepAcquire ch l'))
    | .wakeup ch l' => some (s.goto p (.wakeAcquire ch l'))
    | .wakeup1 ch l' => some ({ s with proc := wakeup1 s.proc ch }.goto p (.code l'))
    | .stay => none
  | .sleepAcquire ch l =>
    if s.lock .ptable = none then
      some ((s.setLock .ptable (some (.proc p))).goto p (.sleepRelease ch l))
    else none
  | .sleepRelease ch l => some ((s.setLock c.lk none).goto p (.sleepStore ch l))
  | .sleepStore ch l =>
    some (((s.setProc p { s.proc p with chan := some ch, state := .sleeping }).setLock .ptable
      (some .sched)).goto p (.asleep ch l))
  | .asleep _ _ => none
  | .woken l =>
    let s' := s.setProc p { s.proc p with chan := none }
    -- `if(lk != &ptable.lock)`
    if c.lk = .ptable then some (s'.goto p (.code l))
    else some ((s'.setLock .ptable none).goto p (.reacquire l))
  | .reacquire l =>
    if s.lock c.lk = none then some ((s.setLock c.lk (some (.proc p))).goto p (.code l)) else none
  | .wakeAcquire ch l =>
    if s.lock .ptable = none then
      some ((s.setLock .ptable (some (.proc p))).goto p (.wake ch l))
    else none
  | .wake ch l => some ({ s with proc := wakeup1 s.proc ch }.goto p (.wakeRelease ch l))
  | .wakeRelease _ l => some ((s.setLock .ptable none).goto p (.code l))

/-- The scheduler switches to a process that is `RUNNABLE`. -/
def dispatch (s : Sys P σ L) (p : P) : Option (Sys P σ L) :=
  match s.pc p with
  | .asleep _ l =>
    if s.lock .ptable = none ∧ (s.proc p).state = .runnable then
      some (((s.setProc p { s.proc p with state := .running }).setLock .ptable
        (some (.proc p))).goto p (.woken l))
    else none
  | _ => none

/-- **The step function.** -/
def step (c : Component σ L) (s : Sys P σ L) : Act P L → Option (Sys P σ L)
  | .call p l' =>
    match s.pc p with
    | .code l => if c.calls l l' then some (s.goto p (.code l')) else none
    | _ => none
  | .run p => if (s.proc p).state = .running then run c s p else none
  | .dispatch p => dispatch s p
  | .ret => if s.lock .ptable = some .sched then some (s.setLock .ptable none) else none
  | .kill p =>
    if s.lock .ptable = none then some (s.setProc p (kill (s.proc p))) else none

/-! ### All that a step can do -/

/-- The transitions, one constructor for each thing a step can do. -/
inductive Trans (c : Component σ L) (s : Sys P σ L) : Act P L → Sys P σ L → Prop where
  | call {p l l'} : s.pc p = .code l → c.calls l l' = true →
      Trans c s (.call p l') (s.goto p (.code l'))
  | acquire {p l l'} : s.pc p = .code l → c.code (s.proc p) l s.mem = .acquire l' →
      s.lock c.lk = none →
      Trans c s (.run p) ((s.setLock c.lk (some (.proc p))).goto p (.code l'))
  | release {p l l'} : s.pc p = .code l → c.code (s.proc p) l s.mem = .release l' →
      Trans c s (.run p) ((s.setLock c.lk none).goto p (.code l'))
  | store {p l m l'} : s.pc p = .code l → c.code (s.proc p) l s.mem = .store m l' →
      Trans c s (.run p) ({ s with mem := m }.goto p (.code l'))
  | sleep {p l ch l'} : s.pc p = .code l → c.code (s.proc p) l s.mem = .sleep ch l' →
      c.lk ≠ .ptable → Trans c s (.run p) (s.goto p (.sleepAcquire ch l'))
  | sleepPtable {p l ch l'} : s.pc p = .code l → c.code (s.proc p) l s.mem = .sleep ch l' →
      c.lk = .ptable → Trans c s (.run p) (s.goto p (.sleepStore ch l'))
  | wakeup {p l ch l'} : s.pc p = .code l → c.code (s.proc p) l s.mem = .wakeup ch l' →
      Trans c s (.run p) (s.goto p (.wakeAcquire ch l'))
  | wakeup1 {p l ch l'} : s.pc p = .code l → c.code (s.proc p) l s.mem = .wakeup1 ch l' →
      Trans c s (.run p) ({ s with proc := wakeup1 s.proc ch }.goto p (.code l'))
  | sleepAcquire {p ch l} : s.pc p = .sleepAcquire ch l → s.lock .ptable = none →
      Trans c s (.run p) ((s.setLock .ptable (some (.proc p))).goto p (.sleepRelease ch l))
  | sleepRelease {p ch l} : s.pc p = .sleepRelease ch l →
      Trans c s (.run p) ((s.setLock c.lk none).goto p (.sleepStore ch l))
  | sleepStore {p ch l} : s.pc p = .sleepStore ch l →
      Trans c s (.run p)
        (((s.setProc p { s.proc p with chan := some ch, state := .sleeping }).setLock .ptable
          (some .sched)).goto p (.asleep ch l))
  | woken {p l} : s.pc p = .woken l → c.lk ≠ .ptable →
      Trans c s (.run p)
        (((s.setProc p { s.proc p with chan := none }).setLock .ptable none).goto p (.reacquire l))
  | wokenPtable {p l} : s.pc p = .woken l → c.lk = .ptable →
      Trans c s (.run p) ((s.setProc p { s.proc p with chan := none }).goto p (.code l))
  | reacquire {p l} : s.pc p = .reacquire l → s.lock c.lk = none →
      Trans c s (.run p) ((s.setLock c.lk (some (.proc p))).goto p (.code l))
  | wakeAcquire {p ch l} : s.pc p = .wakeAcquire ch l → s.lock .ptable = none →
      Trans c s (.run p) ((s.setLock .ptable (some (.proc p))).goto p (.wake ch l))
  | wake {p ch l} : s.pc p = .wake ch l →
      Trans c s (.run p) ({ s with proc := Sync.wakeup1 s.proc ch }.goto p (.wakeRelease ch l))
  | wakeRelease {p ch l} : s.pc p = .wakeRelease ch l →
      Trans c s (.run p) ((s.setLock .ptable none).goto p (.code l))
  | dispatch {p ch l} : s.pc p = .asleep ch l → s.lock .ptable = none →
      (s.proc p).state = .runnable →
      Trans c s (.dispatch p)
        (((s.setProc p { s.proc p with state := .running }).setLock .ptable
          (some (.proc p))).goto p (.woken l))
  | ret : s.lock .ptable = some .sched → Trans c s .ret (s.setLock .ptable none)
  | kill {p} : s.lock .ptable = none → Trans c s (.kill p) (s.setProc p (kill (s.proc p)))

variable {c : Component σ L} {s s' : Sys P σ L} {a : Act P L}

lemma trans_of_run {p : P} (h : run c s p = some s') : Trans c s (.run p) s' := by
  unfold run at h
  cases hpc : s.pc p with
  | code l =>
    simp only [hpc] at h
    cases hi : c.code (s.proc p) l s.mem with
    | acquire l' =>
      simp only [hi, Option.ite_none_right_eq_some, Option.some.injEq] at h
      obtain ⟨hl, rfl⟩ := h
      exact .acquire hpc hi hl
    | release l' =>
      simp only [hi, Option.some.injEq] at h
      exact h ▸ .release hpc hi
    | store m l' =>
      simp only [hi, Option.some.injEq] at h
      exact h ▸ .store hpc hi
    | sleep ch l' =>
      simp only [hi] at h
      by_cases hlk : c.lk = .ptable
      · rw [if_pos hlk, Option.some.injEq] at h
        exact h ▸ .sleepPtable hpc hi hlk
      · rw [if_neg hlk, Option.some.injEq] at h
        exact h ▸ .sleep hpc hi hlk
    | wakeup ch l' =>
      simp only [hi, Option.some.injEq] at h
      exact h ▸ .wakeup hpc hi
    | wakeup1 ch l' =>
      simp only [hi, Option.some.injEq] at h
      exact h ▸ .wakeup1 hpc hi
    | stay => simp only [hi, reduceCtorEq] at h
  | sleepAcquire ch l =>
    simp only [hpc, Option.ite_none_right_eq_some, Option.some.injEq] at h
    obtain ⟨hl, rfl⟩ := h
    exact .sleepAcquire hpc hl
  | sleepRelease ch l =>
    simp only [hpc, Option.some.injEq] at h
    exact h ▸ .sleepRelease hpc
  | sleepStore ch l =>
    simp only [hpc, Option.some.injEq] at h
    exact h ▸ .sleepStore hpc
  | asleep ch l => simp only [hpc, reduceCtorEq] at h
  | woken l =>
    simp only [hpc] at h
    by_cases hlk : c.lk = .ptable
    · rw [if_pos hlk, Option.some.injEq] at h
      exact h ▸ .wokenPtable hpc hlk
    · rw [if_neg hlk, Option.some.injEq] at h
      exact h ▸ .woken hpc hlk
  | reacquire l =>
    simp only [hpc, Option.ite_none_right_eq_some, Option.some.injEq] at h
    obtain ⟨hl, rfl⟩ := h
    exact .reacquire hpc hl
  | wakeAcquire ch l =>
    simp only [hpc, Option.ite_none_right_eq_some, Option.some.injEq] at h
    obtain ⟨hl, rfl⟩ := h
    exact .wakeAcquire hpc hl
  | wake ch l =>
    simp only [hpc, Option.some.injEq] at h
    exact h ▸ .wake hpc
  | wakeRelease ch l =>
    simp only [hpc, Option.some.injEq] at h
    exact h ▸ .wakeRelease hpc

/-- Every step is one of the transitions. -/
theorem trans_of_step (h : step c s a = some s') : Trans c s a s' := by
  cases a with
  | call p l' =>
    cases hpc : s.pc p with
    | code l =>
      simp only [step, hpc, Option.ite_none_right_eq_some, Option.some.injEq] at h
      obtain ⟨hl, rfl⟩ := h
      exact .call hpc hl
    | _ => simp only [step, hpc, reduceCtorEq] at h
  | run p =>
    simp only [step, Option.ite_none_right_eq_some] at h
    exact trans_of_run h.2
  | dispatch p =>
    cases hpc : s.pc p with
    | asleep ch l =>
      simp only [step, Sync.dispatch, hpc, Option.ite_none_right_eq_some, Option.some.injEq] at h
      obtain ⟨⟨hl, hs⟩, rfl⟩ := h
      exact .dispatch hpc hl hs
    | _ => simp only [step, Sync.dispatch, hpc, reduceCtorEq] at h
  | ret =>
    simp only [step, Option.ite_none_right_eq_some, Option.some.injEq] at h
    obtain ⟨hl, rfl⟩ := h
    exact .ret hl
  | kill p =>
    simp only [step, Option.ite_none_right_eq_some, Option.some.injEq] at h
    obtain ⟨hl, rfl⟩ := h
    exact .kill hl

/-- A process keeps its pid. -/
lemma Trans.pid (ht : Trans c s a s') (p : P) : (s'.proc p).pid = (s.proc p).pid := by
  have hset : ∀ (q : P) (x : Proc), x.pid = (s.proc q).pid →
      (update s.proc q x p).pid = (s.proc p).pid := by
    intro q x hx
    rcases eq_or_ne p q with rfl | hp
    · rw [update_self, hx]
    · rw [update_of_ne hp]
  cases ht with
  | sleepStore | woken | wokenPtable | dispatch | kill => exact hset _ _ rfl
  | _ => rfl

/-! ### How a process goes on -/

/-- The ways of a process that do not change the memory. -/
inductive Flow (c : Component σ L) (x : Proc) (m : σ) : Pc L → Pc L → Prop where
  | call {l l'} : c.calls l l' = true → Flow c x m (.code l) (.code l')
  | acquire {l l'} : c.code x l m = .acquire l' → Flow c x m (.code l) (.code l')
  | release {l l'} : c.code x l m = .release l' → Flow c x m (.code l) (.code l')
  | sleep {l ch l'} : c.code x l m = .sleep ch l' → Flow c x m (.code l) (.sleepAcquire ch l')
  | sleepPtable {l ch l'} : c.code x l m = .sleep ch l' → c.lk = .ptable →
      Flow c x m (.code l) (.sleepStore ch l')
  | wakeup {l ch l'} : c.code x l m = .wakeup ch l' → Flow c x m (.code l) (.wakeAcquire ch l')
  | wakeup1 {l ch l'} : c.code x l m = .wakeup1 ch l' → Flow c x m (.code l) (.code l')
  | sleepAcquire {ch l} : Flow c x m (.sleepAcquire ch l) (.sleepRelease ch l)
  | sleepRelease {ch l} : Flow c x m (.sleepRelease ch l) (.sleepStore ch l)
  | sleepStore {ch l} : Flow c x m (.sleepStore ch l) (.asleep ch l)
  | dispatch {ch l} : Flow c x m (.asleep ch l) (.woken l)
  | woken {l} : Flow c x m (.woken l) (.reacquire l)
  | wokenPtable {l} : Flow c x m (.woken l) (.code l)
  | reacquire {l} : Flow c x m (.reacquire l) (.code l)
  | wakeAcquire {ch l} : Flow c x m (.wakeAcquire ch l) (.wake ch l)
  | wake {ch l} : Flow c x m (.wake ch l) (.wakeRelease ch l)
  | wakeRelease {ch l} : Flow c x m (.wakeRelease ch l) (.code l)

omit [DecidableEq P] in
/-- A process keeps its place in the code of the component, or makes a step there. -/
lemma Flow.label {x : Proc} {m : σ} {c₀ c' : Pc L} (h : Flow c x m c₀ c') :
    c'.label = c₀.label ∨
      ∃ l, c₀ = .code l ∧ (c.calls l c'.label = true ∨ (c.code x l m).next = some c'.label) := by
  cases h with
  | call hl => exact .inr ⟨_, rfl, .inl hl⟩
  | acquire hi | release hi | sleep hi | sleepPtable hi | wakeup hi | wakeup1 hi =>
    exact .inr ⟨_, rfl, .inr (hi ▸ rfl)⟩
  | _ => exact .inl rfl

lemma flow_update {p : P} {c₀ c' : Pc L} (hpc : s.pc p = c₀)
    (h : Flow c (s.proc p) s.mem c₀ c') (q : P) :
    update s.pc p c' q = s.pc q
      ∨ Flow c (s.proc q) s.mem (s.pc q) (update s.pc p c' q) := by
  rcases eq_or_ne q p with rfl | hq
  · rw [update_self, hpc]
    exact .inr h
  · exact .inl (update_of_ne hq ..)

/-- A step stores to the memory, or leaves it as it is while each process stays or goes one of
its ways. -/
lemma Trans.store_or_flow (ht : Trans c s a s') :
    (∃ p l m l', a = .run p ∧ s.pc p = .code l ∧ c.code (s.proc p) l s.mem = .store m l' ∧
      s' = { s with mem := m }.goto p (.code l')) ∨
    s'.mem = s.mem ∧ ∀ p, s'.pc p = s.pc p ∨ Flow c (s.proc p) s.mem (s.pc p) (s'.pc p) := by
  cases ht with
  | store hpc hi => exact .inl ⟨_, _, _, _, rfl, hpc, hi, rfl⟩
  | call hpc hl => exact .inr ⟨rfl, flow_update hpc (.call hl)⟩
  | acquire hpc hi => exact .inr ⟨rfl, flow_update hpc (.acquire hi)⟩
  | release hpc hi => exact .inr ⟨rfl, flow_update hpc (.release hi)⟩
  | sleep hpc hi => exact .inr ⟨rfl, flow_update hpc (.sleep hi)⟩
  | sleepPtable hpc hi hlk => exact .inr ⟨rfl, flow_update hpc (.sleepPtable hi hlk)⟩
  | wakeup hpc hi => exact .inr ⟨rfl, flow_update hpc (.wakeup hi)⟩
  | wakeup1 hpc hi => exact .inr ⟨rfl, flow_update hpc (.wakeup1 hi)⟩
  | sleepAcquire hpc => exact .inr ⟨rfl, flow_update hpc .sleepAcquire⟩
  | sleepRelease hpc => exact .inr ⟨rfl, flow_update hpc .sleepRelease⟩
  | sleepStore hpc => exact .inr ⟨rfl, flow_update hpc .sleepStore⟩
  | woken hpc => exact .inr ⟨rfl, flow_update hpc .woken⟩
  | wokenPtable hpc => exact .inr ⟨rfl, flow_update hpc .wokenPtable⟩
  | reacquire hpc => exact .inr ⟨rfl, flow_update hpc .reacquire⟩
  | wakeAcquire hpc => exact .inr ⟨rfl, flow_update hpc .wakeAcquire⟩
  | wake hpc => exact .inr ⟨rfl, flow_update hpc .wake⟩
  | wakeRelease hpc => exact .inr ⟨rfl, flow_update hpc .wakeRelease⟩
  | dispatch hpc => exact .inr ⟨rfl, flow_update hpc .dispatch⟩
  | ret | kill => exact .inr ⟨rfl, fun _ => .inl rfl⟩

/-- The place of a process in the code of the component. -/
def Sys.label (s : Sys P σ L) (p : P) : L := (s.pc p).label

lemma Sys.label_goto (s : Sys P σ L) (p : P) (c' : Pc L) :
    (s.goto p c').label = update s.label p c'.label := by
  funext q
  rcases eq_or_ne q p with rfl | hq
  · rw [Sys.label, Sys.goto_pc_self, update_self]
  · rw [Sys.label, Sys.goto_pc_of_ne _ _ hq, update_of_ne hq, Sys.label]

/-- What a step does to the memory and to the places: a store, a call, another operation of the
code, or nothing. -/
lemma Trans.label_cases (ht : Trans c s a s') :
    (∃ p l m l', a = .run p ∧ s.pc p = .code l ∧ c.code (s.proc p) l s.mem = .store m l' ∧
      s'.mem = m ∧ s'.label = update s.label p l') ∨
    (∃ p l l', a = .call p l' ∧ s.pc p = .code l ∧ c.calls l l' = true ∧
      s'.mem = s.mem ∧ s'.label = update s.label p l') ∨
    (∃ p l l', a = .run p ∧ s.pc p = .code l ∧ (c.code (s.proc p) l s.mem).next = some l' ∧
      s'.mem = s.mem ∧ s'.label = update s.label p l') ∨
    (∀ p l, a = .run p → s.pc p ≠ .code l) ∧ (∀ p l, a ≠ .call p l) ∧
      s'.mem = s.mem ∧ s'.label = s.label := by
  have hstay : ∀ {p c'} {s₁ : Sys P σ L}, s₁.pc = s.pc → c'.label = (s.pc p).label →
      (s₁.goto p c').label = s.label := by
    intro p c' s₁ hs₁ hc'
    have hlabel : s₁.label = s.label := by
      funext q
      rw [Sys.label, hs₁, Sys.label]
    rw [Sys.label_goto, hc', hlabel]
    exact update_eq_self ..
  cases ht with
  | store hpc hi => exact .inl ⟨_, _, _, _, rfl, hpc, hi, rfl, Sys.label_goto ..⟩
  | call hpc hl => exact .inr (.inl ⟨_, _, _, rfl, hpc, hl, rfl, Sys.label_goto ..⟩)
  | acquire hpc hi | release hpc hi | sleep hpc hi | sleepPtable hpc hi | wakeup hpc hi
  | wakeup1 hpc hi =>
    exact .inr (.inr (.inl ⟨_, _, _, rfl, hpc, hi ▸ rfl, rfl, Sys.label_goto ..⟩))
  | sleepAcquire hpc | sleepRelease hpc | sleepStore hpc | woken hpc | wokenPtable hpc
  | reacquire hpc | wakeAcquire hpc | wake hpc | wakeRelease hpc =>
    refine .inr (.inr (.inr ⟨?_, nofun, rfl, hstay rfl (hpc ▸ rfl)⟩))
    intro p l ha
    cases ha
    rw [hpc]
    nofun
  | dispatch hpc => exact .inr (.inr (.inr ⟨nofun, nofun, rfl, hstay rfl (hpc ▸ rfl)⟩))
  | ret | kill => exact .inr (.inr (.inr ⟨nofun, nofun, rfl, rfl⟩))

/-- A process that does not act stays where it is. -/
lemma Trans.pc_of_ne {p : P} (ht : Trans c s a s') (hcall : ∀ l, a ≠ .call p l) (hrun : a ≠ .run p)
    (hdispatch : a ≠ .dispatch p) : s'.pc p = s.pc p := by
  cases ht with
  | @call q =>
    have hq : p ≠ q := by
      rintro rfl
      exact hcall _ rfl
    exact update_of_ne hq ..
  | @dispatch q =>
    have hq : p ≠ q := by
      rintro rfl
      exact hdispatch rfl
    exact update_of_ne hq ..
  | ret | kill => rfl
  | _ =>
    refine update_of_ne ?_ ..
    rintro rfl
    exact hrun rfl

/-- What a process does next is determined. -/
lemma Trans.run_eq {p : P} (ht : Trans c s (.run p) s') : run c s p = some s' := by
  cases ht with
  | acquire hpc hi hl => simp only [run, hpc, hi, if_pos hl]
  | release hpc hi | store hpc hi | wakeup hpc hi | wakeup1 hpc hi => simp only [run, hpc, hi]
  | sleep hpc hi hlk => simp only [run, hpc, hi, if_neg hlk]
  | sleepPtable hpc hi hlk => simp only [run, hpc, hi, if_pos hlk]
  | sleepAcquire hpc hl | reacquire hpc hl | wakeAcquire hpc hl => simp only [run, hpc, if_pos hl]
  | sleepRelease hpc | sleepStore hpc | wake hpc | wakeRelease hpc => simp only [run, hpc]
  | woken hpc hlk => simp only [run, hpc, if_neg hlk]
  | wokenPtable hpc hlk => simp only [run, hpc, if_pos hlk]

/-- A process at a store makes it. -/
lemma Trans.eq_of_store {p : P} {l l' : L} {m : σ} (ht : Trans c s (.run p) s')
    (hpc : s.pc p = .code l) (hi : c.code (s.proc p) l s.mem = .store m l') :
    s' = { s with mem := m }.goto p (.code l') := by
  have hrun := ht.run_eq
  simp only [run, hpc, hi, Option.some.injEq] at hrun
  exact hrun.symm

/-- What a step shows to somebody who watches the stores: what `f` makes of the places of the
process before and after a store. -/
def watch (c : Component σ L) {β : Type} (f : L → L → List β) : Sys P σ L × Act P L → List β
  | (s, .run p) =>
    match s.pc p with
    | .code l =>
      match c.code (s.proc p) l s.mem with
      | .store _ l' => f l l'
      | _ => []
    | _ => []
  | _ => []

/-- A step that stores nothing shows nothing. -/
lemma Trans.watch_cases (β : Type) (ht : Trans c s a s') :
    (∃ p l m l', a = .run p ∧ s.pc p = .code l ∧ c.code (s.proc p) l s.mem = .store m l' ∧
      s' = { s with mem := m }.goto p (.code l') ∧
      ∀ f : L → L → List β, watch c f (s, a) = f l l') ∨
    s'.mem = s.mem ∧ (∀ f : L → L → List β, watch c f (s, a) = []) ∧
      ∀ p, s'.pc p = s.pc p ∨ Flow c (s.proc p) s.mem (s.pc p) (s'.pc p) := by
  by_cases h : ∃ p l m l', a = .run p ∧ s.pc p = .code l ∧
      c.code (s.proc p) l s.mem = .store m l'
  · obtain ⟨p, l, m, l', rfl, hpc, hi⟩ := h
    refine .inl ⟨p, l, m, l', rfl, hpc, hi, ht.eq_of_store hpc hi, fun f => ?_⟩
    simp only [watch, hpc, hi]
  · obtain ⟨hmem, hflow⟩ := ht.store_or_flow.resolve_left
      fun ⟨p, l, m, l', ha, hpc, hi, _⟩ => h ⟨p, l, m, l', ha, hpc, hi⟩
    refine .inr ⟨hmem, fun f => ?_, hflow⟩
    cases a with
    | run p =>
      cases hpc : s.pc p with
      | code l =>
        cases hi : c.code (s.proc p) l s.mem with
        | store m' l' => exact absurd ⟨p, l, m', l', rfl, hpc, hi⟩ h
        | _ => simp only [watch, hpc, hi]
      | _ => simp only [watch, hpc]
    | _ => rfl

/-- Where a process in the code of the component goes, and what its step shows. -/
lemma Trans.run_cases {β : Type} (f : L → L → List β) {p : P} {l : L} (ht : Trans c s (.run p) s')
    (hpc : s.pc p = .code l) :
    match c.code (s.proc p) l s.mem with
    | .store _ l' => s'.pc p = .code l' ∧ watch c f (s, .run p) = f l l'
    | .release l' => s'.pc p = .code l' ∧ watch c f (s, .run p) = []
    | i => i.next = some (s'.label p) ∧ watch c f (s, .run p) = [] := by
  have hrun := ht.run_eq
  simp only [run, hpc] at hrun
  simp only [watch, hpc]
  cases hi : c.code (s.proc p) l s.mem with
  | acquire l' | sleep ch l' =>
    simp only [hi] at hrun
    split at hrun <;> cases hrun <;> exact ⟨by rw [Sys.label_goto, update_self]; rfl, rfl⟩
  | stay => simp only [hi, reduceCtorEq] at hrun
  | release l' | store m l' =>
    simp only [hi, Option.some.injEq] at hrun
    exact hrun ▸ ⟨update_self .., rfl⟩
  | wakeup ch l' | wakeup1 ch l' =>
    simp only [hi, Option.some.injEq] at hrun
    subst hrun
    exact ⟨by rw [Sys.label_goto, update_self]; rfl, rfl⟩

end Xv6.Sync
