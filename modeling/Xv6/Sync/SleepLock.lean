import Xv6.Sync.Monitor

/-!
Sleep locks (`sleeplock.c`).

A process calls `acquiresleep` and, when that has returned, `releasesleep`: nobody but the
holder of the lock releases it.  The spin lock `lk->lk` protects the two fields; a process
sleeps on the address of the sleep lock.

* `sleeplock`: the code of both functions.
* `Exclusive`: the process that is inside is the only one, and its pid is in the lock.
* `sleep_lock`: the lock excludes, and nobody sleeps on a lock that is free.
-/

namespace Xv6.Sync

open Transition

/-- `struct sleeplock`, without the spin lock and the name. -/
structure SleepLock where
  locked : Bool := false
  pid : ℤ := 0

namespace SleepLock

/-- Where a process is: outside, at a statement of `acquiresleep`, inside, or at a statement of
`releasesleep`. -/
inductive Label where
  | out
  | acquire
  | whileLocked
  | setPid
  | acquired
  | inside
  | release
  | clearLocked
  | clearPid
  | wake
  | released
  deriving DecidableEq, Repr

def code (chan : Chan) (x : Proc) : Label → SleepLock → Instr SleepLock Label
  | .out, _ => .stay
  | .acquire, _ => .acquire .whileLocked
  | .whileLocked, lk =>
    if lk.locked then .sleep chan .whileLocked else .store { lk with locked := true } .setPid
  | .setPid, lk => .store { lk with pid := x.pid } .acquired
  | .acquired, _ => .release .inside
  | .inside, _ => .stay
  | .release, _ => .acquire .clearLocked
  | .clearLocked, lk => .store { lk with locked := false } .clearPid
  | .clearPid, lk => .store { lk with pid := 0 } .wake
  | .wake, _ => .wakeup chan .released
  | .released, _ => .release .out

def calls : Label → Label → Bool
  | .out, .acquire => true
  | .inside, .release => true
  | _, _ => false

/-- The places under `lk->lk`. -/
def Held : Label → Prop
  | .whileLocked | .setPid | .acquired | .clearLocked | .clearPid | .wake | .released => True
  | _ => False

/-- The places between the stores to `lk->locked`. -/
def Owner : Label → Prop
  | .setPid | .acquired | .inside | .release | .clearLocked => True
  | _ => False

/-- The places between `acquiresleep` and `releasesleep`, with the ends of the two at which both
fields are set. -/
def Inside : Label → Prop
  | .acquired | .inside | .release | .clearLocked => True
  | _ => False

/-- The places at which the lock has been given up and the others have not been woken. -/
def GivenUp : Label → Prop
  | .clearPid | .wake => True
  | _ => False

end SleepLock

open SleepLock

variable {P : Type} [DecidableEq P] {chan : Chan} {s s' : Sys P SleepLock Label} {a : Act P Label}

/-- The processes that use a sleep lock. -/
def sleeplock (chan : Chan) : Component SleepLock Label where
  lk := .own
  code := SleepLock.code chan
  calls := SleepLock.calls

lemma sleeplock_disciplined (chan : Chan) : Disciplined (sleeplock chan) Held where
  call {l l'} h := by
    cases l <;> cases l' <;> first | exact ⟨id, id⟩ | cases h
  code x l lk := by
    cases l with
    | out | inside => trivial
    | acquire | release => exact ⟨id, trivial⟩
    | whileLocked =>
      cases hlocked : lk.locked <;>
        simp [sleeplock, SleepLock.code, hlocked, Follows, Held]
    | setPid | clearLocked | clearPid => exact ⟨trivial, trivial⟩
    | acquired | released => exact ⟨trivial, id⟩
    | wake => exact ⟨Iff.rfl, nofun⟩

variable {lk : SleepLock}

/-- Without a store nobody becomes the owner. -/
lemma label_of_flow {x : Proc} {c₀ c' : Pc Label} (h : Flow (sleeplock chan) x lk c₀ c') :
    (Owner c'.label → Owner c₀.label) ∧ (Inside c'.label → Inside c₀.label) := by
  rcases h.label with heq | ⟨l, rfl, hcall | hnext⟩
  · rw [heq]
    exact ⟨id, id⟩
  · generalize c'.label = l' at hcall
    cases l <;> cases l' <;> first | exact ⟨id, id⟩ | cases hcall
  · generalize c'.label = l' at hnext
    cases l with
    | whileLocked =>
      cases hlocked : lk.locked <;>
        simp only [sleeplock, SleepLock.code, hlocked, if_true, Instr.next,
          Option.some.injEq] at hnext
      · cases hnext
      · subst hnext
        exact ⟨id, id⟩
    | _ => cases hnext <;> exact ⟨id, id⟩

/-- Nobody but the owner is between the stores to `lk->locked`, and the lock names it. -/
structure Exclusive (s : Sys P SleepLock Label) : Prop where
  locked : ∀ p, Owner (s.pc p).label → s.mem.locked = true
  unique : ∀ p q, Owner (s.pc p).label → Owner (s.pc q).label → p = q
  pid : ∀ p, Inside (s.pc p).label → s.mem.pid = (s.proc p).pid

lemma owner_of_inside {l : Label} (h : Inside l) : Owner l := by
  cases l <;> first | exact trivial | exact h.elim

/-- The lock is free when its pid is cleared. -/
def Cleared : Label → SleepLock → Prop
  | .clearPid, lk => lk.locked = false
  | _, _ => True

lemma knows_cleared : Knows (sleeplock chan) Held Cleared := by
  intro x l lk
  cases l with
  | whileLocked =>
    cases hlocked : lk.locked <;> simp [sleeplock, SleepLock.code, hlocked, Learns, Cleared]
  | clearLocked => exact fun _ => rfl
  | _ => simp [sleeplock, SleepLock.code, Learns, Cleared]

/-- While the lock is free, or `p` is its owner, nobody else is. -/
def Alone (s : Sys P SleepLock Label) (p : P) : Prop := ∀ q ≠ p, ¬Owner (s.pc q).label

variable {p : P} {l' : Label}

lemma Alone.label {q : P} (h : Alone s p)
    (hq : Owner (({ s with mem := lk }.goto p (.code l')).pc q).label) : q = p := by
  by_contra hne
  rw [Sys.goto_pc_of_ne _ _ hne] at hq
  exact h q hne hq

/-- A store of a process that is alone. -/
lemma Exclusive.of_alone (h : Alone s p)
    (hlocked : Owner l' → lk.locked = true) (hpid : Inside l' → lk.pid = (s.proc p).pid) :
    Exclusive ({ s with mem := lk }.goto p (.code l')) where
  locked q hq := by
    obtain rfl := h.label hq
    rw [Sys.goto_pc_self] at hq
    exact hlocked hq
  unique q q' hq hq' := (h.label hq).trans (h.label hq').symm
  pid q hq := by
    obtain rfl := h.label (owner_of_inside hq)
    rw [Sys.goto_pc_self] at hq
    exact hpid hq

lemma Exclusive.store (h : Exclusive s) (hk : Owned (sleeplock chan) Held Cleared s)
    {l : Label} (hpc : s.pc p = .code l)
    (hi : (sleeplock chan).code (s.proc p) l s.mem = .store lk l') :
    Exclusive ({ s with mem := lk }.goto p (.code l')) := by
  have hfree : s.mem.locked = false → Alone s p := by
    intro hf q _ hq
    rw [h.locked q hq] at hf
    cases hf
  have howner : Owner l → Alone s p := by
    intro ho q hne hq
    refine hne (h.unique q p hq ?_)
    rwa [hpc]
  cases l with
  | whileLocked =>
    cases hlocked : s.mem.locked <;>
      simp only [sleeplock, SleepLock.code, hlocked, if_true, reduceCtorEq] at hi
    cases hi
    exact .of_alone (hfree hlocked) (fun _ => rfl) nofun
  | setPid =>
    cases hi
    exact .of_alone (howner trivial) (fun _ => h.locked p (hpc ▸ trivial)) fun _ => rfl
  | clearLocked =>
    cases hi
    exact .of_alone (howner trivial) nofun nofun
  | clearPid =>
    cases hi
    have hcleared := hk p (hpc ▸ ⟨rfl, trivial⟩) (hpc ▸ trivial)
    rw [hpc] at hcleared
    exact .of_alone (hfree hcleared) nofun nofun
  | _ => cases hi

theorem Exclusive.step (h : Exclusive s) (hk : Owned (sleeplock chan) Held Cleared s)
    (ht : Trans (sleeplock chan) s a s') : Exclusive s' := by
  rcases ht.store_or_flow with ⟨p, l, lk, l', -, hpc, hi, rfl⟩ | ⟨hmem, hflow⟩
  · exact h.store hk hpc hi
  · have hlabel : ∀ p, (Owner (s'.pc p).label → Owner (s.pc p).label) ∧
        (Inside (s'.pc p).label → Inside (s.pc p).label) := by
      intro p
      rcases hflow p with heq | hf
      · rw [heq]
        exact ⟨id, id⟩
      · exact label_of_flow hf
    refine ⟨fun p hp => ?_, fun p q hp hq => ?_, fun p hp => ?_⟩
    · rw [hmem]
      exact h.locked p ((hlabel p).1 hp)
    · exact h.unique p q ((hlabel p).1 hp) ((hlabel q).1 hq)
    · rw [hmem, ht.pid]
      exact h.pid p ((hlabel p).2 hp)

/-- A process that ends the reason to wait, which is that the lock is taken, wakes the others. -/
lemma sleeplock_signals (chan : Chan) :
    Signals (sleeplock chan) chan (·.locked = true) GivenUp where
  call {l l'} h := by
    cases l <;> first | exact False.elim | cases h
  code x l lk := by
    cases l with
    | whileLocked =>
      cases hlocked : lk.locked <;>
        simp [sleeplock, SleepLock.code, hlocked, Pays, GivenUp]
    | _ => simp [sleeplock, SleepLock.code, Pays, GivenUp]

/-- What every run keeps. -/
lemma sleeplock_of_run {proc : P → Proc} {tr : List (Sys P SleepLock Label × Act P Label)}
    (h : Run (step (sleeplock chan)) (boot {} .out proc) tr s) :
    Locked (sleeplock chan) Held s ∧ Owned (sleeplock chan) Held Cleared s ∧ Exclusive s ∧
      Settled chan (·.locked = true) GivenUp s := by
  have hd := sleeplock_disciplined chan
  refine h.invariant (I := fun s => Locked (sleeplock chan) Held s ∧
    Owned (sleeplock chan) Held Cleared s ∧ Exclusive s ∧
    Settled chan (·.locked = true) GivenUp s) ?_ ?_
  · refine ⟨locked_boot id proc, fun _ _ => False.elim, ⟨fun _ => False.elim, fun _ _ => False.elim,
      fun _ => False.elim⟩, settled_boot _ _ _ _ _ proc⟩
  · rintro s a s' ⟨hl, hk, hx, hs⟩ hstep
    have ht := trans_of_step hstep
    refine ⟨hl.step hd ht, hk.step hd hl knows_cleared ht, hx.step hk ht,
      hs.step hd hl (sleeplock_signals chan) (fun p l l' _ hi => ?_) ht fun p l l' _ _ hi ho => ?_⟩
    · cases l with
      | whileLocked =>
        by_contra hlocked
        simp only [sleeplock, SleepLock.code, hlocked, if_false, reduceCtorEq] at hi
      | _ => cases hi
    · -- Neither function releases `lk->lk` while it owes a wakeup.
      cases l <;> first | exact ho.elim | cases hi

/-- **Sleep locks.**  At most one process is inside, its pid is in the lock, and when `lk->lk` is
free nobody is `SLEEPING` on a lock that is not taken. -/
theorem sleep_lock {proc : P → Proc} {tr : List (Sys P SleepLock Label × Act P Label)}
    (h : Run (step (sleeplock chan)) (boot {} .out proc) tr s) :
    (∀ p q, Inside (s.pc p).label → Inside (s.pc q).label → p = q) ∧
    (∀ p, Inside (s.pc p).label → s.mem.locked = true ∧ s.mem.pid = (s.proc p).pid) ∧
    (s.lock .own = none → ∀ p, s.Sleeps chan p → s.mem.locked = true) := by
  obtain ⟨hl, -, hx, hs⟩ := sleeplock_of_run h
  refine ⟨fun p q hp hq => ?_, fun p hp => ?_, fun hfree p hp => ?_⟩
  · exact hx.unique p q (owner_of_inside hp) (owner_of_inside hq)
  · exact ⟨hx.locked p (owner_of_inside hp), hx.pid p hp⟩
  · refine hs.reason_of_free hl (fun l ho => ?_) (fun l hg => ?_) hfree hp
    · cases l <;> first | exact trivial | exact ho.elim
    · obtain ⟨x, l₀, lk, hi⟩ := hg
      cases l₀ with
      | wake =>
        cases hi
        exact trivial
      | whileLocked =>
        cases hlocked : lk.locked <;>
          simp only [sleeplock, SleepLock.code, hlocked, if_true, reduceCtorEq] at hi
        cases hi
      | _ => cases hi

/-- Process 0 takes the lock and process 1 goes to sleep.  A `kill` wakes it, it finds the lock
taken and sleeps again until process 0 releases the lock. -/
def killedSleeper : List (Act ℕ Label) :=
  [.call 0 .acquire, .run 0, .run 0, .run 0, .run 0,
    .call 1 .acquire, .run 1, .run 1, .run 1, .run 1, .run 1, .ret,
    .kill 1, .dispatch 1, .run 1, .run 1, .run 1, .run 1, .run 1, .run 1, .ret,
    .call 0 .release, .run 0, .run 0, .run 0, .run 0, .run 0, .run 0, .run 0, .run 0,
    .dispatch 1, .run 1, .run 1, .run 1, .run 1, .run 1]

theorem sleep_lock_killedSleeper :
    ∃ s, exec (step (sleeplock (.obj 7))) (boot {} .out fun p : ℕ =>
        { Proc.zero with pid := p + 1 }) killedSleeper = some s ∧
      s.pc 1 = .code .inside ∧ s.mem.locked = true ∧ s.mem.pid = (s.proc 1).pid := by
  obtain ⟨s, hs, hpc⟩ : ∃ s, exec (step (sleeplock (.obj 7))) (boot {} .out fun p : ℕ =>
      { Proc.zero with pid := p + 1 }) killedSleeper = some s ∧ s.pc 1 = .code .inside := by
    decide +kernel
  refine ⟨s, hs, hpc, (sleep_lock (run_traceOf hs)).2.1 1 ?_⟩
  rw [hpc]
  exact trivial

end Xv6.Sync
