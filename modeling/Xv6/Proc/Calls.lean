import Xv6.Proc.Fss

/-!
The critical sections of `kernel/proc.c`, as functions on the memory that
`ptable.lock` protects.

`fork` holds the lock only inside `allocproc` and for its last store, so it
appears as one function for each of its steps (`allocproc`, `forkFail`,
`forkParent`, `forkGid`, `forkEnsure`, `forkRunnable`); `wait` and `waitx` appear
as one pass of their loop, and `sleep` as its first half, up to `sched`.

The lemmas say what each section does to one entry of the process table.  The
longest is `exit_proc`: the loop of `exit` changes the table while it walks over
it, and the lemma gives the result entry by entry.
-/

namespace Xv6

open Ptable

/-- The value of an `int` after an arithmetic operation. -/
def int32 (x : ℤ) : ℤ := x.bmod (2 ^ 32)

/-! ### Boot -/

/-- A process table entry as the loader leaves it: all zero. -/
def Proc.zero : Proc :=
  { state := .unused, pid := 0, parent := none, chan := none, killed := false, gid := 0,
    rtime := 0, wtime := 0, stime := 0 }

/-- `pinit`, run on zeroed memory with `nextpid` at its initial value. -/
def pinit : Ptable :=
  fssInitGroups
    { proc := fun _ => Proc.zero
      initproc := none
      nextpid := 1
      gtable := fun _ => { Group.fresh 0 with active := false, stride := 0 } }

/-! ### `allocproc` and `fork` -/

/-- The section of `allocproc`: the first `UNUSED` entry becomes an `EMBRYO` in
group 0 with the next pid and fresh counters. -/
def allocproc (t : Ptable) : Ptable × Option Slot :=
  match findProc t fun x => x.state == .unused with
  | none => (t, none)
  | some p =>
    let t := t.setProc p { t.proc p with state := .embryo, pid := t.nextpid }
    let t := { t with nextpid := int32 (t.nextpid + 1) }
    let t := t.setProc p { t.proc p with gid := 0 }
    let t := (fssGroupEnsure t (t.proc p).gid).1
    (t.setProc p { t.proc p with rtime := 0, wtime := 0, stime := 0 }, some p)

/-- `userinit`: the first process, in group 0, made `RUNNABLE`. -/
def userinit (t : Ptable) : Ptable :=
  match allocproc t with
  | (t, none) => t
  | (t, some p) =>
    let t := { t with initproc := some p }
    let t := t.setProc p { t.proc p with gid := 0 }
    let t := (fssGroupEnsure t 0).1
    t.setProc p { t.proc p with state := .runnable }

/-- The failing paths of `allocproc` (`kalloc`) and of `fork` (`copyuvm`): the
entry is given back, without the lock. -/
def forkFail (t : Ptable) (np : Slot) : Ptable :=
  t.setProc np { t.proc np with state := .unused }

/-- `np->parent = curproc`, without the lock. -/
def forkParent (t : Ptable) (cur np : Slot) : Ptable :=
  t.setProc np { t.proc np with parent := some cur }

/-- `np->gid = curproc->gid`, without the lock. -/
def forkGid (t : Ptable) (cur np : Slot) : Ptable :=
  t.setProc np { t.proc np with gid := (t.proc cur).gid }

/-- `fss_group_ensure(np->gid)`, without the lock. -/
def forkEnsure (t : Ptable) (np : Slot) : Ptable :=
  (fssGroupEnsure t (t.proc np).gid).1

/-- The last store of `fork`. -/
def forkRunnable (t : Ptable) (np : Slot) : Ptable :=
  t.setProc np { t.proc np with state := .runnable }

/-! ### Sleeping and waking -/

/-- What `wakeup1` does to an entry. -/
def Proc.wake (ch : Option Chan) (x : Proc) : Proc :=
  { x with state := if x.state = .sleeping ∧ x.chan = ch then .runnable else x.state }

/-- `wakeup1`. -/
def wakeup1 (t : Ptable) (ch : Option Chan) : Ptable :=
  t.mapProc fun _ => Proc.wake ch

/-- `yield`, up to `sched`. -/
def yield (t : Ptable) (cur : Slot) : Ptable :=
  t.setProc cur { t.proc cur with state := .runnable }

/-- `sleep`, up to `sched`. -/
def sleep (t : Ptable) (cur : Slot) (ch : Chan) : Ptable :=
  t.setProc cur { t.proc cur with chan := some ch, state := .sleeping }

/-- The end of `sleep`, after `sched` has returned. -/
def sleepEnd (t : Ptable) (cur : Slot) : Ptable :=
  t.setProc cur { t.proc cur with chan := none }

/-- `kill`, with its return value. -/
def kill (t : Ptable) (pid : ℤ) : Ptable × ℤ :=
  match findProc t fun x => x.pid == pid with
  | some p =>
    (t.setProc p
      { t.proc p with
        killed := true
        state := if (t.proc p).state = .sleeping then .runnable else (t.proc p).state }, 0)
  | none => (t, -1)

/-- The default case of `trap`: a fault in user space kills the process. -/
def trapKill (t : Ptable) (cur : Slot) : Ptable :=
  t.setProc cur { t.proc cur with killed := true }

/-! ### `exit`, `wait` and `waitx` -/

/-- The body of the loop of `exit` that passes abandoned children to init. -/
def exitBody (cur : Slot) (t : Ptable) (p : Slot) : Ptable :=
  if (t.proc p).parent = some cur then
    let t := t.setProc p { t.proc p with parent := t.initproc }
    if (t.proc p).state = .zombie then wakeup1 t (t.initproc.map .proc) else t
  else t

/-- The section of `exit`, up to `sched`. -/
def exit (t : Ptable) (cur : Slot) : Ptable :=
  let t := wakeup1 t ((t.proc cur).parent.map .proc)
  let t := (List.finRange NPROC).foldl (exitBody cur) t
  t.setProc cur { t.proc cur with state := .zombie }

/-- How one pass over the table in `wait` or `waitx` ends: with a zombie child,
with nothing to wait for, or asleep. -/
inductive WaitPass where
  | reap (p : Slot)
  | fail
  | sleep
  deriving DecidableEq, Repr

/-- One pass of the loop that `wait` and `waitx` share. -/
def waitPass (t : Ptable) (cur : Slot) : WaitPass :=
  match findProc t fun x => x.parent == some cur && x.state == .zombie with
  | some p => .reap p
  | none =>
    if (findProc t fun x => x.parent == some cur).isNone || (t.proc cur).killed then .fail
    else .sleep

/-- What `wait` leaves of the child it reaps. -/
def Proc.reapWait (x : Proc) : Proc :=
  { x with pid := 0, parent := none, killed := false, state := .unused }

/-- What `waitx` leaves of the child it reaps. -/
def Proc.reapWaitx (x : Proc) : Proc :=
  { x.reapWait with rtime := 0, wtime := 0, stime := 0 }

/-- What a pass of `wait` or `waitx` hands to its caller: nothing yet, because
it sleeps, or the return value and what is stored through `wtime` and `rtime`. -/
inductive WaitResult where
  | sleeps
  | returns (v : ℤ) (wtime rtime : Option UInt32)
  deriving DecidableEq, Repr

/-- One pass of `wait`. -/
def wait (t : Ptable) (cur : Slot) : Ptable × WaitResult :=
  match waitPass t cur with
  | .reap p => (t.setProc p (t.proc p).reapWait, .returns (t.proc p).pid none none)
  | .fail => (t, .returns (-1) none none)
  | .sleep => (sleep t cur (.proc cur), .sleeps)

/-- One pass of `waitx`; `w` and `r` tell whether its pointers are non-null. -/
def waitx (t : Ptable) (cur : Slot) (w r : Bool) : Ptable × WaitResult :=
  match waitPass t cur with
  | .reap p =>
    (t.setProc p (t.proc p).reapWaitx,
      .returns (t.proc p).pid (if w then some (t.proc p).wtime else none)
        (if r then some (t.proc p).rtime else none))
  | .fail => (t, .returns (-1) none none)
  | .sleep => (sleep t cur (.proc cur), .sleeps)

/-! ### Groups and ticks -/

/-- `getgroup_k`. -/
def getgroupK (t : Ptable) (pid : ℤ) : ℤ :=
  match findProc t fun x => x.pid == pid && x.state != .unused with
  | some p => (t.proc p).gid
  | none => -1

/-- `setgroup_k`, with its return value. -/
def setgroupK (t : Ptable) (pid gid : ℤ) : Ptable × ℤ :=
  if gid < 0 then (t, -1)
  else
    match fssGroupEnsure t gid with
    | (t, none) => (t, -1)
    | (t, some _) =>
      match findProc t fun x => x.pid == pid && x.state != .unused with
      | some p => (t.setProc p { t.proc p with gid := gid }, 0)
      | none => (t, -1)

/-- What `tick_accounting` does to an entry. -/
def Proc.tick (x : Proc) : Proc :=
  match x.state with
  | .running => { x with rtime := x.rtime + 1 }
  | .runnable => { x with wtime := x.wtime + 1 }
  | .sleeping => { x with stime := x.stime + 1 }
  | _ => x

/-- A tick adds to the counters and changes nothing else. -/
lemma Proc.tick_eq (x : Proc) :
    x.tick =
      { x with
        rtime := x.rtime + if x.state = .running then 1 else 0
        wtime := x.wtime + if x.state = .runnable then 1 else 0
        stime := x.stime + if x.state = .sleeping then 1 else 0 } := by
  rcases x with ⟨st, _⟩
  cases st <;> simp [tick]

/-- `tick_accounting`. -/
def tickAccounting (t : Ptable) : Ptable :=
  t.mapProc fun _ => Proc.tick

/-! ### What the sections do to one entry -/

variable {t : Ptable}

/-- Groups are looked up in the group table alone. -/
lemma fssGroupEnsure_congr {t' : Ptable} (h : t.gtable = t'.gtable) (gid : ℤ) :
    (fssGroupEnsure t gid).1.gtable = (fssGroupEnsure t' gid).1.gtable
      ∧ (fssGroupEnsure t gid).2 = (fssGroupEnsure t' gid).2 := by
  have hf : ∀ ok, findGroup t ok = findGroup t' ok := fun ok => by simp [findGroup, h]
  simp only [fssGroupEnsure, fssGroupLookup, hf]
  split
  · exact ⟨h, rfl⟩
  · split
    · exact ⟨by simp [setGroup, h], rfl⟩
    · exact ⟨h, rfl⟩

/-- The entry a new process starts from. -/
def Proc.embryo (x : Proc) (pid : ℤ) : Proc :=
  { x with state := .embryo, pid := pid, gid := 0, rtime := 0, wtime := 0, stime := 0 }

/-- What `allocproc` does: it finds the table full, or takes an `UNUSED` entry. -/
lemma allocproc_cases (t : Ptable) :
    (allocproc t = (t, none) ∧ ∀ p, (t.proc p).state ≠ .unused)
      ∨ ∃ p t', allocproc t = (t', some p) ∧ (t.proc p).state = .unused
        ∧ (∀ q, t'.proc q = if q = p then (t.proc p).embryo t.nextpid else t.proc q)
        ∧ t'.initproc = t.initproc ∧ t'.nextpid = int32 (t.nextpid + 1)
        ∧ t'.gtable = (fssGroupEnsure t 0).1.gtable := by
  cases hf : findProc t fun x => x.state == .unused with
  | none =>
    refine Or.inl ⟨by simp [allocproc, hf], fun p hp => ?_⟩
    have h := findProc_eq_none.mp hf p
    simp [hp] at h
  | some p =>
    refine Or.inr ⟨p, (allocproc t).1, by simp [allocproc, hf], by simpa using findProc_some hf,
      fun q => ?_, ?_, ?_, ?_⟩
    · simp only [allocproc, hf, setProc_proc, fssGroupEnsure_proc, if_true]
      split
      · simp [Proc.embryo]
      · rfl
    · simp [allocproc, hf]
    · simp [allocproc, hf]
    · simp only [allocproc, hf, setProc_gtable, setProc_proc_self]
      refine (fssGroupEnsure_congr ?_ 0).1
      rfl

/-- What `allocproc` does when it takes the entry `p`. -/
lemma allocproc_some {t t' : Ptable} {p : Slot} (h : allocproc t = (t', some p)) :
    (t.proc p).state = .unused
      ∧ (∀ q, t'.proc q = if q = p then (t.proc p).embryo t.nextpid else t.proc q)
      ∧ t'.initproc = t.initproc ∧ t'.nextpid = int32 (t.nextpid + 1)
      ∧ t'.gtable = (fssGroupEnsure t 0).1.gtable := by
  rcases allocproc_cases t with ⟨hn, _⟩ | ⟨p', u, hu, hspec⟩
  · rw [hn] at h
    cases h
  · rw [hu] at h
    cases h
    exact hspec

/-- What `userinit` does: it allocates a process, makes it `initproc` and
`RUNNABLE`. -/
lemma userinit_cases (t : Ptable) :
    (userinit t = t ∧ ∀ p, (t.proc p).state ≠ .unused)
      ∨ ∃ p, (allocproc t).2 = some p ∧ (t.proc p).state = .unused
        ∧ (∀ q, (userinit t).proc q =
          if q = p then { (t.proc p).embryo t.nextpid with state := .runnable } else t.proc q)
        ∧ (userinit t).initproc = some p ∧ (userinit t).nextpid = int32 (t.nextpid + 1)
        ∧ (userinit t).gtable = (fssGroupEnsure (fssGroupEnsure t 0).1 0).1.gtable := by
  rcases allocproc_cases t with ⟨ha, hall⟩ | ⟨p, t', ha, hp, hproc, _, hnext, hg⟩
  · exact Or.inl ⟨by simp [userinit, ha], hall⟩
  · refine Or.inr ⟨p, by rw [ha], hp, fun q => ?_, ?_, ?_, ?_⟩
    · simp only [userinit, ha, setProc_proc, fssGroupEnsure_proc, hproc, if_true]
      split <;> rfl
    · simp [userinit, ha]
    · simp [userinit, ha, hnext]
    · simp only [userinit, ha, setProc_gtable]
      exact (fssGroupEnsure_congr (by simpa using hg) 0).1

/-- What `kill` does: nothing, or the first entry with the pid is marked and, if
it was `SLEEPING`, made `RUNNABLE`. -/
lemma kill_cases (t : Ptable) (pid : ℤ) :
    (kill t pid = (t, -1) ∧ ∀ p, (t.proc p).pid ≠ pid)
      ∨ ∃ p, findProc t (fun x => x.pid == pid) = some p ∧ (t.proc p).pid = pid
        ∧ kill t pid = (t.setProc p
          { t.proc p with
            killed := true
            state := if (t.proc p).state = .sleeping then .runnable else (t.proc p).state },
              0) := by
  cases hf : findProc t fun x => x.pid == pid with
  | none =>
    refine Or.inl ⟨by simp [kill, hf], fun p => ?_⟩
    simpa using findProc_eq_none.mp hf p
  | some p =>
    exact Or.inr ⟨p, rfl, by simpa using findProc_some hf, by simp [kill, hf]⟩

/-- What `setgroup_k` does: it fails at once, it ensures the group and finds no
process with the pid, or it moves that process. -/
lemma setgroupK_cases (t : Ptable) (pid gid : ℤ) :
    setgroupK t pid gid = (t, -1)
      ∨ (0 ≤ gid ∧ (∃ i, (fssGroupEnsure t gid).2 = some i)
        ∧ setgroupK t pid gid = ((fssGroupEnsure t gid).1, -1))
      ∨ (0 ≤ gid ∧ (∃ i, (fssGroupEnsure t gid).2 = some i) ∧ ∃ p, (t.proc p).pid = pid
        ∧ (t.proc p).state ≠ .unused
        ∧ setgroupK t pid gid
          = ((fssGroupEnsure t gid).1.setProc p { t.proc p with gid := gid }, 0)) := by
  by_cases hg : gid < 0
  · exact Or.inl (by simp [setgroupK, hg])
  · rcases he : fssGroupEnsure t gid with ⟨t', _ | i⟩
    · have ht : t' = t := by
        rcases fssGroupEnsure_cases t gid with ⟨j, h, _⟩ | ⟨j, h, _⟩ | ⟨h, _⟩
        · rw [he] at h; simp at h
        · rw [he] at h; simp at h
        · rw [he] at h; simpa using h
      exact Or.inl (by simp [setgroupK, hg, he, ht])
    · have hproc : t'.proc = t.proc := by
        have h := fssGroupEnsure_proc t gid
        rwa [he] at h
      cases hf : findProc t' fun x => x.pid == pid && x.state != .unused with
      | none =>
        exact Or.inr (Or.inl ⟨by omega, ⟨i, rfl⟩, by simp [setgroupK, hg, he, hf]⟩)
      | some p =>
        have h := findProc_some hf
        rw [hproc] at h
        simp only [Bool.and_eq_true, beq_iff_eq, bne_iff_ne, ne_eq] at h
        exact Or.inr (Or.inr ⟨by omega, ⟨i, rfl⟩, p, h.1, h.2, by
          simp [setgroupK, hg, he, hf, hproc]⟩)

/-- The child `z` of `cur` is a zombie. -/
def ZombieChild (t : Ptable) (cur z : Slot) : Prop :=
  (t.proc z).parent = some cur ∧ (t.proc z).state = .zombie

instance (t : Ptable) (cur z : Slot) : Decidable (ZombieChild t cur z) :=
  inferInstanceAs (Decidable (_ ∧ _))

variable {cur : Slot}

/-- The entry a pass of `wait` reaps is a zombie child of the caller. -/
lemma waitPass_reap {z : Slot} (h : waitPass t cur = .reap z) :
    ZombieChild t cur z := by
  simp only [waitPass] at h
  split at h
  · rename_i p hp
    simp only [WaitPass.reap.injEq] at h
    subst h
    simpa [ZombieChild] using findProc_some hp
  · split at h <;> simp at h

/-- A pass of `wait` sleeps only when the caller has no zombie child. -/
lemma waitPass_sleep (h : waitPass t cur = .sleep) (z : Slot) :
    ¬ ZombieChild t cur z := by
  simp only [waitPass] at h
  split at h
  · simp at h
  · rename_i hf
    intro hz
    have h1 := findProc_eq_none.mp hf z
    simp [hz.1, hz.2] at h1

/-- The state of an entry is `ZOMBIE` after a wakeup exactly if it was before. -/
@[simp] lemma Proc.wake_state_eq_zombie {ch : Option Chan} {x : Proc} :
    (x.wake ch).state = .zombie ↔ x.state = .zombie := by
  by_cases h : x.state = .sleeping ∧ x.chan = ch
  · simp [wake, h]
  · simp [wake, h]

/-- The entry `q` after the children in `l` have been passed to init: it has init
for its parent if it was one of them, and it was woken if one of them is a zombie
and it slept on init's address. -/
def passed (cur : Slot) (l : List Slot) (t : Ptable) (q : Slot) : Proc :=
  { t.proc q with
    parent := if q ∈ l ∧ (t.proc q).parent = some cur then t.initproc else (t.proc q).parent
    state := if (∃ z ∈ l, ZombieChild t cur z) ∧ (t.proc q).state = .sleeping
        ∧ (t.proc q).chan = t.initproc.map .proc then .runnable else (t.proc q).state }

@[simp] lemma exitBody_initproc (cur : Slot) (t : Ptable) (z : Slot) :
    (exitBody cur t z).initproc = t.initproc := by
  simp only [exitBody]
  split
  · split <;> rfl
  · rfl

@[simp] lemma exitBody_nextpid (cur : Slot) (t : Ptable) (z : Slot) :
    (exitBody cur t z).nextpid = t.nextpid := by
  simp only [exitBody]
  split
  · split <;> rfl
  · rfl

@[simp] lemma exitBody_gtable (cur : Slot) (t : Ptable) (z : Slot) :
    (exitBody cur t z).gtable = t.gtable := by
  simp only [exitBody]
  split
  · split <;> rfl
  · rfl

lemma exitBody_proc (cur : Slot) (t : Ptable) (z q : Slot) :
    (exitBody cur t z).proc q = passed cur [z] t q := by
  by_cases hp : (t.proc z).parent = some cur <;> by_cases hq : q = z
  · subst hq
    by_cases hz : (t.proc q).state = .zombie <;>
      simp [exitBody, passed, ZombieChild, hp, hz, wakeup1, Proc.wake]
  · by_cases hz : (t.proc z).state = .zombie <;>
      simp [exitBody, passed, ZombieChild, hp, hz, wakeup1, Proc.wake, setProc_proc, hq]
  · subst hq
    simp [exitBody, passed, ZombieChild, hp]
  · simp [exitBody, passed, ZombieChild, hp, hq]

/-- The loop of `exit`, entry by entry. -/
lemma foldl_exitBody_proc (cur : Slot) (l : List Slot) (hnd : l.Nodup) (t : Ptable) (q : Slot) :
    (l.foldl (exitBody cur) t).proc q = passed cur l t q
      ∧ (l.foldl (exitBody cur) t).initproc = t.initproc
      ∧ (l.foldl (exitBody cur) t).nextpid = t.nextpid
      ∧ (l.foldl (exitBody cur) t).gtable = t.gtable := by
  induction l generalizing t with
  | nil => simp [passed]
  | cons z l ih =>
    obtain ⟨hz, hnd⟩ := List.nodup_cons.mp hnd
    obtain ⟨h1, h2, h3, h4⟩ := ih hnd (exitBody cur t z)
    refine ⟨?_, by simp [h2], by simp [h3], by simp [h4]⟩
    -- the rest of the loop sees the same zombie children as before `z` was passed on
    have hzc : ∀ y ∈ l, ZombieChild (exitBody cur t z) cur y ↔ ZombieChild t cur y := by
      intro y hy
      have hyz : y ≠ z := fun h => hz (h ▸ hy)
      simp only [ZombieChild, exitBody_proc, passed, List.mem_singleton, hyz, false_and,
        if_false]
      by_cases hs : (t.proc y).state = .sleeping <;> simp [hs]
      intro _
      split <;> simp
    have hex : (∃ y ∈ l, ZombieChild (exitBody cur t z) cur y) ↔ ∃ y ∈ l, ZombieChild t cur y :=
      exists_congr fun y => and_congr_right fun hy => hzc y hy
    rw [List.foldl_cons, h1]
    simp only [passed, hex, exitBody_proc, exitBody_initproc, List.mem_cons]
    -- `q` is woken by `z`, by a later child, by both (the second time to no effect) or not at all
    by_cases hs : (t.proc q).state = .sleeping ∧ (t.proc q).chan = t.initproc.map .proc <;>
      by_cases hA : ZombieChild t cur z <;> by_cases hB : ∃ y ∈ l, ZombieChild t cur y <;>
      by_cases hq : q = z
    all_goals
      first
        | subst hq; simp [hA, hB, hz, hs]
        | simp [hA, hB, hq, hs]

/-- The state of an entry after `exit`: the caller is a `ZOMBIE`, and a sleeper is
woken if it slept on the address of the caller's parent, or on init's when a
zombie child is passed to init. -/
def exitState (t : Ptable) (cur q : Slot) : ProcState :=
  if q = cur then .zombie
  else if (t.proc q).state = .sleeping ∧ ((t.proc q).chan = (t.proc cur).parent.map .proc
      ∨ (∃ z, ZombieChild t cur z) ∧ (t.proc q).chan = t.initproc.map .proc) then .runnable
  else (t.proc q).state

/-- **`exit`, entry by entry**: children of the caller get init for their parent,
and nothing else changes but the states. -/
lemma exit_proc (t : Ptable) (cur q : Slot) :
    (exit t cur).proc q =
      { t.proc q with
        parent := if (t.proc q).parent = some cur then t.initproc else (t.proc q).parent
        state := exitState t cur q } := by
  have h := fun q => (foldl_exitBody_proc cur (List.finRange NPROC) (List.nodup_finRange NPROC)
    (wakeup1 t ((t.proc cur).parent.map .proc)) q).1
  -- waking the parent creates no zombie and buries none
  have hzc : ∀ z, ZombieChild (wakeup1 t ((t.proc cur).parent.map .proc)) cur z
      ↔ ZombieChild t cur z := fun z => by
    simp only [ZombieChild, wakeup1, mapProc_proc, Proc.wake_state_eq_zombie]
    rfl
  by_cases hq : q = cur
  · subst hq
    simp only [exit, setProc_proc_self, h, passed, exitState, if_true]
    simp [wakeup1, Proc.wake]
  · simp only [exit, setProc_proc, hq, if_false, h, passed, exitState, List.mem_finRange, true_and,
      hzc]
    simp only [wakeup1, mapProc_proc, mapProc_initproc, Proc.wake]
    by_cases hp : (t.proc q).parent = some cur <;>
      by_cases h1 : (t.proc q).state = .sleeping <;>
      by_cases h2 : (t.proc q).chan = (t.proc cur).parent.map .proc <;> simp [hp, h1, h2]

lemma exitState_self (t : Ptable) (cur : Slot) : exitState t cur cur = .zombie := by
  simp [exitState]

/-- An entry other than the caller keeps its state unless it is woken. -/
lemma exitState_ne {q : Slot} (hq : q ≠ cur) :
    exitState t cur q = (t.proc q).state
      ∨ (t.proc q).state = .sleeping ∧ exitState t cur q = .runnable := by
  simp only [exitState, hq, if_false]
  split
  · rename_i h
    exact Or.inr ⟨h.1, rfl⟩
  · exact Or.inl rfl

/-- After `exit` nobody sleeps on the address of the caller's parent, and nobody
sleeps on init's address if a zombie was passed to init. -/
lemma exitState_sleeping {q : Slot} (hs : exitState t cur q = .sleeping) :
    (t.proc q).state = .sleeping ∧ (t.proc q).chan ≠ (t.proc cur).parent.map .proc
      ∧ ∀ z, ZombieChild t cur z → (t.proc q).chan ≠ t.initproc.map .proc := by
  simp only [exitState] at hs
  split_ifs at hs with hq hw
  refine ⟨hs, fun hc => hw ⟨hs, Or.inl hc⟩, fun z hz hc => hw ⟨hs, Or.inr ⟨⟨z, hz⟩, hc⟩⟩⟩

/-- `exit` leaves `initproc`, `nextpid` and the groups alone. -/
lemma exit_frame (t : Ptable) (cur : Slot) :
    (exit t cur).initproc = t.initproc ∧ (exit t cur).nextpid = t.nextpid
      ∧ (exit t cur).gtable = t.gtable := by
  have h := foldl_exitBody_proc cur (List.finRange NPROC) (List.nodup_finRange NPROC)
    (wakeup1 t ((t.proc cur).parent.map .proc)) cur
  simp only [exit, setProc_initproc, setProc_nextpid, setProc_gtable, h.2.1, h.2.2.1, h.2.2.2]
  exact ⟨rfl, rfl, rfl⟩

end Xv6
