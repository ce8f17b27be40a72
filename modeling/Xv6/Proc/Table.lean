import Mathlib.Tactic

/-!
The data of `kernel/proc.h` and `kernel/proc.c`: the process table `ptable`, the
table `gtable` of fair-share groups, `initproc` and `nextpid`.

A pointer to a table entry is the entry's index, a null pointer is `none`.
`pass` and `stride` are the source's `uint`, the tick counters its `int`s read
modulo `2^32`; `gid`, `pid` and `rr_cursor` are `int`s, kept as integers.  The
fields of `struct proc` that only memory management and the file system use
(`sz`, `pgdir`, `kstack`, `tf`, `context`, `ofile`, `cwd`, `name`) are left out.
-/

namespace Xv6

open Function

/-- `NPROC`: the number of entries of the process table. -/
abbrev NPROC : ℕ := 64

/-- `NGROUPS`: the number of entries of the group table. -/
abbrev NGROUPS : ℕ := 16

/-- `FSS_BIG`: the stride of a group with share 1. -/
abbrev FSS_BIG : UInt32 := 100000

/-- A pointer into `ptable.proc`. -/
abbrev Slot := Fin NPROC

/-- A pointer into `gtable`. -/
abbrev GSlot := Fin NGROUPS

/-- `enum procstate`. -/
inductive ProcState where
  | unused | embryo | sleeping | runnable | running | zombie
  deriving DecidableEq, Repr

/-- A sleep channel: the address of a `struct proc`, on which only `wait` and
`waitx` sleep, or the address of some other kernel object. -/
inductive Chan where
  | proc (p : Slot)
  | obj (a : ℕ)
  deriving DecidableEq, Repr

/-- `struct proc`. -/
structure Proc where
  state : ProcState
  pid : ℤ
  parent : Option Slot
  chan : Option Chan
  killed : Bool
  gid : ℤ
  rtime : UInt32
  wtime : UInt32
  stime : UInt32
  deriving DecidableEq, Repr

/-- `struct group`. -/
structure Group where
  gid : ℤ
  active : Bool
  pass : UInt32
  stride : UInt32
  rrCursor : ℤ
  deriving DecidableEq, Repr

/-- The memory `ptable.lock` protects. -/
structure Ptable where
  proc : Slot → Proc
  initproc : Option Slot
  nextpid : ℤ
  gtable : GSlot → Group

namespace Ptable

/-- Overwrite one entry of the process table. -/
def setProc (t : Ptable) (p : Slot) (x : Proc) : Ptable :=
  { t with proc := update t.proc p x }

/-- Run a loop over the whole process table whose body changes only the entry it
is at. -/
def mapProc (t : Ptable) (f : Slot → Proc → Proc) : Ptable :=
  { t with proc := fun p => f p (t.proc p) }

/-- Overwrite one entry of the group table. -/
def setGroup (t : Ptable) (i : GSlot) (x : Group) : Ptable :=
  { t with gtable := update t.gtable i x }

variable (t : Ptable) (p q : Slot) (x : Proc) (f : Slot → Proc → Proc) (i j : GSlot) (y : Group)

lemma setProc_proc : (t.setProc p x).proc q = if q = p then x else t.proc q := by
  simp [setProc, update_apply]

@[simp] lemma setProc_proc_self : (t.setProc p x).proc p = x := by simp [setProc]

/-- Overwriting an entry leaves every field alone that the new value has in common
with the old one. -/
lemma setProc_field {β : Type*} (f : Proc → β) {t : Ptable} {p : Slot} {x : Proc}
    (h : f x = f (t.proc p)) (q : Slot) : f ((t.setProc p x).proc q) = f (t.proc q) := by
  rw [setProc_proc]
  split
  · rename_i hq; rw [hq, h]
  · rfl

@[simp] lemma setProc_gtable : (t.setProc p x).gtable = t.gtable := rfl

@[simp] lemma setProc_initproc : (t.setProc p x).initproc = t.initproc := rfl

@[simp] lemma setProc_nextpid : (t.setProc p x).nextpid = t.nextpid := rfl

@[simp] lemma mapProc_proc : (t.mapProc f).proc p = f p (t.proc p) := rfl

@[simp] lemma mapProc_gtable : (t.mapProc f).gtable = t.gtable := rfl

@[simp] lemma mapProc_initproc : (t.mapProc f).initproc = t.initproc := rfl

@[simp] lemma mapProc_nextpid : (t.mapProc f).nextpid = t.nextpid := rfl

lemma setGroup_gtable : (t.setGroup i y).gtable j = if j = i then y else t.gtable j := by
  simp [setGroup, update_apply]

@[simp] lemma setGroup_gtable_self : (t.setGroup i y).gtable i = y := by simp [setGroup]

@[simp] lemma setGroup_proc : (t.setGroup i y).proc = t.proc := rfl

@[simp] lemma setGroup_initproc : (t.setGroup i y).initproc = t.initproc := rfl

@[simp] lemma setGroup_nextpid : (t.setGroup i y).nextpid = t.nextpid := rfl

end Ptable

/-- The first entry of the process table that passes a test, as the loops
`for(p = ptable.proc; p < &ptable.proc[NPROC]; p++)` with an early exit find it. -/
def findProc (t : Ptable) (ok : Proc → Bool) : Option Slot :=
  (List.finRange NPROC).find? fun p => ok (t.proc p)

lemma findProc_some {t : Ptable} {ok : Proc → Bool} {p : Slot} (h : findProc t ok = some p) :
    ok (t.proc p) = true := by
  have h1 := List.find?_some h
  exact h1

lemma findProc_eq_none {t : Ptable} {ok : Proc → Bool} :
    findProc t ok = none ↔ ∀ p, ok (t.proc p) = false := by
  simp [findProc, List.find?_eq_none]

/-- The first entry of the group table that passes a test. -/
def findGroup (t : Ptable) (ok : Group → Bool) : Option GSlot :=
  (List.finRange NGROUPS).find? fun i => ok (t.gtable i)

lemma findGroup_some {t : Ptable} {ok : Group → Bool} {i : GSlot}
    (h : findGroup t ok = some i) : ok (t.gtable i) = true := by
  have h1 := List.find?_some h
  exact h1

lemma findGroup_eq_none {t : Ptable} {ok : Group → Bool} :
    findGroup t ok = none ↔ ∀ i, ok (t.gtable i) = false := by
  simp [findGroup, List.find?_eq_none]

end Xv6
