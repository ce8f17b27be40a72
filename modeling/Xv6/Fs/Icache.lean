import Xv6.Fs.Cache
import Xv6.Transition.Run

/-!
The inode cache with several processes (`iget`, `idup`, `ilock`, `iunlock`, `iput`,
`ialloc`).

A call is cut wherever another process can come in between: at `acquiresleep`, at the
sections under `icache.lock`, and between the accesses to the inode's block, each of which
is made under the lock of its buffer.  `Pc` says where a process is.

The rules for callers are guards of the step function.  A process uses the pointers it
holds references for; it reads and changes the fields of an inode it has locked, never its
type to 0, and has written the changes with `iupdate` when it unlocks it.  A lookup calls
`iget` for an inode with links, or for one that the process holds a reference to.

* `Icache n`, `IcacheAct n`, `icacheStep`: the state, the actions and the step function.
  `held` counts the references of each process; no code reads it.
* `IcacheTrans`, `icacheTrans_of_step`: all that a step can do.
* `written`: the dinode that a step writes.
-/

namespace Xv6.Fs

open Transition Function

variable {n : ℕ}

abbrev InodeId : Type := Fin NINODE

/-- The device and the number of an inode. -/
abbrev Ino : Type := ℕ × ℕ

/-- `struct inode`; `din` is the copy of the dinode. -/
structure Inode (n : ℕ) where
  ino : Ino := (0, 0)
  ref : ℕ := 0
  lock : Option (Tid n) := none
  valid : Bool := false
  din : Dinode := .fresh .free

/-- Where a process is. -/
inductive Pc where
  /-- Outside of the functions of the cache. -/
  | user
  /-- `ilock`: at `acquiresleep`. -/
  | ilock (i : InodeId)
  /-- `ilock`: at the test of `valid`. -/
  | load (i : InodeId)
  /-- `iput`: at `acquiresleep`. -/
  | iput (i : InodeId)
  /-- `iput`: at the test of `valid` and `nlink`. -/
  | test (i : InodeId)
  /-- `iput`: at the section that reads `ref`. -/
  | count (i : InodeId)
  /-- `iput`: at `itrunc`. -/
  | trunc (i : InodeId)
  /-- `iput`: at `type = 0` and `iupdate`. -/
  | free (i : InodeId)
  /-- `iput`: at `valid = 0`. -/
  | invalid (i : InodeId)
  /-- `iput`: at `releasesleep`, and whether the inode has been freed. -/
  | release (i : InodeId) (freed : Bool)
  /-- `iput`: at the section that decrements `ref`. -/
  | drop (i : InodeId) (freed : Bool)
  /-- `ialloc`: about to look at a dinode. -/
  | ialloc (ty : InodeType) (a : Ino)
  /-- `ialloc`: at its call of `iget`. -/
  | fetch (a : Ino)
  deriving DecidableEq

structure Icache (n : ℕ) where
  entry : InodeId → Inode n
  dinode : Ino → Dinode
  held : Tid n → InodeId → ℕ
  pc : Tid n → Pc

inductive IcacheAct (n : ℕ) where
  | iget (t : Tid n) (a : Ino)
  | idup (t : Tid n) (i : InodeId)
  /-- A reference changes hands, as in `fork`. -/
  | give (t u : Tid n) (i : InodeId)
  | ilock (t : Tid n) (i : InodeId)
  | iunlock (t : Tid n) (i : InodeId)
  | modify (t : Tid n) (i : InodeId) (d : Dinode)
  | iupdate (t : Tid n) (i : InodeId)
  | iput (t : Tid n) (i : InodeId)
  | ialloc (t : Tid n) (dev : ℕ) (ty : InodeType)
  /-- The process goes on with its call. -/
  | cont (t : Tid n)
  deriving DecidableEq

/-- The process that acts. -/
def IcacheAct.actor : IcacheAct n → Tid n
  | .iget t _ | .idup t _ | .give t _ _ | .ilock t _ | .iunlock t _ | .modify t _ _
  | .iupdate t _ | .iput t _ | .ialloc t _ _ | .cont t => t

namespace Icache

/-- The kernel has booted. -/
def init (d : Ino → Dinode) : Icache n where
  entry _ := {}
  dinode := d
  held _ _ := 0
  pc _ := .user

def setEntry (s : Icache n) (i : InodeId) (e : Inode n) : Icache n :=
  { s with entry := update s.entry i e }

def setDinode (s : Icache n) (a : Ino) (d : Dinode) : Icache n :=
  { s with dinode := update s.dinode a d }

def setHeld (s : Icache n) (t : Tid n) (i : InodeId) (k : ℕ) : Icache n :=
  { s with held := update s.held t (update (s.held t) i k) }

def goto (s : Icache n) (t : Tid n) (p : Pc) : Icache n :=
  { s with pc := update s.pc t p }

/-- The search for a cached inode. -/
def find (s : Icache n) (a : Ino) : Option InodeId :=
  (List.finRange NINODE).find? fun i => 0 < (s.entry i).ref ∧ (s.entry i).ino = a

/-- The first empty slot. -/
def empty (s : Icache n) : Option InodeId :=
  (List.finRange NINODE).find? fun i => (s.entry i).ref = 0

/-- One more reference for a process. -/
def addRef (s : Icache n) (t : Tid n) (i : InodeId) : Icache n :=
  (s.setEntry i { s.entry i with ref := (s.entry i).ref + 1 }).setHeld t i (s.held t i + 1)

/-- An empty slot is used for an inode. -/
def recycle (s : Icache n) (t : Tid n) (i : InodeId) (a : Ino) : Icache n :=
  (s.setEntry i { s.entry i with ino := a, ref := 1, valid := false }).setHeld t i
    (s.held t i + 1)

/-- `iget`: the section under `icache.lock`; `none` is its panic. -/
def iget (s : Icache n) (t : Tid n) (a : Ino) : Option (Icache n) :=
  match s.find a with
  | some i => some (s.addRef t i)
  | none => s.empty.map fun i => s.recycle t i a

/-- The fields of an inode: the valid cached copy, or the dinode. -/
def current (s : Icache n) (a : Ino) : Dinode :=
  match s.find a with
  | some i => if (s.entry i).valid then (s.entry i).din else s.dinode a
  | none => s.dinode a

/-- The inode is in use and has links. -/
def Linked (s : Icache n) (a : Ino) : Prop :=
  (s.current a).type ≠ .free ∧ 0 < (s.current a).nlink

/-- The process holds a reference to the inode. -/
def Refers (s : Icache n) (t : Tid n) (a : Ino) : Prop :=
  ∃ i, 0 < s.held t i ∧ (s.entry i).ino = a

/-- The process has locked the inode and is not in a call. -/
def Locks (s : Icache n) (t : Tid n) (i : InodeId) : Prop :=
  s.pc t = .user ∧ (s.entry i).lock = some t

instance (s : Icache n) (a : Ino) : Decidable (s.Linked a) := inferInstanceAs (Decidable (_ ∧ _))

instance (s : Icache n) (t : Tid n) (a : Ino) : Decidable (s.Refers t a) :=
  inferInstanceAs (Decidable (∃ _, _ ∧ _))

instance (s : Icache n) (t : Tid n) (i : InodeId) : Decidable (s.Locks t i) :=
  inferInstanceAs (Decidable (_ ∧ _))

end Icache

/-- The rest of `ilock`, `iput` and `ialloc`.  `none` is a panic, or a lock that is not
free. -/
def Icache.cont (ninodes : ℕ) (s : Icache n) (t : Tid n) : Option (Icache n) :=
  match s.pc t with
  | .user => none
  | .ilock i =>
    if (s.entry i).lock = none then
      some ((s.setEntry i { s.entry i with lock := some t }).goto t (.load i))
    else none
  | .load i =>
    if (s.entry i).valid then some (s.goto t .user)
    else if (s.dinode (s.entry i).ino).type = .free then none  -- `ilock: no type`
    else
      some ((s.setEntry i
        { s.entry i with din := s.dinode (s.entry i).ino, valid := true }).goto t .user)
  | .iput i =>
    if (s.entry i).lock = none then
      some ((s.setEntry i { s.entry i with lock := some t }).goto t (.test i))
    else none
  | .test i =>
    if (s.entry i).valid ∧ (s.entry i).din.nlink = 0 then some (s.goto t (.count i))
    else some (s.goto t (.release i false))
  | .count i =>
    if (s.entry i).ref = 1 then some (s.goto t (.trunc i))
    else some (s.goto t (.release i false))
  | .trunc i =>
    let d := (s.entry i).din.truncated
    some (((s.setEntry i { s.entry i with din := d }).setDinode (s.entry i).ino d).goto t
      (.free i))
  | .free i =>
    let d := { (s.entry i).din with type := .free }
    some (((s.setEntry i { s.entry i with din := d }).setDinode (s.entry i).ino d).goto t
      (.invalid i))
  | .invalid i =>
    some ((s.setEntry i { s.entry i with valid := false }).goto t (.release i true))
  | .release i f => some ((s.setEntry i { s.entry i with lock := none }).goto t (.drop i f))
  | .drop i _ =>
    some (((s.setEntry i { s.entry i with ref := (s.entry i).ref - 1 }).setHeld t i
      (s.held t i - 1)).goto t .user)
  | .ialloc ty a =>
    if ninodes ≤ a.2 then none  -- `ialloc: no inodes`
    else if (s.dinode a).type = .free then some ((s.setDinode a (.fresh ty)).goto t (.fetch a))
    else some (s.goto t (.ialloc ty (a.1, a.2 + 1)))
  | .fetch a => (s.iget t a).map fun s' => s'.goto t .user

/-- **One step.**  The step is not possible when the code panics or waits, and when the
caller does not keep to the rules. -/
def icacheStep (ninodes : ℕ) (s : Icache n) : IcacheAct n → Option (Icache n)
  | .iget t a => if s.pc t = .user ∧ (s.Linked a ∨ s.Refers t a) then s.iget t a else none
  | .idup t i => if s.pc t = .user ∧ 0 < s.held t i then some (s.addRef t i) else none
  | .give t u i =>
    if s.pc t = .user ∧ 0 < s.held t i ∧ (s.entry i).lock ≠ some t ∧ u ≠ t then
      some ((s.setHeld t i (s.held t i - 1)).setHeld u i (s.held u i + 1))
    else none
  | .ilock t i =>
    if s.pc t = .user ∧ 0 < s.held t i then some (s.goto t (.ilock i)) else none
  | .iunlock t i =>
    if s.Locks t i ∧ (s.entry i).din = s.dinode (s.entry i).ino then
      some (s.setEntry i { s.entry i with lock := none })
    else none
  | .modify t i d =>
    if s.Locks t i ∧ d.type ≠ .free then some (s.setEntry i { s.entry i with din := d })
    else none
  | .iupdate t i =>
    if s.Locks t i then some (s.setDinode (s.entry i).ino (s.entry i).din) else none
  | .iput t i => if s.pc t = .user ∧ 0 < s.held t i then some (s.goto t (.iput i)) else none
  | .ialloc t dev ty =>
    if s.pc t = .user ∧ ty ≠ .free then some (s.goto t (.ialloc ty (dev, 1))) else none
  | .cont t => s.cont ninodes t

/-! ### What a step can do -/

namespace Icache

section Fields

variable (s : Icache n) {i j : InodeId} {t u : Tid n}

@[simp] lemma setEntry_self (e : Inode n) : (s.setEntry i e).entry i = e :=
  update_self ..

@[simp] lemma setEntry_of_ne (h : j ≠ i) (e : Inode n) : (s.setEntry i e).entry j = s.entry j :=
  update_of_ne h ..

@[simp] lemma setEntry_dinode (e : Inode n) : (s.setEntry i e).dinode = s.dinode := rfl
@[simp] lemma setEntry_held (e : Inode n) : (s.setEntry i e).held = s.held := rfl
@[simp] lemma setEntry_pc (e : Inode n) : (s.setEntry i e).pc = s.pc := rfl

@[simp] lemma setDinode_self (a : Ino) (d : Dinode) : (s.setDinode a d).dinode a = d :=
  update_self ..

@[simp] lemma setDinode_of_ne {a b : Ino} (h : b ≠ a) (d : Dinode) :
    (s.setDinode a d).dinode b = s.dinode b :=
  update_of_ne h ..

@[simp] lemma setDinode_entry (a : Ino) (d : Dinode) : (s.setDinode a d).entry = s.entry := rfl
@[simp] lemma setDinode_held (a : Ino) (d : Dinode) : (s.setDinode a d).held = s.held := rfl
@[simp] lemma setDinode_pc (a : Ino) (d : Dinode) : (s.setDinode a d).pc = s.pc := rfl

@[simp] lemma setHeld_self (k : ℕ) : (s.setHeld t i k).held t i = k := by simp [setHeld]

lemma setHeld_of_ne (h : u ≠ t ∨ j ≠ i) (k : ℕ) : (s.setHeld t i k).held u j = s.held u j := by
  by_cases hu : u = t
  · subst hu
    have hj : j ≠ i := by tauto
    simp [setHeld, hj]
  · simp [setHeld, hu]

@[simp] lemma setHeld_entry (k : ℕ) : (s.setHeld t i k).entry = s.entry := rfl
@[simp] lemma setHeld_dinode (k : ℕ) : (s.setHeld t i k).dinode = s.dinode := rfl
@[simp] lemma setHeld_pc (k : ℕ) : (s.setHeld t i k).pc = s.pc := rfl

@[simp] lemma goto_self (p : Pc) : (s.goto t p).pc t = p := update_self ..

@[simp] lemma goto_of_ne (h : u ≠ t) (p : Pc) : (s.goto t p).pc u = s.pc u :=
  update_of_ne h ..

@[simp] lemma goto_entry (p : Pc) : (s.goto t p).entry = s.entry := rfl
@[simp] lemma goto_dinode (p : Pc) : (s.goto t p).dinode = s.dinode := rfl
@[simp] lemma goto_held (p : Pc) : (s.goto t p).held = s.held := rfl

end Fields

lemma find_eq_some {s : Icache n} {a : Ino} {i : InodeId} (h : s.find a = some i) :
    0 < (s.entry i).ref ∧ (s.entry i).ino = a := by
  simpa using List.find?_some h

lemma find_eq_none {s : Icache n} {a : Ino} (h : s.find a = none) (i : InodeId)
    (hi : 0 < (s.entry i).ref) : (s.entry i).ino ≠ a := by
  have := List.find?_eq_none.mp h i (List.mem_finRange i)
  simp only [decide_eq_true_eq, not_and] at this
  exact this hi

end Icache

/-- What `iget` can do. -/
inductive IgetTo (s : Icache n) (t : Tid n) (a : Ino) : Icache n → Prop where
  | found {i : InodeId} (href : 0 < (s.entry i).ref) (hino : (s.entry i).ino = a) :
      IgetTo s t a (s.addRef t i)
  | recycled {i : InodeId} (hnone : ∀ j, 0 < (s.entry j).ref → (s.entry j).ino ≠ a)
      (href : (s.entry i).ref = 0) : IgetTo s t a (s.recycle t i a)

variable {s' : Icache n}

lemma igetTo_of_iget {s : Icache n} {t : Tid n} {a : Ino} (h : s.iget t a = some s') :
    IgetTo s t a s' := by
  unfold Icache.iget at h
  split at h
  case h_1 i hfind =>
    cases h
    exact .found (Icache.find_eq_some hfind).1 (Icache.find_eq_some hfind).2
  case h_2 hfind =>
    obtain ⟨i, hempty, rfl⟩ := Option.map_eq_some_iff.mp h
    exact .recycled (Icache.find_eq_none hfind) (by simpa using List.find?_some hempty)

/-- The dinode of `a` that a step writes. -/
def written (a : Ino) (e : Icache n × IcacheAct n) : Option Dinode :=
  match e.2 with
  | .iupdate _ i => if (e.1.entry i).ino = a then some (e.1.entry i).din else none
  | .cont t =>
    match e.1.pc t with
    | .trunc i => if (e.1.entry i).ino = a then some (e.1.entry i).din.truncated else none
    | .free i =>
      if (e.1.entry i).ino = a then some { (e.1.entry i).din with type := .free } else none
    | .ialloc ty b => if b = a ∧ (e.1.dinode a).type = .free then some (.fresh ty) else none
    | _ => none
  | _ => none

/-- The steps that only take a process to another place. -/
inductive MoveTo (s : Icache n) (t : Tid n) : Pc → Prop where
  | ilock {i : InodeId} (hpc : s.pc t = .user) (hheld : 0 < s.held t i) : MoveTo s t (.ilock i)
  | iput {i : InodeId} (hpc : s.pc t = .user) (hheld : 0 < s.held t i) : MoveTo s t (.iput i)
  | ialloc {ty : InodeType} {a : Ino} (hpc : s.pc t = .user) (hty : ty ≠ .free) :
      MoveTo s t (.ialloc ty a)
  | loaded {i : InodeId} (hpc : s.pc t = .load i) (hv : (s.entry i).valid = true) :
      MoveTo s t .user
  | count {i : InodeId} (hpc : s.pc t = .test i) (hv : (s.entry i).valid = true)
      (hlink : (s.entry i).din.nlink = 0) : MoveTo s t (.count i)
  | keep {i : InodeId} (hpc : s.pc t = .test i ∨ s.pc t = .count i) :
      MoveTo s t (.release i false)
  | trunc {i : InodeId} (hpc : s.pc t = .count i) (href : (s.entry i).ref = 1) :
      MoveTo s t (.trunc i)
  | next {ty : InodeType} {a b : Ino} (hpc : s.pc t = .ialloc ty a) : MoveTo s t (.ialloc ty b)

/-- **All that a step can do.** -/
inductive IcacheTrans (s : Icache n) : IcacheAct n → Icache n → Prop where
  | iget {t : Tid n} {a : Ino} {s' : Icache n} (hpc : s.pc t = .user)
      (hok : s.Linked a ∨ s.Refers t a) (h : IgetTo s t a s') : IcacheTrans s (.iget t a) s'
  | idup {t : Tid n} {i : InodeId} (hpc : s.pc t = .user) (hheld : 0 < s.held t i) :
      IcacheTrans s (.idup t i) (s.addRef t i)
  | give {t u : Tid n} {i : InodeId} (hpc : s.pc t = .user) (hheld : 0 < s.held t i)
      (hlock : (s.entry i).lock ≠ some t) (hne : u ≠ t) :
      IcacheTrans s (.give t u i)
        ((s.setHeld t i (s.held t i - 1)).setHeld u i (s.held u i + 1))
  | move {a : IcacheAct n} {p : Pc} (h : MoveTo s a.actor p)
      (hw : ∀ b, written b (s, a) = none) : IcacheTrans s a (s.goto a.actor p)
  | lock {t : Tid n} {i : InodeId} {p : Pc}
      (hpc : s.pc t = .ilock i ∧ p = .load i ∨ s.pc t = .iput i ∧ p = .test i)
      (hlock : (s.entry i).lock = none) :
      IcacheTrans s (.cont t) ((s.setEntry i { s.entry i with lock := some t }).goto t p)
  | load {t : Tid n} {i : InodeId} (hpc : s.pc t = .load i)
      (htype : (s.dinode (s.entry i).ino).type ≠ .free) :
      IcacheTrans s (.cont t)
        ((s.setEntry i
          { s.entry i with din := s.dinode (s.entry i).ino, valid := true }).goto t .user)
  | iunlock {t : Tid n} {i : InodeId} (hl : s.Locks t i)
      (hd : (s.entry i).din = s.dinode (s.entry i).ino) :
      IcacheTrans s (.iunlock t i) (s.setEntry i { s.entry i with lock := none })
  | modify {t : Tid n} {i : InodeId} {d : Dinode} (hl : s.Locks t i) (hd : d.type ≠ .free) :
      IcacheTrans s (.modify t i d) (s.setEntry i { s.entry i with din := d })
  | iupdate {t : Tid n} {i : InodeId} (hl : s.Locks t i) :
      IcacheTrans s (.iupdate t i) (s.setDinode (s.entry i).ino (s.entry i).din)
  | trunc {t : Tid n} {i : InodeId} {d : Dinode} (hpc : s.pc t = .trunc i)
      (hd : d = (s.entry i).din.truncated) :
      IcacheTrans s (.cont t)
        (((s.setEntry i { s.entry i with din := d }).setDinode (s.entry i).ino d).goto t
          (.free i))
  | free {t : Tid n} {i : InodeId} {d : Dinode} (hpc : s.pc t = .free i)
      (hd : d = { (s.entry i).din with type := .free }) :
      IcacheTrans s (.cont t)
        (((s.setEntry i { s.entry i with din := d }).setDinode (s.entry i).ino d).goto t
          (.invalid i))
  | invalid {t : Tid n} {i : InodeId} (hpc : s.pc t = .invalid i) :
      IcacheTrans s (.cont t)
        ((s.setEntry i { s.entry i with valid := false }).goto t (.release i true))
  | release {t : Tid n} {i : InodeId} {f : Bool} (hpc : s.pc t = .release i f) :
      IcacheTrans s (.cont t)
        ((s.setEntry i { s.entry i with lock := none }).goto t (.drop i f))
  | drop {t : Tid n} {i : InodeId} {f : Bool} (hpc : s.pc t = .drop i f) :
      IcacheTrans s (.cont t)
        (((s.setEntry i { s.entry i with ref := (s.entry i).ref - 1 }).setHeld t i
          (s.held t i - 1)).goto t .user)
  | take {t : Tid n} {ty : InodeType} {a : Ino} (hpc : s.pc t = .ialloc ty a)
      (hfree : (s.dinode a).type = .free) :
      IcacheTrans s (.cont t) ((s.setDinode a (.fresh ty)).goto t (.fetch a))
  | fetch {t : Tid n} {a : Ino} {s' : Icache n} (hpc : s.pc t = .fetch a)
      (h : IgetTo s t a s') : IcacheTrans s (.cont t) (s'.goto t .user)

lemma icacheTrans_of_cont {ninodes : ℕ} {s : Icache n} {t : Tid n}
    (h : s.cont ninodes t = some s') : IcacheTrans s (.cont t) s' := by
  unfold Icache.cont at h
  split at h
  case h_1 => cases h
  case h_2 i hpc =>
    obtain ⟨hl, ⟨⟩⟩ := Option.ite_none_right_eq_some.mp h
    exact .lock (.inl ⟨hpc, rfl⟩) hl
  case h_3 i hpc =>
    split at h
    · cases h
      exact .move (a := .cont t) (.loaded hpc ‹_›) (by simp [written, hpc])
    · obtain ⟨htype, h⟩ := Option.ite_none_left_eq_some.mp h
      cases h
      exact .load hpc htype
  case h_4 i hpc =>
    obtain ⟨hl, ⟨⟩⟩ := Option.ite_none_right_eq_some.mp h
    exact .lock (.inr ⟨hpc, rfl⟩) hl
  case h_5 i hpc =>
    split at h
    · cases h
      rename_i hc
      exact .move (a := .cont t) (.count hpc hc.1 hc.2) (by simp [written, hpc])
    · cases h
      exact .move (a := .cont t) (.keep (.inl hpc)) (by simp [written, hpc])
  case h_6 i hpc =>
    split at h
    · cases h
      exact .move (a := .cont t) (.trunc hpc ‹_›) (by simp [written, hpc])
    · cases h
      exact .move (a := .cont t) (.keep (.inr hpc)) (by simp [written, hpc])
  case h_7 i hpc =>
    cases h
    exact .trunc hpc rfl
  case h_8 i hpc =>
    cases h
    exact .free hpc rfl
  case h_9 i hpc =>
    cases h
    exact .invalid hpc
  case h_10 i f hpc =>
    cases h
    exact .release hpc
  case h_11 i f hpc =>
    cases h
    exact .drop hpc
  case h_12 ty a hpc =>
    obtain ⟨-, h⟩ := Option.ite_none_left_eq_some.mp h
    split at h
    · cases h
      exact .take hpc ‹_›
    · cases h
      refine .move (a := .cont t) (.next hpc) fun b => ?_
      simp only [written, hpc, ite_eq_right_iff, reduceCtorEq, imp_false, not_and]
      rintro rfl
      assumption
  case h_13 a hpc =>
    obtain ⟨s₁, hget, rfl⟩ := Option.map_eq_some_iff.mp h
    exact .fetch hpc (igetTo_of_iget hget)

theorem icacheTrans_of_step {ninodes : ℕ} {s : Icache n} {a : IcacheAct n}
    (h : icacheStep ninodes s a = some s') : IcacheTrans s a s' := by
  cases a with
  | iget t b =>
    obtain ⟨⟨hpc, hok⟩, h⟩ := Option.ite_none_right_eq_some.mp h
    exact .iget hpc hok (igetTo_of_iget h)
  | idup t i =>
    obtain ⟨⟨hpc, hheld⟩, ⟨⟩⟩ := Option.ite_none_right_eq_some.mp h
    exact .idup hpc hheld
  | give t u i =>
    obtain ⟨⟨hpc, hheld, hlock, hne⟩, ⟨⟩⟩ := Option.ite_none_right_eq_some.mp h
    exact .give hpc hheld hlock hne
  | ilock t i =>
    obtain ⟨⟨hpc, hheld⟩, ⟨⟩⟩ := Option.ite_none_right_eq_some.mp h
    exact .move (a := .ilock t i) (.ilock hpc hheld) fun _ => rfl
  | iunlock t i =>
    obtain ⟨⟨hl, hd⟩, ⟨⟩⟩ := Option.ite_none_right_eq_some.mp h
    exact .iunlock hl hd
  | modify t i d =>
    obtain ⟨⟨hl, hd⟩, ⟨⟩⟩ := Option.ite_none_right_eq_some.mp h
    exact .modify hl hd
  | iupdate t i =>
    obtain ⟨hl, ⟨⟩⟩ := Option.ite_none_right_eq_some.mp h
    exact .iupdate hl
  | iput t i =>
    obtain ⟨⟨hpc, hheld⟩, ⟨⟩⟩ := Option.ite_none_right_eq_some.mp h
    exact .move (a := .iput t i) (.iput hpc hheld) fun _ => rfl
  | ialloc t dev ty =>
    obtain ⟨⟨hpc, hty⟩, ⟨⟩⟩ := Option.ite_none_right_eq_some.mp h
    exact .move (a := .ialloc t dev ty) (.ialloc hpc hty) fun _ => rfl
  | cont t => exact icacheTrans_of_cont h

end Xv6.Fs
