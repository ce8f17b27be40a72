import Xv6.Proc.Entry

/-!
The process tree: parents, orphans and zombies.

`Tree` says who is whose parent, also for the entries a `fork` has only begun to
fill in: these belong to the process that forks, and `fork` sets their parent
without the lock.  It follows that an exiting process has no child in the making,
so that passing its children to init leaves no process without a live parent.

* `Tree.moved`, `Tree.calm`: most steps change no parent and only move processes
  between the live states.
* `Tree.entry`: a `fork` or a `wait` changes one entry that is not live.
* `Tree.exit`: the step that re-parents, wakes and buries.
* `process_tree`: in every reachable state processes have live parents, `UNUSED`
  entries have none, and nobody sleeps in `wait` with a zombie child.
-/

namespace Xv6

open Ptable Transition Function

variable {k : ℕ} {s s' : Kernel k} {a : Act k} {t t' : Ptable} {co : Slot → Code}

/-- The points of `fork` at which the parent of the new entry is set. -/
def ForkAt.parentSet : ForkAt → Bool
  | .allocated | .stacked | .copied => false
  | .parented | .gidCopied | .ensured => true

/-- **The invariant of the process tree.**  `UNUSED` entries have no parent; an
`EMBRYO` belongs to a process inside `fork` and has it for its parent as soon as it
has one; init has no parent, the other processes have a live one, and not
themselves; and nobody sleeps on its own address with a zombie child. -/
structure Tree (t : Ptable) (co : Slot → Code) : Prop where
  unused : ∀ p, (t.proc p).state = .unused → (t.proc p).parent = none
  owned : ∀ p, (t.proc p).state = .embryo → ∃ q pt, co q = .fork pt p
  forking : ∀ q pt p, co q = .fork pt p →
    (t.proc p).parent = if pt.parentSet then some q else none
  root : ∀ i, t.initproc = some i → (t.proc i).parent = none
  noSelf : ∀ p, (t.proc p).parent ≠ some p
  parent : ∀ p, (t.proc p).Live ∨ (t.proc p).state = .zombie → t.initproc ≠ some p →
    ∃ q, (t.proc p).parent = some q ∧ (t.proc q).Live
  asleep : ∀ p z, (t.proc p).state = .sleeping → (t.proc p).chan = some (.proc p) →
    ¬ ZombieChild t p z

variable {p np : Slot}

namespace Tree

section

variable (h : Tree t co) (hi : t'.initproc = t.initproc)
  (hp : ∀ p, (t'.proc p).parent = (t.proc p).parent)
  (hst : ∀ p, (t'.proc p).state = (t.proc p).state ∨ (t.proc p).Live ∧ (t'.proc p).Live)

include h hi hp hst

/-- A step that changes no parent and keeps every process in its class of states,
while whoever sleeps on its own address has no zombie child. -/
lemma moved (hsl : ∀ p, (t'.proc p).state = .sleeping → (t'.proc p).chan = some (.proc p) →
      ∀ z, ¬ZombieChild t p z) : Tree t' co := by
  have hlive : ∀ {p}, (t'.proc p).Live ↔ (t.proc p).Live := by
    intro p
    rcases hst p with he | ⟨hl, hl'⟩
    · simp only [Proc.Live, he]
    · exact ⟨fun _ => hl, fun _ => hl'⟩
  -- a process that is not live now was in the same state before
  have hback : ∀ {p st}, st = .unused ∨ st = .embryo ∨ st = .zombie →
      (t'.proc p).state = st → (t.proc p).state = st := by
    intro p st hdead hs
    rcases hst p with he | ⟨_, hl⟩
    · rw [← he, hs]
    · rcases hdead with rfl | rfl | rfl <;> simp [Proc.Live, hs] at hl
  refine ⟨fun p hs => ?_, fun p hs => ?_, fun q pt p hq => ?_, fun i hi' => ?_, fun p => ?_,
    fun p hs hne => ?_, fun p z hs hch hz => ?_⟩
  · rw [hp]
    exact h.unused p (hback (by simp) hs)
  · exact h.owned p (hback (by simp) hs)
  · rw [hp]
    exact h.forking q pt p hq
  · rw [hp]
    exact h.root i (hi.symm.trans hi')
  · rw [hp]
    exact h.noSelf p
  · obtain ⟨q, hq, hql⟩ := h.parent p (hs.imp hlive.mp (hback (by simp))) (hi ▸ hne)
    exact ⟨q, (hp p).trans hq, hlive.mpr hql⟩
  · exact hsl p hs hch z ⟨(hp z).symm.trans hz.1, hback (by simp) hz.2⟩

/-- The same for a step that puts nobody to sleep. -/
lemma calm (hsl : ∀ p, (t'.proc p).state = .sleeping →
      (t.proc p).state = .sleeping ∧ (t'.proc p).chan = (t.proc p).chan) : Tree t' co := by
  refine h.moved hi hp hst fun p hs hch z => ?_
  obtain ⟨hs₀, hch₀⟩ := hsl p hs
  exact h.asleep p z hs₀ (hch₀.symm.trans hch)

end

/-- The same for a step that overwrites one entry. -/
lemma calmAt (h : Tree t co) {p : Slot} {x : Proc} (hp : x.parent = (t.proc p).parent)
    (hst : x.state = (t.proc p).state ∨ (t.proc p).Live ∧ x.Live)
    (hsl : x.state = .sleeping → (t.proc p).state = .sleeping ∧ x.chan = (t.proc p).chan) :
    Tree (t.setProc p x) co := by
  refine h.calm rfl (fun q => setProc_field Proc.parent hp q) (fun q => ?_) (fun q => ?_) <;>
    rw [setProc_proc] <;> split
  · rename_i hq; rw [hq]; exact hst
  · exact Or.inl rfl
  · rename_i hq; rw [hq]; exact hsl
  · exact fun hs => ⟨hs, rfl⟩

/-- The same for a step that leaves the process table alone. -/
lemma congr (h : Tree t co) (hi : t'.initproc = t.initproc) (hp : t'.proc = t.proc) :
    Tree t' co :=
  h.calm hi (fun p => by rw [hp]) (fun p => Or.inl (by rw [hp])) fun p hs => by
    rw [hp] at hs ⊢
    exact ⟨hs, rfl⟩

/-- A live process goes to sleep; if on its own address, without a zombie child. -/
lemma sleep (h : Tree t co) {p : Slot} {ch : Chan} (hp : (t.proc p).Live)
    (hz : ch = .proc p → ∀ z, ¬ ZombieChild t p z) : Tree (Xv6.sleep t p ch) co := by
  refine h.moved rfl (fun q => setProc_field Proc.parent (by rfl) q) (fun q => ?_)
    fun q hs hch => ?_
  · rw [Xv6.sleep, setProc_proc]
    split
    · rename_i hq
      rw [hq]
      exact Or.inr ⟨hp, Or.inl rfl⟩
    · exact Or.inl rfl
  · rw [Xv6.sleep, setProc_proc] at hs hch
    split at hch
    · rename_i hq
      subst hq
      exact hz (Option.some.inj hch)
    · rename_i hq
      rw [if_neg hq] at hs
      exact fun z => h.asleep q z hs hch

section

variable (h : Tree t co)

include h

/-- A `fork` moves on without touching its entry. -/
lemma goto {pt pt' : ForkAt} (hc : co p = .fork pt np) (hpt : pt'.parentSet = pt.parentSet) :
    Tree t (update co p (.fork pt' np)) := by
  refine ⟨h.unused, fun q hq => ?_, fun q pt₁ x hq => ?_, h.root, h.noSelf, h.parent, h.asleep⟩
  · obtain ⟨r, pt₀, hr⟩ := h.owned q hq
    rcases eq_or_ne r p with rfl | hrp
    · rw [hc] at hr
      cases hr
      exact ⟨r, pt', by rw [update_self]⟩
    · exact ⟨r, pt₀, by rw [update_of_ne hrp, hr]⟩
  · rcases eq_or_ne q p with rfl | hqp
    · rw [update_self] at hq
      cases hq
      rw [hpt]
      exact h.forking q pt np hc
    · rw [update_of_ne hqp] at hq
      exact h.forking q pt₁ x hq

/-- An `EMBRYO` that is not the one of `p` keeps its owner, whatever `p` does. -/
lemma owned_update {p x : Slot} {c : Code} (hx : (t.proc x).state = .embryo)
    (hp : ∀ pt, co p ≠ .fork pt x) : ∃ q pt, update co p c q = .fork pt x := by
  obtain ⟨q, pt, hq⟩ := h.owned x hx
  have hqp : q ≠ p := by
    rintro rfl
    exact hp pt hq
  exact ⟨q, pt, by rw [update_of_ne hqp, hq]⟩

/-- The entry `z`, which is not live, is given back, taken by a `fork` or made
`RUNNABLE` with a live parent. -/
lemma entry {z : Slot} {co' : Slot → Code} (hi : t'.initproc = t.initproc)
    (hother : ∀ q, q ≠ z → t'.proc q = t.proc q) (hz : ¬(t.proc z).Live) (hnew : (t'.proc z).state
      = .unused ∧ (t'.proc z).parent = none ∨ (t'.proc z).state = .embryo ∧ (∃ q pt, co' q = .fork
      pt z) ∨ (t'.proc z).state = .runnable ∧ ∃ q, (t'.proc z).parent = some q ∧ (t.proc q).Live)
    (hself : (t'.proc z).parent ≠ some z)
    (hroot : t.initproc = some z → (t'.proc z).parent = none)
    (howned : ∀ q, q ≠ z → (t.proc q).state = .embryo → ∃ r pt, co' r = .fork pt q) (hfork : ∀ q
      pt p, co' q = .fork pt p → (t'.proc p).parent = if pt.parentSet then some q else none) :
    Tree t' co' := by
  have hlive : ∀ {q}, (t.proc q).Live → (t'.proc q).Live := by
    intro q hq
    rw [hother q]
    · exact hq
    · rintro rfl
      exact hz hq
  refine ⟨fun q hs => ?_, fun q hs => ?_, hfork, fun i hi' => ?_, fun q => ?_,
    fun q hs hne => ?_, fun q w hs hch hw => ?_⟩
  · rcases eq_or_ne q z with rfl | hqz
    · rcases hnew with ⟨_, hpar⟩ | ⟨he, _⟩ | ⟨he, _⟩
      · exact hpar
      · simp [hs] at he
      · simp [hs] at he
    · rw [hother q hqz] at hs ⊢
      exact h.unused q hs
  · rcases eq_or_ne q z with rfl | hqz
    · rcases hnew with ⟨he, _⟩ | ⟨_, hown⟩ | ⟨he, _⟩
      · simp [hs] at he
      · exact hown
      · simp [hs] at he
    · rw [hother q hqz] at hs
      exact howned q hqz hs
  · rcases eq_or_ne i z with rfl | hiz
    · exact hroot (hi.symm.trans hi')
    · rw [hother i hiz]
      exact h.root i (hi.symm.trans hi')
  · rcases eq_or_ne q z with rfl | hqz
    · exact hself
    · rw [hother q hqz]
      exact h.noSelf q
  · rcases eq_or_ne q z with rfl | hqz
    · rcases hnew with ⟨he, _⟩ | ⟨he, _⟩ | ⟨_, r, hr, hrl⟩
      · simp [Proc.Live, he] at hs
      · simp [Proc.Live, he] at hs
      · exact ⟨r, hr, hlive hrl⟩
    · rw [hother q hqz] at hs ⊢
      obtain ⟨r, hr, hrl⟩ := h.parent q hs (hi ▸ hne)
      exact ⟨r, hr, hlive hrl⟩
  · -- neither the sleeper nor the zombie is the entry
    have hqz : q ≠ z := by
      rintro rfl
      rcases hnew with ⟨he, _⟩ | ⟨he, _⟩ | ⟨he, _⟩ <;> simp [hs] at he
    have hwz : w ≠ z := by
      rintro rfl
      rcases hnew with ⟨he, _⟩ | ⟨he, _⟩ | ⟨he, _⟩ <;> simp [hw.2] at he
    rw [hother q hqz] at hs hch
    refine h.asleep q w hs hch ?_
    rw [ZombieChild, hother w hwz] at hw
    exact hw

/-- A process that was not forking takes an `UNUSED` entry. -/
lemma alloc (hi : t'.initproc = t.initproc) (hc : co p = .user)
    (hnp : (t.proc np).state = .unused) (hno : ∀ q pt, co q ≠ .fork pt np)
    (hother : ∀ q, q ≠ np → t'.proc q = t.proc q) (hst : (t'.proc np).state = .embryo)
    (hpar : (t'.proc np).parent = (t.proc np).parent) :
    Tree t' (update co p (.fork .allocated np)) := by
  have hnone : (t'.proc np).parent = none := hpar.trans (h.unused np hnp)
  refine h.entry hi hother (by simp [Proc.Live, hnp]) (Or.inr (Or.inl ⟨hst, p, .allocated, ?_⟩))
    (by simp [hnone]) (fun _ => hnone) (fun q _ hq => h.owned_update hq (by simp [hc]))
    fun q pt x hq => ?_
  · rw [update_self]
  · rcases eq_or_ne q p with rfl | hqp
    · rw [update_self] at hq
      cases hq
      exact hnone
    · rw [update_of_ne hqp] at hq
      have hx : x ≠ np := by
        rintro rfl
        exact hno q pt hq
      rw [hother x hx]
      exact h.forking q pt x hq

/-- The `fork`s under way after that of `p` has ended. -/
lemma forking_user {p : Slot} (hpar : ∀ q, (t'.proc q).parent = (t.proc q).parent) (q : Slot)
    (pt : ForkAt) (x : Slot) (hq : update co p .user q = .fork pt x) :
    (t'.proc x).parent = if pt.parentSet then some q else none := by
  have hqp : q ≠ p := by
    rintro rfl
    simp at hq
  rw [update_of_ne hqp] at hq
  rw [hpar]
  exact h.forking q pt x hq

/-- A `fork` gives its entry back, with no parent yet. -/
lemma fail {pt : ForkAt} (hc : co p = .fork pt np) (hnp : (t.proc np).state = .embryo)
    (hpt : pt.parentSet = false) : Tree (forkFail t np) (update co p .user) := by
  have hpar : ∀ q, ((forkFail t np).proc q).parent = (t.proc q).parent :=
    fun q => setProc_field Proc.parent (by rfl) q
  have hnone : ((forkFail t np).proc np).parent = none := by
    rw [hpar, h.forking p pt np hc, hpt]
    rfl
  refine h.entry rfl (fun q hq => ?_) (by simp [Proc.Live, hnp])
    (Or.inl ⟨by simp [forkFail], hnone⟩) (by simp [hnone]) (fun _ => hnone)
    (fun q hq hemb => h.owned_update hemb (by simp [hc, Ne.symm hq])) (h.forking_user hpar)
  rw [forkFail, setProc_proc, if_neg hq]

/-- A `fork` sets the parent of its entry. -/
lemma adopt (hc : co p = .fork .copied np) (hp : (t.proc p).Live) (hi : t.initproc ≠ some np)
    (hnp : (t.proc np).state = .embryo) (hinj : ∀ q pt, co q = .fork pt np → q = p) :
    Tree (forkParent t p np) (update co p (.fork .parented np)) := by
  have hne : p ≠ np := by
    rintro rfl
    simp [Proc.Live, hnp] at hp
  have hself : ((forkParent t p np).proc np).parent = some p := by simp [forkParent]
  have hother : ∀ q, q ≠ np → (forkParent t p np).proc q = t.proc q := fun q hq => by
    rw [forkParent, setProc_proc, if_neg hq]
  refine h.entry rfl hother (by simp [Proc.Live, hnp])
    (Or.inr (Or.inl ⟨by simpa [forkParent] using hnp, p, .parented, ?_⟩)) (by simp [hself, hne])
    (fun hi' => absurd hi' hi) (fun q hq hemb => h.owned_update hemb (by simp [hc, Ne.symm hq]))
    fun q pt x hq => ?_
  · rw [update_self]
  · rcases eq_or_ne q p with rfl | hqp
    · rw [update_self] at hq
      cases hq
      exact hself
    · rw [update_of_ne hqp] at hq
      have hx : x ≠ np := by
        rintro rfl
        exact hqp (hinj q pt hq)
      rw [hother x hx]
      exact h.forking q pt x hq

/-- A `fork` makes its entry `RUNNABLE`; the parent is the process that forks. -/
lemma born (hc : co p = .fork .ensured np) (hp : (t.proc p).Live)
    (hnp : (t.proc np).state = .embryo) : Tree (forkRunnable t np) (update co p .user) := by
  have hpar : ∀ q, ((forkRunnable t np).proc q).parent = (t.proc q).parent :=
    fun q => setProc_field Proc.parent (by rfl) q
  refine h.entry rfl (fun q hq => ?_) (by simp [Proc.Live, hnp])
    (Or.inr (Or.inr ⟨by simp [forkRunnable], p, ?_, hp⟩)) ?_
    (fun hi => (hpar np).trans (h.root np hi))
    (fun q hq hemb => h.owned_update hemb (by simp [hc, Ne.symm hq])) (h.forking_user hpar)
  · rw [forkRunnable, setProc_proc, if_neg hq]
  · rw [hpar, h.forking p _ np hc]
    rfl
  · rw [hpar]
    exact h.noSelf np

/-- A zombie is reaped. -/
lemma reap {z : Slot} {x : Proc} (hz : (t.proc z).state = .zombie)
    (hno : ∀ q pt, co q ≠ .fork pt z) (hx : x.state = .unused) (hpar : x.parent = none) :
    Tree (t.setProc z x) co := by
  have hother : ∀ q, q ≠ z → (t.setProc z x).proc q = t.proc q := fun q hq => by
    rw [setProc_proc, if_neg hq]
  refine h.entry rfl hother (by simp [Proc.Live, hz]) (Or.inl (by simp [hx, hpar]))
    (by simp [hpar]) (by simp [hpar]) (fun q _ hq => h.owned q hq) fun q pt y hq => ?_
  have hy : y ≠ z := by
    rintro rfl
    exact hno q pt hq
  rw [hother y hy]
  exact h.forking q pt y hq

end

/-- **A process exits.**  Its parent and, if a zombie is passed on, init are woken;
its children, none of which is in the making, get init for their parent. -/
lemma exit (h : Tree t co) {p i : Slot} (hc : co p = .user) (hp : (t.proc p).Live)
    (hi : t.initproc = some i) (hip : i ≠ p) (hil : (t.proc i).Live) : Tree (Xv6.exit t p) co := by
  -- a live process other than the one that exits stays live
  have hwoken : ∀ q, q ≠ p → (t.proc q).Woken ((Xv6.exit t p).proc q) := by
    intro q hq
    rw [exit_proc]
    exact exitState_ne hq
  have hlive : ∀ q, q ≠ p → (t.proc q).Live → ((Xv6.exit t p).proc q).Live :=
    fun q hq => (hwoken q hq).live
  have hback : ∀ q, q ≠ p → ∀ st, st ≠ .runnable → exitState t p q = st →
      (t.proc q).state = st := by
    intro q hq st hst hes
    refine (hwoken q hq).back hst ?_
    rw [exit_proc, hes]
  refine ⟨?_, ?_, ?_, ?_, ?_, ?_, ?_⟩
  · intro q hq
    rw [exit_proc] at hq ⊢
    have hqp : q ≠ p := by
      rintro rfl
      simp [exitState_self] at hq
    have hpar := h.unused q (hback q hqp _ (by simp) hq)
    simp [hpar]
  · intro q hq
    rw [exit_proc] at hq
    have hqp : q ≠ p := by
      rintro rfl
      simp [exitState_self] at hq
    exact h.owned q (hback q hqp _ (by simp) hq)
  · intro q pt r hq
    have hqp : q ≠ p := by
      rintro rfl
      simp [hc] at hq
    have hpar := h.forking q pt r hq
    have hne : (t.proc r).parent ≠ some p := by
      rw [hpar]
      split <;> simp [hqp]
    rw [exit_proc, if_neg hne, hpar]
  · intro j hj
    rw [(exit_frame t p).1] at hj
    have hpar := h.root j hj
    rw [exit_proc]
    simp [hpar]
  · intro q
    rw [exit_proc]
    split
    · rename_i hq
      rw [hi]
      rintro hqi
      obtain rfl := Option.some.inj hqi
      simp [h.root i hi] at hq
    · exact h.noSelf q
  · intro q hq hqi
    rw [(exit_frame t p).1] at hqi
    by_cases hqp : q = p
    · subst hqp
      obtain ⟨r, hr, hrl⟩ := h.parent q (Or.inl hp) hqi
      have hrq : r ≠ q := by
        rintro rfl
        exact h.noSelf r hr
      refine ⟨r, ?_, hlive r hrq hrl⟩
      rw [exit_proc, if_neg (by rw [hr]; simpa using hrq), hr]
    · have hold : (t.proc q).Live ∨ (t.proc q).state = .zombie := by
        rw [exit_proc] at hq
        rcases exitState_ne (t := t) hqp with he | ⟨he, _⟩
        · simpa only [Proc.Live, he] using hq
        · exact Or.inl (Or.inl he)
      obtain ⟨r, hr, hrl⟩ := h.parent q hold hqi
      rw [exit_proc]
      by_cases hrp : r = p
      · subst hrp
        exact ⟨i, by simp [hr, hi], hlive i hip hil⟩
      · exact ⟨r, by simp [hr, hrp], hlive r hrp hrl⟩
  · rintro q z hq hch ⟨hzp, hzs⟩
    rw [exit_proc] at hq hch hzp hzs
    obtain ⟨hqs, hqpar, hqi⟩ := exitState_sleeping hq
    simp only at hch hzp hzs
    rw [hch] at hqpar hqi
    by_cases hz : (t.proc z).parent = some p
    · -- `z` was passed to init, and so its zombie has woken init
      rw [if_pos hz] at hzp
      have hzne : z ≠ p := by
        rintro rfl
        exact h.noSelf z hz
      exact hqi z ⟨hz, hback z hzne _ (by simp) hzs⟩ (by simp [hzp])
    · rw [if_neg hz] at hzp
      by_cases hzne : z = p
      · subst hzne
        exact hqpar (by simp [hzp])
      · exact h.asleep q z hqs hch ⟨hzp, hback z hzne _ (by simp) hzs⟩

/-- At boot there is no process. -/
lemma boot (k : ℕ) : Tree (boot k).mem (boot k).code := by
  constructor <;> simp [Xv6.boot, pinit, fssInitGroups, setGroup, Proc.zero, Proc.Live]

/-- The first process is created in an empty table. -/
lemma userinit (h : Tree t co) (hun : ∀ p, (t.proc p).state = .unused)
    (hco : ∀ q pt p, co q ≠ .fork pt p) : Tree (userinit t) co := by
  rcases userinit_cases t with ⟨hu, _⟩ | ⟨p, _, _, hproc, hi, _⟩
  · rw [hu]; exact h
  · have hpar : ∀ q, ((Xv6.userinit t).proc q).parent = none := by
      intro q
      rw [hproc]
      split
      · exact h.unused p (hun p)
      · exact h.unused q (hun q)
    -- init is the only process
    have hst : ∀ q, q ≠ p → ((Xv6.userinit t).proc q).state = .unused := fun q hq => by
      rw [hproc, if_neg hq, hun]
    have hself : ((Xv6.userinit t).proc p).state = .runnable := by rw [hproc, if_pos rfl]
    refine ⟨fun q _ => hpar q, fun q hq => ?_, fun q pt x hq => absurd hq (hco q pt x),
      fun i _ => hpar i, fun q => by simp [hpar], fun q hq hne => ?_,
      fun q z _ _ hz => by simp [ZombieChild, hpar] at hz⟩
    · rcases eq_or_ne q p with rfl | hqp
      · simp [hself] at hq
      · simp [hst q hqp] at hq
    · have hqp : q ≠ p := by
        rintro rfl
        exact hne hi
      simp [Proc.Live, hst q hqp] at hq

/-- The memory a pass of `wait` works on. -/
lemma waitFrom (h : Tree s.mem s.code) (hw : Wf s) {c : Fin k} {p : Slot} {m : Ptable}
    (hwf : WaitFrom s c p a m) :
    Tree m s.code ∧ (m.proc p).state = .running
      ∧ ∀ q, (m.proc q).state = (s.mem.proc q).state := by
  obtain ⟨ch, rfl, hrun⟩ := hw.waitFrom_mem hwf
  refine ⟨h.calmAt rfl (Or.inl rfl) fun hs => ?_, by simpa using hrun,
    fun q => setProc_field Proc.state (by rfl) q⟩
  simp [hrun] at hs

/-- **Every step keeps the invariant.** -/
theorem step (h : Tree s.mem s.code) (hw : Wf s) (ht : Trans s a s') : Tree s'.mem s'.code := by
  have hcpu : ∀ {c p}, s.lock = .free → (s.cpu c).proc = some p →
      (s.mem.proc p).state = .running :=
    fun {c p} hl hp => hw.onCpu c p hp (by simp [hl])
  cases ht with
  | userinit _ hn =>
    refine h.userinit (hw.noInit hn) fun q pt p hq => ?_
    have hemb := (hw.forking q pt p hq).2
    rw [hw.noInit hn p] at hemb
    simp at hemb
  | idle => exact h
  | emptyGroup _ _ _ hp => rw [(fssPickProcInGroup_none hp).1]; exact h
  | @dispatch c g p t _ _ _ hp =>
    obtain ⟨ht, hr, _⟩ := fssPickProcInGroup_some hp
    have hcur : Tree t s.code := h.congr (by rw [ht]; rfl) (by rw [ht]; rfl)
    refine hcur.calmAt rfl (Or.inr ⟨Or.inr (Or.inl ?_), Or.inr (Or.inr rfl)⟩) (by simp)
    rw [ht]
    exact hr
  | resume => exact h
  | @resumeSleep c p hl hp _ =>
    have hrun := hw.onCpu c p hp (by simp [hl])
    exact h.calmAt rfl (Or.inl rfl) fun hs => by simp [hrun] at hs
  | @waitReap a c p m z x hwf hz hx =>
    obtain ⟨hm, _, hst⟩ := h.waitFrom hw hwf
    have hzs := (waitPass_reap hz).2
    refine hm.reap hzs (fun q pt hq => ?_) ?_ ?_
    · have hemb := (hw.forking q pt z hq).2
      rw [← hst, hzs] at hemb
      simp at hemb
    · rcases hx with rfl | rfl <;> rfl
    · rcases hx with rfl | rfl <;> rfl
  | waitFail hwf _ => exact (h.waitFrom hw hwf).1
  | waitSleep hwf hs _ =>
    obtain ⟨hm, hrun, _⟩ := h.waitFrom hw hwf
    exact hm.sleep (Or.inr (Or.inr hrun)) fun _ z => waitPass_sleep hs z
  | ret => exact h.congr rfl rfl
  | yield hl hp =>
    exact h.calmAt rfl (Or.inr ⟨Or.inr (Or.inr (hcpu hl hp)), Or.inr (Or.inl rfl)⟩) (by simp)
  | sleep hl hp _ => exact h.sleep (Or.inr (Or.inr (hcpu hl hp))) (by simp)
  | @exit c p hl hp hu hne =>
    cases hi : s.mem.initproc with
    | none =>
      have hrun := hcpu hl hp
      rw [hw.noInit hi p] at hrun
      simp at hrun
    | some i =>
      refine h.exit hu (Or.inr (Or.inr (hcpu hl hp))) hi ?_ (hw.initLive i hi)
      rintro rfl
      exact hne hi
  | forkFull => exact h
  | @forkAlloc c p ok np t hl hp hu ha =>
    obtain ⟨hnp, hproc, hi, _⟩ := allocproc_some ha
    suffices hnew : Tree t (update s.code p (.fork .allocated _)) from hnew
    refine h.alloc hi hu hnp (fun q pt hq => ?_) (fun q hq => ?_) ?_ ?_
    · have hemb := (hw.forking q pt _ hq).2
      rw [hnp] at hemb
      simp at hemb
    · rw [hproc, if_neg hq]
    · rw [hproc, if_pos rfl]; rfl
    · rw [hproc, if_pos rfl]; rfl
  | forkStack _ hc | forkCopy _ hc => exact h.goto hc rfl
  | forkFail _ hc hpt =>
    refine h.fail hc (hw.forking _ _ _ hc).2 ?_
    rcases hpt with rfl | rfl <;> rfl
  | @forkParent c p ok np _ hc =>
    obtain ⟨hlive, hemb⟩ := hw.forking _ _ _ hc
    refine h.adopt hc hlive (fun hi => ?_) hemb fun q pt hq => hw.forkInj _ _ _ _ _ hq hc
    rcases hw.initLive np hi with h' | h' | h' <;> simp [hemb] at h'
  | @forkGid c p ok np _ hc =>
    have hgid : Tree (Xv6.forkGid s.mem p np) s.code :=
      h.calmAt rfl (Or.inl rfl) fun hs => ⟨hs, rfl⟩
    exact hgid.goto hc rfl
  | @forkEnsure c p ok np _ hc =>
    have hens : Tree (Xv6.forkEnsure s.mem np) s.code :=
      h.congr (by simp [Xv6.forkEnsure]) (by simp [Xv6.forkEnsure])
    exact hens.goto hc rfl
  | forkRunnable _ _ hc =>
    obtain ⟨hlive, hemb⟩ := hw.forking _ _ _ hc
    exact h.born hc hlive hemb
  | @kill c p pid =>
    rcases kill_cases s.mem pid with ⟨hk, _⟩ | ⟨q, _, _, hk⟩
    · rw [hk]; exact h
    · rw [hk]
      by_cases hs : (s.mem.proc q).state = .sleeping
      · refine h.calmAt rfl (Or.inr ⟨Or.inl hs, Or.inr (Or.inl ?_)⟩) ?_ <;> simp [hs]
      · refine h.calmAt rfl (Or.inl ?_) ?_ <;> simp [hs]
  | trap _ _ => exact h.calmAt rfl (Or.inl rfl) fun hs => ⟨hs, rfl⟩
  | @setgroup c p pid gid =>
    have hens : Tree (fssGroupEnsure s.mem gid).1 s.code := h.congr (by simp) (by simp)
    rcases setgroupK_cases s.mem pid gid with hg | ⟨_, _, hg⟩ | ⟨_, _, q, _, _, hg⟩
    · rw [hg]; exact h
    · rw [hg]; exact hens
    · rw [hg]
      exact hens.calmAt (by simp) (Or.inl (by simp)) (by simp)
  | wakeup _ =>
    refine h.calm rfl (fun _ => rfl) (fun q => ?_) fun q hs => ?_
    · simp only [wakeup1, mapProc_proc, Proc.wake]
      split
      · rename_i hs; exact Or.inr ⟨Or.inl hs.1, Or.inr (Or.inl rfl)⟩
      · exact Or.inl rfl
    · refine ⟨?_, rfl⟩
      simp only [wakeup1, mapProc_proc, Proc.wake] at hs
      split at hs
      · simp at hs
      · exact hs
  | tick _ =>
    refine h.calm rfl (fun q => ?_) (fun q => Or.inl ?_) fun q => ?_ <;>
      rw [tickAccounting, mapProc_proc, Proc.tick_eq]
    exact fun hs => ⟨hs, rfl⟩

end Tree

/-- The process tree in every reachable state. -/
lemma tree_of_reachable (h : Reachable step (boot k) s) : Tree s.mem s.code :=
  (h.invariant (I := fun s => Tree s.mem s.code ∧ Wf s) ⟨Tree.boot k, Wf.boot k⟩
    fun _ _ _ hI ha => ⟨hI.1.step hI.2 (trans_of_step ha), hI.2.step (trans_of_step ha)⟩).1

/-- **The process tree.**  In every reachable state each process that is `SLEEPING`,
`RUNNABLE`, `RUNNING` or `ZOMBIE`, other than init, has a parent that is neither
`UNUSED`, `EMBRYO` nor `ZOMBIE`; `UNUSED` entries have no parent; and no process
sleeps on its own address while one of its children is a `ZOMBIE`. -/
theorem process_tree (h : Reachable step (boot k) s) :
    (∀ p, (s.mem.proc p).state = .sleeping ∨ (s.mem.proc p).state = .runnable
        ∨ (s.mem.proc p).state = .running ∨ (s.mem.proc p).state = .zombie →
      s.mem.initproc ≠ some p →
      ∃ q, (s.mem.proc p).parent = some q ∧ (s.mem.proc q).state ≠ .unused
        ∧ (s.mem.proc q).state ≠ .embryo ∧ (s.mem.proc q).state ≠ .zombie)
      ∧ (∀ p, (s.mem.proc p).state = .unused → (s.mem.proc p).parent = none)
      ∧ ∀ p, (s.mem.proc p).state = .sleeping → (s.mem.proc p).chan = some (.proc p) →
        ∀ z, (s.mem.proc z).parent = some p → (s.mem.proc z).state ≠ .zombie := by
  have ht := tree_of_reachable h
  refine ⟨fun p hp hi => ?_, ht.unused, fun p hs hc z hz hzs => ht.asleep p z hs hc ⟨hz, hzs⟩⟩
  obtain ⟨q, hq, hlive⟩ := ht.parent p (by simp only [Proc.Live]; tauto) hi
  refine ⟨q, hq, ?_⟩
  rcases hlive with hl | hl | hl <;> simp [hl]

theorem process_tree_twoCpus :
    ∃ s, exec step (boot 2) twoCpus = some s
      ∧ ∃ q, (s.mem.proc 1).parent = some q ∧ (s.mem.proc q).state ≠ .zombie := by
  obtain ⟨s, hs, _, _, h1, _, hi⟩ := exec_twoCpus
  obtain ⟨q, hq, _, _, hz⟩ := (process_tree ⟨_, run_traceOf hs⟩).1 1 (by simp [h1]) (by simp [hi])
  exact ⟨s, hs, q, hq, hz⟩

end Xv6
