import Xv6.Proc.Kernel

/-!
The process table as a state machine.

`Wf` is the invariant that the other results about processes start from: which
states go with being some CPU's current process, on which side of the `swtch`
the lock is held, and who is in the middle of a `fork`.  A step changes states in
few ways, so it is proved from one lemma for each way: `Wf.woken` (sleepers made
`RUNNABLE`), `Wf.sched` (a process leaves its CPU), `Wf.release`, `Wf.goto` (a
`fork` moves on), `Wf.entry` (an entry that no CPU runs is taken or given back),
`Wf.dispatch`, `Wf.ret` and `Wf.userinit`.

* `Proc.Woken`: what the other processes see of a step, at most a wakeup.
* `wf_of_reachable`: the invariant holds in every reachable state.
-/

namespace Xv6

open Ptable Transition Function

variable {k : ℕ} {s s' : Kernel k}

/-- A process that is `SLEEPING`, `RUNNABLE` or `RUNNING`. -/
def Proc.Live (x : Proc) : Prop :=
  x.state = .sleeping ∨ x.state = .runnable ∨ x.state = .running

/-- The state of `y` is that of `x`, or `x` was asleep and `y` is `RUNNABLE`. -/
def Proc.Woken (x y : Proc) : Prop :=
  y.state = x.state ∨ x.state = .sleeping ∧ y.state = .runnable

namespace Proc.Woken

variable {x y : Proc} {st : ProcState}

lemma live (h : x.Woken y) (hx : x.Live) : y.Live := by
  rcases h with he | ⟨_, he⟩
  · simpa only [Live, he] using hx
  · exact Or.inr (Or.inl he)

/-- Only sleepers change their state. -/
lemma keep (h : x.Woken y) (hst : st ≠ .sleeping) (hx : x.state = st) : y.state = st := by
  rcases h with he | ⟨hs, _⟩
  · rw [he, hx]
  · exact absurd (hx.symm.trans hs) hst

/-- Nobody gets another state than `RUNNABLE`. -/
lemma back (h : x.Woken y) (hst : st ≠ .runnable) (hy : y.state = st) : x.state = st := by
  rcases h with he | ⟨_, hr⟩
  · rw [← he, hy]
  · exact absurd (hy.symm.trans hr) hst

end Proc.Woken

/-- **The invariant of the process table.**  A CPU's current process is `RUNNING`
until it has switched back to the scheduler, no two CPUs have the same one, a
`RUNNING` process is on a CPU; a process inside `fork` is live and owns an
`EMBRYO` that no other process owns; init, once created, is live. -/
structure Wf (s : Kernel k) : Prop where
  onCpu : ∀ c p, (s.cpu c).proc = some p → s.lock ≠ .atSched c → (s.mem.proc p).state = .running
  offCpu : ∀ c p, (s.cpu c).proc = some p → s.lock = .atSched c →
    (s.mem.proc p).state = .sleeping ∨ (s.mem.proc p).state = .runnable
      ∨ (s.mem.proc p).state = .zombie
  running : ∀ p, (s.mem.proc p).state = .running → ∃ c, (s.cpu c).proc = some p
  cpuInj : ∀ c c' p, (s.cpu c).proc = some p → (s.cpu c').proc = some p → c = c'
  forking : ∀ p pt np, s.code p = .fork pt np →
    (s.mem.proc p).Live ∧ (s.mem.proc np).state = .embryo
  forkInj : ∀ p p' pt pt' np, s.code p = .fork pt np → s.code p' = .fork pt' np → p = p'
  initLive : ∀ i, s.mem.initproc = some i → (s.mem.proc i).Live
  noInit : s.mem.initproc = none → ∀ p, (s.mem.proc p).state = .unused

variable {c : Fin k} {t : Ptable} {p : Slot}

namespace Wf

/-- At boot there is no process. -/
lemma boot (k : ℕ) : Wf (boot k) := by
  constructor <;> simp [Xv6.boot, pinit, fssInitGroups, setGroup, Proc.zero]

variable (h : Wf s)

include h

/-- Saved contexts do not matter. -/
lemma withCtx (cx : Slot → Ctx) : Wf { s with ctx := cx } :=
  ⟨h.onCpu, h.offCpu, h.running, h.cpuInj, h.forking, h.forkInj, h.initLive, h.noInit⟩

/-- A step that changes no state, or only makes sleepers `RUNNABLE`. -/
lemma woken (hst : ∀ p, (s.mem.proc p).Woken (t.proc p)) (hi : t.initproc = s.mem.initproc) :
    Wf { s with mem := t } where
  onCpu c p hp hl := (hst p).keep (by simp) (h.onCpu c p hp hl)
  offCpu c p hp hl := by
    rcases hst p with he | ⟨_, he⟩
    · rw [he]
      exact h.offCpu c p hp hl
    · exact Or.inr (Or.inl he)
  running p hp := h.running p ((hst p).back (by simp) hp)
  cpuInj := h.cpuInj
  forking p pt np hc := by
    obtain ⟨hlive, hemb⟩ := h.forking p pt np hc
    exact ⟨(hst p).live hlive, (hst np).keep (by simp) hemb⟩
  forkInj := h.forkInj
  initLive i hi' := (hst i).live (h.initLive i (hi.symm.trans hi'))
  noInit hn p := (hst p).keep (by simp) (h.noInit (hi.symm.trans hn) p)

/-- The process just switched to releases the lock. -/
lemma release (hl : s.lock = .atProc c) : Wf { s with lock := .free } where
  onCpu c' p hp _ := h.onCpu c' p hp (by simp [hl])
  offCpu _ _ _ hl' := by cases hl'
  running := h.running
  cpuInj := h.cpuInj
  forking := h.forking
  forkInj := h.forkInj
  initLive := h.initLive
  noInit := h.noInit

/-- There are processes only after init has been created. -/
lemma initproc_ne_none {st : ProcState} (hp : (s.mem.proc p).state = st) (hst : st ≠ .unused) :
    s.mem.initproc ≠ none :=
  fun hn => hst (hp.symm.trans (h.noInit hn p))

/-- A process leaves its CPU `c`: its state is now `RUNNABLE`, `SLEEPING` or
`ZOMBIE`, and other sleepers may have been woken. -/
lemma sched (hp : (s.cpu c).proc = some p) (hl : s.lock = .free ∨ s.lock = .atProc c) (hst :
      (t.proc p).state = .sleeping ∨ (t.proc p).state = .runnable ∨ (t.proc p).state = .zombie ∧
      s.code p = .user ∧ s.mem.initproc ≠ some p)
    (hother : ∀ q, q ≠ p → (s.mem.proc q).Woken (t.proc q)) (hi : t.initproc = s.mem.initproc)
    (cx : Ctx) : Wf (s.sched c p cx t) := by
  have hnot : ∀ c', s.lock ≠ .atSched c' := by
    rcases hl with hl | hl <;> simp [hl]
  have hrun : (s.mem.proc p).state = .running := h.onCpu c p hp (hnot c)
  -- the process is live afterwards unless it exits, outside `fork` and not being init
  have hlive : (s.code p = .user → s.mem.initproc = some p) → (t.proc p).Live := by
    intro hne
    rcases hst with hs | hs | ⟨_, hu, hip⟩
    · exact Or.inl hs
    · exact Or.inr (Or.inl hs)
    · exact absurd (hne hu) hip
  refine ⟨fun c' q hq hl' => ?_, fun c' q hq hl' => ?_, fun q hq => ?_, h.cpuInj,
    fun q pt np hc => ?_, h.forkInj, fun i hi' => ?_, fun hn => ?_⟩
  · have hqp : q ≠ p := by
      rintro rfl
      exact hl' (congrArg Lock.atSched (h.cpuInj c c' q hp hq))
    exact (hother q hqp).keep (by simp) (h.onCpu c' q hq (hnot c'))
  · obtain rfl : c = c' := Lock.atSched.inj hl'
    obtain rfl : p = q := Option.some.inj (hp.symm.trans hq)
    exact hst.imp id (Or.imp id And.left)
  · have hqp : q ≠ p := by
      rintro rfl
      rcases hst with hs | hs | ⟨hs, _⟩ <;> exact absurd (hq.symm.trans hs) (by simp)
    exact h.running q ((hother q hqp).back (by simp) hq)
  · obtain ⟨hql, hemb⟩ := h.forking q pt np hc
    have hnp : np ≠ p := by
      rintro rfl
      simp [hrun] at hemb
    refine ⟨?_, (hother np hnp).keep (by simp) hemb⟩
    rcases eq_or_ne q p with rfl | hqp
    · exact hlive fun hu => by
        rw [show s.code q = _ from hc] at hu
        cases hu
    · exact (hother q hqp).live hql
  · have hi₀ : s.mem.initproc = some i := hi.symm.trans hi'
    rcases eq_or_ne i p with rfl | hip
    · exact hlive fun _ => hi₀
    · exact (hother i hip).live (h.initLive i hi₀)
  · exact absurd (hi.symm.trans hn) (h.initproc_ne_none hrun (by simp))

/-- A `fork` moves on to its next point. -/
lemma goto {p np : Slot} {pt : ForkAt} (hc : s.code p = .fork pt np) (pt' : ForkAt) :
    Wf (s.goto p (.fork pt' np) s.mem) := by
  -- the same processes fork, with the same entries
  have hold : ∀ {q pt₁ x}, update s.code p (.fork pt' np) q = .fork pt₁ x →
      ∃ pt₀, s.code q = .fork pt₀ x := by
    intro q pt₁ x hq
    rcases eq_or_ne q p with rfl | hqp
    · rw [update_self] at hq
      cases hq
      exact ⟨pt, hc⟩
    · rw [update_of_ne hqp] at hq
      exact ⟨pt₁, hq⟩
  refine ⟨h.onCpu, h.offCpu, h.running, h.cpuInj, fun q pt₁ x hq => ?_,
    fun q q' pt₁ pt₂ x hq hq' => ?_, h.initLive, h.noInit⟩
  · obtain ⟨pt₀, hq₀⟩ := hold hq
    exact h.forking q pt₀ x hq₀
  · obtain ⟨pt₀, hq₀⟩ := hold hq
    obtain ⟨pt₀', hq₀'⟩ := hold hq'
    exact h.forkInj q q' pt₀ pt₀' x hq₀ hq₀'

/-- No CPU runs an entry that is `UNUSED` or an `EMBRYO`. -/
lemma notOnCpu {z : Slot} (hz : (s.mem.proc z).state = .unused ∨ (s.mem.proc z).state = .embryo)
    (c : Fin k) : (s.cpu c).proc ≠ some z := by
  intro hc
  by_cases hl : s.lock = .atSched c
  · have hoff := h.offCpu c z hc hl
    rcases hz with hz | hz <;> simp [hz] at hoff
  · have hon := h.onCpu c z hc hl
    rcases hz with hz | hz <;> simp [hz] at hon

/-- The entry `z`, which is not live and on no CPU, gets another state, and processes
enter or leave `fork`. -/
lemma entry {z : Slot} {co : Slot → Code} (hz : ¬(s.mem.proc z).Live)
    (hcpu : ∀ c, (s.cpu c).proc ≠ some z) (hnew : (t.proc z).state ≠ .running)
    (hother : ∀ q, q ≠ z → (t.proc q).state = (s.mem.proc q).state)
    (hi : t.initproc = s.mem.initproc) (hinit : s.mem.initproc ≠ none)
    (hfork : ∀ p pt np, co p = .fork pt np → (s.mem.proc p).Live ∧ (t.proc np).state = .embryo)
    (hinj : ∀ p p' pt pt' np, co p = .fork pt np → co p' = .fork pt' np → p = p') :
    Wf { s with mem := t, code := co } := by
  have hne : ∀ {c q}, (s.cpu c).proc = some q → q ≠ z := by
    rintro c q hq rfl
    exact hcpu c hq
  have hlive : ∀ {q}, (s.mem.proc q).Live → (t.proc q).Live := by
    intro q hq
    have hqz : q ≠ z := by
      rintro rfl
      exact hz hq
    simpa only [Proc.Live, hother q hqz] using hq
  refine ⟨fun c q hq hl => ?_, fun c q hq hl => ?_, fun q hq => ?_, h.cpuInj,
    fun p pt np hc => ?_, hinj, fun i hi' => ?_, fun hn => ?_⟩
  · exact (hother q (hne hq)).trans (h.onCpu c q hq hl)
  · simpa only [hother q (hne hq)] using h.offCpu c q hq hl
  · have hqz : q ≠ z := by
      rintro rfl
      exact hnew hq
    exact h.running q ((hother q hqz).symm.trans hq)
  · obtain ⟨hpl, hemb⟩ := hfork p pt np hc
    exact ⟨hlive hpl, hemb⟩
  · exact hlive (h.initLive i (hi.symm.trans hi'))
  · exact absurd (hi.symm.trans hn) hinit

/-- A process of a running CPU starts a `fork` with the entry `np`. -/
lemma alloc {p np : Slot} (hl : s.lock = .free) (hp : (s.cpu c).proc = some p)
    (hnp : (s.mem.proc np).state = .unused)
    (hst : ∀ q, (t.proc q).state = if q = np then .embryo else (s.mem.proc q).state)
    (hi : t.initproc = s.mem.initproc) : Wf (s.goto p (.fork .allocated np) t) := by
  have hrun : (s.mem.proc p).state = .running := h.onCpu c p hp (by simp [hl])
  have hself : (t.proc np).state = .embryo := by rw [hst, if_pos rfl]
  have hother : ∀ q, q ≠ np → (t.proc q).state = (s.mem.proc q).state := fun q hq => by
    rw [hst, if_neg hq]
  -- nobody else has the entry, which was not an `EMBRYO`
  have hnone : ∀ {q pt x}, s.code q = .fork pt x → x ≠ np := by
    rintro q pt x hq rfl
    have hemb := (h.forking q pt x hq).2
    simp [hnp] at hemb
  have hcode : ∀ {q pt x}, update s.code p (.fork .allocated np) q = .fork pt x →
      q = p ∧ x = np ∨ s.code q = .fork pt x := by
    intro q pt x hq
    rcases eq_or_ne q p with rfl | hqp
    · rw [update_self] at hq
      cases hq
      exact Or.inl ⟨rfl, rfl⟩
    · rw [update_of_ne hqp] at hq
      exact Or.inr hq
  refine h.entry (by simp [Proc.Live, hnp]) (h.notOnCpu (Or.inl hnp)) (by simp [hself]) hother hi
    (h.initproc_ne_none hrun (by simp)) (fun q pt x hq => ?_) (fun q q' pt pt' x hq hq' => ?_)
  · rcases hcode hq with ⟨rfl, rfl⟩ | hq
    · exact ⟨Or.inr (Or.inr hrun), hself⟩
    · obtain ⟨hql, hemb⟩ := h.forking q pt x hq
      exact ⟨hql, (hother x (hnone hq)).trans hemb⟩
  · rcases hcode hq with ⟨rfl, rfl⟩ | hold <;> rcases hcode hq' with ⟨rfl, hx⟩ | hold'
    · rfl
    · exact absurd rfl (hnone hold')
    · exact absurd hx (hnone hold)
    · exact h.forkInj q q' pt pt' x hold hold'

/-- A `fork` ends: its entry is given back, or it becomes `RUNNABLE`. -/
lemma forkEnd {p np : Slot} {pt : ForkAt} {st : ProcState} (hc : s.code p = .fork pt np)
    (hst : st = .unused ∨ st = .runnable) :
    Wf (s.goto p .user (s.mem.setProc np { s.mem.proc np with state := st })) := by
  have hemb := (h.forking p pt np hc).2
  have hcode : ∀ {q pt₁ x}, update s.code p .user q = .fork pt₁ x →
      q ≠ p ∧ s.code q = .fork pt₁ x := by
    intro q pt₁ x hq
    have hqp : q ≠ p := by
      rintro rfl
      simp at hq
    rw [update_of_ne hqp] at hq
    exact ⟨hqp, hq⟩
  have hother : ∀ q, q ≠ np →
      ((s.mem.setProc np { s.mem.proc np with state := st }).proc q).state
        = (s.mem.proc q).state := fun q hq => by rw [setProc_proc, if_neg hq]
  refine h.entry (by simp [Proc.Live, hemb]) (h.notOnCpu (Or.inr hemb)) ?_ hother rfl
    (h.initproc_ne_none hemb (by simp)) (fun q pt₁ x hq => ?_)
    (fun q q' pt₁ pt₂ x hq hq' => h.forkInj q q' pt₁ pt₂ x (hcode hq).2 (hcode hq').2)
  · rcases hst with rfl | rfl <;> simp
  · obtain ⟨hqp, hq⟩ := hcode hq
    obtain ⟨hql, hx⟩ := h.forking q pt₁ x hq
    have hxn : x ≠ np := by
      rintro rfl
      exact hqp (h.forkInj q p pt₁ pt x hq hc)
    exact ⟨hql, (hother x hxn).trans hx⟩

/-- A zombie is reaped; with the lock free it is on no CPU any more. -/
lemma reap {z : Slot} {x : Proc} (hl : s.lock = .free) (hz : (s.mem.proc z).state = .zombie)
    (hx : x.state = .unused) : Wf { s with mem := s.mem.setProc z x } := by
  have hother : ∀ q, q ≠ z → ((s.mem.setProc z x).proc q).state = (s.mem.proc q).state :=
    fun q hq => by rw [setProc_proc, if_neg hq]
  refine h.entry (by simp [Proc.Live, hz]) (fun c hc => ?_) (by simp [hx]) hother rfl
    (h.initproc_ne_none hz (by simp)) (fun p pt np hc => ?_) h.forkInj
  · have hon := h.onCpu c z hc (by simp [hl])
    simp [hz] at hon
  · obtain ⟨hpl, hemb⟩ := h.forking p pt np hc
    have hnz : np ≠ z := by
      rintro rfl
      simp [hz] at hemb
    exact ⟨hpl, (hother np hnz).trans hemb⟩

/-- A `RUNNABLE` process is dispatched on an idle CPU. -/
lemma dispatch {g : GSlot} (hl : s.lock = .free) (hc : (s.cpu c).proc = none)
    (hp : (s.mem.proc p).state = .runnable)
    (hst : ∀ q, (t.proc q).state = if q = p then .running else (s.mem.proc q).state)
    (hi : t.initproc = s.mem.initproc) :
    Wf { s with mem := t, cpu := update s.cpu c ⟨some p, some g⟩, lock := .atProc c } := by
  have hself : (t.proc p).state = .running := by rw [hst, if_pos rfl]
  have hother : ∀ q, q ≠ p → (t.proc q).state = (s.mem.proc q).state := fun q hq => by
    rw [hst, if_neg hq]
  have hlive : ∀ {q}, (s.mem.proc q).Live → (t.proc q).Live := by
    intro q hq
    rcases eq_or_ne q p with rfl | hqp
    · exact Or.inr (Or.inr hself)
    · simpa only [Proc.Live, hother q hqp] using hq
  have hon : ∀ {c' q}, (s.cpu c').proc = some q → (s.mem.proc q).state = .running :=
    fun {c' q} hq => h.onCpu c' q hq (by simp [hl])
  -- another CPU runs another process, since `p` was not `RUNNING`
  have hcpu : ∀ {c' q}, (update s.cpu c ⟨some p, some g⟩ c').proc = some q →
      c' = c ∧ q = p ∨ q ≠ p ∧ (s.cpu c').proc = some q := by
    intro c' q hq
    rcases eq_or_ne c' c with rfl | hcc
    · rw [update_self] at hq
      exact Or.inl ⟨rfl, (Option.some.inj hq).symm⟩
    · rw [update_of_ne hcc] at hq
      refine Or.inr ⟨?_, hq⟩
      rintro rfl
      simp [hon hq] at hp
  refine ⟨fun c' q hq _ => ?_, fun c' q _ hl' => ?_, fun q hq => ?_, fun c' c'' q hq hq' => ?_,
    fun q pt np hc' => ?_, h.forkInj, fun i hi' => ?_, fun hn => ?_⟩
  · rcases hcpu hq with ⟨_, rfl⟩ | ⟨hqp, hq⟩
    · exact hself
    · exact (hother q hqp).trans (hon hq)
  · cases hl'
  · rcases eq_or_ne q p with rfl | hqp
    · exact ⟨c, by simp⟩
    · obtain ⟨c', hc'⟩ := h.running q ((hother q hqp).symm.trans hq)
      have hcc : c' ≠ c := by
        rintro rfl
        simp [hc] at hc'
      exact ⟨c', by simp only [update_of_ne hcc, hc']⟩
  · rcases hcpu hq with ⟨rfl, rfl⟩ | ⟨hqp, hq⟩ <;> rcases hcpu hq' with ⟨rfl, hqp'⟩ | ⟨hqp', hq'⟩
    · rfl
    · exact absurd rfl hqp'
    · exact absurd hqp' hqp
    · exact h.cpuInj c' c'' q hq hq'
  · obtain ⟨hql, hemb⟩ := h.forking q pt np hc'
    have hnp : np ≠ p := by
      rintro rfl
      simp [hp] at hemb
    exact ⟨hlive hql, (hother np hnp).trans hemb⟩
  · exact hlive (h.initLive i (hi.symm.trans hi'))
  · exact absurd (hi.symm.trans hn) (h.initproc_ne_none hp (by simp))

/-- The scheduler takes its process off the CPU. -/
lemma ret (hl : s.lock = .atSched c) (g : GSlot) : Wf (s.ret c g) := by
  have hcpu : ∀ {c' q}, (update s.cpu c ⟨none, none⟩ c').proc = some q →
      c' ≠ c ∧ (s.cpu c').proc = some q := by
    intro c' q hq
    have hcc : c' ≠ c := by
      rintro rfl
      simp at hq
    rw [update_of_ne hcc] at hq
    exact ⟨hcc, hq⟩
  refine ⟨fun c' q hq _ => ?_, fun c' q _ hl' => ?_, fun q hq => ?_,
    fun c' c'' q hq hq' => h.cpuInj c' c'' q (hcpu hq).2 (hcpu hq').2, h.forking, h.forkInj,
    h.initLive, h.noInit⟩
  · obtain ⟨hcc, hq⟩ := hcpu hq
    exact h.onCpu c' q hq (by simp [hl, Ne.symm hcc])
  · cases hl'
  · -- the process that leaves `c` is no longer `RUNNING`
    obtain ⟨c', hc'⟩ := h.running q hq
    have hcc : c' ≠ c := by
      rintro rfl
      have hoff := h.offCpu c' q hc' hl
      rw [show (s.mem.proc q).state = .running from hq] at hoff
      simp at hoff
    exact ⟨c', by simp only [Kernel.ret, update_of_ne hcc, hc']⟩

/-- The first process is created. -/
lemma userinit (hn : s.mem.initproc = none) : Wf { s with mem := userinit s.mem } := by
  rcases userinit_cases s.mem with ⟨hu, _⟩ | ⟨p, _, hp, hproc, hi, _⟩
  · rw [hu]; exact h
  · have hun := h.noInit hn
    have hcpu : ∀ c q, (s.cpu c).proc ≠ some q := fun c q => h.notOnCpu (Or.inl (hun q)) c
    have hself : ((Xv6.userinit s.mem).proc p).state = .runnable := by rw [hproc, if_pos rfl]
    refine ⟨fun c q hq => absurd hq (hcpu c q), fun c q hq => absurd hq (hcpu c q),
      fun q hq => ?_, h.cpuInj, fun q pt np hc => ?_, h.forkInj, fun i hi' => ?_, fun hn' => ?_⟩
    · rw [hproc] at hq
      split at hq
      · simp at hq
      · simp [hun q] at hq
    · have hemb := (h.forking q pt np hc).2
      simp [hun np] at hemb
    · obtain rfl : p = i := Option.some.inj (hi.symm.trans hi')
      exact Or.inr (Or.inl hself)
    · exact absurd (hi.symm.trans hn') (by simp)

/-- The memory a pass of `wait` works on: no state has changed in it, and the
process that calls is the current one of its CPU. -/
lemma waitFrom {a : Act k} {m : Ptable} (hw : WaitFrom s c p a m) :
    Wf { s with mem := m } ∧ (s.cpu c).proc = some p ∧ (s.lock = .free ∨ s.lock = .atProc c) := by
  cases hw with
  | call hl hp _ _ => exact ⟨h, hp, Or.inl hl⟩
  | woken hl hp _ =>
    exact ⟨h.woken (fun q => Or.inl (setProc_field Proc.state (by rfl) q)) rfl, hp, Or.inr hl⟩

/-- A pass of `wait` works on the memory as it is, but for the caller's channel,
and its caller is `RUNNING`. -/
lemma waitFrom_mem {a : Act k} {m : Ptable} (hw : WaitFrom s c p a m) :
    ∃ ch, m = s.mem.setProc p { s.mem.proc p with chan := ch }
      ∧ (s.mem.proc p).state = .running := by
  cases hw with
  | call hl hp _ _ =>
    exact ⟨(s.mem.proc p).chan, by simp [setProc], h.onCpu c p hp (by simp [hl])⟩
  | woken hl hp _ => exact ⟨none, rfl, h.onCpu c p hp (by simp [hl])⟩

/-- Releasing the lock when it is free already, or held by the process just
switched to. -/
lemma release' (hl : s.lock = .free ∨ s.lock = .atProc c) : Wf { s with lock := .free } := by
  rcases hl with hl | hl
  · rw [← hl]; exact h
  · exact h.release hl

/-- **Every step keeps the invariant.** -/
theorem step {a : Act k} (ht : Trans s a s') : Wf s' := by
  cases ht with
  | userinit _ hn => exact h.userinit hn
  | idle => exact h
  | emptyGroup _ _ _ hp => rw [(fssPickProcInGroup_none hp).1]; exact h
  | @dispatch c g p t hl hc _ hp =>
    obtain ⟨rfl, hr, _⟩ := fssPickProcInGroup_some hp
    refine h.dispatch hl hc hr (fun q => ?_) rfl
    simp only [setProc_proc, setGroup_proc]
    split <;> rfl
  | resume hl => exact h.release hl
  | @resumeSleep c p hl hp hx =>
    have hw := h.woken (t := sleepEnd s.mem p)
      (fun q => Or.inl (setProc_field Proc.state (by rfl) q)) rfl
    exact hw.release hl
  | @waitReap a c p m z x hw hz hx =>
    obtain ⟨hm, _, hl⟩ := h.waitFrom hw
    refine (hm.release' hl).reap rfl (waitPass_reap hz).2 ?_
    rcases hx with rfl | rfl <;> rfl
  | waitFail hw _ =>
    obtain ⟨hm, _, hl⟩ := h.waitFrom hw
    exact hm.release' hl
  | @waitSleep a c p m cx hw _ _ =>
    obtain ⟨hm, hp, hl⟩ := h.waitFrom hw
    refine hm.sched (t := Xv6.sleep m p (.proc p)) hp hl (Or.inl ?_)
      (fun q hq => Or.inl ?_) rfl cx
    · simp [Xv6.sleep]
    · simp [Xv6.sleep, setProc_proc, hq]
  | ret hl _ => exact h.ret hl _
  | @yield c p hl hp =>
    refine h.sched (t := Xv6.yield s.mem p) hp (Or.inl hl) (Or.inr (Or.inl ?_))
      (fun q hq => Or.inl ?_) rfl .yield
    · simp [Xv6.yield]
    · simp [Xv6.yield, setProc_proc, hq]
  | @sleep c p a hl hp hu =>
    refine h.sched (t := Xv6.sleep s.mem p (.obj a)) hp (Or.inl hl) (Or.inl ?_)
      (fun q hq => Or.inl ?_) rfl .sleep
    · simp [Xv6.sleep]
    · simp [Xv6.sleep, setProc_proc, hq]
  | @exit c p hl hp hu hi =>
    refine h.sched hp (Or.inl hl) (Or.inr (Or.inr ⟨?_, hu, hi⟩)) (fun q hq => ?_)
      (exit_frame s.mem p).1 _
    · rw [exit_proc, exitState_self]
    · rw [exit_proc]; exact exitState_ne hq
  | forkFull => exact h
  | @forkAlloc c p ok np t hl hp _ ha =>
    obtain ⟨hnp, hproc, hi, _⟩ := allocproc_some ha
    refine h.alloc hl hp hnp (fun q => ?_) hi
    rw [hproc]
    split <;> rfl
  | forkStack _ hc => exact (h.goto hc .stacked).withCtx _
  | forkCopy _ hc => exact h.goto hc .copied
  | forkFail _ hc _ => exact h.forkEnd hc (Or.inl rfl)
  | @forkParent c p ok np _ hc =>
    exact Wf.goto (s := { s with mem := Xv6.forkParent s.mem p np })
      (h.woken (fun q => Or.inl (setProc_field Proc.state (by rfl) q)) rfl) hc .parented
  | @forkGid c p ok np _ hc =>
    exact Wf.goto (s := { s with mem := Xv6.forkGid s.mem p np })
      (h.woken (fun q => Or.inl (setProc_field Proc.state (by rfl) q)) rfl) hc .gidCopied
  | @forkEnsure c p ok np _ hc =>
    refine Wf.goto (s := { s with mem := Xv6.forkEnsure s.mem np })
      (h.woken (fun q => Or.inl ?_) ?_) hc .ensured
    · simp [Xv6.forkEnsure]
    · simp [Xv6.forkEnsure]
  | forkRunnable _ _ hc => exact h.forkEnd hc (Or.inr rfl)
  | @kill c p pid _ _ _ =>
    rcases kill_cases s.mem pid with ⟨hk, _⟩ | ⟨q, _, _, hk⟩
    · rw [hk]; exact h
    · rw [hk]
      refine h.woken (fun r => ?_) rfl
      simp only [setProc_proc]
      split
      · rename_i hr
        rw [hr]
        split
        · rename_i hs; exact Or.inr ⟨hs, rfl⟩
        · exact Or.inl rfl
      · exact Or.inl rfl
  | @trap c p _ _ =>
    exact h.woken (fun q => Or.inl (setProc_field Proc.state (by rfl) q)) rfl
  | @setgroup c p pid gid _ _ _ =>
    rcases setgroupK_cases s.mem pid gid with hg | ⟨_, _, hg⟩ | ⟨_, _, q, _, _, hg⟩
    · rw [hg]; exact h
    · rw [hg]; exact h.woken (fun r => Or.inl (by simp)) (by simp)
    · rw [hg]
      refine h.woken (fun r => Or.inl ?_) (by simp)
      rw [setProc_field Proc.state (by simp)]
      simp
  | wakeup _ =>
    refine h.woken (fun q => ?_) rfl
    simp only [wakeup1, mapProc_proc, Proc.wake]
    split
    · rename_i hs; exact Or.inr ⟨hs.1, rfl⟩
    · exact Or.inl rfl
  | tick _ =>
    refine h.woken (fun q => Or.inl ?_) rfl
    rw [tickAccounting, mapProc_proc, Proc.tick_eq]

end Wf

/-- The invariant holds in every reachable state. -/
theorem wf_of_reachable (h : Reachable step (Xv6.boot k) s) : Wf s :=
  h.invariant (Wf.boot k) fun _ _ _ hI ha => hI.step (trans_of_step ha)

end Xv6
