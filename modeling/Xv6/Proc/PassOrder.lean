import Xv6.Proc.FairShare

/-!
The pass of a group as a measure of the turns it has had.

A pass is a `uint` that grows by `FSS_BIG` with every completed dispatch, so it
ranks groups by their completed dispatches up to the point where it wraps
(`pass_orders_groups`), and not beyond it: `pass_wraps` is a run in which the group
with 42950 completed dispatches has a smaller pass than the group with one.  The
run is a single process that yields over and over; `Solo` describes its states
between two turns, and `run_turn` is one turn.
-/

namespace Xv6

open Ptable Transition

variable {k : ℕ} {s : Kernel k} {tr : List (Kernel k × Act k)}

/-- **Passes rank groups.**  Along a run in which no pass addition wraps, a group
that has completed fewer dispatches has a smaller pass, and `fss_pick_group`, if it
has the choice, does not prefer the other one. -/
theorem pass_orders_groups (hr : Run step (boot k) tr s) (hw : NoWrap tr) {A B : GSlot}
    (hlt : completed tr A < completed tr B) :
    (s.mem.gtable A).pass < (s.mem.gtable B).pass
      ∧ (Eligible s.mem A → fssPickGroup s.mem ≠ some B) := by
  have hbooks := books_of_run ⟨[], .nil _⟩ hr hw
  have hpass : ∀ i, (s.mem.gtable i).pass.toNat = FSS_BIG.toNat * completed tr i := by
    intro i
    have h := Stride.pass_of_run hbooks i
    have h0 : (books (boot k)).pass i = 0 := by
      show ((boot k).mem.gtable i).pass.toNat = 0
      rw [pass_eq_completed (.nil _) i]
      rfl
    rwa [h0, rets_entries, Nat.zero_add] at h
  have hsmall : (s.mem.gtable A).pass.toNat < (s.mem.gtable B).pass.toNat := by
    rw [hpass, hpass]
    exact Nat.mul_lt_mul_of_pos_left hlt (by decide)
  refine ⟨UInt32.lt_iff_toNat_lt.mpr hsmall, fun hA hpick => ?_⟩
  have hle := pass_le_of_rank_le ((fssPickGroup_spec hpick).2 A hA)
  omega

/-! ### A process that yields for ever -/

/-- Init is dispatched, moves itself to the new group 5, and yields. -/
def settle (c : Fin 1) : List (Act 1) :=
  [.userinit, .dispatch c, .resume c, .setgroup c 1 5, .yield c, .ret c]

/-- Between two turns of the only process, which is in the group of entry 1. -/
@[mk_iff]
structure Solo (s : Kernel 1) : Prop where
  free : s.lock = .free
  idle : s.cpu 0 = ⟨none, none⟩
  runnable : (s.mem.proc 0).state = .runnable
  others : ∀ p, p ≠ 0 → (s.mem.proc p).state = .unused
  ctx : s.ctx 0 = .yield
  active : (s.mem.gtable 1).active = true
  gid : (s.mem.proc 0).gid = (s.mem.gtable 1).gid

lemma exec_settle :
    ∃ s, exec step (boot 1) (settle 0) = some s ∧ Solo s
      ∧ completed (traceOf step (boot 1) (settle 0)) 0 = 1
      ∧ completed (traceOf step (boot 1) (settle 0)) 1 = 0 := by
  simp only [solo_iff]
  decide +kernel

theorem pass_orders_groups_settle :
    ∃ s, exec step (boot 1) (settle 0) = some s
      ∧ (s.mem.gtable 1).pass < (s.mem.gtable 0).pass := by
  obtain ⟨s, hs, _, h0, h1⟩ := exec_settle
  have hw := noWrap_of_length (run_traceOf hs)
    ((length_traceOf_le _ _).trans (by decide : (settle 0).length ≤ 42949))
  exact ⟨s, hs, (pass_orders_groups (run_traceOf hs) hw (by omega)).1⟩

/-- The scheduler finds the only process. -/
lemma Solo.scheduler {s : Kernel 1} (h : Solo s) (hg : GroupsOk s) :
    ∃ x, scheduler s.mem = ((s.mem.setGroup 1 { s.mem.gtable 1 with rrCursor := x }).setProc 0
      { s.mem.proc 0 with state := .running }, .run 1 0) := by
  have hself : ∀ p, (s.mem.proc p).state = .runnable → p = 0 := by
    intro p hp
    by_contra hne
    rw [h.others p hne] at hp
    simp at hp
  have hel : Eligible s.mem 1 :=
    ⟨h.active, fssGroupHasRunnable_iff.mpr ⟨0, h.runnable, h.gid⟩⟩
  cases hpick : fssPickGroup s.mem with
  | none => exact absurd hel (fssPickGroup_eq_none_iff.mp hpick 1)
  | some g =>
    obtain ⟨t, p, hp⟩ := fssPickProcInGroup_ne_none hg hpick
    obtain ⟨rfl, hrun, hgid⟩ := fssPickProcInGroup_some hp
    obtain rfl := hself p hrun
    have hg1 : g = 1 :=
      hg.table.inj g 1 (fssPickGroup_spec hpick).1.1 h.active (hgid.symm.trans h.gid)
    subst hg1
    refine ⟨((0 : Slot).val + 1 : ℤ).tmod NPROC, ?_⟩
    simp only [Xv6.scheduler, hpick, hp]
    rfl

/-- One turn: the process is dispatched, runs, yields, and its group is charged. -/
lemma run_turn {s : Kernel 1} (h : Solo s) (hg : GroupsOk s) :
    ∃ tr s', Run step s tr s' ∧ Solo s' ∧ completed tr 0 = 0 ∧ completed tr 1 = 1 := by
  obtain ⟨x, hsched⟩ := h.scheduler hg
  let s₁ : Kernel 1 :=
    { s with
      mem := (s.mem.setGroup 1 { s.mem.gtable 1 with rrCursor := x }).setProc 0
        { s.mem.proc 0 with state := .running }
      cpu := Function.update s.cpu 0 ⟨some 0, some 1⟩
      lock := .atProc 0 }
  let s₂ : Kernel 1 := { s₁ with lock := .free }
  let s₃ : Kernel 1 := s₂.sched 0 0 .yield (yield s₂.mem 0)
  have h1 : step s (.dispatch 0) = some s₁ := by
    simp [step, h.free, h.idle, Kernel.dispatch, hsched, s₁]
  have h2 : step s₁ (.resume 0) = some s₂ := by simp [step, Kernel.resume, h.ctx, s₁, s₂]
  have h3 : step s₂ (.yield 0) = some s₃ := by simp [step, Kernel.enter, s₁, s₂, s₃]
  have hcpu : (s₃.cpu 0).g = some 1 := by simp [s₁, s₂, s₃, Kernel.sched]
  have h4 : step s₃ (.ret 0) = some (s₃.ret 0 1) := by
    simp [step, hcpu, show s₃.lock = .atSched 0 from rfl]
  refine ⟨_, s₃.ret 0 1, .cons h1 (.cons h2 (.cons h3 (.cons h4 (.nil _)))), ?_, ?_, ?_⟩
  · constructor
    · rfl
    · simp [Kernel.ret]
    · simp [Kernel.ret, charge, s₃, Kernel.sched, yield]
    · intro p hp
      have ho := h.others p hp
      simp [Kernel.ret, charge, s₃, s₂, s₁, Kernel.sched, yield, setProc_proc, hp, ho]
    · simp [Kernel.ret, s₃, Kernel.sched]
    · simp [Kernel.ret, charge, s₃, s₂, s₁, Kernel.sched, yield, h.active]
    · simp [Kernel.ret, charge, s₃, s₂, s₁, Kernel.sched, yield, h.gid]
  · simp [completed, returns, hcpu]
  · simp [completed, returns, hcpu]

/-- Any number of turns. -/
lemma exists_turns (n : ℕ) :
    ∃ tr s, Run step (boot 1) tr s ∧ Solo s ∧ completed tr 0 = 1 ∧ completed tr 1 = n := by
  induction n with
  | zero =>
    obtain ⟨s, hs, hsolo, h0, h1⟩ := exec_settle
    exact ⟨_, s, run_traceOf hs, hsolo, h0, h1⟩
  | succ n ih =>
    obtain ⟨tr, s, hr, hsolo, h0, h1⟩ := ih
    obtain ⟨tr', s', hr', hsolo', h0', h1'⟩ := run_turn hsolo (ok_of_reachable ⟨tr, hr⟩).1
    refine ⟨tr ++ tr', s', hr.append hr', hsolo', ?_, ?_⟩
    · rw [completed_append, h0, h0']
    · rw [completed_append, h1, h1']

/-- **The pass wraps.**  After 42950 turns of one group its pass is smaller than that
of the group that had one. -/
theorem pass_wraps :
    ∃ tr s, Run step (boot 1) tr s
      ∧ (s.mem.gtable 0).active = true ∧ (s.mem.gtable 1).active = true
      ∧ completed tr 0 = 1 ∧ completed tr 1 = 42950
      ∧ (s.mem.gtable 0).pass = 100000 ∧ (s.mem.gtable 1).pass = 32704
      ∧ ¬ ((s.mem.gtable 0).pass < (s.mem.gtable 1).pass) := by
  obtain ⟨tr, s, hr, hsolo, h0, h1⟩ := exists_turns 42950
  have hp0 := pass_eq_completed hr 0
  have hp1 := pass_eq_completed hr 1
  rw [h0] at hp0
  rw [h1] at hp1
  refine ⟨tr, s, hr, (ok_of_reachable ⟨tr, hr⟩).1.table.zero.1, hsolo.active, h0, h1, hp0, hp1, ?_⟩
  rw [hp0, hp1]
  decide

end Xv6
