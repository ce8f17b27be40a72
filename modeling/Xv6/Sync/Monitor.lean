import Xv6.Sync.Machine

/-!
What holds of every component that works under a lock.

* `Disciplined`, `Locked`: code that takes and releases its lock in turn holds it exactly where
  it says, so of two processes only one is there.
* `Owned`: what a process knows about the memory while it holds the lock.
* `Settled`: when each process that ends the reason to wait on a channel calls `wakeup` on it,
  and every process goes to sleep only for the reason, nobody is left asleep without it.
* `Quiet`: nobody waits on a channel, and nobody starts to while there is no reason.
-/

namespace Xv6.Sync

open Transition Function

variable {P σ L : Type} {c : Component σ L} {held : L → Prop} {s s' : Sys P σ L}
  {a : Act P L}

/-! ### Locks -/

/-- What code at `l` does agrees with the places at which the lock is `held`. -/
def Follows (lk : SpinLock) (held : L → Prop) (l : L) : Instr σ L → Prop
  | .acquire l' => ¬held l ∧ held l'
  | .release l' => held l ∧ ¬held l'
  | .store _ l' | .sleep _ l' => held l ∧ held l'
  -- A call of `wakeup` takes `ptable.lock`.
  | .wakeup _ l' => (held l ↔ held l') ∧ (lk = .ptable → ¬held l)
  | .wakeup1 _ l' => lk = .ptable ∧ held l ∧ held l'
  | .stay => True

/-- The code holds its lock at the places that `held` says. -/
structure Disciplined (c : Component σ L) (held : L → Prop) : Prop where
  call {l l'} : c.calls l l' = true → ¬held l ∧ ¬held l'
  code : ∀ x l m, Follows c.lk held l (c.code x l m)

variable {x : Proc} {l : L} {m : σ} {i : Instr σ L}

lemma Disciplined.follows (hd : Disciplined c held)
    (h : c.code x l m = i) : Follows c.lk held l i :=
  h ▸ hd.code x l m

/-- The locks that a process holds at a place. -/
def Holds (c : Component σ L) (held : L → Prop) (b : SpinLock) : Pc L → Prop
  | .code l | .wakeAcquire _ l => b = c.lk ∧ held l
  | .sleepAcquire _ _ => b = c.lk
  | .sleepRelease _ _ => b = c.lk ∨ b = .ptable
  | .sleepStore _ _ | .woken _ => b = .ptable
  | .asleep _ _ | .reacquire _ => False
  | .wake _ l | .wakeRelease _ l => b = c.lk ∧ held l ∨ b = .ptable

/-- A place to which a call of `sleep(ch, lk)` returns. -/
def Resumes (c : Component σ L) (ch : Chan) (l : L) : Prop := ∃ x l₀ m, c.code x l₀ m = .sleep ch l

/-- A place to which a call of `wakeup(ch)` returns. -/
def Signalled (c : Component σ L) (ch : Chan) (l : L) : Prop :=
  ∃ x l₀ m, c.code x l₀ m = .wakeup ch l

/-- What is known of the place to which a call of `sleep` or `wakeup` returns. -/
def Returns (c : Component σ L) : Pc L → Prop
  | .code _ => True
  | .sleepAcquire ch l | .sleepRelease ch l => c.lk ≠ .ptable ∧ Resumes c ch l
  | .sleepStore ch l | .asleep ch l => Resumes c ch l
  | .woken l => ∃ ch, Resumes c ch l
  | .reacquire l => c.lk ≠ .ptable ∧ ∃ ch, Resumes c ch l
  | .wakeAcquire ch l | .wake ch l | .wakeRelease ch l => Signalled c ch l

lemma Disciplined.held_of_resumes (hd : Disciplined c held) {ch : Chan}
    (h : Resumes c ch l) : held l := by
  obtain ⟨x, l₀, m, hi⟩ := h
  exact (hd.follows hi).2

lemma Disciplined.not_held_of_signalled (hd : Disciplined c held) {ch : Chan}
    (h : Signalled c ch l) (hlk : c.lk = .ptable) : ¬held l := by
  obtain ⟨x, l₀, m, hi⟩ := h
  obtain ⟨hiff, hl⟩ := hd.follows hi
  exact hiff.not.mp (hl hlk)

/-- A lock is held by the process that is at a place where it is held. -/
structure Locked (c : Component σ L) (held : L → Prop) (s : Sys P σ L) : Prop where
  holder : ∀ b p, s.lock b = some (.proc p) ↔ Holds c held b (s.pc p)
  returns : ∀ p, Returns c (s.pc p)

variable {p : P} {c' : Pc L}

namespace Locked

/-- Two processes do not hold one lock. -/
lemma eq_of_holds (h : Locked c held s) {b : SpinLock} {p q : P} (hp : Holds c held b (s.pc p))
    (hq : Holds c held b (s.pc q)) : p = q := by
  have hlock := (h.holder b p).mpr hp
  rw [(h.holder b q).mpr hq] at hlock
  cases hlock
  rfl

lemma not_holds_of_free (h : Locked c held s) {b : SpinLock} (hb : s.lock b = none) (p : P) :
    ¬Holds c held b (s.pc p) := by
  intro hp
  rw [← h.holder, hb] at hp
  cases hp

variable [DecidableEq P]

/-- A process that neither takes nor releases a lock. -/
lemma holder_keep (h : Locked c held s) (hc : ∀ b, Holds c held b c' ↔ Holds c held b (s.pc p))
    (b : SpinLock) (q : P) :
    (s.goto p c').lock b = some (.proc q) ↔ Holds c held b ((s.goto p c').pc q) := by
  rcases eq_or_ne q p with rfl | hq
  · rw [Sys.goto_pc_self, Sys.goto_lock, hc, h.holder]
  · rw [Sys.goto_pc_of_ne _ _ hq, Sys.goto_lock, h.holder]

/-- A process takes a lock. -/
lemma holder_take (h : Locked c held s) {b₀ : SpinLock} (hb : s.lock b₀ = none)
    (hc : ∀ b, Holds c held b c' ↔ Holds c held b (s.pc p) ∨ b = b₀) (b : SpinLock) (q : P) :
    ((s.setLock b₀ (some (.proc p))).goto p c').lock b = some (.proc q)
      ↔ Holds c held b (((s.setLock b₀ (some (.proc p))).goto p c').pc q) := by
  rw [Sys.goto_lock]
  rcases eq_or_ne b b₀ with rfl | hne
  · rw [Sys.setLock_lock_self]
    rcases eq_or_ne q p with rfl | hq
    · rw [Sys.goto_pc_self, hc]
      exact ⟨fun _ => .inr rfl, fun _ => rfl⟩
    · rw [Sys.goto_pc_of_ne _ _ hq, Sys.setLock_pc]
      refine ⟨fun heq => ?_, fun hq' => absurd hq' (h.not_holds_of_free hb q)⟩
      cases heq
      exact absurd rfl hq
  · rw [Sys.setLock_lock_of_ne _ _ hne]
    rcases eq_or_ne q p with rfl | hq
    · rw [Sys.goto_pc_self, hc, h.holder, or_iff_left hne]
    · rw [Sys.goto_pc_of_ne _ _ hq, Sys.setLock_pc, h.holder]

/-- A process gives a lock away. -/
lemma holder_drop (h : Locked c held s) {b₀ : SpinLock} {v : Option (Holder P)}
    (hv : ∀ q, v ≠ some (.proc q)) (hb : Holds c held b₀ (s.pc p))
    (hc : ∀ b, Holds c held b c' ↔ Holds c held b (s.pc p) ∧ b ≠ b₀) (b : SpinLock) (q : P) :
    ((s.setLock b₀ v).goto p c').lock b = some (.proc q)
      ↔ Holds c held b (((s.setLock b₀ v).goto p c').pc q) := by
  rw [Sys.goto_lock]
  rcases eq_or_ne b b₀ with rfl | hne
  · rw [Sys.setLock_lock_self]
    refine ⟨fun heq => absurd heq (hv q), fun hq' => ?_⟩
    rcases eq_or_ne q p with rfl | hq
    · rw [Sys.goto_pc_self, hc] at hq'
      exact absurd rfl hq'.2
    · rw [Sys.goto_pc_of_ne _ _ hq, Sys.setLock_pc] at hq'
      exact absurd (h.eq_of_holds hq' hb) hq
  · rw [Sys.setLock_lock_of_ne _ _ hne]
    rcases eq_or_ne q p with rfl | hq
    · rw [Sys.goto_pc_self, hc, h.holder, and_iff_left hne]
    · rw [Sys.goto_pc_of_ne _ _ hq, Sys.setLock_pc, h.holder]

lemma returns_goto (h : Locked c held s) (hc : Returns c c') (q : P) :
    Returns c (update s.pc p c' q) := by
  rcases eq_or_ne q p with rfl | hq
  · rwa [update_self]
  · rw [update_of_ne hq]
    exact h.returns q

/-- **Every step keeps the locks with their holders.** -/
theorem step (hd : Disciplined c held) (h : Locked c held s) (ht : Trans c s a s') :
    Locked c held s' := by
  cases ht with
  | @call p l l' hpc hcall =>
    obtain ⟨hl, hl'⟩ := hd.call hcall
    refine ⟨h.holder_keep fun b => ?_, h.returns_goto trivial⟩
    simp only [hpc, Holds, hl, hl']
  | @acquire p l l' hpc hi hlock =>
    obtain ⟨hl, hl'⟩ := hd.follows hi
    refine ⟨h.holder_take hlock fun b => ?_, h.returns_goto trivial⟩
    simp only [hpc, Holds, hl, hl', and_true, and_false, false_or]
  | @release p l l' hpc hi =>
    obtain ⟨hl, hl'⟩ := hd.follows hi
    refine ⟨h.holder_drop (fun _ => nofun) ?_ fun b => ?_, h.returns_goto trivial⟩
    · simp only [hpc, Holds, hl, and_true]
    · simp only [hpc, Holds, hl, hl', and_true, and_false, ne_eq, and_not_self]
  | @store p l m l' hpc hi =>
    obtain ⟨hl, hl'⟩ := hd.follows hi
    refine ⟨h.holder_keep fun b => ?_, h.returns_goto trivial⟩
    simp only [hpc, Holds, hl, hl']
  | @sleep p l ch l' hpc hi hlk =>
    obtain ⟨hl, -⟩ := hd.follows hi
    refine ⟨h.holder_keep fun b => ?_, h.returns_goto ⟨hlk, _, _, _, hi⟩⟩
    simp only [hpc, Holds, hl, and_true]
  | @sleepPtable p l ch l' hpc hi hlk =>
    obtain ⟨hl, -⟩ := hd.follows hi
    refine ⟨h.holder_keep fun b => ?_, h.returns_goto ⟨_, _, _, hi⟩⟩
    simp only [hpc, Holds, hl, hlk, and_true]
  | @wakeup p l ch l' hpc hi =>
    obtain ⟨hiff, -⟩ := hd.follows hi
    refine ⟨h.holder_keep fun b => ?_, h.returns_goto ⟨_, _, _, hi⟩⟩
    simp only [hpc, Holds, hiff]
  | @wakeup1 p l ch l' hpc hi =>
    obtain ⟨-, hl, hl'⟩ := hd.follows hi
    refine ⟨h.holder_keep fun b => ?_, h.returns_goto trivial⟩
    simp only [hpc, Holds, hl, hl']
  | @sleepAcquire p ch l hpc hlock | @wakeAcquire p ch l hpc hlock =>
    have hret := h.returns p
    rw [hpc] at hret
    refine ⟨h.holder_take hlock fun b => ?_, h.returns_goto hret⟩
    simp only [hpc, Holds]
  | @sleepRelease p ch l hpc =>
    have hret := h.returns p
    rw [hpc] at hret
    refine ⟨h.holder_drop (fun _ => nofun) ?_ fun b => ?_, h.returns_goto hret.2⟩
    · simp only [hpc, Holds, true_or]
    · simp only [hpc, Holds]
      have hlk := hret.1
      grind
  | @sleepStore p ch l hpc =>
    have hret := h.returns p
    rw [hpc] at hret
    refine ⟨h.holder_drop (fun _ => nofun) ?_ fun b => ?_, h.returns_goto hret⟩
    · simp only [hpc, Holds]
    · simp only [hpc, Holds, ne_eq, and_not_self]
  | @woken p l hpc hlk =>
    have hret := h.returns p
    rw [hpc] at hret
    refine ⟨h.holder_drop (fun _ => nofun) ?_ fun b => ?_, h.returns_goto ⟨hlk, hret⟩⟩
    · simp only [hpc, Holds]
    · simp only [hpc, Holds, ne_eq, and_not_self]
  | @wokenPtable p l hpc hlk =>
    have hret := h.returns p
    rw [hpc] at hret
    obtain ⟨ch, hret⟩ := hret
    have hl := hd.held_of_resumes hret
    refine ⟨h.holder_keep fun b => ?_, h.returns_goto trivial⟩
    simp only [hpc, Holds, hlk, hl, and_true]
  | @reacquire p l hpc hlock =>
    have hret := h.returns p
    rw [hpc] at hret
    obtain ⟨-, ch, hret⟩ := hret
    refine ⟨h.holder_take hlock fun b => ?_, h.returns_goto trivial⟩
    simp only [hpc, Holds, hd.held_of_resumes hret, and_true, false_or]
  | @wake p ch l hpc =>
    have hret := h.returns p
    rw [hpc] at hret
    refine ⟨h.holder_keep fun b => ?_, h.returns_goto hret⟩
    simp only [hpc, Holds]
  | @wakeRelease p ch l hpc =>
    have hret := h.returns p
    rw [hpc] at hret
    refine ⟨h.holder_drop (fun _ => nofun) ?_ fun b => ?_, h.returns_goto trivial⟩
    · simp only [hpc, Holds, or_true]
    · simp only [hpc, Holds]
      have hl : c.lk = .ptable → ¬held l := hd.not_held_of_signalled hret
      grind
  | @dispatch p ch l hpc hlock hstate =>
    have hret := h.returns p
    rw [hpc] at hret
    refine ⟨h.holder_take hlock fun b => ?_, h.returns_goto ⟨ch, hret⟩⟩
    simp only [hpc, Holds, false_or]
  | ret hlock =>
    refine ⟨fun b p => ?_, h.returns⟩
    rcases eq_or_ne b .ptable with rfl | hb
    · rw [Sys.setLock_lock_self, Sys.setLock_pc, ← h.holder, hlock]
      exact ⟨nofun, nofun⟩
    · rw [Sys.setLock_lock_of_ne _ _ hb, Sys.setLock_pc, h.holder]
  | @kill p hlock => exact ⟨h.holder, h.returns⟩

end Locked

/-! ### Waiting -/

section Waiting

variable [DecidableEq P] {ch : Chan} {W : σ → Prop} {owes : L → Prop}

/-- `SLEEPING` on a channel. -/
def Sys.Sleeps (s : Sys P σ L) (ch : Chan) (p : P) : Prop :=
  (s.proc p).state = .sleeping ∧ (s.proc p).chan = some ch

instance (s : Sys P σ L) (ch : Chan) (p : P) : Decidable (s.Sleeps ch p) :=
  inferInstanceAs (Decidable (_ ∧ _))

/-- In a call of `sleep(ch, lk)` that has released `lk`, until it is woken. -/
def Sys.Waits (s : Sys P σ L) (ch : Chan) (p : P) : Prop :=
  (∃ l, s.pc p = .sleepStore ch l) ∨ s.Sleeps ch p

/-- A process that is `SLEEPING` is in `sched`, called by `sleep`. -/
def Abed (s : Sys P σ L) : Prop := ∀ p ch, s.Sleeps ch p → ∃ l, s.pc p = .asleep ch l

/-- Nobody waits on the channel. -/
def Sys.Quiet (s : Sys P σ L) (ch : Chan) : Prop := ∀ p, ¬s.Waits ch p

/-- Whoever calls `sleep(ch, lk)` next has a reason to wait. -/
def SleepsFor (c : Component σ L) (ch : Chan) (W : σ → Prop) (s : Sys P σ L) : Prop :=
  ∀ p l l', s.pc p = .code l → c.code (s.proc p) l s.mem = .sleep ch l' → W s.mem

/-- A process that still holds `lk` on its way to sleep has a reason to wait. -/
def Reasoned (ch : Chan) (W : σ → Prop) (s : Sys P σ L) : Prop :=
  ∀ p l, s.pc p = .sleepAcquire ch l ∨ s.pc p = .sleepRelease ch l → W s.mem

lemma Sys.Waits.of_goto {p q : P} (h : (s.goto q c').Waits ch p) (hc : ∀ l, c' ≠ .sleepStore ch l) :
    s.Waits ch p := by
  rcases h with ⟨l, hl⟩ | hs
  · rcases eq_or_ne p q with rfl | hp
    · rw [Sys.goto_pc_self] at hl
      exact absurd hl (hc l)
    · rw [Sys.goto_pc_of_ne _ _ hp] at hl
      exact .inl ⟨l, hl⟩
  · exact .inr hs

omit [DecidableEq P] in
/-- After a wakeup nobody sleeps on the channel. -/
lemma not_sleeps_wakeup1 (p : P) : ¬Sys.Sleeps { s with proc := wakeup1 s.proc ch } ch p := by
  rintro ⟨hstate, hchan⟩
  have hold : (s.proc p).chan = some ch := hchan
  by_cases hs : (s.proc p).state = .sleeping
  · simp only [wakeup1, Proc.wake, hs, hold, and_self, if_true, reduceCtorEq] at hstate
  · simp only [wakeup1, Proc.wake, hs, false_and, if_false] at hstate

omit [DecidableEq P] in
lemma sleeps_of_wakeup1 {ch' : Chan} (h : Sys.Sleeps { s with proc := wakeup1 s.proc ch' } ch p) :
    s.Sleeps ch p := by
  obtain ⟨hstate, hchan⟩ := h
  refine ⟨?_, hchan⟩
  by_contra hs
  simp only [wakeup1, Proc.wake, hs, false_and, if_false] at hstate

lemma sleeps_of_setProc {p q : P} (h : (s.setProc q x).Sleeps ch p)
    (hx : x.state = .sleeping → x.chan = some ch → s.Sleeps ch q) : s.Sleeps ch p := by
  rcases eq_or_ne p q with rfl | hp
  · rw [Sys.Sleeps, Sys.setProc_proc_self] at h
    exact hx h.1 h.2
  · rwa [Sys.Sleeps, Sys.setProc_proc_of_ne _ _ hp] at h

lemma sleeps_of_kill {p q : P} (h : (s.setProc q (kill (s.proc q))).Sleeps ch p) :
    s.Sleeps ch p := by
  refine sleeps_of_setProc h fun hst _ => ?_
  by_cases hs : (s.proc q).state = .sleeping
  · simp only [kill, hs, if_true, reduceCtorEq] at hst
  · simp only [kill, hs, if_false] at hst

/-- Whoever begins to wait in a step was in a call of `sleep` before it. -/
lemma Trans.waits (ht : Trans c s a s') (h : s'.Waits ch p) :
    s.Waits ch p ∨ (∃ l, s.pc p = .sleepRelease ch l) ∨
      c.lk = .ptable ∧ ∃ l l', s.pc p = .code l ∧ c.code (s.proc p) l s.mem = .sleep ch l' := by
  cases ht with
  | call | acquire | release | store | sleep | wakeup | sleepAcquire | reacquire | wakeAcquire
  | wakeRelease => exact .inl (h.of_goto nofun)
  | wakeup1 | wake => exact .inl ((h.of_goto nofun).imp_right sleeps_of_wakeup1)
  | ret => exact .inl h
  | @sleepPtable q l ch' l' hpc hi hlk =>
    rcases eq_or_ne p q with rfl | hp
    · rcases h with ⟨l₁, hl₁⟩ | hs
      · rw [Sys.goto_pc_self] at hl₁
        cases hl₁
        exact .inr (.inr ⟨hlk, l, l', hpc, hi⟩)
      · exact .inl (.inr hs)
    · refine .inl ?_
      rwa [Sys.Waits, Sys.goto_pc_of_ne _ _ hp] at h
  | @sleepRelease q ch' l hpc =>
    rcases eq_or_ne p q with rfl | hp
    · rcases h with ⟨l₁, hl₁⟩ | hs
      · rw [Sys.goto_pc_self] at hl₁
        cases hl₁
        exact .inr (.inl ⟨l, hpc⟩)
      · exact .inl (.inr hs)
    · refine .inl ?_
      rwa [Sys.Waits, Sys.goto_pc_of_ne _ _ hp] at h
  | @sleepStore q ch' l hpc =>
    rcases eq_or_ne p q with rfl | hp
    · have hwait := h.of_goto nofun
      rcases hwait with hl | hs
      · exact .inl (.inl hl)
      · have hch := hs.2
        simp only [Sys.setLock_proc, Sys.setProc_proc_self] at hch
        cases hch
        exact .inl (.inl ⟨l, hpc⟩)
    · refine .inl ?_
      rwa [Sys.Waits, Sys.Sleeps, Sys.goto_pc_of_ne _ _ hp, Sys.goto_proc, Sys.setLock_proc,
        Sys.setProc_proc_of_ne _ _ hp] at h
  | @woken q l hpc hlk | @wokenPtable q l hpc hlk =>
    exact .inl ((h.of_goto nofun).imp_right fun hs =>
      sleeps_of_setProc (x := { s.proc q with chan := none }) hs fun _ hch => nomatch hch)
  | @dispatch q ch' l hpc hlock hstate =>
    exact .inl ((h.of_goto nofun).imp_right fun hs =>
      sleeps_of_setProc (x := { s.proc q with state := .running }) hs fun hst => nomatch hst)
  | @kill q hlock => exact .inl (h.imp_right sleeps_of_kill)

omit [DecidableEq P] in
/-- Only the holder of the lock stores. -/
lemma Locked.eq_of_store (hd : Disciplined c held) (h : Locked c held s) {p q : P} {l' : L}
    (hpc : s.pc q = .code l) (hi : c.code (s.proc q) l s.mem = .store m l')
    (hp : Holds c held c.lk (s.pc p)) : p = q := by
  refine h.eq_of_holds hp ?_
  rw [hpc]
  exact ⟨rfl, (hd.follows hi).1⟩

/-- Code that goes to sleep for a reason keeps it until it has released the lock. -/
lemma Reasoned.step (hd : Disciplined c held) (hl : Locked c held s) (h : Reasoned ch W s)
    (hsleep : SleepsFor c ch W s) (ht : Trans c s a s') : Reasoned ch W s' := by
  intro p l hp
  rcases ht.store_or_flow with ⟨q, l₁, m, l₂, -, hpc, hi, rfl⟩ | ⟨hmem, hflow⟩
  · -- The process on its way to sleep holds the lock, so it is not another one that stores.
    exfalso
    have hne : p ≠ q := by
      rintro rfl
      rw [Sys.goto_pc_self] at hp
      exact hp.elim nofun nofun
    rw [Sys.goto_pc_of_ne _ _ hne] at hp
    refine hne (hl.eq_of_store hd hpc hi ?_)
    rcases hp with hp | hp
    · exact hp ▸ rfl
    · exact hp ▸ Or.inl rfl
  · rw [hmem]
    rcases hflow p with heq | hf
    · rw [heq] at hp
      exact h p l hp
    · generalize hold : s.pc p = c₀ at hf
      rcases hp with hp | hp
      · rw [hp] at hf
        cases hf with
        | sleep hi => exact hsleep p _ _ hold hi
      · rw [hp] at hf
        cases hf
        exact h p l (.inl hold)

/-- A process stays in `sched` while another one is somewhere else. -/
lemma Abed.update (h : Abed s) {p q : P} {c₀ c' : Pc L} (hs : s.Sleeps ch p) (hpc : s.pc q = c₀)
    (hc : ∀ l, c₀ ≠ .asleep ch l) : ∃ l, update s.pc q c' p = .asleep ch l := by
  obtain ⟨l, hl⟩ := h p ch hs
  refine ⟨l, ?_⟩
  rw [update_of_ne, hl]
  rintro rfl
  exact hc l (hpc.symm.trans hl)

lemma Abed.step (h : Abed s) (ht : Trans c s a s') : Abed s' := by
  intro p ch hs
  cases ht with
  | call hpc | acquire hpc | release hpc | store hpc | sleep hpc | sleepPtable hpc | wakeup hpc
  | sleepAcquire hpc | sleepRelease hpc | reacquire hpc | wakeAcquire hpc | wakeRelease hpc =>
    have hold : s.Sleeps ch p := hs
    exact h.update hold hpc nofun
  | wakeup1 hpc | wake hpc =>
    exact h.update (sleeps_of_wakeup1 hs) hpc nofun
  | ret => exact h p ch hs
  | @sleepStore q ch' l hpc =>
    rcases eq_or_ne p q with rfl | hp
    · have hch := hs.2
      simp only [Sys.goto_proc, Sys.setLock_proc, Sys.setProc_proc_self] at hch
      cases hch
      exact ⟨l, Sys.goto_pc_self ..⟩
    · rw [Sys.Sleeps, Sys.goto_proc, Sys.setLock_proc, Sys.setProc_proc_of_ne _ _ hp] at hs
      exact h.update hs hpc nofun
  | @woken q l hpc | @wokenPtable q l hpc =>
    have hold : s.Sleeps ch p :=
      sleeps_of_setProc (x := { s.proc q with chan := none }) hs fun _ hch => nomatch hch
    exact h.update hold hpc nofun
  | @dispatch q ch' l hpc hlock hstate =>
    rcases eq_or_ne p q with rfl | hp
    · have hst := hs.1
      simp only [Sys.goto_proc, Sys.setLock_proc, Sys.setProc_proc_self, reduceCtorEq] at hst
    · rw [Sys.Sleeps, Sys.goto_proc, Sys.setLock_proc, Sys.setProc_proc_of_ne _ _ hp] at hs
      obtain ⟨l', hl'⟩ := h p ch hs
      exact ⟨l', (Sys.goto_pc_of_ne _ _ hp).trans hl'⟩
  | @kill q hlock => exact h p ch (sleeps_of_kill hs)

omit [DecidableEq P] in
/-- A call of `sleep` by which a process waits. -/
lemma Sys.Waits.resumes (hl : Locked c held s) (ha : Abed s) (h : s.Waits ch p) :
    Resumes c ch (s.pc p).label := by
  have hret := hl.returns p
  rcases h with ⟨l, hpc⟩ | hs
  · rw [hpc] at hret ⊢
    exact hret
  · obtain ⟨l, hpc⟩ := ha p ch hs
    rw [hpc] at hret ⊢
    exact hret

/-- Nobody begins to wait while there is no reason. -/
lemma Sys.Quiet.step (h : s.Quiet ch) (hr : Reasoned ch W s)
    (hsleep : SleepsFor c ch W s) (hW : ¬W s.mem) (ht : Trans c s a s') : s'.Quiet ch := by
  intro p hp
  rcases ht.waits hp with hp | ⟨l, hp⟩ | ⟨-, l, l', hp, hi⟩
  · exact h p hp
  · exact hW (hr p l (.inr hp))
  · exact hW (hsleep p l l' hp hi)

/-- After `wakeup1` nobody waits: a process on its way to sleep holds `ptable.lock`. -/
lemma Locked.quiet_wakeup1 (h : Locked c held s) {q : P} (hq : Holds c held .ptable (s.pc q))
    (hc : ∀ ch l, s.pc q ≠ .sleepStore ch l) (hc' : ∀ ch l, c' ≠ .sleepStore ch l) :
    ({ s with proc := wakeup1 s.proc ch }.goto q c').Quiet ch := by
  intro p hp
  rcases hp.of_goto (hc' ch) with ⟨l, hl⟩ | hs
  · have hpq : p = q := h.eq_of_holds (b := .ptable) (hl ▸ rfl) hq
    exact hc ch l (hpq ▸ hl)
  · exact not_sleeps_wakeup1 p hs

/-- Without `ptable.lock` nobody begins to wait. -/
lemma Sys.Quiet.step_of_wakeRelease (hd : Disciplined c held) (hl : Locked c held s)
    (h : s.Quiet ch) {q : P} (hq : s.pc q = .wakeRelease ch l) (ht : Trans c s a s') :
    s'.Quiet ch := by
  have hholds : Holds c held .ptable (s.pc q) := hq ▸ Or.inr rfl
  intro p hp
  rcases ht.waits hp with hw | ⟨l', hw⟩ | ⟨hlk, l₁, l₂, hw, hi⟩
  · exact h p hw
  · have hpq : p = q := hl.eq_of_holds (hw ▸ Or.inr rfl) hholds
    rw [hpq, hq] at hw
    cases hw
  · have hpq : p = q := hl.eq_of_holds (hw ▸ ⟨hlk.symm, (hd.follows hi).1⟩) hholds
    rw [hpq, hq] at hw
    cases hw

/-- A call of `wakeup` that still holds `ptable.lock` has left nobody waiting. -/
def Hushed (ch : Chan) (s : Sys P σ L) : Prop := ∀ q l, s.pc q = .wakeRelease ch l → s.Quiet ch

lemma Hushed.step (hd : Disciplined c held) (hl : Locked c held s) (h : Hushed ch s)
    (ht : Trans c s a s') : Hushed ch s' := by
  intro q l hq
  by_cases hsame : s.pc q = .wakeRelease ch l
  · exact (h q l hsame).step_of_wakeRelease hd hl hsame ht
  · cases ht with
    | @wake p ch' l' hpc =>
      have hqp : q = p := by
        by_contra hne
        rw [Sys.goto_pc_of_ne _ _ hne] at hq
        exact hsame hq
      subst hqp
      rw [Sys.goto_pc_self] at hq
      cases hq
      refine hl.quiet_wakeup1 (hpc ▸ Or.inr rfl) ?_ ?_
      · rw [hpc]
        nofun
      · nofun
    | ret | kill => exact absurd hq hsame
    | @call p | @acquire p | @release p | @store p | @sleep p | @sleepPtable p | @wakeup p
    | @wakeup1 p | @sleepAcquire p | @sleepRelease p | @sleepStore p | @woken p | @wokenPtable p
    | @reacquire p | @wakeAcquire p | @wakeRelease p | @dispatch p =>
      rcases eq_or_ne q p with rfl | hne
      · rw [Sys.goto_pc_self] at hq
        cases hq
      · rw [Sys.goto_pc_of_ne _ _ hne] at hq
        exact absurd hq hsame

/-- The next step of `q` ends a call of `wakeup(ch)` or `wakeup1(ch)`. -/
def Finishes (c : Component σ L) (ch : Chan) (s : Sys P σ L) (q : P) : Prop :=
  (∃ l, s.pc q = .wakeRelease ch l) ∨
    ∃ l l', s.pc q = .code l ∧ c.code (s.proc q) l s.mem = .wakeup1 ch l'

/-- When a wakeup has ended nobody waits. -/
lemma Finishes.quiet (hd : Disciplined c held) (hl : Locked c held s) (hh : Hushed ch s) {q : P}
    (hq : Finishes c ch s q) (ht : Trans c s (.run q) s') : s'.Quiet ch := by
  rcases hq with ⟨l, hpc⟩ | ⟨l, l', hpc, hi⟩
  · exact (hh q l hpc).step_of_wakeRelease hd hl hpc ht
  · obtain ⟨hlk, hheld, -⟩ := hd.follows hi
    cases ht with
    | @wakeup1 _ l₁ ch' l'' hpc' hi' =>
      rw [hpc] at hpc'
      cases hpc'
      rw [hi] at hi'
      cases hi'
      refine hl.quiet_wakeup1 (hpc ▸ ⟨hlk.symm, hheld⟩) ?_ ?_
      · rw [hpc]
        nofun
      · nofun
    | acquire hpc' hi' | release hpc' hi' | store hpc' hi' | sleep hpc' hi' | sleepPtable hpc' hi'
    | wakeup hpc' hi' =>
      rw [hpc] at hpc'
      cases hpc'
      rw [hi] at hi'
      cases hi'
    | sleepAcquire hpc' | sleepRelease hpc' | sleepStore hpc' | woken hpc' | wokenPtable hpc'
    | reacquire hpc' | wakeAcquire hpc' | wake hpc' | wakeRelease hpc' =>
      rw [hpc] at hpc'
      cases hpc'

/-! ### Those who have to call `wakeup` -/

/-- A process that will still call `wakeup(ch)`. -/
def Owes (ch : Chan) (owes : L → Prop) : Pc L → Prop
  | .code l | .wakeRelease _ l => owes l
  | .wakeAcquire ch' l | .wake ch' l => ch' = ch ∨ owes l
  | _ => False

/-- Code at `l` owes a wakeup on `ch` after it has ended the reason `W` to wait there, and does not
sleep while it owes one.  What is due when the lock is released is left to each step. -/
def Pays (ch : Chan) (W : σ → Prop) (owes : L → Prop) (l : L) (m : σ) : Instr σ L → Prop
  | .sleep _ _ => ¬owes l
  | .acquire l' => owes l → owes l'
  | .store m' l' => W m ∨ owes l → W m' ∨ owes l'
  | .wakeup ch' l' | .wakeup1 ch' l' => owes l → ch' = ch ∨ owes l'
  | .release _ | .stay => True

structure Signals (c : Component σ L) (ch : Chan) (W : σ → Prop) (owes : L → Prop) : Prop where
  call {l l'} : c.calls l l' = true → owes l → owes l'
  code : ∀ x l m, Pays ch W owes l m (c.code x l m)

omit [DecidableEq P] in
lemma Signals.pays (hg : Signals c ch W owes) (h : c.code x l m = i) : Pays ch W owes l m i :=
  h ▸ hg.code x l m

/-- Whoever waits has a reason, or somebody will wake it. -/
structure Settled (ch : Chan) (W : σ → Prop) (owes : L → Prop) (s : Sys P σ L) : Prop where
  reasoned : Reasoned ch W s
  due : ∀ p, s.Waits ch p → W s.mem ∨ ∃ q, Owes ch owes (s.pc q)

/-- A debt stays with a process until it pays. -/
lemma owes_update {c₀ c' : Pc L} (hpc : s.pc p = c₀) (hc : Owes ch owes c₀ → Owes ch owes c')
    (h : ∃ q, Owes ch owes (s.pc q)) : ∃ q, Owes ch owes (update s.pc p c' q) := by
  obtain ⟨q, hq⟩ := h
  rcases eq_or_ne q p with rfl | hne
  · refine ⟨q, ?_⟩
    rw [update_self]
    exact hc (hpc ▸ hq)
  · refine ⟨q, ?_⟩
    rwa [update_of_ne hne]

/-- What is due before a step is due after it, if somebody still waits. -/
lemma Signals.due_step (hd : Disciplined c held) (hl : Locked c held s)
    (hg : Signals c ch W owes) (ht : Trans c s a s') {p₀ : P} (hp₀ : s'.Waits ch p₀)
    (hrel : ∀ p l l', a = .run p → s.pc p = .code l → c.code (s.proc p) l s.mem = .release l' →
      owes l → owes l' ∨ W s.mem)
    (h : W s.mem ∨ ∃ q, Owes ch owes (s.pc q)) : W s'.mem ∨ ∃ q, Owes ch owes (s'.pc q) := by
  cases ht with
  | call hpc hcall => exact h.imp_right (owes_update hpc (hg.call hcall))
  | acquire hpc hi => exact h.imp_right (owes_update hpc (hg.pays hi))
  | @release p l l' hpc hi =>
    by_cases hW : W s.mem
    · exact .inl hW
    · refine .inr (owes_update hpc (fun ho => ?_) (h.resolve_left hW))
      exact (hrel p l l' rfl hpc hi ho).resolve_right hW
  | @store p l m l' hpc hi =>
    by_cases hm : W m
    · exact .inl hm
    · refine .inr ?_
      rcases h with hW | ho
      · refine ⟨p, ?_⟩
        rw [Sys.goto_pc_self]
        exact (hg.pays hi (.inl hW)).resolve_left hm
      · exact owes_update hpc (fun ho => (hg.pays hi (.inr ho)).resolve_left hm) ho
  | sleep hpc hi | sleepPtable hpc hi =>
    exact h.imp_right (owes_update hpc fun ho => absurd ho (hg.pays hi))
  | wakeup hpc hi => exact h.imp_right (owes_update hpc fun ho => hg.pays hi ho)
  | @wakeup1 p l ch' l' hpc hi =>
    obtain ⟨hlk, hheld, -⟩ := hd.follows hi
    refine h.imp_right (owes_update hpc fun ho => ?_)
    rcases hg.pays hi ho with rfl | ho'
    · refine absurd hp₀ (hl.quiet_wakeup1 (q := p) ?_ ?_ ?_ p₀)
      · exact hpc ▸ ⟨hlk.symm, hheld⟩
      · rw [hpc]
        nofun
      · nofun
    · exact ho'
  | @wake p ch' l hpc =>
    refine h.imp_right (owes_update hpc fun ho => ?_)
    rcases ho with rfl | ho
    · refine absurd hp₀ (hl.quiet_wakeup1 (q := p) ?_ ?_ ?_ p₀)
      · exact hpc ▸ Or.inr rfl
      · rw [hpc]
        nofun
      · nofun
    · exact ho
  | sleepAcquire hpc | sleepRelease hpc | sleepStore hpc | woken hpc | wakeAcquire hpc
  | wakeRelease hpc | dispatch hpc => exact h.imp_right (owes_update hpc id)
  | wokenPtable hpc | reacquire hpc => exact h.imp_right (owes_update hpc False.elim)
  | ret => exact h
  | kill => exact h

/-- **No wakeup is lost**: a step keeps what waiting processes are due, when a process that
releases the lock owes nothing, or hands the debt on, or nobody is concerned. -/
theorem Settled.step (hd : Disciplined c held) (hl : Locked c held s) (hg : Signals c ch W owes)
    (h : Settled ch W owes s) (hsleep : SleepsFor c ch W s) (ht : Trans c s a s')
    (hrel : ∀ p l l', a = .run p → s.pc p = .code l → c.code (s.proc p) l s.mem = .release l' →
      owes l → owes l' ∨ W s.mem ∨ s.Quiet ch) : Settled ch W owes s' where
  reasoned := h.reasoned.step hd hl hsleep ht
  due p hp := by
    rcases ht.waits hp with hw | ⟨l, hw⟩ | ⟨-, l, l', hw, hi⟩
    · refine hg.due_step hd hl ht hp (fun q l l' ha hpc hi ho => ?_) (h.due p hw)
      exact (hrel q l l' ha hpc hi ho).imp_right fun hor => hor.resolve_right fun hq => hq p hw
    · refine hg.due_step hd hl ht hp (fun q l' l'' ha hpc hi ho => ?_)
        (.inl (h.reasoned p l (.inr hw)))
      exact .inr (h.reasoned p l (.inr hw))
    · have hW := hsleep p l l' hw hi
      exact hg.due_step hd hl ht hp (fun _ _ _ _ _ _ _ => .inr hW) (.inl hW)

omit [DecidableEq P] in
/-- When the lock is free and every wakeup is made under it nobody owes one. -/
lemma Settled.reason_of_free (hl : Locked c held s) (h : Settled ch W owes s)
    (howes : ∀ l, owes l → held l) (hwakeup : ∀ l, Signalled c ch l → held l)
    (hfree : s.lock c.lk = none) (hp : s.Sleeps ch p) : W s.mem := by
  refine (h.due p (.inr hp)).resolve_right ?_
  rintro ⟨q, hq⟩
  have hnot := hl.not_holds_of_free hfree q
  have hret := hl.returns q
  generalize s.pc q = c₀ at hq hnot hret
  cases c₀ with
  | code l => exact hnot ⟨rfl, howes l hq⟩
  | wakeAcquire ch' l =>
    rcases hq with rfl | hq
    · exact hnot ⟨rfl, hwakeup l hret⟩
    · exact hnot ⟨rfl, howes l hq⟩
  | wake ch' l =>
    rcases hq with rfl | hq
    · exact hnot (.inl ⟨rfl, hwakeup l hret⟩)
    · exact hnot (.inl ⟨rfl, howes l hq⟩)
  | wakeRelease ch' l => exact hnot (.inl ⟨rfl, howes l hq⟩)
  | _ => exact hq

end Waiting

/-! ### What the holder of the lock knows -/

/-- What a process knows about the memory while it holds the lock. -/
def Owned (c : Component σ L) (held : L → Prop) (K : L → σ → Prop) (s : Sys P σ L) : Prop :=
  ∀ p, Holds c held c.lk (s.pc p) → held (s.pc p).label → K (s.pc p).label s.mem

/-- What code at `l` knows it knows after its next operation. -/
def Learns (held : L → Prop) (K : L → σ → Prop) (l : L) (m : σ) : Instr σ L → Prop
  | .acquire l' => K l' m
  | .store m' l' => K l m → K l' m'
  -- The memory has changed when `sleep` returns.
  | .sleep _ l' => ∀ m', K l' m'
  | .wakeup _ l' | .wakeup1 _ l' => held l → K l m → K l' m
  | .release _ | .stay => True

/-- What the code makes true at each place under the lock. -/
def Knows (c : Component σ L) (held : L → Prop) (K : L → σ → Prop) : Prop :=
  ∀ x l m, Learns held K l m (c.code x l m)

variable {K : L → σ → Prop}

lemma Knows.learns (hk : Knows c held K) (h : c.code x l m = i) : Learns held K l m i :=
  h ▸ hk x l m

lemma Knows.resume (hk : Knows c held K) {ch : Chan} (h : Resumes c ch l) (m : σ) : K l m := by
  obtain ⟨x, l₀, m₀, hi⟩ := h
  exact hk.learns hi m

variable [DecidableEq P]

theorem Owned.step (hd : Disciplined c held) (hl : Locked c held s)
    (hk : Knows c held K) (h : Owned c held K s) (ht : Trans c s a s') : Owned c held K s' := by
  intro p hp hheld
  rcases ht.store_or_flow with ⟨q, l, m, l', -, hpc, hi, rfl⟩ | ⟨hmem, hflow⟩
  · rcases eq_or_ne p q with rfl | hne
    · obtain ⟨hl₁, -⟩ := hd.follows hi
      have hold := h p (hpc ▸ ⟨rfl, hl₁⟩) (hpc ▸ hl₁)
      rw [hpc] at hold
      rw [Sys.goto_pc_self]
      exact hk.learns hi hold
    · rw [Sys.goto_pc_of_ne _ _ hne] at hp
      exact absurd (hl.eq_of_store hd hpc hi hp) hne
  · rw [hmem]
    rcases hflow p with heq | hf
    · rw [heq] at hp hheld ⊢
      exact h p hp hheld
    · have hold := h p
      have hret := hl.returns p
      generalize s.pc p = c₀ at hf hold hret
      generalize s'.pc p = c₁ at hf hp hheld
      cases hf with
      | call hi => exact absurd hheld (hd.call hi).2
      | acquire hi => exact hk.learns hi
      | release hi => exact absurd hheld (hd.follows hi).2
      | sleep hi | sleepPtable hi => exact hk.learns hi _
      | wakeup hi =>
        have hheld' := (hd.follows hi).1.mpr hheld
        exact hk.learns hi hheld' (hold ⟨rfl, hheld'⟩ hheld')
      | wakeup1 hi =>
        obtain ⟨-, hl₁, -⟩ := hd.follows hi
        exact hk.learns hi hl₁ (hold ⟨rfl, hl₁⟩ hl₁)
      | sleepAcquire | sleepRelease => exact hk.resume hret.2 _
      | sleepStore => exact hp.elim
      | dispatch => exact hk.resume hret _
      | woken => exact hp.elim
      | wokenPtable =>
        obtain ⟨ch, hret⟩ := hret
        exact hk.resume hret _
      | reacquire =>
        obtain ⟨-, ch, hret⟩ := hret
        exact hk.resume hret _
      | wakeAcquire => exact hold ⟨rfl, hheld⟩ hheld
      | wake => exact hold hp hheld
      | wakeRelease => exact hold (.inl hp) hheld

/-! ### The start -/

/-- Nobody is in the code, which all can call from `l`. -/
def boot (m : σ) (l : L) (proc : P → Proc) : Sys P σ L where
  mem := m
  proc p := { proc p with state := .running, chan := none }
  pc _ := .code l

omit [DecidableEq P] in
lemma locked_boot (hl : ¬held l) (proc : P → Proc) :
    Locked c held (boot m l proc) where
  holder _ _ := ⟨nofun, fun h => absurd h.2 hl⟩
  returns _ := trivial

omit [DecidableEq P] in
lemma reasoned_boot (ch : Chan) (W : σ → Prop) (m : σ) (l : L) (proc : P → Proc) :
    Reasoned ch W (boot m l proc) := fun _ _ h => h.elim nofun nofun

omit [DecidableEq P] in
lemma settled_boot (ch : Chan) (W : σ → Prop) (owes : L → Prop) (m : σ) (l : L) (proc : P → Proc) :
    Settled ch W owes (boot m l proc) where
  reasoned := reasoned_boot ch W m l proc
  due _ h := h.elim nofun fun h => nomatch h.1

end Xv6.Sync
