import Xv6.Sync.Monitor

/-!
Waiting for a condition (`sleep`, `wakeup`, and the use of them that `sleep1.p` describes).

The condition is a test of the shared memory, which is changed under the lock `lk` only.  A
waiter takes the lock and, for each change that it makes, loops `while(!cond) sleep(chan, lk)`
before it.  A signaller changes the memory under the lock and calls `wakeup(chan)` before or
after it releases the lock; where `lk` is `ptable.lock` and still held it calls `wakeup1`.

* `condition`: the code of both.
* `no_lost_wakeup`: nobody sleeps while the condition stays true after a wakeup.
-/

namespace Xv6.Sync

open Transition

namespace Condition

/-- Where a waiter or a signaller is.  `fs` are the changes a waiter still makes, `f` is the
change of a signaller, which calls `wakeup` under the lock if it is `early`. -/
inductive Label (σ : Type) where
  | out
  | waitAcquire (fs : List (σ → σ))
  | waitTest (fs : List (σ → σ))
  | signalAcquire (f : σ → σ) (early : Bool)
  | signalSet (f : σ → σ) (early : Bool)
  | signalWake
  | signalDone
  | signalRelease
  | signalLate

variable {σ : Type}

def code (lk : SpinLock) (chan : Chan) (cond : σ → Bool) : Label σ → σ → Instr σ (Label σ)
  | .out, _ => .stay
  | .waitAcquire fs, _ => .acquire (.waitTest fs)
  | .waitTest [], _ => .release .out
  | .waitTest (f :: fs), m =>
    if !cond m then .sleep chan (.waitTest (f :: fs)) else .store (f m) (.waitTest fs)
  | .signalAcquire f early, _ => .acquire (.signalSet f early)
  | .signalSet f early, m => .store (f m) (if early then .signalWake else .signalRelease)
  | .signalWake, _ =>
    if lk = .ptable then .wakeup1 chan .signalDone else .wakeup chan .signalDone
  | .signalDone, _ => .release .out
  | .signalRelease, _ => .release .signalLate
  | .signalLate, _ => .wakeup chan .out

def calls : Label σ → Label σ → Bool
  | .out, .waitAcquire _ | .out, .signalAcquire _ _ => true
  | _, _ => false

/-- The places under the lock. -/
def Held : Label σ → Prop
  | .waitTest _ | .signalSet _ _ | .signalWake | .signalDone | .signalRelease => True
  | _ => False

end Condition

open Condition

variable {P σ : Type} [DecidableEq P] {lk : SpinLock} {chan : Chan} {cond : σ → Bool}

/-- The waiters and signallers of a condition. -/
def condition (lk : SpinLock) (chan : Chan) (cond : σ → Bool) : Component σ (Label σ) where
  lk := lk
  code _ := Condition.code lk chan cond
  calls := Condition.calls

lemma condition_disciplined (lk : SpinLock) (chan : Chan) (cond : σ → Bool) :
    Disciplined (condition lk chan cond) Held where
  call {l l'} h := by
    cases l with
    | out => cases l' <;> simp_all [condition, Condition.calls, Held]
    | _ => cases l' <;> cases h
  code _ l m := by
    cases l with
    | out => trivial
    | waitAcquire fs | signalAcquire f early => exact ⟨id, trivial⟩
    | waitTest fs =>
      cases fs with
      | nil => exact ⟨trivial, id⟩
      | cons f fs =>
        by_cases h : cond m <;> simp [condition, Condition.code, h, Follows, Held]
    | signalSet f early => cases early <;> exact ⟨trivial, trivial⟩
    | signalWake =>
      by_cases h : lk = .ptable <;> simp [condition, Condition.code, h, Follows, Held]
    | signalDone | signalRelease => exact ⟨trivial, id⟩
    | signalLate => exact ⟨Iff.rfl, fun _ => id⟩

/-- A waiter goes to sleep only when the condition is false. -/
lemma condition_sleep {x : Proc} {l l' : Label σ} {m : σ} {ch : Chan}
    (h : (condition lk chan cond).code x l m = .sleep ch l') : cond m = false := by
  cases l with
  | waitTest fs =>
    cases fs with
    | nil => cases h
    | cons f fs =>
      by_contra hc
      simp [condition, Condition.code, hc] at h
  | signalWake =>
    simp only [condition, Condition.code] at h
    split at h <;> cases h
  | _ => cases h

/-- What every run keeps: the locks, the reasons, and that a wakeup leaves nobody waiting. -/
lemma condition_of_run {m : σ} {proc : P → Proc} {tr : List (Sys P σ (Label σ) × Act P (Label σ))}
    {s : Sys P σ (Label σ)} (h : Run (step (condition lk chan cond)) (boot m .out proc) tr s) :
    Locked (condition lk chan cond) Held s ∧ Reasoned chan (cond · = false) s ∧ Hushed chan s := by
  have hd := condition_disciplined lk chan cond
  refine h.invariant (I := fun s => Locked (condition lk chan cond) Held s ∧
    Reasoned chan (cond · = false) s ∧ Hushed chan s) ?_ ?_
  · exact ⟨locked_boot id proc, reasoned_boot _ _ m _ proc, fun _ _ => nofun⟩
  · rintro s a s' ⟨hl, hr, hh⟩ hs
    have ht := trans_of_step hs
    exact ⟨hl.step hd ht, hr.step hd hl (fun _ _ _ _ => condition_sleep) ht, hh.step hd hl ht⟩

/-- **No wakeup is lost.**  When a process has ended a call of `wakeup(chan)`, or of `wakeup1`
under `ptable.lock`, and the condition is true in every state since then, nobody is `SLEEPING`
on the channel. -/
theorem no_lost_wakeup {m : σ} {proc : P → Proc}
    {tr tr' : List (Sys P σ (Label σ) × Act P (Label σ))} {s t : Sys P σ (Label σ)} {q : P}
    (h : Run (step (condition lk chan cond)) (boot m .out proc) (tr ++ (s, .run q) :: tr') t)
    (hq : Finishes (condition lk chan cond) chan s q) (hcond : ∀ e ∈ tr', cond e.1.mem = true)
    (p : P) : ¬t.Sleeps chan p := by
  have hd := condition_disciplined lk chan cond
  obtain ⟨s₁, hs, hstep, hrest⟩ := h.split_cons
  obtain ⟨hl, -, hh⟩ := condition_of_run hs
  have hquiet : s₁.Quiet chan := hq.quiet hd hl hh (trans_of_step hstep)
  have hreach : Reachable (step (condition lk chan cond)) (boot m .out proc) s₁ :=
    ⟨_, hs.snoc hstep⟩
  -- From here on the condition keeps everybody from going to sleep.
  clear hstep hs h hq hl hh
  induction hrest with
  | nil => exact fun hp => hquiet p (.inr hp)
  | @cons u u' t a tr' hstep _ ih =>
    obtain ⟨tr₁, hrun⟩ := hreach
    obtain ⟨-, hr, -⟩ := condition_of_run hrun
    have hu : cond u.mem = true := hcond (u, a) List.mem_cons_self
    refine ih (fun e he => hcond e (List.mem_cons_of_mem _ he)) ?_ ⟨_, hrun.snoc hstep⟩
    refine hquiet.step hr (fun _ _ _ _ => condition_sleep) ?_ (trans_of_step hstep)
    simp [hu]

/-- Process 0 waits for a flag to be set.  When it has released the lock and not yet gone to
sleep process 1 sets the flag, and waits for `ptable.lock` to call `wakeup`. -/
def handOver : List (Act ℕ (Label Bool)) :=
  [.call 0 (.waitAcquire [fun _ => false]), .run 0, .run 0, .run 0, .run 0,
    .call 1 (.signalAcquire (fun _ => true) true), .run 1, .run 1, .run 1]

/-- Process 0 sleeps, and process 1 goes on to the end of `wakeup1`. -/
def wakeUp : List (Act ℕ (Label Bool)) := [.run 0, .ret, .run 1, .run 1]

theorem no_lost_wakeup_handOver :
    ∃ (tr tr' : List (Sys ℕ Bool (Label Bool) × Act ℕ (Label Bool)))
      (s t : Sys ℕ Bool (Label Bool)),
      Run (step (condition .own (.obj 0) id)) (boot false .out fun _ => Proc.zero)
        (tr ++ (s, .run 1) :: tr') t ∧
      (∃ l, s.pc 1 = .wakeRelease (.obj 0) l) ∧ (∀ e ∈ tr', e.1.mem = true) ∧
      (t.proc 0).state = .runnable ∧ ¬t.Sleeps (.obj 0) 0 := by
  obtain ⟨s, hs, hpc, s₁, hs₁, hmem, t, ht, hstate⟩ :
      ∃ s, exec (step (condition .own (.obj 0) id)) (boot false .out fun _ => Proc.zero)
          (handOver ++ wakeUp) = some s ∧
        (match s.pc 1 with
          | .wakeRelease ch _ => decide (ch = .obj 0)
          | _ => false) = true ∧
        ∃ s₁, step (condition .own (.obj 0) id) s (.run 1) = some s₁ ∧ s₁.mem = true ∧
        ∃ t, step (condition .own (.obj 0) id) s₁ (.run 1) = some t ∧
          (t.proc 0).state = .runnable := by
    decide +kernel
  have hq : ∃ l, s.pc 1 = .wakeRelease (.obj 0) l := by
    split at hpc
    · rename_i ch l hl
      exact ⟨l, of_decide_eq_true hpc ▸ hl⟩
    · cases hpc
  have hcond : ∀ e ∈ [((s₁, .run 1) : Sys ℕ Bool (Label Bool) × Act ℕ (Label Bool))],
      e.1.mem = true := by
    intro e he
    rw [List.mem_singleton.mp he]
    exact hmem
  have hrun := (run_traceOf hs).append (.cons hs₁ (.cons ht (.nil t)))
  exact ⟨_, _, s, t, hrun, hq, hcond, hstate, no_lost_wakeup hrun (.inl hq) hcond 0⟩

end Xv6.Sync
