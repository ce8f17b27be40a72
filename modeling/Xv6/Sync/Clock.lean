import Xv6.Sync.Monitor

/-!
The clock (`sys_sleep` and `sys_uptime` of `sysproc.c`, the timer interrupt of `trap.c`).

A process in `sys_sleep(n)` sleeps on `&ticks` until `ticks - ticks0 < n` fails, where the `int` `n`
is compared as a `uint` and `ticks` wraps; each tick wakes everybody, and who is not due yet goes to
sleep again.  The time differs from process to process, so the reason to wait is read off the place
of each one: `Timely`.  `sleeper_not_due`: nobody sleeps longer than it asked for.
-/

namespace Xv6.Sync

open Transition Function

namespace Clock

inductive Label where
  | out
  | sleep (n : UInt32)
  | setTicks0 (n : UInt32)
  | whileBefore (n ticks0 : UInt32)
  | uptime
  | uptimeDone
  | timer
  | tick
  | wakeup
  | timerDone
  deriving DecidableEq

def code (chan : Chan) (x : Proc) : Label → UInt32 → Instr UInt32 Label
  | .out, _ => .stay
  | .sleep n, _ => .acquire (.setTicks0 n)
  | .setTicks0 n, ticks => .store ticks (.whileBefore n ticks)
  | .whileBefore n ticks0, ticks =>
    if ticks - ticks0 < n then
      if x.killed then .release .out else .sleep chan (.whileBefore n ticks0)
    else .release .out
  | .uptime, _ => .acquire .uptimeDone
  | .uptimeDone, _ => .release .out
  | .timer, _ => .acquire .tick
  | .tick, ticks => .store (ticks + 1) .wakeup
  | .wakeup, _ => .wakeup chan .timerDone
  | .timerDone, _ => .release .out

/-- A timer interrupt comes to whoever runs on CPU 0. -/
def calls : Label → Label → Bool
  | .out, .sleep _ | .out, .uptime | .out, .timer => true
  | _, _ => false

/-- The places under `tickslock`. -/
def Held : Label → Prop
  | .setTicks0 _ | .whileBefore _ _ | .uptimeDone | .tick | .wakeup | .timerDone => True
  | _ => False

/-- The tick that has not been announced yet. -/
def Ticked : Label → Prop
  | .wakeup => True
  | _ => False

end Clock

open Clock

/-- The users of `ticks`; `chan` is its address. -/
def clock (chan : Chan) : Component UInt32 Label where
  lk := .own
  code := Clock.code chan
  calls := Clock.calls

variable {P : Type} [DecidableEq P] {chan : Chan} {s s' : Sys P UInt32 Label}
  {a : Act P Label} {p : P} {n ticks0 : UInt32}

lemma clock_disciplined (chan : Chan) : Disciplined (clock chan) Held where
  call {l l'} h := by
    cases l <;> cases l' <;> first | exact ⟨id, id⟩ | cases h
  code x l m := by
    cases l with
    | out => trivial
    | sleep | uptime | timer => exact ⟨id, trivial⟩
    | setTicks0 | tick => exact ⟨trivial, trivial⟩
    | whileBefore n ticks0 =>
      simp only [clock, Clock.code]
      split
      · split
        · exact ⟨trivial, id⟩
        · exact ⟨trivial, trivial⟩
      · exact ⟨trivial, id⟩
    | wakeup => exact ⟨Iff.rfl, nofun⟩
    | uptimeDone | timerDone => exact ⟨trivial, id⟩

/-- Whoever goes to sleep is not due yet. -/
lemma sleep_of_clock {x : Proc} {l l' : Label} {m : UInt32} {ch : Chan}
    (h : (clock chan).code x l m = .sleep ch l') :
    ∃ n ticks0, l' = .whileBefore n ticks0 ∧ m - ticks0 < n := by
  cases l with
  | whileBefore n ticks0 =>
    simp only [clock, Clock.code] at h
    split at h
    · next hlt =>
      split at h <;> cases h
      exact ⟨n, ticks0, rfl, hlt⟩
    · cases h
  | _ => cases h

/-- A tick ends any reason to wait, and is announced. -/
lemma clock_signals (chan : Chan) (W : UInt32 → Prop) : Signals (clock chan) chan W Ticked where
  call {l l'} h := by
    cases l <;> first | exact False.elim | cases h
  code x l m := by
    cases l with
    | whileBefore n ticks0 =>
      by_cases hlt : m - ticks0 < n <;> by_cases hk : x.killed <;>
        simp [clock, Clock.code, hlt, hk, Pays, Ticked]
    | _ => simp [clock, Clock.code, Pays, Ticked]

/-- **Nobody is late**: a process on its way to sleep is not due yet, and one that waits is not due
either, or somebody will wake it. -/
structure Timely (chan : Chan) (s : Sys P UInt32 Label) : Prop where
  going : ∀ p n ticks0, s.pc p = .sleepAcquire chan (.whileBefore n ticks0) ∨
    s.pc p = .sleepRelease chan (.whileBefore n ticks0) → s.mem - ticks0 < n
  waiting : ∀ p n ticks0, s.Waits chan p → s.label p = .whileBefore n ticks0 →
    s.mem - ticks0 < n ∨ ∃ q, Owes chan Ticked (s.pc q)

/-- The lock keeps the time as it was tested. -/
lemma Timely.going_step (h : Timely chan s) (hl : Locked (clock chan) Held s)
    (ht : Trans (clock chan) s a s')
    (hp : s'.pc p = .sleepAcquire chan (.whileBefore n ticks0) ∨
      s'.pc p = .sleepRelease chan (.whileBefore n ticks0)) : s'.mem - ticks0 < n := by
  rcases ht.store_or_flow with ⟨q, l, m, l', -, hpc, hi, rfl⟩ | ⟨hmem, hflow⟩
  · have hne : p ≠ q := by
      rintro rfl
      rw [Sys.goto_pc_self] at hp
      exact hp.elim nofun nofun
    rw [Sys.goto_pc_of_ne _ _ hne] at hp
    refine absurd (hl.eq_of_store (clock_disciplined chan) hpc hi ?_) hne
    exact hp.elim (fun hp => hp ▸ rfl) fun hp => hp ▸ Or.inl rfl
  · rw [hmem]
    rcases hflow p with heq | hf
    · exact h.going p n ticks0 (heq ▸ hp)
    · generalize hold : s.pc p = c₀ at hf
      rcases hp with hp | hp <;> rw [hp] at hf <;> cases hf
      · next l hi =>
        obtain ⟨n', ticks', hl', hlt⟩ := sleep_of_clock hi
        cases hl'
        exact hlt
      · exact h.going p n ticks0 (.inl hold)

/-- In a call of `sleep` a process keeps its place. -/
lemma label_of_ne_code (hcode : ∀ l, s.pc p ≠ .code l) (ht : Trans (clock chan) s a s') :
    s'.label p = s.label p := by
  rcases ht.store_or_flow with ⟨q, l, m, l', -, hpc, -, rfl⟩ | ⟨-, hflow⟩
  · rw [Sys.label_goto, update_of_ne]
    · rfl
    · rintro rfl
      exact hcode l hpc
  · rcases hflow p with heq | hf
    · rw [Sys.label, heq, Sys.label]
    · refine hf.label.resolve_right ?_
      rintro ⟨l, hl, -⟩
      exact hcode l hl

lemma Timely.step (h : Timely chan s) (hl : Locked (clock chan) Held s) (habed : Abed s)
    (ht : Trans (clock chan) s a s') : Timely chan s' where
  going _ _ _ hp := h.going_step hl ht hp
  waiting p n ticks0 hp hlabel := by
    refine (clock_signals chan (· - ticks0 < n)).due_step (clock_disciplined chan) hl ht hp ?_ ?_
    · -- The timer does not release `tickslock` before it has called `wakeup`.
      intro q l l' _ _ hi ho
      cases l <;> first | exact ho.elim | cases hi
    · rcases ht.waits hp with hw | ⟨l, hw⟩ | ⟨hlk, -⟩
      · refine h.waiting p n ticks0 hw (label_of_ne_code (fun l hpc => ?_) ht ▸ hlabel)
        rcases hw with ⟨l', hw⟩ | hw
        · exact nomatch hpc.symm.trans hw
        · obtain ⟨l', hw⟩ := habed p chan hw
          exact nomatch hpc.symm.trans hw
      · have hsame := label_of_ne_code (fun l' hpc => nomatch hpc.symm.trans hw) ht
        rw [hsame, Sys.label, hw] at hlabel
        exact .inl (h.going p n ticks0 (.inr (hlabel ▸ hw)))
      · cases hlk

lemma clock_of_run {ticks : UInt32} {proc : P → Proc} {tr : List (Sys P UInt32 Label × Act P Label)}
    (h : Run (step (clock chan)) (boot ticks .out proc) tr s) :
    Locked (clock chan) Held s ∧ Abed s ∧ Timely chan s := by
  refine h.invariant (I := fun s => Locked (clock chan) Held s ∧ Abed s ∧ Timely chan s) ?_ ?_
  · exact ⟨locked_boot id proc, fun _ _ h => (nomatch h.1), fun _ _ _ h => h.elim nofun nofun,
      fun _ _ _ h => h.elim nofun fun h => (nomatch h.1)⟩
  · rintro s a s' ⟨hl, habed, htime⟩ hs
    have ht := trans_of_step hs
    exact ⟨hl.step (clock_disciplined chan) ht, habed.step ht, htime.step hl habed ht⟩

/-- **Nobody oversleeps.** In every run, whenever `tickslock` is free, a process that is `SLEEPING`
on `&ticks` is in `sys_sleep(n)` and fewer than `n` ticks have passed since it began, modulo
`2^32`. -/
theorem sleeper_not_due {ticks : UInt32} {proc : P → Proc}
    {tr : List (Sys P UInt32 Label × Act P Label)}
    (h : Run (step (clock chan)) (boot ticks .out proc) tr s) (hfree : s.lock .own = none)
    (hp : s.Sleeps chan p) :
    ∃ n ticks0, s.label p = .whileBefore n ticks0 ∧ s.mem - ticks0 < n := by
  obtain ⟨hl, habed, htime⟩ := clock_of_run h
  obtain ⟨x, l, m, hi⟩ := Sys.Waits.resumes hl habed (.inr hp)
  obtain ⟨n, ticks0, hlabel, -⟩ := sleep_of_clock hi
  refine ⟨n, ticks0, hlabel, by_contra fun hlate => ?_⟩
  have howed := (htime.waiting p n ticks0 (.inr hp) hlabel).resolve_left hlate
  -- A tick that is not announced yet has the lock.
  have hsettled : Settled chan (fun _ => False) Ticked s := by
    refine ⟨fun q l hq => hl.not_holds_of_free hfree q ?_, fun _ _ => .inr howed⟩
    exact hq.elim (fun hq => hq ▸ rfl) fun hq => hq ▸ Or.inl rfl
  refine hsettled.reason_of_free hl (fun l ho => ?_) (fun l hg => ?_) hfree hp
  · cases l <;> first | exact trivial | exact ho.elim
  · obtain ⟨x, l₀, m, hi⟩ := hg
    cases l₀ with
    | wakeup =>
      cases hi
      exact trivial
    | whileBefore n ticks0 =>
      simp only [clock, Clock.code] at hi
      split at hi
      · split at hi <;> cases hi
      · cases hi
    | _ => cases hi

/-- Process 0 sleeps for two ticks.  Process 1 is interrupted by the timer, and process 0 goes to
sleep again. -/
def oneTick : List (Act ℕ Label) :=
  [.call 0 (.sleep 2), .run 0, .run 0, .run 0, .run 0, .run 0, .run 0, .ret,
    .call 1 .timer, .run 1, .run 1, .run 1, .run 1, .run 1, .run 1, .run 1,
    .dispatch 0, .run 0, .run 0, .run 0, .run 0, .run 0, .run 0, .ret]

theorem sleeper_not_due_oneTick :
    ∃ s, exec (step (clock (.obj 3))) (boot 0xffffffff .out fun _ : ℕ => Proc.zero) oneTick
      = some s ∧ s.mem = 0 ∧ s.lock .own = none ∧ s.Sleeps (.obj 3) 0 ∧
      ∃ n ticks0, s.label 0 = .whileBefore n ticks0 ∧ s.mem - ticks0 < n := by
  obtain ⟨s, hs, hmem, hfree, hp⟩ :
      ∃ s, exec (step (clock (.obj 3))) (boot 0xffffffff .out fun _ => Proc.zero) oneTick = some s ∧
        s.mem = 0 ∧ s.lock .own = none ∧ s.Sleeps (.obj 3) 0 := by
    decide +kernel
  exact ⟨s, hs, hmem, hfree, hp, sleeper_not_due (run_traceOf hs) hfree hp⟩

end Xv6.Sync
