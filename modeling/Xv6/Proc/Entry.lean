import Xv6.Proc.Slots

/-!
What one step does to one entry of the process table.

`Touch s a q x` lists the values `x` the entry `q` can have after the action `a`:
the entry of a new process, the same entry with its state, channel or parent
changed, with the gid of its parent or of a `setgroup`, given back, reaped, or
marked as killed.
`touch_of_trans` says that these are all, apart from `tick_accounting`, which
counts on every entry.  The results about pids, kills and tick counters follow
from it without looking at the steps again.

* `allocates`: the entry a step allocates.
* `pid_of_trans`: a pid is given to an entry when it is allocated, and a process
  keeps it.
* `proc_table_invariant`: with fewer than `2^31 - 1` allocations pids are positive
  and pairwise distinct, and with the lock free a process is `RUNNING` exactly if
  it is the current process of exactly one CPU.
-/

namespace Xv6

open Ptable Transition

variable {k : ℕ} {s s' : Kernel k} {a : Act k}

/-! ### The steps that allocate -/

/-- The entry a step allocates. -/
def allocates (s : Kernel k) : Act k → Option Slot
  | .userinit => (allocproc s.mem).2
  | .fork c _ => (s.enterUser c).bind fun _ => (allocproc s.mem).2
  | _ => none

/-- A later step of `fork` allocates nothing. -/
lemma allocates_fork {c : Fin k} {p np : Slot} {pt : ForkAt} (ok : Bool)
    (hp : (s.cpu c).proc = some p) (hc : s.code p = .fork pt np) :
    allocates s (.fork c ok) = none := by
  cases he : s.enterUser c with
  | none => simp [allocates, he]
  | some p' =>
    have h := enterUser_eq_some.mp he
    rw [hp] at h
    simp only [Option.some.injEq] at h
    obtain ⟨_, rfl, h⟩ := h
    rw [hc] at h
    simp at h

/-- A pass of `wait` is no tick and allocates nothing. -/
lemma allocates_waitFrom {c : Fin k} {p : Slot} {m : Ptable} (hw : WaitFrom s c p a m) :
    a ≠ .tick ∧ allocates s a = none := by
  cases hw with
  | call _ _ _ ha => rcases ha with rfl | ⟨w, r, rfl⟩ <;> simp [allocates]
  | woken => simp [allocates]

/-! ### The values an entry can take -/

/-- The values of the entry `q` after the action `a`, ticks apart. -/
inductive Touch (s : Kernel k) (a : Act k) (q : Slot) : Proc → Prop where
  | alloc {st} : allocates s a = some q → (s.mem.proc q).state = .unused →
      st = .embryo ∨ st = .runnable →
      Touch s a q { (s.mem.proc q).embryo s.mem.nextpid with state := st }
  | move {st ch pa} : allocates s a ≠ some q → (st = .unused ↔ (s.mem.proc q).state = .unused) →
      (st = .embryo → (s.mem.proc q).state = .embryo) →
      Touch s a q { s.mem.proc q with state := st, chan := ch, parent := pa }
  | inherit {c ok p} : a = .fork c ok → s.runs c = some p → s.code p = .fork .parented q →
      Touch s a q { s.mem.proc q with gid := (s.mem.proc p).gid }
  | setgroup {c pid g} : a = .setgroup c pid g → (setgroupK s.mem pid g).2 = 0 →
      (s.mem.proc q).pid = pid → (s.mem.proc q).state ≠ .unused →
      Touch s a q { s.mem.proc q with gid := g }
  | fail {c p pt} : a = .fork c false → s.runs c = some p → s.code p = .fork pt q →
      pt = .allocated ∨ pt = .stacked → Touch s a q { s.mem.proc q with state := .unused }
  | reap {x} : allocates s a ≠ some q → (s.mem.proc q).state = .zombie →
      x = (s.mem.proc q).reapWait ∨ x = (s.mem.proc q).reapWaitx → Touch s a q x
  | kill {c pid} : a = .kill c pid → findProc s.mem (fun x => x.pid == pid) = some q →
      Touch s a q
        { s.mem.proc q with
          killed := true
          state := if (s.mem.proc q).state = .sleeping then .runnable else (s.mem.proc q).state }
  | trap {c} : a = .trap c → s.runs c = some q → Touch s a q { s.mem.proc q with killed := true }

namespace Touch

variable {p q : Slot} {x : Proc}

/-- An entry left alone. -/
lemma keep (h : allocates s a ≠ some q) : Touch s a q (s.mem.proc q) := .move h Iff.rfl id

/-- A step that overwrites one entry leaves the others alone. -/
lemma setProc (h : allocates s a ≠ some q) (hx : q = p → Touch s a q x) :
    Touch s a q ((s.mem.setProc p x).proc q) := by
  rw [setProc_proc]
  split
  · rename_i hq; exact hx hq
  · exact .keep h

end Touch

/-- **All that a step does to an entry**: it ticks, or it is one of the changes of
`Touch`. -/
theorem touch_of_trans (h : Wf s) (ht : Trans s a s') (q : Slot) :
    (a = .tick ∧ s'.mem.proc q = (s.mem.proc q).tick)
      ∨ (a ≠ .tick ∧ Touch s a q (s'.mem.proc q)) := by
  cases ht with
  | tick => exact Or.inl ⟨rfl, rfl⟩
  | userinit _ hn =>
    refine Or.inr ⟨by simp, ?_⟩
    rcases userinit_cases s.mem with ⟨_, hf⟩ | ⟨p, ha, hp, hproc, _⟩
    · exact absurd (h.noInit hn 0) (hf 0)
    · rw [hproc]
      split
      · rename_i hq
        subst hq
        exact .alloc ha hp (Or.inr rfl)
      · rename_i hq
        refine .keep ?_
        rw [allocates, ha]
        exact fun hc => hq (Option.some.inj hc).symm
  | idle | resume | ret => exact Or.inr ⟨by simp, .keep (by simp [allocates])⟩
  | emptyGroup _ _ _ hp =>
    rw [(fssPickProcInGroup_none hp).1]
    exact Or.inr ⟨by simp, .keep (by simp [allocates])⟩
  | dispatch _ _ _ hp =>
    obtain ⟨rfl, hr, _⟩ := fssPickProcInGroup_some hp
    refine Or.inr ⟨by simp, Touch.setProc (by simp [allocates]) fun hq => ?_⟩
    subst hq
    exact .move (by simp [allocates]) (by simp [hr]) (by simp)
  | resumeSleep =>
    refine Or.inr ⟨by simp, Touch.setProc (by simp [allocates]) fun hq => ?_⟩
    subst hq
    exact .move (by simp [allocates]) Iff.rfl id
  | @waitReap _ c p m z x hw hz hx =>
    obtain ⟨hna, hal⟩ := allocates_waitFrom hw
    obtain ⟨ch, rfl, hrun⟩ := h.waitFrom_mem hw
    refine Or.inr ⟨hna, ?_⟩
    -- the zombie is not the caller, which runs
    have hzp : z ≠ p := by
      rintro rfl
      have h1 := (waitPass_reap hz).2
      rw [setProc_proc_self] at h1
      simp [hrun] at h1
    have hzm : (s.mem.setProc p { s.mem.proc p with chan := ch }).proc z = s.mem.proc z := by
      rw [setProc_proc, if_neg hzp]
    rw [hzm] at hx
    have hzs := (waitPass_reap hz).2
    rw [hzm] at hzs
    show Touch s a q ((((s.mem.setProc p _).setProc z x)).proc q)
    rw [setProc_proc]
    split
    · rename_i hq
      subst hq
      exact .reap (by simp [hal]) hzs hx
    · refine Touch.setProc (by simp [hal]) fun hq => ?_
      subst hq
      exact .move (by simp [hal]) Iff.rfl id
  | waitFail hw _ =>
    obtain ⟨hna, hal⟩ := allocates_waitFrom hw
    obtain ⟨ch, rfl, hrun⟩ := h.waitFrom_mem hw
    refine Or.inr ⟨hna, Touch.setProc (by simp [hal]) fun hq => ?_⟩
    subst hq
    exact .move (by simp [hal]) Iff.rfl id
  | @waitSleep _ c p m cx hw _ _ =>
    obtain ⟨hna, hal⟩ := allocates_waitFrom hw
    obtain ⟨ch, rfl, hrun⟩ := h.waitFrom_mem hw
    refine Or.inr ⟨hna, ?_⟩
    simp only [Kernel.sched, Xv6.sleep, setProc_proc, if_true]
    split
    · rename_i hq
      subst hq
      exact .move (by simp [hal]) (by simp [hrun]) (by simp)
    · exact .keep (by simp [hal])
  | @yield c p hl hp | @sleep c p a hl hp =>
    refine Or.inr ⟨by simp, Touch.setProc (by simp [allocates]) fun hq => ?_⟩
    subst hq
    exact .move (by simp [allocates]) (by simp [h.onCpu c q hp (by simp [hl])]) (by simp)
  | @exit c p hl hp =>
    refine Or.inr ⟨by simp, ?_⟩
    simp only [Kernel.sched, exit_proc]
    by_cases hq : q = p
    · subst hq
      refine .move (by simp [allocates]) ?_ ?_ <;>
        simp [exitState_self, h.onCpu c q hp (by simp [hl])]
    · rcases exitState_ne (t := s.mem) hq with he | ⟨he, he'⟩
      · exact .move (by simp [allocates]) (by rw [he]) (by rw [he]; exact id)
      · exact .move (by simp [allocates]) (by simp [he, he']) (by simp [he'])
  | forkFull hl hp hc ha =>
    exact Or.inr ⟨by simp, .keep (by simp [allocates, enterUser_eq_some.mpr ⟨hl, hp, hc⟩, ha])⟩
  | @forkAlloc c p ok np t hl hp hc ha =>
    refine Or.inr ⟨by simp, ?_⟩
    have hal : allocates s (.fork c ok) = some np := by
      simp [allocates, enterUser_eq_some.mpr ⟨hl, hp, hc⟩, ha]
    obtain ⟨hnp, hproc, _⟩ := allocproc_some ha
    simp only [Kernel.goto, hproc]
    split
    · rename_i hq
      subst hq
      exact .alloc hal hnp (Or.inl rfl)
    · rename_i hq
      exact .keep (by rw [hal]; exact fun hc => hq (Option.some.inj hc).symm)
  | forkStack hr hc | forkCopy hr hc =>
    exact Or.inr ⟨by simp, .keep (by simp [allocates_fork true (runs_eq_some.mp hr).2.2 hc])⟩
  | @forkFail c p pt np hr hc hpt =>
    have hal := allocates_fork false (runs_eq_some.mp hr).2.2 hc
    refine Or.inr ⟨by simp, Touch.setProc (by simp [hal]) fun hq => ?_⟩
    subst hq
    exact .fail rfl hr hc hpt
  | @forkParent c p ok np hr hc =>
    have hal := allocates_fork ok (runs_eq_some.mp hr).2.2 hc
    refine Or.inr ⟨by simp, Touch.setProc (by simp [hal]) fun hq => ?_⟩
    subst hq
    exact .move (by simp [hal]) Iff.rfl id
  | @forkGid c p ok np hr hc =>
    have hal := allocates_fork ok (runs_eq_some.mp hr).2.2 hc
    refine Or.inr ⟨by simp, Touch.setProc (by simp [hal]) fun hq => ?_⟩
    subst hq
    exact .inherit rfl hr hc
  | @forkEnsure c p ok np hr hc =>
    have hal := allocates_fork ok (runs_eq_some.mp hr).2.2 hc
    refine Or.inr ⟨by simp, ?_⟩
    simp only [Kernel.goto, Xv6.forkEnsure, fssGroupEnsure_proc]
    exact .keep (by simp [hal])
  | @forkRunnable c p ok np _ hp hc =>
    have hal := allocates_fork ok hp hc
    refine Or.inr ⟨by simp, Touch.setProc (by simp [hal]) fun hq => ?_⟩
    subst hq
    exact .move (by simp [hal]) (by simp [(h.forking _ _ _ hc).2]) (by simp)
  | @kill c p pid _ _ _ =>
    refine Or.inr ⟨by simp, ?_⟩
    rcases kill_cases s.mem pid with ⟨hk, _⟩ | ⟨r, hf, _, hk⟩
    · rw [hk]; exact .keep (by simp [allocates])
    · rw [hk]
      refine Touch.setProc (by simp [allocates]) fun hq => ?_
      subst hq
      exact .kill rfl hf
  | trap hr _ =>
    refine Or.inr ⟨by simp, Touch.setProc (by simp [allocates]) fun hq => ?_⟩
    subst hq
    exact .trap rfl hr
  | @setgroup c p pid gid _ _ _ =>
    refine Or.inr ⟨by simp, ?_⟩
    rcases setgroupK_cases s.mem pid gid with hg | ⟨_, _, hg⟩ | ⟨_, _, r, hr, hu, hg⟩
    · rw [hg]; exact .keep (by simp [allocates])
    · rw [hg]
      simp only [fssGroupEnsure_proc]
      exact .keep (by simp [allocates])
    · simp only [hg, setProc_proc, fssGroupEnsure_proc]
      split
      · rename_i hq
        subst hq
        exact .setgroup rfl (by rw [hg]) hr hu
      · exact .keep (by simp [allocates])
  | wakeup _ =>
    refine Or.inr ⟨by simp, .move (by simp [allocates]) ?_ ?_⟩ <;> split
    · rename_i hs; simp [hs.1]
    · rfl
    · simp
    · exact id

/-- The entry of a new process. -/
lemma proc_of_alloc (h : Wf s) (ht : Trans s a s') {p : Slot} (ha : allocates s a = some p) :
    (s.mem.proc p).state = .unused
      ∧ ∃ st, s'.mem.proc p = { (s.mem.proc p).embryo s.mem.nextpid with state := st } := by
  rcases touch_of_trans h ht p with ⟨rfl, _⟩ | ⟨_, hx⟩
  · simp [allocates] at ha
  · generalize s'.mem.proc p = x at hx
    cases hx with
    | @alloc st _ hu _ => exact ⟨hu, st, rfl⟩
    | move hne _ _ | reap hne _ _ => exact absurd ha hne
    | inherit hf hr hc | fail hf hr hc _ =>
      subst hf
      simp [allocates_fork _ (runs_eq_some.mp hr).2.2 hc] at ha
    | setgroup he _ _ _ | kill he _ | trap he _ =>
      subst he
      simp [allocates] at ha

/-- The pid counter moves exactly when an entry is allocated. -/
lemma nextpid_of_trans (h : Wf s) (ht : Trans s a s') :
    s'.mem.nextpid =
      if (allocates s a).isSome then int32 (s.mem.nextpid + 1) else s.mem.nextpid := by
  cases ht with
  | userinit _ hn =>
    rcases userinit_cases s.mem with ⟨_, hf⟩ | ⟨p, ha, _, _, _, hnx, _⟩
    · exact absurd (h.noInit hn 0) (hf 0)
    · simp [allocates, ha, hnx]
  | emptyGroup _ _ _ hp => simp [allocates, (fssPickProcInGroup_none hp).1]
  | dispatch _ _ _ hp => simp [allocates, (fssPickProcInGroup_some hp).1]
  | waitReap hw _ _ | waitFail hw _ =>
    obtain ⟨ch, rfl, _⟩ := h.waitFrom_mem hw
    simp [allocates_waitFrom hw]
  | waitSleep hw _ _ =>
    obtain ⟨ch, rfl, _⟩ := h.waitFrom_mem hw
    simp [allocates_waitFrom hw, Kernel.sched, Xv6.sleep]
  | exit => simp [allocates, Kernel.sched, exit_frame]
  | forkFull hl hp hc ha => simp [allocates, enterUser_eq_some.mpr ⟨hl, hp, hc⟩, ha]
  | forkAlloc hl hp hc ha =>
    simp only [allocates, enterUser_eq_some.mpr ⟨hl, hp, hc⟩, ha, Option.bind_some,
      Option.isSome_some, if_true, Kernel.goto]
    exact (allocproc_some ha).2.2.2.1
  | forkStack hr hc | forkCopy hr hc | forkFail hr hc _ | forkParent hr hc | forkGid hr hc
  | forkEnsure hr hc =>
    simp [allocates_fork _ (runs_eq_some.mp hr).2.2 hc, Kernel.goto, Xv6.forkFail,
      Xv6.forkParent, Xv6.forkGid, Xv6.forkEnsure]
  | forkRunnable _ hp hc =>
    simp [allocates_fork _ hp hc, Kernel.goto, Xv6.forkRunnable]
  | @kill c p pid _ _ _ =>
    rcases kill_cases s.mem pid with ⟨hk, _⟩ | ⟨r, _, _, hk⟩ <;> simp [allocates, hk]
  | @setgroup c p pid gid _ _ _ =>
    rcases setgroupK_cases s.mem pid gid with hg | ⟨_, _, hg⟩ | ⟨_, _, r, _, _, hg⟩ <;>
      simp [allocates, hg]
  | _ =>
    simp [allocates, Kernel.sched, Kernel.ret, charge, Xv6.yield, Xv6.sleep, sleepEnd, trapKill,
      wakeup1, tickAccounting]

/-! ### Pids and CPUs -/

/-- A process keeps its pid, and a new one gets the next pid. -/
lemma pid_of_trans (h : Wf s) (ht : Trans s a s') (q : Slot)
    (hq : (s'.mem.proc q).state ≠ .unused) :
    (allocates s a = some q ∧ (s'.mem.proc q).pid = s.mem.nextpid)
      ∨ (allocates s a ≠ some q ∧ (s.mem.proc q).state ≠ .unused
        ∧ (s'.mem.proc q).pid = (s.mem.proc q).pid) := by
  rcases touch_of_trans h ht q with ⟨rfl, hx⟩ | ⟨_, hx⟩
  · rw [hx, Proc.tick_eq] at hq ⊢
    exact Or.inr ⟨by simp [allocates], hq, rfl⟩
  · generalize s'.mem.proc q = x at hq hx
    cases hx with
    | alloc ha _ _ => exact Or.inl ⟨ha, rfl⟩
    | move ha hst _ => exact Or.inr ⟨ha, fun hc => hq (hst.mpr hc), rfl⟩
    | inherit ha hr hc =>
      subst ha
      exact Or.inr ⟨by simp [allocates_fork _ (runs_eq_some.mp hr).2.2 hc],
        by simp [(h.forking _ _ _ hc).2], rfl⟩
    | setgroup ha _ _ hs =>
      subst ha
      exact Or.inr ⟨by simp [allocates], hs, rfl⟩
    | fail => exact absurd rfl hq
    | reap _ _ hx => rcases hx with rfl | rfl <;> exact absurd rfl hq
    | kill ha _ =>
      subst ha
      refine Or.inr ⟨by simp [allocates], fun hc => ?_, rfl⟩
      simp [hc] at hq
    | trap ha _ =>
      subst ha
      exact Or.inr ⟨by simp [allocates], hq, rfl⟩

/-- Every process was allocated by a step of the run, and not again since. -/
lemma exists_allocated {tr : List (Kernel k × Act k)} (hr : Run step (boot k) tr s) {p : Slot}
    (hp : (s.mem.proc p).state ≠ .unused) :
    ∃ tr₁ e tr₂, tr = tr₁ ++ e :: tr₂ ∧ allocates e.1 e.2 = some p
      ∧ ∀ f ∈ tr₂, allocates f.1 f.2 ≠ some p := by
  refine hr.snoc_induction
    (P := fun tr s => (s.mem.proc p).state ≠ .unused →
      ∃ tr₁ e tr₂, tr = tr₁ ++ e :: tr₂ ∧ allocates e.1 e.2 = some p
        ∧ ∀ f ∈ tr₂, allocates f.1 f.2 ≠ some p) ?_ ?_ hp
  · intro h
    simp [boot, pinit, fssInitGroups, Proc.zero] at h
  · intro tr s a s' hr ih ha hp
    rcases pid_of_trans (wf_of_reachable ⟨tr, hr⟩) (trans_of_step ha) p hp with
      ⟨hal, _⟩ | ⟨hal, hs, _⟩
    · exact ⟨tr, (s, a), [], rfl, hal, by simp⟩
    · obtain ⟨tr₁, e, tr₂, rfl, he, hno⟩ := ih hs
      refine ⟨tr₁, e, tr₂ ++ [(s, a)], by simp, he, fun f hf => ?_⟩
      rcases List.mem_append.mp hf with hf | hf
      · exact hno f hf
      · rw [List.mem_singleton.mp hf]
        exact hal

/-- After `n` allocations: the next pid is `n + 1`, and the processes have
distinct pids from `1` to `n`. -/
structure Pids (n : ℕ) (t : Ptable) : Prop where
  next : t.nextpid = n + 1
  bounds : ∀ p, (t.proc p).state ≠ .unused → 0 < (t.proc p).pid ∧ (t.proc p).pid ≤ n
  inj : ∀ p q, (t.proc p).state ≠ .unused → (t.proc q).state ≠ .unused →
    (t.proc p).pid = (t.proc q).pid → p = q

/-- The number of allocations in a trace. -/
def allocations (tr : List (Kernel k × Act k)) : ℕ :=
  tr.countP fun e => (allocates e.1 e.2).isSome

lemma int32_of_lt {x : ℤ} (h0 : 0 ≤ x) (h : x < 2 ^ 31) : int32 x = x := by
  rw [int32, Int.bmod_def]
  omega

/-- One step, with the pids below the wrap of `nextpid`. -/
lemma Pids.step {n : ℕ} (h : Pids n s.mem) (hw : Wf s) (ht : Trans s a s')
    (hn : n + (if (allocates s a).isSome then 1 else 0) < 2 ^ 31 - 1) :
    Pids (n + if (allocates s a).isSome then 1 else 0) s'.mem := by
  have hnx := nextpid_of_trans hw ht
  have hpid := pid_of_trans hw ht
  cases ha : allocates s a with
  | none =>
    simp only [ha, Option.isSome_none, Bool.false_eq_true, if_false, Nat.add_zero] at hnx ⊢
    have hkeep : ∀ q, (s'.mem.proc q).state ≠ .unused → (s.mem.proc q).state ≠ .unused
        ∧ (s'.mem.proc q).pid = (s.mem.proc q).pid := by
      intro q hq
      rcases hpid q hq with ⟨hc, _⟩ | ⟨_, h1, h2⟩
      · simp [ha] at hc
      · exact ⟨h1, h2⟩
    refine ⟨by rw [hnx, h.next], fun p hp => ?_, fun p q hp hq he => ?_⟩
    · rw [(hkeep p hp).2]; exact h.bounds p (hkeep p hp).1
    · rw [(hkeep p hp).2, (hkeep q hq).2] at he
      exact h.inj p q (hkeep p hp).1 (hkeep q hq).1 he
  | some np =>
    simp only [ha, Option.isSome_some, if_true] at hnx hn ⊢
    rw [h.next, int32_of_lt (by omega) (by omega)] at hnx
    have hkeep : ∀ q, (s'.mem.proc q).state ≠ .unused → (q = np ∧ (s'.mem.proc q).pid = n + 1)
        ∨ (q ≠ np ∧ (s.mem.proc q).state ≠ .unused
          ∧ (s'.mem.proc q).pid = (s.mem.proc q).pid) := by
      intro q hq
      rcases hpid q hq with ⟨hc, h2⟩ | ⟨hc, h1, h2⟩
      · rw [ha] at hc
        exact Or.inl ⟨(Option.some.inj hc).symm, by rw [h2, h.next]⟩
      · rw [ha] at hc
        exact Or.inr ⟨fun he => hc (by rw [he]), h1, h2⟩
    refine ⟨by rw [hnx]; push_cast; ring, fun p hp => ?_, fun p q hp hq he => ?_⟩
    · rcases hkeep p hp with ⟨_, h2⟩ | ⟨_, h1, h2⟩
      · rw [h2]; push_cast; omega
      · have hb := h.bounds p h1
        rw [h2]; push_cast; omega
    · rcases hkeep p hp with ⟨hp1, hp2⟩ | ⟨_, hp1, hp2⟩ <;>
        rcases hkeep q hq with ⟨hq1, hq2⟩ | ⟨_, hq1, hq2⟩
      · rw [hp1, hq1]
      · have hb := h.bounds q hq1
        omega
      · have hb := h.bounds p hp1
        omega
      · exact h.inj p q hp1 hq1 (by rw [← hp2, ← hq2, he])

/-- The pids after a run with few enough allocations. -/
lemma pids_of_run {tr : List (Kernel k × Act k)} (hr : Run step (boot k) tr s)
    (hn : allocations tr < 2 ^ 31 - 1) : Pids (allocations tr) s.mem := by
  refine hr.snoc_induction
    (P := fun tr s => allocations tr < 2 ^ 31 - 1 → Pids (allocations tr) s.mem) ?_ ?_ hn
  · intro _
    refine ⟨by simp [allocations, boot, pinit, fssInitGroups, setGroup], ?_, ?_⟩ <;>
      simp [boot, pinit, fssInitGroups, setGroup, Proc.zero]
  · intro tr s a s' hr ih ha hlt
    have hcount : allocations (tr ++ [(s, a)])
        = allocations tr + if (allocates s a).isSome then 1 else 0 := by
      simp [allocations, List.countP_append, List.countP_cons]
    rw [hcount] at hlt ⊢
    exact (ih (by omega)).step (wf_of_reachable ⟨tr, hr⟩) (trans_of_step ha) hlt

/-- **The process table.**  On any number of CPUs and along every run with fewer
than `2^31 - 1` allocations, the pids of the entries that are not `UNUSED` are
positive and pairwise distinct; no process is the current process of two CPUs;
and whenever the lock is free a process is `RUNNING` exactly if it is the current
process of exactly one CPU. -/
theorem proc_table_invariant {tr : List (Kernel k × Act k)} (hr : Run step (boot k) tr s)
    (hn : allocations tr < 2 ^ 31 - 1) :
    (∀ p, (s.mem.proc p).state ≠ .unused → 0 < (s.mem.proc p).pid)
      ∧ (∀ p q, (s.mem.proc p).state ≠ .unused → (s.mem.proc q).state ≠ .unused → p ≠ q →
        (s.mem.proc p).pid ≠ (s.mem.proc q).pid)
      ∧ (∀ c c' p, (s.cpu c).proc = some p → (s.cpu c').proc = some p → c = c')
      ∧ (s.lock = .free →
        ∀ p, (s.mem.proc p).state = .running ↔ ∃! c, (s.cpu c).proc = some p) := by
  have hp := pids_of_run hr hn
  have hw := wf_of_reachable ⟨tr, hr⟩
  refine ⟨fun p h => (hp.bounds p h).1, fun p q h1 h2 hne he => hne (hp.inj p q h1 h2 he),
    hw.cpuInj, fun hl p => ⟨fun h => ?_, ?_⟩⟩
  · obtain ⟨c, hc⟩ := hw.running p h
    exact ⟨c, hc, fun c' hc' => hw.cpuInj c' c p hc' hc⟩
  · rintro ⟨c, hc, _⟩
    exact hw.onCpu c p hc (by simp [hl])

/-- Two CPUs at work: init forks on the first one and moves its child to group 7,
and the child runs on the second. -/
def twoCpus : List (Act 2) :=
  [.userinit, .dispatch 0, .resume 0] ++ List.replicate 7 (.fork 0 true)
    ++ [.setgroup 0 2 7, .dispatch 1, .resume 1]

lemma exec_twoCpus :
    ∃ s, exec step (boot 2) twoCpus = some s ∧ s.lock = .free
      ∧ (s.mem.proc 0).state = .running ∧ (s.mem.proc 1).state = .running
      ∧ (s.mem.proc 1).gid = 7 ∧ s.mem.initproc = some 0 := by
  decide +kernel

theorem proc_table_invariant_twoCpus :
    ∃ s, exec step (boot 2) twoCpus = some s
      ∧ (s.mem.proc 0).pid ≠ (s.mem.proc 1).pid ∧ ∃! c, (s.cpu c).proc = some 1 := by
  obtain ⟨s, hs, hl, h0, h1, _⟩ := exec_twoCpus
  have hn : allocations (traceOf step (boot 2) twoCpus) ≤ 13 :=
    List.countP_le_length.trans (length_traceOf_le _ _)
  obtain ⟨_, hpid, _, hrun⟩ := proc_table_invariant (run_traceOf hs) (by omega)
  exact ⟨s, hs, hpid 0 1 (by simp [h0]) (by simp [h1]) (by decide), (hrun hl 1).mp h1⟩

end Xv6
