import Xv6.Proc.Entry

/-!
The group table along a run, and what the scheduler finds in it.

* `GroupTable`: every process is in a group that is registered exactly once, and
  the entries of the table are as `fss_group_ensure` sets them up.
* `GroupStep`, `groupStep_of_step`: all that a step does to the group table.  It
  moves a cursor, it charges a group, or it is a `setgroup` that registers a gid
  nobody has.  `fork` ensures its group without the lock, but the group it asks
  for is the one of an `EMBRYO`, which is registered, so it never allocates.
* `group_table_invariant`: the invariant in every reachable state, and active
  entries stay what they are.
* `scheduler_dispatches`: as long as a process is `RUNNABLE`, an iteration of
  `scheduler` dispatches one, from a group of least rank.
-/

namespace Xv6

open Ptable Transition Function

variable {k : ℕ} {s s' : Kernel k} {a : Act k}

/-! ### All that a step does to the groups -/

/-- The group a step dispatches a process of. -/
def picks (s : Kernel k) : Act k → Option GSlot
  | .dispatch _ =>
    match (scheduler s.mem).2 with
    | .run g _ => some g
    | _ => none
  | _ => none

/-- The group a step charges for a process that came back. -/
def returns (s : Kernel k) : Act k → Option GSlot
  | .ret c => (s.cpu c).g
  | _ => none

/-- A table of groups: active entries have distinct gids, the stride of share 1
and a cursor inside the process table, and entries that were never used have
pass 0. -/
structure GroupTable (f : GSlot → Group) : Prop where
  zero : (f 0).active = true ∧ (f 0).gid = 0
  inj : ∀ i j, (f i).active = true → (f j).active = true → (f i).gid = (f j).gid → i = j
  active : ∀ i, (f i).active = true →
    (f i).stride = FSS_BIG ∧ 0 ≤ (f i).rrCursor ∧ (f i).rrCursor < NPROC
  idle : ∀ i, (f i).active = false → (f i).pass = 0

/-- **The invariant of the groups.**  The table is well formed, the gid of every
process is that of an active entry, and a CPU runs for an active group or for
none. -/
structure GroupsOk (s : Kernel k) : Prop where
  table : GroupTable s.mem.gtable
  proc : ∀ p, (s.mem.proc p).state ≠ .unused → 0 ≤ (s.mem.proc p).gid
    ∧ ∃ i, (s.mem.gtable i).active = true ∧ (s.mem.gtable i).gid = (s.mem.proc p).gid
  cpu : ∀ c g, (s.cpu c).g = some g → (s.mem.gtable g).active = true
  inFlight : ∀ c, (s.cpu c).g = none ↔ (s.cpu c).proc = none

/-- What a step does to the group table and to the groups the CPUs run for. -/
inductive GroupStep (s : Kernel k) : Act k → (GSlot → Group) → (Fin k → Cpu) → Prop where
  | same {b : Act k} : picks s b = none → returns s b = none →
      GroupStep s b s.mem.gtable s.cpu
  | create {c pid gid i} : 0 ≤ gid → (s.mem.gtable i).active = false →
      (∀ j, (s.mem.gtable j).active = true → (s.mem.gtable j).gid ≠ gid) →
      GroupStep s (.setgroup c pid gid) (update s.mem.gtable i (Group.fresh gid)) s.cpu
  | dispatch {c g} {p : Slot} : (s.cpu c).proc = none → fssPickGroup s.mem = some g →
      picks s (.dispatch c) = some g →
      GroupStep s (.dispatch c)
        (update s.mem.gtable g
          { s.mem.gtable g with rrCursor := (p.val + 1 : ℤ).tmod NPROC })
        (update s.cpu c ⟨some p, some g⟩)
  | ret {c g} : (s.cpu c).g = some g →
      GroupStep s (.ret c)
        (update s.mem.gtable g
          { s.mem.gtable g with pass := (s.mem.gtable g).pass + (s.mem.gtable g).stride })
        (update s.cpu c ⟨none, none⟩)

/-- Group 0 is always there for `allocproc` and `userinit`. -/
lemma GroupTable.ensure_zero {t : Ptable} (h : GroupTable t.gtable) :
    (fssGroupEnsure t 0).1 = t :=
  fssGroupEnsure_of_active h.zero.1 h.zero.2

/-- A pass of `wait` dispatches nothing and charges nobody. -/
lemma GroupStep.waitFrom {c : Fin k} {p : Slot} {m : Ptable} (hwf : WaitFrom s c p a m) :
    GroupStep s a s.mem.gtable s.cpu := by
  cases hwf with
  | call _ _ _ ha => rcases ha with rfl | ⟨w, r, rfl⟩ <;> exact .same rfl rfl
  | woken => exact .same rfl rfl

/-- **All that a step does to the groups.** -/
theorem groupStep_of_trans (hg : GroupsOk s) (hw : Wf s) (ht : Trans s a s') :
    GroupStep s a s'.mem.gtable s'.cpu := by
  cases ht with
  | userinit =>
    rcases userinit_cases s.mem with ⟨hu, _⟩ | ⟨p, _, _, _, _, _, hgt⟩
    · rw [hu]; exact .same rfl rfl
    · rw [hgt, hg.table.ensure_zero, hg.table.ensure_zero]; exact .same rfl rfl
  | idle _ _ hpick => exact .same (by simp [picks, scheduler, hpick]) rfl
  | emptyGroup _ _ hpick hp =>
    rw [(fssPickProcInGroup_none hp).1]
    exact .same (by simp [picks, scheduler, hpick, hp]) rfl
  | dispatch _ hc hpick hp =>
    rw [(fssPickProcInGroup_some hp).1]
    exact .dispatch hc hpick (by simp [picks, scheduler, hpick, hp])
  | waitReap hwf _ _ | waitFail hwf _ | waitSleep hwf _ _ =>
    obtain ⟨ch, rfl, _⟩ := hw.waitFrom_mem hwf
    exact .waitFrom hwf
  | ret _ hc => exact .ret hc
  | exit =>
    simp only [Kernel.sched, exit_frame]
    exact .same rfl rfl
  | forkAlloc _ _ _ ha =>
    simp only [Kernel.goto, (allocproc_some ha).2.2.2.2, hg.table.ensure_zero]
    exact .same rfl rfl
  | @forkEnsure c p ok np hr hc =>
    -- the new process is an `EMBRYO`, so its group is registered
    obtain ⟨_, i, hi, hgid⟩ := hg.proc np (by simp [(hw.forking _ _ _ hc).2])
    simp only [Kernel.goto, Xv6.forkEnsure, fssGroupEnsure_of_active hi hgid]
    exact .same rfl rfl
  | @kill c p pid =>
    rcases kill_cases s.mem pid with ⟨hk, _⟩ | ⟨r, _, _, hk⟩ <;> rw [hk] <;> exact .same rfl rfl
  | @setgroup c p pid gid =>
    have hens : 0 ≤ gid →
        GroupStep s (.setgroup c pid gid) (fssGroupEnsure s.mem gid).1.gtable s.cpu := by
      intro h0
      rcases fssGroupEnsure_cases s.mem gid with ⟨j, he, _⟩ | ⟨j, he, hj, hno⟩ | ⟨he, _⟩
      · rw [he]; exact .same rfl rfl
      · rw [he]; exact .create h0 hj hno
      · rw [he]; exact .same rfl rfl
    rcases setgroupK_cases s.mem pid gid with he | ⟨h0, _, he⟩ | ⟨h0, _, r, _, _, he⟩
    · rw [he]; exact .same rfl rfl
    · rw [he]; exact hens h0
    · rw [he]; exact hens h0
  | _ => exact .same rfl rfl

section GroupStep

variable {f : GSlot → Group} {u : Fin k → Cpu}

/-- A step keeps the gid of every active entry and the entry active. -/
lemma GroupStep.keeps (h : GroupStep s a f u) (i : GSlot) (hi : (s.mem.gtable i).active = true) :
    (f i).active = true ∧ (f i).gid = (s.mem.gtable i).gid := by
  cases h with
  | same => exact ⟨hi, rfl⟩
  | @create c pid gid j _ hj _ =>
    have hij : i ≠ j := by
      rintro rfl
      simp [hi] at hj
    simp [update_of_ne hij, hi]
  | @dispatch c g p _ _ _ | @ret c g _ =>
    by_cases hig : i = g
    · subst hig; simp [hi]
    · simp [update_of_ne hig, hi]

/-- One entry of the table is overwritten. -/
lemma GroupTable.update (h : GroupTable f) {i : GSlot} {x : Group}
    (hzero : i = 0 → x.active = true ∧ x.gid = 0)
    (hinj : ∀ j, j ≠ i → (f j).active = true → x.active = true → (f j).gid ≠ x.gid)
    (hact : x.active = true → x.stride = FSS_BIG ∧ 0 ≤ x.rrCursor ∧ x.rrCursor < NPROC)
    (hidle : x.active = false → x.pass = 0) : GroupTable (update f i x) where
  zero := by
    rcases eq_or_ne 0 i with rfl | h0
    · rw [update_self]
      exact hzero rfl
    · rw [update_of_ne h0]
      exact h.zero
  inj j l hj hl he := by
    rcases eq_or_ne j i with rfl | hji <;> rcases eq_or_ne l j with rfl | hlj
    · rfl
    · rw [update_self] at hj he
      rw [update_of_ne hlj] at hl he
      exact absurd he.symm (hinj l hlj hl hj)
    · rfl
    · rw [update_of_ne hji] at hj he
      rcases eq_or_ne l i with rfl | hli
      · rw [update_self] at hl he
        exact absurd he (hinj j hji hj hl)
      · rw [update_of_ne hli] at hl he
        exact h.inj j l hj hl he
  active j hj := by
    rcases eq_or_ne j i with rfl | hji
    · rw [update_self] at hj ⊢
      exact hact hj
    · rw [update_of_ne hji] at hj ⊢
      exact h.active j hj
  idle j hj := by
    rcases eq_or_ne j i with rfl | hji
    · rw [update_self] at hj ⊢
      exact hidle hj
    · rw [update_of_ne hji] at hj ⊢
      exact h.idle j hj

/-- The entry of an active group keeps its gid. -/
lemma GroupTable.updateActive (h : GroupTable f) {i : GSlot} {x : Group}
    (hi : (f i).active = true) (hx : x.active = true) (hgid : x.gid = (f i).gid)
    (hact : x.stride = FSS_BIG ∧ 0 ≤ x.rrCursor ∧ x.rrCursor < NPROC) :
    GroupTable (Function.update f i x) := by
  refine h.update (fun h0 => ⟨hx, ?_⟩) (fun j hji hj _ he => ?_) (fun _ => hact) (by simp [hx])
  · rw [hgid, h0]
    exact h.zero.2
  · exact hji (h.inj j i hj hi (he.trans hgid))

/-- The table stays well formed. -/
lemma GroupStep.table (h : GroupStep s a f u) (hg : GroupsOk s) : GroupTable f := by
  cases h with
  | same => exact hg.table
  | @create c pid gid i _ hi hno =>
    refine hg.table.update (fun h0 => ?_) (fun j _ hj _ => hno j hj) (fun _ => ?_)
      (by simp [Group.fresh])
    · rw [h0] at hi
      simp [hg.table.zero.1] at hi
    · exact ⟨rfl, le_refl 0, by simp [Group.fresh]⟩
  | @dispatch c g p _ hpick _ =>
    have hgact := (fssPickGroup_spec hpick).1.1
    have hcur : (0 : ℤ) ≤ (p.val + 1 : ℤ).tmod NPROC ∧ (p.val + 1 : ℤ).tmod NPROC < NPROC := by
      rw [Int.tmod_eq_emod_of_nonneg (by omega)]
      exact ⟨Int.emod_nonneg _ (by decide), Int.emod_lt_of_pos _ (by decide)⟩
    exact hg.table.updateActive hgact hgact rfl ⟨(hg.table.active g hgact).1, hcur⟩
  | @ret c g hc =>
    have hgact := hg.cpu c g hc
    exact hg.table.updateActive hgact hgact rfl (hg.table.active g hgact)

/-- The CPUs still run for active groups. -/
lemma GroupStep.cpus (h : GroupStep s a f u) (hg : GroupsOk s) :
    (∀ c g, (u c).g = some g → (f g).active = true) ∧ ∀ c, (u c).g = none ↔ (u c).proc = none := by
  have hkeep := fun c g (hc : (s.cpu c).g = some g) => (h.keeps g (hg.cpu c g hc)).1
  have hkeeps := h.keeps
  cases h with
  | same => exact ⟨hg.cpu, hg.inFlight⟩
  | create => exact ⟨hkeep, hg.inFlight⟩
  | @dispatch c g p _ hpick _ =>
    refine ⟨fun c' g' hc' => ?_, fun c' => ?_⟩ <;> rcases eq_or_ne c' c with rfl | hcc
    · rw [update_self] at hc'
      obtain rfl : g = g' := Option.some.inj hc'
      exact (hkeeps g (fssPickGroup_spec hpick).1.1).1
    · rw [update_of_ne hcc] at hc'
      exact hkeep c' g' hc'
    · simp
    · rw [update_of_ne hcc]
      exact hg.inFlight c'
  | @ret c g _ =>
    refine ⟨fun c' g' hc' => ?_, fun c' => ?_⟩ <;> rcases eq_or_ne c' c with rfl | hcc
    · simp at hc'
    · rw [update_of_ne hcc] at hc'
      exact hkeep c' g' hc'
    · simp
    · rw [update_of_ne hcc]
      exact hg.inFlight c'

end GroupStep

/-- A successful `setgroup_k` leaves the gid registered. -/
lemma setgroupK_registers {t : Ptable} {pid gid : ℤ} (h : (setgroupK t pid gid).2 = 0) :
    0 ≤ gid ∧ ∃ i, ((setgroupK t pid gid).1.gtable i).active = true
      ∧ ((setgroupK t pid gid).1.gtable i).gid = gid := by
  rcases setgroupK_cases t pid gid with he | ⟨_, _, he⟩ | ⟨h0, ⟨i, hi⟩, r, _, _, he⟩
  · simp [he] at h
  · simp [he] at h
  · refine ⟨h0, ?_⟩
    rcases fssGroupEnsure_cases t gid with ⟨j, hf, hj⟩ | ⟨j, hf, _⟩ | ⟨hf, _⟩
    · exact ⟨j, by simp [he, hf, hj]⟩
    · exact ⟨j, by simp [he, hf, Group.fresh]⟩
    · simp [hf] at hi

/-- Where the gid of a process comes from: it is 0, it is that of a process
before the step, or a `setgroup_k` has just registered it. -/
lemma gid_of_step (hw : Wf s) (hs : step s a = some s') {q : Slot}
    (hq : (s'.mem.proc q).state ≠ .unused) :
    (s'.mem.proc q).gid = 0
      ∨ (∃ r, (s.mem.proc r).state ≠ .unused ∧ (s'.mem.proc q).gid = (s.mem.proc r).gid)
      ∨ (0 ≤ (s'.mem.proc q).gid ∧ ∃ i, (s'.mem.gtable i).active = true
        ∧ (s'.mem.gtable i).gid = (s'.mem.proc q).gid) := by
  rcases touch_of_trans hw (trans_of_step hs) q with ⟨rfl, hx⟩ | ⟨_, hx⟩
  · rw [hx, Proc.tick_eq] at hq ⊢
    exact Or.inr (Or.inl ⟨q, hq, rfl⟩)
  · generalize hy : s'.mem.proc q = x at hq hx ⊢
    cases hx with
    | alloc => exact Or.inl rfl
    | move _ hst _ => exact Or.inr (Or.inl ⟨q, fun hc => hq (hst.mpr hc), rfl⟩)
    | @inherit c ok p _ _ hc =>
      refine Or.inr (Or.inl ⟨p, ?_, rfl⟩)
      rcases (hw.forking _ _ _ hc).1 with h | h | h <;> simp [h]
    | @setgroup c pid g ha hret _ _ =>
      subst ha
      simp only [step, Option.map_eq_some_iff] at hs
      obtain ⟨_, _, rfl⟩ := hs
      exact Or.inr (Or.inr (setgroupK_registers hret))
    | fail => exact absurd rfl hq
    | reap _ _ hx => rcases hx with rfl | rfl <;> exact absurd rfl hq
    | kill _ _ =>
      refine Or.inr (Or.inl ⟨q, fun hc => hq ?_, rfl⟩)
      simp [hc]
    | trap _ _ => exact Or.inr (Or.inl ⟨q, hq, rfl⟩)

namespace GroupsOk

/-- At boot there is group 0, no process, and nothing runs. -/
lemma boot (k : ℕ) : GroupsOk (boot k) := by
  have hi : ∀ i, (Xv6.boot k).mem.gtable i = { Group.fresh 0 with active := decide (i = 0) } := by
    intro i
    by_cases hi : i = 0 <;> simp [Xv6.boot, pinit, fssInitGroups, setGroup_gtable, hi, Group.fresh]
  refine ⟨⟨?_, ?_, ?_, ?_⟩, ?_, ?_, ?_⟩
  · simp [hi, Group.fresh]
  · intro i j h1 h2 _
    simp only [hi, decide_eq_true_eq] at h1 h2
    rw [h1, h2]
  · intro i _
    simp [hi, Group.fresh]
  · intro i _
    simp [hi, Group.fresh]
  · simp [Xv6.boot, pinit, fssInitGroups, Proc.zero]
  · simp [Xv6.boot]
  · simp [Xv6.boot]

/-- **Every step keeps the invariant.** -/
theorem step (hg : GroupsOk s) (hw : Wf s) (hs : Xv6.step s a = some s') : GroupsOk s' := by
  have hgs := groupStep_of_trans hg hw (trans_of_step hs)
  obtain ⟨hcpu, hfl⟩ := hgs.cpus hg
  refine ⟨hgs.table hg, fun p hp => ?_, hcpu, hfl⟩
  rcases gid_of_step hw hs hp with h | ⟨r, hr, h⟩ | h
  · have hz := (hgs.table hg).zero
    exact ⟨h.ge, 0, hz.1, by rw [hz.2, h]⟩
  · obtain ⟨h0, i, hi, hgid⟩ := hg.proc r hr
    have hi' := hgs.keeps i hi
    exact ⟨by rwa [h], i, hi'.1, by rw [hi'.2, hgid, h]⟩
  · exact h

end GroupsOk

/-- The two invariants together hold in every reachable state. -/
theorem ok_of_reachable (h : Reachable step (boot k) s) : GroupsOk s ∧ Wf s :=
  h.invariant (I := fun s => GroupsOk s ∧ Wf s) ⟨GroupsOk.boot k, Wf.boot k⟩ fun _ _ _ hI ha =>
    ⟨hI.1.step hI.2 ha, hI.2.step (trans_of_step ha)⟩

/-- Active entries stay active and keep their gid along a run. -/
lemma keeps_of_run {tr : List (Kernel k × Act k)} (h : Reachable step (boot k) s)
    (hr : Run step s tr s') (i : GSlot) (hi : (s.mem.gtable i).active = true) :
    (s'.mem.gtable i).active = true ∧ (s'.mem.gtable i).gid = (s.mem.gtable i).gid := by
  have hrel := hr.relation (I := fun s => GroupsOk s ∧ Wf s)
    (R := fun s t => ∀ i, (s.mem.gtable i).active = true →
      (t.mem.gtable i).active = true ∧ (t.mem.gtable i).gid = (s.mem.gtable i).gid)
    (ok_of_reachable h) (fun _ _ _ hI ha => ⟨hI.1.step hI.2 ha, hI.2.step (trans_of_step ha)⟩)
    (fun _ _ hi => ⟨hi, rfl⟩) ?_ ?_
  · exact hrel i hi
  · intro s t u hst htu i hi
    obtain ⟨h1, h2⟩ := hst i hi
    obtain ⟨h3, h4⟩ := htu i h1
    exact ⟨h3, h4.trans h2⟩
  · intro s a t hI ha
    exact (groupStep_of_trans hI.1 hI.2 (trans_of_step ha)).keeps

/-! ### The group table -/

/-- **The group table.**  In every reachable state entry 0 is group 0; distinct
active entries have distinct gids; the gid of every process is not negative and
names exactly one active entry; active entries have the stride of share 1 and a
cursor inside the process table; and from there on an active entry neither
becomes inactive nor changes its gid. -/
theorem group_table_invariant (h : Reachable step (boot k) s) :
    ((s.mem.gtable 0).active = true ∧ (s.mem.gtable 0).gid = 0)
      ∧ (∀ i j, (s.mem.gtable i).active = true → (s.mem.gtable j).active = true → i ≠ j →
        (s.mem.gtable i).gid ≠ (s.mem.gtable j).gid)
      ∧ (∀ p, (s.mem.proc p).state ≠ .unused → 0 ≤ (s.mem.proc p).gid
        ∧ ∃! i, (s.mem.gtable i).active = true ∧ (s.mem.gtable i).gid = (s.mem.proc p).gid)
      ∧ (∀ i, (s.mem.gtable i).active = true → (s.mem.gtable i).stride = FSS_BIG
        ∧ 0 ≤ (s.mem.gtable i).rrCursor ∧ (s.mem.gtable i).rrCursor < NPROC)
      ∧ ∀ tr s', Run step s tr s' → ∀ i, (s.mem.gtable i).active = true →
        (s'.mem.gtable i).active = true ∧ (s'.mem.gtable i).gid = (s.mem.gtable i).gid := by
  have hg := (ok_of_reachable h).1
  refine ⟨hg.table.zero, fun i j hi hj hne he => hne (hg.table.inj i j hi hj he), fun p hp => ?_,
    hg.table.active, fun tr s' hr i hi => keeps_of_run h hr i hi⟩
  obtain ⟨h0, i, hi, hgid⟩ := hg.proc p hp
  refine ⟨h0, i, ⟨hi, hgid⟩, ?_⟩
  rintro j ⟨hj, hgj⟩
  exact hg.table.inj j i hj hi (hgj.trans hgid.symm)

theorem group_table_invariant_twoCpus :
    ∃ s, exec step (boot 2) twoCpus = some s
      ∧ ∃! i, (s.mem.gtable i).active = true ∧ (s.mem.gtable i).gid = 7 := by
  obtain ⟨s, hs, _, _, h1, h7, _⟩ := exec_twoCpus
  obtain ⟨_, _, hproc, _⟩ := group_table_invariant ⟨_, run_traceOf hs⟩
  obtain ⟨_, hex⟩ := hproc 1 (by simp [h1])
  rw [h7] at hex
  exact ⟨s, hs, hex⟩

/-! ### The scheduler -/

/-- Some group is eligible exactly when some process is `RUNNABLE`. -/
lemma exists_eligible_iff (hg : GroupsOk s) :
    (∃ i, Eligible s.mem i) ↔ ∃ p, (s.mem.proc p).state = .runnable := by
  constructor
  · rintro ⟨i, _, hi⟩
    obtain ⟨p, hp, _⟩ := fssGroupHasRunnable_iff.mp hi
    exact ⟨p, hp⟩
  · rintro ⟨p, hp⟩
    obtain ⟨_, i, hi, hgid⟩ := hg.proc p (by simp [hp])
    exact ⟨i, hi, fssGroupHasRunnable_iff.mpr ⟨p, hp, hgid.symm⟩⟩

/-- The group that is picked has a process to run: the search in it starts inside
the table and so finds the one that made the group eligible. -/
lemma fssPickProcInGroup_ne_none (hg : GroupsOk s) {g : GSlot}
    (hpick : fssPickGroup s.mem = some g) :
    ∃ t p, fssPickProcInGroup s.mem (some g) = (t, some p) := by
  obtain ⟨⟨hact, hrun⟩, _⟩ := fssPickGroup_spec hpick
  rcases hp : fssPickProcInGroup s.mem (some g) with ⟨t, _ | p⟩
  · have hno := (fssPickProcInGroup_none hp).2 (hg.table.active g hact).2.1
    rw [hrun] at hno
    simp at hno
  · exact ⟨t, p, rfl⟩

/-- **No `RUNNABLE` process is stranded.**  In every reachable state `fss_pick_group`
returns null exactly when no process is `RUNNABLE`; otherwise an iteration of
`scheduler`, on whichever CPU, dispatches a `RUNNABLE` process of a group whose
pair `(pass, gid)` is least among the active groups with a `RUNNABLE` process; and
the branch `p == 0` is never taken. -/
theorem scheduler_dispatches (h : Reachable step (boot k) s) :
    (fssPickGroup s.mem = none ↔ ∀ p, (s.mem.proc p).state ≠ .runnable)
      ∧ ((∃ p, (s.mem.proc p).state = .runnable) →
        ∃ g p, (scheduler s.mem).2 = .run g p ∧ (∀ c, (s.dispatch c).cpu c = ⟨some p, some g⟩)
          ∧ (s.mem.proc p).state = .runnable ∧ (s.mem.proc p).gid = (s.mem.gtable g).gid
          ∧ Eligible s.mem g ∧ ∀ i, Eligible s.mem i → rank s.mem g ≤ rank s.mem i)
      ∧ ∀ g, (scheduler s.mem).2 ≠ .emptyGroup g := by
  have hg := (ok_of_reachable h).1
  have hnone : fssPickGroup s.mem = none ↔ ∀ p, (s.mem.proc p).state ≠ .runnable := by
    rw [fssPickGroup_eq_none_iff, ← not_exists, exists_eligible_iff hg, not_exists]
  refine ⟨hnone, fun ⟨p, hp⟩ => ?_, fun g hs => ?_⟩
  · cases hpick : fssPickGroup s.mem with
    | none => exact absurd hp (hnone.mp hpick p)
    | some g =>
      obtain ⟨t, q, hq⟩ := fssPickProcInGroup_ne_none hg hpick
      obtain ⟨_, hrun, hgid⟩ := fssPickProcInGroup_some hq
      obtain ⟨hel, hleast⟩ := fssPickGroup_spec hpick
      have hsched : scheduler s.mem
          = (t.setProc q { t.proc q with state := .running }, .run g q) := by
        simp [scheduler, hpick, hq]
      exact ⟨g, q, by rw [hsched], fun c => by simp [Kernel.dispatch, hsched], hrun, hgid, hel,
        hleast⟩
  · cases hpick : fssPickGroup s.mem with
    | none => simp [scheduler, hpick] at hs
    | some g' =>
      obtain ⟨t, q, hq⟩ := fssPickProcInGroup_ne_none hg hpick
      simp [scheduler, hpick, hq] at hs

theorem scheduler_dispatches_init :
    ∃ s, exec step (boot 1) [.userinit] = some s ∧ ∃ g, (scheduler s.mem).2 = .run g 0 := by
  obtain ⟨s, hs, hst, honly⟩ : ∃ s, exec step (boot 1) [.userinit] = some s ∧
      (s.mem.proc 0).state = .runnable ∧ ∀ p, (s.mem.proc p).state = .runnable → p = 0 := by
    decide +kernel
  obtain ⟨_, hex, _⟩ := scheduler_dispatches ⟨_, run_traceOf hs⟩
  obtain ⟨g, p, hrun, _, hp, _⟩ := hex ⟨0, hst⟩
  rw [honly p hp] at hrun
  exact ⟨s, hs, g, hrun⟩

end Xv6
