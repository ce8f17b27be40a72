import Xv6.Proc.Groups

/-!
What becomes of a `setgroup`.

`fork` copies the parent's gid into the child outside `ptable.lock`, after the child
has become visible by its pid.  A `setgroup_k` on the child that comes before the
copy returns 0 and is then overwritten: `setgroup_lost` is such a run.

* `sets`: the gid that a step gives to the process with a pid.
* `BeforeCopy`: an entry whose `fork` has not reached the copy.
* `Explained`: where the gid of a process comes from, read off the trace since the
  step that allocated it.
* `SetgroupSafe`: a `setgroup_k` that leaves no group behind; `setgroup_failed`: it is
  what makes a failed call change nothing.  `setgroup_uses_up` is a run in which failed
  calls fill the group table.
* `setgroup_kept`: a process that no `setgroup_k` reaches before the copy has the gid
  of the last successful `setgroup_k`, or the one it inherited.
-/

namespace Xv6

open Ptable Transition Function

variable {k : ℕ} {s s' : Kernel k} {a : Act k} {tr : List (Kernel k × Act k)} {p : Slot}

/-- The gid that a step gives to the process `pid` by a `setgroup_k` that returns 0. -/
def sets (pid : ℤ) (e : Kernel k × Act k) : Option ℤ :=
  match e.2 with
  | .setgroup _ pid' gid =>
    if pid' = pid ∧ (setgroupK e.1.mem pid' gid).2 = 0 then some gid else none
  | _ => none

/-- The points of `fork` before `np->gid = curproc->gid`. -/
def ForkAt.beforeCopy : ForkAt → Bool
  | .allocated | .stacked | .copied | .parented => true
  | .gidCopied | .ensured => false

/-- The `fork` that process `q` is in has not copied its gid to `p` yet. -/
def CopyDue (s : Kernel k) (q p : Slot) : Prop :=
  ∃ pt, s.code q = .fork pt p ∧ pt.beforeCopy = true

/-- The entry `p` is taken by a `fork` that has not copied the gid yet. -/
def BeforeCopy (s : Kernel k) (p : Slot) : Prop := ∃ q, CopyDue s q p

/-! ### The steps of `fork` -/

variable {q : Slot}

/-- A copy that is due was due before, unless the entry has just been allocated. -/
lemma copyDue_of_trans (ht : Trans s a s') (ha : allocates s a ≠ some p)
    (h : CopyDue s' q p) : CopyDue s q p := by
  have hkeep : s'.code q = s.code q → CopyDue s q p := fun he => by
    obtain ⟨pt, hc, hb⟩ := h
    exact ⟨pt, he ▸ hc, hb⟩
  -- a step of `fork` by `r` with the entry `np` moves `r` alone to the next point
  have hgoto : ∀ {r np : Slot} {pt : ForkAt} {co : Code},
      s'.code = update s.code r co → s.code r = .fork pt np →
      (∀ pt', co = .fork pt' p → pt'.beforeCopy = true → np = p ∧ pt.beforeCopy = true) →
      CopyDue s q p := by
    intro r np pt co he hc hco
    rcases eq_or_ne q r with rfl | hne
    · obtain ⟨pt', hc', hb⟩ := h
      rw [he, update_self] at hc'
      obtain ⟨rfl, hpt⟩ := hco pt' hc' hb
      exact ⟨pt, hc, hpt⟩
    · exact hkeep (by rw [he, update_of_ne hne])
  cases ht with
  | @forkAlloc c r ok np t hl hp hc hal =>
    have hnp : np ≠ p := by
      rintro rfl
      exact ha (by simp [allocates, enterUser_eq_some.mpr ⟨hl, hp, hc⟩, hal])
    rcases eq_or_ne q r with rfl | hne
    · obtain ⟨pt', hc', _⟩ := h
      simp only [Kernel.goto, update_self, Code.fork.injEq] at hc'
      exact absurd hc'.2 hnp
    · exact hkeep (update_of_ne hne _ _)
  | forkStack _ hc | forkCopy _ hc | forkParent _ hc =>
    refine hgoto rfl hc fun pt' he _ => ?_
    simp only [Code.fork.injEq] at he
    exact ⟨he.2, rfl⟩
  | forkGid _ hc | forkEnsure _ hc =>
    refine hgoto rfl hc fun pt' he hb => ?_
    simp only [Code.fork.injEq] at he
    rw [← he.1] at hb
    simp [ForkAt.beforeCopy] at hb
  | forkFail _ hc _ | forkRunnable _ _ hc => exact hgoto rfl hc fun pt' he _ => by simp at he
  | _ => exact hkeep rfl

/-- A copy that is due stays due, or is made, or the `fork` fails. -/
lemma copyDue_step (ht : Trans s a s') (h : CopyDue s q p) :
    CopyDue s' q p ∨ (∃ c ok, a = .fork c ok ∧ s.runs c = some q ∧ s.code q = .fork .parented p
        ∧ (s'.mem.proc p).gid = (s.mem.proc q).gid)
      ∨ (s'.mem.proc p).state = .unused := by
  obtain ⟨pt, hc, hb⟩ := h
  have hkeep : s'.code q = s.code q → CopyDue s' q p := fun he => ⟨pt, he.trans hc, hb⟩
  -- the step of another process, or the next point of this `fork`
  have hgoto : ∀ {r np : Slot} {pt' pt'' : ForkAt},
      s'.code = update s.code r (.fork pt'' np) → s.code r = .fork pt' np →
      pt''.beforeCopy = true → CopyDue s' q p := by
    intro r np pt' pt'' he hcr hb'
    rcases eq_or_ne q r with rfl | hne
    · rw [hc] at hcr
      simp only [Code.fork.injEq] at hcr
      exact ⟨pt'', by rw [he, update_self, hcr.2], hb'⟩
    · exact hkeep (by rw [he, update_of_ne hne])
  cases ht with
  | forkAlloc _ _ hcr _ =>
    refine Or.inl (hkeep (update_of_ne ?_ _ _))
    rintro rfl
    simp [hc] at hcr
  | forkStack _ hcr | forkCopy _ hcr | forkParent _ hcr => exact Or.inl (hgoto rfl hcr rfl)
  | @forkGid c r ok np hr hcr =>
    rcases eq_or_ne q r with rfl | hne
    · rw [hc] at hcr
      simp only [Code.fork.injEq] at hcr
      obtain ⟨rfl, rfl⟩ := hcr
      exact Or.inr (Or.inl ⟨c, ok, rfl, hr, hc, by simp [Kernel.goto, Xv6.forkGid]⟩)
    · exact Or.inl (hkeep (update_of_ne hne _ _))
  | forkEnsure _ hcr | forkRunnable _ _ hcr =>
    refine Or.inl (hkeep (update_of_ne ?_ _ _))
    rintro rfl
    rw [hc] at hcr
    simp only [Code.fork.injEq] at hcr
    simp [hcr.1, ForkAt.beforeCopy] at hb
  | @forkFail c r pt' np _ hcr _ =>
    rcases eq_or_ne q r with rfl | hne
    · rw [hc] at hcr
      simp only [Code.fork.injEq] at hcr
      obtain ⟨_, rfl⟩ := hcr
      exact Or.inr (Or.inr (by simp [Kernel.goto, Xv6.forkFail]))
    · exact Or.inl (hkeep (update_of_ne hne _ _))
  | _ => exact Or.inl (hkeep rfl)

/-! ### The gid of a process -/

variable {n : ℕ}

/-- `getgroup_k` finds a process by its pid. -/
lemma getgroupK_of_pids {t : Ptable} (h : Pids n t) (hp : (t.proc p).state ≠ .unused) :
    getgroupK t (t.proc p).pid = (t.proc p).gid := by
  cases hf : findProc t fun x => x.pid == (t.proc p).pid && x.state != .unused with
  | none =>
    have hn := findProc_eq_none.mp hf p
    simp [hp] at hn
  | some q =>
    have hq := findProc_some hf
    simp only [Bool.and_eq_true, beq_iff_eq, bne_iff_ne, ne_eq] at hq
    simp only [getgroupK, hf, h.inj q p hq.2 hp hq.1]

/-- A successful `setgroup_k` with the pid of a process reaches that process. -/
lemma gid_of_sets {g : ℤ} (h : Pids n s.mem) (hp : (s.mem.proc p).state ≠ .unused)
    (hs : step s a = some s') (hg : sets (s.mem.proc p).pid (s, a) = some g) :
    (s'.mem.proc p).gid = g := by
  cases a with
  | setgroup c pid gid =>
    simp only [sets, Option.ite_none_right_eq_some, Option.some.injEq] at hg
    obtain ⟨⟨rfl, hret⟩, rfl⟩ := hg
    simp only [step, Option.map_eq_some_iff] at hs
    obtain ⟨_, _, rfl⟩ := hs
    rcases setgroupK_cases s.mem (s.mem.proc p).pid gid with he | ⟨_, _, he⟩ | ⟨_, _, r, hr, hu, he⟩
    · simp [he] at hret
    · simp [he] at hret
    · rw [h.inj r p hu hp hr] at he
      simp [he]
  | _ => simp [sets] at hg

/-- The gid of a process changes by a `setgroup_k` with its pid or by the copy. -/
lemma gid_of_no_sets (hw : Wf s) (hs : step s a = some s') (hal : allocates s a ≠ some p)
    (hp : (s'.mem.proc p).state ≠ .unused) (hset : sets (s.mem.proc p).pid (s, a) = none)
    (hdue : ¬ BeforeCopy s p) : (s'.mem.proc p).gid = (s.mem.proc p).gid := by
  rcases touch_of_trans hw (trans_of_step hs) p with ⟨rfl, hx⟩ | ⟨_, hx⟩
  · rw [hx, Proc.tick_eq]
  · generalize s'.mem.proc p = x at hp hx
    cases hx with
    | alloc h _ _ => exact absurd h hal
    | inherit _ _ hc => exact absurd ⟨_, _, hc, rfl⟩ hdue
    | setgroup he hret hpid _ =>
      subst he
      simp [sets, hpid, hret] at hset
    | fail => exact absurd rfl hp
    | reap _ _ hx => rcases hx with rfl | rfl <;> exact absurd rfl hp
    | _ => rfl

/-- The gid `g` of the process `pid` in the entry `p`, which the step `e` allocated, is
explained by the trace `tr` since then: it is that of the last successful `setgroup_k`,
or, if there was none, the one that the caller of `fork` had at some moment of it. -/
def Explained (e : Kernel k × Act k) (tr : List (Kernel k × Act k)) (p : Slot) (pid g : ℤ) :
    Prop :=
  match last (sets pid) tr with
  | some g' => g = g'
  | none => (e.2 = .userinit ∧ g = 0) ∨ ∃ c ok q, e.2 = .fork c ok ∧ (e.1.cpu c).proc = some q
      ∧ ∃ f ∈ tr, (∃ pt, f.1.code q = .fork pt p) ∧ g = (f.1.mem.proc q).gid

/-- A process since its allocation: the copy is due and no `setgroup_k` has reached it,
or the copy is made and the gid is explained. -/
def GidOk (e : Kernel k × Act k) (tr : List (Kernel k × Act k)) (p : Slot) (s : Kernel k) : Prop :=
  (last (sets (s.mem.proc p).pid) tr = none
      ∧ ∃ c ok q, e.2 = .fork c ok ∧ (e.1.cpu c).proc = some q ∧ CopyDue s q p)
    ∨ (¬ BeforeCopy s p ∧ Explained e tr p (s.mem.proc p).pid (s.mem.proc p).gid)

/-- What `allocproc` leaves. -/
lemma gidOk_of_alloc (hr : Reachable step (boot k) s) (hs : step s a = some s')
    (ha : allocates s a = some p) : GidOk (s, a) [] p s' := by
  have hw := wf_of_reachable hr
  obtain ⟨hu, st, hx⟩ := proc_of_alloc hw (trans_of_step hs) ha
  cases a with
  | userinit =>
    refine Or.inr ⟨?_, ?_⟩
    · rintro ⟨q, pt, hc, _⟩
      -- no `fork` has an entry that is free
      simp only [step, Option.ite_none_right_eq_some, Option.some.injEq] at hs
      obtain ⟨_, rfl⟩ := hs
      have he := (hw.forking q pt p hc).2
      simp [hu] at he
    · rw [hx]
      exact Or.inl ⟨rfl, rfl⟩
  | fork c ok =>
    simp only [allocates, Option.bind_eq_some_iff] at ha
    obtain ⟨q, hq, ha⟩ := ha
    obtain ⟨hl, hcpu, hc⟩ := enterUser_eq_some.mp hq
    refine Or.inl ⟨rfl, c, ok, q, rfl, hcpu, .allocated, ?_, rfl⟩
    have hrun : s.runs c = some q := runs_eq_some.mpr (by simp [hl, hcpu])
    rcases hal : allocproc s.mem with ⟨t, o⟩
    rw [hal] at ha
    simp only at ha
    subst ha
    simp only [step, hrun, Option.bind_some, Kernel.fork, hc, hl, if_true, hal,
      Option.some.injEq] at hs
    rw [← hs, Kernel.goto]
    exact update_self ..
  | _ => simp [allocates] at ha

/-- One step of a process that stays one, with no `setgroup_k` on it before the copy. -/
lemma GidOk.step {e : Kernel k × Act k} (h : GidOk e tr p s) (hw : Wf s)
    (hpids : Pids n s.mem) (hs : Xv6.step s a = some s') (hal : allocates s a ≠ some p)
    (hp : (s'.mem.proc p).state ≠ .unused)
    (hsafe : BeforeCopy s p → sets (s.mem.proc p).pid (s, a) = none) :
    GidOk e (tr ++ [(s, a)]) p s' := by
  have ht := trans_of_step hs
  obtain ⟨hp0, hpid⟩ : (s.mem.proc p).state ≠ .unused
      ∧ (s'.mem.proc p).pid = (s.mem.proc p).pid := by
    rcases pid_of_trans hw ht p hp with ⟨hc, _⟩ | ⟨_, h1, h2⟩
    · exact absurd hc hal
    · exact ⟨h1, h2⟩
  simp only [GidOk, hpid]
  rcases h with ⟨hlast, c, ok, q, he, hcpu, hdue⟩ | ⟨hdue, hexp⟩
  · have hlast' : last (sets (s.mem.proc p).pid) (tr ++ [(s, a)]) = none := by
      rw [last_snoc, hsafe ⟨q, hdue⟩, hlast]
      rfl
    rcases copyDue_step ht hdue with hd | ⟨c', ok', rfl, hrun, hc, hgid⟩ | hu
    · exact Or.inl ⟨hlast', c, ok, q, he, hcpu, hd⟩
    · refine Or.inr ⟨?_, ?_⟩
      · -- no other `fork` has the entry, and this one is past the copy
        rintro ⟨r, hr⟩
        obtain ⟨pt, hcr, _⟩ := copyDue_of_trans ht hal hr
        obtain rfl := hw.forkInj r q _ _ p hcr hc
        obtain ⟨pt', hc', hb⟩ := hr
        simp only [Xv6.step, hrun, Option.bind_some, Kernel.fork, hc, Option.some.injEq] at hs
        simp only [← hs, Kernel.goto, update_self, Code.fork.injEq] at hc'
        simp [← hc'.1, ForkAt.beforeCopy] at hb
      · rw [Explained, hlast']
        exact Or.inr ⟨c, ok, q, he, hcpu, (s, .fork c' ok'), by simp, ⟨_, hc⟩, hgid⟩
    · exact absurd hu hp
  · have hdue' : ¬ BeforeCopy s' p := by
      rintro ⟨q, hq⟩
      exact hdue ⟨q, copyDue_of_trans ht hal hq⟩
    refine Or.inr ⟨hdue', ?_⟩
    simp only [Explained, last_snoc]
    cases hset : sets (s.mem.proc p).pid (s, a) with
    | some g => exact gid_of_sets hpids hp0 hs hset
    | none =>
      rw [gid_of_no_sets hw hs hal hp hset hdue]
      simp only [Explained, Option.none_or] at hexp ⊢
      cases hl : last (sets (s.mem.proc p).pid) tr with
      | some g => simpa only [hl] using hexp
      | none =>
        simp only [hl] at hexp ⊢
        rcases hexp with h0 | ⟨c, ok, q, he, hcpu, f, hf, hg⟩
        · exact Or.inl h0
        · exact Or.inr ⟨c, ok, q, he, hcpu, f, List.mem_append_left _ hf, hg⟩

/-- A process from its allocation on, when no `setgroup_k` reaches it before the copy. -/
lemma gidOk_of_run {s₀ : Kernel k} {tr₁ : List (Kernel k × Act k)} {e : Kernel k × Act k}
    (h1 : Run step (boot k) tr₁ s₀) (h0 : GidOk e [] p s₀) (hr : Run step s₀ tr s)
    (hn : allocations (tr₁ ++ tr) < 2 ^ 31 - 1) (hno : ∀ f ∈ tr, allocates f.1 f.2 ≠ some p)
    (hp : (s.mem.proc p).state ≠ .unused)
    (hsafe : ∀ f ∈ tr, BeforeCopy f.1 p → sets (s.mem.proc p).pid f = none) : GidOk e tr p s := by
  refine hr.snoc_induction
    (P := fun tr s => allocations (tr₁ ++ tr) < 2 ^ 31 - 1 →
      (∀ f ∈ tr, allocates f.1 f.2 ≠ some p) → (s.mem.proc p).state ≠ .unused →
      (∀ f ∈ tr, BeforeCopy f.1 p → sets (s.mem.proc p).pid f = none) → GidOk e tr p s)
    (fun _ _ _ _ => h0) ?_ hn hno hp hsafe
  intro tr s a s' hr ih ha hn hno hp hsafe
  have hrun := h1.append hr
  have hw := wf_of_reachable ⟨_, hrun⟩
  have hal := hno (s, a) (by simp)
  have hn' : allocations (tr₁ ++ tr) < 2 ^ 31 - 1 := by
    rw [← List.append_assoc] at hn
    simp only [allocations, List.countP_append] at hn ⊢
    omega
  rcases pid_of_trans hw (trans_of_step ha) p hp with ⟨hc, _⟩ | ⟨_, hp0, hpid⟩
  · exact absurd hc hal
  · have hprev := ih hn' (fun f hf => hno f (List.mem_append_left _ hf)) hp0
      fun f hf => hpid ▸ hsafe f (List.mem_append_left _ hf)
    exact hprev.step hw (pids_of_run hrun hn') ha hal hp (hpid ▸ hsafe (s, a) (by simp))

/-- **A `setgroup` that does not fall into `fork` is not lost.**  In every run with
fewer than `2^31 - 1` allocations, take a process that has left the `fork` that created
it, and on which no `setgroup_k` succeeded before that `fork` had copied the gid.  Then
`getgroup_k` with its pid returns the gid of the last successful `setgroup_k` since the
step `e` that allocated it, and if there was none, the gid that the caller of `fork`
had at some moment of it, or 0 if the process is the first one. -/
theorem setgroup_kept (hr : Run step (boot k) tr s) (hn : allocations tr < 2 ^ 31 - 1)
    (hp : (s.mem.proc p).state ≠ .unused) (hemb : (s.mem.proc p).state ≠ .embryo)
    (hsafe : ∀ f ∈ tr, BeforeCopy f.1 p → sets (s.mem.proc p).pid f = none) :
    ∃ tr₁ e tr₂, tr = tr₁ ++ e :: tr₂ ∧ allocates e.1 e.2 = some p
      ∧ (∀ f ∈ tr₂, allocates f.1 f.2 ≠ some p)
      ∧ Explained e tr₂ p (s.mem.proc p).pid (getgroupK s.mem (s.mem.proc p).pid) := by
  obtain ⟨tr₁, e, tr₂, rfl, he, hno⟩ := exists_allocated hr hp
  obtain ⟨s₁, h1, hs, h2⟩ := hr.split_cons
  have hw := wf_of_reachable ⟨_, hr⟩
  have hok : GidOk e tr₂ p s :=
    gidOk_of_run (h1.snoc hs) (gidOk_of_alloc ⟨tr₁, h1⟩ hs he) h2 (by simpa using hn) hno hp
      fun f hf => hsafe f (List.mem_append_right _ (List.mem_cons_of_mem _ hf))
  refine ⟨tr₁, e, tr₂, rfl, he, hno, ?_⟩
  rw [getgroupK_of_pids (pids_of_run hr hn) hp]
  rcases hok with ⟨_, c, ok, q, _, _, pt, hc, _⟩ | ⟨_, hexp⟩
  · exact absurd (hw.forking q pt p hc).2 hemb
  · exact hexp

theorem setgroup_kept_twoCpus :
    ∃ s tr₁ e tr₂, exec step (boot 2) twoCpus = some s
      ∧ traceOf step (boot 2) twoCpus = tr₁ ++ e :: tr₂ ∧ allocates e.1 e.2 = some 1
      ∧ Explained e tr₂ 1 2 7 := by
  obtain ⟨s, hs, hst, hpid, hget⟩ : ∃ s, exec step (boot 2) twoCpus = some s ∧
      (s.mem.proc 1).state = .running ∧ (s.mem.proc 1).pid = 2 ∧ getgroupK s.mem 2 = 7 := by
    decide +kernel
  have htr : (traceOf step (boot 2) twoCpus).all (fun e =>
      match e.2 with
      | .setgroup _ _ _ => ∀ q, e.1.code q = .user
      | _ => true) = true := by
    decide +kernel
  have hn : allocations (traceOf step (boot 2) twoCpus) ≤ 13 :=
    List.countP_le_length.trans (length_traceOf_le _ _)
  have hsafe : ∀ f ∈ traceOf step (boot 2) twoCpus, BeforeCopy f.1 1 →
      sets (s.mem.proc 1).pid f = none := by
    rintro ⟨t, a⟩ hf ⟨q, pt, hc, _⟩
    have hall := List.all_eq_true.mp htr (t, a) hf
    cases a with
    | setgroup c pid g =>
      simp only [decide_eq_true_eq] at hall
      rw [hall q] at hc
      simp at hc
    | _ => rfl
  obtain ⟨tr₁, e, tr₂, htr, hal, _, hexp⟩ := setgroup_kept (run_traceOf hs) (by omega)
    (p := 1) (by simp [hst]) (by simp [hst]) hsafe
  rw [hpid, hget] at hexp
  exact ⟨s, tr₁, e, tr₂, hs, htr, hal, hexp⟩

/-- **A `setgroup` is lost.**  While init is inside `fork`, another process, on the
second CPU, moves the new child, which has pid 3, to group 5: `setgroup_k` returns 0
and `getgroup_k` confirms it.  Then `fork` copies the parent's gid, and when the child
is ready to run it is in group 0. -/
theorem setgroup_lost :
    ∃ s s' t, exec step (boot 2) (twoCpus ++ [.fork 0 true]) = some s
      ∧ (s.mem.proc 2).pid = 3 ∧ (∀ q, (s.mem.proc q).gid ≠ 5)
      ∧ step s (.setgroup 1 3 5) = some s' ∧ (setgroupK s.mem 3 5).2 = 0
      ∧ getgroupK s'.mem 3 = 5
      ∧ exec step s' (List.replicate 6 (.fork 0 true)) = some t
      ∧ (t.mem.proc 2).state = .runnable ∧ (t.mem.proc 2).pid = 3 ∧ getgroupK t.mem 3 = 0 := by
  simp only [exists_and_left]
  decide +kernel

/-! ### A `setgroup` that fails -/

/-- The call fails before it asks for the group, or the group is there, or there is no
room for it, or there is a process to put in it. -/
def SetgroupSafe (t : Ptable) (pid gid : ℤ) : Prop :=
  gid < 0 ∨ (∃ i, (t.gtable i).active = true ∧ (t.gtable i).gid = gid) ∨
    (∀ i, (t.gtable i).active = true) ∨ ∃ q, (t.proc q).pid = pid ∧ (t.proc q).state ≠ .unused

instance (t : Ptable) (pid gid : ℤ) : Decidable (SetgroupSafe t pid gid) :=
  inferInstanceAs (Decidable (_ ∨ _))

variable {i : GSlot}

/-- A `setgroup_k` for a process that is there does not miss it. -/
lemma setgroupK_of_live {t : Ptable} {pid gid : ℤ} (hgid : 0 ≤ gid)
    (he : (fssGroupEnsure t gid).2 = some i) (hq : (t.proc q).pid = pid)
    (hlive : (t.proc q).state ≠ .unused) : (setgroupK t pid gid).2 = 0 := by
  obtain ⟨t', ht'⟩ : ∃ t', fssGroupEnsure t gid = (t', some i) := ⟨_, Prod.ext rfl he⟩
  have hproc : t'.proc = t.proc := by
    have h := fssGroupEnsure_proc t gid
    rwa [ht'] at h
  cases hf : findProc t' fun x => x.pid == pid && x.state != .unused with
  | none =>
    have h := findProc_eq_none.mp hf q
    simp [hproc, hq, hlive] at h
  | some p => simp [setgroupK, not_lt.mpr hgid, ht', hf]

/-- A failed call changes nothing exactly if it is safe. -/
lemma setgroupK_same_iff (t : Ptable) (pid gid : ℤ) :
    ((setgroupK t pid gid).2 = -1 → (setgroupK t pid gid).1 = t) ↔ SetgroupSafe t pid gid := by
  constructor
  · intro h
    by_contra hsafe
    simp only [SetgroupSafe, not_or, not_exists, not_and, not_lt, not_forall] at hsafe
    obtain ⟨hgid, hno, ⟨j, hj⟩, hpid⟩ := hsafe
    rcases fssGroupEnsure_cases t gid with ⟨i, -, hi, hig⟩ | ⟨i, he, hi, -⟩ | ⟨-, hall, -⟩
    · exact hno i hi hig
    · rcases setgroupK_cases t pid gid with hs | ⟨-, -, hs⟩ | ⟨-, -, p, hp, hlive, -⟩
      · -- The group was made, so the call did not fail at once.
        have hnone : findProc (t.setGroup i (Group.fresh gid))
            (fun x => x.pid == pid && x.state != .unused) = none := by
          refine findProc_eq_none.mpr fun p => ?_
          simpa using hpid p
        rw [setgroupK, if_neg (not_lt.mpr hgid), he] at hs
        simp only [hnone] at hs
        have hactive := congrArg (fun u => (u.1.gtable i).active) hs
        simp [Group.fresh, hi] at hactive
      · have hsame := h (by rw [hs])
        rw [hs, he] at hsame
        have hactive := congrArg (fun u => (u.gtable i).active) hsame
        simp [Group.fresh, hi] at hactive
      · exact hpid p hp hlive
    · exact hj (hall j)
  · intro hsafe hret
    rcases setgroupK_cases t pid gid with hs | ⟨hgid, ⟨i, he⟩, hs⟩ | ⟨-, -, p, -, -, hs⟩
    · rw [hs]
    · rcases hsafe with hneg | ⟨j, hj, hjg⟩ | hall | ⟨q, hq, hlive⟩
      · omega
      · rw [hs, fssGroupEnsure_of_active hj hjg]
      · rcases fssGroupEnsure_cases t gid with ⟨j, he', -⟩ | ⟨j, -, hj, -⟩ | ⟨he', -⟩
        · rw [hs, he']
        · rw [hall j] at hj
          cases hj
        · rw [hs, he']
      · rw [setgroupK_of_live hgid he hq hlive] at hret
        cases hret
    · rw [hs] at hret
      cases hret

/-- A group that a step makes is one that `setgroup_k` was asked for. -/
lemma active_of_step (hI : GroupsOk s ∧ Wf s) (hs : step s a = some s')
    (hi : (s'.mem.gtable i).active = true) :
    (s.mem.gtable i).active = true ∧ (s'.mem.gtable i).gid = (s.mem.gtable i).gid ∨
      (s.mem.gtable i).active = false ∧ ∃ c pid, a = .setgroup c pid (s'.mem.gtable i).gid := by
  have hgs := groupStep_of_trans hI.1 hI.2 (trans_of_step hs)
  cases hact : (s.mem.gtable i).active with
  | true => exact .inl ⟨rfl, (hgs.keeps i hact).2⟩
  | false =>
    refine .inr ⟨rfl, ?_⟩
    generalize s'.mem.gtable = f at hgs hi
    generalize s'.cpu = u at hgs
    have hsame : ∀ {j : GSlot} {x : Group}, f = update s.mem.gtable j x →
        x.active = (s.mem.gtable j).active → False := by
      rintro j x rfl hx
      rcases eq_or_ne i j with rfl | hij
      · rw [update_self, hx, hact] at hi
        cases hi
      · rw [update_of_ne hij, hact] at hi
        cases hi
    cases hgs with
    | same =>
      rw [hact] at hi
      cases hi
    | @create c pid gid j _ hj _ =>
      rcases eq_or_ne i j with rfl | hij
      · rw [update_self]
        exact ⟨c, pid, rfl⟩
      · rw [update_of_ne hij, hact] at hi
        cases hi
    | dispatch | ret => exact (hsame rfl rfl).elim

/-- A group that is made by a safe call has got a process. -/
lemma sets_of_made {c : Fin k} {pid gid : ℤ} (hs : step s (.setgroup c pid gid) = some s')
    (hsafe : SetgroupSafe s.mem pid gid) (hold : (s.mem.gtable i).active = false)
    (hnew : (s'.mem.gtable i).active = true) : (setgroupK s.mem pid gid).2 = 0 := by
  have hmem : s'.mem = (setgroupK s.mem pid gid).1 := by
    simp only [step, Option.map_eq_some_iff] at hs
    obtain ⟨p, -, rfl⟩ := hs
    rfl
  by_contra hne
  have hret : (setgroupK s.mem pid gid).2 = -1 := by
    rcases setgroupK_cases s.mem pid gid with h | ⟨-, -, h⟩ | ⟨-, -, p, -, -, h⟩
    · rw [h]
    · rw [h]
    · exact absurd (by rw [h]) hne
  rw [hmem, (setgroupK_same_iff ..).mpr hsafe hret, hold] at hnew
  cases hnew

/-- **A failed `setgroup_k` changes nothing** if it is safe, and only then; and in a run
with safe calls every group other than the first one is there because a `setgroup_k` has
put a process in it. -/
theorem setgroup_failed (t : Ptable) (pid gid : ℤ) :
    (((setgroupK t pid gid).2 = -1 → (setgroupK t pid gid).1 = t) ↔ SetgroupSafe t pid gid) ∧
      ∀ (k : ℕ) (s : Kernel k) (tr : List (Kernel k × Act k)), Run step (boot k) tr s →
        (∀ e ∈ tr, ∀ c pid gid, e.2 = .setgroup c pid gid → SetgroupSafe e.1.mem pid gid) →
        ∀ i, (s.mem.gtable i).active = true → (s.mem.gtable i).gid = 0 ∨
          ∃ e ∈ tr, ∃ pid, sets pid e = some (s.mem.gtable i).gid := by
  refine ⟨setgroupK_same_iff t pid gid, fun k s tr hr => ?_⟩
  refine hr.snoc_induction (P := fun tr s => (∀ e ∈ tr, ∀ c pid gid, e.2 = .setgroup c pid gid →
    SetgroupSafe e.1.mem pid gid) → ∀ i, (s.mem.gtable i).active = true → (s.mem.gtable i).gid = 0 ∨
      ∃ e ∈ tr, ∃ pid, sets pid e = some (s.mem.gtable i).gid) ?_ ?_
  · intro _ i hi
    by_cases h0 : i = 0
    · subst h0
      exact .inl rfl
    · simp [boot, pinit, fssInitGroups, setGroup_gtable, h0] at hi
  · intro tr s a s' hr ih ha hsafe i hi
    rcases active_of_step (ok_of_reachable ⟨tr, hr⟩) ha hi with ⟨hact, hgid⟩ | ⟨hold, c, pid, rfl⟩
    · rcases ih (fun e he => hsafe e (List.mem_append_left _ he)) i hact with
        h0 | ⟨e, he, pid, hset⟩
      · exact .inl (hgid.trans h0)
      · exact .inr ⟨e, List.mem_append_left _ he, pid, by rw [hset, hgid]⟩
    · have hmem : ∀ x : Kernel k × Act k, x ∈ tr ++ [x] :=
        fun x => List.mem_append_right _ List.mem_cons_self
      have hret := sets_of_made ha (hsafe _ (hmem _) c pid _ rfl) hold hi
      exact .inr ⟨_, hmem _, pid, by simp [sets, hret]⟩

/-- A step that is a failed `setgroup_k`. -/
def setgroupFails (e : Kernel k × Act k) : Bool :=
  match e.2 with
  | .setgroup _ pid gid => (setgroupK e.1.mem pid gid).2 == -1
  | _ => false

/-- Init is put in group 5; no process has the pid 99, and group 5 is there. -/
def safeCalls (c : Fin 1) : List (Act 1) :=
  [.userinit, .dispatch c, .resume c, .setgroup c 1 5, .setgroup c 99 5, .setgroup c 1 (-1)]

theorem setgroup_failed_safeCalls :
    ∃ s tr, Run step (boot 1) tr s ∧ (tr.filter setgroupFails).length = 2 ∧
      (s.mem.gtable 1).active = true ∧ (s.mem.gtable 1).gid = 5 ∧
      ∃ e ∈ tr, ∃ pid, sets pid e = some 5 := by
  obtain ⟨s, hs, hfails, hactive, hgid, hall⟩ :
      ∃ s, exec step (boot 1) (safeCalls 0) = some s ∧
        ((traceOf step (boot 1) (safeCalls 0)).filter setgroupFails).length = 2 ∧
        (s.mem.gtable 1).active = true ∧ (s.mem.gtable 1).gid = 5 ∧
        (traceOf step (boot 1) (safeCalls 0)).all (fun e =>
          match e.2 with
          | .setgroup _ pid gid => decide (SetgroupSafe e.1.mem pid gid)
          | _ => true) = true := by
    decide +kernel
  refine ⟨s, _, run_traceOf hs, hfails, hactive, hgid, ?_⟩
  have hgroup := (setgroup_failed s.mem 1 5).2 1 s _ (run_traceOf hs) (fun e he c pid gid ha => ?_)
    1 hactive
  · rw [hgid] at hgroup
    exact hgroup.resolve_left (by decide)
  · simpa [ha] using List.all_eq_true.mp hall e he

/-- Fifteen calls for a process that does not exist. -/
def missingPid (c : Fin 1) : List (Act 1) := (List.range 15).map fun g => .setgroup c 99 (g + 1)

/-- **Fifteen failed calls use up the group table**: a call for init that succeeds before
them fails after them. -/
theorem setgroup_uses_up :
    ∃ s s', exec step (boot 1) [.userinit, .dispatch 0, .resume 0] = some s ∧
      (s.mem.proc 0).pid = 1 ∧ (s.mem.proc 0).state = .running ∧ (setgroupK s.mem 1 16).2 = 0 ∧
      exec step s (missingPid 0) = some s' ∧
        (traceOf step s (missingPid 0)).all setgroupFails = true ∧
      (∀ i, i ≠ 0 → (s.mem.gtable i).active = false) ∧ (∀ i, (s'.mem.gtable i).active = true) ∧
      (setgroupK s'.mem 1 16).2 = -1 := by
  simp only [exists_and_left]
  decide +kernel

end Xv6
