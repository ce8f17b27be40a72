import Xv6.Proc.Groups
import Xv6.Transition.Stride
import Xv6.Transition.Tally

/-!
How the scheduler shares the CPUs between groups.

The passes of the groups and the CPUs that run for them are the books of a stride
scheduler (`Xv6.Transition.Stride`) as long as no pass addition wraps:
`books_of_run`.  What the books say about two clients then holds of two groups.

* `pass_eq_completed`: the stored pass of a group, wraps included, by the number of
  its completed dispatches.
* `fair_share`: a group with a `RUNNABLE` process at every dispatch is never behind
  another one by more than the number of CPUs and their distance at the start.
* `overtaking_bound`: how often another group can be dispatched between two
  dispatches of a group on one CPU.  `overtaken_three_times` shows that it is more
  than twice when the other group is new, because it starts with pass 0.
-/

namespace Xv6

open Ptable Transition Function

variable {k : ℕ} {s s' t : Kernel k} {a : Act k} {tr : List (Kernel k × Act k)}

/-! ### The books -/

/-- The CPUs that run for a group. -/
def cpusOf (u : Fin k → Cpu) (i : GSlot) : Finset (Fin k) :=
  Finset.univ.filter fun c => (u c).g = some i

/-- The books that the group table and the CPUs keep. -/
def books (s : Kernel k) : Stride.Books GSlot where
  pass i := (s.mem.gtable i).pass.toNat
  flight i := (cpusOf s.cpu i).card

/-- The entry a step makes in the books. -/
def event (s : Kernel k) (a : Act k) : Option (Stride.Event GSlot) :=
  match picks s a with
  | some g => some (.dispatch g)
  | none => (returns s a).map .ret

/-- How often a group was dispatched. -/
def dispatched (tr : List (Kernel k × Act k)) (g : GSlot) : ℕ :=
  tr.countP fun e => picks e.1 e.2 = some g

/-- How often a process of a group came back: its completed dispatches. -/
def completed (tr : List (Kernel k × Act k)) (g : GSlot) : ℕ :=
  tr.countP fun e => returns e.1 e.2 = some g

/-- No pass addition of the trace reaches `2^32`. -/
def NoWrap (tr : List (Kernel k × Act k)) : Prop :=
  ∀ e ∈ tr, ∀ g, returns e.1 e.2 = some g →
    (e.1.mem.gtable g).pass.toNat + (e.1.mem.gtable g).stride.toNat < 2 ^ 32

variable {g : GSlot}

lemma picks_eq_some (h : picks s a = some g) :
    (∃ c, a = .dispatch c) ∧ fssPickGroup s.mem = some g := by
  cases a with
  | dispatch c =>
    refine ⟨⟨c, rfl⟩, ?_⟩
    simp only [picks, scheduler] at h
    split at h
    · rename_i hrun
      split at hrun
      · simp at hrun
      · rename_i hpick
        rw [hpick, ← h]
        split at hrun
        · simp at hrun
        · simp only [Sched.run.injEq] at hrun
          rw [hrun.1]
    · simp at h
  | _ => simp [picks] at h

/-- A step that dispatches charges nobody. -/
lemma returns_of_picks (h : picks s a = some g) : returns s a = none := by
  obtain ⟨⟨c, rfl⟩, _⟩ := picks_eq_some h
  rfl

lemma event_eq_dispatch : event s a = some (.dispatch g) ↔ picks s a = some g := by
  cases hp : picks s a with
  | none | some g' => simp [event, hp]

lemma event_eq_ret : event s a = some (.ret g) ↔ returns s a = some g := by
  cases hp : picks s a with
  | none => simp [event, hp]
  | some g' => simp [event, hp, returns_of_picks hp]

/-- The trace of the books. -/
def entries (tr : List (Kernel k × Act k)) : List (Stride.Books GSlot × Stride.Event GSlot) :=
  tr.filterMap fun e => (event e.1 e.2).map fun b => (books e.1, b)

lemma dispatches_entries (tr : List (Kernel k × Act k)) (g : GSlot) :
    Stride.dispatches (entries tr) g = dispatched tr g := by
  rw [Stride.dispatches, entries, dispatched, List.countP_filterMap]
  refine List.countP_congr fun e _ => ?_
  have he := event_eq_dispatch (s := e.1) (a := e.2) (g := g)
  cases hev : event e.1 e.2 <;> simp_all

lemma rets_entries (tr : List (Kernel k × Act k)) (g : GSlot) :
    Stride.rets (entries tr) g = completed tr g := by
  rw [Stride.rets, entries, completed, List.countP_filterMap]
  refine List.countP_congr fun e _ => ?_
  have he := event_eq_ret (s := e.1) (a := e.2) (g := g)
  cases hev : event e.1 e.2 <;> simp_all

/-- An entry of the books is one of the trace. -/
lemma mem_entries {e : Stride.Books GSlot × Stride.Event GSlot} (h : e ∈ entries tr) :
    ∃ x ∈ tr, event x.1 x.2 = some e.2 ∧ books x.1 = e.1 := by
  obtain ⟨x, hx, he⟩ := List.mem_filterMap.mp h
  obtain ⟨b, hb, rfl⟩ := Option.map_eq_some_iff.mp he
  exact ⟨x, hx, hb, rfl⟩

lemma card_cpusOf_le (u : Fin k → Cpu) (i : GSlot) : (cpusOf u i).card ≤ k :=
  (Finset.card_le_univ _).trans_eq (Fintype.card_fin k)

lemma card_cpusOf_update (u : Fin k → Cpu) (c : Fin k) (x : Cpu) (i : GSlot) :
    (cpusOf (update u c x) i).card + (if (u c).g = some i then 1 else 0)
      = (cpusOf u i).card + if x.g = some i then 1 else 0 :=
  tally_update (fun y : Cpu => y.g = some i) u c x

variable {c : Fin k}

/-- A CPU that ran for no group starts to run for `g`. -/
lemma card_cpusOf_dispatch {u : Fin k → Cpu} (hc : (u c).g = none) (p : Slot) (g i : GSlot) :
    (cpusOf (update u c ⟨some p, some g⟩) i).card
      = (cpusOf u i).card + if i = g then 1 else 0 := by
  have hupd := card_cpusOf_update u c ⟨some p, some g⟩ i
  simpa [hc, eq_comm] using hupd

/-- A CPU that ran for `g` comes back. -/
lemma card_cpusOf_ret {u : Fin k → Cpu} (hc : (u c).g = some g) (i : GSlot) :
    (cpusOf (update u c ⟨none, none⟩) i).card + (if i = g then 1 else 0)
      = (cpusOf u i).card := by
  have hupd := card_cpusOf_update u c ⟨none, none⟩ i
  simpa [hc, eq_comm] using hupd

/-- **One step, seen in the books**: no entry, a dispatch, or, when the addition
does not wrap, a return. -/
theorem books_of_step (hI : GroupsOk s ∧ Wf s) (hs : step s a = some s')
    (hnw : ∀ g, returns s a = some g →
      (s.mem.gtable g).pass.toNat + (s.mem.gtable g).stride.toNat < 2 ^ 32) :
    (event s a = none ∧ books s' = books s)
      ∨ ∃ b, event s a = some b
        ∧ Stride.step FSS_BIG.toNat k (books s) b = some (books s') := by
  obtain ⟨hg, hw⟩ := hI
  have hgs := groupStep_of_trans hg hw (trans_of_step hs)
  rw [show books s' = ⟨fun i => (s'.mem.gtable i).pass.toNat, fun i => (cpusOf s'.cpu i).card⟩
    from rfl]
  generalize s'.mem.gtable = f at hgs
  generalize s'.cpu = u at hgs
  cases hgs with
  | same hp hr => exact Or.inl ⟨by simp [event, hp, hr], rfl⟩
  | @create c pid gid j _ hj _ =>
    -- a new group has pass 0, and so had the unused entry
    refine Or.inl ⟨rfl, ?_⟩
    have hpass : ∀ i, (update s.mem.gtable j (Group.fresh gid) i).pass
        = (s.mem.gtable i).pass := by
      intro i
      by_cases hij : i = j
      · subst hij
        simp [Group.fresh, hg.table.idle i hj]
      · rw [update_of_ne hij]
    simp only [hpass]
    rfl
  | @dispatch c g p hc _ hp =>
    have hcg : (s.cpu c).g = none := (hg.inFlight c).mpr hc
    refine Or.inr ⟨.dispatch g, event_eq_dispatch.mpr hp, ?_⟩
    have hlt : (books s).flight g < k := by
      have hlt := Finset.card_lt_univ_of_notMem (s := cpusOf s.cpu g) (x := c)
        (by simp [cpusOf, hcg])
      rwa [Fintype.card_fin] at hlt
    simp only [Stride.step, hlt, if_true, Option.some.injEq]
    congr 1
    · funext i
      by_cases hi : i = g
      · subst hi; simp [books]
      · simp [books, update_of_ne hi]
    · funext i
      rw [card_cpusOf_dispatch hcg]
      by_cases hi : i = g
      · subst hi; simp [books]
      · simp [books, hi]
  | @ret c g hc =>
    refine Or.inr ⟨.ret g, event_eq_ret.mpr hc, ?_⟩
    have hcard := card_cpusOf_ret hc
    have hpos : 0 < (books s).flight g := by
      have h := hcard g
      rw [if_pos rfl] at h
      show 0 < (cpusOf s.cpu g).card
      omega
    simp only [Stride.step, hpos, if_true, Option.some.injEq]
    congr 1
    · funext i
      by_cases hi : i = g
      · subst hi
        have hst := (hg.table.active i (hg.cpu c i hc)).1
        have hsum := hnw i hc
        rw [hst] at hsum
        simp only [books, update_self, hst, UInt32.toNat_add]
        exact (Nat.mod_eq_of_lt hsum).symm
      · simp [books, update_of_ne hi]
    · funext i
      have h := hcard i
      by_cases hi : i = g
      · subst hi
        rw [if_pos rfl] at h
        simp only [update_self]
        show (cpusOf s.cpu i).card - 1 = _
        omega
      · rw [if_neg hi, Nat.add_zero] at h
        rw [update_of_ne hi, h]
        rfl

/-- **A run, seen in the books.** -/
theorem books_of_run (hs : Reachable step (boot k) s) (hr : Run step s tr t) (hw : NoWrap tr) :
    Run (Stride.step FSS_BIG.toNat k) (books s) (entries tr) (books t) :=
  hr.simulate (I := fun s => GroupsOk s ∧ Wf s)
    (fun _ _ _ hI ha => ⟨hI.1.step hI.2 ha, hI.2.step (trans_of_step ha)⟩) (ok_of_reachable hs)
    fun s a _ hm hI ha => books_of_step hI ha (hw (s, a) hm)

/-- A dispatch moves no pass and leaves its CPU running for the group. -/
lemma dispatch_of_picks (hI : GroupsOk s ∧ Wf s)
    (hd : step s (.dispatch c) = some s') (hg : picks s (.dispatch c) = some g) :
    (∀ i, (s'.mem.gtable i).pass = (s.mem.gtable i).pass) ∧ (s'.cpu c).g = some g := by
  have hgs := groupStep_of_trans hI.1 hI.2 (trans_of_step hd)
  generalize s'.mem.gtable = f at hgs
  generalize s'.cpu = u at hgs
  cases hgs with
  | same hp => simp [hp] at hg
  | @dispatch _ g' p _ _ hp =>
    rw [hg] at hp
    obtain rfl := Option.some.inj hp
    refine ⟨fun i => ?_, by simp⟩
    by_cases hi : i = g
    · subst hi; simp
    · rw [update_of_ne hi]

/-! ### Passes and completed dispatches -/

lemma completed_append (tr tr' : List (Kernel k × Act k)) (i : GSlot) :
    completed (tr ++ tr') i = completed tr i + completed tr' i := List.countP_append

/-- **The pass of a group**, wraps included, is its number of completed dispatches
times the stride. -/
theorem pass_eq_completed (hr : Run step (boot k) tr s) (i : GSlot) :
    (s.mem.gtable i).pass = UInt32.ofNat (FSS_BIG.toNat * completed tr i) := by
  refine hr.snoc_induction
    (P := fun tr s => (s.mem.gtable i).pass = UInt32.ofNat (FSS_BIG.toNat * completed tr i)) ?_ ?_
  · by_cases hi : i = 0 <;>
      simp [completed, boot, pinit, fssInitGroups, setGroup_gtable, hi, Group.fresh]
  · intro tr s a s' hr ih ha
    obtain ⟨hg, hw⟩ := ok_of_reachable ⟨tr, hr⟩
    have hgs := groupStep_of_trans hg hw (trans_of_step ha)
    rw [completed_append]
    generalize s'.mem.gtable = f at hgs
    generalize s'.cpu = u at hgs
    cases hgs with
    | same _ hret => simpa [completed, hret] using ih
    | @create c pid gid j _ hj _ =>
      by_cases hij : i = j
      · subst hij
        rw [hg.table.idle i hj] at ih
        simpa [completed, returns, Group.fresh] using ih
      · simpa [completed, returns, update_of_ne hij] using ih
    | @dispatch c g p _ _ _ =>
      by_cases hig : i = g
      · subst hig; simpa [completed, returns] using ih
      · simpa [completed, returns, update_of_ne hig] using ih
    | @ret c g hc =>
      by_cases hig : i = g
      · subst hig
        have hone : completed [(s, Act.ret c)] i = 1 := by simp [completed, returns, hc]
        rw [hone, Nat.mul_add, Nat.mul_one, UInt32.ofNat_add, UInt32.ofNat_toNat, ← ih,
          update_self, (hg.table.active i (hg.cpu c i hc)).1]
      · have hnone : completed [(s, Act.ret c)] i = 0 := by
          simp [completed, returns, hc, Ne.symm hig]
        rw [hnone, Nat.add_zero, update_of_ne hig, ih]

/-- A run in which no group completes `42949` dispatches does not wrap; here, by
its length. -/
lemma noWrap_of_length (hr : Run step (boot k) tr s) (hlen : tr.length ≤ 42949) : NoWrap tr := by
  intro e he g hg
  obtain ⟨tr₁, tr₂, rfl⟩ := List.append_of_mem he
  obtain ⟨_, h1, hs, _⟩ := hr.split_cons
  have hok := (ok_of_reachable ⟨tr₁, h1⟩).1
  have hact : (e.1.mem.gtable g).active = true := by
    cases ha : e.2 with
    | ret c =>
      rw [ha] at hg
      exact hok.cpu c g hg
    | _ => simp [ha, returns] at hg
  have hle : completed tr₁ g ≤ tr₁.length := List.countP_le_length
  rw [List.length_append, List.length_cons] at hlen
  have hS : FSS_BIG.toNat = 100000 := rfl
  rw [(hok.table.active g hact).1, pass_eq_completed h1 g, hS, UInt32.toNat_ofNat',
    Nat.mod_eq_of_lt] <;> omega

/-! ### A run with a new group -/

/-- A process is dispatched, runs and yields. -/
def turn (c : Fin 1) : List (Act 1) := [.dispatch c, .resume c, .yield c, .ret c]

/-- Init has had two turns. -/
def lead (c : Fin 1) : List (Act 1) := .userinit :: turn c ++ turn c

/-- Dispatched a third time, init forks, moves the child to the new group 7 and
yields; the child has three turns. -/
def newGroup (c : Fin 1) : List (Act 1) :=
  [.resume c] ++ List.replicate 7 (.fork c true) ++ [.setgroup c 2 7, .yield c, .ret c]
    ++ turn c ++ turn c ++ turn c

lemma exec_newGroup :
    ∃ s s' t, exec step (boot 1) (lead 0) = some s ∧ step s (.dispatch 0) = some s'
      ∧ picks s (.dispatch 0) = some 0 ∧ exec step s' (newGroup 0) = some t
      ∧ picks t (.dispatch 0) = some 0
      ∧ (∀ e ∈ traceOf step s' (newGroup 0), picks e.1 e.2 ≠ some 0)
      ∧ (∀ e ∈ traceOf step s' (newGroup 0), picks e.1 e.2 ≠ none →
        fssGroupHasRunnable e.1.mem 0 = true)
      ∧ dispatched (traceOf step s' (newGroup 0)) 1 = 3 := by
  simp only [exists_and_left]
  decide +kernel

/-- The whole run is far from a wrap. -/
lemma noWrap_newGroup {s s' t : Kernel 1} (hs : exec step (boot 1) (lead 0) = some s)
    (hd : step s (.dispatch 0) = some s') (ht : exec step s' (newGroup 0) = some t) :
    NoWrap (traceOf step s' (newGroup 0)) := by
  have hrun := (run_traceOf hs).append (.cons hd (run_traceOf ht))
  have h1 : (traceOf step (boot 1) (lead 0)).length ≤ 9 := length_traceOf_le _ _
  have h2 : (traceOf step s' (newGroup 0)).length ≤ 23 := length_traceOf_le _ _
  have hall := noWrap_of_length hrun (by
    rw [List.length_append, List.length_cons]
    omega)
  exact fun e he => hall e (List.mem_append_right _ (List.mem_cons_of_mem _ he))

/-! ### Fair share -/

section

variable {A B : GSlot} (hs : Reachable step (boot k) s) (hr : Run step s tr t)
  (hB : (s.mem.gtable B).active = true)
  (hrun : ∀ e ∈ tr, picks e.1 e.2 ≠ none → fssGroupHasRunnable e.1.mem B = true)

include hs hr hB hrun

/-- A group is dispatched only while its pass is at most that of a group with a
`RUNNABLE` process. -/
lemma pass_le_of_mem : ∀ e ∈ entries tr, e.2 = .dispatch A → e.1.pass A ≤ e.1.pass B := by
  intro e he hd
  obtain ⟨x, hx, hev, hb⟩ := mem_entries he
  rw [hd, event_eq_dispatch] at hev
  obtain ⟨tr₁, tr₂, rfl⟩ := List.append_of_mem hx
  obtain ⟨_, h1, _, _⟩ := hr.split_cons
  have hact := (keeps_of_run hs h1 B hB).1
  have hel : Eligible x.1.mem B := ⟨hact, hrun x hx (by simp [hev])⟩
  rw [← hb]
  exact pass_le_of_rank_le ((fssPickGroup_spec (picks_eq_some hev).2).2 B hel)

/-- **The lag between two groups**, dispatches under way included. -/
lemma lag_of_groups (hw : NoWrap tr) :
    completed tr A + (cpusOf t.cpu A).card ≤ completed tr B + k
      + ((s.mem.gtable B).pass.toNat - (s.mem.gtable A).pass.toNat) / FSS_BIG.toNat := by
  have hlag := Stride.lag_of_run (by decide) (books_of_run hs hr hw) A B (card_cpusOf_le s.cpu A)
    (pass_le_of_mem hs hr hB hrun)
  rw [rets_entries, rets_entries] at hlag
  exact hlag

end

/-- **Fair share between groups.**  On any number of CPUs, in a segment of a run in
which the group `B` has a `RUNNABLE` process at every dispatch and no pass addition
wraps, another group completes at most as many more dispatches than `B` as there
are CPUs and strides between their passes at the start. -/
theorem fair_share (hs : Reachable step (boot k) s) (hr : Run step s tr t) {A B : GSlot}
    (hB : (s.mem.gtable B).active = true)
    (hrun : ∀ e ∈ tr, picks e.1 e.2 ≠ none → fssGroupHasRunnable e.1.mem B = true)
    (hw : NoWrap tr) :
    (completed tr A : ℤ) - completed tr B ≤ k
      + max 0 (((s.mem.gtable B).pass.toNat - (s.mem.gtable A).pass.toNat : ℤ)
        / FSS_BIG.toNat) := by
  have hlag := lag_of_groups hs hr (A := A) hB hrun hw
  have hdiv :
      ((((s.mem.gtable B).pass.toNat - (s.mem.gtable A).pass.toNat) / FSS_BIG.toNat : ℕ) : ℤ)
        ≤ max 0 (((s.mem.gtable B).pass.toNat - (s.mem.gtable A).pass.toNat : ℤ)
        / FSS_BIG.toNat) := by
    rcases Nat.le_total (s.mem.gtable A).pass.toNat (s.mem.gtable B).pass.toNat with h | h
    · push_cast [h]
      exact le_max_right _ _
    · rw [Nat.sub_eq_zero_of_le h]
      simp
  omega

theorem fair_share_newGroup :
    ∃ s tr t, Reachable step (boot 1) s ∧ Run step s tr t ∧ 0 < dispatched tr 1
      ∧ (completed tr 1 : ℤ) - completed tr 0 ≤ 1
        + max 0 (((s.mem.gtable 0).pass.toNat - (s.mem.gtable 1).pass.toNat : ℤ)
          / FSS_BIG.toNat) := by
  obtain ⟨s, s', t, hs, hd, hp, ht, _, _, hrun, hcount⟩ := exec_newGroup
  have hr : Reachable step (boot 1) s' := ⟨_, (run_traceOf hs).snoc hd⟩
  have hcpu := (dispatch_of_picks (ok_of_reachable ⟨_, run_traceOf hs⟩) hd hp).2
  exact ⟨s', _, t, hr, run_traceOf ht, by omega,
    fair_share hr (run_traceOf ht) ((ok_of_reachable hr).1.cpu 0 0 hcpu) hrun
      (noWrap_newGroup hs hd ht)⟩

/-! ### Overtaking on one CPU -/

/-- **Overtaking is bounded.**  On one CPU, after a dispatch of the group `G` and as
long as `G` is not dispatched again, has a `RUNNABLE` process at every dispatch and
no pass addition wraps, another group `H` is dispatched at most twice more than
there are strides from its pass up to that of `G` at the dispatch; that is, at most
twice if the pass of `H`, which is 0 for a group created later, was not smaller. -/
theorem overtaking_bound {s s' t : Kernel 1} {tr : List (Kernel 1 × Act 1)} {c : Fin 1}
    {G H : GSlot} (hs : Reachable step (boot 1) s) (hd : step s (.dispatch c) = some s')
    (hG : picks s (.dispatch c) = some G) (hr : Run step s' tr t)
    (hno : ∀ e ∈ tr, picks e.1 e.2 ≠ some G)
    (hrun : ∀ e ∈ tr, picks e.1 e.2 ≠ none → fssGroupHasRunnable e.1.mem G = true)
    (hw : NoWrap tr) (hHG : H ≠ G) :
    dispatched tr H
        ≤ 2 + ((s.mem.gtable G).pass.toNat - (s.mem.gtable H).pass.toNat) / FSS_BIG.toNat
      ∧ ((s.mem.gtable G).pass ≤ (s.mem.gtable H).pass → dispatched tr H ≤ 2) := by
  have hs' : Reachable step (boot 1) s' := hs.trans_run (.cons hd (.nil s'))
  obtain ⟨hpass, hcpu⟩ := dispatch_of_picks (ok_of_reachable hs) hd hG
  have hact : (s'.mem.gtable G).active = true := (ok_of_reachable hs').1.cpu c G hcpu
  -- the only CPU runs for `G`, so `H` has nothing under way and `G` returns once at most
  have hH : (cpusOf s'.cpu H).card = 0 := by
    rw [Finset.card_eq_zero, Finset.eq_empty_iff_forall_notMem]
    intro d hd
    rw [Subsingleton.elim d c] at hd
    simp only [cpusOf, Finset.mem_filter, hcpu, Option.some.injEq] at hd
    exact hHG hd.2.symm
  have hdG : dispatched tr G = 0 := List.countP_eq_zero.mpr fun e he => by simpa using hno e he
  have hbooks := books_of_run hs' hr hw
  have hflG := Stride.flight_of_run hbooks G
  have hflH := Stride.flight_of_run hbooks H
  have hlag := lag_of_groups hs' hr (A := H) hact hrun hw
  rw [rets_entries, dispatches_entries] at hflG hflH
  rw [hpass, hpass] at hlag
  simp only [books] at hflG hflH
  have hG1 := card_cpusOf_le s'.cpu G
  refine ⟨by omega, fun hle => ?_⟩
  rw [UInt32.le_iff_toNat_le] at hle
  rw [Nat.sub_eq_zero_of_le hle, Nat.zero_div] at hlag
  omega

theorem overtaking_bound_newGroup :
    ∃ (s s' : Kernel 1) (tr : List (Kernel 1 × Act 1)) (t : Kernel 1),
      step s (.dispatch 0) = some s' ∧ Run step s' tr t ∧ dispatched tr 1 = 3
      ∧ dispatched tr 1
        ≤ 2 + ((s.mem.gtable 0).pass.toNat - (s.mem.gtable 1).pass.toNat) / FSS_BIG.toNat := by
  obtain ⟨s, s', t, hs, hd, hp, ht, _, hno, hrun, hcount⟩ := exec_newGroup
  have hbound := overtaking_bound (H := 1) ⟨_, run_traceOf hs⟩ hd hp (run_traceOf ht) hno hrun
    (noWrap_newGroup hs hd ht) (by decide)
  exact ⟨s, s', _, t, hd, run_traceOf ht, hcount, hbound.1⟩

/-- **A new group overtakes three times.**  Two consecutive dispatches of group 0 on
one CPU, with a `RUNNABLE` process in group 0 at every dispatch in between and no
wrap, and three dispatches of the group that a `setgroup` created after the
first. -/
theorem overtaken_three_times :
    ∃ s s' tr t, Reachable step (boot 1) s ∧ step s (.dispatch 0) = some s'
      ∧ picks s (.dispatch 0) = some 0 ∧ Run step s' tr t ∧ picks t (.dispatch 0) = some 0
      ∧ (∀ e ∈ tr, picks e.1 e.2 ≠ some 0)
      ∧ (∀ e ∈ tr, picks e.1 e.2 ≠ none → fssGroupHasRunnable e.1.mem 0 = true)
      ∧ NoWrap tr ∧ dispatched tr 1 = 3 := by
  obtain ⟨s, s', t, hs, hd, hp, ht, hpt, hno, hrun, hcount⟩ := exec_newGroup
  exact ⟨s, s', _, t, ⟨_, run_traceOf hs⟩, hd, hp, run_traceOf ht, hpt, hno, hrun,
    noWrap_newGroup hs hd ht, hcount⟩

end Xv6
