import Xv6.Fs.Ledger

/-!
Admission to the log (`begin_op`) against its capacity (`log_write`).

`begin_op` reserves `MAXOPBLOCKS` blocks for every operation out of `LOGSIZE`, but the
log has room for `LOGSIZE - 1`, since its header takes a block, and `log_write` tests
this before it looks whether its block is there already.  So three operations that stay
within their reservation can fill the log and panic: `log_too_big` is such a run.
Operations that stay one block below it cannot.

* `opBlocks`: the blocks an operation has passed to `log_write`.
* `reserve`: what the operations under way may still add, at `MAXOPBLOCKS - 1` each.
* `Budget`: the header together with that is below the capacity.
* `log_admission`: the tests of `log_write` never fail.
-/

namespace Xv6.Fs

open Transition

variable {n : ℕ} {L : Layout} {d₀ : Disk} {j j' : Journal n} {s s' : Machine n}

/-- The panic `too big a transaction` of `log_write`, with `log.size = LOGSIZE`. -/
def Log.tooBig (l : Log) : Bool :=
  decide (LOGSIZE ≤ l.lh.length) || decide (LOGSIZE - 1 ≤ l.lh.length)

/-- The blocks that an operation has passed to `log_write`. -/
def opBlocks (o : ℕ) (j : Journal n) : Finset ℕ := ((ofOp o j.all).map Entry.blockno).toFinset

lemma mem_opBlocks {o b : ℕ} : b ∈ opBlocks o j ↔ ∃ e ∈ j.all, e.op = o ∧ e.blockno = b := by
  simp [opBlocks, ofOp, and_assoc]

/-- The journal only grows. -/
lemma all_observe (j : Journal n) (s : Machine n) (a : Act n) : j.all <+: (j.observe s a).all := by
  cases a with
  | logWrite t => exact List.prefix_append ..
  | beginOp t | run t =>
    simp only [Journal.observe]
    split <;> exact List.prefix_rfl
  | _ => exact List.prefix_rfl

lemma opBlocks_mono (h : j.all <+: j'.all) (o : ℕ) : opBlocks o j ⊆ opBlocks o j' := by
  intro b hb
  obtain ⟨e, he, hob⟩ := mem_opBlocks.mp hb
  exact mem_opBlocks.mpr ⟨e, h.subset he, hob⟩

/-- What the operation of a process may still add to the log. -/
def share (j : Journal n) (m : Tid n → Mode) (t : Tid n) : ℕ :=
  if InOp (m t) then MAXOPBLOCKS - 1 - (opBlocks (j.cur t) j).card else 0

/-- What all operations under way may still add. -/
def reserve (j : Journal n) (m : Tid n → Mode) : ℕ := ∑ t, share j m t

/-- While operations are under way, the header with what they may add is below the
capacity. -/
def Budget (j : Journal n) (s : Machine n) : Prop :=
  (∃ t, InOp (s.mode t)) → s.log.lh.length + reserve j s.mode ≤ LOGSIZE - 2

/-- A share gets smaller as the operation goes on. -/
lemma share_le {m m' : Tid n → Mode} {t : Tid n} (hall : j.all <+: j'.all)
    (hin : InOp (m' t) → InOp (m t) ∧ j'.cur t = j.cur t) : share j' m' t ≤ share j m t := by
  by_cases ht : InOp (m' t)
  · obtain ⟨hin', hcur⟩ := hin ht
    rw [share, share, if_pos ht, if_pos hin', hcur]
    exact Nat.sub_le_sub_left (Finset.card_le_card (opBlocks_mono hall _)) _
  · rw [share, if_neg ht]
    exact Nat.zero_le _

lemma reserve_le_mul (j : Journal n) (m : Tid n → Mode) :
    reserve j m ≤ (MAXOPBLOCKS - 1) * tally InOp m := by
  refine sum_le_mul_tally fun t => ?_
  rw [share]
  split
  · exact Nat.sub_le _ _
  · exact le_rfl

namespace Budget

/-- No operation begins and nothing is logged. -/
lemma mono (h : Budget j s) (hall : j'.all = j.all) (hcur : j'.cur = j.cur)
    (hin : ∀ t, InOp (s'.mode t) → InOp (s.mode t)) (hlh : s'.log.lh = s.log.lh) :
    Budget j' s' := by
  rintro ⟨t, ht⟩
  have hle : reserve j' s'.mode ≤ reserve j s.mode := Finset.sum_le_sum fun u _ =>
    share_le (by rw [hall]) fun hu => ⟨hin u hu, by rw [hcur]⟩
  have hold := h ⟨t, hin t ht⟩
  rw [hlh]
  omega

/-- `begin_op` admits an operation when there is room for `MAXOPBLOCKS` blocks for each;
the first one finds the header empty. -/
lemma beginOp (hL : Ledger j s) (ho' : Ops s'.log s'.mode)
    (hbusy : ∀ t w p, s.mode t ≠ .busy w p) (hf : s.log.full = false)
    (hlh : s'.log.lh = s.log.lh) (hout : s'.log.outstanding = s.log.outstanding + 1) :
    Budget j' s' := by
  rintro -
  have hres := reserve_le_mul j' s'.mode
  rw [← ho'.outstanding, hout] at hres
  simp only [Log.full, Bool.or_eq_false_iff, decide_eq_false_iff_not, not_lt] at hf
  have hmax : MAXOPBLOCKS = 10 := rfl
  rw [LOGSIZE_eq, hmax] at hf
  rw [hmax] at hres
  rw [LOGSIZE_eq, hlh]
  rcases Nat.eq_zero_or_pos s.log.outstanding with hz | hpos
  · rw [hL.idle hbusy hz, List.length_nil]
    omega
  · omega

/-- `log_write` takes a new block of the operation from its share; a block the operation
has logged before is in the header already. -/
lemma logWrite (h : Budget j s) (hL : Ledger j s) (hw : Whole j s.mode) {t : Tid n}
    {e : Entry} (hbusy : ∀ t w p, s.mode t ≠ .busy w p) (ht : InOp (s.mode t))
    (he : e.op = j.cur t) (hall : j'.all = j.all ++ [e]) (hcur : j'.cur = j.cur)
    (hin : ∀ u, InOp (s'.mode u) ↔ InOp (s.mode u)) (hlh : s'.log.lh = absorb s.log.lh e.blockno)
    (hk : (opBlocks (j.cur t) j').card ≤ MAXOPBLOCKS - 1) : Budget j' s' := by
  rintro -
  have hold := h ⟨t, ht⟩
  have hpre : j.all <+: j'.all := hall ▸ List.prefix_append ..
  have hle : ∀ u, share j' s'.mode u ≤ share j s.mode u := fun u =>
    share_le hpre fun hu => ⟨(hin u).mp hu, by rw [hcur]⟩
  have hsum := sum_add_le_of_ne t fun u _ => hle u
  have ht' := hle t
  by_cases hb : e.blockno ∈ s.log.lh
  · rw [hlh, absorb, if_pos hb]
    simp only [reserve] at hold ⊢
    omega
  · -- the block is new to the header, so it is new to the operation
    have hnew : e.blockno ∉ opBlocks (j.cur t) j := by
      intro hmem
      obtain ⟨f, hf, hop, hfb⟩ := mem_opBlocks.mp hmem
      have hf' : f ∈ ofOp (j.cur t) j.opened := by
        rw [(hw.live t ht).2.2]
        exact mem_ofOp.mpr ⟨hf, hop⟩
      have hrec := hL.records fun u w p hu => absurd hu (hbusy u w p)
      exact hb ((hrec.mem _).mpr ⟨f, (mem_ofOp.mp hf').1, hfb⟩)
    have hblocks : opBlocks (j.cur t) j' = insert e.blockno (opBlocks (j.cur t) j) := by
      ext b
      simp only [Finset.mem_insert, mem_opBlocks, hall, List.mem_append, List.mem_singleton]
      constructor
      · rintro ⟨f, hf | rfl, hop, hfb⟩
        · exact .inr ⟨f, hf, hop, hfb⟩
        · exact .inl hfb.symm
      · rintro (rfl | ⟨f, hf, hop, hfb⟩)
        · exact ⟨e, .inr rfl, he, rfl⟩
        · exact ⟨f, .inl hf, hop, hfb⟩
    have hlast : share j' s'.mode t + 1 ≤ share j s.mode t := by
      rw [share, share, if_pos ht, if_pos ((hin t).mpr ht), hcur]
      rw [hblocks, Finset.card_insert_of_notMem hnew] at hk ⊢
      omega
    rw [hlh, absorb, if_neg hb, List.length_append, List.length_singleton]
    simp only [reserve] at hold ⊢
    omega

end Budget

/-- One step, in which no operation logs more than `MAXOPBLOCKS - 1` blocks. -/
lemma budget_of_trans {a : Act n} (h : Budget j s) (hL : Ledger j s) (hw : Whole j s.mode)
    (hs : Sound L s) (ht : Trans L s a s')
    (hk : ∀ o, (opBlocks o (j.observe s a)).card ≤ MAXOPBLOCKS - 1) :
    Budget (j.observe s a) s' := by
  have hin : (∀ u, a ≠ .beginOp u) → ∀ u, InOp (s'.mode u) → InOp (s.mode u) := fun hne u hu =>
    (inOp_of_trans hs.ops ht hu).resolve_right (hne u)
  cases ht with
  | crash =>
    rintro ⟨t, ht⟩
    simp only [powerOn] at ht
    split at ht <;> simp [InOp] at ht
  | phase _ hm =>
    rintro ⟨u, hu⟩
    exact absurd (hin (by simp) u hu) (hs.ops.not_inOp hm u)
  | @sleep t hm hf =>
    have hobs : j.observe s (.beginOp t) = j := if_pos hf
    rw [hobs]
    refine h.mono rfl rfl (fun u hu => ?_) rfl
    rcases eq_or_ne u t with rfl | hne
    · simp [InOp] at hu
    · simpa [hne] using hu
  | @beginOp t hm hf =>
    refine Budget.beginOp hL (hs.ops.beginOp hm hf) (fun u w p hu => ?_) hf rfl rfl
    -- nobody commits, and after recovery nobody recovers
    cases w with
    | commit =>
      have hc := hs.ops.commit u p hu
      simp [Log.full, hc] at hf
    | recover =>
      have hne : t ≠ u := by
        rintro rfl
        rcases hm with hm | hm <;> simp [hm] at hu
      have hdown := hs.ops.recover u p hu t hne
      rcases hm with hm | hm <;> simp [hm] at hdown
  | @logWrite t i b hm hb =>
    have hlive : InOp (s.mode t) := by rw [hm]; trivial
    have hall : (j.observe s (.logWrite t)).all
        = j.all ++ [⟨j.cur t, b, (s.cache.buf i).data⟩] := by
      simp [Journal.observe, logged, hm, hb]
    refine h.logWrite hL hw (hs.ops.not_busy hlive) hlive rfl hall rfl (fun u => ?_) rfl (hk _)
    rcases eq_or_ne u t with rfl | hne
    · simp [hm, InOp]
    · simp only [Function.update_of_ne hne]
  | _ => exact h.mono rfl rfl (hin (by simp)) rfl

theorem budget_of_run {tr : List (Machine n × Act n)} (hr : Run (step L) (powerOn d₀) tr s)
    (hk : ∀ o, (opBlocks o (journal tr)).card ≤ MAXOPBLOCKS - 1) : Budget (journal tr) s := by
  refine hr.snoc_induction
    (P := fun tr s => (∀ o, (opBlocks o (journal tr)).card ≤ MAXOPBLOCKS - 1) →
      Budget (journal tr) s) ?_ ?_ hk
  · rintro - ⟨t, ht⟩
    simp only [powerOn] at ht
    split at ht <;> simp [InOp] at ht
  · intro tr s a s' hr ih hs hk
    obtain ⟨hsound, hL⟩ := ledger_of_run hr
    rw [journal_snoc] at hk ⊢
    have hold : ∀ o, (opBlocks o (journal tr)).card ≤ MAXOPBLOCKS - 1 := fun o =>
      (Finset.card_le_card (opBlocks_mono (all_observe _ s a) o)).trans (hk o)
    exact budget_of_trans (ih hold) hL (whole_of_run hr) hsound (trans_of_step hs) hk

/-- **Admission is sufficient for operations of `MAXOPBLOCKS - 1` blocks.**  In every run
of any number of processes in which no operation passes more than that many distinct
blocks to `log_write`, a process in an operation that calls `log_write` with a buffer it
holds gets past its two tests: it does not panic. -/
theorem log_admission {tr : List (Machine n × Act n)} (hr : Run (step L) (powerOn d₀) tr s)
    (hk : ∀ o, (opBlocks o (journal tr)).card ≤ MAXOPBLOCKS - 1) {t : Tid n} {i : BufId}
    (hc : s.call t = .none) (hm : s.mode t = .op) (hl : (s.cache.buf i).lock = some t) :
    s.log.tooBig = false ∧ (step L s (.logCheck t i)).isSome = true := by
  obtain ⟨hs, -⟩ := ledger_of_run hr
  have hin : InOp (s.mode t) := by rw [hm]; trivial
  have hroom := budget_of_run hr hk ⟨t, hin⟩
  have hpos : 0 < tally InOp s.mode := tally_pos hin
  rw [← hs.ops.outstanding] at hpos
  rw [LOGSIZE_eq] at hroom
  have hlen : s.log.lh.length < LOGSIZE - 1 := by
    rw [LOGSIZE_eq]
    omega
  constructor
  · simp only [Log.tooBig, Bool.or_eq_false_iff, decide_eq_false_iff_not, not_le]
    exact ⟨hlen.trans (by decide), hlen⟩
  · simp only [step, hc, hm, hl, hlen, true_and, Option.isSome_ite]
    exact hpos

theorem log_admission_fourthWaits : ∃ s,
    exec (step mkfsLayout) (powerOn blankDisk)
      (fourthWaits 0 1 2 3 1 ++ [.bread 0 41, .cont 0, .cont 0]) = some s ∧
    s.log.tooBig = false ∧ (step mkfsLayout s (.logCheck 0 2)).isSome = true := by
  let as := fourthWaits 0 1 2 3 1 ++ [.bread 0 41, .cont 0, .cont 0]
  obtain ⟨s, hs, hc, hm, hl, hlen⟩ :
      ∃ s, exec (step mkfsLayout) (powerOn blankDisk) as = some s ∧
        s.call 0 = .none ∧ s.mode 0 = .op ∧ (s.cache.buf 2).lock = some 0 ∧
        (journal (traceOf (step mkfsLayout) (powerOn blankDisk) as)).all.length = 1 := by
    decide +kernel
  refine ⟨s, hs, log_admission (run_traceOf hs) (fun o => ?_) hc hm hl⟩
  refine (List.toFinset_card_le _).trans ?_
  rw [List.length_map]
  refine (List.length_filter_le ..).trans ?_
  rw [hlen]
  decide

/-! ### Three full operations -/

/-- Three operations begin; the first two log ten blocks each and the third one nine, and
then it reads its tenth. -/
def threeOps (t u v : Tid 2) (is : List BufId) : List (Act 2) :=
  List.flatten [recovery t, [.beginOp t, .beginOp u, .beginOp v],
    (is.take 10).flatMap fun i : BufId => logBlock t (40 + i.val) i,
    ((is.drop 10).take 10).flatMap fun i : BufId => logBlock u (40 + i.val) i,
    (is.drop 20).flatMap fun i : BufId => logBlock v (40 + i.val) i,
    [.bread v 70, .cont v, .cont v]]

/-- **The log gets too big.**  Three operations are admitted together.  None of them passes
more than `MAXOPBLOCKS` distinct blocks to `log_write`, the one that the third is about to
pass included, but that last call panics. -/
theorem log_too_big : ∃ s,
    exec (step mkfsLayout) (powerOn blankDisk) (threeOps 0 1 2 (List.finRange NBUF).tail)
      = some s ∧
    s.mode 2 = .op ∧ s.call 2 = .none ∧ (s.cache.buf 0).lock = some 2 ∧
    (s.cache.buf 0).blockno = some 70 ∧ s.log.tooBig = true ∧
    step mkfsLayout s (.logCheck 2 0) = none ∧
    ((journal (traceOf (step mkfsLayout) (powerOn blankDisk)
      (threeOps 0 1 2 (List.finRange NBUF).tail))).all.map fun e => (e.op, e.blockno))
        = (List.range 10).map (fun b => (0, 41 + b)) ++ (List.range 10).map (fun b => (1, 51 + b))
          ++ (List.range 9).map fun b => (2, 61 + b) := by
  decide +kernel

end Xv6.Fs
