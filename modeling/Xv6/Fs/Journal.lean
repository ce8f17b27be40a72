import Xv6.Fs.Stage

/-!
Crash atomicity of the log.

The journal of a run is read off its trace: every `log_write` with the operation it
belongs to, those of the open group, and the committed groups in order.  A group is
committed by the disk write of the first `write_head`; a crash discards the open group.

* `Journal`, `journal`: the journal of a trace.
* `committed`, `contents`: the home blocks after the committed groups, and with the
  open group.
* `inv_of_run`: in every run the disk, the cache and the header are in the stage that
  the journal says.
* `Whole`: every operation is committed with all its `log_write`s or with none.
* `crash_atomicity`: after `recover_from_log` the home blocks are those of the committed
  groups.
-/

namespace Xv6.Fs

open Transition RedoLog Function

variable {n : ℕ} {L : Layout} {d₀ : Disk} {H₀ : ℕ → Block}

/-! ### The journal -/

/-- A `log_write`: its operation, its block and the data of the buffer. -/
structure Entry where
  op : ℕ
  blockno : ℕ
  data : Block

structure Journal (n : ℕ) where
  /-- The number of operations begun. -/
  ops : ℕ := 0
  /-- The operation that each process has begun last. -/
  cur : Tid n → ℕ := fun _ => 0
  /-- Every `log_write`. -/
  all : List Entry := []
  /-- Those since the last commit or crash. -/
  opened : List Entry := []
  /-- The committed groups. -/
  done : List (List Entry) := []

namespace Journal

/-- The journal after a step. -/
def observe (j : Journal n) (s : Machine n) : Act n → Journal n
  | .crash => { j with opened := [] }
  | .beginOp t =>
    if s.log.full then j
    else { j with ops := j.ops + 1, cur := update j.cur t j.ops }
  | .logWrite t =>
    let es := (logged s (.logWrite t)).map fun w => ⟨j.cur t, w.1, w.2⟩
    { j with all := j.all ++ es, opened := j.opened ++ es }
  | .run t =>
    if commits s (.run t) then { j with done := j.done ++ [j.opened], opened := [] } else j
  | _ => j

end Journal

def journal (tr : List (Machine n × Act n)) : Journal n :=
  tr.foldl (fun j e => j.observe e.1 e.2) {}

lemma journal_snoc (tr : List (Machine n × Act n)) (s : Machine n) (a : Act n) :
    journal (tr ++ [(s, a)]) = (journal tr).observe s a := by
  simp only [journal, List.foldl_append, List.foldl_cons, List.foldl_nil]

/-- The blocks and data of a list of `log_write`s. -/
def writes (es : List Entry) : List (ℕ × Block) := es.map fun e => (e.blockno, e.data)

lemma writes_append (es fs : List Entry) : writes (es ++ fs) = writes es ++ writes fs :=
  List.map_append

/-- The home blocks after the committed groups, over the contents `H₀` before the run. -/
def Journal.committed (j : Journal n) (H₀ : ℕ → Block) : ℕ → Block :=
  replay (writes j.done.flatten) H₀

/-- The home blocks with the open group. -/
def Journal.contents (j : Journal n) (H₀ : ℕ → Block) : ℕ → Block :=
  replay (writes j.opened) (j.committed H₀)

lemma committed_observe (j : Journal n) (s : Machine n) (a : Act n) :
    (j.observe s a).committed H₀
      = nextCommitted (j.committed H₀) (j.contents H₀) s a := by
  cases a with
  | run t =>
    simp only [Journal.observe, nextCommitted]
    split
    · simp only [Journal.committed, Journal.contents, List.flatten_append, List.flatten_cons,
        List.flatten_nil, List.append_nil, writes_append, replay_append]
    · rfl
  | beginOp t =>
    simp only [Journal.observe]
    split <;> rfl
  | _ => rfl

lemma contents_observe (j : Journal n) (s : Machine n) (a : Act n) :
    (j.observe s a).contents H₀
      = nextContents (j.committed H₀) (j.contents H₀) s a := by
  cases a with
  | run t =>
    simp only [Journal.observe, nextContents, logged]
    split
    · simp only [Journal.committed, Journal.contents, List.flatten_append, List.flatten_cons,
        List.flatten_nil, List.append_nil, writes_append, replay_append]
      rfl
    · rfl
  | logWrite t =>
    simp only [Journal.observe, nextContents, Journal.contents, writes_append, replay_append]
    congr 1
    simp [writes, Function.comp_def]
  | beginOp t =>
    simp only [Journal.observe]
    split <;> rfl
  | _ => rfl

/-! ### The invariant of a run -/

/-- The machine and the journal of the run that led to it. -/
structure Inv (L : Layout) (H₀ : ℕ → Block) (j : Journal n) (s : Machine n) : Prop where
  sound : Sound L s
  contents : Contents L (j.contents H₀) s
  stage : Stage L (j.committed H₀) (j.contents H₀) s

lemma inv_powerOn (h₀ : Recoverable L.redo H₀ d₀) : Inv L H₀ ({} : Journal n) (powerOn d₀) :=
  ⟨sound_powerOn d₀, contents_powerOn d₀, .powerOn h₀⟩

variable {s s' : Machine n} {a : Act n}

lemma inv_of_trans {j : Journal n} (h : Inv L H₀ j s)
    (ht : Trans L s a s') : Inv L H₀ (j.observe s a) s' := by
  refine ⟨sound_of_trans h.sound ht, ?_, ?_⟩
  · rw [contents_observe]
    exact contents_next h.contents h.sound ht
  · rw [contents_observe, committed_observe]
    exact stage_of_trans h.stage h.sound h.contents ht

/-- **The stage of every run.** -/
theorem inv_of_run (h₀ : Recoverable L.redo H₀ d₀) {tr : List (Machine n × Act n)}
    (hr : Run (step L) (powerOn d₀) tr s) : Inv L H₀ (journal tr) s := by
  refine hr.snoc_induction (P := fun tr s => Inv L H₀ (journal tr) s) (inv_powerOn h₀) ?_
  intro tr s a s' _ h hs
  rw [journal_snoc]
  exact inv_of_trans h (trans_of_step hs)

/-! ### Operations are committed as a whole -/

/-- The `log_write`s of an operation. -/
def ofOp (o : ℕ) (es : List Entry) : List Entry := es.filter fun e => e.op = o

lemma ofOp_append (o : ℕ) (es fs : List Entry) : ofOp o (es ++ fs) = ofOp o es ++ ofOp o fs :=
  List.filter_append ..

variable {es : List Entry}

lemma ofOp_eq_nil {o : ℕ} : ofOp o es = [] ↔ ∀ e ∈ es, e.op ≠ o := by
  simp [ofOp, List.filter_eq_nil_iff]

variable {e : Entry}

lemma mem_ofOp {o : ℕ} : e ∈ ofOp o es ↔ e ∈ es ∧ e.op = o := by
  simp [ofOp]

/-- The operations of the committed groups and those of the open group are different and
have all their `log_write`s there; an operation under way is not committed in part. -/
structure Whole (j : Journal n) (m : Tid n → Mode) : Prop where
  done : ∀ e ∈ j.done.flatten, ofOp e.op j.done.flatten = ofOp e.op j.all
  opened : ∀ e ∈ j.opened, ofOp e.op j.opened = ofOp e.op j.all
  apart : ∀ e ∈ j.done.flatten, ∀ f ∈ j.opened, e.op ≠ f.op
  fresh : ∀ e ∈ j.all, e.op < j.ops
  live : ∀ t, InOp (m t) → j.cur t < j.ops ∧ (∀ e ∈ j.done.flatten, e.op ≠ j.cur t) ∧
    ofOp (j.cur t) j.opened = ofOp (j.cur t) j.all

namespace Whole

variable {j : Journal n} {m m' : Tid n → Mode}

lemma mono (h : Whole j m) (hm : ∀ t, InOp (m' t) → InOp (m t)) : Whole j m' :=
  { h with live := fun t ht => h.live t (hm t ht) }

/-- A committed `log_write` is one of all. -/
lemma mem_all_of_done (h : Whole j m) (he : e ∈ j.done.flatten) : e ∈ j.all := by
  have hmem : e ∈ ofOp e.op j.done.flatten := mem_ofOp.mpr ⟨he, rfl⟩
  rw [h.done e he] at hmem
  exact (mem_ofOp.mp hmem).1

lemma mem_all_of_opened (h : Whole j m) (he : e ∈ j.opened) : e ∈ j.all := by
  have hmem : e ∈ ofOp e.op j.opened := mem_ofOp.mpr ⟨he, rfl⟩
  rw [h.opened e he] at hmem
  exact (mem_ofOp.mp hmem).1

/-- A crash ends the operations under way and discards the open group. -/
lemma crash (h : Whole j m) (hm : ∀ t, ¬InOp (m' t)) : Whole { j with opened := [] } m' where
  done := h.done
  opened := by simp
  apart := by simp
  fresh := h.fresh
  live t ht := absurd ht (hm t)

/-- The commit of the open group, when no operation is under way. -/
lemma commit (h : Whole j m) (hm : ∀ t, ¬InOp (m' t)) :
    Whole { j with done := j.done ++ [j.opened], opened := [] } m' := by
  have hflat : (j.done ++ [j.opened]).flatten = j.done.flatten ++ j.opened := by simp
  refine ⟨?_, by simp, by simp, h.fresh, fun t ht => absurd ht (hm t)⟩
  intro e he
  simp only [hflat, ofOp_append] at he ⊢
  rcases List.mem_append.mp he with he | he
  · have hnil : ofOp e.op j.opened = [] :=
      ofOp_eq_nil.mpr fun f hf => (h.apart e he f hf).symm
    rw [hnil, List.append_nil, h.done e he]
  · have hnil : ofOp e.op j.done.flatten = [] :=
      ofOp_eq_nil.mpr fun f hf => h.apart f hf e he
    rw [hnil, List.nil_append, h.opened e he]

/-- A new operation has no `log_write` yet. -/
lemma beginOp (h : Whole j m) {t : Tid n} (hm : ∀ u, InOp (m' u) → u = t ∨ InOp (m u)) :
    Whole { j with ops := j.ops + 1, cur := update j.cur t j.ops } m' := by
  refine ⟨h.done, h.opened, h.apart, fun e he => ?_, fun u hu => ?_⟩
  · exact Nat.lt_succ_of_lt (h.fresh e he)
  · rcases eq_or_ne u t with rfl | hne
    · simp only [update_self]
      refine ⟨Nat.lt_succ_self _, fun e he => ?_, ?_⟩
      · exact Nat.ne_of_lt (h.fresh e (h.mem_all_of_done he))
      · rw [ofOp_eq_nil.mpr fun e he => Nat.ne_of_lt (h.fresh e (h.mem_all_of_opened he)),
          ofOp_eq_nil.mpr fun e he => Nat.ne_of_lt (h.fresh e he)]
    · simp only [update_of_ne hne]
      obtain ⟨hlt, hdone, hopen⟩ := h.live u ((hm u hu).resolve_left hne)
      exact ⟨Nat.lt_succ_of_lt hlt, hdone, hopen⟩

/-- The `log_write`s of an operation under way go to the open group. -/
lemma logWrite (h : Whole j m) {t : Tid n} (ht : InOp (m t)) (hm : ∀ u, InOp (m' u) → InOp (m u))
    (hes : ∀ e ∈ es, e.op = j.cur t) :
    Whole { j with all := j.all ++ es, opened := j.opened ++ es } m' := by
  obtain ⟨hlt, hdone, hopen⟩ := h.live t ht
  have hother : ∀ o, o ≠ j.cur t → ofOp o es = [] := fun o ho =>
    ofOp_eq_nil.mpr fun e he heo => ho (heo.symm.trans (hes e he))
  refine ⟨fun e he => ?_, fun e he => ?_, fun e he f hf => ?_, fun e he => ?_, fun u hu => ?_⟩
  · rw [ofOp_append, hother e.op (hdone e he), List.append_nil]
    exact h.done e he
  · by_cases hop : e.op = j.cur t
    · rw [hop, ofOp_append, ofOp_append, hopen]
    · have he' : e ∈ j.opened := (List.mem_append.mp he).resolve_right fun hm => hop (hes e hm)
      rw [ofOp_append, ofOp_append, hother e.op hop, h.opened e he']
  · rcases List.mem_append.mp hf with hf | hf
    · exact h.apart e he f hf
    · rw [hes f hf]
      exact hdone e he
  · rcases List.mem_append.mp he with he | he
    · exact h.fresh e he
    · rw [hes e he]
      exact hlt
  · obtain ⟨hlt', hdone', hopen'⟩ := h.live u (hm u hu)
    exact ⟨hlt', hdone', by rw [ofOp_append, ofOp_append, hopen']⟩

end Whole

/-- A process gets into an operation by `begin_op` only. -/
lemma inOp_of_trans (ho : Ops s.log s.mode) (ht : Trans L s a s')
    {u : Tid n} (hu : InOp (s'.mode u)) : InOp (s.mode u) ∨ a = .beginOp u := by
  cases ha : a.actor with
  | none =>
    cases ht <;> cases ha
    simp only [powerOn] at hu
    split at hu <;> simp [InOp] at hu
  | some t =>
    rcases eq_or_ne u t with rfl | hne
    · cases ht with
      | crash => cases ha
      | lock | cached | fill | unref | bread | modify | brelse => exact .inl hu
      | beginOp => cases ha; exact .inr rfl
      | logCheck _ hm | logWrite hm => cases ha; exact .inl (by rw [hm]; trivial)
      | phase _ _ hp => cases ha; cases hp <;> simp [InOp] at hu
      | sleep | wake | endLast | endOp => cases ha; simp [InOp] at hu
    · exact .inl ((inOp_of_ne ho ht ha hne).mp hu)

lemma whole_of_trans {j : Journal n} (h : Whole j s.mode)
    (ho : Ops s.log s.mode) (ht : Trans L s a s') : Whole (j.observe s a) s'.mode := by
  have hin : (∀ u, a ≠ .beginOp u) → ∀ u, InOp (s'.mode u) → InOp (s.mode u) := fun hne u hu =>
    (inOp_of_trans ho ht hu).resolve_right (hne u)
  cases a with
  | crash =>
    cases ht
    refine h.crash fun t => ?_
    simp only [powerOn]
    split <;> simp [InOp]
  | beginOp t =>
    simp only [Journal.observe]
    cases ht with
    | sleep hm hf =>
      rw [if_pos hf]
      refine h.mono fun u hu => ?_
      rcases eq_or_ne u t with rfl | hne
      · simp [InOp] at hu
      · simpa [hne] using hu
    | beginOp hm hf =>
      rw [if_neg (by simp [hf])]
      refine h.beginOp fun u hu => ?_
      rcases eq_or_ne u t with rfl | hne
      · exact .inl rfl
      · exact .inr (by simpa [hne] using hu)
  | logWrite t =>
    have hlive : InOp (s.mode t) := by
      cases ht with
      | logWrite hm => rw [hm]; trivial
    refine h.logWrite hlive (hin (by simp)) fun e he => ?_
    obtain ⟨w, -, rfl⟩ := List.mem_map.mp he
    rfl
  | run t =>
    simp only [Journal.observe]
    cases ht with
    | phase hc hm hp =>
      split
      · exact h.commit fun u hu => ho.not_inOp hm u (hin (by simp) u hu)
      · exact h.mono (hin (by simp))
  | _ => exact h.mono (hin (by simp))

/-- **Operations in every run.** -/
theorem whole_of_run {tr : List (Machine n × Act n)}
    (hr : Run (step L) (powerOn d₀) tr s) : Whole (journal tr) s.mode := by
  have h : Ops s.log s.mode ∧ Whole (journal tr) s.mode := by
    refine hr.snoc_induction (P := fun tr s => Ops s.log s.mode ∧ Whole (journal tr) s.mode) ?_ ?_
    · refine ⟨ops_powerOn, ?_⟩
      refine ⟨by simp [journal], by simp [journal], by simp [journal], by simp [journal], ?_⟩
      intro t ht
      simp only [powerOn] at ht
      split at ht <;> simp [InOp] at ht
    · intro tr s a s' _ h hs
      rw [journal_snoc]
      exact ⟨ops_of_trans h.1 (trans_of_step hs), whole_of_trans h.2 h.1 (trans_of_step hs)⟩
  exact h.2

/-! ### Crash atomicity -/

/-- **Crash atomicity.**  Take any run of the machine, with any crashes, up to the end of
a `recover_from_log`; the run starts with a disk that recovers to the home blocks `H₀`
(to its own, when its log is empty).  The home blocks are then those of `H₀` after all
`log_write`s of the committed groups, in order, and of every operation either all
`log_write`s are among these or none. -/
theorem crash_atomicity (L : Layout) {d₀ : Disk} {H₀ : ℕ → Block}
    (h₀ : Recoverable L.redo H₀ d₀) {tr : List (Machine n × Act n)} {s s' : Machine n}
    {t : Tid n} (hr : Run (step L) (powerOn d₀) tr s) (hm : s.mode t = .busy .recover .finish)
    (hs : step L s (.run t) = some s') :
    (∀ b, L.Home b → s'.disk b = (journal tr).committed H₀ b) ∧
      ∀ o, ofOp o (journal tr).done.flatten = [] ∨
        ofOp o (journal tr).done.flatten = ofOp o (journal tr).all := by
  constructor
  · intro b hb
    have hinv := inv_of_run h₀ hr
    have hdisk : s'.disk = s.disk := by
      cases trans_of_step hs with
      | phase _ hm' hp =>
        rw [hm] at hm'
        cases hm'
        cases hp with
        | read hrd => cases hrd
        | release hrel => cases hrel
        | write hw => cases hw
        | endRecover => rfl
    rw [hdisk]
    exact (hinv.stage.busy t _ _ hm).holds.1.disk b hb
  · intro o
    by_cases hex : ∃ e ∈ (journal tr).done.flatten, e.op = o
    · obtain ⟨e, he, rfl⟩ := hex
      exact .inr ((whole_of_run hr).done e he)
    · push Not at hex
      exact .inl (ofOp_eq_nil.mpr hex)

/-! ### A run with two crashes -/

/-- The log area as `mkfs` lays it out. -/
def mkfsLayout : Layout := ⟨2, by norm_num⟩

def blankDisk : Disk := fun _ _ => 0

/-- `bread`, a change, `log_write` and `brelse`. -/
def updateBlock (t : Tid 1) (b : ℕ) (i : BufId) (x : Int32) : List (Act 1) :=
  [.bread t b, .cont t, .cont t, .modify t i fun _ => x, .logCheck t i, .logWrite t, .brelse t i,
    .cont t]

/-- An iteration of `write_log` or `install_trans`. -/
def copyBlock (t : Tid 1) : List (Act 1) :=
  [.run t, .cont t, .cont t, .run t, .cont t, .cont t, .run t, .run t, .cont t, .run t, .cont t]

/-- `read_head`. -/
def readHeader (t : Tid 1) : List (Act 1) := [.run t, .cont t, .cont t, .run t, .cont t]

/-- The end of a loop and `write_head`, up to its `bwrite`. -/
def writeHeader (t : Tid 1) : List (Act 1) := [.run t, .run t, .cont t, .cont t, .run t]

/-- The `brelse` of `write_head`. -/
def releaseHeader (t : Tid 1) : List (Act 1) := [.run t, .cont t]

/-- Two processes change a block each; the machine crashes when the header has been
written, and again when `recover_from_log` has installed the first block. -/
def twoCrashes (t u : Tid 1) (i j : BufId) : List (Act 1) :=
  List.flatten
    [readHeader t, writeHeader t, releaseHeader t, [.run t],
      [.beginOp t, .beginOp u], updateBlock t 40 i 7, updateBlock u 41 j 9, [.endOp t, .endOp u],
      copyBlock u, copyBlock u, writeHeader u, [.crash],
      readHeader t, copyBlock t, [.crash],
      readHeader t, copyBlock t, copyBlock t, writeHeader t, releaseHeader t]

lemma exec_twoCrashes : ∃ s s',
    exec (step mkfsLayout) (powerOn blankDisk) (twoCrashes 0 1 1 2) = some s ∧
    s.mode 0 = .busy .recover .finish ∧ step mkfsLayout s (.run 0) = some s' ∧
    s.disk 40 0 = 7 ∧ s.disk 41 0 = 9 := by
  simp only [exists_and_left]
  decide +kernel

theorem crash_atomicity_twoCrashes : ∃ s s' : Machine 1,
    exec (step mkfsLayout) (powerOn blankDisk) (twoCrashes 0 1 1 2) = some s ∧
    step mkfsLayout s (.run 0) = some s' ∧ s.disk 40 0 = 7 ∧ s.disk 41 0 = 9 ∧
    ∀ b, mkfsLayout.Home b → s'.disk b =
      (journal (traceOf (step mkfsLayout) (powerOn blankDisk)
        (twoCrashes 0 1 1 2))).committed blankDisk b := by
  obtain ⟨s, s', hx, hm, hs, h40, h41⟩ := exec_twoCrashes
  have h₀ : Recoverable mkfsLayout.redo blankDisk blankDisk :=
    .of_listed_nil (by decide +kernel) fun _ _ => rfl
  have h := crash_atomicity mkfsLayout h₀ (run_traceOf hx) hm hs
  exact ⟨s, s', hx, hs, h40, h41, h.1⟩

end Xv6.Fs
