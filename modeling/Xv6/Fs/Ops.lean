import Xv6.Fs.Refs

/-!
The operations and the commit (`begin_op`, `end_op`).

* `InOp`: the process is between `begin_op` and `end_op`.
* `Ops`: `outstanding` counts the processes in an operation; while `committing` is
  set there are none; a process in `commit` has set it, and it is the only one
  there; while the first process runs `recover_from_log` there are no others.
* `Ops.not_inOp`: so nobody is in an operation while the log is written.
-/

namespace Xv6.Fs

open Transition Function

variable {n : ℕ} {d : Disk}

def InOp : Mode → Prop
  | .op | .checked _ => True
  | _ => False

instance : DecidablePred InOp := fun m => by
  cases m <;> simp only [InOp] <;> infer_instance

variable {u : Tid n} {w : Caller} {p : Phase}

@[simp] lemma wakeup_eq_busy {m : Tid n → Mode} :
    wakeup m u = .busy w p ↔ m u = .busy w p :=
  wakeup_eq_iff (by simp) (by simp)

variable {t : Tid n} {v : Mode}

/-- A process moves between points outside `commit` and `recover_from_log`. -/
lemma update_eq_busy {m : Tid n → Mode} (hm : ∀ w p, m t ≠ .busy w p)
    (hv : ∀ w p, v ≠ .busy w p) (u : Tid n) (w : Caller) (p : Phase) :
    update m t v u = .busy w p ↔ m u = .busy w p := by
  rcases eq_or_ne u t with rfl | hu
  · simp [hm, hv]
  · rw [update_of_ne hu]

/-- A process is in `commit` or `recover_from_log` only if it was there before. -/
lemma busy_of_update {m : Tid n → Mode} (hbusy : ∀ w p, v = .busy w p → ∃ q, m t = .busy w q)
    (hu : update m t v u = .busy w p) : ∃ q, m u = .busy w q := by
  rcases eq_or_ne u t with rfl | hne
  · rw [update_self] at hu
    exact hbusy w p hu
  · rw [update_of_ne hne] at hu
    exact ⟨p, hu⟩

@[simp] lemma inOp_wakeup {m : Tid n → Mode} : InOp (wakeup m u) ↔ InOp (m u) := by
  rw [wakeup]
  split <;> simp_all [InOp]

structure Ops (l : Log) (m : Tid n → Mode) : Prop where
  outstanding : l.outstanding = tally InOp m
  committing : l.committing = true → l.outstanding = 0
  commit : ∀ t p, m t = .busy .commit p → l.committing = true
  recover : ∀ t p, m t = .busy .recover p → ∀ u ≠ t, m u = .down
  unique : ∀ t u w w' p q, m t = .busy w p → m u = .busy w' q → t = u

lemma ops_powerOn : Ops {} (powerOn d : Machine n).mode where
  outstanding := by
    refine (tally_eq_zero.mpr fun t => ?_).symm
    simp only [powerOn]
    split <;> simp [InOp]
  committing h := rfl
  commit t p h := by
    simp only [powerOn] at h
    split at h <;> cases h
  recover t p h u hu := by
    simp only [powerOn] at h ⊢
    split at h
    · rw [if_neg (by simpa [*] using hu)]
    · cases h
  unique t u w w' p q ht hu := by
    simp only [powerOn] at ht hu
    split at ht <;> split at hu <;> simp_all

namespace Ops

variable {l : Log} {m : Tid n → Mode}

/-- Nobody is in an operation while the log is written or recovered. -/
lemma not_inOp (h : Ops l m) (hm : m t = .busy w p) (u : Tid n) : ¬InOp (m u) := by
  cases w with
  | commit =>
    have hz : tally InOp m = 0 := by
      rw [← h.outstanding]
      exact h.committing (h.commit t p hm)
    exact tally_eq_zero.mp hz u
  | recover =>
    rcases eq_or_ne u t with rfl | hu
    · simp [hm, InOp]
    · simp [h.recover t p hm u hu, InOp]

/-- Nobody writes or recovers the log while some process is in an operation. -/
lemma not_busy (h : Ops l m) (ht : InOp (m t)) (u : Tid n) (w : Caller) (p : Phase) :
    m u ≠ .busy w p :=
  fun hu => h.not_inOp hu t ht

/-- A process that does not enter `commit` or `recover_from_log` keeps the invariant
with any log that counts the operations and tells whether there is a commit. -/
lemma change (h : Ops l m) {l' : Log} (hdown : m t ≠ .down)
    (hbusy : ∀ w p, v = .busy w p → ∃ q, m t = .busy w q)
    (hout : l'.outstanding = tally InOp (update m t v))
    (hcom : l'.committing = true → l'.outstanding = 0)
    (hc : ∀ u p, update m t v u = .busy .commit p → l'.committing = true) :
    Ops l' (update m t v) where
  outstanding := hout
  committing := hcom
  commit := hc
  recover u p hu x hx := by
    obtain ⟨q, hq⟩ := busy_of_update hbusy hu
    have hxd := h.recover u q hq x hx
    have hxt : x ≠ t := by
      rintro rfl
      exact hdown hxd
    rw [update_of_ne hxt, hxd]
  unique u u' w w' p p' hu hu' := by
    obtain ⟨q, hq⟩ := busy_of_update hbusy hu
    obtain ⟨q', hq'⟩ := busy_of_update hbusy hu'
    exact h.unique u u' w w' q q' hq hq'

/-- A process moves on without entering or leaving an operation or `commit`. -/
lemma goto (h : Ops l m) (hin : InOp v ↔ InOp (m t))
    (hbusy : ∀ w p, v = .busy w p → ∃ q, m t = .busy w q) (hdown : m t ≠ .down) (lh : List ℕ) :
    Ops { l with lh := lh } (update m t v) := by
  refine h.change hdown hbusy ?_ h.committing fun u p hu => ?_
  · have htally := tally_update InOp m t v
    simp only [hin] at htally
    exact h.outstanding.trans (Nat.add_right_cancel htally).symm
  · obtain ⟨q, hq⟩ := busy_of_update hbusy hu
    exact h.commit u q hq

lemma beginOp (h : Ops l m) (hm : m t = .user ∨ m t = .retry) (hf : l.full = false) :
    Ops { l with outstanding := l.outstanding + 1 } (update m t .op) := by
  have hnc : l.committing = false := by
    simp only [Log.full, Bool.or_eq_false_iff] at hf
    exact hf.1
  have hin : ¬InOp (m t) := by rcases hm with hm | hm <;> simp [hm, InOp]
  refine h.change (by rcases hm with hm | hm <;> simp [hm]) (by simp) ?_
    (fun hc => by simp [hnc] at hc) fun u p hu => ?_
  · have htally := tally_update InOp m t .op
    rw [if_neg hin, if_pos (by trivial), ← h.outstanding] at htally
    exact htally.symm
  · obtain ⟨q, hq⟩ := busy_of_update (by simp) hu
    exact h.commit u q hq

/-- The last operation ends: its process is alone in `commit`. -/
lemma endLast (h : Ops l m) (hm : m t = .op) (ho : l.outstanding - 1 = 0) (p : Phase) :
    Ops { l with outstanding := 0, committing := true }
      (update m t (.busy .commit p)) := by
  have hin : InOp (m t) := by rw [hm]; trivial
  have hself : ∀ u w q, update m t (.busy .commit p) u = .busy w q →
      u = t ∧ w = .commit := by
    intro u w q hu
    rcases eq_or_ne u t with rfl | hne
    · rw [update_self] at hu
      cases hu
      exact ⟨rfl, rfl⟩
    · rw [update_of_ne hne] at hu
      exact absurd hu (h.not_busy hin u w q)
  refine ⟨?_, fun _ => rfl, fun _ _ _ => rfl, fun u q hu => ?_, fun u u' w w' q q' hu hu' => ?_⟩
  · have htally := tally_update InOp m t (.busy .commit p)
    have hold := h.outstanding
    rw [if_pos hin, if_neg (by simp [InOp])] at htally
    show 0 = _
    omega
  · cases (hself u .recover q hu).2
  · rw [(hself u w q hu).1, (hself u' w' q' hu').1]

lemma wakeup (h : Ops l m) : Ops l (wakeup m) where
  outstanding := h.outstanding.trans (tally_congr fun _ => inOp_wakeup).symm
  committing := h.committing
  commit t p ht := h.commit t p (wakeup_eq_busy.mp ht)
  recover t p ht u hu := by
    rw [wakeup_eq_iff (by simp) (by simp)]
    exact h.recover t p (wakeup_eq_busy.mp ht) u hu
  unique t u w w' p q ht hu := h.unique t u w w' p q (wakeup_eq_busy.mp ht) (wakeup_eq_busy.mp hu)

lemma leave (h : Ops l m) (hm : m t = .op) :
    Ops { l with outstanding := l.outstanding - 1 } (update m t .user) := by
  refine h.change (by simp [hm]) (by simp) ?_ (fun hc => ?_) fun u p hu => ?_
  · have htally := tally_update InOp m t .user
    rw [if_pos (by rw [hm]; trivial), if_neg (by simp [InOp]), ← h.outstanding] at htally
    show l.outstanding - 1 = _
    omega
  · show l.outstanding - 1 = 0
    rw [h.committing hc]
  · obtain ⟨q, hq⟩ := busy_of_update (by simp) hu
    exact h.commit u q hq

lemma endCommit (h : Ops l m) (hm : m t = .busy .commit p) :
    Ops { l with committing := false } (update m t .user) := by
  refine h.change (by simp [hm]) (by simp) ?_ (by simp) fun u q hu => ?_
  · have htally := tally_update InOp m t .user
    rw [if_neg (by simp [hm, InOp]), if_neg (by simp [InOp])] at htally
    exact h.outstanding.trans htally.symm
  · -- the process that leaves was the only one there
    have hut : u ≠ t := by
      rintro rfl
      simp at hu
    rw [update_of_ne hut] at hu
    exact absurd (h.unique u t _ _ _ _ hu hm) hut

lemma endRecover (h : Ops l m) (hm : m t = .busy .recover p) :
    Ops l fun _ : Tid n => .user := by
  have hz : tally InOp m = 0 := tally_eq_zero.mpr (h.not_inOp hm)
  have hz' : tally InOp (fun _ : Tid n => Mode.user) = 0 := tally_eq_zero.mpr (by simp [InOp])
  exact ⟨by rw [h.outstanding, hz, hz'], h.committing, by simp, by simp, by simp⟩

end Ops

variable {L : Layout} {s s' : Machine n}

lemma ops_of_phaseTo
    (h : Ops s.log s.mode) (hm : s.mode t = .busy w p) (ht : PhaseTo L s t w p s') :
    Ops s'.log s'.mode := by
  -- a move from one point of `commit` or `recover_from_log` to another
  have hgoto : ∀ q lh, Ops { s.log with lh := lh } (update s.mode t (.busy w q)) := by
    intro q lh
    refine h.goto (by simp [hm, InOp]) ?_ (by simp [hm]) lh
    rintro w' p' hv
    cases hv
    exact ⟨p, hm⟩
  cases ht with
  | read | release | write | logged => exact hgoto _ s.log.lh
  | decode | installed => exact hgoto _ _
  | endCommit => exact h.wakeup.endCommit (wakeup_eq_busy.mpr hm)
  | endRecover => exact h.endRecover hm

variable {a : Act n}

theorem ops_of_trans (h : Ops s.log s.mode) (ht : Trans L s a s') : Ops s'.log s'.mode := by
  cases ht with
  | crash => exact ops_powerOn
  | lock | cached | fill | unref | bread | modify | brelse => exact h
  | phase _ hm hp => exact ops_of_phaseTo h hm hp
  | sleep hm =>
    rcases hm with hm | hm <;>
      exact h.goto (by simp [hm, InOp]) (by simp) (by simp [hm]) s.log.lh
  | beginOp hm hf => exact h.beginOp hm hf
  | wake hm | logCheck _ hm => exact h.goto (by simp [hm, InOp]) (by simp) (by simp [hm]) s.log.lh
  | logWrite hm => exact h.goto (by simp [hm, InOp]) (by simp) (by simp [hm]) _
  | endLast _ hm _ _ ho => exact h.endLast hm ho _
  | endOp _ hm => exact h.wakeup.leave ((wakeup_eq_iff (by simp) (by simp)).mpr hm)

variable (h : Ops s.log s.mode) (ht : Trans L s a s') (ha : a.actor = some t) (hu : u ≠ t)

include h ht ha hu

/-- A step of `t` moves no other process into, out of or inside `commit` and
`recover_from_log`. -/
lemma busy_of_ne (w : Caller) (p : Phase) : s'.mode u = .busy w p ↔ s.mode u = .busy w p := by
  cases ht with
  | crash => cases ha
  | lock | cached | fill | unref | bread | modify | brelse => rfl
  | phase hc hm hp =>
    cases ha
    cases hp with
    | endCommit => simp only [update_of_ne hu, wakeup_eq_busy]
    | endRecover => simp [h.recover t _ hm u hu]
    | _ => simp only [update_of_ne hu]
  | endOp => cases ha; simp only [update_of_ne hu, wakeup_eq_busy]
  | _ => cases ha; simp only [update_of_ne hu]

/-- Nor into or out of an operation. -/
lemma inOp_of_ne : InOp (s'.mode u) ↔ InOp (s.mode u) := by
  cases ht with
  | crash => cases ha
  | lock | cached | fill | unref | bread | modify | brelse => rfl
  | phase hc hm hp =>
    cases ha
    cases hp with
    | endCommit => simp only [update_of_ne hu, inOp_wakeup]
    | endRecover => simp [h.recover t _ hm u hu, InOp]
    | _ => simp only [update_of_ne hu]
  | endOp => cases ha; simp only [update_of_ne hu, inOp_wakeup]
  | _ => cases ha; simp only [update_of_ne hu]

/-- Nor does it change the header while another process is there. -/
lemma lh_of_ne (hm : s.mode u = .busy w p) : s'.log.lh = s.log.lh := by
  cases ht with
  | crash => cases ha
  | phase _ hmt hp =>
    cases ha
    exact absurd (h.unique u t _ _ _ _ hm hmt) hu
  | @logWrite t' i b hmt =>
    have hin : InOp (s.mode t') := by rw [hmt]; trivial
    exact absurd hm (h.not_busy hin u w p)
  | _ => rfl

end Xv6.Fs
