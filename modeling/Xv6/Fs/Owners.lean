import Xv6.Fs.Ops

/-!
Who holds which buffers.

Outside `commit` and `recover_from_log` a process reads home blocks only, so that
the buffers of the log area are used by one process at a time, the one that
writes or recovers the log, and that process uses the buffers of the point it is
at.

* `Phase.bufs`: the buffers a point of `commit` or `recover_from_log` names.
* `Uses`: the blocks these buffers are for, up to the `bwrite`.
* `Owners`: a process refers to buffers of home blocks, and to those its point
  names; these are for the blocks they should be for.
-/

namespace Xv6.Fs

open Transition

variable {n : ℕ} {L : Layout}

def Phase.bufs : Phase → List BufId
  | .gotHead h | .fillHead _ h | .wroteHead _ h => [h]
  | .loopLog _ _ l => [l]
  | .loopBoth _ _ l d | .loopCopied _ _ l d => [l, d]
  | .loopLast _ _ i => [i]
  | _ => []

/-- At the point, the buffer is for the block. -/
inductive Uses (L : Layout) (lh : List ℕ) : Phase → BufId → ℕ → Prop where
  | gotHead {h : BufId} : Uses L lh (.gotHead h) h L.logstart
  | loopLog {k : Loop} {tail : ℕ} {l : BufId} : Uses L lh (.loopLog k tail l) l (L.slot tail)
  | bothLog {k : Loop} {tail : ℕ} {l d : BufId} :
      Uses L lh (.loopBoth k tail l d) l (L.slot tail)
  | bothHome {k : Loop} {tail b : ℕ} {l d : BufId} : lh[tail]? = some b →
      Uses L lh (.loopBoth k tail l d) d b
  | fillHead {first : Bool} {h : BufId} : Uses L lh (.fillHead first h) h L.logstart

/-- The buffer is for a home block. -/
def ForHome (L : Layout) (c : Cache n) (i : BufId) : Prop :=
  ∃ b, (c.buf i).blockno = some b ∧ L.Home b

structure Owners (L : Layout) (s : Machine n) : Prop where
  hold : ∀ t i, Ref s.cache s.call t i →
    ForHome L s.cache i ∨ ∃ w p, s.mode t = .busy w p ∧ i ∈ p.bufs
  uses : ∀ t w p i b, s.mode t = .busy w p → Uses L s.log.lh p i b →
    (s.cache.buf i).blockno = some b ∧ Ref s.cache s.call t i

/-! ### The points -/

variable {lh : List ℕ} {p : Phase} {b : ℕ} {i j : BufId}

/-- A `bread` adds the buffer it returns to those of its point. -/
lemma Reads.uses {q : BufId → Phase} {b' : ℕ}
    (h : Reads L lh p b q) (hu : Uses L lh (q i) j b') : (j = i ∧ b' = b) ∨ Uses L lh p j b' := by
  cases h with
  | readHead | slot | writeHead => cases hu; exact .inl ⟨rfl, rfl⟩
  | home hb =>
    cases hu with
    | bothLog => exact .inr .loopLog
    | bothHome hb' => exact .inl ⟨rfl, Option.some.inj (hb'.symm.trans hb)⟩

lemma Reads.mem_bufs {q : BufId → Phase}
    (h : Reads L lh p b q) (hj : j = i ∨ j ∈ p.bufs) : j ∈ (q i).bufs := by
  cases h <;> simp_all [Phase.bufs]
  tauto

variable {q : Phase}

/-- A `brelse` takes the buffer away. -/
lemma Releases.mem_bufs (h : Releases p i q) (hj : j ∈ p.bufs) (hne : j ≠ i) : j ∈ q.bufs := by
  cases h with
  | @copied k => cases k <;> simp_all [Phase.bufs, Loop.source, Loop.target]
  | last | committed | erased => simp_all [Phase.bufs]

lemma Releases.not_uses (h : Releases p i q) :
    ¬Uses L lh q j b := by
  intro hu
  cases h <;> cases hu

variable {s : Machine n}

lemma Writes.mem_bufs {x : Block} (h : Writes s p i x q) (hj : j ∈ p.bufs) : j ∈ q.bufs := by
  cases h <;> exact hj

lemma Writes.not_uses {x : Block} (h : Writes s p i x q) : ¬Uses L lh q j b := by
  intro hu
  cases h <;> cases hu

/-! ### The steps -/

variable {s' : Machine n} {a : Act n} {t : Tid n}

/-- A step of `t` concerns the buffers of `t` only. -/
lemma Owners.of_actor (h : Owners L s)
    (hc : CacheOk s) (ho : Ops s.log s.mode) (ht : Trans L s a s') (ha : a.actor = some t)
    (hhold : ∀ i, Ref s'.cache s'.call t i →
      ForHome L s'.cache i ∨ ∃ w p, s'.mode t = .busy w p ∧ i ∈ p.bufs)
    (huses : ∀ w p i b, s'.mode t = .busy w p → Uses L s'.log.lh p i b →
      (s'.cache.buf i).blockno = some b ∧ Ref s'.cache s'.call t i) : Owners L s' := by
  have hs := cacheStep_of_trans hc ht ha
  constructor
  · intro u i hr
    rcases eq_or_ne u t with rfl | hu
    · exact hhold i hr
    · rw [hs.ref_of_ne hu] at hr
      have hb := hs.blockno_of_ref hc.refs hr
      rcases h.hold u i hr with ⟨b, hib, hhome⟩ | ⟨w, p, hm, hi⟩
      · exact .inl ⟨b, hb.trans hib, hhome⟩
      · exact .inr ⟨w, p, (busy_of_ne ho ht ha hu w p).mpr hm, hi⟩
  · intro u w p i b hm hu
    rcases eq_or_ne u t with rfl | hne
    · exact huses w p i b hm hu
    · rw [busy_of_ne ho ht ha hne] at hm
      rw [lh_of_ne ho ht ha hne hm] at hu
      obtain ⟨hb, hr⟩ := h.uses u w p i b hm hu
      exact ⟨(hs.blockno_of_ref hc.refs hr).trans hb, (hs.ref_of_ne hne i).mpr hr⟩

/-- A process outside `commit` and `recover_from_log` holds home blocks only. -/
lemma Owners.forHome (h : Owners L s)
    (hm : ∀ w p, s.mode t ≠ .busy w p) (hr : Ref s.cache s.call t i) : ForHome L s.cache i := by
  rcases h.hold t i hr with hh | ⟨w, p, hb, -⟩
  · exact hh
  · exact absurd hb (hm w p)

/-- A buffer that a process refers to stays one for a home block. -/
lemma CacheStep.forHome {u : Tid n} {c c' : Cache n} {f f' : Tid n → Call}
    (hs : CacheStep t c f c' f') (hc : Refs c f) (hr : Ref c f u i) (hh : ForHome L c i) :
    ForHome L c' i := by
  obtain ⟨b, hb, hhome⟩ := hh
  exact ⟨b, (hs.blockno_of_ref hc hr).trans hb, hhome⟩

/-- The buffer that `bget` returns is for the block. -/
lemma BgetTo.blockno {c c' : Cache n} (h : BgetTo c b i c') :
    (c'.buf i).blockno = some b := by
  cases h with
  | hit hb => simpa using hb
  | miss => simp

lemma hold_of_phaseTo {w : Caller} (h : Owners L s)
    (hc : CacheOk s) (hct : s.call t = .none) (hm : s.mode t = .busy w p)
    (hp : PhaseTo L s t w p s') (hr : Ref s'.cache s'.call t i) :
    ForHome L s'.cache i ∨ ∃ w q, s'.mode t = .busy w q ∧ i ∈ q.bufs := by
  have hs := cacheStep_of_phaseTo hct hp
  -- a buffer it had before is for a home block or one of its last point
  have hold : Ref s.cache s.call t i → ForHome L s'.cache i ∨ i ∈ p.bufs := by
    intro hr
    rcases h.hold t i hr with hh | ⟨w', p', hm', hi⟩
    · exact .inl (hs.forHome hc.refs hr hh)
    · rw [hm] at hm'
      cases hm'
      exact .inr hi
  cases hp with
  | @read _ _ q b c j hrd hb =>
    rcases hs.ref_self hr with hr | ⟨-, hj⟩
    · exact (hold hr).imp_right fun hi => ⟨w, q j, by simp, hrd.mem_bufs (.inr hi)⟩
    · have hij : i = j := by simpa using hj.symm
      exact .inr ⟨w, q j, by simp, hrd.mem_bufs (.inl hij)⟩
  | @release _ _ q j hrel hl =>
    have hne : i ≠ j := by
      rintro rfl
      simp [Ref] at hr
    have hold' := hold ((hs.ref_self hr).resolve_right (by simp))
    exact hold'.imp_right fun hi => ⟨w, q, by simp, hrel.mem_bufs hi hne⟩
  | @write _ _ q j x b hw hl =>
    have hold' := hold ((hs.ref_self hr).resolve_right (by simp [hct]))
    exact hold'.imp_right fun hi => ⟨w, q, by simp, hw.mem_bufs hi⟩
  | @decode _ j hl =>
    have hne : i ≠ j := by
      rintro rfl
      simp [Ref] at hr
    have hold' := hold ((hs.ref_self hr).resolve_right (by simp))
    exact .inl (hold'.resolve_right (by simpa [Phase.bufs] using hne))
  | logged | installed | endCommit | endRecover =>
    exact .inl ((hold hr).resolve_right (by simp [Phase.bufs]))

lemma hold_of_trans (h : Owners L s) (hc : CacheOk s)
    (ht : Trans L s a s') (ha : a.actor = some t) (hr : Ref s'.cache s'.call t i) :
    ForHome L s'.cache i ∨ ∃ w p, s'.mode t = .busy w p ∧ i ∈ p.bufs := by
  have hs := cacheStep_of_trans hc ht ha
  have hold : Ref s.cache s.call t i →
      ForHome L s'.cache i ∨ ∃ w p, s.mode t = .busy w p ∧ i ∈ p.bufs :=
    fun hr => (h.hold t i hr).imp_left (hs.forHome hc.refs hr)
  -- outside `commit` and `recover_from_log` what it referred to is for a home block
  have hfree : (∀ w p, s.mode t ≠ .busy w p) → ¬(s.call t = .none ∧ s'.call t = .locking i) →
      ForHome L s'.cache i := by
    intro hm hcall
    have hr' := (hs.ref_self hr).resolve_right hcall
    exact hs.forHome hc.refs hr' (h.forHome hm hr')
  cases ht with
  | crash => cases ha
  | lock | cached | fill | unref =>
    cases ha
    exact hold ((hs.ref_self hr).resolve_right (by simp))
  | phase hct hm hp => cases ha; exact hold_of_phaseTo h hc hct hm hp hr
  | @bread _ b c j hct hm hb hg =>
    cases ha
    rcases hs.ref_self hr with hr | ⟨-, hj⟩
    · exact hold hr
    · obtain rfl : j = i := by simpa using hj
      exact .inl ⟨b, hg.blockno, hb⟩
  | sleep hm | beginOp hm =>
    cases ha
    exact .inl (hfree (by rcases hm with hm | hm <;> simp [hm]) (by simp +contextual))
  | brelse _ hm =>
    cases ha
    exact .inl (hfree (by rcases hm with hm | hm <;> simp [hm]) (by simp))
  | wake hm | logWrite hm => cases ha; exact .inl (hfree (by simp [hm]) (by simp +contextual))
  | modify _ hm | logCheck _ hm | endLast _ hm | endOp _ hm =>
    cases ha
    exact .inl (hfree (by simp [hm]) (by simp +contextual))

lemma uses_of_trans (h : Owners L s) (hc : CacheOk s)
    (ht : Trans L s a s') (ha : a.actor = some t) {w : Caller}
    (hm : s'.mode t = .busy w p) (hu : Uses L s'.log.lh p i b) :
    (s'.cache.buf i).blockno = some b ∧ Ref s'.cache s'.call t i := by
  have hs := cacheStep_of_trans hc ht ha
  -- what its last point used it still refers to, for the same block
  have hold : ∀ w p, s.mode t = .busy w p → Uses L s.log.lh p i b →
      s'.call t ≠ .releasing i → (s'.cache.buf i).blockno = some b ∧ Ref s'.cache s'.call t i := by
    intro w p hm hu hne
    obtain ⟨hb, hr⟩ := h.uses t w p i b hm hu
    exact ⟨(hs.blockno_of_ref hc.refs hr).trans hb, hs.ref_keep hr hne⟩
  cases ht with
  | crash => cases ha
  | lock | cached | fill | unref => cases ha; exact hold w p hm hu (by simp)
  | phase hct hmt hp =>
    cases ha
    cases hp with
    | @read _ _ q _ _ j hrd hg =>
      obtain ⟨rfl, rfl⟩ : _ = w ∧ q j = p := by simpa using hm
      rcases hrd.uses hu with ⟨rfl, rfl⟩ | hu
      · exact ⟨hg.blockno, .inr (by simp)⟩
      · exact hold _ _ hmt hu (by simp)
    | release hrel =>
      obtain ⟨rfl, rfl⟩ : _ = w ∧ _ = p := by simpa using hm
      exact absurd hu hrel.not_uses
    | write hw =>
      obtain ⟨rfl, rfl⟩ : _ = w ∧ _ = p := by simpa using hm
      exact absurd hu hw.not_uses
    | decode | logged | installed =>
      obtain ⟨rfl, rfl⟩ : _ = w ∧ _ = p := by simpa using hm
      cases hu
    | endCommit | endRecover => simp at hm
  | bread _ hmt | brelse _ hmt =>
    cases ha
    rcases hmt with hmt | hmt <;> simp [hmt] at hm
  | modify _ hmt =>
    cases ha
    simp [hmt] at hm
  | endLast =>
    cases ha
    obtain ⟨rfl, rfl⟩ : _ = w ∧ _ = p := by simpa using hm
    rw [commitStart] at hu
    split at hu <;> cases hu
  | sleep | beginOp | wake | logCheck | logWrite | endOp => cases ha; simp at hm

lemma owners_powerOn (d : Disk) : Owners L (powerOn d : Machine n) where
  hold t i hr := by simp [Ref, powerOn, binit] at hr
  uses t w p i b hm hu := by
    simp only [powerOn] at hm
    split at hm <;> cases hm
    cases hu

theorem owners_of_trans (h : Owners L s) (hc : CacheOk s)
    (ho : Ops s.log s.mode) (ht : Trans L s a s') : Owners L s' := by
  cases ha : a.actor with
  | none =>
    cases ht <;> cases ha
    exact owners_powerOn s.disk
  | some t =>
    exact h.of_actor hc ho ht ha (fun i hr => hold_of_trans h hc ht ha hr)
      fun w p i b hm hu => uses_of_trans h hc ht ha hm hu

/-- The cache, the operations and the buffers of each process are in order. -/
structure Sound (L : Layout) (s : Machine n) : Prop where
  cache : CacheOk s
  ops : Ops s.log s.mode
  owners : Owners L s

lemma sound_powerOn (d : Disk) : Sound L (powerOn d : Machine n) :=
  ⟨cacheOk_powerOn d, ops_powerOn, owners_powerOn d⟩

theorem sound_of_trans (h : Sound L s) (ht : Trans L s a s') :
    Sound L s' :=
  ⟨cacheOk_of_trans h.cache ht, ops_of_trans h.ops ht, owners_of_trans h.owners h.cache h.ops ht⟩

end Xv6.Fs
