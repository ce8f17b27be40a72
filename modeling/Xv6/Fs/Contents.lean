import Xv6.Fs.Owners

/-!
The contents of the buffers.

`log_write` pins a changed buffer in the cache with `B_DIRTY`; until the commit the
disk does not have the change.  The contents of the home blocks as the log knows
them are a function `V`, which changes with `log_write` only.

* `logged`: what a step passes to `log_write`.
* `Copies`: a dirty buffer holds what was logged for its block, and a valid buffer
  of the log area what is on the disk.
* `Contents L V s`: moreover only the holder of a buffer inside an operation has
  changes in it that are not logged.
* `contents_of_trans`: every step keeps it, with `V` changed by what it logs.
* `Pinned`: the block is in a dirty buffer; `length_lt_of_pinned` is the reason why
  the log fits into its area.
-/

namespace Xv6.Fs

open Transition RedoLog Function

variable {n : ℕ} {L : Layout} {V : ℕ → Block}

/-- The block and the data that a step passes to `log_write`. -/
def logged (s : Machine n) : Act n → List (ℕ × Block)
  | .logWrite t =>
    match s.mode t with
    | .checked i =>
      match (s.cache.buf i).blockno with
      | some b => [(b, (s.cache.buf i).data)]
      | none => []
    | _ => []
  | _ => []

/-- A dirty buffer without unlogged changes holds what was logged for its block,
and a valid buffer of the log area what is on the disk. -/
structure Copies (L : Layout) (V : ℕ → Block) (c : Cache n) (u : BufId → Bool) (d : Disk) :
    Prop where
  logged : ∀ i b, (c.buf i).dirty = true → u i = false → (c.buf i).blockno = some b →
    (c.buf i).data = V b
  mirror : ∀ i b, (c.buf i).blockno = some b → L.InLog b → (c.buf i).valid = true →
    (c.buf i).data = d b

structure Contents (L : Layout) (V : ℕ → Block) (s : Machine n) : Prop where
  unlogged : ∀ i, s.unlogged i = true → ∃ t, (s.cache.buf i).lock = some t ∧ InOp (s.mode t)
  copies : Copies L V s.cache s.unlogged s.disk

variable {i : BufId}

namespace Copies

variable {c c' : Cache n} {u : BufId → Bool} {d : Disk}

variable (h : Copies L V c u d)

include h

/-- One buffer changes, with the logged contents and the disk changed for its block
only. -/
lemma of_update {x : Buf n} {V' : ℕ → Block} {u' : BufId → Bool} {d' : Disk}
    (hbuf : c'.buf = update c.buf i x) (hu : ∀ j ≠ i, u' j = u j)
    (hother : ∀ j ≠ i, ∀ b, (c.buf j).blockno = some b → V' b = V b ∧ d' b = d b)
    (hlog : ∀ b, x.dirty = true → u' i = false → x.blockno = some b → x.data = V' b)
    (hmir : ∀ b, x.blockno = some b → L.InLog b → x.valid = true → x.data = d' b) :
    Copies L V' c' u' d' where
  logged j b hd hl hb := by
    rw [hbuf] at hd hb ⊢
    rcases eq_or_ne j i with rfl | hj
    · rw [update_self] at hd hb ⊢
      exact hlog b hd hl hb
    · rw [update_of_ne hj] at hd hb ⊢
      rw [hu j hj] at hl
      rw [(hother j hj b hb).1]
      exact h.logged j b hd hl hb
  mirror j b hb hin hv := by
    rw [hbuf] at hb hv ⊢
    rcases eq_or_ne j i with rfl | hj
    · rw [update_self] at hb hv ⊢
      exact hmir b hb hin hv
    · rw [update_of_ne hj] at hb hv ⊢
      rw [(hother j hj b hb).2]
      exact h.mirror j b hb hin hv

/-- One buffer changes and nothing else. -/
lemma of_setBuf {x : Buf n} (hbuf : c'.buf = update c.buf i x)
    (hlog : ∀ b, x.dirty = true → u i = false → x.blockno = some b → x.data = V b)
    (hmir : ∀ b, x.blockno = some b → L.InLog b → x.valid = true → x.data = d b) :
    Copies L V c' u d :=
  h.of_update hbuf (fun _ _ => rfl) (fun _ _ _ _ => ⟨rfl, rfl⟩) hlog hmir

lemma bget {b : ℕ} (hb : BgetTo c b i c') : Copies L V c' u d := by
  cases hb with
  | hit => exact h.of_setBuf rfl (h.logged i) (h.mirror i)
  | miss => exact h.of_setBuf rfl (by simp) (by simp)

lemma lock (i : BufId) (l : Option (Tid n)) :
    Copies L V (c.setBuf i { c.buf i with lock := l }) u d :=
  h.of_setBuf rfl (h.logged i) (h.mirror i)

lemma unref (i : BufId) : Copies L V (c.unref i) u d :=
  h.of_setBuf (Cache.unref_buf c i) (h.logged i) (h.mirror i)

/-- A read fills the buffer with what is on the disk. -/
lemma fill {x : ℕ} (hd : (c.buf i).dirty = false) (hx : (c.buf i).blockno = some x) :
    Copies L V (c.setBuf i { c.buf i with data := d x, valid := true }) u d := by
  refine h.of_setBuf rfl (by simp [hd]) fun b hb _ _ => ?_
  obtain rfl : x = b := Option.some.inj (hx.symm.trans hb)
  rfl

/-- A change to the buffer of a home block is noted as unlogged. -/
lemma modify (hi : ForHome L c i) (x : Block) :
    Copies L V (c.setBuf i { c.buf i with data := x }) (update u i true) d := by
  obtain ⟨b, hb, -, hnot⟩ := hi
  refine h.of_update rfl (fun j hj => update_of_ne hj ..) (fun _ _ _ _ => ⟨rfl, rfl⟩)
    (by simp) fun b' hb' hin _ => ?_
  obtain rfl : b = b' := Option.some.inj (hb.symm.trans hb')
  exact absurd hin hnot

/-- `log_write` makes the buffer's data the logged contents of its block, which no
other buffer has. -/
lemma logWrite {b : ℕ} (huniq : ∀ j, (c.buf j).blockno = some b → j = i)
    (hb : (c.buf i).blockno = some b) :
    Copies L (update V b (c.buf i).data) (c.setBuf i { c.buf i with dirty := true })
      (update u i false) d := by
  refine h.of_update rfl (fun j hj => update_of_ne hj ..) (fun j hj x hx => ?_)
    (fun x _ _ hx => ?_) (h.mirror i)
  · have hne : x ≠ b := by
      rintro rfl
      exact hj (huniq j hx)
    exact ⟨update_of_ne hne .., rfl⟩
  · obtain rfl : b = x := Option.some.inj (hb.symm.trans hx)
    rw [update_self]

/-- `bwrite` makes the disk agree with the buffer. -/
lemma write {b : ℕ} (huniq : ∀ j, (c.buf j).blockno = some b → j = i)
    (hb : (c.buf i).blockno = some b) (x : Block) :
    Copies L V (c.setBuf i { c.buf i with data := x, valid := true, dirty := false }) u
      (update d b x) := by
  refine h.of_update rfl (fun _ _ => rfl) (fun j hj y hy => ?_) (by simp) fun y hy _ _ => ?_
  · have hne : y ≠ b := by
      rintro rfl
      exact hj (huniq j hy)
    exact ⟨rfl, update_of_ne hne ..⟩
  · obtain rfl : b = y := Option.some.inj (hb.symm.trans hy)
    rw [update_self]

end Copies

variable {s s' : Machine n} {a : Act n} {t : Tid n}

/-- The unlogged changes of a process stay its own. -/
lemma unlogged_of_trans (h : Contents L V s) (hs : Sound L s) (ht : Trans L s a s')
    (ha : a.actor = some t) (hu : s'.unlogged i = true) :
    ∃ u, (s'.cache.buf i).lock = some u ∧ InOp (s'.mode u) := by
  have hstep := cacheStep_of_trans hs.cache ht ha
  -- another process keeps the lock and stays in its operation
  have hold : s.unlogged i = true → (InOp (s.mode t) → (s.cache.buf i).lock = some t →
      s'.call t ≠ .releasing i ∧ InOp (s'.mode t)) →
      ∃ u, (s'.cache.buf i).lock = some u ∧ InOp (s'.mode u) := by
    intro hu hself
    obtain ⟨u, hl, hin⟩ := h.unlogged i hu
    rcases eq_or_ne u t with rfl | hne
    · obtain ⟨hcall, hin'⟩ := hself hin hl
      exact ⟨u, hstep.lock_keep hl fun _ => hcall, hin'⟩
    · exact ⟨u, hstep.lock_keep hl (absurd · hne), (inOp_of_ne hs.ops ht ha hne).mpr hin⟩
  cases ht with
  | crash => cases ha
  | lock | cached | fill | unref | bread =>
    cases ha
    exact hold hu fun hin _ => ⟨by simp, hin⟩
  | phase _ hm hp =>
    cases ha
    have hsame : s'.unlogged = s.unlogged := by cases hp <;> rfl
    rw [hsame] at hu
    exact hold hu fun hin _ => absurd hin (hs.ops.not_inOp hm t)
  | sleep hm | beginOp hm =>
    cases ha
    exact hold hu fun hin _ => by rcases hm with hm | hm <;> simp [hm, InOp] at hin
  | wake hm =>
    cases ha
    exact hold hu fun hin _ => by simp [hm, InOp] at hin
  | @modify _ j d _ hm hl =>
    cases ha
    rcases eq_or_ne i j with rfl | hne
    · exact ⟨t, by simpa using hl, by simp [hm, InOp]⟩
    · exact hold (by simpa [hne] using hu) fun hin _ => ⟨by simp [*], hin⟩
  | logCheck hc =>
    cases ha
    exact hold hu fun hin _ => ⟨by simp [hc], by simp [InOp]⟩
  | @logWrite _ j b hm =>
    cases ha
    rcases eq_or_ne i j with rfl | hne
    · simp at hu
    · have hc := (hs.cache.checked t j hm).2
      exact hold (by simpa [hne] using hu) fun _ _ => ⟨by simp [hc], by simp [InOp]⟩
  | @brelse _ j _ _ hj =>
    cases ha
    have hne : j ≠ i := by
      rintro rfl
      simp [hj] at hu
    exact hold hu fun hin _ => ⟨by simpa using hne, hin⟩
  | endLast _ _ hclean | endOp _ _ hclean =>
    cases ha
    exact hold hu fun _ hl => absurd hu (by simp [hclean i hl])

/-- After a crash no buffer is valid. -/
lemma contents_powerOn (d : Disk) : Contents L V (powerOn d : Machine n) where
  unlogged i h := by simp [powerOn] at h
  copies := ⟨by simp [powerOn, binit], by simp [powerOn, binit]⟩

lemma copies_of_phaseTo {w : Caller} {p : Phase}
    (h : Copies L V s.cache s.unlogged s.disk) (hc : CacheOk s) (hp : PhaseTo L s t w p s') :
    Copies L V s'.cache s'.unlogged s'.disk := by
  cases hp with
  | read _ hb => exact h.bget hb
  | release | decode => exact h.lock _ none
  | @write _ _ _ i x b _ _ _ hb => exact h.write (fun j hj => hc.refs.uniq j i b hj hb) hb x
  | logged | installed | endCommit | endRecover => exact h

theorem copies_of_trans (h : Copies L V s.cache s.unlogged s.disk)
    (hs : Sound L s) (ht : Trans L s a s') :
    Copies L (replay (logged s a) V) s'.cache s'.unlogged s'.disk := by
  cases ht with
  | crash => exact (contents_powerOn s.disk).copies
  | lock => exact h.lock _ _
  | fill hc hv hd =>
    obtain ⟨hclean, rfl, x, hx, rfl⟩ := hs.cache.fill hv hd
    exact h.fill hclean hx
  | unref => exact h.unref _
  | phase _ _ hp => exact copies_of_phaseTo h hs.cache hp
  | bread _ _ _ hb => exact h.bget hb
  | @modify t i x hc hm hl =>
    exact h.modify (hs.owners.forHome (by simp [hm]) (.inl hl)) x
  | @logWrite t i b hm hb =>
    have heq : replay (logged s (.logWrite t)) V
        = update V b (s.cache.buf i).data := by
      simp only [logged, hm, hb]
      rfl
    rw [heq]
    exact h.logWrite (fun j hj => hs.cache.refs.uniq j i b hj hb) hb
  | brelse => exact h.lock _ none
  | cached | sleep | beginOp | wake | logCheck | endLast | endOp => exact h

/-- **The contents of the buffers**: every step keeps the invariant, with the
contents changed by what the step logs. -/
theorem contents_of_trans (h : Contents L V s) (hs : Sound L s)
    (ht : Trans L s a s') : Contents L (replay (logged s a) V) s' := by
  refine ⟨fun i hu => ?_, copies_of_trans h.copies hs ht⟩
  cases ha : a.actor with
  | none =>
    cases ht <;> cases ha
    simp [powerOn] at hu
  | some t => exact unlogged_of_trans h hs ht ha hu

/-! ### Pinned blocks -/

/-- The block is in a dirty buffer. -/
def Pinned (c : Cache n) (b : ℕ) : Prop := ∃ i, (c.buf i).blockno = some b ∧ (c.buf i).dirty = true

namespace Pinned

variable {c c' : Cache n} {b : ℕ}

/-- A step that leaves the dirty buffers dirty and for the same blocks keeps the
pinned blocks. -/
lemma mono (hp : Pinned c b) (h : ∀ i, (c.buf i).blockno = some b → (c.buf i).dirty = true →
      (c'.buf i).blockno = some b ∧ (c'.buf i).dirty = true) : Pinned c' b := by
  obtain ⟨i, hb, hd⟩ := hp
  exact ⟨i, h i hb hd⟩

lemma setBuf (hp : Pinned c b) {x : Buf n} (hb : x.blockno = (c.buf i).blockno)
    (hd : (c.buf i).blockno = some b → (c.buf i).dirty = true → x.dirty = true) :
    Pinned (c.setBuf i x) b := by
  refine hp.mono fun j hjb hjd => ?_
  rcases eq_or_ne j i with rfl | hne
  · rw [Cache.setBuf_self]
    exact ⟨hb.trans hjb, hd hjb hjd⟩
  · rw [Cache.setBuf_of_ne hne]
    exact ⟨hjb, hjd⟩

/-- `bget` recycles no dirty buffer. -/
lemma bget (hp : Pinned c b) {x : ℕ} (hb : BgetTo c x i c') : Pinned c' b := by
  cases hb with
  | hit _ => exact hp.setBuf rfl fun _ hd => hd
  | miss _ _ hclean =>
    refine hp.mono fun j hjb hjd => ?_
    have hne : j ≠ i := by
      rintro rfl
      simp [hclean] at hjd
    rw [Cache.setBuf_of_ne hne]
    exact ⟨hjb, hjd⟩

lemma unref (hp : Pinned c b) (i : BufId) : Pinned (c.unref i) b := by
  refine hp.mono fun j hjb hjd => ?_
  rw [Cache.unref_buf, update_apply]
  split
  · subst j
    exact ⟨hjb, hjd⟩
  · exact ⟨hjb, hjd⟩

end Pinned

/-- Outside `commit` and `recover_from_log` nothing is written to the disk, and the
pinned blocks stay. -/
lemma pinned_of_trans (hs : Sound L s) (ht : Trans L s a s')
    (ha : a.actor ≠ none) (hrun : ∀ t, a ≠ .run t) :
    s'.disk = s.disk ∧ ∀ b, Pinned s.cache b → Pinned s'.cache b := by
  cases ht with
  | crash => exact absurd rfl ha
  | phase => exact absurd rfl (hrun _)
  | fill hc hv hd =>
    obtain ⟨hclean, rfl, x, hx, rfl⟩ := hs.cache.fill hv hd
    exact ⟨rfl, fun b hp => hp.setBuf rfl fun _ hd => by simp [hclean] at hd⟩
  | unref => exact ⟨rfl, fun b hp => hp.unref _⟩
  | bread _ _ _ hb => exact ⟨rfl, fun b hp => hp.bget hb⟩
  | lock | modify | brelse => exact ⟨rfl, fun b hp => hp.setBuf rfl fun _ hd => hd⟩
  | logWrite => exact ⟨rfl, fun b hp => hp.setBuf rfl fun _ _ => rfl⟩
  | cached | sleep | beginOp | wake | logCheck | endLast | endOp => exact ⟨rfl, fun b hp => hp⟩

/-- While the log is written, the buffer of a pinned block holds what was logged. -/
lemma Contents.data_of_pinned (h : Contents L V s) (hs : Sound L s) {w : Caller} {p : Phase}
    (hm : s.mode t = .busy w p) {b : ℕ} (hp : Pinned s.cache b)
    (hb : (s.cache.buf i).blockno = some b) : (s.cache.buf i).data = V b := by
  obtain ⟨j, hj, hd⟩ := hp
  obtain rfl : i = j := hs.cache.refs.uniq i j b hb hj
  have hlogged : s.unlogged i = false := by
    by_contra hu
    obtain ⟨u, -, hin⟩ := h.unlogged i (by simpa using hu)
    exact hs.ops.not_inOp hm u hin
  exact h.copies.logged i b hd hlogged hb

/-- The pinned home blocks and the buffer of a log block are in different buffers,
so the log never has more blocks than fit. -/
lemma length_lt_of_pinned {c : Cache n} {lh : List ℕ} (hnodup : lh.Nodup)
    (hpin : ∀ b ∈ lh, Pinned c b) {x : ℕ} (hi : (c.buf i).blockno = some x) (hx : x ∉ lh) :
    lh.length < LOGSIZE := by
  choose! f hf using hpin
  have hmaps : ∀ b ∈ lh.toFinset, f b ∈ Finset.univ.erase i := by
    intro b hb
    rw [List.mem_toFinset] at hb
    refine Finset.mem_erase.mpr ⟨?_, Finset.mem_univ _⟩
    intro he
    have hbx : some b = some x := by rw [← (hf b hb).1, he, hi]
    exact hx (Option.some.inj hbx ▸ hb)
  have hinj : Set.InjOn f lh.toFinset := by
    intro b hb b' hb' he
    simp only [Finset.mem_coe, List.mem_toFinset] at hb hb'
    have hbb : some b = some b' := by rw [← (hf b hb).1, he, (hf b' hb').1]
    exact Option.some.inj hbb
  have hcard := Finset.card_le_card_of_injOn f hmaps hinj
  rw [List.toFinset_card_of_nodup hnodup, Finset.card_erase_of_mem (Finset.mem_univ i),
    Finset.card_fin] at hcard
  calc lh.length ≤ NBUF - 1 := hcard
    _ < LOGSIZE := by decide

end Xv6.Fs
