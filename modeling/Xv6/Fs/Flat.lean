import Xv6.Fs.Journal

/-!
The buffer cache as a flat disk (`bread`, `bwrite`, `log_write`, `brelse`).

This is the layer of `bio.c` by itself, for callers of any kind: any process reads any
block, changes a buffer it holds, and passes it to `log_write` or `bwrite` before it
releases it.  The loops of `commit` are such callers: `write_log` and `install_trans` copy
from one buffer they hold to another one and write that.

* `Bio n`, `BioAct n`, `bioStep`: the state of the layer, the actions and the step
  function.  `unsaved` marks the buffers changed since they were last passed to `log_write`
  or `bwrite`; no code reads it.
* `BioTrans`, `bioTrans_of_step`: all that a step can do.
* `flat`: what was last written to a block, by anyone.
* `FlatOk`: a valid buffer holds that, and so does the disk when no buffer has changes
  that the disk does not have.
* `bread_flat`: `bread` returns it.
* `bio_of_run`: the machine with the log, as long as it does not crash, uses the layer in
  this way.
-/

namespace Xv6.Fs

open Transition Function

variable {n : ℕ}

/-! ### The layer -/

/-- The disk, the cache and the calls under way. -/
structure Bio (n : ℕ) where
  disk : Disk
  cache : Cache n
  call : Tid n → Call
  unsaved : BufId → Bool

/-- `binit` has run and nobody has made a call. -/
def Bio.init (d : Disk) : Bio n where
  disk := d
  cache := binit
  call _ := .none
  unsaved _ := false

inductive BioAct (n : ℕ) where
  | bread (t : Tid n) (b : ℕ)
  | cont (t : Tid n)
  | modify (t : Tid n) (i : BufId) (d : Block)
  | copy (t : Tid n) (i j : BufId)
  | logWrite (t : Tid n) (i : BufId)
  | bwrite (t : Tid n) (i : BufId)
  | brelse (t : Tid n) (i : BufId)

/-- The process that takes the step. -/
def BioAct.actor : BioAct n → Tid n
  | .bread t _ | .cont t | .modify t _ _ | .copy t _ _ | .logWrite t _ | .bwrite t _
  | .brelse t _ => t

/-- A process has left `bread` with the buffer and makes no other call. -/
def Bio.Holds (s : Bio n) (t : Tid n) (i : BufId) : Prop :=
  s.call t = .none ∧ (s.cache.buf i).lock = some t

instance (s : Bio n) (t : Tid n) (i : BufId) : Decidable (s.Holds t i) :=
  inferInstanceAs (Decidable (_ ∧ _))

/-- The data of a buffer changes in memory. -/
def Bio.change (s : Bio n) (i : BufId) (d : Block) : Bio n :=
  { s with
    cache := s.cache.setBuf i { s.cache.buf i with data := d }
    unsaved := update s.unsaved i true }

/-- The rest of `bread` and `brelse`. -/
def Bio.cont (s : Bio n) (t : Tid n) : Option (Bio n) :=
  (contCall s.disk s.cache t (s.call t)).map fun (d, c, f) =>
    { s with disk := d, cache := c, call := update s.call t f }

/-- **One step of the layer.**  The step is not possible when the code panics, and when
the caller does not keep to the rules. -/
def bioStep (s : Bio n) : BioAct n → Option (Bio n)
  | .bread t b =>
    if s.call t = .none then
      match bget s.cache b with
      | none => none
      | some (c, i) =>
        some { s with cache := c, call := update s.call t (.locking i) }
    else none
  | .cont t => s.cont t
  | .modify t i d => if s.Holds t i then some (s.change i d) else none
  | .copy t i j =>
    -- `memmove` from a buffer to another one
    if s.Holds t i ∧ s.Holds t j then some (s.change i (s.cache.buf j).data) else none
  | .logWrite t i =>
    -- the part of `log_write` that concerns the buffer
    if s.Holds t i then
      some { s with
        cache := s.cache.setBuf i { s.cache.buf i with dirty := true }
        unsaved := update s.unsaved i false }
    else none
  | .bwrite t i =>
    if s.call t = .none then
      match bwrite s.disk t (s.cache.buf i) with
      | none => none
      | some (d, b) =>
        some { s with
          disk := d
          cache := s.cache.setBuf i b
          unsaved := update s.unsaved i false }
    else none
  | .brelse t i =>
    if s.Holds t i ∧ s.unsaved i = false then
      some { s with
        cache := s.cache.setBuf i { s.cache.buf i with lock := none }
        call := update s.call t (.releasing i) }
    else none

/-! ### All that a step can do -/

inductive BioTrans (s : Bio n) : BioAct n → Bio n → Prop where
  | bget {t : Tid n} {b : ℕ} {i : BufId} {c : Cache n} : s.call t = .none →
      BgetTo s.cache b i c →
      BioTrans s (.bread t b) { s with cache := c, call := update s.call t (.locking i) }
  | lock {t : Tid n} {i : BufId} : s.call t = .locking i → (s.cache.buf i).lock = none →
      BioTrans s (.cont t) { s with
        cache := s.cache.setBuf i { s.cache.buf i with lock := some t }
        call := update s.call t (.filling i) }
  | cached {t : Tid n} {i : BufId} : s.call t = .filling i → (s.cache.buf i).valid = true →
      BioTrans s (.cont t) { s with call := update s.call t .none }
  | fill {t : Tid n} {i : BufId} {d : Disk} {b : Buf n} : s.call t = .filling i →
      (s.cache.buf i).valid = false → iderw s.disk (s.cache.buf i) = some (d, b) →
      BioTrans s (.cont t) { s with
        disk := d
        cache := s.cache.setBuf i b
        call := update s.call t .none }
  | unref {t : Tid n} {i : BufId} : s.call t = .releasing i →
      BioTrans s (.cont t) { s with
        cache := s.cache.unref i
        call := update s.call t .none }
  | modify {t : Tid n} {i : BufId} {d : Block} : s.Holds t i →
      BioTrans s (.modify t i d) (s.change i d)
  | copy {t : Tid n} {i j : BufId} : s.Holds t i → s.Holds t j →
      BioTrans s (.copy t i j) (s.change i (s.cache.buf j).data)
  | logWrite {t : Tid n} {i : BufId} : s.Holds t i →
      BioTrans s (.logWrite t i) { s with
        cache := s.cache.setBuf i { s.cache.buf i with dirty := true }
        unsaved := update s.unsaved i false }
  | bwrite {t : Tid n} {i : BufId} {x : ℕ} : s.Holds t i → (s.cache.buf i).blockno = some x →
      BioTrans s (.bwrite t i) { s with
        disk := update s.disk x (s.cache.buf i).data
        cache := s.cache.setBuf i { s.cache.buf i with valid := true, dirty := false }
        unsaved := update s.unsaved i false }
  | brelse {t : Tid n} {i : BufId} : s.Holds t i → s.unsaved i = false →
      BioTrans s (.brelse t i) { s with
        cache := s.cache.setBuf i { s.cache.buf i with lock := none }
        call := update s.call t (.releasing i) }

variable {t : Tid n}

lemma bioTrans_of_cont {s s' : Bio n} (h : s.cont t = some s') :
    BioTrans s (.cont t) s' := by
  obtain ⟨⟨d, c, f⟩, hcont, rfl⟩ := Option.map_eq_some_iff.mp h
  obtain ⟨i, hc, hl, rfl, rfl, rfl⟩ | ⟨i, hc, hv, rfl, rfl, rfl⟩ | ⟨i, b, hc, hv, hd, rfl, rfl⟩ |
    ⟨i, hc, rfl, rfl, rfl⟩ := contCall_cases hcont
  · exact .lock hc hl
  · exact .cached hc hv
  · exact .fill hc hv hd
  · exact .unref hc

variable {a : BioAct n}

theorem bioTrans_of_step {s s' : Bio n} (h : bioStep s a = some s') :
    BioTrans s a s' := by
  cases a with
  | bread t b =>
    simp only [bioStep, Option.ite_none_right_eq_some] at h
    obtain ⟨hc, h⟩ := h
    split at h
    · exact absurd h (by simp)
    · obtain rfl := Option.some.inj h
      exact .bget hc (bgetTo_of_bget ‹_›)
  | cont t => exact bioTrans_of_cont h
  | modify t i d =>
    simp only [bioStep, Option.ite_none_right_eq_some] at h
    obtain ⟨hl, rfl⟩ := h.imp_right Option.some.inj
    exact .modify hl
  | copy t i j =>
    simp only [bioStep, Option.ite_none_right_eq_some] at h
    obtain ⟨⟨hi, hj⟩, rfl⟩ := h.imp_right Option.some.inj
    exact .copy hi hj
  | logWrite t i =>
    simp only [bioStep, Option.ite_none_right_eq_some] at h
    obtain ⟨hl, rfl⟩ := h.imp_right Option.some.inj
    exact .logWrite hl
  | bwrite t i =>
    simp only [bioStep, Option.ite_none_right_eq_some] at h
    obtain ⟨hc, h⟩ := h
    split at h
    · exact absurd h (by simp)
    · rename_i hw
      obtain ⟨hl, x, -, hb, rfl, rfl⟩ := bwrite_eq_some hw
      obtain rfl := Option.some.inj h
      exact .bwrite ⟨hc, hl⟩ hb
  | brelse t i =>
    simp only [bioStep, Option.ite_none_right_eq_some] at h
    obtain ⟨⟨hl, hu⟩, rfl⟩ := h.imp_right Option.some.inj
    exact .brelse hl hu

/-- The layer takes the steps of a cache under concurrent use. -/
lemma cacheStep_of_bioTrans {s s' : Bio n} (h : Refs s.cache s.call)
    (ht : BioTrans s a s') : CacheStep a.actor s.cache s.call s'.cache s'.call := by
  have hvalid : ∀ {t i}, s.Holds t i → (s.cache.buf i).valid = true := fun hl =>
    h.valid _ _ hl.2 (by simp [hl.1])
  cases ht with
  | bget hc hb => exact .bget hc hb
  | lock hc hl => exact .lock hc hl
  | cached hc hv => exact .cached hc hv
  | fill hc hv hd =>
    obtain ⟨hclean, -, x, -, rfl⟩ := h.fill hv hd
    exact .fill hc hclean ⟨rfl, rfl, rfl, rfl⟩ hclean
  | unref hc => exact .unref hc
  | modify hl | copy hl _ | logWrite hl => exact .write hl.1 hl.2 ⟨rfl, rfl, rfl, hvalid hl⟩
  | bwrite hl _ => exact .write hl.1 hl.2 ⟨rfl, rfl, rfl, rfl⟩
  | brelse hl _ => exact .release hl.1 hl.2

/-! ### The flat disk -/

/-- What a step writes to a block, in memory. -/
def mods (b : ℕ) (e : Bio n × BioAct n) : Option Block :=
  match e.2 with
  | .modify _ i d => if (e.1.cache.buf i).blockno = some b then some d else none
  | .copy _ i j =>
    if (e.1.cache.buf i).blockno = some b then some (e.1.cache.buf j).data else none
  | _ => none

/-- **The flat disk**: a block holds what was last written to it by anyone, or what was on
the disk at the start. -/
def flat (d₀ : Disk) (tr : List (Bio n × BioAct n)) (b : ℕ) : Block :=
  (last (mods b) tr).getD (d₀ b)

lemma flat_snoc (d₀ : Disk) (tr : List (Bio n × BioAct n)) (e : Bio n × BioAct n) (b : ℕ) :
    flat d₀ (tr ++ [e]) b = (mods b e).getD (flat d₀ tr b) := by
  rw [flat, last_snoc]
  cases mods b e <;> rfl

/-- A valid buffer holds the contents `V` of its block; so does the disk, unless a buffer has
changes that the disk does not have, which is then dirty or held by the process that made
them. -/
structure FlatOk (V : ℕ → Block) (s : Bio n) : Prop where
  cached : ∀ i b, (s.cache.buf i).blockno = some b → (s.cache.buf i).valid = true →
    (s.cache.buf i).data = V b
  disk : ∀ b, (∀ i, (s.cache.buf i).blockno = some b → (s.cache.buf i).valid = true →
    (s.cache.buf i).dirty = false ∧ s.unsaved i = false) → s.disk b = V b
  held : ∀ i, s.unsaved i = true → (s.cache.buf i).lock ≠ none

variable {i : BufId}

namespace FlatOk

variable {V : ℕ → Block} {s s' : Bio n}

/-- Steps that change only locks and counts. -/
lemma congr (h : FlatOk V s) (hdisk : s'.disk = s.disk) (hu : s'.unsaved = s.unsaved)
    (hbuf : ∀ j, (s'.cache.buf j).blockno = (s.cache.buf j).blockno ∧
      (s'.cache.buf j).valid = (s.cache.buf j).valid ∧
      (s'.cache.buf j).dirty = (s.cache.buf j).dirty ∧
      (s'.cache.buf j).data = (s.cache.buf j).data)
    (hheld : ∀ j, s.unsaved j = true → (s'.cache.buf j).lock ≠ none) : FlatOk V s' := by
  refine ⟨fun j b hb hv => ?_, fun b hall => ?_, fun j hj => ?_⟩
  · obtain ⟨h1, h2, -, h4⟩ := hbuf j
    rw [h4]
    exact h.cached j b (h1 ▸ hb) (h2 ▸ hv)
  · rw [hdisk]
    refine h.disk b fun j hb hv => ?_
    obtain ⟨h1, h2, h3, -⟩ := hbuf j
    rw [← h3, ← hu]
    exact hall j (h1.trans hb) (h2.trans hv)
  · exact hheld j (hu ▸ hj)

/-- One buffer changes, for a block that no other buffer has. -/
lemma of_update (h : FlatOk V s) {x : Buf n} {b : ℕ} {V' : ℕ → Block}
    (hbuf : s'.cache.buf = update s.cache.buf i x) (hx : x.blockno = some b)
    (hi : (s.cache.buf i).blockno = some b)
    (huniq : ∀ j, (s.cache.buf j).blockno = some b → j = i)
    (hother : ∀ y ≠ b, V' y = V y ∧ s'.disk y = s.disk y)
    (hu : ∀ j ≠ i, s'.unsaved j = s.unsaved j) (hcached : x.valid = true → x.data = V' b)
    (hdisk : (x.valid = true → x.dirty = false ∧ s'.unsaved i = false) → s'.disk b = V' b)
    (hheld : s'.unsaved i = true → x.lock ≠ none) : FlatOk V' s' := by
  have hself : s'.cache.buf i = x := by rw [hbuf, update_self]
  have hne : ∀ j ≠ i, s'.cache.buf j = s.cache.buf j := fun j hj => by
    rw [hbuf, update_of_ne hj]
  refine ⟨fun j y hy hv => ?_, fun y hall => ?_, fun j hj => ?_⟩
  · rcases eq_or_ne j i with rfl | hj
    · rw [hself] at hy hv ⊢
      obtain rfl : b = y := Option.some.inj (hx.symm.trans hy)
      exact hcached hv
    · rw [hne j hj] at hy hv ⊢
      have hyb : y ≠ b := by
        rintro rfl
        exact hj (huniq j hy)
      rw [(hother y hyb).1]
      exact h.cached j y hy hv
  · rcases eq_or_ne y b with rfl | hyb
    · refine hdisk fun hv => ?_
      have hi' := hall i (by rw [hself, hx]) (by rw [hself, hv])
      rwa [hself] at hi'
    · rw [(hother y hyb).1, (hother y hyb).2]
      refine h.disk y fun j hy hv => ?_
      have hj : j ≠ i := by
        rintro rfl
        exact hyb (Option.some.inj (hy.symm.trans hi))
      have hj' := hall j (by rw [hne j hj, hy]) (by rw [hne j hj, hv])
      rwa [hne j hj, hu j hj] at hj'
  · rcases eq_or_ne j i with rfl | hji
    · rw [hself]
      exact hheld hj
    · rw [hne j hji]
      exact h.held j (hu j hji ▸ hj)

/-- A clean buffer that nobody uses is recycled. -/
lemma miss (h : FlatOk V s) (hr : Refs s.cache s.call) {x : Buf n}
    (hbuf : s'.cache.buf = update s.cache.buf i x) (hxv : x.valid = false)
    (hz : (s.cache.buf i).refcnt = 0) (hclean : (s.cache.buf i).dirty = false)
    (hdisk : s'.disk = s.disk) (hu : s'.unsaved = s.unsaved) : FlatOk V s' := by
  have hself : s'.cache.buf i = x := by rw [hbuf, update_self]
  have hne : ∀ j ≠ i, s'.cache.buf j = s.cache.buf j := fun j hj => by
    rw [hbuf, update_of_ne hj]
  have hsaved : s.unsaved i = false := by
    by_contra hus
    exact h.held i (by simpa using hus) (hr.lock_eq_none hz)
  refine ⟨fun j y hy hv => ?_, fun y hall => ?_, fun j hj => ?_⟩
  · rcases eq_or_ne j i with rfl | hj
    · simp [hself, hxv] at hv
    · rw [hne j hj] at hy hv ⊢
      exact h.cached j y hy hv
  · rw [hdisk]
    refine h.disk y fun j hy hv => ?_
    rcases eq_or_ne j i with rfl | hj
    · exact ⟨hclean, hsaved⟩
    · have hj' := hall j (by rw [hne j hj, hy]) (by rw [hne j hj, hv])
      rwa [hne j hj, hu] at hj'
  · rw [hu] at hj
    have hji : j ≠ i := by
      rintro rfl
      simp [hsaved] at hj
    rw [hne j hji]
    exact h.held j hj

/-- The data of a held buffer changes in memory. -/
lemma change (h : FlatOk V s) (hr : Refs s.cache s.call) {b : ℕ} (hl : s.Holds t i)
    (hb : (s.cache.buf i).blockno = some b) {d : Block} {V' : ℕ → Block}
    (hV : ∀ y, V' y = if (s.cache.buf i).blockno = some y then d else V y) :
    FlatOk V' (s.change i d) := by
  have hvalid : (s.cache.buf i).valid = true := hr.valid t i hl.2 (by simp [hl.1])
  refine h.of_update (i := i) (b := b) rfl hb hb (fun j hj => hr.uniq j i b hj hb)
    (fun y hy => ⟨?_, rfl⟩) (fun j hj => update_of_ne hj ..) (fun _ => ?_) (fun hx => ?_)
    fun _ => by simp [hl.2]
  · rw [hV, if_neg]
    rw [hb]
    exact fun he => hy (Option.some.inj he).symm
  · rw [hV, if_pos hb]
  · have hu := (hx hvalid).2
    simp [Bio.change] at hu

end FlatOk

/-- A buffer that is referred to is for a block. -/
def Named (c : Cache n) : Prop := ∀ i, (c.buf i).refcnt ≠ 0 → ∃ b, (c.buf i).blockno = some b

lemma named_setBuf {c : Cache n} (h : Named c) {x : Buf n}
    (hx : x.refcnt ≠ 0 → ∃ b, x.blockno = some b) : Named (c.setBuf i x) := by
  intro j hj
  rcases eq_or_ne j i with rfl | hji
  · rw [Cache.setBuf_self] at hj ⊢
    exact hx hj
  · rw [Cache.setBuf_of_ne hji] at hj ⊢
    exact h j hj

lemma named_of_cacheStep {c c' : Cache n} {f f' : Tid n → Call} (h : Named c)
    (hs : CacheStep t c f c' f') : Named c' := by
  cases hs with
  | same | cached => exact h
  | bget _ hb =>
    cases hb with
    | hit hb => exact named_setBuf h fun _ => ⟨_, hb⟩
    | miss => exact named_setBuf h fun _ => ⟨_, rfl⟩
  | lock | release => exact named_setBuf h (h _)
  | fill _ _ hb _ | write _ _ hb =>
    refine named_setBuf h ?_
    rw [hb.refcnt, hb.blockno]
    exact h _
  | @unref i =>
    intro j hj
    rcases eq_or_ne j i with rfl | hji
    · simp only [Cache.unref_buf, update_self] at hj ⊢
      exact h j (by omega)
    · simp only [Cache.unref_buf, update_of_ne hji] at hj ⊢
      exact h j hj

/-- **The flat disk is kept**: every step keeps the invariant, with the contents changed by
what the step writes. -/
theorem flatOk_of_bioTrans {V : ℕ → Block} {s s' : Bio n} (h : FlatOk V s)
    (hr : Refs s.cache s.call) (hn : Named s.cache) (ht : BioTrans s a s') :
    FlatOk (fun b => (mods b (s, a)).getD (V b)) s' := by
  have hblock : ∀ {t i}, s.Holds t i → ∃ b, (s.cache.buf i).blockno = some b := fun {t i} hl =>
    hn i (hr.refcnt_pos (t := t) (.inl hl.2))
  -- a change of one buffer's lock or count
  have hsame : ∀ {i : BufId} {x : Buf n} {j : BufId}, x.blockno = (s.cache.buf i).blockno →
      x.valid = (s.cache.buf i).valid → x.dirty = (s.cache.buf i).dirty →
      x.data = (s.cache.buf i).data →
      ((s.cache.setBuf i x).buf j).blockno = (s.cache.buf j).blockno ∧
        ((s.cache.setBuf i x).buf j).valid = (s.cache.buf j).valid ∧
        ((s.cache.setBuf i x).buf j).dirty = (s.cache.buf j).dirty ∧
        ((s.cache.setBuf i x).buf j).data = (s.cache.buf j).data := by
    intro i x j h1 h2 h3 h4
    rcases eq_or_ne j i with rfl | hj
    · rw [Cache.setBuf_self]
      exact ⟨h1, h2, h3, h4⟩
    · rw [Cache.setBuf_of_ne hj]
      exact ⟨rfl, rfl, rfl, rfl⟩
  cases ht with
  | @bget t b i c hc hb =>
    cases hb with
    | hit =>
      refine h.congr rfl rfl (fun j => hsame rfl rfl rfl rfl) fun j hj => ?_
      rcases eq_or_ne j i with rfl | hji
      · simpa using h.held j hj
      · simpa [Cache.setBuf_of_ne hji] using h.held j hj
    | miss _ hz hclean => exact h.miss hr rfl rfl hz hclean rfl rfl
  | @lock t i hc hl =>
    refine h.congr rfl rfl (fun j => hsame rfl rfl rfl rfl) fun j hj => ?_
    rcases eq_or_ne j i with rfl | hji
    · simp
    · simpa [Cache.setBuf_of_ne hji] using h.held j hj
  | cached => exact h.congr rfl rfl (fun _ => ⟨rfl, rfl, rfl, rfl⟩) h.held
  | @fill t i d x hc hv hd =>
    obtain ⟨hclean, rfl, b, hb, rfl⟩ := hr.fill hv hd
    have huniq : ∀ j, (s.cache.buf j).blockno = some b → j = i := fun j hj => hr.uniq j i b hj hb
    -- no valid buffer has the block, so it is on the disk
    have hdisk : s.disk b = V b := by
      refine h.disk b fun j hj hvj => ?_
      rw [huniq j hj, hv] at hvj
      simp at hvj
    exact h.of_update (i := i) (b := b) rfl hb hb huniq (fun _ _ => ⟨rfl, rfl⟩) (fun _ _ => rfl)
      (fun _ => hdisk) (fun _ => hdisk) fun hu => h.held i hu
  | @unref t i hc =>
    refine h.congr rfl rfl (fun j => ?_) fun j hj => ?_
    · rw [Cache.unref_buf]
      exact hsame (i := i) rfl rfl rfl rfl
    · rcases eq_or_ne j i with rfl | hji
      · simpa using h.held j hj
      · simpa [update_of_ne hji] using h.held j hj
  | @modify t i d hl | @copy t i j hl _ =>
    obtain ⟨b, hb⟩ := hblock hl
    refine h.change hr hl hb fun y => ?_
    simp only [mods]
    split <;> rfl
  | @logWrite t i hl =>
    obtain ⟨b, hb⟩ := hblock hl
    refine h.of_update (i := i) (b := b) rfl hb hb (fun j hj => hr.uniq j i b hj hb)
      (fun _ _ => ⟨rfl, rfl⟩) (fun j hj => update_of_ne hj ..) (h.cached i b hb) ?_
      (by simp)
    intro hx
    simpa using (hx (hr.valid t i hl.2 (by simp [hl.1]))).1
  | @bwrite t i b hl hb =>
    have hdata := h.cached i b hb (hr.valid t i hl.2 (by simp [hl.1]))
    refine h.of_update (i := i) (b := b) rfl hb hb (fun j hj => hr.uniq j i b hj hb)
      (fun y hy => ⟨rfl, update_of_ne hy ..⟩) (fun j hj => update_of_ne hj ..)
      (fun _ => hdata) (fun _ => ?_) (by simp)
    simp only [update_self]
    exact hdata
  | @brelse t i hl hu =>
    refine h.congr rfl rfl (fun j => hsame rfl rfl rfl rfl) fun j hj => ?_
    have hji : j ≠ i := by
      rintro rfl
      simp [hu] at hj
    simpa [Cache.setBuf_of_ne hji] using h.held j hj

/-! ### Every run -/

/-- The block that a process asks `bread` for. -/
def asks (t : Tid n) (e : Bio n × BioAct n) : Option ℕ :=
  match e.2 with
  | .bread u b => if u = t then some b else none
  | _ => none

/-- The layer after a run. -/
structure BioOk (d₀ : Disk) (tr : List (Bio n × BioAct n)) (s : Bio n) : Prop where
  refs : Refs s.cache s.call
  named : Named s.cache
  flat : FlatOk (flat d₀ tr) s
  asked : ∀ t i, s.call t = .locking i ∨ s.call t = .filling i →
    ∃ b, last (asks t) tr = some b ∧ (s.cache.buf i).blockno = some b

lemma bioOk_init (d₀ : Disk) : BioOk d₀ [] (Bio.init d₀ : Bio n) where
  refs := refs_binit
  named i h := by simp [Bio.init, binit] at h
  flat := ⟨by simp [Bio.init, binit], fun _ _ => rfl, by simp [Bio.init]⟩
  asked t i h := by simp [Bio.init] at h

/-- A step of another process is not one of `u`. -/
lemma asks_of_ne {s : Bio n} {u : Tid n} (h : u ≠ a.actor) :
    asks u (s, a) = none := by
  cases a with
  | bread t b => exact if_neg (Ne.symm h)
  | _ => rfl

variable {d₀ : Disk}

variable {tr : List (Bio n × BioAct n)}

lemma asked_of_bioTrans {s s' : Bio n} (h : BioOk d₀ tr s) (ht : BioTrans s a s') {u : Tid n}
    (hu : s'.call u = .locking i ∨ s'.call u = .filling i) :
    ∃ b, last (asks u) (tr ++ [(s, a)]) = some b ∧ (s'.cache.buf i).blockno = some b := by
  have hstep := cacheStep_of_bioTrans h.refs ht
  -- a call that was under way keeps its block
  have hold : s.call u = .locking i ∨ s.call u = .filling i → asks u (s, a) = none →
      ∃ b, last (asks u) (tr ++ [(s, a)]) = some b ∧ (s'.cache.buf i).blockno = some b := by
    intro hc hnone
    obtain ⟨b, hlast, hb⟩ := h.asked u i hc
    have href : Ref s.cache s.call u i := by
      rcases hc with hc | hc
      · exact .inr hc
      · exact .inl (h.refs.filling u i hc)
    exact ⟨b, by rw [last_snoc, hnone, Option.none_or, hlast],
      (hstep.blockno_of_ref h.refs href).trans hb⟩
  rcases eq_or_ne u a.actor with rfl | hne
  · cases ht with
    | @bget t b j c hc hb =>
      obtain rfl : j = i := by simpa [BioAct.actor] using hu
      exact ⟨b, by simp [asks, BioAct.actor], hb.blockno⟩
    | @lock t j hc hl =>
      obtain rfl : j = i := by simpa [BioAct.actor] using hu
      exact hold (.inl hc) rfl
    | cached | fill | unref | brelse => simp [BioAct.actor] at hu
    | modify hl | copy hl | logWrite hl | bwrite hl =>
      have hc := hl.1
      simp only [BioAct.actor, Bio.change] at hu
      simp [hc] at hu
  · rw [(hstep.of_ne hne i).1] at hu
    exact hold hu (asks_of_ne hne)

theorem bioOk_of_run {s : Bio n} (hr : Run bioStep (Bio.init d₀) tr s) : BioOk d₀ tr s := by
  refine hr.snoc_induction (P := BioOk d₀) (bioOk_init d₀) ?_
  intro tr s a s' _ h hs
  have ht := bioTrans_of_step hs
  have hstep := cacheStep_of_bioTrans h.refs ht
  have hflat : flat d₀ (tr ++ [(s, a)]) = fun b => (mods b (s, a)).getD (flat d₀ tr b) :=
    funext fun b => flat_snoc d₀ tr (s, a) b
  refine ⟨refs_of_cacheStep h.refs hstep, named_of_cacheStep h.named hstep, ?_,
    fun u i hu => asked_of_bioTrans h ht hu⟩
  rw [hflat]
  exact flatOk_of_bioTrans h.flat h.refs h.named ht

/-- **The buffer cache is a flat disk.**  In every run of any number of processes, no two
buffers are for the same block; no step gives another block to a buffer that is referred to
or dirty; and when a `bread` returns, its process holds a buffer for the block it asked for,
with the data that was last written to that block by anyone, or that was on the disk at the
start. -/
theorem bread_flat {d₀ : Disk} {tr : List (Bio n × BioAct n)} {s : Bio n}
    (hr : Run bioStep (Bio.init d₀) tr s) :
    (∀ i j b, (s.cache.buf i).blockno = some b → (s.cache.buf j).blockno = some b → i = j) ∧
      (∀ a s' i, bioStep s a = some s' →
        (s.cache.buf i).refcnt ≠ 0 ∨ (s.cache.buf i).dirty = true →
        (s'.cache.buf i).blockno = (s.cache.buf i).blockno) ∧
      ∀ t i s', s.call t = .filling i → bioStep s (.cont t) = some s' →
        s'.Holds t i ∧ ∃ b, last (asks t) tr = some b ∧ (s'.cache.buf i).blockno = some b ∧
          (s'.cache.buf i).data = flat d₀ tr b := by
  have h := bioOk_of_run hr
  refine ⟨h.refs.uniq, fun a s' i hs hi => ?_, fun t i s' hc hs => ?_⟩
  · have hstep := cacheStep_of_bioTrans h.refs (bioTrans_of_step hs)
    refine (hstep.blockno i).resolve_right fun hz => ?_
    rcases hi with hi | hi
    · exact hi hz.1
    · simp [hz.2] at hi
  · have h' := bioOk_of_run (hr.snoc hs)
    have hlock := h.refs.filling t i hc
    -- the block and the lock are those of the call, and the buffer is valid now
    obtain ⟨b, hb, hbuf⟩ := h.asked t i (.inr hc)
    have hcont : s'.call t = .none ∧ (s'.cache.buf i).lock = some t ∧
        (s'.cache.buf i).blockno = (s.cache.buf i).blockno ∧ (s'.cache.buf i).valid = true := by
      cases bioTrans_of_step hs with
      | lock hc' | unref hc' =>
        rw [hc] at hc'
        cases hc'
      | cached hc' hv =>
        rw [hc] at hc'
        cases hc'
        exact ⟨update_self .., hlock, rfl, hv⟩
      | fill hc' hv hd =>
        rw [hc] at hc'
        cases hc'
        obtain ⟨-, -, x, -, rfl⟩ := h.refs.fill hv hd
        simpa using hlock
    obtain ⟨hnone, hl, hblock, hv⟩ := hcont
    refine ⟨⟨hnone, hl⟩, b, hb, hblock.trans hbuf, ?_⟩
    rw [h'.flat.cached i b (hblock.trans hbuf) hv, flat_snoc]
    rfl

/-- A process reads a block, changes it, passes it to `log_write` and releases it; another
one reads it. -/
def writeThenRead (t u : Tid 1) (i : BufId) (d : Block) : List (BioAct 1) :=
  [.bread t 40, .cont t, .cont t, .modify t i d, .logWrite t i, .brelse t i, .cont t,
    .bread u 40, .cont u]

theorem bread_flat_writeThenRead : ∃ s s',
    exec bioStep (Bio.init fun _ _ => 0) (writeThenRead 0 1 0 fun _ => 7) = some s ∧
    bioStep s (.cont 1) = some s' ∧ s'.Holds 1 0 ∧ (s'.cache.buf 0).data 0 = 7 ∧
    ∃ b, (s'.cache.buf 0).blockno = some b ∧ (s'.cache.buf 0).data = flat (fun _ _ => 0)
      (traceOf bioStep (Bio.init fun _ _ => 0) (writeThenRead 0 1 0 fun _ => 7)) b := by
  obtain ⟨s, hs, hc, s', hs', h7⟩ :
      ∃ s, exec bioStep (Bio.init fun _ _ => 0) (writeThenRead 0 1 0 fun _ => 7) = some s ∧
        s.call 1 = .filling 0 ∧ ∃ s', bioStep s (.cont 1) = some s' ∧
          (s'.cache.buf 0).data 0 = 7 := by
    decide +kernel
  obtain ⟨hl, b, -, hb, hd⟩ := (bread_flat (run_traceOf hs)).2.2 1 0 s' hc hs'
  exact ⟨s, s', hs, hs', hl, h7, b, hb, hd⟩

/-! ### The machine with the log -/

/-- What the layer sees of the machine. -/
def Machine.bio (s : Machine n) : Bio n := ⟨s.disk, s.cache, s.call, s.unlogged⟩

variable {L : Layout}

/-- What a step of `commit` or `recover_from_log` is in the layer. -/
def Phase.bioActs (L : Layout) (s : Machine n) (t : Tid n) : Phase → List (BioAct n)
  | .readHead | .writeHead _ => [.bread t L.logstart]
  | .gotHead i | .wroteHead _ i | .loopLast _ _ i => [.brelse t i]
  | .loop _ tail => if tail < s.log.lh.length then [.bread t (L.slot tail)] else []
  | .loopLog _ tail _ => s.log.lh[tail]?.toList.map (.bread t)
  | .loopBoth k _ l d => [.copy t (k.target l d) (k.source l d), .bwrite t (k.target l d)]
  | .loopCopied k _ l d => [.brelse t (k.source l d)]
  | .fillHead _ i => [.modify t i (Fs.writeHead s.log.lh (s.cache.buf i).data), .bwrite t i]
  | .finish => []

/-- **What a step of the machine is in the layer.** -/
def bioActs (L : Layout) (s : Machine n) : Act n → List (BioAct n)
  | .cont t => [.cont t]
  | .run t =>
    match s.mode t with
    | .busy _ p => p.bioActs L s t
    | _ => []
  | .bread t b => [.bread t b]
  | .modify t i d => [.modify t i d]
  | .logWrite t =>
    match s.mode t with
    | .checked i => [.logWrite t i]
    | _ => []
  | .brelse t i => [.brelse t i]
  | .crash | .beginOp _ | .wake _ | .logCheck _ _ | .endOp _ => []

/-- Who takes the step of the machine takes those of the layer. -/
lemma actor_of_bioActs {s : Machine n} {a : Act n} {b : BioAct n} (h : b ∈ bioActs L s a) :
    a.actor = some b.actor := by
  cases a with
  | run t =>
    simp only [bioActs] at h
    split at h
    · next p _ =>
      cases p with
      | loop k tail =>
        simp only [Phase.bioActs] at h
        split at h
        · cases List.mem_singleton.mp h
          rfl
        · cases h
      | loopLog k tail l =>
        obtain ⟨x, -, rfl⟩ := List.mem_map.mp h
        rfl
      | loopBoth k tail l d | fillHead first i =>
        rcases List.mem_pair.mp h with rfl | rfl <;> rfl
      | finish => cases h
      | _ =>
        cases List.mem_singleton.mp h
        rfl
    · cases h
  | logWrite t =>
    simp only [bioActs] at h
    split at h
    · cases List.mem_singleton.mp h
      rfl
    · cases h
  | cont | bread | modify | brelse =>
    cases List.mem_singleton.mp h
    rfl
  | _ => cases h

lemma exec_one {s s' : Bio n} (h : bioStep s a = some s') : exec bioStep s [a] = some s' := by
  simp [exec, h]

lemma bio_bread {s s' : Machine n} {b : ℕ} {m : BufId → Mode} (hc : s.call t = .none)
    (h : s.bread t b m = some s') : exec bioStep s.bio [.bread t b] = some s'.bio := by
  refine exec_one ?_
  rw [Machine.bread] at h
  split at h
  · exact absurd h (by simp)
  · next c i hb =>
    obtain rfl := Option.some.inj h
    simp [bioStep, Machine.bio, hc, hb]

lemma bio_brelse {s s' : Machine n} {m : Mode} (hc : s.call t = .none) (hu : s.unlogged i = false)
    (h : s.brelse t i m = some s') : exec bioStep s.bio [.brelse t i] = some s'.bio := by
  obtain ⟨hl, rfl⟩ := brelse_eq_some h
  refine exec_one ?_
  simp [bioStep, Machine.bio, Bio.Holds, hc, hl, hu]

/-- The two steps of `bwrite` with new data: the change in memory and the write. -/
lemma bio_bwrite {s s' : Machine n} {data : Block} {m : Mode} (hc : s.call t = .none)
    (hu : s.unlogged i = false) (ha : bioStep s.bio a = some (s.bio.change i data))
    (h : s.bwrite t i data m = some s') : exec bioStep s.bio [a, .bwrite t i] = some s'.bio := by
  refine exec_append (exec_one ha) (exec_one ?_)
  rw [Machine.bwrite] at h
  split at h
  · exact absurd h (by simp)
  · next d b hb =>
    obtain rfl := Option.some.inj h
    have hsaved : update s.unlogged i false = s.unlogged := by
      rw [← hu, update_eq_self]
    simp [bioStep, Machine.bio, Bio.change, hc, hb, Cache.setBuf, hsaved]

/-- A step of `commit` or `recover_from_log`, whose process holds no buffer with changes that
are not logged. -/
lemma bio_runPhase {s s' : Machine n} {w : Caller} {p : Phase}
    (hs : Sound L s) (hfit : p.Fits s.log.lh)
    (hu : ∀ i, (s.cache.buf i).lock = some t → s.unlogged i = false) (hc : s.call t = .none)
    (hm : s.mode t = .busy w p) (h : s.runPhase L t w p = some s') :
    exec bioStep s.bio (p.bioActs L s t) = some s'.bio := by
  -- the steps that release a buffer, or write one, hold its lock
  have hrel : ∀ {r : Machine n} {i m}, r.brelse t i m = some s' → r.cache = s.cache →
      r.call = s.call → r.unlogged = s.unlogged →
      exec bioStep r.bio [.brelse t i] = some s'.bio := by
    intro r i m hb hcache hcall hun
    have hl := (brelse_eq_some hb).1
    rw [hcache] at hl
    exact bio_brelse (by rw [hcall, hc]) (by rw [hun, hu i hl]) hb
  have hholds : ∀ {i b}, Uses L s.log.lh p i b → s.bio.Holds t i := fun {i b} hus =>
    ⟨hc, ((hs.owners.uses t w p i b hm hus).2).resolve_right (by simp [hc])⟩
  cases p with
  | readHead | writeHead first => exact bio_bread hc h
  | gotHead i =>
    rw [Machine.runPhase] at h
    have hruns := hrel h rfl rfl rfl
    exact hruns
  | loop k tail =>
    simp only [Machine.runPhase] at h
    simp only [Phase.bioActs]
    split at h
    · next htail =>
      rw [if_pos htail]
      exact bio_bread hc h
    · next htail =>
      rw [if_neg htail]
      cases k <;> (obtain rfl := Option.some.inj h; rfl)
  | loopLog k tail l =>
    simp only [Machine.runPhase] at h
    split at h
    · exact absurd h (by simp)
    · next b hb =>
      rw [Phase.bioActs, hb]
      exact bio_bread hc h
  | loopBoth k tail l d =>
    have hl := hholds (.bothLog (l := l))
    have hd := hholds (.bothHome (d := d) (List.getElem?_eq_getElem hfit.1))
    cases k with
    | writeLog => exact bio_bwrite hc (hu l hl.2) (if_pos ⟨hl, hd⟩) h
    | installTrans => exact bio_bwrite hc (hu d hd.2) (if_pos ⟨hd, hl⟩) h
  | loopCopied k tail l d | loopLast k tail i | wroteHead first i => exact hrel h rfl rfl rfl
  | fillHead first i =>
    have hl := (machine_bwrite_eq_some h).1
    exact bio_bwrite hc (hu i hl) (if_pos ⟨hc, hl⟩) h
  | finish => cases w <;> (obtain rfl := Option.some.inj h; rfl)

/-- **A step of the machine** is made of the steps of the layer. -/
lemma bio_of_step {H₀ : ℕ → Block} {j : Journal n} {s s' : Machine n} {a : Act n}
    (hi : Inv L H₀ j s) (ha : a ≠ .crash) (h : step L s a = some s') :
    exec bioStep s.bio (bioActs L s a) = some s'.bio := by
  cases a with
  | crash => exact absurd rfl ha
  | cont t =>
    obtain ⟨x, hx, rfl⟩ := Option.map_eq_some_iff.mp h
    exact exec_one (Option.map_eq_some_iff.mpr ⟨x, hx, rfl⟩)
  | run t =>
    simp only [step] at h
    split at h
    · next w p hc hm =>
      rw [bioActs, hm]
      refine bio_runPhase hi.sound (hi.stage.busy t w p hm).fits (fun i hl => ?_) hc hm h
      -- only a process in an operation has changes that are not logged
      by_contra hu
      obtain ⟨u, hlu, hin⟩ := hi.contents.unlogged i (by simpa using hu)
      exact hi.sound.ops.not_inOp hm u hin
    · exact absurd h (by simp)
  | beginOp t | endOp t =>
    simp only [step, Option.ite_none_right_eq_some] at h
    obtain ⟨-, h⟩ := h
    split at h <;> (obtain rfl := Option.some.inj h; rfl)
  | wake t | logCheck t i =>
    simp only [step, Option.ite_none_right_eq_some] at h
    obtain ⟨-, rfl⟩ := h.imp_right Option.some.inj
    rfl
  | bread t b =>
    simp only [step, Option.ite_none_right_eq_some] at h
    exact bio_bread h.1.1 h.2
  | modify t i d =>
    simp only [step, Option.ite_none_right_eq_some] at h
    obtain ⟨⟨hc, -, hl⟩, rfl⟩ := h.imp_right Option.some.inj
    exact exec_one (if_pos ⟨hc, hl⟩)
  | logWrite t =>
    simp only [step] at h
    split at h
    · next i hm =>
      obtain ⟨hl, hc⟩ := hi.sound.cache.checked t i hm
      split at h
      · exact absurd h (by simp)
      · obtain rfl := Option.some.inj h
        rw [bioActs, hm]
        exact exec_one (if_pos ⟨hc, hl⟩)
    · exact absurd h (by simp)
  | brelse t i =>
    simp only [step, Option.ite_none_right_eq_some] at h
    exact bio_brelse h.1.1 h.1.2.2 h.2

/-- **The machine uses the layer as it should**: the steps of a run without a crash, from a disk
that can be recovered, one after the other are steps of the layer, and so is each step that is
possible next; the process that takes it takes those of the layer.  The steps of `commit` and
`recover_from_log` are copies, changes, `bwrite`s and releases of buffers that their process
holds. -/
theorem bio_of_run {H₀ : ℕ → Block}
    (h₀ : RedoLog.Recoverable L.redo H₀ d₀) {tr : List (Machine n × Act n)} {s : Machine n}
    (hr : Run (step L) (powerOn d₀) tr s) (hno : ∀ e ∈ tr, e.2 ≠ .crash) :
    exec bioStep (Bio.init d₀) (tr.flatMap fun e => bioActs L e.1 e.2) = some s.bio ∧
      ∀ a s', a ≠ .crash → step L s a = some s' →
        exec bioStep s.bio (bioActs L s a) = some s'.bio ∧
          ∀ b ∈ bioActs L s a, a.actor = some b.actor := by
  refine ⟨?_, fun a s' ha hs => ⟨bio_of_step (inv_of_run h₀ hr) ha hs, fun _ => actor_of_bioActs⟩⟩
  refine hr.snoc_induction (P := fun tr s => (∀ e ∈ tr, e.2 ≠ .crash) →
    exec bioStep (Bio.init d₀) (tr.flatMap fun e => bioActs L e.1 e.2) = some s.bio)
    (fun _ => rfl) ?_ hno
  intro tr s a s' hr ih hs hno
  rw [List.flatMap_append, List.flatMap_singleton]
  exact exec_append (ih fun e he => hno e (List.mem_append_left _ he))
    (bio_of_step (inv_of_run h₀ hr) (hno (s, a) (by simp)) hs)

/-- Recovery, two operations and the commit of both, up to the crash. -/
theorem bio_of_run_twoCrashes : ∃ (s : Machine 1) (tr : List (Machine 1 × Act 1)),
    Run (step mkfsLayout) (powerOn blankDisk) tr s ∧ tr.length = 60 ∧ s.disk 2 0 = 2 ∧
    exec bioStep (Bio.init blankDisk) (tr.flatMap fun e => bioActs mkfsLayout e.1 e.2)
      = some s.bio := by
  let as := (twoCrashes 0 1 1 2).take 60
  obtain ⟨s, hs, hdisk, hlen, hno⟩ :
      ∃ s, exec (step mkfsLayout) (powerOn blankDisk) as = some s ∧ s.disk 2 0 = 2 ∧
        (traceOf (step mkfsLayout) (powerOn blankDisk) as).length = 60 ∧
        ∀ e ∈ traceOf (step mkfsLayout) (powerOn blankDisk) as, e.2.actor.isSome := by
    decide +kernel
  refine ⟨s, _, run_traceOf hs, hlen, hdisk, ?_⟩
  refine (bio_of_run (.of_listed_nil (by decide +kernel) fun _ _ => rfl) (run_traceOf hs) ?_).1
  intro e he hc
  have hactor := hno e he
  rw [hc] at hactor
  cases hactor

end Xv6.Fs
