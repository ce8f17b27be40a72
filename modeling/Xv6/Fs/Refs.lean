import Xv6.Fs.Machine
import Xv6.Transition.Tally

/-!
The buffer cache under concurrent use: references, locks and recycling.

* `CacheStep`: what a step does to the cache and to the calls under way, whoever
  takes it; `cacheStep_of_trans` reads it off `Trans`.
* `BufStep`, `CacheStep.bufStep`: the same for the one buffer that the step uses.
* `Refs`: every buffer is on the list, no block is in two buffers, `refcnt` counts
  the holder of the lock, those who wait for it and those about to give up their
  reference, whoever holds a buffer after `bread` finds it valid, and a dirty
  buffer is valid.
* `refs_of_cacheStep`: every step keeps it.
* `CacheStep.blockno_of_ref`: a buffer that a process refers to keeps its block.
-/

namespace Xv6.Fs

open Transition Function

variable {n : ℕ}

/-- `b'` is `b` with other data, which is valid. -/
structure Buf.NewData (b b' : Buf n) : Prop where
  blockno : b'.blockno = b.blockno
  refcnt : b'.refcnt = b.refcnt
  lock : b'.lock = b.lock
  valid : b'.valid = true

/-- What a step of the process `t` does to the cache and to the calls. -/
inductive CacheStep (t : Tid n) (c : Cache n) (f : Tid n → Call) :
    Cache n → (Tid n → Call) → Prop where
  | same : CacheStep t c f c f
  | bget {b : ℕ} {i : BufId} {c' : Cache n} : f t = .none → BgetTo c b i c' →
      CacheStep t c f c' (update f t (.locking i))
  | lock {i : BufId} : f t = .locking i → (c.buf i).lock = none →
      CacheStep t c f (c.setBuf i { c.buf i with lock := some t })
        (update f t (.filling i))
  | cached {i : BufId} : f t = .filling i → (c.buf i).valid = true →
      CacheStep t c f c (update f t .none)
  | fill {i : BufId} {b : Buf n} : f t = .filling i → (c.buf i).dirty = false →
      (c.buf i).NewData b → b.dirty = false →
      CacheStep t c f (c.setBuf i b) (update f t .none)
  | write {i : BufId} {b : Buf n} : f t = .none → (c.buf i).lock = some t →
      (c.buf i).NewData b → CacheStep t c f (c.setBuf i b) f
  | release {i : BufId} : f t = .none → (c.buf i).lock = some t →
      CacheStep t c f (c.setBuf i { c.buf i with lock := none })
        (update f t (.releasing i))
  | unref {i : BufId} : f t = .releasing i →
      CacheStep t c f (c.unref i) (update f t .none)

/-- What a step of `t` does to the buffer it uses and to its call. -/
inductive BufStep (t : Tid n) (i : BufId) : Buf n → Call → Buf n → Call → Prop where
  | hit {b : Buf n} : BufStep t i b .none { b with refcnt := b.refcnt + 1 } (.locking i)
  | miss {b : Buf n} {x : ℕ} : b.refcnt = 0 → b.dirty = false →
      BufStep t i b .none
        { b with blockno := some x, valid := false, dirty := false, refcnt := 1 } (.locking i)
  | lock {b : Buf n} : b.lock = none →
      BufStep t i b (.locking i) { b with lock := some t } (.filling i)
  | cached {b : Buf n} : b.valid = true → BufStep t i b (.filling i) b .none
  | fill {b b' : Buf n} : b.NewData b' → BufStep t i b (.filling i) b' .none
  | write {b b' : Buf n} : b.NewData b' → BufStep t i b .none b' .none
  | release {b : Buf n} : b.lock = some t →
      BufStep t i b .none { b with lock := none } (.releasing i)
  | unref {b : Buf n} : BufStep t i b (.releasing i) { b with refcnt := b.refcnt - 1 } .none

namespace BufStep

variable {t u : Tid n} {i j : BufId} {b b' : Buf n} {k k' : Call}

variable (h : BufStep t i b k b' k')

include h

/-- The call, before and after, is not about another buffer. -/
lemma call_ne (hj : j ≠ i) :
    (k ≠ .locking j ∧ k ≠ .filling j ∧ k ≠ .releasing j) ∧
      k' ≠ .locking j ∧ k' ≠ .releasing j := by
  cases h <;> simp [Ne.symm hj]

/-- A step takes the lock for its process, and gives up only its own. -/
lemma lock_of_ne (hu : u ≠ t) : b'.lock = some u ↔ b.lock = some u := by
  cases h with
  | hit | miss | cached | unref => rfl
  | lock hl | release hl => simp [hl, Ne.symm hu]
  | fill hb | write hb => rw [hb.lock]

lemma lock_keep (hl : b.lock = some u) (hne : u = t → k' ≠ .releasing i) : b'.lock = some u := by
  cases h with
  | hit | miss | cached | unref => exact hl
  | lock hfree => simp [hfree] at hl
  | fill hb | write hb => rw [hb.lock, hl]
  | release hown => exact absurd rfl (hne (Option.some.inj (hl.symm.trans hown)))

lemma ref_self (hr : b'.lock = some t ∨ k' = .locking i) :
    (b.lock = some t ∨ k = .locking i) ∨ k = .none ∧ k' = .locking i := by
  cases h with
  | hit | miss => exact .inr ⟨rfl, rfl⟩
  | lock => exact .inl (.inr rfl)
  | cached | unref => exact .inl (.inl (by simpa using hr))
  | fill hb | write hb => exact .inl (.inl (by simpa [hb.lock] using hr))
  | release => simp at hr

lemma ref_keep (hr : b.lock = some t ∨ k = .locking i) (hne : k' ≠ .releasing i) :
    b'.lock = some t ∨ k' = .locking i := by
  cases h with
  | hit | miss => exact .inr rfl
  | lock => exact .inl rfl
  | cached | unref => exact .inl (by simpa using hr)
  | fill hb | write hb => exact .inl (by simpa [hb.lock] using hr)
  | release => exact absurd rfl hne

/-- Only a buffer that is clean and that nobody refers to is recycled. -/
lemma blockno : b'.blockno = b.blockno ∨ b.refcnt = 0 ∧ b.dirty = false := by
  cases h with
  | miss hz hd => exact .inr ⟨hz, hd⟩
  | fill hb | write hb => exact .inl hb.blockno
  | hit | lock | cached | release | unref => exact .inl rfl

/-- Only the lock step leaves the process with the lock and the data not checked. -/
lemma filling (hk : k' = .filling j) : j = i ∧ b'.lock = some t := by
  cases h with
  | lock => exact ⟨by simpa using hk.symm, rfl⟩
  | hit | miss | cached | fill | write | release | unref => cases hk

/-- A buffer whose lock somebody holds stays valid. -/
lemma valid_keep (hfree : b.refcnt = 0 → b.lock = none) (hl : b.lock = some u)
    (hv : b.valid = true) : b'.valid = true := by
  cases h with
  | miss hz =>
    rw [hfree hz] at hl
    cases hl
  | fill hb | write hb => exact hb.valid
  | hit | lock | cached | release | unref => exact hv

/-- A process that holds the lock and has left `bread` finds the buffer valid. -/
lemma valid_self (hfree : b.refcnt = 0 → b.lock = none) (hl : b'.lock = some t)
    (hk : k' ≠ .filling i) (hv : b.lock = some t → k ≠ .filling i → b.valid = true) :
    b'.valid = true := by
  cases h with
  | hit | unref => exact hv hl (by simp)
  | miss hz =>
    rw [hfree hz] at hl
    cases hl
  | lock => exact absurd rfl hk
  | cached hvalid => exact hvalid
  | fill hb | write hb => exact hb.valid
  | release => cases hl

lemma dirty (hd : b.dirty = true → b.valid = true) : b'.dirty = true → b'.valid = true := by
  cases h with
  | miss => simp
  | fill hb | write hb => exact fun _ => hb.valid
  | hit | lock | cached | release | unref => exact hd

/-- `refcnt` changes with the references that the process has to the buffer. -/
lemma refcnt (hpos : k = .releasing i → b.refcnt ≠ 0) :
    b'.refcnt + (if b.lock = none then 0 else 1) + (if k = .locking i then 1 else 0)
        + (if k = .releasing i then 1 else 0)
      = b.refcnt + (if b'.lock = none then 0 else 1) + (if k' = .locking i then 1 else 0)
        + (if k' = .releasing i then 1 else 0) := by
  cases h with
  | hit => simp; omega
  | miss hz => simp [hz]; omega
  | cached => simp
  | lock hl => simp [hl]
  | fill hb | write hb => simp [hb.lock, hb.refcnt]
  | release hl => simp [hl]
  | unref =>
    have := hpos rfl
    simp
    omega

end BufStep

/-- A process refers to a buffer: it holds the lock or waits for it. -/
def Ref (c : Cache n) (f : Tid n → Call) (t : Tid n) (i : BufId) : Prop :=
  (c.buf i).lock = some t ∨ f t = .locking i

namespace CacheStep

variable {t u : Tid n} {c c' : Cache n} {f f' : Tid n → Call}

section

variable (hs : CacheStep t c f c' f')

include hs

/-- A step changes nothing, or one buffer and the call of its process. -/
lemma bufStep : (c' = c ∧ f' = f) ∨
    ∃ i, (∀ j ≠ i, c'.buf j = c.buf j) ∧ (∀ u ≠ t, f' u = f u) ∧
      BufStep t i (c.buf i) (f t) (c'.buf i) (f' t) := by
  have hcall : ∀ v, ∀ u ≠ t, update f t v u = f u := fun v u hu =>
    update_of_ne hu v f
  have hbuf : ∀ i b, ∀ j ≠ i, (c.setBuf i b).buf j = c.buf j := fun i b j hj =>
    Cache.setBuf_of_ne hj c b
  cases hs with
  | same => exact .inl ⟨rfl, rfl⟩
  | @bget b i _ hf hb =>
    refine .inr ⟨i, ?_, hcall _, ?_⟩
    · cases hb <;> exact hbuf i _
    · cases hb with
      | hit => simpa [hf] using BufStep.hit
      | miss _ hz hd => simpa [hf] using BufStep.miss hz hd
  | @lock i hf hl => exact .inr ⟨i, hbuf i _, hcall _, by simpa [hf] using BufStep.lock hl⟩
  | @cached i hf hv =>
    exact .inr ⟨i, fun _ _ => rfl, hcall _, by simpa [hf] using BufStep.cached hv⟩
  | @fill i b hf _ hb _ =>
    exact .inr ⟨i, hbuf i _, hcall _, by simpa [hf] using BufStep.fill hb⟩
  | @write i b hf _ hb =>
    exact .inr ⟨i, hbuf i _, fun _ _ => rfl, by simpa [hf] using BufStep.write hb⟩
  | @release i hf hl => exact .inr ⟨i, hbuf i _, hcall _, by simpa [hf] using BufStep.release hl⟩
  | @unref i hf =>
    refine .inr ⟨i, fun j hj => ?_, hcall _, by simpa [hf] using BufStep.unref⟩
    rw [Cache.unref_buf, update_of_ne hj]

/-- The other processes make the same calls and hold the same buffers as before. -/
lemma of_ne (hu : u ≠ t) (j : BufId) :
    f' u = f u ∧ ((c'.buf j).lock = some u ↔ (c.buf j).lock = some u) := by
  rcases hs.bufStep with ⟨rfl, rfl⟩ | ⟨i, hbuf, hcall, hb⟩
  · exact ⟨rfl, Iff.rfl⟩
  · refine ⟨hcall u hu, ?_⟩
    rcases eq_or_ne j i with rfl | hj
    · exact hb.lock_of_ne hu
    · rw [hbuf j hj]

lemma ref_of_ne (hu : u ≠ t) (i : BufId) : Ref c' f' u i ↔ Ref c f u i := by
  obtain ⟨hf, hl⟩ := hs.of_ne hu i
  rw [Ref, Ref, hf, hl]

/-- What `t` refers to after its step it referred to before, or it has just called
`bread`. -/
lemma ref_self {j : BufId} (hr : Ref c' f' t j) :
    Ref c f t j ∨ f t = .none ∧ f' t = .locking j := by
  rcases hs.bufStep with ⟨rfl, rfl⟩ | ⟨i, hbuf, -, hb⟩
  · exact .inl hr
  · rcases eq_or_ne j i with rfl | hj
    · exact hb.ref_self hr
    · rw [Ref, hbuf j hj] at hr
      exact .inl (.inl (hr.resolve_right (hb.call_ne hj).2.1))

/-- What `t` referred to it still refers to, unless it has just released it. -/
lemma ref_keep {j : BufId} (hr : Ref c f t j) (hne : f' t ≠ .releasing j) : Ref c' f' t j := by
  rcases hs.bufStep with ⟨rfl, rfl⟩ | ⟨i, hbuf, -, hb⟩
  · exact hr
  · rcases eq_or_ne j i with rfl | hj
    · exact hb.ref_keep hr hne
    · rw [Ref, hbuf j hj]
      exact .inl (hr.resolve_right (hb.call_ne hj).1.1)

/-- A lock is given up by its holder only. -/
lemma lock_keep {j : BufId} (hl : (c.buf j).lock = some u) (hne : u = t → f' t ≠ .releasing j) :
    (c'.buf j).lock = some u := by
  rcases hs.bufStep with ⟨rfl, rfl⟩ | ⟨i, hbuf, -, hb⟩
  · exact hl
  · rcases eq_or_ne j i with rfl | hj
    · exact hb.lock_keep hl hne
    · rw [hbuf j hj, hl]

lemma blockno (j : BufId) :
    (c'.buf j).blockno = (c.buf j).blockno ∨ (c.buf j).refcnt = 0 ∧ (c.buf j).dirty = false := by
  rcases hs.bufStep with ⟨rfl, rfl⟩ | ⟨i, hbuf, -, hb⟩
  · exact .inl rfl
  · rcases eq_or_ne j i with rfl | hj
    · exact hb.blockno
    · rw [hbuf j hj]
      exact .inl rfl

/-- No step takes a buffer off the list. -/
lemma lru {i : BufId} (hi : i ∈ c.lru) : i ∈ c'.lru := by
  cases hs with
  | same | lock | cached | fill | write | release => exact hi
  | bget _ hb => cases hb <;> exact hi
  | unref => exact Cache.mem_unref_lru hi

end

lemma setBuf_blockno {i : BufId} {b : Buf n} (hb : b.blockno = (c.buf i).blockno) (j : BufId) :
    ((c.setBuf i b).buf j).blockno = (c.buf j).blockno := by
  rcases eq_or_ne j i with rfl | hj
  · rw [Cache.setBuf_self, hb]
  · rw [Cache.setBuf_of_ne hj]

/-- A step keeps the blocks of the buffers, or one buffer gets a block that no
buffer had. -/
lemma blocknos (hs : CacheStep t c f c' f') (hlru : ∀ i, i ∈ c.lru) :
    (∀ j, (c'.buf j).blockno = (c.buf j).blockno) ∨
      ∃ i b, (∀ j, (c.buf j).blockno ≠ some b) ∧ (c'.buf i).blockno = some b ∧
        ∀ j ≠ i, (c'.buf j).blockno = (c.buf j).blockno := by
  cases hs with
  | same | cached => exact .inl fun _ => rfl
  | @bget b i _ _ hb =>
    cases hb with
    | hit => exact .inl (setBuf_blockno rfl)
    | miss hno =>
      refine .inr ⟨i, b, fun j => hno j (hlru j), by rw [Cache.setBuf_self], fun j hj => ?_⟩
      rw [Cache.setBuf_of_ne hj]
  | lock | release => exact .inl (setBuf_blockno rfl)
  | fill _ _ hb _ | write _ _ hb => exact .inl (setBuf_blockno hb.blockno)
  | @unref i =>
    refine .inl fun j => ?_
    rcases eq_or_ne j i with rfl | hj
    · rw [Cache.unref_buf, update_self]
    · rw [Cache.unref_buf, update_of_ne hj]

end CacheStep

/-- The processes that wait for the buffer's lock. -/
def waiting (f : Tid n → Call) (i : BufId) : ℕ := tally (· = .locking i) f

/-- The processes that have released the lock and not yet their reference. -/
def leaving (f : Tid n → Call) (i : BufId) : ℕ := tally (· = .releasing i) f

/-- The references to a buffer. -/
def refs (c : Cache n) (f : Tid n → Call) (i : BufId) : ℕ :=
  (if (c.buf i).lock = none then 0 else 1) + waiting f i + leaving f i

structure Refs (c : Cache n) (f : Tid n → Call) : Prop where
  lru : ∀ i, i ∈ c.lru
  uniq : ∀ i j b, (c.buf i).blockno = some b → (c.buf j).blockno = some b → i = j
  refcnt : ∀ i, (c.buf i).refcnt = refs c f i
  filling : ∀ t i, f t = .filling i → (c.buf i).lock = some t
  valid : ∀ t i, (c.buf i).lock = some t → f t ≠ .filling i → (c.buf i).valid = true
  dirty : ∀ i, (c.buf i).dirty = true → (c.buf i).valid = true

lemma refs_binit : Refs (binit : Cache n) fun _ => .none where
  lru i := by simp [binit]
  uniq i j b h := by simp [binit] at h
  refcnt i := by simp [refs, binit, waiting, leaving, tally]
  filling t i h := by simp at h
  valid t i h := by simp [binit] at h
  dirty i h := by simp [binit] at h

namespace Refs

variable {t : Tid n} {c c' : Cache n} {f f' : Tid n → Call}

variable {i : BufId}

/-- A buffer that a process refers to has a positive `refcnt`. -/
lemma refcnt_pos (h : Refs c f) (hr : Ref c f t i) : (c.buf i).refcnt ≠ 0 := by
  rw [h.refcnt, refs]
  rcases hr with hl | hw
  · simp [hl]
  · have hpos : 0 < waiting f i := tally_pos hw
    omega

lemma refcnt_pos_of_releasing (h : Refs c f) (hf : f t = .releasing i) : (c.buf i).refcnt ≠ 0 := by
  have hpos : 0 < leaving f i := tally_pos hf
  rw [h.refcnt, refs]
  omega

lemma waiting_update (f : Tid n → Call) (t : Tid n) (v : Call) (i : BufId) :
    waiting (update f t v) i + (if f t = .locking i then 1 else 0)
      = waiting f i + (if v = .locking i then 1 else 0) :=
  tally_update (· = Call.locking i) f t v

lemma leaving_update (f : Tid n → Call) (t : Tid n) (v : Call) (i : BufId) :
    leaving (update f t v) i + (if f t = .releasing i then 1 else 0)
      = leaving f i + (if v = .releasing i then 1 else 0) :=
  tally_update (· = Call.releasing i) f t v

/-! Each part of the invariant is kept. -/

/-- Nobody holds the lock of a buffer to which nobody refers. -/
lemma lock_eq_none (h : Refs c f) (hz : (c.buf i).refcnt = 0) : (c.buf i).lock = none := by
  by_contra hl
  obtain ⟨t, ht⟩ := Option.ne_none_iff_exists'.mp hl
  exact h.refcnt_pos (.inl ht) hz

lemma uniq_of_cacheStep (h : Refs c f) (hs : CacheStep t c f c' f') {i j : BufId} {b : ℕ}
    (hi : (c'.buf i).blockno = some b) (hj : (c'.buf j).blockno = some b) : i = j := by
  rcases hs.blocknos h.lru with hsame | ⟨v, x, hno, hv, hother⟩
  · rw [hsame] at hi hj
    exact h.uniq i j b hi hj
  · -- a buffer other than the recycled one has a block that was cached before
    have hne : ∀ k ≠ v, (c'.buf k).blockno ≠ some x := fun k hk => by
      rw [hother k hk]
      exact hno k
    by_cases hbx : b = x
    · subst hbx
      have hiv : i = v := by_contra fun hne' => hne i hne' hi
      have hjv : j = v := by_contra fun hne' => hne j hne' hj
      rw [hiv, hjv]
    · have hold : ∀ k, (c'.buf k).blockno = some b → (c.buf k).blockno = some b := by
        intro k hk
        rcases eq_or_ne k v with rfl | hkv
        · exact absurd (Option.some.inj (hk.symm.trans hv)) hbx
        · rwa [hother k hkv] at hk
      exact h.uniq i j b (hold i hi) (hold j hj)

lemma refcnt_of_bufStep (h : Refs c f) (hbuf : ∀ j ≠ i, c'.buf j = c.buf j)
    (hcall : ∀ u ≠ t, f' u = f u) (hb : BufStep t i (c.buf i) (f t) (c'.buf i) (f' t)) (j : BufId) :
    (c'.buf j).refcnt = refs c' f' j := by
  have hf' : update f t (f' t) = f' :=
    update_eq_iff.mpr ⟨rfl, fun u hu => (hcall u hu).symm⟩
  have hw := waiting_update f t (f' t) j
  have hg := leaving_update f t (f' t) j
  have hold := h.refcnt j
  rw [hf'] at hw hg
  rw [refs] at hold ⊢
  rcases eq_or_ne j i with rfl | hj
  · have hcnt := hb.refcnt fun hk => h.refcnt_pos_of_releasing hk
    omega
  · obtain ⟨⟨hk, -, hk'⟩, hl, hl'⟩ := hb.call_ne hj
    rw [if_neg hk, if_neg hl] at hw
    rw [if_neg hk', if_neg hl'] at hg
    rw [hbuf j hj]
    omega

/-- A buffer that is not valid is clean, so a request for it is a read. -/
lemma fill (h : Refs c f) {d d' : Disk} {b : Buf n} (hv : (c.buf i).valid = false)
    (hd : iderw d (c.buf i) = some (d', b)) :
    (c.buf i).dirty = false ∧ d' = d ∧ ∃ x, (c.buf i).blockno = some x ∧
      b = { c.buf i with data := d x, valid := true } := by
  have hclean : (c.buf i).dirty = false := by
    by_contra hne
    have hv' := h.dirty i (by simpa using hne)
    simp [hv] at hv'
  obtain ⟨x, -, hx, hd, hb⟩ := iderw_clean hclean hd
  exact ⟨hclean, hd, x, hx, hb⟩

lemma filling_of_cacheStep (h : Refs c f) (hs : CacheStep t c f c' f') {u : Tid n} {j : BufId}
    (hu : f' u = .filling j) : (c'.buf j).lock = some u := by
  rcases eq_or_ne u t with rfl | hut
  · rcases hs.bufStep with ⟨rfl, rfl⟩ | ⟨i, -, -, hb⟩
    · exact h.filling u j hu
    · obtain ⟨rfl, hl⟩ := hb.filling hu
      exact hl
  · obtain ⟨hcall, hlock⟩ := hs.of_ne hut j
    exact hlock.mpr (h.filling u j (hcall ▸ hu))

lemma valid_of_cacheStep (h : Refs c f) (hs : CacheStep t c f c' f') {u : Tid n} {j : BufId}
    (hl : (c'.buf j).lock = some u) (hu : f' u ≠ .filling j) : (c'.buf j).valid = true := by
  rcases hs.bufStep with ⟨rfl, rfl⟩ | ⟨i, hbuf, hcall, hb⟩
  · exact h.valid u j hl hu
  rcases eq_or_ne u t with rfl | hut
  · rcases eq_or_ne j i with rfl | hj
    · exact hb.valid_self h.lock_eq_none hl hu (h.valid u j)
    · rw [hbuf j hj] at hl ⊢
      exact h.valid u j hl (hb.call_ne hj).1.2.1
  · obtain ⟨hcall', hlock⟩ := hs.of_ne hut j
    have hl' := hlock.mp hl
    have hv := h.valid u j hl' (hcall' ▸ hu)
    rcases eq_or_ne j i with rfl | hj
    · exact hb.valid_keep h.lock_eq_none hl' hv
    · rwa [hbuf j hj]

end Refs

theorem refs_of_cacheStep {t : Tid n} {c c' : Cache n} {f f' : Tid n → Call} (h : Refs c f)
    (hs : CacheStep t c f c' f') : Refs c' f' where
  lru i := hs.lru (h.lru i)
  uniq _ _ _ hi hj := h.uniq_of_cacheStep hs hi hj
  refcnt j := by
    rcases hs.bufStep with ⟨rfl, rfl⟩ | ⟨i, hbuf, hcall, hb⟩
    · exact h.refcnt j
    · exact h.refcnt_of_bufStep hbuf hcall hb j
  filling _ _ hu := h.filling_of_cacheStep hs hu
  valid _ _ hl hu := h.valid_of_cacheStep hs hl hu
  dirty j := by
    rcases hs.bufStep with ⟨rfl, rfl⟩ | ⟨i, hbuf, -, hb⟩
    · exact h.dirty j
    · rcases eq_or_ne j i with rfl | hj
      · exact hb.dirty (h.dirty j)
      · rw [hbuf j hj]
        exact h.dirty j

/-- A buffer that a process refers to keeps its block. -/
lemma CacheStep.blockno_of_ref {t u : Tid n} {c c' : Cache n} {f f' : Tid n → Call}
    (hs : CacheStep t c f c' f') (h : Refs c f) {i : BufId} (hr : Ref c f u i) :
    (c'.buf i).blockno = (c.buf i).blockno :=
  (hs.blockno i).resolve_right fun hz => h.refcnt_pos hr hz.1

/-! ### The steps of the machine -/

/-- The cache is in order, and a process inside `log_write` holds the buffer. -/
structure CacheOk (s : Machine n) : Prop where
  refs : Refs s.cache s.call
  checked : ∀ t i, s.mode t = .checked i → (s.cache.buf i).lock = some t ∧ s.call t = .none

variable {s : Machine n}

/-- The holder of a buffer between two calls finds it valid. -/
lemma CacheOk.valid (h : CacheOk s) {t : Tid n} {i : BufId}
    (hc : s.call t = .none) (hl : (s.cache.buf i).lock = some t) :
    (s.cache.buf i).valid = true :=
  h.refs.valid t i hl (by simp [hc])

variable {L : Layout} {s' : Machine n}

lemma cacheStep_of_phaseTo {t : Tid n} {w : Caller} {p : Phase}
    (hc : s.call t = .none) (ht : PhaseTo L s t w p s') :
    CacheStep t s.cache s.call s'.cache s'.call := by
  cases ht with
  | read _ hb => exact .bget hc hb
  | release _ hl | decode hl => exact .release hc hl
  | write _ hl => exact .write hc hl ⟨rfl, rfl, rfl, rfl⟩
  | logged => exact .same
  | installed => exact .same
  | endCommit => exact .same
  | endRecover => exact .same

/-- A buffer that is not valid is clean, so the request is a read. -/
lemma CacheOk.fill (h : CacheOk s) {i : BufId} {d : Disk} {b : Buf n}
    (hv : (s.cache.buf i).valid = false) (hd : iderw s.disk (s.cache.buf i) = some (d, b)) :
    (s.cache.buf i).dirty = false ∧ d = s.disk ∧ ∃ x, (s.cache.buf i).blockno = some x ∧
      b = { s.cache.buf i with data := s.disk x, valid := true } :=
  h.refs.fill hv hd

variable {a : Act n}

lemma cacheStep_of_trans (h : CacheOk s) (ht : Trans L s a s') {t : Tid n} (ha : a.actor = some t) :
    CacheStep t s.cache s.call s'.cache s'.call := by
  cases ht with
  | crash => cases ha
  | lock hc hl => cases ha; exact .lock hc hl
  | cached hc hv => cases ha; exact .cached hc hv
  | fill hc hv hd =>
    cases ha
    obtain ⟨hclean, -, x, -, rfl⟩ := h.fill hv hd
    exact .fill hc hclean ⟨rfl, rfl, rfl, rfl⟩ hclean
  | unref hc => cases ha; exact .unref hc
  | phase hc _ hp => cases ha; exact cacheStep_of_phaseTo hc hp
  | bread hc _ _ hb => cases ha; exact .bget hc hb
  | modify hc _ hl => cases ha; exact .write hc hl ⟨rfl, rfl, rfl, h.valid hc hl⟩
  | @logWrite _ i _ hm _ =>
    cases ha
    obtain ⟨hl, hc⟩ := h.checked t i hm
    exact .write hc hl ⟨rfl, rfl, rfl, h.valid hc hl⟩
  | brelse hc _ _ hl => cases ha; exact .release hc hl
  | sleep | beginOp | wake | logCheck | endLast | endOp => exact .same

/-- A step of `t` takes no other process into `log_write`. -/
lemma checked_of_ne (ht : Trans L s a s')
    {t u : Tid n} (ha : a.actor = some t) (hu : u ≠ t) {i : BufId} (hm : s'.mode u = .checked i) :
    s.mode u = .checked i := by
  cases ht with
  | crash => cases ha
  | lock | cached | fill | unref | bread | modify | brelse => exact hm
  | phase _ _ hp =>
    cases ha
    cases hp with
    | endCommit =>
      simp only [update_of_ne hu] at hm
      exact (wakeup_eq_iff (by simp) (by simp)).mp hm
    | endRecover => cases hm
    | _ => simpa only [update_of_ne hu] using hm
  | endOp =>
    cases ha
    simp only [update_of_ne hu] at hm
    exact (wakeup_eq_iff (by simp) (by simp)).mp hm
  | _ =>
    cases ha
    simpa only [update_of_ne hu] using hm

/-- The process that is past the tests of `log_write` after its step has just made
them. -/
lemma checked_self (h : CacheOk s)
    (ht : Trans L s a s') {t : Tid n} (ha : a.actor = some t) {i : BufId}
    (hm : s'.mode t = .checked i) : (s'.cache.buf i).lock = some t ∧ s'.call t = .none := by
  cases ht with
  | crash => cases ha
  | lock hc | cached hc | fill hc | unref hc =>
    cases ha
    have hnone := (h.checked t i hm).2
    rw [hc] at hnone
    cases hnone
  | phase _ _ hp => cases ha; cases hp <;> simp at hm
  | bread _ hmt | brelse _ hmt => cases ha; rcases hmt with hmt | hmt <;> simp [hmt] at hm
  | modify _ hmt => cases ha; simp [hmt] at hm
  | @logCheck _ j hc _ hl =>
    cases ha
    obtain rfl : j = i := by simpa using hm
    exact ⟨hl, hc⟩
  | sleep | beginOp | wake | logWrite | endLast | endOp => cases ha; simp at hm

lemma cacheOk_powerOn (d : Disk) : CacheOk (powerOn d : Machine n) where
  refs := refs_binit
  checked t i h := by
    simp only [powerOn] at h
    split at h <;> cases h

theorem cacheOk_of_trans (h : CacheOk s) (ht : Trans L s a s') : CacheOk s' := by
  cases ha : a.actor with
  | none =>
    cases ht <;> cases ha
    exact cacheOk_powerOn s.disk
  | some t =>
    have hs := cacheStep_of_trans h ht ha
    refine ⟨refs_of_cacheStep h.refs hs, fun u i hm => ?_⟩
    rcases eq_or_ne u t with rfl | hne
    · exact checked_self h ht ha hm
    · obtain ⟨hc, hl⟩ := hs.of_ne hne i
      rw [hc, hl]
      exact h.checked u i (checked_of_ne ht ha hne hm)

end Xv6.Fs
