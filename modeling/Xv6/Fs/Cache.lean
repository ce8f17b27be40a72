import Xv6.Fs.Block

/-!
The buffer cache (`bio.c`) and the disk driver's interface (`iderw`).

A buffer's `blockno` is `none` until `bget` first recycles it (its `dev` is 0 and
no request names that device).  `lru` is the list from `bcache.head` through
`next`, the most recently used buffer first.  The sections of `bget` and `brelse`
under `bcache.lock` are functions of the cache; a call that sleeps is cut at the
sleep, where `acquiresleep` waits for the buffer's lock and `iderw` for the disk.

* `bget`, `iderw`, `bwrite`, `unref`: the sections; a panic is `none`.
* `BgetTo`, `bgetTo_of_bget`: what `bget` can do.
* `iderw_dirty`, `iderw_clean`, `bwrite_eq_some`: what a request can do.
-/

namespace Xv6.Fs

open Function

/-- The processes; process `0` is the first one. -/
abbrev Tid (n : ℕ) : Type := Fin (n + 1)

abbrev BufId : Type := Fin NBUF

/-- `struct buf`, without its links. -/
structure Buf (n : ℕ) where
  blockno : Option ℕ := none
  valid : Bool := false
  dirty : Bool := false
  refcnt : ℕ := 0
  lock : Option (Tid n) := none
  data : Block := fun _ => 0

structure Cache (n : ℕ) where
  buf : BufId → Buf n
  lru : List BufId

variable {n : ℕ}

/-- `binit` puts each buffer at the head of the list in turn. -/
def binit : Cache n where
  buf _ := {}
  lru := (List.finRange NBUF).reverse

namespace Cache

def setBuf (c : Cache n) (i : BufId) (b : Buf n) : Cache n :=
  { c with buf := update c.buf i b }

@[simp] lemma setBuf_self (c : Cache n) (i : BufId) (b : Buf n) : (c.setBuf i b).buf i = b :=
  update_self ..

@[simp] lemma setBuf_of_ne {i j : BufId} (h : j ≠ i) (c : Cache n) (b : Buf n) :
    (c.setBuf i b).buf j = c.buf j :=
  update_of_ne h ..

/-- The search for the block, from the most recently used buffer. -/
def find (c : Cache n) (b : ℕ) : Option BufId :=
  c.lru.find? fun i => (c.buf i).blockno = some b

/-- The search for a buffer to recycle, from the least recently used one. -/
def victim (c : Cache n) : Option BufId :=
  c.lru.reverse.find? fun i => (c.buf i).refcnt = 0 && !(c.buf i).dirty

/-- The section of `brelse` under `bcache.lock`. -/
def unref (c : Cache n) (i : BufId) : Cache n :=
  let c' := c.setBuf i { c.buf i with refcnt := (c.buf i).refcnt - 1 }
  if (c.buf i).refcnt - 1 = 0 then { c' with lru := i :: c'.lru.erase i } else c'

@[simp] lemma unref_buf (c : Cache n) (i : BufId) :
    (c.unref i).buf = update c.buf i { c.buf i with refcnt := (c.buf i).refcnt - 1 } := by
  simp only [unref]
  split <;> rfl

/-- A release keeps the buffers on the list. -/
lemma mem_unref_lru {c : Cache n} {i j : BufId} (h : j ∈ c.lru) : j ∈ (c.unref i).lru := by
  simp only [unref]
  split
  · rcases eq_or_ne j i with rfl | hne
    · exact List.mem_cons_self
    · exact List.mem_cons_of_mem _ ((List.mem_erase_of_ne hne).mpr h)
  · exact h

end Cache

/-- The section of `bget` under `bcache.lock`: the buffer whose lock it then
waits for. -/
def bget (c : Cache n) (b : ℕ) : Option (Cache n × BufId) :=
  match c.find b with
  | some i => some (c.setBuf i { c.buf i with refcnt := (c.buf i).refcnt + 1 }, i)
  | none =>
    match c.victim with
    | some i =>
      some (c.setBuf i
        { c.buf i with blockno := some b, valid := false, dirty := false, refcnt := 1 }, i)
    | none => none

/-- A request to the disk, complete: a dirty buffer is written, another one that
is not valid is read.  The panics are those of `iderw` and `idestart`. -/
def iderw (d : Disk) (b : Buf n) : Option (Disk × Buf n) :=
  match b.blockno with
  | none => none
  | some x =>
    if FSSIZE ≤ x then none
    else if b.dirty then
      some (update d x b.data, { b with valid := true, dirty := false })
    else if b.valid then none
    else some (d, { b with data := d x, valid := true })

def bwrite (d : Disk) (t : Tid n) (b : Buf n) : Option (Disk × Buf n) :=
  if b.lock = some t then iderw d { b with dirty := true } else none

/-! ### What the sections can do -/

/-- The two ways of `bget`: the block is cached in `i`, or it is not cached and
`i` is recycled for it. -/
inductive BgetTo (c : Cache n) (b : ℕ) (i : BufId) : Cache n → Prop where
  | hit : (c.buf i).blockno = some b →
      BgetTo c b i (c.setBuf i { c.buf i with refcnt := (c.buf i).refcnt + 1 })
  | miss : (∀ j ∈ c.lru, (c.buf j).blockno ≠ some b) → (c.buf i).refcnt = 0 →
      (c.buf i).dirty = false →
      BgetTo c b i (c.setBuf i
        { c.buf i with blockno := some b, valid := false, dirty := false, refcnt := 1 })

lemma bgetTo_of_bget {c c' : Cache n} {b : ℕ} {i : BufId} (h : bget c b = some (c', i)) :
    BgetTo c b i c' := by
  rw [bget] at h
  split at h
  case h_1 j hj =>
    obtain ⟨rfl, rfl⟩ : _ ∧ j = i := by simpa using h
    exact .hit (by simpa using List.find?_some hj)
  case h_2 hnone =>
    have hmiss : ∀ j ∈ c.lru, (c.buf j).blockno ≠ some b := by
      intro j hj
      simpa using List.find?_eq_none.mp hnone j hj
    split at h
    · rename_i j hj
      obtain ⟨rfl, rfl⟩ : _ ∧ j = i := by simpa using h
      have hv : (c.buf j).refcnt = 0 ∧ (c.buf j).dirty = false := by
        simpa using List.find?_some hj
      exact .miss hmiss hv.1 hv.2
    · exact absurd h (by simp)

variable {d d' : Disk} {b b' : Buf n}

lemma iderw_dirty (hd : b.dirty = true) (h : iderw d b = some (d', b')) :
    ∃ x < FSSIZE, b.blockno = some x ∧ d' = update d x b.data ∧
      b' = { b with valid := true, dirty := false } := by
  rw [iderw] at h
  cases hb : b.blockno with
  | none => simp [hb] at h
  | some x =>
    simp only [hb, hd, if_true, Option.ite_none_left_eq_some, not_le, Option.some.injEq,
      Prod.mk.injEq] at h
    obtain ⟨hx, rfl, rfl⟩ := h
    exact ⟨x, hx, rfl, rfl, rfl⟩

lemma iderw_clean (hd : b.dirty = false) (h : iderw d b = some (d', b')) :
    ∃ x < FSSIZE, b.blockno = some x ∧ d' = d ∧ b' = { b with data := d x, valid := true } := by
  rw [iderw] at h
  cases hb : b.blockno with
  | none => simp [hb] at h
  | some x =>
    simp only [hb, hd, Bool.false_eq_true, if_false, Option.ite_none_left_eq_some, not_le,
      Option.some.injEq, Prod.mk.injEq] at h
    obtain ⟨hx, _, rfl, rfl⟩ := h
    exact ⟨x, hx, rfl, rfl, by rw [hd]⟩

/-- `bwrite` writes the buffer's data to its block and leaves it valid and clean. -/
lemma bwrite_eq_some {t : Tid n} (h : bwrite d t b = some (d', b')) :
    b.lock = some t ∧ ∃ x < FSSIZE, b.blockno = some x ∧ d' = update d x b.data ∧
      b' = { b with valid := true, dirty := false } := by
  rw [bwrite, Option.ite_none_right_eq_some] at h
  obtain ⟨x, hx, hb, hd, he⟩ := iderw_dirty rfl h.2
  exact ⟨h.1, x, hx, hb, hd, he⟩

end Xv6.Fs
