import Xv6.Fs.Cache
import Xv6.Transition.Linked
import Xv6.Transition.Run

/-!
The list of the buffer cache (`bio.c`): `bcache.head`, `next` and `prev`.

`Cache.lru` is a list; here it is made of links, and `bget` and `brelse` follow and change them.
Processes call the two in any order and hold any number of buffers; `step` takes a process from
one place where it may wait to the next.

* `Bcache`, `binit`, `bget`, `unref`: the cache and its sections under `bcache.lock`.
* `State`, `step`: the processes.
* `Ordered`: the list through the links, and its order.
* `lru_of_run`: the list in every run, and what `bget` recycles.
-/

namespace Xv6.Fs.Lru

open Transition Function

/-- The buffer needs to be written to disk. -/
def B_DIRTY : ℕ := 4

/-- `struct buf`, without its data; `lock` is the process that holds it. -/
structure Buf where
  flags : ℕ := 0
  dev : ℕ := 0
  blockno : ℕ := 0
  refcnt : ℕ := 0
  lock : Option ℕ := none

/-- `bcache`; in the links, `none` is `head`. -/
structure Bcache where
  buf : BufId → Buf
  links : Links BufId

/-- Create linked list of buffers. -/
def binit : Bcache where
  buf _ := {}
  links := (List.finRange NBUF).foldl Links.insert Links.empty

namespace Bcache

def setBuf (c : Bcache) (b : BufId) (x : Buf) : Bcache := { c with buf := update c.buf b x }

/-- Is the block cached in this buffer? -/
def caches (c : Bcache) (dev blockno : ℕ) (b : BufId) : Bool :=
  (c.buf b).dev == dev && (c.buf b).blockno == blockno

/-- Even if `refcnt` is 0, `B_DIRTY` indicates a buffer is in use. -/
def unused (c : Bcache) (b : BufId) : Bool :=
  (c.buf b).refcnt == 0 && (c.buf b).flags &&& B_DIRTY == 0

/-- A buffer that is already cached. -/
def hit (c : Bcache) (b : BufId) : Bcache :=
  c.setBuf b { c.buf b with refcnt := ((c.buf b).refcnt + 1) % 2 ^ 32 }

/-- Recycle an unused buffer. -/
def recycle (c : Bcache) (dev blockno : ℕ) (b : BufId) : Bcache :=
  c.setBuf b { c.buf b with dev := dev, blockno := blockno, flags := 0, refcnt := 1 }

/-- The section of `bget` under `bcache.lock`: the buffer whose lock it then acquires. -/
def bget (c : Bcache) (dev blockno : ℕ) : Option (Bcache × BufId) :=
  match walk c.links.next (c.caches dev blockno) (NBUF + 1) (c.links.next none) with
  | some (some b) => some (c.hit b, b)
  | some none =>
    match walk c.links.prev c.unused (NBUF + 1) (c.links.prev none) with
    | some (some b) => some (c.recycle dev blockno b, b)
    | some none => none -- panic("bget: no buffers")
    | none => none -- the search does not end
  | none => none

/-- `refcnt` after `brelse`. -/
def released (c : Bcache) (b : BufId) : ℕ := ((c.buf b).refcnt + 2 ^ 32 - 1) % 2 ^ 32

/-- The section of `brelse` under `bcache.lock`. -/
def unref (c : Bcache) (b : BufId) : Bcache :=
  let c' := c.setBuf b { c.buf b with refcnt := c.released b }
  -- no one is waiting for it
  if c.released b = 0 then { c' with links := (c'.links.remove b).insert b } else c'

end Bcache

/-! ### The processes -/

/-- Where a process is. -/
inductive Pc
  | idle
  /-- in `bget`, before `acquiresleep` returns -/
  | locking (b : BufId)
  /-- in `brelse`, after `releasesleep` -/
  | releasing (b : BufId)
  deriving DecidableEq, Repr

structure State where
  cache : Bcache
  pc : ℕ → Pc

inductive Action
  /-- a process calls `bget` -/
  | bget (p dev blockno : ℕ)
  /-- `acquiresleep` returns -/
  | locked (p : ℕ)
  /-- the flags of a buffer change, in `iderw`, `ideintr`, `bwrite` or `log_write` -/
  | flags (b : BufId) (f : ℕ)
  /-- a process calls `brelse` -/
  | brelse (p : ℕ) (b : BufId)
  /-- `brelse` gets `bcache.lock` -/
  | unref (p : ℕ)

def State.setPc (s : State) (c : Bcache) (p : ℕ) (pc : Pc) : State := ⟨c, update s.pc p pc⟩

@[simp] lemma State.setPc_cache (s : State) (c : Bcache) (p : ℕ) (pc : Pc) :
    (s.setPc c p pc).cache = c := rfl

def step (s : State) : Action → Option State
  | .bget p dev blockno =>
    if s.pc p = .idle then
      (s.cache.bget dev blockno).map fun r => s.setPc r.1 p (.locking r.2)
    else none
  | .locked p =>
    match s.pc p with
    | .locking b =>
      if (s.cache.buf b).lock = none then
        some (s.setPc (s.cache.setBuf b { s.cache.buf b with lock := some p }) p .idle)
      else none
    | _ => none
  | .flags b f => some { s with cache := s.cache.setBuf b { s.cache.buf b with flags := f } }
  | .brelse p b =>
    -- otherwise panic("brelse")
    if s.pc p = .idle ∧ (s.cache.buf b).lock = some p then
      some (s.setPc (s.cache.setBuf b { s.cache.buf b with lock := none }) p (.releasing b))
    else none
  | .unref p =>
    match s.pc p with
    | .releasing b => some (s.setPc (s.cache.unref b) p .idle)
    | _ => none

/-- After `binit`. -/
def start : State := ⟨binit, fun _ => .idle⟩

/-! ### The order of the list -/

/-- The buffer that a step releases to `refcnt` 0. -/
def zeroed (e : State × Action) : Option BufId :=
  match e.2 with
  | .unref p =>
    match e.1.pc p with
    | .releasing b => if e.1.cache.released b = 0 then some b else none
    | _ => none
  | _ => none

/-- The releases to `refcnt` 0, oldest first. -/
def releases (tr : List (State × Action)) : List BufId := tr.filterMap zeroed

/-- The number of the most recent release of a buffer, 0 if there was none. -/
def lastRelease (rs : List BufId) (b : BufId) : ℕ := rs.length - rs.reverse.idxOf b

section LastRelease

variable {rs : List BufId} {x y : BufId}

lemma lastRelease_le : lastRelease rs x ≤ rs.length := Nat.sub_le ..

lemma lastRelease_self : lastRelease (rs ++ [x]) x = rs.length + 1 := by
  simp [lastRelease]

lemma lastRelease_of_ne (h : y ≠ x) : lastRelease (rs ++ [x]) y = lastRelease rs y := by
  rw [lastRelease, lastRelease, List.reverse_append, List.reverse_singleton,
    List.singleton_append, List.idxOf_cons_ne _ h.symm, List.length_append, List.length_singleton]
  omega

end LastRelease

/-- `y` comes after `x`: it was not released since `x` was. -/
def Before (rs : List BufId) (x y : BufId) : Prop :=
  lastRelease rs y < lastRelease rs x ∨ lastRelease rs y = 0

/-- The list through the links has every buffer once, the most recent releases first. -/
structure Ordered (rs : List BufId) (k : Links BufId) (l : List BufId) : Prop where
  nodup : l.Nodup
  mem : ∀ b, b ∈ l
  linked : Linked k l
  pairwise : l.Pairwise (Before rs)

section Ordered

variable {rs l : List BufId} {k : Links BufId} {b : BufId}

lemma ordered_binit : Ordered [] binit.links (List.finRange NBUF).reverse where
  nodup := List.nodup_reverse.mpr (List.nodup_finRange _)
  mem b := List.mem_reverse.mpr (List.mem_finRange b)
  linked := by
    have hnodup : ((List.finRange NBUF).reverse ++ []).Nodup := by
      rw [List.append_nil]
      exact List.nodup_reverse.mpr (List.nodup_finRange _)
    have hlinked : Linked binit.links _ := Linked.empty.foldl_insert hnodup
    rwa [List.append_nil] at hlinked
  pairwise := List.pairwise_of_forall fun _ _ => .inr rfl

lemma Ordered.length (h : Ordered rs k l) : l.length = NBUF := by
  have huniv : l.toFinset = Finset.univ :=
    Finset.eq_univ_of_forall fun b => List.mem_toFinset.mpr (h.mem b)
  rw [← List.toFinset_card_of_nodup h.nodup, huniv, Finset.card_univ, Fintype.card_fin]

/-- **A release**: the buffer is moved to the head. -/
lemma Ordered.release (h : Ordered rs k l) (b : BufId) :
    Ordered (rs ++ [b]) ((k.remove b).insert b) (b :: l.erase b) := by
  obtain ⟨u, v, hbu, rfl, herase⟩ := List.exists_erase_eq (h.mem b)
  have hnodup := h.nodup.erase b
  have hb : b ∉ (u ++ b :: v).erase b := h.nodup.not_mem_erase
  rw [herase] at hnodup hb ⊢
  refine ⟨List.nodup_cons.mpr ⟨hb, hnodup⟩, fun c => ?_, ?_,
    List.pairwise_cons.mpr ⟨fun c hc => ?_, ?_⟩⟩
  · have hc := h.mem c
    simp only [List.mem_append, List.mem_cons] at hc ⊢
    tauto
  · exact (h.linked.remove h.nodup).insert hnodup hb
  · left
    rw [lastRelease_self, lastRelease_of_ne (ne_of_mem_of_not_mem hc hb)]
    exact Nat.lt_succ_of_le lastRelease_le
  · have hsub : (u ++ v).Sublist (u ++ b :: v) :=
      (List.Sublist.refl u).append (List.sublist_cons_self b v)
    refine (h.pairwise.sublist hsub).imp_of_mem fun {x y} hx hy hxy => ?_
    rwa [Before, lastRelease_of_ne (ne_of_mem_of_not_mem hx hb),
      lastRelease_of_ne (ne_of_mem_of_not_mem hy hb)]

/-! ### Runs -/

variable {s t : State} {a : Action}

lemma links_bget {c c' : Bcache} {dev blockno : ℕ} {b : BufId}
    (h : c.bget dev blockno = some (c', b)) : c'.links = c.links := by
  rw [Bcache.bget] at h
  split at h
  · cases h
    rfl
  · split at h <;> cases h
    rfl
  · cases h

lemma links_unref_zero {c : Bcache} {b : BufId} (h : c.released b = 0) :
    (c.unref b).links = (c.links.remove b).insert b := by
  rw [Bcache.unref, if_pos h]
  rfl

lemma links_unref_pos {c : Bcache} {b : BufId} (h : c.released b ≠ 0) :
    (c.unref b).links = c.links := by
  rw [Bcache.unref, if_neg h]
  rfl

/-- **What a step does to the links**: only a release to `refcnt` 0 changes them. -/
lemma links_step (h : step s a = some t) :
    (zeroed (s, a) = none ∧ t.cache.links = s.cache.links) ∨
      ∃ b, zeroed (s, a) = some b ∧ t.cache.links = (s.cache.links.remove b).insert b := by
  cases a with
  | bget p dev blockno =>
    left
    rw [step] at h
    split_ifs at h
    obtain ⟨⟨c, b⟩, hget, rfl⟩ := Option.map_eq_some_iff.mp h
    exact ⟨rfl, links_bget hget⟩
  | locked p =>
    left
    rw [step] at h
    split at h
    · split_ifs at h
      cases h
      exact ⟨rfl, rfl⟩
    · cases h
  | flags b f =>
    left
    cases h
    exact ⟨rfl, rfl⟩
  | brelse p b =>
    left
    rw [step] at h
    split_ifs at h
    cases h
    exact ⟨rfl, rfl⟩
  | unref p =>
    rw [step] at h
    split at h
    case h_1 b hb =>
      rw [Option.some.injEq] at h
      subst h
      have hzeroed : zeroed (s, .unref p) = if s.cache.released b = 0 then some b else none := by
        simp only [zeroed, hb]
      by_cases hz : s.cache.released b = 0
      · right
        exact ⟨b, by rw [hzeroed, if_pos hz], by rw [State.setPc_cache, links_unref_zero hz]⟩
      · left
        exact ⟨by rw [hzeroed, if_neg hz], by rw [State.setPc_cache, links_unref_pos hz]⟩
    case h_2 => cases h

lemma exists_ordered {tr : List (State × Action)} (hr : Run step start tr s) :
    ∃ l, Ordered (releases tr) s.cache.links l := by
  have h0 : ∃ l, Ordered (releases []) start.cache.links l := ⟨_, ordered_binit⟩
  refine hr.snoc_induction (P := fun tr s => ∃ l, Ordered (releases tr) s.cache.links l) h0 ?_
  rintro tr s a t - ⟨l, hl⟩ ha
  rw [releases, List.filterMap_append]
  rcases links_step ha with ⟨hz, hlinks⟩ | ⟨b, hz, hlinks⟩
  · rw [List.filterMap_cons_none hz, List.filterMap_nil, List.append_nil, hlinks]
    exact ⟨l, hl⟩
  · rw [List.filterMap_cons_some hz, List.filterMap_nil, hlinks]
    exact ⟨_, hl.release b⟩

/-- On a miss, both searches of `bget` go through the whole list, or up to the buffer that is
recycled. -/
lemma Ordered.bget_miss (h : Ordered rs s.cache.links l) {dev blockno : ℕ}
    (hmiss : ∀ b, s.cache.caches dev blockno b = false) :
    s.cache.bget dev blockno =
      (l.reverse.find? s.cache.unused).map fun b => (s.cache.recycle dev blockno b, b) := by
  have hnone : l.find? (s.cache.caches dev blockno) = none :=
    List.find?_eq_none.mpr fun b _ => by simp [hmiss b]
  have hfuel : l.length < NBUF + 1 := Nat.lt_succ_of_le h.length.le
  rw [Bcache.bget, h.linked.walk_next hfuel, hnone, h.linked.walk_prev hfuel]
  cases l.reverse.find? s.cache.unused <;> rfl

end Ordered

/-- **The list of the buffer cache** in every run: `l` is the list from `head` through `next`. -/
theorem lru_of_run {tr : List (State × Action)} {s : State} (hr : Run step start tr s) :
    ∃ l : List BufId, l.Nodup ∧ (∀ b, b ∈ l) ∧
      (List.range (NBUF + 1)).map (fun i => s.cache.links.next^[i + 1] none) =
        l.map some ++ [none] ∧
      (∀ x, s.cache.links.prev (s.cache.links.next x) = x) ∧
      (∀ x, s.cache.links.next (s.cache.links.prev x) = x) ∧
      l.Pairwise (fun x y => lastRelease (releases tr) y < lastRelease (releases tr) x ∨
        lastRelease (releases tr) y = 0) ∧
      ∀ p dev blockno, s.pc p = .idle → (∀ b, s.cache.caches dev blockno b = false) →
        step s (.bget p dev blockno) = (l.reverse.find? s.cache.unused).map fun b =>
          s.setPc (s.cache.recycle dev blockno b) p (.locking b) := by
  obtain ⟨l, hl⟩ := exists_ordered hr
  refine ⟨l, hl.nodup, hl.mem, ?_, fun x => hl.linked.prev_next fun b _ => hl.mem b,
    fun x => hl.linked.next_prev fun b _ => hl.mem b, hl.pairwise, ?_⟩
  · rw [← hl.length]
    exact hl.linked.iterate_next
  · intro p dev blockno hp hmiss
    rw [step, if_pos hp, hl.bget_miss hmiss, Option.map_map]
    rfl

/-- Process 0 reads block 7 and releases it; then the first two processes read blocks 8 and 7. -/
def twoReaders : List Action :=
  [.bget 0 1 7, .locked 0, .brelse 0 0, .unref 0, .bget 0 1 8, .bget 1 1 7, .locked 1,
    .flags 0 B_DIRTY, .brelse 1 0, .unref 1]

theorem lru_of_run_twoReaders : ∃ s, exec step start twoReaders = some s ∧
    ∃ l : List BufId, l.map some ++ [none] =
        (List.range (NBUF + 1)).map (fun i => s.cache.links.next^[i + 1] none) ∧
      l.Pairwise (fun x y => lastRelease [0, 0] y < lastRelease [0, 0] x ∨
        lastRelease [0, 0] y = 0) := by
  obtain ⟨s, hs, hreleases⟩ : ∃ s, exec step start twoReaders = some s ∧
      releases (traceOf step start twoReaders) = [0, 0] := by
    decide +kernel
  obtain ⟨l, -, -, hnext, -, -, horder, -⟩ := lru_of_run (run_traceOf hs)
  rw [hreleases] at horder
  exact ⟨s, hs, l, hnext.symm, horder⟩

end Xv6.Fs.Lru
