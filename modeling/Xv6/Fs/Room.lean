import Xv6.Fs.Ledger
import Xv6.Proc.Table

/-!
Room in the buffer cache (`bget`).

`bget` finds no buffer when each of the `NBUF` buffers is in use by a process or is
dirty.  Only the blocks of the open group are dirty, so the cache has room as long as
these and the buffers in use are fewer than `NBUF`.  Nothing keeps the processes to that:
there can be `NPROC` of them, and each can be waiting for the disk with a buffer of its
own (`cache_runs_dry`).

* `Dirt`: a dirty buffer is for a block in the header, and during `install_trans` for one
  that is still to be written.
* `inUse`: the buffers that processes hold, wait for or are about to give back.
* `cache_has_room`: `bget` succeeds when there are few enough of both.
-/

namespace Xv6.Fs

open Transition Function

variable {n : ℕ} {L : Layout} {d₀ : Disk} {s s' : Machine n}

/-! ### Dirty buffers -/

/-- The logged blocks whose buffers may be dirty at a point of `commit` or
`recover_from_log`. -/
def Phase.pending (lh : List ℕ) : Phase → List ℕ
  | .loop .installTrans tail | .loopLog .installTrans tail _ | .loopBoth .installTrans tail _ _ =>
    lh.drop tail
  | .loopCopied .installTrans tail _ _ | .loopLast .installTrans tail _ => lh.drop (tail + 1)
  | .readHead | .gotHead _ | .writeHead false | .fillHead false _ | .wroteHead false _ | .finish =>
    []
  | _ => lh

/-- Dirty buffers are for logged blocks. -/
structure Dirt (s : Machine n) : Prop where
  listed : ∀ i, (s.cache.buf i).dirty = true →
    ∃ b ∈ s.log.lh, (s.cache.buf i).blockno = some b
  pending : ∀ t w p, s.mode t = .busy w p → ∀ i b, (s.cache.buf i).dirty = true →
    (s.cache.buf i).blockno = some b → b ∈ p.pending s.log.lh

variable {c : Cache n} {i : BufId}

lemma setBuf_dirty {j : BufId} {x : Buf n}
    (hx : x.dirty = true → (c.buf j).dirty = true ∧ x.blockno = (c.buf j).blockno)
    (hd : ((c.setBuf j x).buf i).dirty = true) :
    (c.buf i).dirty = true ∧ ((c.setBuf j x).buf i).blockno = (c.buf i).blockno := by
  rcases eq_or_ne i j with rfl | hne
  · rw [Cache.setBuf_self] at hd ⊢
    exact hx hd
  · rw [Cache.setBuf_of_ne hne] at hd ⊢
    exact ⟨hd, rfl⟩

lemma BgetTo.dirty {c' : Cache n} {b : ℕ} {j : BufId} (h : BgetTo c b j c')
    (hd : (c'.buf i).dirty = true) :
    (c.buf i).dirty = true ∧ (c'.buf i).blockno = (c.buf i).blockno := by
  cases h with
  | hit => exact setBuf_dirty (fun hx => ⟨hx, rfl⟩) hd
  | miss => exact setBuf_dirty (by simp) hd

/-- A buffer is made dirty by `log_write` only, and a dirty one keeps its block. -/
lemma dirty_of_trans {a : Act n} (hs : Sound L s) (ht : Trans L s a s')
    (hd : (s'.cache.buf i).dirty = true) :
    ((s.cache.buf i).dirty = true ∧ (s'.cache.buf i).blockno = (s.cache.buf i).blockno) ∨
      ∃ t, a = .logWrite t ∧ s.mode t = .checked i := by
  cases ht with
  | crash => simp [powerOn, binit] at hd
  | lock | modify | brelse => exact .inl (setBuf_dirty (fun hx => ⟨hx, rfl⟩) hd)
  | fill _ hv hdisk =>
    obtain ⟨hclean, -, x, -, rfl⟩ := hs.cache.fill hv hdisk
    exact .inl (setBuf_dirty (fun hx => ⟨hx, rfl⟩) hd)
  | @unref _ j =>
    simp only [Cache.unref_buf] at hd ⊢
    exact .inl (setBuf_dirty (c := s.cache) (j := j) (fun hx => ⟨hx, rfl⟩) hd)
  | phase _ _ hp =>
    cases hp with
    | read _ hb => exact .inl (hb.dirty hd)
    | release | decode => exact .inl (setBuf_dirty (fun hx => ⟨hx, rfl⟩) hd)
    | write => exact .inl (setBuf_dirty (by simp) hd)
    | logged | installed | endCommit | endRecover => exact .inl ⟨hd, rfl⟩
  | bread _ _ _ hb => exact .inl (hb.dirty hd)
  | @logWrite t j b hm =>
    rcases eq_or_ne i j with rfl | hne
    · exact .inr ⟨t, rfl, hm⟩
    · simp only [Cache.setBuf_of_ne hne] at hd ⊢
      exact .inl ⟨hd, trivial⟩
  | cached | sleep | beginOp | wake | logCheck | endLast | endOp => exact .inl ⟨hd, rfl⟩

/-- No logged block is left when the last one is installed. -/
lemma Phase.pending_subset (lh : List ℕ) (p : Phase) : p.pending lh ⊆ lh := by
  rw [Phase.pending.eq_def]
  split <;> simp [List.drop_subset]

/-- One step of `commit` or `recover_from_log`. -/
lemma dirt_of_phaseTo {t : Tid n} {w : Caller} {p : Phase} (h : Dirt s) (hs : Sound L s)
    (hc : s.call t = .none) (hm : s.mode t = .busy w p) (hp : PhaseTo L s t w p s') :
    Dirt s' := by
  have hd := fun i => dirty_of_trans (i := i) hs (.phase hc hm hp)
  have hold : ∀ i b, (s'.cache.buf i).dirty = true → (s'.cache.buf i).blockno = some b →
      (s.cache.buf i).dirty = true ∧ (s.cache.buf i).blockno = some b ∧ b ∈ p.pending s.log.lh := by
    intro i b hdi hb
    obtain ⟨hdi', hb'⟩ := (hd i hdi).resolve_right (by simp)
    rw [hb'] at hb
    exact ⟨hdi', hb, h.pending t w p hm i b hdi' hb⟩
  have hsome : ∀ i, (s'.cache.buf i).dirty = true → ∃ b, (s'.cache.buf i).blockno = some b := by
    intro i hdi
    obtain ⟨hdi', hb'⟩ := (hd i hdi).resolve_right (by simp)
    obtain ⟨b, -, hb⟩ := h.listed i hdi'
    exact ⟨b, hb'.trans hb⟩
  -- it is enough to know what is pending at the next point
  have hgoto : ∀ {q : Phase}, (∀ u w' p', s'.mode u = .busy w' p' → p' = q) →
      (∀ i b, (s'.cache.buf i).dirty = true → (s'.cache.buf i).blockno = some b →
        b ∈ q.pending s'.log.lh) → Dirt s' := by
    intro q hq hpend
    refine ⟨fun i hdi => ?_, fun u w' p' hu i b hdi hb => ?_⟩
    · obtain ⟨b, hb⟩ := hsome i hdi
      exact ⟨b, Phase.pending_subset _ q (hpend i b hdi hb), hb⟩
    · rw [hq u w' p' hu]
      exact hpend i b hdi hb
  have hself : ∀ {q : Phase}, s'.mode t = .busy w q → ∀ u w' p', s'.mode u = .busy w' p' →
      p' = q := by
    intro q hq u w' p' hu
    have ho' := ops_of_phaseTo hs.ops hm hp
    obtain rfl := ho'.unique u t _ _ _ _ hu hq
    rw [hq] at hu
    cases hu
    rfl
  cases hp with
  | @read _ _ q b c i hr hb =>
    refine hgoto (hself (update_self ..)) fun k b' hdk hbk => ?_
    have hpend := (hold k b' hdk hbk).2.2
    cases hr with
    | readHead => exact hpend
    | @slot lp _ | @home lp _ => cases lp <;> exact hpend
    | @writeHead first => cases first <;> exact hpend
  | @release _ _ q i hr =>
    refine hgoto (hself (update_self ..)) fun k b' hdk hbk => ?_
    have hpend := (hold k b' hdk hbk).2.2
    cases hr with
    | @copied lp | @last lp => cases lp <;> exact hpend
    | committed => exact hpend
    | erased => exact hpend
  | @write _ _ q i data x hw _ _ hx =>
    refine hgoto (hself (update_self ..)) fun k b' hdk hbk => ?_
    obtain ⟨-, hbk', hpend⟩ := hold k b' hdk hbk
    cases hw with
    | @copy lp tail l e =>
      cases lp with
      | writeLog => exact hpend
      | installTrans =>
        -- the block written is the first of those pending, and its buffer is clean now
        have hne : k ≠ e := by
          rintro rfl
          simp [Loop.target] at hdk
        simp only [Phase.pending] at hpend ⊢
        cases hl : s.log.lh.drop tail with
        | nil => simp [hl] at hpend
        | cons y ys =>
          have hy : s.log.lh[tail]? = some y := by
            rw [← List.head?_drop, hl]
            rfl
          have he := (hs.owners.uses t w _ e y hm (.bothHome hy)).1
          rw [hl] at hpend
          rcases List.mem_cons.mp hpend with rfl | hmem
          · exact absurd (hs.cache.refs.uniq k e _ hbk' he) hne
          · rw [← List.drop_drop, hl]
            exact hmem
    | @head first => cases first <;> exact hpend
  | decode =>
    refine hgoto (hself (update_self ..)) fun k b' hdk hbk => ?_
    simpa [Phase.pending] using (hold k b' hdk hbk).2.2
  | logged =>
    exact hgoto (hself (update_self ..)) fun k b' hdk hbk => (hold k b' hdk hbk).2.2
  | installed hlen =>
    refine hgoto (hself (update_self ..)) fun k b' hdk hbk => ?_
    have hpend := (hold k b' hdk hbk).2.2
    simp [Phase.pending, List.drop_eq_nil_of_le hlen] at hpend
  | endCommit | endRecover =>
    have hclean : ∀ k, (s.cache.buf k).dirty ≠ true := by
      intro k hdk
      obtain ⟨b, hb⟩ := hsome k hdk
      simpa [Phase.pending] using (hold k b hdk hb).2.2
    exact ⟨fun k hdk => absurd hdk (hclean k), fun _ _ _ _ k _ hdk => absurd hdk (hclean k)⟩

/-- Steps that keep the header and move nobody into, out of or inside `commit`. -/
lemma Dirt.frame (h : Dirt s) (hlh : s'.log.lh = s.log.lh)
    (hmode : ∀ u w p, s'.mode u = .busy w p → s.mode u = .busy w p)
    (hd : ∀ i, (s'.cache.buf i).dirty = true →
      (s.cache.buf i).dirty = true ∧ (s'.cache.buf i).blockno = (s.cache.buf i).blockno) :
    Dirt s' := by
  refine ⟨fun i hdi => ?_, fun u w p hu i b hdi hb => ?_⟩
  · obtain ⟨hdi', hb⟩ := hd i hdi
    rw [hlh, hb]
    exact h.listed i hdi'
  · obtain ⟨hdi', hb'⟩ := hd i hdi
    rw [hlh]
    exact h.pending u w p (hmode u w p hu) i b hdi' (hb' ▸ hb)

theorem dirt_of_trans {a : Act n} (h : Dirt s) (hs : Sound L s) (ht : Trans L s a s') :
    Dirt s' := by
  have hdirty := fun i => dirty_of_trans (i := i) hs ht
  cases ht with
  | crash =>
    constructor <;> simp [powerOn, binit]
  | phase hc hm hp => exact dirt_of_phaseTo h hs hc hm hp
  | lock | cached | fill | unref | bread | modify | brelse =>
    exact h.frame rfl (fun _ _ _ => id) fun i hdi => (hdirty i hdi).resolve_right (by simp)
  | sleep hm | beginOp hm =>
    refine h.frame rfl (fun u w p => ?_) fun i hdi => (hdirty i hdi).resolve_right (by simp)
    exact (update_eq_busy (by rcases hm with hm | hm <;> simp [hm]) (by simp) u w p).mp
  | wake hm | logCheck _ hm =>
    refine h.frame rfl (fun u w p => ?_) fun i hdi => (hdirty i hdi).resolve_right (by simp)
    exact (update_eq_busy (by simp [hm]) (by simp) u w p).mp
  | endOp _ hm =>
    refine h.frame rfl (fun u w p hu => ?_) fun i hdi => (hdirty i hdi).resolve_right (by simp)
    rw [← wakeup_eq_busy (m := s.mode)]
    exact (update_eq_busy (by simp [hm]) (by simp) u w p).mp hu
  | @logWrite t i b hm hb =>
    have hnot := hs.ops.not_busy (t := t) (by rw [hm]; trivial)
    refine ⟨fun k hdk => ?_, fun u w p hu => ?_⟩
    · rcases hdirty k hdk with ⟨hdk', hbk⟩ | ⟨t', ht', hm'⟩
      · obtain ⟨x, hx, hkx⟩ := h.listed k hdk'
        exact ⟨x, mem_absorb.mpr (.inl hx), hbk.trans hkx⟩
      · cases ht'
        obtain rfl : i = k := by simpa [hm] using hm'
        exact ⟨b, mem_absorb.mpr (.inr rfl), by simpa using hb⟩
    · exact absurd ((update_eq_busy (by simp [hm]) (by simp) u w p).mp hu) (hnot u w p)
  | @endLast t _ hm _ _ ho =>
    -- the commit starts with all logged blocks, or there are none
    have hnot := hs.ops.not_busy (t := t) (by rw [hm]; trivial)
    refine ⟨h.listed, fun u w p hu k b hdk hbk => ?_⟩
    have hut : u = t := by
      by_contra hne
      simp only [update_of_ne hne] at hu
      exact hnot u w p hu
    subst hut
    simp only [update_self, Mode.busy.injEq] at hu
    obtain ⟨x, hx, hkx⟩ := h.listed k hdk
    obtain rfl : x = b := Option.some.inj (hkx.symm.trans hbk)
    rw [← hu.2, commitStart, if_pos (List.length_pos_of_mem hx)]
    exact hx

theorem dirt_of_run {tr : List (Machine n × Act n)} (hr : Run (step L) (powerOn d₀) tr s) :
    Sound L s ∧ Dirt s := by
  refine hr.invariant (I := fun s => Sound L s ∧ Dirt s) ⟨sound_powerOn d₀, ?_⟩ ?_
  · constructor <;> simp [powerOn, binit]
  · intro s a s' h hs
    exact ⟨sound_of_trans h.1 (trans_of_step hs), dirt_of_trans h.2 h.1 (trans_of_step hs)⟩

/-! ### Room for a block -/

/-- The process holds the buffer, waits for it or is about to give it back. -/
def Engages (s : Machine n) (t : Tid n) (i : BufId) : Prop :=
  (s.cache.buf i).lock = some t ∨ s.call t = .locking i ∨ s.call t = .releasing i

instance (s : Machine n) (t : Tid n) (i : BufId) : Decidable (Engages s t i) :=
  inferInstanceAs (Decidable (_ ∨ _))

/-- The buffers that processes use. -/
def inUse (s : Machine n) : Finset BufId := Finset.univ.filter fun i => ∃ t, Engages s t i

/-- A buffer that is referred to is in use. -/
lemma mem_inUse_of_refcnt (h : Refs s.cache s.call) (hr : (s.cache.buf i).refcnt ≠ 0) :
    i ∈ inUse s := by
  rw [inUse, Finset.mem_filter]
  refine ⟨Finset.mem_univ i, ?_⟩
  by_contra hno
  push Not at hno
  have hlock : (s.cache.buf i).lock = none := by
    by_contra hl
    obtain ⟨t, ht⟩ := Option.ne_none_iff_exists'.mp hl
    exact hno t (.inl ht)
  have hwait : waiting s.call i = 0 := tally_eq_zero.mpr fun t ht => hno t (.inr (.inl ht))
  have hleave : leaving s.call i = 0 := tally_eq_zero.mpr fun t ht => hno t (.inr (.inr ht))
  rw [h.refcnt, refs, hlock, hwait, hleave] at hr
  simp at hr

/-- When `bget` fails, every buffer is in use or dirty. -/
lemma bget_eq_none {b : ℕ} (h : bget c b = none) (hi : i ∈ c.lru) :
    (c.buf i).refcnt ≠ 0 ∨ (c.buf i).dirty = true := by
  rw [bget] at h
  split at h
  · simp at h
  · split at h
    · simp at h
    · rename_i hv
      have hno := List.find?_eq_none.mp hv i (List.mem_reverse.mpr hi)
      simp only [Bool.and_eq_true, decide_eq_true_eq, Bool.not_eq_true', not_and,
        Bool.not_eq_false] at hno
      by_cases hz : (c.buf i).refcnt = 0
      · exact .inr (hno hz)
      · exact .inl hz

/-- There are no more dirty buffers than logged blocks. -/
lemma card_dirty_le (h : Dirt s) (hu : Refs s.cache s.call) :
    (Finset.univ.filter fun i => (s.cache.buf i).dirty = true).card ≤ s.log.lh.length := by
  have hmem : ∀ i ∈ Finset.univ.filter fun i => (s.cache.buf i).dirty = true,
      ∃ b ∈ s.log.lh, (s.cache.buf i).blockno = some b := fun i hi =>
    h.listed i (Finset.mem_filter.mp hi).2
  choose! f hf using hmem
  have hinj : Set.InjOn f (Finset.univ.filter fun i => (s.cache.buf i).dirty = true) := by
    intro i hi k hk he
    rw [Finset.mem_coe] at hi hk
    exact hu.uniq i k (f i) (hf i hi).2 (he ▸ (hf k hk).2)
  calc (Finset.univ.filter fun i => (s.cache.buf i).dirty = true).card
      ≤ s.log.lh.toFinset.card :=
        Finset.card_le_card_of_injOn f (fun i hi => List.mem_toFinset.mpr (hf i hi).1) hinj
    _ ≤ s.log.lh.length := List.toFinset_card_le _

/-- **The cache has room**, in every run of any number of processes and at every moment
at which the blocks in the header and the buffers in use are fewer than `NBUF`: `bget`
finds the block cached or a buffer to recycle. -/
theorem cache_has_room {tr : List (Machine n × Act n)} (hr : Run (step L) (powerOn d₀) tr s)
    (hroom : s.log.lh.length + (inUse s).card < NBUF) (b : ℕ) :
    (bget s.cache b).isSome = true := by
  obtain ⟨hs, hd⟩ := dirt_of_run hr
  by_contra hno
  have hnone : bget s.cache b = none := by simpa using hno
  have hall : (Finset.univ : Finset BufId) ⊆
      inUse s ∪ Finset.univ.filter fun i => (s.cache.buf i).dirty = true := by
    intro i _
    rw [Finset.mem_union]
    rcases bget_eq_none hnone (hs.cache.refs.lru i) with hz | hdi
    · exact .inl (mem_inUse_of_refcnt hs.cache.refs hz)
    · exact .inr (Finset.mem_filter.mpr ⟨Finset.mem_univ i, hdi⟩)
  have hcard : NBUF ≤ (inUse s).card + s.log.lh.length := calc
    NBUF = (Finset.univ : Finset BufId).card := (Finset.card_fin NBUF).symm
    _ ≤ _ := Finset.card_le_card hall
    _ ≤ _ := Finset.card_union_le _ _
    _ ≤ (inUse s).card + s.log.lh.length :=
      Nat.add_le_add_left (card_dirty_le hd hs.cache.refs) _
  omega

theorem cache_has_room_fourthWaits : ∃ s,
    exec (step mkfsLayout) (powerOn blankDisk) (fourthWaits 0 1 2 3 1) = some s ∧
    s.log.lh = [40] ∧ (bget s.cache 70).isSome = true := by
  obtain ⟨s, hs, hlh, hroom⟩ :
      ∃ s, exec (step mkfsLayout) (powerOn blankDisk) (fourthWaits 0 1 2 3 1) = some s ∧
        s.log.lh = [40] ∧ s.log.lh.length + (inUse s).card < NBUF := by
    decide +kernel
  exact ⟨s, hs, hlh, cache_has_room (run_traceOf hs) hroom 70⟩

/-- Each of the processes `ts` calls `bread` for a block of its own and waits for the disk. -/
def readersWait {n : ℕ} (t : Tid n) (ts : List (Tid n)) : List (Act n) :=
  recovery t ++ ts.flatMap fun u => [.bread u (40 + u.val), .cont u]

/-- **The cache runs dry.**  Of 31 processes, fewer than `NPROC`, that only read files, 30
wait for the disk, each with one buffer.  The block that the last one asks for is not
cached and there is no buffer to recycle: `bget` panics. -/
theorem cache_runs_dry : 30 + 1 ≤ NPROC ∧ ∃ s : Machine 30,
    exec (step mkfsLayout) (powerOn blankDisk)
      (readersWait 0 ((List.finRange 31).take 30)) = some s ∧
    (∀ t, s.mode t = .user) ∧ s.log.lh = [] ∧
    (∀ t, t.val < 30 → ∃ i, s.call t = .filling i ∧ ∀ k, Engages s t k → k = i) ∧
    s.call 30 = .none ∧ mkfsLayout.Home 70 ∧ bget s.cache 70 = none ∧
    step mkfsLayout s (.bread 30 70) = none := by
  decide +kernel

end Xv6.Fs
