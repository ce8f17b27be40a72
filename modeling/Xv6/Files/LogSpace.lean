import Xv6.Files.ByteArray
import Xv6.Fs.Block

/-!
How much of the log a write takes (`writei`, `filewrite`).

`Fs.logged` has the blocks that were passed to `log_write`.  Of the blocks of a file, the indirect
block is passed to it time and again, so `Spent` counts the others: a block that is written, the
block of the free map if it is new, and one more for the free map if the indirect block is new.

* `LogsOnly`: only blocks with a property have been passed to `log_write`.
* `Spent`: how many have been, not counting the indirect block.
* `bmap_spent`, `writeLoop_spent`: two blocks for a round, and one if the block was there.
* `chunk_fits_log`: a chunk of `filewrite` fits in a transaction.
-/

namespace Xv6.Files

open Xv6.Fs Transition Function

/-- The blocks that have been passed to `log_write` since the state `s` satisfy `S`. -/
def LogsOnly (S : ℕ → Prop) (s s' : Fs) : Prop :=
  ∃ new, s'.logged = s.logged ++ new ∧ ∀ b ∈ new, S b

namespace LogsOnly

variable {S T : ℕ → Prop} {s s' s'' : Fs}

lemma of_eq (h : s'.logged = s.logged) : LogsOnly S s s' := ⟨[], by rw [h, List.append_nil], nofun⟩

lemma mono (h : LogsOnly S s s') (hST : ∀ b, S b → T b) : LogsOnly T s s' := by
  obtain ⟨new, hnew, hS⟩ := h
  exact ⟨new, hnew, fun b hb => hST b (hS b hb)⟩

lemma trans (h : LogsOnly S s s') (h' : LogsOnly S s' s'') : LogsOnly S s s'' := by
  obtain ⟨new, hnew, hS⟩ := h
  obtain ⟨new', hnew', hS'⟩ := h'
  refine ⟨new ++ new', by rw [hnew', hnew, List.append_assoc], fun b hb => ?_⟩
  exact (List.mem_append.mp hb).elim (hS b) (hS' b)

/-- One block is passed to `log_write`. -/
lemma single {b : ℕ} (h : s'.logged = s.logged ++ [b]) (hb : S b) : LogsOnly S s s' :=
  ⟨[b], h, fun _ hc => List.mem_singleton.mp hc ▸ hb⟩

end LogsOnly

variable {sb : Superblock} {k : Ip} {s s' s'' : Fs}

/-- The address of the indirect block. -/
abbrev indOf (s : Fs) (k : Ip) : ℕ := (s.inode k).din.addrs (Fin.last NDIRECT)

/-- One if there is no indirect block. -/
def lacksInd (s : Fs) (k : Ip) : ℕ := if indOf s k = 0 then 1 else 0

/-- **Blocks passed to `log_write`**: those in `X`, the indirect block, and at most `n` others, to
which the block of the free map for a new indirect block is not counted. -/
structure Spent (k : Ip) (X : Finset ℕ) (n : ℕ) (s s' : Fs) : Prop where
  ind : indOf s k ≠ 0 → indOf s' k = indOf s k
  logs : ∃ D : Finset ℕ, D.card + lacksInd s' k ≤ n + lacksInd s k ∧
    LogsOnly (fun b => b ∈ D ∨ b ∈ X ∨ b = indOf s' k ∧ indOf s' k ≠ 0) s s'

namespace Spent

variable {X : Finset ℕ} {n m : ℕ}

lemma mono (h : Spent k X n s s') (hn : n ≤ m) : Spent k X m s s' := by
  obtain ⟨D, hD, hlogs⟩ := h.logs
  exact ⟨h.ind, D, by omega, hlogs⟩

/-- The blocks of `X` are counted, too. -/
lemma count (h : Spent k X n s s') : Spent k ∅ (n + X.card) s s' := by
  obtain ⟨D, hD, hlogs⟩ := h.logs
  have hcard := Finset.card_union_le D X
  refine ⟨h.ind, D ∪ X, by omega, hlogs.mono fun b hb => ?_⟩
  obtain hb | hb | hb := hb
  · exact .inl (Finset.mem_union_left _ hb)
  · exact .inl (Finset.mem_union_right _ hb)
  · exact .inr (.inr hb)

lemma grow (h : Spent k ∅ n s s') (X : Finset ℕ) : Spent k X n s s' := by
  obtain ⟨D, hD, hlogs⟩ := h.logs
  refine ⟨h.ind, D, hD, hlogs.mono fun b hb => hb.imp_right (Or.imp_left ?_)⟩
  exact fun hb => absurd hb (Finset.notMem_empty b)

lemma trans (h : Spent k X n s s') (h' : Spent k X m s' s'') : Spent k X (n + m) s s'' := by
  obtain ⟨D, hD, hlogs⟩ := h.logs
  obtain ⟨D', hD', hlogs'⟩ := h'.logs
  have hcard := Finset.card_union_le D D'
  refine ⟨fun hne => ?_, D ∪ D', by
    omega, (hlogs.mono fun b hb => ?_).trans (hlogs'.mono fun b hb => ?_)⟩
  · rw [h'.ind (by rwa [h.ind hne]), h.ind hne]
  · obtain hb | hb | ⟨rfl, hne⟩ := hb
    · exact .inl (Finset.mem_union_left _ hb)
    · exact .inr (.inl hb)
    · rw [h'.ind hne]
      exact .inr (.inr ⟨rfl, hne⟩)
  · exact hb.imp_left (Finset.mem_union_right _)

lemma refl : Spent k X 0 s s := ⟨fun _ => rfl, ∅, le_rfl, .of_eq rfl⟩

/-- Nothing more is logged. -/
lemma same (h : Spent k X n s s') (hlog : s''.logged = s'.logged)
    (hind : indOf s'' k = indOf s' k) : Spent k X n s s'' := by
  refine Spent.trans (m := 0) h ⟨fun _ => hind, ∅, ?_, .of_eq hlog⟩
  rw [lacksInd, lacksInd, hind, Finset.card_empty]

variable {b : ℕ} (h : Spent k X n s s') (hlog : s''.logged = s'.logged ++ [b])
  (hind : indOf s'' k = indOf s' k)

include h hlog hind

/-- A block is logged. -/
lemma log : Spent k X (n + 1) s s'' := by
  refine h.trans ⟨fun _ => hind, {b}, ?_, .single hlog (.inl (Finset.mem_singleton_self b))⟩
  rw [lacksInd, lacksInd, hind, Finset.card_singleton]

/-- A block of `X`, or the indirect block, is logged. -/
lemma log_known (hb : b ∈ X ∨ b = indOf s' k ∧ b ≠ 0) : Spent k X n s s'' := by
  refine Spent.trans (m := 0) h ⟨fun _ => hind, ∅, ?_, .single hlog (.inr (hb.imp_right ?_))⟩
  · rw [lacksInd, lacksInd, hind, Finset.card_empty]
  · rintro ⟨rfl, hne⟩
    rw [hind]
    exact ⟨rfl, hne⟩

end Spent

/-! ### The allocator -/

/-- A block that can be read is not the boot block. -/
lemma post_bdata_any {b : ℕ} {Q : Bytes → Fs → Prop} {E : Stop → Fs → Prop}
    (hQ : b ≠ 0 → Q (s.data b) s) (hE : E .stray s) : Post (bdata sb b) s Q E := by
  unfold bdata
  refine post_ite.mpr ⟨fun hb => hQ ?_, fun _ => hE⟩
  have hmeta : 0 < sb.nmeta := Nat.lt_of_lt_of_le (Nat.succ_pos _) (Nat.le_add_left ..)
  omega

/-- A block of the free map and the new block are logged. -/
lemma balloc_spent (k : Ip) :
    Post (balloc sb) s (fun b s' => b ≠ 0 ∧ s'.inode = s.inode ∧ Spent k {b} 1 s s')
      fun _ s' => Spent k ∅ 1 s s' := by
  unfold balloc
  rw [post_bind, post_get]
  cases (List.range sb.size).find? (isFree s.bitmap) with
  | none => exact Spent.refl.mono (Nat.zero_le 1)
  | some b =>
    simp only [post_bind, post_set, post_logWrite, bzero, post_pure, post_bwrite]
    have hmap (X) : Spent k X 1 s
        ((s.setByte (b / 8) (s.bitmap (b / 8) ||| (1 <<< (b % 8)))).log (sb.bblock b)) :=
        Spent.refl.log rfl rfl
    refine post_bdata_any (fun hb => ⟨hb, rfl, ?_⟩) (hmap ∅)
    exact (hmap {b}).log_known (b := b) rfl rfl (.inl (Finset.mem_singleton_self b))

/-- A slot of the inode that is not for the indirect block. -/
lemma ensure_spent {p : Fin (NDIRECT + 1)} (hp : p ≠ Fin.last NDIRECT) :
    Post (ensure sb k p) s
      (fun b s' => Spent k {b} 1 s s' ∧ ((s.inode k).din.addrs p ≠ 0 → Spent k ∅ 0 s s'))
      fun _ s' => Spent k ∅ 1 s s' := by
  unfold ensure
  simp only [post_bind, post_inode]
  refine post_ite.mpr ⟨fun h0 => ?_, fun hne => ⟨Spent.refl.mono (Nat.zero_le 1), fun _ => .refl⟩⟩
  refine (balloc_spent k).seq fun b u hb => ?_
  obtain ⟨-, hinode, hu⟩ := hb
  simp only [post_bind, post_inode, post_setDin, post_pure]
  refine ⟨hu.same rfl ?_, fun hne => absurd h0 hne⟩
  rw [indOf, Fs.setInode_inode_self]
  exact update_of_ne hp.symm ..

/-- The slot for the indirect block: what is spent on a new one is the block of the free map. -/
lemma ensure_ind_spent :
    Post (ensure sb k (Fin.last NDIRECT)) s
      (fun b s' => b = indOf s' k ∧ b ≠ 0 ∧ Spent k ∅ 0 s s' ∧ (indOf s k ≠ 0 → s' = s))
      fun _ s' => Spent k ∅ 1 s s' := by
  unfold ensure
  simp only [post_bind, post_inode]
  refine post_ite.mpr ⟨fun h0 => ?_, fun hne => ⟨rfl, hne, .refl, fun _ => rfl⟩⟩
  refine (balloc_spent k).seq fun b u hspent => ?_
  obtain ⟨hb, hinode, hu⟩ := hspent
  simp only [post_bind, post_inode, post_setDin, post_pure]
  generalize hv : u.setInode k { u.inode k with
    din := { (u.inode k).din with addrs := update (u.inode k).din.addrs (Fin.last NDIRECT) b } } = v
  have hind : indOf v k = b := by
    rw [← hv, indOf, Fs.setInode_inode_self]
    exact update_self (Fin.last NDIRECT) b (u.inode k).din.addrs
  have hlog : v.logged = u.logged := by rw [← hv]; rfl
  have hu0 : indOf u k = 0 := by rw [indOf, hinode]; exact h0
  refine ⟨hind.symm, hb, ⟨fun hne => absurd h0 hne, ?_⟩, fun hne => absurd h0 hne⟩
  obtain ⟨D, hD, new, hnew, hmem⟩ := hu.logs
  rw [lacksInd, lacksInd, if_pos hu0, if_pos h0] at hD
  refine ⟨D, ?_, new, by rw [hlog, hnew], fun c hc => ?_⟩
  · rw [lacksInd, lacksInd, if_pos h0, if_neg (by rwa [hind])]
    omega
  · obtain hD | hX | ⟨rfl, hne⟩ := hmem c hc
    · exact .inl hD
    · rw [hind, Finset.mem_singleton.mp hX]
      exact .inr (.inr ⟨rfl, hb⟩)
    · exact absurd hu0 hne

/-- **`bmap`** spends nothing on a block that is there. -/
lemma bmap_spent (bn : ℕ) :
    Post (bmap sb k bn) s
      (fun b s' => Spent k {b} 1 s s' ∧
        (blockAddr s.data (s.inode k).din bn ≠ 0 → Spent k ∅ 0 s s'))
      fun _ s' => Spent k ∅ 1 s s' := by
  unfold bmap
  split
  next hlt =>
    have hne : Fin.castSucc ⟨bn, hlt⟩ ≠ Fin.last NDIRECT := Fin.castSucc_ne_last _
    refine (ensure_spent hne).imp fun b s' h => ⟨h.1, fun haddr => h.2 ?_⟩
    rw [blockAddr, blockPlace, dif_pos hlt] at haddr
    exact haddr
  next hge =>
  refine post_ite.mpr ⟨fun hlt => ?_, fun _ => Spent.refl.mono (Nat.zero_le 1)⟩
  refine ensure_ind_spent.seq fun ind u hspent => ?_
  obtain ⟨hind, hne, hu, hsame⟩ := hspent
  rw [post_bind]
  refine post_bdata_any (fun _ => ?_) (hu.mono (Nat.zero_le 1))
  refine post_ite.mpr ⟨fun h0 => ?_, fun _ => ⟨(hu.grow _).mono (Nat.zero_le 1), fun _ => hu⟩⟩
  refine (balloc_spent k).bind (fun _ v hv => (hu.trans hv).mono (Nat.zero_add 1).le)
    fun b v hspent => ?_
  obtain ⟨-, hinode, hv⟩ := hspent
  simp only [post_bind, post_get, post_bwrite, post_pure]
  have hindv : ind = indOf v k := by rw [indOf, hinode, hind]
  refine ⟨(((hu.grow _).trans hv).mono (Nat.zero_add 1).le).log_known (b := ind) rfl rfl
    (.inr ⟨hindv, hne⟩), ?_⟩
  -- An entry of an indirect block that is there was zero.
  intro haddr
  have hold : blockAddr s.data (s.inode k).din bn
      = if indOf s k = 0 then 0 else word (s.data (indOf s k)) (bn - NDIRECT) := by
    rw [blockAddr, blockPlace, dif_neg hge, dif_pos hlt]
    rfl
  by_cases hs : indOf s k = 0
  · rw [hold, if_pos hs] at haddr
    exact absurd rfl haddr
  · rw [hold, if_neg hs] at haddr
    rw [hind, hsame hs] at h0
    exact absurd h0 haddr

/-! ### The loop of `writei` -/

/-- A round of the loop. -/
lemma round_spent {b : ℕ} (h : Spent k {b} 1 s s') (d : Bytes) :
    Spent k ∅ 2 s ((s'.setData b d).log b) := by
  have hlog : Spent k {b} 1 s ((s'.setData b d).log b) :=
    h.log_known (b := b) rfl rfl (.inl (Finset.mem_singleton_self b))
  exact hlog.count

/-- **The loop of `writei`** spends two blocks in a round. -/
lemma writeLoop_spent (fuel off : ℕ) (src : List ℕ) :
    Post (writeLoop sb k fuel off src) s (fun _ s' => Spent k ∅ (2 * rounds off src.length) s s')
      fun _ s' => Spent k ∅ (2 * rounds off src.length) s s' := by
  induction fuel generalizing s off src with
  | zero => exact Spent.refl.mono (Nat.zero_le _)
  | succ fuel ih =>
    unfold writeLoop
    refine post_ite.mpr ⟨fun _ => Spent.refl.mono (Nat.zero_le _), fun hne => ?_⟩
    have hround := rounds_succ off (Nat.pos_of_ne_zero hne)
    rw [← List.length_drop] at hround
    refine (bmap_spent _).bind (fun _ _ h => h.mono (by omega)) fun b u hspent => ?_
    obtain ⟨hu, -⟩ := hspent
    rw [post_bind]
    refine post_bdata_any (fun _ => ?_) (hu.count.mono (by rw [Finset.card_singleton]; omega))
    simp only [post_bind, post_bwrite]
    have hnext := round_spent hu (splice (u.data b) (off % BSIZE)
      (src.take (min src.length (BSIZE - off % BSIZE))))
    exact (ih _ _).mono (fun _ _ h => (hnext.trans h).mono (by omega))
      fun _ _ h => (hnext.trans h).mono (by omega)

/-- A loop that begins in a block that is there spends one less. -/
lemma writeLoop_spent_there {fuel off : ℕ} {src : List ℕ} (hsrc : src.length ≠ 0)
    (hthere : blockAddr s.data (s.inode k).din (off / BSIZE) ≠ 0) :
    Post (writeLoop sb k fuel off src) s
      (fun _ s' => Spent k ∅ (2 * rounds off src.length - 1) s s')
      fun _ s' => Spent k ∅ (2 * rounds off src.length - 1) s s' := by
  cases fuel with
  | zero => exact Spent.refl.mono (Nat.zero_le _)
  | succ fuel =>
    unfold writeLoop
    rw [if_neg hsrc]
    have hround := rounds_succ off (Nat.pos_of_ne_zero hsrc)
    rw [← List.length_drop] at hround
    refine (bmap_spent _).bind (fun _ _ h => h.mono (by omega)) fun b u hspent => ?_
    have hu := hspent.2 hthere
    rw [post_bind]
    refine post_bdata_any (fun _ => ?_) (hu.mono (Nat.zero_le _))
    simp only [post_bind, post_bwrite]
    have hnext : Spent k ∅ 1 s ((u.setData b (splice (u.data b) (off % BSIZE)
      (src.take (min src.length (BSIZE - off % BSIZE))))).log b) := hu.log (b := b) rfl rfl
    exact (writeLoop_spent _ _ _).mono (fun _ _ h => (hnext.trans h).mono (by omega))
      fun _ _ h => (hnext.trans h).mono (by omega)

/-! ### A chunk -/

/-- At most `n` blocks have been passed to `log_write`. -/
def LogsAtMost (n : ℕ) (s s' : Fs) : Prop :=
  ∃ new, s'.logged = s.logged ++ new ∧ new.toFinset.card ≤ n

lemma LogsOnly.atMost {S : Finset ℕ} (h : LogsOnly (· ∈ S) s s') : LogsAtMost S.card s s' := by
  obtain ⟨new, hnew, hS⟩ := h
  exact ⟨new, hnew, Finset.card_le_card fun b hb => hS b (List.mem_toFinset.mp hb)⟩

/-- The indirect block, and the block of the free map for it. -/
lemma Spent.atMost {n : ℕ} (h : Spent k ∅ n s s') : LogsAtMost (n + 2) s s' := by
  obtain ⟨D, hD, hlogs⟩ := h.logs
  have hcard := Finset.card_insert_le (indOf s' k) D
  have hlacks : lacksInd s k ≤ 1 := by
    unfold lacksInd
    split <;> decide
  have hall : LogsOnly (· ∈ insert (indOf s' k) D) s s' := hlogs.mono fun b hb => by
    obtain hb | hb | ⟨rfl, -⟩ := hb
    · exact Finset.mem_insert_of_mem hb
    · exact absurd hb (Finset.notMem_empty b)
    · exact Finset.mem_insert_self ..
  obtain ⟨new, hnew, hle⟩ := hall.atMost
  exact ⟨new, hnew, by omega⟩

/-- **A chunk of `filewrite` fits in a transaction.**  A chunk that begins in the middle of a block
touches one block more, but that block is there. -/
theorem chunk_fits_log (sb : Superblock) (s : Fs) (k : Ip) (hfull : Full s.data (s.inode k).din)
    (off : ℕ) (hoff : off ≤ (s.inode k).din.size) (src : List ℕ)
    (hsrc : src.length ≤ (MAXOPBLOCKS - 1 - 1 - 2) / 2 * 512) :
    LogsAtMost MAXOPBLOCKS s (finalState (writei sb k src off s)) := by
  have hloop : Post (writeLoop sb k src.length off src) s (fun _ s' => Spent k ∅ 7 s s')
      fun _ s' => Spent k ∅ 7 s s' := by
    by_cases hthere : off % BSIZE ≠ 0 ∧ src.length ≠ 0
    · have hblock : blockAddr s.data (s.inode k).din (off / BSIZE) ≠ 0 := by
        refine hfull _ ?_
        have := Nat.div_add_mod' off BSIZE
        omega
      have hrounds : 2 * rounds off src.length - 1 ≤ 7 := by
        have hrem : off % BSIZE < BSIZE := Nat.mod_lt _ (by norm_num)
        rw [rounds, if_neg hthere.2]
        simp only [BSIZE, MAXOPBLOCKS] at *
        omega
      exact (writeLoop_spent_there hthere.2 hblock).mono (fun _ _ h => h.mono hrounds)
        fun _ _ h => h.mono hrounds
    · have hrounds : 2 * rounds off src.length ≤ 7 := by
        unfold rounds
        split
        · decide
        · simp only [BSIZE, MAXOPBLOCKS] at *
          omega
      exact (writeLoop_spent _ _ _).mono (fun _ _ h => h.mono hrounds) fun _ _ h => h.mono hrounds
  have hnothing {s' : Fs} (h : s'.logged = s.logged) : LogsAtMost MAXOPBLOCKS s s' :=
    ⟨[], by rw [h, List.append_nil], Nat.zero_le _⟩
  refine Post.final (I := LogsAtMost MAXOPBLOCKS s) ?_
  unfold writei
  simp only [post_bind, post_inode]
  refine post_ite.mpr ⟨fun _ => ?_, fun _ => ?_⟩
  · refine post_ite.mpr ⟨fun _ => hnothing rfl, fun _ => ?_⟩
    refine iunlock_disk.bind (fun _ _ h => hnothing h.logged) fun _ u hu => ?_
    exact ilock_disk.bind (fun _ _ h => hnothing (hu.trans h).logged)
      fun _ _ h => hnothing (hu.trans h).logged
  refine post_ite.mpr ⟨fun _ => hnothing rfl, fun _ => ?_⟩
  refine post_ite.mpr ⟨fun _ => hnothing rfl, fun _ => ?_⟩
  refine hloop.bind (fun _ _ h => (h.mono (by decide : 7 ≤ 8)).atMost) fun _ u hu => ?_
  simp only [post_bind, post_inode]
  have hu8 := hu.mono (by decide : 7 ≤ 8)
  refine post_ite.mpr ⟨fun _ => ?_, fun _ => hu8.atMost⟩
  simp only [post_bind, post_setDin, iupdate, post_inode, post_modify, post_logWrite, post_pure]
  refine Spent.atMost (k := k) (n := 8) (hu.log rfl ?_)
  rw [indOf, Fs.log_inode, Fs.setDinode_inode, Fs.setInode_inode_self]

/-- A chunk for an empty file. -/
theorem chunk_fits_log_empty :
    LogsAtMost 10 lockedFile
      (finalState (writei smallDisk (Fin.last 49) (List.replicate 1536 1) 0 lockedFile)) := by
  have hself : (lockedFile.inode (Fin.last 49)).din = .fresh .file := by
    simp only [lockedFile, update_self]
  refine chunk_fits_log smallDisk lockedFile (Fin.last 49) ?_ 0 (Nat.zero_le _) _ ?_
  · rw [hself]
    exact fun bn hbn => absurd hbn (Nat.not_lt_zero _)
  · rw [List.length_replicate]
    decide

end Xv6.Files
