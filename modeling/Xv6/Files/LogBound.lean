import Xv6.Files.Failures
import Xv6.Files.LogSpace

/-!
What the steps of a call pass to `log_write` (`iput`, `dirlink`, `namex`).

With a free map of one block, giving back an inode passes that block and the block of the inode to
`log_write`, however large the file is, and a directory entry takes its block, the indirect block
and those two.

* `LogsBut`: known blocks and at most `n` others have been passed to `log_write`; `Logs`: code that
  passes no more to it, also if it stops.
* `iput_logs`: an inode is given back.
* `writei_logs`, `dirlink_logs`: an entry is made.
* `AllHeld`: no file without links is on the way of a lookup, so that `namex_logs`: a lookup logs
  nothing.
-/

namespace Xv6.Files

open Xv6.Fs Transition Function

variable {sb : Superblock} {t t' u : Fs} {k dp cwd : Ip} {B : Ip → Inode} {N : ℕ → Node}
  {H : List (Ip × ℕ)} {L : Set Ip} {i d n m : ℕ} {X : Finset ℕ} {α β : Type}

/-- **Blocks passed to `log_write`**: those in `X`, and at most `n` others. -/
def LogsBut (n : ℕ) (X : Finset ℕ) (s s' : Fs) : Prop :=
  ∃ D : Finset ℕ, D.card ≤ n ∧ LogsOnly (fun b => b ∈ D ∨ b ∈ X) s s'

variable {b : ℕ}

namespace LogsBut

lemma of_eq (h : t'.logged = t.logged) : LogsBut n X t t' := ⟨∅, Nat.zero_le n, .of_eq h⟩

lemma mono (h : LogsBut n X t t') (hn : n ≤ m) : LogsBut m X t t' := by
  obtain ⟨D, hD, hlogs⟩ := h
  exact ⟨D, hD.trans hn, hlogs⟩

lemma trans (h : LogsBut n X t t') (h' : LogsBut m X t' u) : LogsBut (n + m) X t u := by
  obtain ⟨D, hD, hlogs⟩ := h
  obtain ⟨D', hD', hlogs'⟩ := h'
  have hcard := Finset.card_union_le D D'
  refine ⟨D ∪ D', by omega, (hlogs.mono fun b hb => ?_).trans (hlogs'.mono fun b hb => ?_)⟩
  · exact hb.imp_left (Finset.mem_union_left _)
  · exact hb.imp_left (Finset.mem_union_right _)

/-- More is known. -/
lemma grow {Y : Finset ℕ} (h : LogsBut n X t t') (hY : X ⊆ Y) : LogsBut n Y t t' := by
  obtain ⟨D, hD, hlogs⟩ := h
  exact ⟨D, hD, hlogs.mono fun b hb => hb.imp_right fun hX => hY hX⟩

/-- A known block is logged. -/
lemma log (h : LogsBut n X t t') (hlog : u.logged = t'.logged ++ [b]) (hb : b ∈ X) :
    LogsBut n X t u :=
  h.trans (m := 0) ⟨∅, le_rfl, .single hlog (.inr hb)⟩

/-- A known block is counted with the others. -/
lemma count (h : LogsBut n (insert b X) t t') : LogsBut (n + 1) X t t' := by
  obtain ⟨D, hD, hlogs⟩ := h
  have hcard := Finset.card_insert_le b D
  refine ⟨insert b D, by omega, hlogs.mono fun c hc => ?_⟩
  simp only [Finset.mem_insert] at hc ⊢
  tauto

lemma atMost (h : LogsBut n X t t') : LogsAtMost (n + X.card) t t' := by
  obtain ⟨D, hD, hlogs⟩ := h
  have hcard := Finset.card_union_le D X
  have hall : LogsOnly (· ∈ D ∪ X) t t' := hlogs.mono fun b hb => Finset.mem_union.mpr hb
  obtain ⟨new, hnew, hle⟩ := hall.atMost
  exact ⟨new, hnew, by omega⟩

end LogsBut

/-- **Code that logs no more** than blocks in `X` and `n` others. -/
def Logs (n : ℕ) (X : Finset ℕ) (m : FsM α) (t : Fs) : Prop :=
  Post m t (fun _ => LogsBut n X t) fun _ => LogsBut n X t

variable {tidy : Prop} {E : Stop → Fs → Prop}

namespace Logs

variable {c : FsM α} {f : α → FsM β}

lemma pure (a : α) : Logs n X (Pure.pure a) t := .of_eq rfl

lemma of_disk (h : Post c t (fun _ => SameDisk t) fun _ => SameDisk t) : Logs n X c t :=
  h.mono (fun _ _ hu => .of_eq hu.logged) fun _ _ hu => .of_eq hu.logged

lemma of_quiet (h : Quiet tidy c t) : Logs n X c t :=
  of_disk (h.mono (fun _ _ => id) fun _ _ => And.left)

lemma mono (h : Logs n X c t) (hn : n ≤ m) : Logs m X c t :=
  Post.mono h (fun _ _ hu => hu.mono hn) fun _ _ hu => hu.mono hn

lemma count (h : Logs n (insert b X) c t) : Logs (n + 1) X c t :=
  Post.mono h (fun _ _ => LogsBut.count) fun _ _ => LogsBut.count

/-- What has been logged before the code is known. -/
lemma after (h : LogsBut n X t t') (hc : Logs m X c t') :
    Post c t' (fun _ => LogsBut (n + m) X t) fun _ => LogsBut (n + m) X t :=
  Post.mono hc (fun _ _ => h.trans) fun _ _ => h.trans

lemma bind {Q : α → Fs → Prop} (h : Logs n X c t) (hQ : Post c t Q E)
    (hf : ∀ a t', Q a t' → Logs m X (f a) t') : Logs (n + m) X (c >>= f) t := by
  refine (Post.and h hQ).bind (fun e t' he => he.1.mono (Nat.le_add_right ..)) fun a t' ha => ?_
  exact after ha.1 (hf a t' ha.2)

/-- Something quiet comes first. -/
lemma quiet_bind {Q : α → Fs → Prop} (h : Quiet tidy c t) (hQ : Post c t Q E)
    (hf : ∀ a t', Q a t' → Logs n X (f a) t') : Logs n X (c >>= f) t :=
  (bind (n := 0) (of_quiet h) hQ hf).mono (Nat.zero_add n).le

end Logs

/-! ### Giving back an inode -/

section OneMapBlock

variable (hsb : sb.size ≤ BPB) (hmap : sb.bmapstart ∈ X)

include hsb hmap

/-- The free map is one block. -/
lemma bblock_mem (hb : b < sb.size) : sb.bblock b ∈ X := by
  rw [Superblock.bblock, Nat.div_eq_of_lt (hb.trans_le hsb), Nat.zero_add]
  exact hmap

lemma bfree_logs (hb : b < sb.size) :
    Post (bfree sb b) t (fun _ u => LogsBut 0 X t u ∧ u.inode = t.inode ∧ u.data = t.data)
      fun _ => LogsBut 0 X t := by
  unfold bfree
  rw [post_bind, post_get]
  refine post_ite.mpr ⟨fun _ => .of_eq rfl, fun _ => ?_⟩
  simp only [post_bind, post_set, post_logWrite]
  have hnone : LogsBut 0 X t t := .of_eq rfl
  exact ⟨hnone.log (b := sb.bblock b) rfl (bblock_mem hsb hmap hb), rfl, rfl⟩

end OneMapBlock

/-- The addresses of an inode, and those in its indirect block, are blocks of the disk. -/
structure Inside (sb : Superblock) (k : Ip) (t : Fs) : Prop where
  addr : ∀ q, (t.inode k).din.addrs q < sb.size
  word : indOf t k ≠ 0 → ∀ j < NINDIRECT, word (t.data (indOf t k)) j < sb.size

lemma Wf.inside (h : Wf sb t) (href : 0 < (t.inode k).ref) (hv : (t.inode k).valid = true) :
    Inside sb k t := by
  obtain ⟨hdin, htype⟩ := h.sync k href hv
  have hpos : 0 < sb.size := (Nat.zero_le _).trans_lt sb.room
  have hslot : ∀ p, slotAddr t.data (t.inode k).din p < sb.size := fun p => by
    by_cases hp : slotAddr t.data (t.inode k).din p = 0
    · rwa [hp]
    · rw [hdin] at hp htype ⊢
      exact (h.sound.slotAddr_range htype hp).2
  refine ⟨fun q => hslot (.inl q), fun hind j hj => ?_⟩
  have hword := hslot (.inr ⟨j, hj⟩)
  rwa [slotAddr, if_neg hind] at hword

/-- A direct address is cleared. -/
lemma Inside.clear (h : Inside sb k t) (hdata : u.data = t.data) (q : Fin NDIRECT) :
    Inside sb k (u.setInode k { u.inode k with
      din := { (t.inode k).din with addrs := update (t.inode k).din.addrs q.castSucc 0 } }) := by
  have hpos : 0 < sb.size := (Nat.zero_le _).trans_lt sb.room
  have hlast : Fin.last NDIRECT ≠ q.castSucc := (Fin.castSucc_ne_last q).symm
  refine ⟨fun p => ?_, fun hind => ?_⟩
  · rw [Fs.setInode_inode_self]
    by_cases hp : p = q.castSucc
    · simp only [hp, update_self, hpos]
    · simp only [update_of_ne hp, h.addr p]
  · rw [indOf, Fs.setInode_inode_self] at hind ⊢
    simp only [update_of_ne hlast] at hind ⊢
    exact hdata ▸ h.word hind

/-- **`itrunc`** logs the free map and the block of the inode. -/
lemma itrunc_logs (hsb : sb.size ≤ BPB) (hmap : sb.bmapstart ∈ X)
    (hi : sb.iblock (t.inode k).inum ∈ X) (h : Inside sb k t) :
    Post (itrunc sb k) t (fun _ u => LogsBut 0 X t u ∧ (u.inode k).inum = (t.inode k).inum)
      fun _ => LogsBut 0 X t := by
  unfold itrunc
  have hdirect : Post ((List.finRange NDIRECT).forM fun i => do
      let d := (← inode k).din
      if d.addrs i.castSucc ≠ 0 then
        bfree sb (d.addrs i.castSucc)
        setDin k { d with addrs := update d.addrs i.castSucc 0 }) t
      (fun _ u => LogsBut 0 X t u ∧ Inside sb k u ∧ (u.inode k).inum = (t.inode k).inum)
      fun _ => LogsBut 0 X t := by
    refine Post.forM
      (I := fun _ u => LogsBut 0 X t u ∧ Inside sb k u ∧ (u.inode k).inum = (t.inode k).inum)
      ⟨.of_eq rfl, h, rfl⟩ fun q _ u hu => ?_
    obtain ⟨hlogs, hin, hinum⟩ := hu
    rw [post_bind, post_inode]
    refine post_ite.mpr ⟨fun _ => ?_, fun _ => ⟨hlogs, hin, hinum⟩⟩
    refine (bfree_logs hsb hmap (hin.addr _)).bind (fun _ _ => hlogs.trans) fun _ v hv => ?_
    obtain ⟨hlogs', hinode, hdata⟩ := hv
    rw [post_setDin]
    refine ⟨hlogs.trans hlogs', hin.clear hdata q, ?_⟩
    rw [Fs.setInode_inode_self, hinode]
    exact hinum
  -- The size is written.
  have hfinish : ∀ u, LogsBut 0 X t u → (u.inode k).inum = (t.inode k).inum →
      Post (do
        setDin k { (← inode k).din with size := 0 }
        iupdate sb k) u (fun _ u => LogsBut 0 X t u ∧ (u.inode k).inum = (t.inode k).inum)
        fun _ => LogsBut 0 X t := by
    intro u hlogs hinum
    simp only [iupdate, post_bind, post_inode, post_setDin, post_modify, post_logWrite,
      Fs.setInode_inode_self, Fs.log_inode, Fs.setDinode_inode]
    rw [hinum]
    exact ⟨hlogs.log rfl hi, rfl⟩
  refine hdirect.seq fun _ u hu => ?_
  obtain ⟨hlogs, hin, hinum⟩ := hu
  rw [post_bind, post_inode]
  refine post_ite.mpr ⟨fun hind => ?_, fun _ => hfinish u hlogs hinum⟩
  rw [post_bind]
  refine post_bdata_any (fun _ => ?_) hlogs
  have hindirect : Post ((List.range NINDIRECT).forM fun j => do
      if word (u.data (indOf u k)) j ≠ 0 then bfree sb (word (u.data (indOf u k)) j)) u
      (fun _ v => LogsBut 0 X t v ∧ v.inode = u.inode) fun _ => LogsBut 0 X t := by
    refine (Post.forM (I := fun xs v => (∀ j ∈ xs, j < NINDIRECT) ∧ LogsBut 0 X t v ∧
      v.inode = u.inode)
      ⟨fun j => List.mem_range.mp, hlogs, rfl⟩ fun j xs v hv => ?_).imp fun _ _ => And.right
    obtain ⟨hlt, hlogs, hinode⟩ := hv
    have hlt' : ∀ l ∈ xs, l < NINDIRECT := fun l hl => hlt l (List.mem_cons_of_mem _ hl)
    refine post_ite.mpr ⟨fun _ => ?_, fun _ => ⟨hlt', hlogs, hinode⟩⟩
    refine (bfree_logs hsb hmap (hin.word hind j (hlt j List.mem_cons_self))).mono
      (fun _ w hw => ?_) fun _ _ => hlogs.trans
    exact ⟨hlt', hlogs.trans hw.1, hw.2.1.trans hinode⟩
  refine hindirect.seq fun _ v hv => ?_
  refine (bfree_logs hsb hmap (hin.addr _)).bind (fun _ _ => hv.1.trans) fun _ w hw => ?_
  simp only [post_bind, post_inode, post_setDin]
  refine hfinish _ (hv.1.trans hw.1) ?_
  rw [Fs.setInode_inode_self, hw.2.1, hv.2]
  exact hinum

/-- **An inode is given back**, with what it takes if it is freed. -/
lemma iput_logs (hsb : sb.size ≤ BPB) (hmap : sb.bmapstart ∈ X)
    (hi : sb.iblock (t.inode k).inum ∈ X) (h : Wf sb t) (href : 0 < (t.inode k).ref) :
    Logs 0 X (iput sb k) t := by
  unfold iput acquiresleep Logs
  simp only [post_bind, post_inode]
  refine post_ite.mpr ⟨fun _ => .of_eq rfl, fun _ => ?_⟩
  have hend : ∀ u, LogsBut 0 X t u → Post (do
      releasesleep k
      let ip ← inode k
      setInode k { ip with ref := ip.ref - 1 }) u (fun _ => LogsBut 0 X t)
        fun _ => LogsBut 0 X t := by
    intro u hlogs
    simp only [releasesleep, post_bind, post_get, post_set, post_inode, post_setInode]
    exact hlogs.trans (m := 0) (.of_eq rfl)
  have hlock : LogsBut 0 X t (t.setInode k { t.inode k with lock := true }) := .of_eq rfl
  rw [post_setInode, Fs.setInode_inode_self]
  refine post_ite.mpr ⟨fun hdead => post_ite.mpr ⟨fun _ => ?_, fun _ => hend _ hlock⟩,
    fun _ => hend _ hlock⟩
  have hin : Inside sb k (t.setInode k { t.inode k with lock := true }) := by
    have hin := h.inside href hdead.1
    refine ⟨?_, ?_⟩
    · rw [Fs.setInode_inode_self]
      exact hin.addr
    · rw [indOf, Fs.setInode_inode_self]
      exact hin.word
  refine (itrunc_logs hsb hmap (by rwa [Fs.setInode_inode_self]) hin).bind (fun _ _ => hlock.trans)
    fun _ u hu => ?_
  rw [Fs.setInode_inode_self] at hu
  simp only [iupdate, post_bind, post_inode, post_setDin, post_modify, post_logWrite, post_setInode]
  refine hend _ ((hlock.trans hu.1).log (b := sb.iblock (t.inode k).inum) ?_ hi)
  rw [← hu.2]
  simp only [Fs.setInode_inode_self]
  rfl

/-! ### An entry is written -/

section Write

variable (hsb : sb.size ≤ BPB) (hmap : sb.bmapstart ∈ X)

include hsb hmap

lemma balloc_logs :
    Post (balloc sb) t (fun b u => LogsBut 0 (insert b X) t u ∧ u.inode = t.inode)
      fun _ => LogsBut 0 X t := by
  unfold balloc
  rw [post_bind, post_get]
  cases hfind : (List.range sb.size).find? (isFree t.bitmap) with
  | none => exact .of_eq rfl
  | some b =>
    have hb : b < sb.size := List.mem_range.mp (List.mem_of_find?_eq_some hfind)
    simp only [post_bind, post_set, post_logWrite, bzero, post_pure, post_bwrite]
    have hnone : LogsBut 0 X t t := .of_eq rfl
    have hbit : LogsBut 0 X t
        ((t.setByte (b / 8) (t.bitmap (b / 8) ||| (1 <<< (b % 8)))).log (sb.bblock b)) :=
      hnone.log rfl (bblock_mem hsb hmap hb)
    refine post_bdata_any (fun _ => ⟨?_, rfl⟩) hbit
    exact (hbit.grow (Finset.subset_insert b X)).log (b := b) rfl (Finset.mem_insert_self b X)

lemma ensure_logs (q : Fin (NDIRECT + 1)) :
    Post (ensure sb k q) t
      (fun b u => LogsBut 0 (insert b X) t u ∧ (u.inode k).inum = (t.inode k).inum)
      fun _ => LogsBut 0 X t := by
  unfold ensure
  simp only [post_bind, post_inode]
  refine post_ite.mpr ⟨fun _ => ?_, fun _ => ⟨.of_eq rfl, rfl⟩⟩
  refine (balloc_logs hsb hmap).seq fun b u hu => ?_
  simp only [post_bind, post_inode, post_setDin, post_pure]
  refine ⟨hu.1.trans (m := 0) (.of_eq rfl), ?_⟩
  rw [Fs.setInode_inode_self, hu.2]

/-- **`bmap`**: the block, the indirect block and the free map. -/
lemma bmap_logs (bn : ℕ) :
    Post (bmap sb k bn) t
      (fun b u => LogsBut 1 (insert b X) t u ∧ (u.inode k).inum = (t.inode k).inum)
      fun _ => LogsBut 1 X t := by
  unfold bmap
  split
  · exact (ensure_logs hsb hmap _).mono (fun _ _ hu => ⟨hu.1.mono (Nat.zero_le 1), hu.2⟩)
      fun _ _ hu => hu.mono (Nat.zero_le 1)
  refine post_ite.mpr ⟨fun _ => ?_, fun _ => .of_eq rfl⟩
  refine (ensure_logs hsb hmap _).bind (fun _ _ hu => hu.mono (Nat.zero_le 1)) fun ind u hu => ?_
  rw [post_bind]
  refine post_bdata_any (fun _ => ?_) hu.1.count
  refine post_ite.mpr ⟨fun _ => ?_, fun _ => ⟨hu.1.count.grow (Finset.subset_insert ..), hu.2⟩⟩
  refine (balloc_logs hsb hmap).bind (fun _ _ hv => hu.1.count.trans hv) fun b v hv => ?_
  simp only [post_bind, post_get, post_bwrite, post_pure]
  -- The indirect block is logged again.
  have hboth : LogsBut 0 (insert ind (insert b X)) t v :=
    (hu.1.grow (Finset.insert_subset_insert _ (Finset.subset_insert ..))).trans
      (m := 0) (hv.1.grow (Finset.subset_insert ..))
  refine ⟨(hboth.log (b := ind) rfl (Finset.mem_insert_self ..)).count, ?_⟩
  change (v.inode k).inum = _
  rw [hv.2]
  exact hu.2

/-- An entry lies in one block. -/
lemma writeLoop_logs {src : List ℕ} (hsrc : src.length = DESIZE) (fuel j : ℕ) :
    Post (writeLoop sb k fuel (DESIZE * j) src) t
      (fun _ u => LogsBut 2 X t u ∧ (u.inode k).inum = (t.inode k).inum)
      fun _ => LogsBut 2 X t := by
  cases fuel with
  | zero => exact ⟨.of_eq rfl, rfl⟩
  | succ fuel =>
    have hmin : min src.length (BSIZE - DESIZE * j % BSIZE) = DESIZE := by
      rw [hsrc]
      simp only [DESIZE, DIRSIZ, BSIZE]
      omega
    unfold writeLoop
    rw [if_neg (by rw [hsrc]; decide)]
    refine (bmap_logs hsb hmap _).bind (fun _ _ hu => hu.mono (by decide)) fun b u hu => ?_
    rw [post_bind]
    refine post_bdata_any (fun _ => ?_) hu.1.count
    have hdrop : src.drop DESIZE = [] := List.drop_eq_nil_of_le hsrc.le
    simp only [post_bind, post_bwrite, hmin, hdrop]
    have hlogs := (hu.1.log
      (u := (u.setData b (splice (u.data b) (DESIZE * j % BSIZE) (src.take DESIZE))).log b)
      (b := b) rfl (Finset.mem_insert_self ..)).count
    cases fuel with
    | zero => exact ⟨hlogs, hu.2⟩
    | succ fuel =>
      unfold writeLoop
      rw [if_pos List.length_nil]
      exact ⟨hlogs, hu.2⟩

/-- **An entry is written.** -/
lemma writei_logs {src : List ℕ} (hsrc : src.length = DESIZE)
    (hi : sb.iblock (t.inode k).inum ∈ X) (j : ℕ) : Logs 2 X (writei sb k src (DESIZE * j)) t := by
  unfold writei Logs
  simp only [post_bind, post_inode]
  refine post_ite.mpr ⟨fun _ => ?_, fun _ => ?_⟩
  · refine post_ite.mpr ⟨fun _ => .of_eq rfl, fun _ => ?_⟩
    refine iunlock_disk.bind (fun _ _ h => .of_eq h.logged) fun _ u hu => ?_
    exact ilock_disk.bind (fun _ _ h => .of_eq (hu.trans h).logged)
      fun _ _ h => .of_eq (hu.trans h).logged
  refine post_ite.mpr ⟨fun _ => .of_eq rfl, fun _ => ?_⟩
  refine post_ite.mpr ⟨fun _ => .of_eq rfl, fun _ => ?_⟩
  refine (writeLoop_logs hsb hmap hsrc _ j).seq fun _ u hu => ?_
  simp only [post_bind, post_inode]
  refine post_ite.mpr ⟨fun _ => ?_, fun _ => hu.1⟩
  simp only [post_bind, post_setDin, iupdate, post_inode, post_modify, post_logWrite, post_pure,
    Fs.setInode_inode_self]
  rw [hu.2]
  exact hu.1.log rfl hi

end Write

section

variable (h : Midcall sb B N H L t) (hk : (dp, d) ∈ H) (hL : dp ∈ L) (hdir : (N d).type = .dir)
  (hsize : tidy → DESIZE ∣ (N d).size)

include h hk hL hdir hsize

lemma emptyLoop_quiet (fuel j : ℕ) : Quiet tidy (emptyLoop sb dp fuel (DESIZE * j)) t := by
  have hdin : (t.inode dp).din.size = (N d).size := by rw [node_eq h hk hL]
  induction fuel generalizing j with
  | zero => exact .pure _
  | succ fuel ih =>
    rw [emptyLoop, Quiet, post_bind, post_inode, hdin, post_ite]
    refine ⟨fun hlt => ?_, fun _ => .refl t⟩
    refine (readDirent_quiet h hk hL hdir hlt hsize _).bind
      (readDirent_spec h hk hL hdir j (by decide) (by decide)) fun de t' hde => ?_
    obtain ⟨rfl, -, -⟩ := hde
    exact post_ite.mpr ⟨fun _ => .refl _, fun _ => ih (j + 1)⟩

lemma emptyDirLoop_quiet (fuel j : ℕ) : Quiet tidy (emptyDirLoop sb dp fuel (DESIZE * j)) t := by
  have hdin : (t.inode dp).din.size = (N d).size := by rw [node_eq h hk hL]
  induction fuel generalizing j with
  | zero => exact .pure _
  | succ fuel ih =>
    rw [emptyDirLoop, Quiet, post_bind, post_inode, hdin, post_ite]
    refine ⟨fun hlt => ?_, fun _ => .refl t⟩
    refine (readDirent_quiet h hk hL hdir hlt hsize _).bind
      (readDirent_spec h hk hL hdir j (by decide) (by decide)) fun de t' hde => ?_
    obtain ⟨rfl, -, -⟩ := hde
    exact post_ite.mpr ⟨fun _ => .refl _, fun _ => ih (j + 1)⟩

end

lemma isFullDir_quiet (h : Midcall sb B N H L t) (hk : (k, i) ∈ H) (hL : k ∈ L)
    (hsize : tidy → (N i).type = .dir → DESIZE ∣ (N i).size) : Quiet tidy (isFullDir sb k) t := by
  have hN := node_eq h hk hL
  have htype : (t.inode k).din.type = (N i).type := by rw [hN]
  rw [isFullDir, Quiet, post_bind, post_inode, htype, post_ite]
  refine ⟨fun hdir => ?_, fun _ => .refl t⟩
  rw [post_bind, isdirempty, post_bind, post_inode, Nat.mul_comm]
  exact emptyDirLoop_quiet h hk hL hdir (fun ht => hsize ht hdir) _ 2

lemma dirlookup_logs (h : Midcall sb B N H L t) (hk : (dp, d) ∈ H) (hL : dp ∈ L) (name : List ℕ) :
    Logs 0 X (dirlookup sb dp name) t := by
  by_cases hdir : (N d).type = .dir
  · exact .of_quiet (dirlookup_quiet h hk hL hdir False.elim name)
  · have htype : (t.inode dp).din.type = (N d).type := by rw [node_eq h hk hL]
    rw [dirlookup, Logs, post_bind, post_inode, if_pos (by rwa [htype])]
    exact .of_eq rfl

/-! ### Files without links -/

/-- Every file without links is held. -/
def AllHeld (B : Ip → Inode) (N : ℕ → Node) : Prop := ∀ i, ¬Loose B N i

namespace AllHeld

lemma kept (h : AllHeld B N) : Kept B N := ⟨h _, fun _ _ _ _ _ => h _⟩

lemma putEntry (h : AllHeld B N) (d j x : ℕ) (name : List ℕ) :
    AllHeld B (putEntry N d j x name) := by
  intro i hi
  by_cases hid : i = d
  · subst hid
    unfold Loose Files.putEntry at hi
    rw [update_self] at hi
    exact h i hi
  · unfold Loose Files.putEntry at hi
    rw [update_of_ne hid] at hi
    exact h i hi

lemma addNlink (h : AllHeld B N) (hroom : 0 ≤ (N i).nlink ∧ (N i).nlink < 2 ^ 15) :
    AllHeld B (addNlink N i 1) :=
  fun j => not_loose_addNlink hroom (h j)

/-- A new file has a link. -/
lemma newNode (h : AllHeld B N) (i : ℕ) (ty : InodeType) (major minor : ℤ) :
    AllHeld B (update N i (newNode ty major minor)) := by
  intro j hj
  by_cases hji : j = i
  · subst hji
    have hzero := hj.2.1
    rw [update_self] at hzero
    cases hzero
  · unfold Loose at hj
    rw [update_of_ne hji] at hj
    exact h j hj

/-- A file that `create` has made. -/
lemma makeAt (h : AllHeld B N) (hid : i ≠ d) (hroom : 0 ≤ (N d).nlink ∧ (N d).nlink < 2 ^ 15)
    (ty : InodeType) (major minor : ℤ) : AllHeld B (makeAt N d i ty major minor) := by
  have hnew := h.newNode i ty major minor
  unfold Files.makeAt
  split
  · refine ((hnew.addNlink ?_).putEntry _ _ _ _).putEntry _ _ _ _
    rwa [update_of_ne hid.symm]
  · exact hnew

end AllHeld

section Calls

variable (hsb : sb.size ≤ BPB) (hmap : sb.bmapstart ∈ X)

lemma iput_held_logs (hheld : AllHeld B N) (h : Midcall sb B N ((k, i) :: H) L t) :
    Logs n X (iput sb k) t := by
  by_cases hk : k ∈ L
  · rw [iput, acquiresleep, Logs, post_bind, post_bind, post_inode, (h.lock k).mpr hk, if_pos rfl]
    exact .of_eq rfl
  · have hquiet : Quiet False (iput sb k) t := iput_quiet h hk (hheld i)
    exact .of_quiet hquiet

include hsb hmap

/-- **`dirlink`**: the block of the entry and the indirect block, apart from the free map and the
inode. -/
lemma dirlink_logs (hheld : AllHeld B N) (h : Midcall sb B N H L t) (hk : (dp, d) ∈ H) (hL : dp ∈ L)
    (hd : sb.iblock d ∈ X) (name : List ℕ) (inum : ℕ) : Logs 2 X (dirlink sb dp name inum) t := by
  have hlook : Post (dirlookup sb dp name) t
      (fun r t' => (N d).type = .dir ∧ Looked sb B N H L d name r t') (Err False) :=
      dirlookup_spec h hk hL name
  refine Logs.bind (n := 0) (m := 2) (dirlookup_logs h hk hL name) hlook fun r t₁ hr => ?_
  obtain ⟨hdir, hr⟩ := hr
  cases hr with
  | present _ _ _ h₁ =>
    have hput : Post (iput sb _) t₁ _ (Err False) := iput_spec h₁
    exact Logs.bind (n := 2) (m := 0) (iput_held_logs hheld h₁) hput fun _ _ _ => .pure _
  | absent h₁ _ =>
    have hsize : (t₁.inode dp).din.size = (N d).size := by rw [node_eq h₁ hk hL]
    have hempty : Post (emptyLoop sb dp ((N d).size + 1) (DESIZE * 0)) t₁
        (fun off t' => t' = t₁ ∧ ∃ l, off = DESIZE * l ∧ (N d).Vacant l) (Err False) :=
      emptyLoop_spec h₁ hk hL hdir (by omega) (fun _ hl => absurd hl (Nat.not_lt_zero _))
        (Nat.zero_le _)
    rw [Logs, post_bind, post_inode, hsize]
    refine Logs.quiet_bind (emptyLoop_quiet h₁ hk hL hdir False.elim _ 0) hempty
      fun off t₂ ht₂ => ?_
    obtain ⟨rfl, j, rfl, -⟩ := ht₂
    have hinum : (t₂.inode dp).inum = d := h₁.held _ hk
    have hlen : (Dirent.toBytes ⟨inum, strncpy name DIRSIZ⟩).length = DESIZE :=
      Node.toBytes_length (strncpy_length ..)
    have hany : Post (writei sb dp (Dirent.toBytes ⟨inum, strncpy name DIRSIZ⟩) (DESIZE * j)) t₂
        (fun _ _ => True) fun _ _ => True := .of_forall (fun _ _ => trivial) fun _ _ => trivial
    refine Logs.bind (n := 2) (m := 0) (writei_logs hsb hmap hlen (by rwa [hinum]) j) hany
      fun r t₃ _ => ?_
    cases r with
    | none => exact .of_eq rfl
    | some n => exact post_ite.mpr ⟨fun _ => .of_eq rfl, fun _ => .of_eq rfl⟩

end Calls

/-! ### Steps of a call -/

section Steps

variable {f : Unit → FsM β}

lemma ilock_logs (h : Midcall sb B N H L t) (hk : (k, i) ∈ H)
    (hf : ∀ t', Midcall sb B N H (insert k L) t' → k ∉ L → Logs n X (f ()) t') :
    Logs n X (ilock sb k >>= f) t := by
  have hspec : Post (ilock sb k) t (fun _ t' => Locked sb B N H L k t t') (Err False) :=
    ilock_spec h hk False.elim
  have hlock : Logs 0 X (ilock sb k) t := .of_disk ilock_disk
  exact (hlock.bind hspec fun _ t' ht' => hf t' ht'.mid ht'.notMem).mono (Nat.zero_add n).le

/-- An inode is unlocked and given back, and it may be freed. -/
lemma iunlockput_logs (hsb : sb.size ≤ BPB) (hmap : sb.bmapstart ∈ X) (hi : sb.iblock i ∈ X)
    (h : Midcall sb B N ((k, i) :: H) (insert k L) t) (hk : k ∉ L)
    (hf : ∀ t', Midcall sb B N H L t' → Logs n X (f ()) t') :
    Logs n X (iunlockput sb k >>= f) t := by
  have hspec : Post (iunlockput sb k) t _ (Err False) := iunlockput_spec h hk
  have hput : Logs 0 X (iunlockput sb k) t := by
    have hunlock : Post (iunlock k) t _ (Err False) := iunlock_spec h hk
    refine Logs.bind (n := 0) (m := 0) (.of_disk iunlock_disk) hunlock fun _ t' ht' => ?_
    have hinum : (t'.inode k).inum = i := ht'.1.held _ List.mem_cons_self
    exact iput_logs hsb hmap (by rwa [hinum]) ht'.1.wf (ht'.1.pos List.mem_cons_self)
  exact (hput.bind hspec fun _ t' ht' => hf t' ht'.1).mono (Nat.zero_add n).le

/-- An inode that is held is unlocked and given back. -/
lemma release_logs (hheld : AllHeld B N) (h : Midcall sb B N ((k, i) :: H) (insert k L) t)
    (hk : k ∉ L) (hf : ∀ t', Midcall sb B N H L t' → Logs n X (f ()) t') :
    Logs n X (iunlockput sb k >>= f) t := by
  have hspec : Post (iunlockput sb k) t _ (Err False) := iunlockput_spec h hk
  have hquiet : Quiet False (iunlockput sb k) t := iunlockput_quiet h hk (hheld i)
  exact .quiet_bind hquiet hspec fun _ t' ht' => hf t' ht'.1

lemma addLinks_logs (hi : sb.iblock i ∈ X) (h : Midcall sb B N H L t) (hk : (k, i) ∈ H)
    (hL : k ∈ L) (x : ℤ) (hf : ∀ t', Midcall sb B (addNlink N i x) H L t' → Logs n X (f ()) t') :
    Logs n X (addLinks sb k x >>= f) t := by
  have hspec : Post (addLinks sb k x) t _ (Err False) := addLinks_spec h hk hL x
  have hinum : (t.inode k).inum = i := h.held _ hk
  have hlinks : Logs 0 X (addLinks sb k x) t := by
    unfold addLinks iupdate Logs
    simp only [post_bind, post_inode, post_setDin, post_modify, post_logWrite,
      Fs.setInode_inode_self, hinum]
    have hnone : LogsBut 0 X t t := .of_eq rfl
    exact hnone.log (b := sb.iblock i) rfl hi
  exact (hlinks.bind hspec fun _ t' ht' => hf t' ht'.1).mono (Nat.zero_add n).le

end Steps

/-- **A path lookup** logs nothing: what is on the way is held. -/
lemma namex_logs {f : Option (Ip × List ℕ) → FsM β} (hheld : AllHeld B N) (hcwd : 0 < (B cwd).ref)
    (h : Midcall sb B N H ∅ t) (path : List ℕ) (parent : Bool)
    (hnone : ∀ t', Midcall sb B N H ∅ t' → Logs n X (f none) t')
    (hsome : ∀ k i name t', Midcall sb B N ((k, i) :: H) ∅ t' → Logs n X (f (some (k, name))) t') :
    Logs n X (namex sb cwd path parent >>= f) t := by
  have hspec : Post (namex sb cwd path parent) t _ (Err False) :=
    namex_spec (Start.weak hcwd) h path parent
  refine .quiet_bind (namex_quiet hheld.kept False.elim hcwd h False.elim False.elim path parent)
    hspec fun r t' hr => ?_
  cases hr with
  | absent h' _ => exact hnone t' h'
  | present _ _ _ h' => exact hsome _ _ _ t' h'

lemma namei_logs {f : Option Ip → FsM β} (hheld : AllHeld B N) (hcwd : 0 < (B cwd).ref)
    (h : Midcall sb B N H ∅ t) (path : List ℕ)
    (hnone : ∀ t', Midcall sb B N H ∅ t' → Logs n X (f none) t')
    (hsome : ∀ k i t', Midcall sb B N ((k, i) :: H) ∅ t' → Logs n X (f (some k)) t') :
    Logs n X (namei sb cwd path >>= f) t := by
  rw [namei, bind_assoc]
  refine namex_logs hheld hcwd h path false (fun t' h' => ?_) fun k i name t' h' => ?_
  · exact hnone t' h'
  · exact hsome k i t' h'

end Xv6.Files
