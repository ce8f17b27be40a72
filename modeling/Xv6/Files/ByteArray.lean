import Xv6.Files.NodeOps

/-!
A file is an array of bytes (`readi`, `writei`).

* `freeBlocks`, `missing`: the blocks that are free, and the places that a write has to fill.
* `NoBlocks.lt_missing`: a write stops only if fewer blocks are free than it has to add.
* `writei_bytes`: what `writei` does to a file, and what `readi` gives then.
-/

namespace Xv6.Files

open Xv6.Fs Transition Function

/-! ### Room -/

instance (bn : ℕ) : DecidablePred (PlacesAt bn) := fun _ => instDecidableOr

instance (off n : ℕ) : DecidablePred (PlacesFor off n) := fun _ => Nat.decidableExistsLT ..

/-- How many blocks are free. -/
def freeBlocks (sb : Superblock) (bitmap : ℕ → ℕ) : ℕ :=
  ((Finset.range sb.size).filter fun b => isFree bitmap b = true).card

/-- The places for bytes of a file that have no block yet. -/
def missing (data : ℕ → Bytes) (d : Dinode) (off n : ℕ) : Finset Place :=
  Finset.univ.filter fun p => PlacesFor off n p ∧ slotAddr data d p = 0

variable {sb : Superblock} {t u : Fs} {k : Ip} {off n : ℕ}

/-- A block that was free and is not is in a place that was empty. -/
lemma Added.place {P : Place → Prop} (h : Added sb k P t u)
    (hs : Sound sb (view t k) t.bitmap t.data) {b : ℕ} (hb : b < sb.size)
    (hfree : isFree t.bitmap b = true) (hused : isFree u.bitmap b = false) :
    ∃ p, P p ∧ slotAddr t.data (t.inode k).din p = 0 ∧ slotAddr u.data (u.inode k).din p = b := by
  have hge : ¬b < sb.nmeta := fun hlt => by
    rw [hs.isFree_nmeta hlt] at hfree
    cases hfree
  obtain hlt | ⟨⟨i, p⟩, hx0, hx⟩ := (h.sound.owned.used b hb).mp (by rw [hused]; rfl)
  · exact absurd hlt hge
  have htype : (view u k i).type ≠ .free := by
    intro hf
    rw [addrOf, if_pos hf] at hx0
    exact hx0 rfl
  rw [addrOf, if_neg htype] at hx hx0
  rw [h.type] at htype
  -- The place had no block: a block that it had would have been marked.
  have hzero : slotAddr t.data (view t k i) p = 0 := by
    by_contra hne
    have hmark := hs.isFree_slotAddr htype hne
    rw [← h.addr i p htype hne, hx, hfree] at hmark
    cases hmark
  have hP : i = (t.inode k).inum ∧ P p := by
    by_contra hout
    exact hx0 (h.only i p htype hzero hout)
  obtain ⟨rfl, hp⟩ := hP
  refine ⟨p, hp, by rwa [view_self] at hzero, ?_⟩
  rwa [← h.inum, view_self] at hx

/-- The blocks that are not free any more are in places that were empty and are filled. -/
lemma Added.freeBlocks_le (h : Added sb k (PlacesFor off n) t u)
    (hs : Sound sb (view t k) t.bitmap t.data) :
    freeBlocks sb t.bitmap ≤ freeBlocks sb u.bitmap + ((missing t.data (t.inode k).din off n).filter
      fun p => slotAddr u.data (u.inode k).din p ≠ 0).card := by
  have hsub : (Finset.range sb.size).filter (fun b => isFree t.bitmap b = true)
      ⊆ (Finset.range sb.size).filter (fun b => isFree u.bitmap b = true) ∪
        ((missing t.data (t.inode k).din off n).filter
          fun p => slotAddr u.data (u.inode k).din p ≠ 0).image
          (slotAddr u.data (u.inode k).din) := by
    intro b hb
    obtain ⟨hlt, hfree⟩ := Finset.mem_filter.mp hb
    rw [Finset.mem_range] at hlt
    by_cases hstill : isFree u.bitmap b = true
    · exact Finset.mem_union_left _ (Finset.mem_filter.mpr ⟨Finset.mem_range.mpr hlt, hstill⟩)
    · obtain ⟨p, hp, hz, hpb⟩ := h.place hs hlt hfree (Bool.eq_false_of_not_eq_true hstill)
      refine Finset.mem_union_right _
        (Finset.mem_image.mpr ⟨p, Finset.mem_filter.mpr ⟨?_, fun h0 => ?_⟩, hpb⟩)
      · exact Finset.mem_filter.mpr ⟨Finset.mem_univ _, hp, hz⟩
      · rw [h0] at hpb
        rw [← hpb, hs.isFree_nmeta (Sound.nmeta_pos sb)] at hfree
        cases hfree
  calc freeBlocks sb t.bitmap
      ≤ _ := Finset.card_le_card hsub
    _ ≤ _ := Finset.card_union_le ..
    _ ≤ _ := Nat.add_le_add_left Finset.card_image_le _

/-- A place that is empty was empty. -/
lemma Added.slotAddr_zero {P : Place → Prop} (h : Added sb k P t u)
    (hk : (t.inode k).din.type ≠ .free) {p : Place} (hp : slotAddr u.data (u.inode k).din p = 0) :
    slotAddr t.data (t.inode k).din p = 0 := by
  by_contra hne
  have hsame := h.addr (t.inode k).inum p (by rwa [view_self]) (by rwa [view_self])
  rw [← h.inum, view_self, h.inum, view_self, hp] at hsame
  exact hne hsame.symm

/-- **Want of a block**: fewer blocks were free than places had to be filled. -/
lemma NoBlocks.lt_missing {e : Stop} (h : NoBlocks sb k (PlacesFor off n) t e u)
    (hs : Sound sb (view t k) t.bitmap t.data) (hk : (t.inode k).din.type ≠ .free) :
    freeBlocks sb t.bitmap < (missing t.data (t.inode k).din off n).card := by
  obtain ⟨p₀, hp₀, hz₀⟩ := h.empty
  have hmem : p₀ ∈ missing t.data (t.inode k).din off n :=
    Finset.mem_filter.mpr ⟨Finset.mem_univ _, hp₀, h.added.slotAddr_zero hk hz₀⟩
  have hnone : freeBlocks sb u.bitmap = 0 := by
    refine Finset.card_eq_zero.mpr (Finset.filter_eq_empty_iff.mpr fun b hb => ?_)
    rw [h.full b (Finset.mem_range.mp hb)]
    exact Bool.false_ne_true
  have hfilled : ((missing t.data (t.inode k).din off n).filter
      fun p => slotAddr u.data (u.inode k).din p ≠ 0).card
        < (missing t.data (t.inode k).din off n).card :=
    Finset.card_lt_card (Finset.filter_ssubset.mpr ⟨p₀, hmem, not_not.mpr hz₀⟩)
  have hle := h.added.freeBlocks_le hs
  omega

/-- **Enough blocks for the rest**: a part has been written and the blocks were enough for all. -/
lemma Added.enough {m : ℕ} (h : Added sb k (PlacesFor off m) t u)
    (hs : Sound sb (view t k) t.bitmap t.data) (hk : (t.inode k).din.type ≠ .free) (hm : m ≤ n)
    (henough : (missing t.data (t.inode k).din off n).card ≤ freeBlocks sb t.bitmap) :
    (missing u.data (u.inode k).din (off + m) (n - m)).card ≤ freeBlocks sb u.bitmap := by
  have hrest : missing u.data (u.inode k).din (off + m) (n - m)
      ⊆ (missing t.data (t.inode k).din off n).filter
        fun p => slotAddr u.data (u.inode k).din p = 0 := by
    intro p hp
    obtain ⟨-, ⟨j, hj, hplace⟩, hz⟩ := Finset.mem_filter.mp hp
    refine Finset.mem_filter.mpr ⟨Finset.mem_filter.mpr ⟨Finset.mem_univ _, ⟨m + j, by omega, ?_⟩,
      h.slotAddr_zero hk hz⟩, hz⟩
    rwa [← Nat.add_assoc]
  have hfilled :
      (missing t.data (t.inode k).din off m).filter (fun p => slotAddr u.data (u.inode k).din p ≠ 0)
      ⊆ (missing t.data (t.inode k).din off n).filter
        fun p => slotAddr u.data (u.inode k).din p ≠ 0 := by
    refine Finset.filter_subset_filter _ (Finset.monotone_filter_right _ ?_)
    rintro p - ⟨⟨j, hj, hplace⟩, hz⟩
    exact ⟨⟨j, hj.trans_le hm, hplace⟩, hz⟩
  have hsplit :
      ((missing t.data (t.inode k).din off n).filter
      fun p => slotAddr u.data (u.inode k).din p = 0).card
      + ((missing t.data (t.inode k).din off n).filter
        fun p => slotAddr u.data (u.inode k).din p ≠ 0).card
      = (missing t.data (t.inode k).din off n).card := Finset.card_filter_add_card_filter_not _
  have hle := h.freeBlocks_le hs
  have hcard := Finset.card_le_card hrest
  have hcard' := Finset.card_le_card hfilled
  omega

/-! ### Bytes -/

variable {B : Ip → Inode} {N : ℕ → Node} {H : List (Ip × ℕ)} {L : Set Ip} {i : ℕ} {src : List ℕ}

/-- With enough blocks `writei` returns. -/
lemma writei_enough (h : Midcall sb B N H L t) (hk : (k, i) ∈ H) (hL : k ∈ L)
    (hdev : (N i).type ≠ .dev)
    (henough : (missing t.data (t.inode k).din off src.length).card ≤ freeBlocks sb t.bitmap) :
    ∃ r u, writei sb k src off t = .ok r u ∧ WrittenFile sb B N H L k i src off t r u := by
  refine (writei_file_spec h hk hL src off hdev).total fun e u he => ?_
  obtain ⟨-, htype, hdin⟩ := h.node_of_locked hk hL
  exact absurd henough (not_le.mpr (he.lt_missing (h.sound_of_locked hL).2 (by rwa [hdin])))

/-- What is out of range is refused. -/
lemma writei_range (hdev : (t.inode k).din.type ≠ .dev)
    (hout : (t.inode k).din.size < off ∨ 2 ^ 32 ≤ off + src.length ∨
      MAXFILE * BSIZE < off + src.length) : writei sb k src off t = .ok none t := by
  have hspec : Post (writei sb k src off) t (fun r u => u = t ∧ r = none) fun _ _ => False := by
    rw [writei, post_bind, post_inode, if_neg hdev]
    split
    · exact ⟨rfl, rfl⟩
    · rw [if_pos]
      · exact ⟨rfl, rfl⟩
      · have hlt : MAXFILE * BSIZE < 2 ^ 32 := by decide
        omega
  obtain ⟨_, _, hres, rfl, rfl⟩ := hspec.total fun _ _ => id
  exact hres

/-- `readi` gives the bytes of the file `x` and changes nothing. -/
def ReadsBytes (sb : Superblock) (k : Ip) (x : Node) (t : Fs) : Prop :=
  ∀ off < 2 ^ 32, ∀ n < 2 ^ 32,
    (off ≤ x.size → off + n < 2 ^ 32 → readi sb k off n t
      = .ok (some ((List.range (min n (x.size - off))).map fun j => x.byte (off + j))) t) ∧
    (x.size < off ∨ 2 ^ 32 ≤ off + n → readi sb k off n t = .ok none t)

lemma readsBytes (h : Midcall sb B N H L t) (hk : (k, i) ∈ H) (hL : k ∈ L)
    (hdev : (N i).type ≠ .dev) : ReadsBytes sb k (N i) t := by
  intro off hoff n hn
  obtain ⟨_, _, hread, rfl, rfl⟩ := (readi_file_spec h hk hL off n hdev).total fun _ _ => id
  rw [hread]
  refine ⟨fun hle hlt => ?_, fun hout => ?_⟩
  · rw [Node.read, if_neg (by rw [Nat.mod_eq_of_lt hlt]; omega)]
    have hmin : (if (N i).size < off + n then (N i).size - off else n)
        = min n ((N i).size - off) := by
      split <;> omega
    rw [hmin]
  · rw [Node.read, if_pos]
    refine hout.imp_right fun hwrap => ?_
    rw [Nat.mod_eq_sub_mod hwrap, Nat.mod_eq_of_lt (by omega)]
    omega

/-- **A file is an array of bytes**: with enough blocks `writei` replaces bytes of a file that is
locked, and adds those behind its end; what is out of range is refused and changes nothing; and
`readi` gives the bytes that are there. -/
theorem writei_bytes (h : Wf sb t) (hlock : (t.inode k).lock = true)
    (htype : (t.inode k).din.type = .file ∨ (t.inode k).din.type = .dir) (off : ℕ) (src : List ℕ) :
    (off ≤ (t.inode k).din.size → off + src.length ≤ MAXFILE * BSIZE →
      (missing t.data (t.inode k).din off src.length).card ≤ freeBlocks sb t.bitmap →
      ∃ u, writei sb k src off t = .ok (some src.length) u ∧ Wf sb u ∧
        node u (t.inode k).inum =
          { node t (t.inode k).inum with
            size := if 0 < src.length then max (t.inode k).din.size (off + src.length)
              else (t.inode k).din.size
            byte := fun o => if off ≤ o ∧ o < off + src.length then src.getD (o - off) 0
              else (node t (t.inode k).inum).byte o } ∧
        (∀ j ≠ (t.inode k).inum, node u j = node t j) ∧
        ReadsBytes sb k (node u (t.inode k).inum) u) ∧
    (((t.inode k).din.size < off ∨ 2 ^ 32 ≤ off + src.length ∨ MAXFILE * BSIZE < off + src.length) →
      writei sb k src off t = .ok none t ∧ ReadsBytes sb k (node t (t.inode k).inum) t) := by
  obtain ⟨href, hvalid⟩ := h.held k hlock
  have hmid := Midcall.holding h href
  have hk : (k, (t.inode k).inum) ∈ [(k, (t.inode k).inum)] := List.mem_singleton_self _
  have hN := node_eq hmid hk hlock
  have hdev : (node t (t.inode k).inum).type ≠ .dev := by
    rw [hN]
    rintro hdev
    rcases htype with hfile | hdir
    · exact absurd (hdev.symm.trans hfile) (by decide)
    · exact absurd (hdev.symm.trans hdir) (by decide)
  have hsize : (node t (t.inode k).inum).size = (t.inode k).din.size := by rw [hN]
  refine ⟨fun hoff hmax henough => ?_, fun hout => ?_⟩
  · obtain ⟨r, u, hres, hr⟩ := writei_enough hmid hk hlock hdev henough
    have hwrite := Node.write_eq_some.mpr ⟨hsize.symm ▸ hoff, hmax, rfl⟩
    cases hr with
    | range hnone =>
      rw [hnone] at hwrite
      cases hwrite
    | done hx hu =>
      obtain ⟨hmid', hother, -⟩ := hu
      rw [hwrite] at hx
      cases hx
      have hnode := (hmid'.node_of_locked hk hlock).1
      have hreads := readsBytes hmid' hk hlock (by rwa [update_self])
      rw [← hnode] at hreads
      refine ⟨u, hres, hmid'.wf, ?_, hother, hreads⟩
      rw [hnode, update_self]
      refine Node.ext rfl rfl rfl rfl ?_ rfl
      simp only [hsize]
      split <;> omega
  · have hdev' : (t.inode k).din.type ≠ .dev := by rwa [hN] at hdev
    exact ⟨writei_range hdev' hout, readsBytes hmid hk hlock hdev⟩

/-- A disk with 8 inodes and 15 data blocks. -/
def smallDisk : Superblock where
  size := 20
  ninodes := 8
  inodestart := 2
  bmapstart := 4
  size_lt := by decide
  inodes := by decide
  room := by decide
  ninodes_le := by decide
  root := by decide

/-- An empty file has the number 2. -/
lemma sound_emptyFile : Sound sb (update (fun _ => .fresh .free) 2 (.fresh .file))
    (firstUsed sb.nmeta) fun _ _ => 0 := by
  refine .oneEach [] List.nodup_nil sb.room.le (fun i hi => absurd hi List.not_mem_nil)
    fun i _ => ?_
  by_cases hi : i = 2
  · rw [hi, update_self]
    exact ⟨rfl, fun _ => rfl⟩
  · rw [update_of_ne hi]
    exact ⟨rfl, fun _ => rfl⟩

/-- The file is locked. -/
def lockedFile : Fs where
  dinode := update (fun _ => .fresh .free) 2 (.fresh .file)
  bitmap := firstUsed smallDisk.nmeta
  data := fun _ _ => 0
  inode := update (fun _ => {}) (Fin.last 49)
    { inum := 2, ref := 1, lock := true, valid := true, din := .fresh .file }

lemma wf_lockedFile (hsb : sb.nmeta = smallDisk.nmeta) : Wf sb lockedFile := by
  refine .one (hsb ▸ sound_emptyFile) (fun _ => ⟨?_, InodeType.noConfusion⟩)
    fun _ => ⟨Nat.one_pos, rfl⟩
  rfl

/-- Three bytes are written at the beginning, and then read. -/
theorem writei_bytes_three :
    ∃ u, writei smallDisk (Fin.last 49) [7, 8, 9] 0 lockedFile = .ok (some 3) u ∧
    (node u 2).size = 3 ∧ readi smallDisk (Fin.last 49) 1 5 u = .ok (some [8, 9]) u := by
  have hself : lockedFile.inode (Fin.last 49)
      = { inum := 2, ref := 1, lock := true, valid := true, din := .fresh .file } := by
    simp only [lockedFile, update_self]
  have hbytes :=
    (writei_bytes (wf_lockedFile rfl) (k := Fin.last 49) (by rw [hself])
      (.inl (by rw [hself]; rfl)) 0 [7, 8, 9]).1 (Nat.zero_le _) (by decide)
  rw [hself] at hbytes
  obtain ⟨u, hres, -, hnode, -, hreads⟩ := hbytes (by decide +kernel)
  refine ⟨u, hres, ?_, ?_⟩
  · rw [hnode]
    rfl
  · rw [(hreads 1 (by decide) 5 (by decide)).1 (by rw [hnode]; decide) (by decide), hnode]
    rfl

end Xv6.Files
