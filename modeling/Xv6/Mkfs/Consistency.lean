import Xv6.Mkfs.Run

/-!
The image that `mkfs` writes is consistent.

* `finish_dinodes`, `finish_data`, `finish_isFree`: the image in the end.
* `Fits`: the files fit in the image; `Fits.main`: then `mkfs` makes it.
* `Consistent`: what the kernel relies on.
-/

namespace Xv6.Mkfs

open Xv6.Files Transition Function
open Xv6.Fs hiding word

variable {m : Host} {files : List Input}

/-! ### The image in the end -/

/-- The size that the root directory has in the end. -/
def rounded (n : ℕ) : ℕ := (n / BSIZE + 1) * BSIZE

lemma le_rounded (n : ℕ) : n ≤ rounded n := by
  have := Nat.div_add_mod' n BSIZE
  have hrem : n % BSIZE < BSIZE := Nat.mod_lt _ (by norm_num)
  rw [rounded, Nat.succ_mul]
  omega

variable {b : ℕ}

lemma finish_of_ne (hb : b ≠ sb.bmapstart) : (finish m).disk b
    = setRaw m.disk ROOTINO { getDinode (m.disk (iblock ROOTINO)) (ROOTINO % IPB) with
        size := rounded (getDinode (m.disk (iblock ROOTINO)) (ROOTINO % IPB)).size } b := by
  simp only [finish, update_of_ne hb, rounded]

lemma finish_data (hb : layout.nmeta ≤ b) : (finish m).disk b = m.disk b := by
  rw [layout_nmeta] at hb
  rw [finish_of_ne]
  · exact setRaw_of_le (by decide) hb
  · rintro rfl
    exact absurd hb (by decide)

lemma toDinode_size (r : RawDinode) (n : ℕ) :
    RawDinode.toDinode { r with size := n } = { r.toDinode with size := n } := by
  rw [RawDinode.toDinode, RawDinode.toDinode]

/-- Only the size of the root directory is changed. -/
lemma finish_dinodes (h : Made m (nodesOf files)) (hlen : files.length < NINODES) :
    dinodes (finish m).disk = update (dinodes m.disk) ROOTINO
      { dinodes m.disk ROOTINO with size := rounded (DESIZE * (files.length + 2)) } := by
  obtain ⟨hsize, hlt⟩ := rootSize h hlen
  have hroot : ROOTINO < NINODES := by decide
  obtain ⟨ht, hma, hmi, hn, -, ha⟩ := h.sized ROOTINO hroot
  have hround : rounded (getDinode (m.disk (iblock ROOTINO)) (ROOTINO % IPB)).size < 2 ^ 32 := by
    have := Nat.div_mul_le_self (getDinode (m.disk (iblock ROOTINO)) (ROOTINO % IPB)).size BSIZE
    rw [rounded, Nat.succ_mul]
    simp only [BSIZE] at *
    omega
  have hsized : RawDinode.Sized { getDinode (m.disk (iblock ROOTINO)) (ROOTINO % IPB) with
      size := rounded (getDinode (m.disk (iblock ROOTINO)) (ROOTINO % IPB)).size } :=
    ⟨ht, hma, hmi, hn, hround, ha⟩
  rw [dinodes_of_lt hroot, ← hsize, ← toDinode_size, ← dinodes_setRaw hroot hsized]
  funext j
  by_cases hj : j < NINODES
  · rw [dinodes_of_lt hj, dinodes_of_lt hj, finish_of_ne (iblock_lt hj).2.ne]
  · rw [dinodes_of_le (not_lt.mp hj), dinodes_of_le (not_lt.mp hj)]

/-- The blocks before `freeblock` are marked. -/
lemma isFree_marked (n b : ℕ) :
    isFree ((List.range n).foldl
      (fun buf i => update buf (i / 8) (buf (i / 8) ||| (1 <<< (i % 8)))) fun _ => 0) b
      = decide (n ≤ b) := by
  induction n with
  | zero =>
    rw [isFree_eq]
    simp
  | succ n ih =>
    rw [List.range_succ, List.foldl_append, List.foldl_cons, List.foldl_nil, isFree_mark, ih,
      ← Bool.decide_and]
    refine decide_eq_decide.mpr ?_
    omega

lemma finish_isFree (hb : b < layout.size) :
    isFree (mount (finish m).disk).bitmap b = decide (m.freeblock ≤ b) := by
  have hb' : b < 1000 := by rwa [layout_size] at hb
  rw [← isFree_marked, isFree, isFree]
  have hk : b / 8 / BSIZE = 0 := by
    simp only [BSIZE]
    omega
  have hmod : b / 8 % BSIZE = b / 8 := by
    simp only [BSIZE]
    omega
  simp only [mount, hk, hmod, Nat.add_zero, layout_bmapstart, finish, update_self]

/-! ### A run to the end -/

/-- The files fit in the image. -/
structure Fits (files : List Input) : Prop where
  inodes : files.length + 1 < NINODES
  sizes : ∀ f ∈ files, f.contents.length ≤ MAXFILE * BSIZE
  /-- At the end, which is where it exits. -/
  blocks : (finalState (main files {})).freeblock ≤ FSSIZE

/-- **Files that fit**: `mkfs` makes the image of the files, unless a name has a `/`. -/
lemma Fits.main (h : Fits files) :
    (∃ m, Mkfs.main files {} = .error .index m ∧ ∃ f ∈ files, slash ∈ f.shortname) ∨
      ∃ m, Made m (nodesOf files) ∧ Mkfs.main files {} = .ok () (finish m) := by
  have hspec := main_spec h.inodes h.sizes
  have hblocks := h.blocks
  cases hres : Mkfs.main files {} with
  | ok u m' =>
    obtain ⟨m, hm, rfl⟩ := hspec.ok hres
    exact .inr ⟨m, hm, rfl⟩
  | error e m' =>
    rw [hres] at hblocks
    obtain hfull | ⟨rfl, hslash⟩ := hspec.error hres
    · exact absurd hblocks (not_le.mpr hfull)
    · exact .inl ⟨m', rfl, hslash⟩

/-- Small files fit. -/
lemma Fits.of_cost (hlen : files.length + 1 < NINODES)
    (hmax : ∀ f ∈ files, f.contents.length ≤ MAXFILE * BSIZE)
    (hcost : (files.map fileCost).sum + nmeta + 8 ≤ FSSIZE) : Fits files := by
  refine ⟨hlen, hmax, (main_freeblock files).final.trans ?_⟩
  omega

/-! ### Entries of the root directory -/

variable {l : ℕ}

lemma dirBytes_getD {es : List Dirent} (hname : ∀ e ∈ es, e.name.length = DIRSIZ)
    (hl : l < es.length) {o : ℕ} (ho : o < DESIZE) :
    (dirBytes es).getD (DESIZE * l + o) 0 = (es[l]).toBytes.getD o 0 := by
  induction es generalizing l with
  | nil => exact absurd hl (Nat.not_lt_zero _)
  | cons e es ih =>
    have hcons : dirBytes (e :: es) = e.toBytes ++ dirBytes es := List.flatMap_cons
    have hlen : e.toBytes.length = DESIZE := Node.toBytes_length (hname e List.mem_cons_self)
    rw [hcons]
    cases l with
    | zero =>
      rw [Nat.mul_zero, Nat.zero_add, List.getD_append _ _ _ _ (by rwa [hlen])]
      rfl
    | succ l =>
      rw [List.getD_append_right _ _ _ _ (by rw [hlen, Nat.mul_succ]; omega), hlen,
        show DESIZE * (l + 1) + o - DESIZE = DESIZE * l + o by rw [Nat.mul_succ]; omega]
      exact ih (fun x hx => hname x (List.mem_cons_of_mem e hx)) (Nat.lt_of_succ_lt_succ hl)

/-- The entries of a directory that has the bytes of some. -/
lemma entry_dirBytes {es : List Dirent} (hname : ∀ e ∈ es, e.name.length = DIRSIZ)
    (hl : l < es.length) (hinum : (es[l]).inum < 2 ^ 16) {x : Node}
    (hx : ∀ o < DESIZE, x.byte (DESIZE * l + o) = (dirBytes es).getD (DESIZE * l + o) 0) :
    x.entry l = es[l] := by
  have hlen : (es[l]).toBytes.length = DESIZE := Node.toBytes_length (hname _ (List.getElem_mem hl))
  have hbytes : (List.range DESIZE).map (fun o => x.byte (DESIZE * l + o)) = (es[l]).toBytes := by
    refine List.ext_getElem (by rw [List.length_map, List.length_range, hlen]) fun o ho ho' => ?_
    have ho'' : o < DESIZE := by rwa [hlen] at ho'
    rw [List.getElem_map, List.getElem_range, hx o ho'', dirBytes_getD hname hl ho'',
      List.getD_eq_getElem]
  rw [Node.entry, hbytes, Node.ofBytes_toBytes hinum]

lemma rootEntries_inum (hl : l < (rootEntries files).length) :
    ((rootEntries files)[l]).inum = max l 1 := by
  match l with
  | 0 => rfl
  | 1 => rfl
  | l + 2 => simp [rootEntries]

lemma rootEntries_canon (hl : l < files.length) (hl' : l + 2 < (rootEntries files).length) :
    canon ((rootEntries files)[l + 2]).name = canon (files[l]).name := by
  have hname : ((rootEntries files)[l + 2]).name = strncpy (files[l]).name DIRSIZ := by
    simp [rootEntries]
  rw [hname, canon_strncpy]

/-! ### The files in the end -/

variable {i : ℕ}

section End

variable (h : Made m (nodesOf files)) (hlen : files.length < NINODES)

include h hlen

lemma finish_dinode_of_ne (hi : i ≠ ROOTINO) : dinodes (finish m).disk i = dinodes m.disk i := by
  rw [finish_dinodes h hlen, update_of_ne hi]

lemma finish_root : dinodes (finish m).disk ROOTINO
    = { dinodes m.disk ROOTINO with size := rounded (DESIZE * (files.length + 2)) } := by
  rw [finish_dinodes h hlen, update_self]

lemma finish_type (i : ℕ) : (dinodes (finish m).disk i).type = (dinodes m.disk i).type := by
  by_cases hi : i = ROOTINO
  · rw [hi, finish_root h hlen]
  · rw [finish_dinode_of_ne h hlen hi]

lemma finish_addrs (i : ℕ) : (dinodes (finish m).disk i).addrs = (dinodes m.disk i).addrs := by
  by_cases hi : i = ROOTINO
  · rw [hi, finish_root h hlen]
  · rw [finish_dinode_of_ne h hlen hi]

/-- The blocks of the files are those they had. -/
lemma finish_slotAddr (hi : (dinodes m.disk i).type ≠ .free) (p : Place) :
    slotAddr (finish m).disk (dinodes (finish m).disk i) p
      = slotAddr m.disk (dinodes m.disk i) p := by
  rw [slotAddr_addrs (finish_addrs h hlen i)]
  exact h.sound.slotAddr_of_data (fun b hb => finish_data hb) hi p

lemma finish_blockAddr (hi : (dinodes m.disk i).type ≠ .free) (bn : ℕ) :
    blockAddr (finish m).disk (dinodes (finish m).disk i) bn
      = blockAddr m.disk (dinodes m.disk i) bn :=
  blockAddr_of_places fun p _ => finish_slotAddr h hlen hi p

lemma finish_byteAt (hi : (dinodes m.disk i).type ≠ .free) {o : ℕ}
    (ho : blockAddr m.disk (dinodes m.disk i) (o / BSIZE) ≠ 0) :
    byteAt (finish m).disk (dinodes (finish m).disk i) o = byteAt m.disk (dinodes m.disk i) o := by
  rw [byteAt_addrs (finish_addrs h hlen i)]
  exact h.sound.byteAt_of_data (fun b hb => finish_data hb) hi ho

lemma finish_owned : Owned layout.nmeta layout.size
    (addrOf (mount (finish m).disk).dinode (mount (finish m).disk).data)
    fun b => !isFree (mount (finish m).disk).bitmap b := by
  refine h.sound.owned.congr (fun x => ?_) fun b hb => ?_
  · unfold addrOf
    rw [show (mount (finish m).disk).dinode = dinodes (finish m).disk from rfl, finish_type h hlen]
    split
    · rfl
    · next htype => exact finish_slotAddr h hlen htype x.2
  · rw [finish_isFree hb, isFree_firstUsed]

lemma finish_node (hi : i ≠ ROOTINO) : node (mount (finish m).disk) i = nodesOf files i := by
  rw [← h.node i]
  change nodeOf (finish m).disk (dinodes (finish m).disk i) = _
  rw [finish_dinode_of_ne h hlen hi]
  exact h.sound.nodeOf_of_data (fun b hb => finish_data hb) i

/-- The type and the links are those of the files. -/
lemma finish_type_of (hi : (nodesOf files i).type ≠ .free) :
    (dinodes (finish m).disk i).type = (nodesOf files i).type ∧
    (dinodes (finish m).disk i).nlink = 1 := by
  refine ⟨by rw [finish_type h hlen, ← nodeOf_type m.disk, h.node], ?_⟩
  have hone := h.nlink i hi
  rw [h.node_eq hi] at hone
  by_cases hroot : i = ROOTINO
  · subst hroot
    rwa [finish_root h hlen]
  · rwa [finish_dinode_of_ne h hlen hroot]

/-- If the entries fill the blocks of the root directory, there is no block for the end of it. -/
lemma root_hole (hround : (files.length + 2) % 32 = 0) :
    (files.length + 2) / 32 * BSIZE < (dinodes (finish m).disk ROOTINO).size ∧
      blockAddr (finish m).disk (dinodes (finish m).disk ROOTINO) ((files.length + 2) / 32)
        = 0 := by
  have hroot : (nodesOf files ROOTINO).type ≠ .free := InodeType.noConfusion
  have hsize : (nodesOf files ROOTINO).size = DESIZE * (files.length + 2) :=
    (dirBytes_length rootEntries_name).trans (by rw [rootEntries_length])
  rw [finish_blockAddr h hlen (h.type_ne hroot), h.tight ROOTINO hroot, finish_root h hlen]
  · simp only [rounded, DESIZE, DIRSIZ, BSIZE, and_true]
    omega
  · rw [hsize]
    simp only [DESIZE, DIRSIZ, BSIZE]
    omega

variable (hround : (files.length + 2) % 32 ≠ 0)

include hround

/-- Without a hole, the root directory has the blocks below its size. -/
lemma root_full {bn : ℕ} (hbn : bn * BSIZE < rounded (DESIZE * (files.length + 2))) :
    blockAddr m.disk (dinodes m.disk ROOTINO) bn ≠ 0 := by
  have hroot : (nodesOf files ROOTINO).type ≠ .free := InodeType.noConfusion
  have hsize : (dinodes m.disk ROOTINO).size = DESIZE * (files.length + 2) := by
    rw [dinodes_of_lt (by decide), ← (rootSize h hlen).1]
    rfl
  refine h.sound.full ROOTINO (h.type_ne hroot) bn ?_
  rw [hsize]
  simp only [rounded, DESIZE, DIRSIZ, BSIZE] at *
  omega

/-- What is behind the last entry is zero. -/
lemma root_byte (o : ℕ) :
    (node (mount (finish m).disk) ROOTINO).byte o = (nodesOf files ROOTINO).byte o := by
  have hroot : (nodesOf files ROOTINO).type ≠ .free := InodeType.noConfusion
  have htype := h.type_ne hroot
  have hsize : (nodesOf files ROOTINO).size = DESIZE * (files.length + 2) :=
    (dirBytes_length rootEntries_name).trans (by rw [rootEntries_length])
  have hdin : (dinodes m.disk ROOTINO).size = DESIZE * (files.length + 2) := by
    rw [← hsize, h.node_eq hroot]
  have hrsize : (dinodes (finish m).disk ROOTINO).size = rounded (DESIZE * (files.length + 2)) := by
    rw [finish_root h hlen]
  change (nodeOf (finish m).disk (dinodes (finish m).disk ROOTINO)).byte o = _
  rw [nodeOf_of_type (by rwa [finish_type h hlen]), hrsize, h.node_eq hroot, hdin]
  have hle := le_rounded (DESIZE * (files.length + 2))
  by_cases hin : o < rounded (DESIZE * (files.length + 2))
  · have hblock := root_full h hlen hround ((Nat.div_mul_le_self o BSIZE).trans_lt hin)
    simp only [if_pos hin, finish_byteAt h hlen htype hblock]
    split
    · rfl
    · next hout => exact h.tail ROOTINO hroot o (by rw [hsize]; omega) hblock
  · simp only [if_neg hin, if_neg (show ¬o < DESIZE * (files.length + 2) by omega)]

/-- The entries of the root directory in the end. -/
lemma root_entry (hl : l < (rootEntries files).length) :
    (node (mount (finish m).disk) ROOTINO).entry l = (rootEntries files)[l] := by
  refine entry_dirBytes rootEntries_name hl ?_ fun o _ => root_byte h hlen hround _
  rw [rootEntries_inum]
  rw [rootEntries_length] at hl
  have hlen' : files.length < 200 := hlen
  omega

/-- The slots behind them are empty. -/
lemma root_entry_of_le (hl : files.length + 2 ≤ l) :
    ((node (mount (finish m).disk) ROOTINO).entry l).inum = 0 := by
  have hbytes : (dirBytes (rootEntries files)).length = DESIZE * (files.length + 2) :=
    (dirBytes_length rootEntries_name).trans (by rw [rootEntries_length])
  have hbyte : ∀ o, (node (mount (finish m).disk) ROOTINO).byte (DESIZE * l + o) = 0 := by
    intro o
    rw [root_byte h hlen hround]
    refine List.getD_eq_default _ _ ?_
    rw [hbytes]
    exact (Nat.mul_le_mul_left _ hl).trans (Nat.le_add_right ..)
  simp only [Node.entry, hbyte, Dirent.ofBytes]
  rfl

end End

/-! ### What the kernel relies on -/

lemma nodesOf_type (hi : (nodesOf files i).type ≠ .free) : i ≠ 0 ∧ i < files.length + 2 := by
  match i with
  | 0 => exact absurd rfl hi
  | 1 => exact ⟨Nat.one_ne_zero, by omega⟩
  | i + 2 =>
    refine ⟨by omega, ?_⟩
    by_contra hge
    refine hi ?_
    rw [nodesOf, nodesWith, List.getElem?_eq_none (by rw [List.length_map]; omega)]
    rfl

lemma nodesOf_dir (hi : (nodesOf files i).type = .dir) : i = ROOTINO := by
  match i with
  | 0 => cases hi
  | 1 => rfl
  | i + 2 =>
    rw [nodesOf, nodesWith] at hi
    cases hfile : (files.map Input.contents)[i]? with
    | none | some c =>
      rw [hfile] at hi
      cases hi

section

variable (h : Made m (nodesOf files)) (hlen : files.length < NINODES)
  (hround : (files.length + 2) % 32 ≠ 0)

include h hlen hround

/-- The entries in the root directory are the only ones. -/
lemma of_mem_links {i d : ℕ} (hi : i ≠ 0) (hx : (d, l) ∈ links (node (mount (finish m).disk)) i) :
    d = ROOTINO ∧ max l 1 = i ∧
      ∃ hl : l < (rootEntries files).length, canon ((rootEntries files)[l]).name ≠ dot := by
  obtain ⟨hdir, -, hinum, hname⟩ := hx
  have hes := rootEntries_length files
  obtain rfl : d = ROOTINO := by
    by_contra hd
    rw [finish_node h hlen hd] at hdir
    exact hd (nodesOf_dir hdir)
  have hl : l < (rootEntries files).length := by
    by_contra hge
    rw [root_entry_of_le h hlen hround (by omega)] at hinum
    exact hi hinum.symm
  rw [root_entry h hlen hround hl] at hinum hname
  rw [rootEntries_inum] at hinum
  exact ⟨rfl, hinum, hl, hname⟩

/-- A file is named by its own entry. -/
lemma links_finish (hdot : ∀ f ∈ files, canon f.name ≠ dot) (hi : (nodesOf files i).type ≠ .free) :
    links (node (mount (finish m).disk)) i = {(ROOTINO, i)} := by
  obtain ⟨hi0, hilt⟩ := nodesOf_type hi
  have hes := rootEntries_length files
  have hcanon : ∀ l (hl : l < (rootEntries files).length),
      canon ((rootEntries files)[l]).name = dot ↔ l = 0 := by
    intro l hl
    match l with
    | 0 => exact ⟨fun _ => rfl, fun _ => by rw [← canon_strncpy]; rfl⟩
    | 1 =>
      refine ⟨fun hdots => ?_, fun hzero => absurd hzero Nat.one_ne_zero⟩
      have hname : ((rootEntries files)[1]).name = strncpy dotdot DIRSIZ := rfl
      rw [hname, canon_strncpy] at hdots
      exact absurd hdots (by decide)
    | l + 2 =>
      refine ⟨fun hbad => ?_, fun hzero => absurd hzero (by omega)⟩
      rw [rootEntries_canon (by omega)] at hbad
      exact absurd hbad (hdot _ (List.getElem_mem _))
  ext ⟨d, l⟩
  simp only [Set.mem_singleton_iff, Prod.mk.injEq]
  constructor
  · intro hx
    obtain ⟨rfl, hinum, hl, hname⟩ := of_mem_links h hlen hround hi0 hx
    rw [Ne, hcanon] at hname
    exact ⟨rfl, by omega⟩
  · rintro ⟨rfl, rfl⟩
    have hl : l < (rootEntries files).length := by omega
    refine ⟨?_, ?_, ?_, ?_⟩
    · rw [node_type]
      change (dinodes (finish m).disk ROOTINO).type = .dir
      rw [finish_type h hlen, ← nodeOf_type m.disk, h.node]
      rfl
    · have hsize : (node (mount (finish m).disk) ROOTINO).size
          = rounded (DESIZE * (files.length + 2)) := by
        change (nodeOf (finish m).disk (dinodes (finish m).disk ROOTINO)).size = _
        rw [nodeOf_of_type, finish_root h hlen]
        rw [finish_type h hlen]
        exact h.type_ne InodeType.noConfusion
      rw [hsize]
      exact (Nat.mul_le_mul_left _ hilt).trans (le_rounded _)
    · rw [root_entry h hlen hround hl, rootEntries_inum]
      omega
    · rw [root_entry h hlen hround hl, Ne, hcanon]
      exact hi0

end

/-- **What the kernel relies on**: the blocks below the size of a file are there, no block is used
twice or is one of the first ones, the free map marks the blocks that are used, and an inode has as
many links as entries other than `.` name it. -/
structure Consistent (s : Fs) : Prop where
  full : ∀ i, (s.dinode i).type ≠ .free → ∀ bn < ((s.dinode i).size + BSIZE - 1) / BSIZE,
    blockAddr s.data (s.dinode i) bn ≠ 0
  once : ∀ x y, addrOf s.dinode s.data x ≠ 0 → addrOf s.dinode s.data x = addrOf s.dinode s.data y →
    x = y
  data : ∀ x, addrOf s.dinode s.data x ≠ 0 →
    nmeta ≤ addrOf s.dinode s.data x ∧ addrOf s.dinode s.data x < FSSIZE
  marks : ∀ b < FSSIZE, isFree s.bitmap b = false ↔
    b < nmeta ∨ ∃ x, addrOf s.dinode s.data x ≠ 0 ∧ addrOf s.dinode s.data x = b
  nlink : ∀ i, (s.dinode i).type ≠ .free → (s.dinode i).nlink = (links (node s) i).ncard

lemma consistent_finish (h : Made m (nodesOf files)) (hlen : files.length < NINODES)
    (hround : (files.length + 2) % 32 ≠ 0) (hdot : ∀ f ∈ files, canon f.name ≠ dot) :
    Consistent (mount (finish m).disk) := by
  have howned := finish_owned h hlen
  rw [layout_nmeta, layout_size] at howned
  refine ⟨fun i hi bn hbn => ?_, howned.inj, howned.range, fun b hb => ?_, fun i hi => ?_⟩
  · change (dinodes (finish m).disk i).type ≠ .free at hi
    have hlt : bn * BSIZE < (dinodes (finish m).disk i).size := by
      have hbn' : bn < ((dinodes (finish m).disk i).size + BSIZE - 1) / BSIZE := hbn
      simp only [BSIZE] at *
      omega
    rw [finish_type h hlen] at hi
    refine (finish_blockAddr h hlen hi bn).trans_ne ?_
    by_cases hroot : i = ROOTINO
    · subst hroot
      rw [finish_root h hlen] at hlt
      exact root_full h hlen hround hlt
    · rw [finish_dinode_of_ne h hlen hroot] at hlt
      exact h.sound.full i hi bn hlt
  · rw [← howned.used b hb, Bool.not_eq_true']
  · change (dinodes (finish m).disk i).type ≠ .free at hi
    rw [finish_type h hlen] at hi
    have hN : (nodesOf files i).type ≠ .free := by rwa [← h.node i, nodeOf_type]
    rw [links_finish h hlen hround hdot hN, Set.ncard_singleton]
    exact (finish_type_of h hlen hN).2

lemma nodesOf_file (hl : l < files.length) :
    nodesOf files (l + 2) = fileWith .file (files[l]).contents := by
  simp [nodesOf, nodesWith, hl]

/-- A file that is called `.` has no entry that counts. -/
lemma links_of_dot (h : Made m (nodesOf files)) (hlen : files.length < NINODES)
    (hround : (files.length + 2) % 32 ≠ 0) (hl : l < files.length)
    (hdot : canon (files[l]).name = dot) : links (node (mount (finish m).disk)) (l + 2) = ∅ := by
  refine Set.eq_empty_of_forall_notMem ?_
  rintro ⟨d, j⟩ hx
  obtain ⟨-, hinum, hj, hname⟩ := of_mem_links h hlen hround (by omega) hx
  obtain rfl : j = l + 2 := by omega
  exact hname ((rootEntries_canon hl hj).trans hdot)

lemma consistent_iff (h : Made m (nodesOf files)) (hlen : files.length < NINODES) :
    Consistent (mount (finish m).disk) ↔
      (files.length + 2) % 32 ≠ 0 ∧ ∀ f ∈ files, canon f.name ≠ dot := by
  refine ⟨fun hc => ?_, fun ⟨hround, hdot⟩ => consistent_finish h hlen hround hdot⟩
  have hround : (files.length + 2) % 32 ≠ 0 := by
    intro hround
    obtain ⟨hlt, hhole⟩ := root_hole h hlen hround
    have htype := (finish_type_of h hlen (i := ROOTINO) InodeType.noConfusion).1
    refine hc.full ROOTINO (htype.trans_ne InodeType.noConfusion) _ ?_ hhole
    change _ < ((dinodes (finish m).disk ROOTINO).size + BSIZE - 1) / BSIZE
    simp only [BSIZE] at *
    omega
  refine ⟨hround, fun f hf hdot => ?_⟩
  obtain ⟨l, hl, rfl⟩ := List.getElem_of_mem hf
  have hN : (nodesOf files (l + 2)).type ≠ .free := by
    rw [nodesOf_file hl]
    exact InodeType.noConfusion
  obtain ⟨htype, hone⟩ := finish_type_of h hlen hN
  have hlinks := hc.nlink (l + 2) (htype.trans_ne hN)
  rw [links_of_dot h hlen hround hl hdot, Set.ncard_empty] at hlinks
  exact absurd (hone.symm.trans hlinks) (by decide)

/-- **The image is consistent** if and only if there is room for another entry behind those of the
root directory and no file is called `.`; there is no image if a name has a `/`. -/
theorem mkfs_consistent (files : List Input) (h : Fits files) :
    (∃ m, main files {} = .error .index m ∧ ∃ f ∈ files, slash ∈ f.shortname) ∨
      ∃ m, main files {} = .ok () m ∧ (Consistent (mount m.disk) ↔
        (files.length + 2) % 32 ≠ 0 ∧ ∀ f ∈ files, canon f.name ≠ dot) := by
  have hlen : files.length < NINODES := Nat.lt_of_succ_lt h.inodes
  obtain hslash | ⟨m, hm, hres⟩ := h.main
  · exact .inl hslash
  · exact .inr ⟨finish m, hres, consistent_iff hm hlen⟩

/-- A file of three bytes. -/
def small : List Input := [⟨[95, 97], [[1, 2], [3]]⟩]

lemma fits_small : Fits small := .of_cost (by decide) (by decide) (by decide)

theorem mkfs_consistent_small : ∃ m, main small {} = .ok () m ∧ Consistent (mount m.disk) := by
  obtain ⟨-, -, hslash⟩ | ⟨m, hres, hiff⟩ := mkfs_consistent small fits_small
  · exact absurd hslash (by decide)
  · exact ⟨m, hres, hiff.mpr ⟨by decide, by decide⟩⟩

/-- Thirty empty files: the entries fill a block of the root directory. -/
def thirty : List Input := (List.range 30).map fun j => ⟨[97 + j], []⟩

/-- An empty file that is called `.` in the image. -/
def dotFile : List Input := [⟨[95, 46], []⟩]

/-- **A hole**: if the entries fill the blocks of the root directory, the size in the end is that of
one more block, and there is no such block.  A file called `.` has a link and no entry that
counts. -/
theorem mkfs_root_hole :
    Fits thirty ∧ (∃ m, main thirty {} = .ok () m ∧ ((mount m.disk).dinode ROOTINO).type = .dir ∧
      ((mount m.disk).dinode ROOTINO).size = 2 * BSIZE ∧
      blockAddr (mount m.disk).data ((mount m.disk).dinode ROOTINO) 1 = 0) ∧
    Fits dotFile ∧ ∃ m, main dotFile {} = .ok () m ∧ ((mount m.disk).dinode 2).type = .file ∧
      ((mount m.disk).dinode 2).nlink = 1 ∧ links (node (mount m.disk)) 2 = ∅ := by
  have hthirty : Fits thirty := .of_cost (by decide) (by decide) (by decide)
  have hdotFile : Fits dotFile := .of_cost (by decide) (by decide) (by decide)
  refine ⟨hthirty, ?_, hdotFile, ?_⟩
  · obtain ⟨m, -, hslash⟩ | ⟨m, hm, hres⟩ := hthirty.main
    · exact absurd hslash (by decide)
    have hlen : thirty.length < NINODES := by decide
    have htype := (finish_type_of hm hlen (i := ROOTINO) InodeType.noConfusion).1
    refine ⟨finish m, hres, htype, ?_, (root_hole hm hlen rfl).2⟩
    change (dinodes (finish m).disk ROOTINO).size = 2 * BSIZE
    rw [finish_root hm hlen]
    change rounded (DESIZE * (thirty.length + 2)) = 2 * BSIZE
    decide
  · obtain ⟨m, -, hslash⟩ | ⟨m, hm, hres⟩ := hdotFile.main
    · exact absurd hslash (by decide)
    have hlen : dotFile.length < NINODES := by decide
    obtain ⟨htype, hone⟩ := finish_type_of hm hlen (i := 2) InodeType.noConfusion
    exact ⟨finish m, hres, htype, hone,
      links_of_dot hm hlen (by decide) (l := 0) (by decide) (by decide)⟩

end Xv6.Mkfs
