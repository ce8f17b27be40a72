import Xv6.Mkfs.Append

/-!
The image between two steps of `mkfs`.

* `setRaw`: a `struct dinode` is written to the image.
* `Made`: the image is consistent and has the files `N`, each with one link; the bytes behind the
  end of a file are zero.
* `ialloc_spec`, `iappend_spec`: what the two functions do to the files.
-/

namespace Xv6.Mkfs

open Xv6.Files Transition Function
open Xv6.Fs hiding word

/-! ### Writing an inode -/

/-- The image with another `struct dinode`. -/
def setRaw (disk : ℕ → Bytes) (i : ℕ) (r : RawDinode) : ℕ → Bytes :=
  update disk (iblock i) (putDinode (disk (iblock i)) (i % IPB) r)

section SetRaw

variable {disk : ℕ → Bytes} {i : ℕ} {r : RawDinode}

lemma iblock_lt (hi : i < NINODES) : 2 ≤ iblock i ∧ iblock i < sb.bmapstart := by
  have hi' : i < 200 := hi
  have hstart : sb.inodestart = 32 := rfl
  have hend : sb.bmapstart = 58 := rfl
  rw [iblock, hstart, hend]
  simp only [IPB, BSIZE]
  omega

lemma setRaw_of_ne {b : ℕ} (hb : b ≠ iblock i) : setRaw disk i r b = disk b :=
  update_of_ne hb ..

lemma setRaw_of_le (hi : i < NINODES) {b : ℕ} (hb : nmeta ≤ b) : setRaw disk i r b = disk b := by
  refine setRaw_of_ne fun heq => ?_
  have hlt := (iblock_lt hi).2
  have hmap : sb.bmapstart = 58 := rfl
  have hb' : 59 ≤ b := hb
  omega

lemma setRaw_one (hi : i < NINODES) (disk : ℕ → Bytes) (r : RawDinode) :
    setRaw disk i r 1 = disk 1 := by
  refine setRaw_of_ne fun heq => ?_
  have := (iblock_lt hi).1
  omega

lemma getDinode_setRaw_self (hr : r.Sized) :
    getDinode (setRaw disk i r (iblock i)) (i % IPB) = r := by
  rw [setRaw, update_self]
  exact getDinode_putDinode_self _ _ hr

lemma getDinode_setRaw_of_ne {j : ℕ} (hj : j ≠ i) :
    getDinode (setRaw disk i r (iblock j)) (j % IPB) = getDinode (disk (iblock j)) (j % IPB) := by
  by_cases hblock : iblock j = iblock i
  · rw [hblock, setRaw, update_self]
    refine getDinode_putDinode_of_ne _ _ fun hslot => hj ?_
    simp only [iblock, IPB, BSIZE] at hblock hslot
    omega
  · rw [setRaw_of_ne hblock]

lemma dinodes_of_lt (hi : i < NINODES) :
    dinodes disk i = (getDinode (disk (iblock i)) (i % IPB)).toDinode := by
  rw [dinodes, layout_ninodes, if_pos hi, layout_iblock]

lemma dinodes_of_le (hi : NINODES ≤ i) : dinodes disk i = .fresh .free := by
  rw [dinodes, layout_ninodes, if_neg (not_lt.mpr hi)]

lemma dinodes_setRaw (hi : i < NINODES) (hr : r.Sized) :
    dinodes (setRaw disk i r) = update (dinodes disk) i r.toDinode := by
  funext j
  by_cases hj : j = i
  · subst hj
    rw [update_self, dinodes_of_lt hi, getDinode_setRaw_self hr]
  · rw [update_of_ne hj]
    by_cases hlt : j < NINODES
    · rw [dinodes_of_lt hlt, dinodes_of_lt hlt, getDinode_setRaw_of_ne hj]
    · rw [dinodes_of_le (not_lt.mp hlt), dinodes_of_le (not_lt.mp hlt)]

/-- The inodes are in blocks before the data area. -/
lemma dinodes_congr {disk' : ℕ → Bytes} (h : ∀ b < nmeta, disk' b = disk b) :
    dinodes disk' = dinodes disk := by
  funext j
  by_cases hlt : j < NINODES
  · have hmap : sb.bmapstart = 58 := rfl
    have hb : iblock j < 59 := by
      have := (iblock_lt hlt).2
      omega
    rw [dinodes_of_lt hlt, dinodes_of_lt hlt, h _ hb]
  · rw [dinodes_of_le (not_lt.mp hlt), dinodes_of_le (not_lt.mp hlt)]

end SetRaw

/-! ### The image -/

/-- A file of type `ty` with one link and the contents `c`. -/
def fileWith (ty : InodeType) (c : List ℕ) : Node :=
  ⟨ty, 0, 0, 1, c.length, fun o => c.getD o 0⟩

/-- What is appended to a file. -/
lemma fileWith_write {ty : InodeType} {c p : List ℕ} (h : c.length + p.length ≤ MAXFILE * BSIZE) :
    (fileWith ty c).write p c.length = some (fileWith ty (c ++ p)) := by
  refine Node.write_eq_some.mpr ⟨le_rfl, h, ?_⟩
  refine Node.ext rfl rfl rfl rfl ?_ (funext fun o => ?_)
  · simp [fileWith]
  · simp only [fileWith]
    by_cases h₁ : o < c.length
    · rw [if_neg (by omega), List.getD_append _ _ _ _ h₁]
    · rw [List.getD_append_right _ _ _ _ (by omega)]
      split
      · rfl
      · rw [List.getD_eq_default _ _ (by omega), List.getD_eq_default _ _ (by omega)]

/-- Without addresses there are no blocks. -/
lemma blockAddr_of_zero {data : ℕ → Bytes} {d : Dinode} (h : ∀ p, d.addrs p = 0) (bn : ℕ) :
    blockAddr data d bn = 0 := by
  unfold blockAddr
  cases blockPlace bn with
  | none => rfl
  | some p =>
    cases p with
    | inl q => exact h q
    | inr j => exact if_pos (h _)

/-- **The image in the middle of `mkfs`**, with the files `N`. -/
structure Made (m : Host) (N : ℕ → Node) : Prop where
  sectors : m.sectors = FSSIZE
  low : nmeta ≤ m.freeblock
  high : m.freeblock ≤ FSSIZE
  zero : ∀ b, m.freeblock ≤ b → m.disk b = fun _ => 0
  super : m.disk 1 = sb.toBytes
  sized : ∀ i < NINODES, (getDinode (m.disk (iblock i)) (i % IPB)).Sized
  sound : Sound layout (dinodes m.disk) (firstUsed m.freeblock) m.disk
  node : ∀ i, nodeOf m.disk (dinodes m.disk i) = N i
  nlink : ∀ i, (N i).type ≠ .free → (N i).nlink = 1
  tail : ∀ i, (N i).type ≠ .free → ∀ o, (N i).size ≤ o →
    blockAddr m.disk (dinodes m.disk i) (o / BSIZE) ≠ 0 → byteAt m.disk (dinodes m.disk i) o = 0
  tight : ∀ i, (N i).type ≠ .free → ∀ bn, (N i).size ≤ bn * BSIZE →
    blockAddr m.disk (dinodes m.disk i) bn = 0
  fresh : ∀ i, m.freeinode ≤ i → (N i).type = .free

variable {m m' : Host} {N : ℕ → Node} {i : ℕ}

variable {E : Exit → Host → Prop}

lemma post_winode (hs : m.sectors = FSSIZE) (hi : i < NINODES) (r : RawDinode)
    {Q : Unit → Host → Prop} :
    Post (winode i r) m Q E ↔ Q () { m with disk := setRaw m.disk i r } := by
  have hlt : iblock i < m.sectors := by
    rw [hs]
    have := (iblock_lt hi).2
    have hmap : sb.bmapstart = 58 := rfl
    change _ < 1000
    omega
  have hmax : max m.sectors (iblock i + 1) = m.sectors := max_eq_left hlt
  simp only [winode, post_bind, post_rsect, post_wsect, hmax, hlt, true_implies, not_true,
    false_implies, and_true]
  rfl

lemma post_rinode (hs : m.sectors = FSSIZE) (hi : i < NINODES) {Q : RawDinode → Host → Prop} :
    Post (rinode i) m Q E ↔ Q (getDinode (m.disk (iblock i)) (i % IPB)) m := by
  have hlt : iblock i < m.sectors := by
    rw [hs]
    have := (iblock_lt hi).2
    have hmap : sb.bmapstart = 58 := rfl
    change _ < 1000
    omega
  simp only [rinode, post_bind, post_rsect, post_pure, hlt, true_implies, not_true,
    false_implies, and_true]

/-- The file system of the image, with the inode `i` locked in the entry `k` of the cache. -/
def locked (m : Host) (k : Ip) (i : ℕ) : Fs where
  dinode := dinodes m.disk
  bitmap := firstUsed m.freeblock
  data := m.disk
  inode := update (fun _ => {}) k
    { inum := i, ref := 1, lock := true, valid := true, din := dinodes m.disk i }

lemma locked_inode_self (m : Host) (k : Ip) (i : ℕ) : (locked m k i).inode k
    = { inum := i, ref := 1, lock := true, valid := true, din := dinodes m.disk i } := by
  simp only [locked, update_self]

lemma locked_inode_of_ne {k j : Ip} (hj : j ≠ k) : (locked m k i).inode j = {} := by
  simp only [locked, update_of_ne hj]

namespace Made

lemma type_ne (h : Made m N) (hi : (N i).type ≠ .free) : (dinodes m.disk i).type ≠ .free := by
  rwa [← nodeOf_type m.disk, h.node]

lemma lt_ninodes (h : Made m N) (hi : (N i).type ≠ .free) : i < NINODES := by
  by_contra hge
  refine h.type_ne hi ?_
  rw [dinodes_of_le (not_lt.mp hge)]
  rfl

lemma node_eq (h : Made m N) (hi : (N i).type ≠ .free) :
    N i = ⟨(dinodes m.disk i).type, (dinodes m.disk i).major, (dinodes m.disk i).minor,
      (dinodes m.disk i).nlink, (dinodes m.disk i).size,
      fun o => if o < (dinodes m.disk i).size then byteAt m.disk (dinodes m.disk i) o else 0⟩ := by
  rw [← h.node i, nodeOf_of_type (h.type_ne hi)]

lemma midcall (h : Made m N) (k : Ip) (hi : (N i).type ≠ .free) :
    Midcall layout (fun _ => {}) N [(k, i)] {k} (locked m k i) := by
  have hself := locked_inode_self m k i
  have hother : ∀ j ≠ k, (locked m k i).inode j = {} := fun j hj => locked_inode_of_ne hj
  have hpos : ∀ j, 0 < ((locked m k i).inode j).ref → j = k := by
    intro j hj
    by_contra hne
    rw [hother j hne] at hj
    exact absurd hj (lt_irrefl 0)
  refine ⟨⟨h.sound, fun j l hj hl _ => (hpos j hj).trans (hpos l hl).symm, fun j hj _ => ?_,
    fun j hl => ?_, rfl⟩, fun j => ?_, fun j hj => absurd hj (lt_irrefl 0), fun x hx => ?_,
    fun j hj => absurd hj (lt_irrefl 0), fun j => ?_, fun j => .inl (h.node j)⟩
  · rw [hpos j hj, hself]
    exact ⟨rfl, h.type_ne hi⟩
  · by_cases hj : j = k
    · rw [hj, hself]
      exact ⟨Nat.one_pos, rfl⟩
    · rw [hother j hj] at hl
      cases hl
  · by_cases hj : j = k
    · rw [hj, hself]
      simp
    · rw [hother j hj]
      simp [Ne.symm hj]
  · rw [List.mem_singleton.mp hx, hself]
  · by_cases hj : j = k
    · rw [hj, hself]
      simp
    · rw [hother j hj]
      simp [hj]

/-- The kernel's file system is that of the image. -/
lemma tracks (h : Made m N) (k : Ip) (hi : (N i).type ≠ .free) :
    Tracks k m (getDinode (m.disk (iblock i)) (i % IPB)) (locked m k i) := by
  refine ⟨h.sectors, h.low, h.high, h.zero, rfl, isFree_firstUsed m.freeblock, ?_⟩
  rw [locked_inode_self, dinodes_of_lt (h.lt_ninodes hi)]
  rfl

end Made

/-! ### `iappend` -/

section Append

variable {k : Ip} {p : List ℕ} {x : Node} {t' : Fs} {r' : RawDinode}

section

variable (h : Made m N) (hi : (N i).type ≠ .free)
  (hfields : r' = { getDinode (m.disk (iblock i)) (i % IPB) with addrs := r'.addrs })
  (htr : Tracks k m' r' t') (hw : Wrote layout k (locked m k i) (N i).size p t')

include h hi hfields htr hw

/-- The inode in `mkfs` is the kernel's. -/
lemma toDinode_eq (n : ℕ) :
    RawDinode.toDinode { r' with size := n } = { (t'.inode k).din with size := n } := by
  obtain ⟨a, ha⟩ := hw.self
  have haddrs := htr.addrs
  rw [ha, locked_inode_self, dinodes_of_lt (h.lt_ninodes hi)] at haddrs ⊢
  rw [hfields]
  simp only [RawDinode.toDinode]
  rw [← haddrs]

lemma sized_append {n : ℕ} (hn : n < 2 ^ 32) : RawDinode.Sized { r' with size := n } := by
  obtain ⟨ht, hma, hmi, hnl, -, -⟩ := h.sized i (h.lt_ninodes hi)
  rw [hfields]
  refine ⟨ht, hma, hmi, hnl, hn, fun q => ?_⟩
  change r'.addrs q < 2 ^ 32
  rw [← htr.addrs]
  by_cases hzero : (t'.inode k).din.addrs q = 0
  · rw [hzero]
    exact Nat.two_pow_pos 32
  · have htype : (t'.inode k).din.type ≠ .free := by
      rw [hw.type_self, locked_inode_self]
      exact h.type_ne hi
    have hrange :=
      hw.sound.slotAddr_range (i := (t'.inode k).inum) (by rwa [view_self]) (p := .inl q)
    rw [view_self] at hrange
    have hlt := (hrange hzero).2
    rw [layout_size] at hlt
    exact hlt.trans (by decide)

end

/-- The image after `iappend`, from what the kernel would have. -/
lemma Made.append (h : Made m N) (hi : (N i).type ≠ .free)
    (hx : (N i).write p (N i).size = some x) (hsame : SameMeta m m')
    (hfields : r' = { getDinode (m.disk (iblock i)) (i % IPB) with addrs := r'.addrs })
    (htr : Tracks k m' r' t') (hw : Wrote layout k (locked m k i) (N i).size p t') :
    Made { m' with disk := setRaw m'.disk i { r' with size := (N i).size + p.length } }
      (update N i x) := by
  obtain ⟨-, hmax, hxeq⟩ := Node.write_eq_some.mp hx
  have hlt := h.lt_ninodes hi
  have hmid := h.midcall k hi
  have hsize : ((locked m k i).inode k).din.size = (N i).size := by
    rw [locked_inode_self, h.node_eq hi]
  have hsized :=
    sized_append h hi hfields htr hw (hmax.trans_lt (by decide : MAXFILE * BSIZE < 2 ^ 32))
  have hR := toDinode_eq h hi hfields htr hw ((N i).size + p.length)
  obtain ⟨d, hd⟩ : ∃ d : Dinode, d = { (t'.inode k).din with size := (N i).size + p.length } :=
    ⟨_, rfl⟩
  rw [← hd] at hR
  -- The kernel's state once the size has been written, with the files it has then.
  obtain ⟨hu, -⟩ := hmid.wrote (List.mem_singleton_self _) rfl hw hsize.ge hx
    (u := { t' with
      dinode := update (dinodes m.disk) i d
      inode := update (locked m k i).inode k { (locked m k i).inode k with din := d } })
    (by rw [hd, hsize, max_eq_right (Nat.le_add_right ..)]) rfl rfl rfl rfl rfl
  have hsound : Sound layout (update (dinodes m.disk) i d) t'.bitmap t'.data := hu.wf.sound
  have hD : dinodes (setRaw m'.disk i { r' with size := (N i).size + p.length })
      = update (dinodes m.disk) i d := by
    rw [dinodes_setRaw hlt hsized, dinodes_congr hsame.disk, hR]
  have hdata : ∀ b, layout.nmeta ≤ b →
      setRaw m'.disk i { r' with size := (N i).size + p.length } b = t'.data b := by
    intro b hb
    rw [layout_nmeta] at hb
    rw [setRaw_of_le hlt hb, htr.data]
  have hnlink : ∀ j, (update N i x j).type ≠ .free → (update N i x j).nlink = 1 := by
    intro j hj
    by_cases hji : j = i
    · subst hji
      rw [update_self, hxeq]
      exact h.nlink j hi
    · rw [update_of_ne hji] at hj ⊢
      exact h.nlink j hj
  have htype : ∀ j, (update N i x j).type ≠ .free →
      (update (dinodes m.disk) i d j).type ≠ .free := by
    intro j hj
    by_cases hji : j = i
    · subst hji
      rw [update_self, hd]
      change (t'.inode k).din.type ≠ .free
      rw [hw.type_self, locked_inode_self]
      exact h.type_ne hi
    · rw [update_of_ne hji] at hj ⊢
      exact h.type_ne hj
  have haddrs : d.addrs = (t'.inode k).din.addrs := by rw [hd]
  have hview : ∀ j ≠ i, view (locked m k i) k j = dinodes m.disk j := by
    intro j hj
    refine view_of_ne ?_
    rwa [locked_inode_self]
  refine ⟨htr.sectors, htr.low, htr.high, fun b hb => ?_, ?_, fun j hj => ?_, ?_,
    fun j => ?_, hnlink, fun j hj o ho hblock => ?_, fun j hj bn hbn => ?_, fun j hj => ?_⟩
  · rw [← htr.zero b hb]
    exact setRaw_of_le hlt (htr.low.trans hb)
  · have hsuper := setRaw_one hlt m'.disk { r' with size := (N i).size + p.length }
    rwa [hsame.disk 1 (by decide), h.super] at hsuper
  · by_cases hji : j = i
    · subst hji
      rw [getDinode_setRaw_self hsized]
      exact hsized
    · rw [getDinode_setRaw_of_ne hji, hsame.disk]
      · exact h.sized j hj
      · exact (iblock_lt hj).2.trans (by decide)
  · refine hsound.congr (fun j => by rw [hD]) (fun j => by rw [hD]) (fun j q hj => ?_) fun b _ => ?_
    · rw [hD]
      exact hsound.slotAddr_of_data hdata hj q
    · rw [isFree_firstUsed]
      exact (htr.free b).symm
  · rw [hD, hsound.nodeOf_of_data hdata j]
    refine (hu.node j).resolve_right fun hloose => ?_
    have hone := hnlink j hloose.1.1
    rw [hloose.1.2.1] at hone
    cases hone
  · have htype := htype j hj
    rw [hD, hsound.blockAddr_of_data hdata htype] at hblock
    rw [hD, hsound.byteAt_of_data hdata htype hblock]
    by_cases hji : j = i
    · subst hji
      rw [update_self] at hblock ho ⊢
      have hout : ¬((N j).size ≤ o ∧ o < (N j).size + p.length) := by
        rw [hxeq] at ho
        change max _ _ ≤ o at ho
        omega
      rw [byteAt_addrs haddrs]
      rw [blockAddr_addrs haddrs] at hblock
      by_cases hold : blockAddr m.disk (dinodes m.disk j) (o / BSIZE) = 0
      · refine hw.fresh o ?_ hblock hout
        rwa [locked_inode_self]
      · have hkeep := hw.keep o (by rwa [locked_inode_self]) hout
        rw [locked_inode_self] at hkeep
        rw [hkeep]
        refine h.tail j hi o ?_ hold
        rw [hxeq] at ho
        exact (le_max_left ..).trans ho
    · rw [update_of_ne hji] at hj hblock htype ho ⊢
      have hother := hw.byteAt_other (i := j) (o := o) (by rwa [locked_inode_self])
        (by rwa [hview j hji]) (by rwa [hview j hji])
      rw [hview j hji] at hother
      rw [hother.2]
      exact h.tail j hj o ho hother.1
  · rw [hD, hsound.blockAddr_of_data hdata (htype j hj)]
    by_cases hji : j = i
    · subst hji
      rw [update_self, hxeq] at hbn
      change max _ _ ≤ _ at hbn
      rw [update_self, blockAddr_addrs haddrs]
      refine hw.only ?_ ?_ fun l hl heq => ?_
      · rw [locked_inode_self]
        exact h.type_ne hi
      · rw [locked_inode_self]
        exact h.tight j hi bn ((le_max_left ..).trans hbn)
      · have hmul : bn * BSIZE ≤ (N j).size + l := by
          rw [heq]
          exact Nat.div_mul_le_self ..
        omega
    · have hsame := hw.slotAddr_other (i := j) (by rwa [locked_inode_self])
        (by rw [update_of_ne hji] at hj; rw [hview j hji]; exact h.type_ne hj)
      rw [hview j hji] at hsame
      rw [update_of_ne hji] at hj hbn ⊢
      rw [blockAddr_of_places fun q _ => hsame q]
      exact h.tight j hj bn hbn
  · have hji : j ≠ i := by
      rintro rfl
      refine hi (h.fresh j ?_)
      rwa [← hsame.freeinode]
    rw [update_of_ne hji]
    refine h.fresh j ?_
    rwa [← hsame.freeinode]

/-- **`iappend`** adds bytes at the end of a file, unless the image is full. -/
lemma iappend_spec (h : Made m N) (hi : (N i).type ≠ .free)
    (hx : (N i).write p (N i).size = some x) :
    Post (iappend i p) m
      (fun _ m' => Made m' (update N i x) ∧ m'.freeinode = m.freeinode) Full := by
  have hlt := h.lt_ninodes hi
  obtain ⟨-, hmax, -⟩ := Node.write_eq_some.mp hx
  have hsize : xint (getDinode (m.disk (iblock i)) (i % IPB)).size = (N i).size := by
    rw [xint_eq (h.sized i hlt).size, h.node_eq hi, dinodes_of_lt hlt]
    rfl
  have hmid := h.midcall (Fin.last 49) hi
  have hsound := (hmid.sound_of_locked rfl).2
  have htype : ((locked m (Fin.last 49) i).inode (Fin.last 49)).din.type ≠ .free := by
    rw [locked_inode_self]
    exact h.type_ne hi
  rw [iappend, post_bind, post_rinode h.sectors hlt, post_bind, hsize]
  refine (appendLoop_spec (h.tracks (Fin.last 49) hi) hsound htype le_rfl hmax).imp
    fun r m₁ ha => ?_
  obtain ⟨-, t', -, htr, hw⟩ :=
    (ha.kernel.and (writeLoop_spec hsound htype le_rfl hmax)).total fun _ _ he => he.1
  have hstop : r.2 < 2 ^ 32 := by
    rw [ha.stop]
    exact hmax.trans_lt (by decide)
  rw [post_winode (ha.same.sectors.trans h.sectors) hlt, xint_eq hstop, ha.stop]
  exact ⟨h.append hi hx ha.same ha.fields htr hw, ha.same.freeinode⟩

end Append

/-! ### `ialloc` -/

lemma typeOf_ne {ty : ℕ} (h : ty = T_DIR ∨ ty = T_FILE) : typeOf ty ≠ .free := by
  rcases h with rfl | rfl
  · decide
  · decide

/-- **`ialloc`** makes an empty file. -/
lemma ialloc_spec (h : Made m N) (hlt : m.freeinode < NINODES) {ty : ℕ}
    (hty : ty = T_DIR ∨ ty = T_FILE) :
    Post (ialloc ty) m (fun i m' => i = m.freeinode ∧ m'.freeinode = m.freeinode + 1 ∧
      Made m' (update N m.freeinode (fileWith (typeOf ty) []))) E := by
  have hbits : ty < 2 ^ 16 := by
    rcases hty with rfl | rfl
    · decide
    · decide
  have hsized : RawDinode.Sized { type := ty, nlink := 1, size := 0 } :=
    ⟨hbits, Nat.two_pow_pos 16, Nat.two_pow_pos 16, Nat.one_lt_two_pow (by decide),
      Nat.two_pow_pos 32, fun _ => Nat.two_pow_pos 32⟩
  simp only [ialloc, post_bind, post_get, post_modify, post_pure]
  rw [xshort_eq hbits, xshort_eq (by decide), xint_eq (by decide)]
  refine (post_winode (m := { m with freeinode := m.freeinode + 1 }) h.sectors hlt _).mpr
    ⟨trivial, rfl, ?_⟩
  generalize hr : ({ type := ty, nlink := 1, size := 0 } : RawDinode) = r at hsized
  have hdin : r.toDinode = ⟨typeOf ty, 0, 0, 1, 0, fun _ => 0⟩ := by
    have hzero : short ((0 : ℕ) : ℤ) = 0 := by decide
    have hone : short ((1 : ℕ) : ℤ) = 1 := by decide
    simp only [← hr, RawDinode.toDinode, hzero, hone]
  generalize hi : m.freeinode = i at hlt
  have hfree : (dinodes m.disk i).type = .free := by
    rw [← nodeOf_type m.disk, h.node, h.fresh i hi.le]
  have hD : dinodes (setRaw m.disk i r) = update (dinodes m.disk) i r.toDinode :=
    dinodes_setRaw hlt hsized
  have hdata : ∀ b, layout.nmeta ≤ b → setRaw m.disk i r b = m.disk b := fun b hb =>
    setRaw_of_le hlt (by rwa [layout_nmeta] at hb)
  have hsound :
      Sound layout (update (dinodes m.disk) i r.toDinode) (firstUsed m.freeblock) m.disk :=
    h.sound.setFresh hfree (fun _ => by rw [hdin]) (by rw [hdin])
  have hblock : ∀ bn, blockAddr m.disk r.toDinode bn = 0 := fun bn => by
    rw [hdin]
    exact blockAddr_of_zero (fun _ => rfl) bn
  have htype : ∀ j ≠ i, (N j).type ≠ .free →
      (update (dinodes m.disk) i r.toDinode j).type ≠ .free := by
    intro j hji hj
    rw [update_of_ne hji]
    exact h.type_ne hj
  have hself : (update (dinodes m.disk) i r.toDinode i).type ≠ .free := by
    rw [update_self, hdin]
    exact typeOf_ne hty
  refine ⟨h.sectors, h.low, h.high, fun b hb => ?_, ?_, fun j hj => ?_, ?_, fun j => ?_,
    fun j hj => ?_, fun j hj o ho hne => ?_, fun j hj bn hbn => ?_, fun j hj => ?_⟩
  · rw [← h.zero b hb]
    exact setRaw_of_le hlt (h.low.trans hb)
  · rw [← h.super]
    exact setRaw_one hlt m.disk r
  · by_cases hji : j = i
    · subst hji
      rw [getDinode_setRaw_self hsized]
      exact hsized
    · rw [getDinode_setRaw_of_ne hji]
      exact h.sized j hj
  · refine hsound.congr (fun j => by rw [hD]) (fun j => by rw [hD]) (fun j q hj => ?_)
      fun _ _ => rfl
    rw [hD]
    exact hsound.slotAddr_of_data hdata hj q
  · rw [hD, hsound.nodeOf_of_data hdata j]
    by_cases hji : j = i
    · subst hji
      rw [nodeOf_of_type hself, update_self, update_self, hdin]
      rfl
    · rw [update_of_ne hji, update_of_ne hji]
      exact h.node j
  · by_cases hji : j = i
    · subst hji
      rw [update_self]
      rfl
    · rw [update_of_ne hji] at hj ⊢
      exact h.nlink j hj
  · by_cases hji : j = i
    · subst hji
      rw [hD, hsound.blockAddr_of_data hdata hself, update_self] at hne
      exact absurd (hblock _) hne
    · rw [update_of_ne hji] at hj ho
      have ht := htype j hji hj
      rw [hD, hsound.blockAddr_of_data hdata ht] at hne
      rw [hD, hsound.byteAt_of_data hdata ht hne]
      rw [update_of_ne hji] at hne ⊢
      exact h.tail j hj o ho hne
  · by_cases hji : j = i
    · subst hji
      rw [hD, hsound.blockAddr_of_data hdata hself, update_self]
      exact hblock bn
    · rw [update_of_ne hji] at hj hbn
      rw [hD, hsound.blockAddr_of_data hdata (htype j hji hj), update_of_ne hji]
      exact h.tight j hj bn hbn
  · have hji : i < j := hj
    rw [update_of_ne (by omega)]
    exact h.fresh j (by omega)

end Xv6.Mkfs
