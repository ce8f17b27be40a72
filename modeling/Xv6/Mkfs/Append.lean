import Xv6.Files.NodeOps
import Xv6.Mkfs.Image

/-!
`iappend` is `writei` (`mkfs.c`, `fs.c`).

`mkfs` takes the blocks of the image in order, and the kernel takes the lowest one that is free.  So
if the blocks before `freeblock` are marked and the others are zero, the loop of `iappend` takes the
blocks and writes the bytes that the loop of `writei` does at the end of the file.

* `Tracks`: the image and the inode in `mkfs` are those in the kernel.
* `fillSlot_spec`, `blockFor_spec`, `appendLoop_spec`: `mkfs` follows `ensure`, `bmap` and the loop
  of `writei`, unless the image is full.
* `Made`: the image is consistent and has the files `N`; `ialloc_spec`, `iappend_spec`.
-/

namespace Xv6.Mkfs

open Xv6.Files Transition Function
open Xv6.Fs hiding word

/-! ### The loop -/

/-- **`mkfs` and the kernel agree** on the blocks and on the addresses in the inode `k`. -/
structure Tracks (k : Ip) (m : Host) (din : RawDinode) (t : Fs) : Prop where
  sectors : m.sectors = FSSIZE
  low : nmeta ≤ m.freeblock
  high : m.freeblock ≤ FSSIZE
  zero : ∀ b, m.freeblock ≤ b → m.disk b = fun _ => 0
  data : t.data = m.disk
  free : ∀ b, isFree t.bitmap b = decide (m.freeblock ≤ b)
  addrs : (t.inode k).din.addrs = din.addrs

/-- Only data blocks and `freeblock` have changed. -/
structure SameMeta (m m' : Host) : Prop where
  freeinode : m'.freeinode = m.freeinode
  sectors : m'.sectors = m.sectors
  disk : ∀ b < nmeta, m'.disk b = m.disk b

/-- The image is full. -/
def Full (_ : Exit) (m : Host) : Prop := FSSIZE < m.freeblock

variable {k : Ip} {m m' : Host} {din : RawDinode} {t t' : Fs}

variable {E : Exit → Host → Prop}

@[simp] lemma post_wsect (sec : ℕ) (buf : Bytes) {Q : Unit → Host → Prop} :
    Post (wsect sec buf) m Q E ↔
      Q () { m with disk := update m.disk sec buf, sectors := max m.sectors (sec + 1) } :=
  Iff.rfl

lemma post_rsect {sec : ℕ} {Q : Bytes → Host → Prop} :
    Post (rsect sec) m Q E ↔
      (sec < m.sectors → Q (m.disk sec) m) ∧ (¬sec < m.sectors → E .rsect m) := by
  simp only [rsect, post_bind, post_get, post_ite, post_pure, post_throw]

@[simp] lemma post_newBlock {Q : ℕ → Host → Prop} :
    Post newBlock m Q E ↔ Q m.freeblock { m with freeblock := m.freeblock + 1 } := Iff.rfl

namespace Tracks

/-- The kernel takes the same block. -/
lemma balloc (h : Tracks k m din t) (hlt : m.freeblock < FSSIZE) :
    ∃ t', Files.balloc layout t = .ok m.freeblock t' ∧ t'.inode = t.inode ∧
      Tracks k { m with freeblock := m.freeblock + 1 } din t' := by
  have hmeta : ∀ b < layout.nmeta, isFree t.bitmap b = false := by
    intro b hb
    rw [layout_nmeta] at hb
    rw [h.free]
    exact decide_eq_false (not_le.mpr (hb.trans_le h.low))
  have hspec : Post (Files.balloc layout) t (fun b t' => Allocated layout t b t')
      (fun e t' => e = .outOfBlocks ∧ t' = t ∧ ∀ b < layout.size, isFree t.bitmap b = false) :=
    balloc_spec hmeta
  cases hres : Files.balloc layout t with
  | error e t' =>
    have hbad := (hspec.error hres).2.2 m.freeblock (by rwa [layout_size])
    rw [h.free, decide_eq_true le_rfl] at hbad
    cases hbad
  | ok b t' =>
    have ha := hspec.ok hres
    have hb := ha.free
    rw [h.free, decide_eq_true_eq] at hb
    obtain rfl : b = m.freeblock := by
      refine le_antisymm (not_lt.mp fun hlt' => ?_) hb
      have hbad := ha.first _ hlt'
      rw [h.free, decide_eq_true le_rfl] at hbad
      cases hbad
    refine ⟨t', rfl, ha.same.inode, h.sectors, h.low.trans (Nat.le_succ _), hlt,
      fun c hc => h.zero c ((Nat.le_succ _).trans hc), ?_, fun c => ?_, ?_⟩
    · rw [ha.data, h.data, ← h.zero _ le_rfl, update_eq_self]
    · rw [ha.map, h.free, ← Bool.decide_and]
      refine decide_eq_decide.mpr ?_
      simp only
      omega
    · rw [ha.same.inode]
      exact h.addrs

end Tracks

/-- **`mkfs` follows the kernel**: what it does to the inode and the image, with the block `x` as
result, the kernel code does too, unless the image is full. -/
structure Follows (k : Ip) (code : FsM ℕ) (t : Fs) (m : Host) (din din' : RawDinode) (x : ℕ)
    (m' : Host) : Prop where
  same : SameMeta m m'
  fields : din' = { din with addrs := din'.addrs }
  lt : x < m'.freeblock
  ok : x < FSSIZE → Post code t (fun b t' => b = x ∧ Tracks k m' din' t') fun _ _ => False
  full : FSSIZE ≤ x → FSSIZE < m'.freeblock

lemma SameMeta.refl (m : Host) : SameMeta m m := ⟨rfl, rfl, fun _ _ => rfl⟩

lemma SameMeta.trans {m'' : Host} (h : SameMeta m m') (h' : SameMeta m' m'') : SameMeta m m'' :=
  ⟨h'.freeinode.trans h.freeinode, h'.sectors.trans h.sectors,
    fun b hb => (h'.disk b hb).trans (h.disk b hb)⟩

section

variable (h : Tracks k m din t) (hs : Sound layout (view t k) t.bitmap t.data)
  (htype : (t.inode k).din.type ≠ .free)

include h hs htype

lemma Tracks.addr_lt (p : Fin (NDIRECT + 1)) (hne : din.addrs p ≠ 0) :
    nmeta ≤ din.addrs p ∧ din.addrs p < m.freeblock := by
  have hview : (view t k (t.inode k).inum).type ≠ .free := by rwa [view_self]
  have hslot : slotAddr t.data (view t k (t.inode k).inum) (.inl p) = din.addrs p := by
    rw [view_self, ← h.addrs]
    rfl
  have hrange := hs.slotAddr_range hview (p := .inl p) (by rwa [hslot])
  have hfree := hs.isFree_slotAddr hview (p := .inl p) (by rwa [hslot])
  rw [hslot, layout_nmeta] at hrange
  rw [hslot, h.free, decide_eq_false_iff_not, not_le] at hfree
  exact ⟨hrange.1, hfree⟩

/-- `fillSlot` follows `ensure`. -/
lemma fillSlot_spec (p : Fin (NDIRECT + 1)) :
    Post (fillSlot din p) m
      (fun din' m' => Follows k (ensure layout k p) t m din din' (xint (din'.addrs p)) m')
      Full := by
  have hhigh : m.freeblock ≤ 1000 := h.high
  have haddr : (t.inode k).din.addrs p = din.addrs p := congrFun h.addrs p
  have hxint : xint (din.addrs p) = din.addrs p := by
    by_cases hne : din.addrs p = 0
    · rw [hne]
      rfl
    · have hlt := (h.addr_lt hs htype p hne).2
      exact xint_eq (by omega)
  simp only [fillSlot, post_ite, hxint, post_bind, post_newBlock, post_pure]
  refine ⟨fun hzero => ?_, fun hne => ?_⟩
  · -- A new block.
    have hnew : xint m.freeblock = m.freeblock := xint_eq (by omega)
    rw [update_self, hnew, hnew]
    refine ⟨⟨rfl, rfl, fun _ _ => rfl⟩, rfl, Nat.lt_succ_self _, fun hlt => ?_,
      fun hge => Nat.lt_succ_of_le hge⟩
    obtain ⟨t₁, hok, hinode, htracks⟩ := h.balloc hlt
    simp only [ensure, post_bind, post_inode, haddr, hzero, if_true, post_setDin, post_pure]
    refine .of_ok hok ⟨rfl, ?_⟩
    refine { htracks with addrs := ?_ }
    rw [Fs.setInode_inode_self, hinode, h.addrs]
  · -- The slot has a block.
    obtain ⟨-, hlt⟩ := h.addr_lt hs htype p hne
    refine ⟨.refl m, rfl, hlt, fun _ => ?_, fun hge => hge.trans_lt hlt⟩
    refine (ensure_there (by rwa [haddr])).imp ?_
    rintro b t' ⟨rfl, rfl⟩
    exact ⟨haddr, h⟩

end

/-- A data block is written. -/
lemma SameMeta.write (hsectors : m.sectors = FSSIZE) {x : ℕ} (hlow : nmeta ≤ x) (hx : x < FSSIZE)
    (buf : Bytes) :
    SameMeta m { m with disk := update m.disk x buf, sectors := max m.sectors (x + 1) } :=
  ⟨rfl, max_eq_left (by rw [hsectors]; exact hx),
    fun _ hb => update_of_ne (hb.trans_le hlow).ne ..⟩

/-- A block that is in use is written by both. -/
lemma Tracks.write (h : Tracks k m din t) {x : ℕ} (hx : x < m.freeblock) (buf : Bytes) :
    Tracks k { m with disk := update m.disk x buf, sectors := max m.sectors (x + 1) } din
      ((t.setData x buf).log x) := by
  refine ⟨?_, h.low, h.high, fun b hb => ?_, ?_, h.free, h.addrs⟩
  · exact (max_eq_left (by rw [h.sectors]; exact hx.trans_le h.high)).trans h.sectors
  · exact (update_of_ne (hx.trans_le hb).ne' ..).trans (h.zero b hb)
  · change update t.data x buf = update m.disk x buf
    rw [h.data]

section

variable (h : Tracks k m din t) (hs : Sound layout (view t k) t.bitmap t.data)
  (htype : (t.inode k).din.type ≠ .free)

include h hs htype

/-- A word of the indirect block is an address. -/
lemma Tracks.word_lt {j : ℕ} (hj : j < NINDIRECT) (hind : din.addrs (Fin.last NDIRECT) ≠ 0)
    (hne : word (m.disk (din.addrs (Fin.last NDIRECT))) j ≠ 0) :
    word (m.disk (din.addrs (Fin.last NDIRECT))) j < m.freeblock := by
  have hview : (view t k (t.inode k).inum).type ≠ .free := by rwa [view_self]
  have hslot : slotAddr t.data (view t k (t.inode k).inum) (.inr ⟨j, hj⟩)
      = word (m.disk (din.addrs (Fin.last NDIRECT))) j := by
    rw [view_self, slotAddr, h.addrs, if_neg hind, h.data]
  have hfree := hs.isFree_slotAddr hview (p := .inr ⟨j, hj⟩) (by rwa [hslot])
  rwa [hslot, h.free, decide_eq_false_iff_not, not_le] at hfree

/-- `blockFor` follows `bmap`. -/
lemma blockFor_spec {fbn : ℕ} (hfbn : fbn < MAXFILE) :
    Post (blockFor din fbn) m (fun r m' => Follows k (bmap layout k fbn) t m din r.1 r.2 m')
      Full := by
  unfold blockFor
  split
  · next hlt =>
    refine (fillSlot_spec h hs htype _).seq fun din' m' hf => ?_
    refine { hf with ok := fun hx => ?_ }
    have hok := hf.ok hx
    rw [bmap, dif_pos hlt]
    exact hok
  · next hge =>
    have hj : fbn - NDIRECT < NINDIRECT := by
      simp only [MAXFILE] at hfbn
      omega
    refine (fillSlot_spec h hs htype _).seq fun din₁ m₁ hf => ?_
    rw [post_bind, post_rsect, hf.same.sectors, h.sectors]
    refine ⟨fun hx₁ => ?_, fun hge => hf.full (not_lt.mp hge)⟩
    -- The kernel has the indirect block too.
    obtain ⟨b, t₁, hres, ⟨hb, htr⟩, hgrow, hb', hb0, -, -, -⟩ :=
      ((hf.ok hx₁).and (ensure_spec hs htype (Fin.last NDIRECT))).total fun _ _ he => he.1
    have htype₁ : (t₁.inode k).din.type ≠ .free := by rwa [hgrow.type_self]
    rw [htr.addrs] at hb'
    subst hb'
    rw [← hb]
    generalize hind : din₁.addrs (Fin.last NDIRECT) = ind at *
    have hhigh : m₁.freeblock ≤ 1000 := htr.high
    obtain ⟨hlow, hlt⟩ := htr.addr_lt hgrow.sound htype₁ (Fin.last NDIRECT) (by rwa [hind])
    rw [hind] at hlow hlt
    have hrange : layout.nmeta ≤ ind ∧ ind < layout.size := by
      rw [layout_nmeta, layout_size]
      exact ⟨hlow, hlt.trans_le htr.high⟩
    -- What is left of `bmap`.
    have hbmap : ∀ {Q : ℕ → Fs → Prop},
        Post (bmap layout k fbn) t Q (fun _ _ => False) ↔
          Post (if word (m₁.disk ind) (fbn - NDIRECT) = 0 then do
              let b ← Files.balloc layout
              bwrite ind (setWord ((← get).data ind) (fbn - NDIRECT) b)
              return b
            else return word (m₁.disk ind) (fbn - NDIRECT)) t₁ Q (fun _ _ => False) := by
      intro Q
      rw [bmap, dif_neg hge, if_pos hj, post_bind, Post.ok_iff hres, post_bind, post_bdata hrange,
        htr.data]
    simp only [post_ite, post_bind, post_newBlock, post_wsect, post_pure] at hbmap ⊢
    refine ⟨fun hzero => ?_, fun hne => ?_⟩
    · -- A new block, and its address goes to the indirect block.
      have hnew : xint m₁.freeblock = m₁.freeblock := xint_eq (by omega)
      have hword : xint (word (setWord (m₁.disk ind) (fbn - NDIRECT) m₁.freeblock) (fbn - NDIRECT))
          = m₁.freeblock := by
        rw [word_setWord_self _ _ _ (by omega), hnew]
      rw [hnew, hword]
      refine ⟨hf.same.trans ⟨rfl, ?_, fun b hb' => ?_⟩, hf.fields, Nat.lt_succ_self _, fun hx => ?_,
        fun hge => Nat.lt_succ_of_le hge⟩
      · exact max_eq_left (by rw [htr.sectors]; exact hlt.trans_le htr.high)
      · exact update_of_ne (hb'.trans_le hlow).ne ..
      · obtain ⟨t₂, hok, hinode, htr₂⟩ := htr.balloc hx
        refine hbmap.mpr ⟨fun _ => .of_ok hok ?_, fun hne => absurd hzero hne⟩
        rw [post_get, post_bwrite]
        refine ⟨rfl, ?_⟩
        have hdata : t₂.data ind = m₁.disk ind := congrFun htr₂.data ind
        rw [hdata]
        exact htr₂.write (hlt.trans (Nat.lt_succ_self _)) _
    · have hwlt := htr.word_lt hgrow.sound htype₁ hj (by rwa [hind]) (by rwa [hind])
      rw [hind] at hwlt
      rw [xint_eq (by omega)]
      exact ⟨hf.same, hf.fields, hwlt,
        fun _ => hbmap.mpr ⟨fun hzero => absurd hzero hne, fun _ => ⟨rfl, htr⟩⟩,
        fun hge => hge.trans_lt hwlt⟩

end

/-- What the loop of `iappend` gives: the loop of `writei` leads the kernel to the same blocks. -/
structure Appended (k : Ip) (t : Fs) (m : Host) (din : RawDinode) (fuel off : ℕ) (p : List ℕ)
    (r : RawDinode × ℕ) (m' : Host) : Prop where
  stop : r.2 = off + p.length
  same : SameMeta m m'
  fields : r.1 = { din with addrs := r.1.addrs }
  kernel : Post (writeLoop layout k fuel off p) t (fun _ t' => Tracks k m' r.1 t') fun _ _ => False

/-- The loop of `iappend` follows the loop of `writei`. -/
lemma appendLoop_spec {fuel off : ℕ} {p : List ℕ} (h : Tracks k m din t)
    (hs : Sound layout (view t k) t.bitmap t.data) (htype : (t.inode k).din.type ≠ .free)
    (hfuel : p.length ≤ fuel) (hmax : off + p.length ≤ MAXFILE * BSIZE) :
    Post (appendLoop fuel din off p) m (Appended k t m din fuel off p) Full := by
  induction fuel generalizing m din t off p with
  | zero =>
    obtain rfl : p = [] := List.length_eq_zero_iff.mp (by omega)
    exact ⟨rfl, .refl m, rfl, h⟩
  | succ fuel ih =>
    unfold appendLoop
    rw [post_ite]
    refine ⟨fun hp => ?_, fun hp => ?_⟩
    · obtain rfl := List.length_eq_zero_iff.mp hp
      exact ⟨rfl, .refl m, rfl, h⟩
    have hfbn : off / BSIZE < MAXFILE := Nat.div_lt_of_lt_mul (by rw [Nat.mul_comm]; omega)
    have hrem : off % BSIZE < BSIZE := Nat.mod_lt _ (by norm_num)
    have hoff : off - off / BSIZE * BSIZE = off % BSIZE := by
      have := Nat.div_add_mod' off BSIZE
      omega
    have hn1 : (off / BSIZE + 1) * BSIZE - off = BSIZE - off % BSIZE := by
      have := Nat.div_add_mod' off BSIZE
      rw [Nat.succ_mul]
      omega
    rw [if_neg (not_le.mpr hfbn), post_bind]
    refine (blockFor_spec h hs htype hfbn).imp fun r m₁ hf => ?_
    obtain ⟨din₁, x⟩ := r
    dsimp only at hf
    simp only [post_bind, post_rsect, post_wsect, hoff, hn1]
    have hsectors : m₁.sectors = FSSIZE := hf.same.sectors.trans h.sectors
    refine ⟨fun hx => ?_, fun hge => hf.full (hsectors ▸ not_lt.mp hge)⟩
    rw [hsectors] at hx
    obtain ⟨b, t₁, hres, ⟨rfl, htr⟩, hmap⟩ :=
      ((hf.ok hx).and (bmap_spec hs htype hfbn)).total fun _ _ he => he.1
    have htype₁ : (t₁.inode k).din.type ≠ .free := by rwa [hmap.grows.type_self]
    have hrange : layout.nmeta ≤ b ∧ b < layout.size := by
      rw [hmap.addr]
      exact hmap.grows.sound.blockAddr_range htype₁ (hmap.addr ▸ hmap.ne)
    have hm1 : 1 ≤ min p.length (BSIZE - off % BSIZE) := le_min (by omega) (by omega)
    have hm : min p.length (BSIZE - off % BSIZE) ≤ p.length := min_le_left ..
    have hmb : min p.length (BSIZE - off % BSIZE) ≤ BSIZE - off % BSIZE := min_le_right ..
    -- What is left of the loop of `writei`.
    have hloop : ∀ {Q : Unit → Fs → Prop},
        Post (writeLoop layout k (fuel + 1) off p) t Q (fun _ _ => False) ↔
          Post (writeLoop layout k fuel (off + min p.length (BSIZE - off % BSIZE))
            (p.drop (min p.length (BSIZE - off % BSIZE))))
            ((t₁.setData b (splice (t₁.data b) (off % BSIZE)
              (p.take (min p.length (BSIZE - off % BSIZE))))).log b) Q (fun _ _ => False) := by
      intro Q
      rw [writeLoop, if_neg hp, post_bind, Post.ok_iff hres, post_bind, post_bdata hrange,
        post_bind, post_bwrite]
    generalize min p.length (BSIZE - off % BSIZE) = n at hm hm1 hmb hloop ⊢
    have htake : (p.take n).length = n := by rw [List.length_take, min_eq_left hm]
    have hpos : 0 < (p.take n).length := by omega
    have hlen : off % BSIZE + (p.take n).length ≤ BSIZE := by omega
    have hround := Wrote.round hs htype hmap hpos hlen
    have htr₂ := htr.write hf.lt (splice (t₁.data b) (off % BSIZE) (p.take n))
    rw [htr.data] at hround htr₂ hloop
    have hfuel' : (p.drop n).length ≤ fuel := by rw [List.length_drop]; omega
    have hmax' : off + n + (p.drop n).length ≤ MAXFILE * BSIZE := by
      rw [List.length_drop]
      omega
    refine (ih htr₂ hround.sound (by rwa [hround.type_self]) hfuel' hmax').imp fun r m₂ ha => ?_
    refine ⟨?_, ?_, ?_, hloop.mpr ha.kernel⟩
    · rw [ha.stop, List.length_drop]
      omega
    · refine (hf.same.trans (.write hsectors ?_ hx _)).trans ha.same
      rw [← layout_nmeta]
      exact hrange.1
    · rw [ha.fields, hf.fields]

end Xv6.Mkfs
