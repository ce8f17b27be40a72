import Mathlib.Data.List.GetD
import Xv6.Files.Bmap

/-!
The contents of a file (`readi`, `writei`).

* `byteAt`: a byte of a file.
* `readLoop_spec`: the loop of `readi` returns bytes of the file; as no file has a hole it
  changes nothing.
* `Wrote`, `writeLoop_spec`: the loop of `writei` changes the bytes it is given, adds the blocks
  for them, and leaves every other byte of every file as it was.
-/

namespace Xv6.Files

open Xv6.Fs Transition Function

variable {sb : Superblock} {s : Fs} {k : Ip}

/-- The byte of a file at an offset. -/
def byteAt (data : ℕ → Bytes) (d : Dinode) (o : ℕ) : ℕ :=
  data (blockAddr data d (o / BSIZE)) (o % BSIZE)

/-- An offset in the block of another one. -/
lemma div_mod_add {off j : ℕ} (h : off % BSIZE + j < BSIZE) :
    (off + j) / BSIZE = off / BSIZE ∧ (off + j) % BSIZE = off % BSIZE + j := by
  simp only [BSIZE] at *
  omega

variable {data : ℕ → Bytes} {d : Dinode} {bn : ℕ}

lemma blockAddr_some {p : Place}
    (h : blockPlace bn = some p) : blockAddr data d bn = slotAddr data d p := by
  rw [blockAddr, h, Option.elim_some]

/-- Every place but that of the indirect block is for a block of the file. -/
lemma exists_blockPlace {p : Place} (hp : p ≠ .ind) : ∃ bn, blockPlace bn = some p := by
  cases p with
  | inl q =>
    have hq : q.val < NDIRECT := by
      refine lt_of_le_of_ne (Nat.le_of_lt_succ q.isLt) fun heq => hp ?_
      exact congrArg Sum.inl (Fin.ext heq)
    exact ⟨q, by rw [blockPlace, dif_pos hq]; rfl⟩
  | inr j =>
    have hj : NDIRECT + j.val - NDIRECT < NINDIRECT := by
      rw [Nat.add_sub_cancel_left]
      exact j.isLt
    refine ⟨NDIRECT + j, ?_⟩
    rw [blockPlace, dif_neg (by omega), dif_pos hj]
    exact congrArg (some ∘ Sum.inr) (Fin.ext (Nat.add_sub_cancel_left ..))

/-- `bmap` adds blocks in the places for one block of the file. -/
lemma Bmapped.added {b : ℕ} {s' : Fs} (h : Bmapped sb k bn s b s') :
    Added sb k (PlacesAt bn) s s' := by
  refine h.grows.added fun p hp => ?_
  by_cases hind : p = .ind
  · subst hind
    refine h.ind (not_le.mp fun hge => hp (.inr ⟨rfl, hge⟩))
  · obtain ⟨bn', hbn'⟩ := exists_blockPlace hind
    have hsame := h.others bn' fun heq => hp (.inl (heq ▸ hbn'))
    rwa [blockAddr_some hbn', blockAddr_some hbn'] at hsame

/-- The places for bytes of a file. -/
def PlacesFor (off n : ℕ) (p : Place) : Prop := ∃ j < n, PlacesAt ((off + j) / BSIZE) p

lemma lt_maxfile (h : blockAddr data d bn ≠ 0) :
    bn < MAXFILE := by
  obtain ⟨p, hp, -⟩ := blockAddr_eq h
  cases p with
  | inl q =>
    have hlt := (blockPlace_inl hp).2
    simp only [MAXFILE, NINDIRECT, BSIZE] at *
    omega
  | inr j =>
    have hj := blockPlace_inr hp
    have hlt := j.isLt
    simp only [MAXFILE]
    omega

variable {d' : Dinode}

/-- The blocks depend on the addresses only. -/
lemma slotAddr_addrs (h : d.addrs = d'.addrs) (data : ℕ → Bytes) (p : Place) :
    slotAddr data d p = slotAddr data d' p := by
  cases p with
  | inl q | inr j => rw [slotAddr, slotAddr, h]

/-- Only sizes change after that. -/
lemma Added.congr {P : Place → Prop} {s s' s'' : Fs} (h : Added sb k P s s')
    (hthrough : s''.through = s'.through) (hinum : (s''.inode k).inum = (s'.inode k).inum)
    (htype : ∀ i, (view s'' k i).type = (view s' k i).type)
    (haddrs : ∀ i, (view s'' k i).addrs = (view s' k i).addrs) (hdata : s''.data = s'.data)
    (hsound : Sound sb (view s'' k) s''.bitmap s''.data) : Added sb k P s s'' where
  through := hthrough.trans h.through
  inum := hinum.trans h.inum
  type i := (htype i).trans (h.type i)
  addr i p hi hp := by rw [hdata, slotAddr_addrs (haddrs i), h.addr i p hi hp]
  only i p hi hz hout := by rw [hdata, slotAddr_addrs (haddrs i), h.only i p hi hz hout]
  sound := hsound

lemma blockAddr_addrs (h : d.addrs = d'.addrs) (data : ℕ → Bytes) (bn : ℕ) :
    blockAddr data d bn = blockAddr data d' bn := by
  unfold blockAddr
  cases blockPlace bn with
  | none => rfl
  | some p => exact slotAddr_addrs h data p

lemma byteAt_addrs (h : d.addrs = d'.addrs) (data : ℕ → Bytes) (o : ℕ) :
    byteAt data d o = byteAt data d' o := by
  rw [byteAt, byteAt, blockAddr_addrs h]

section

variable (h : Sound sb (view s k) s.bitmap s.data) (hk : (s.inode k).din.type ≠ .free)
  (hbn : blockAddr s.data (s.inode k).din bn ≠ 0)

include h hk hbn

/-- A block of the locked inode is in the data area. -/
lemma Sound.blockAddr_range :
    sb.nmeta ≤ blockAddr s.data (s.inode k).din bn ∧
      blockAddr s.data (s.inode k).din bn < sb.size := by
  obtain ⟨p, -, heq⟩ := blockAddr_eq hbn
  have hrange := h.slotAddr_range (i := (s.inode k).inum) (by rwa [view_self]) (p := p)
  rw [view_self, ← heq] at hrange
  exact hrange hbn

/-- A block of the locked inode that is there can be read. -/
lemma Sound.mapped : Mapped sb s.data (s.inode k).din bn := by
  refine ⟨hbn, h.blockAddr_range hk hbn, fun hge => ?_⟩
  have hind : (s.inode k).din.addrs (Fin.last NDIRECT) ≠ 0 := by
    intro hzero
    refine hbn ?_
    unfold blockAddr blockPlace
    rw [dif_neg (not_lt.mpr hge)]
    split
    · exact if_pos hzero
    · rfl
  have hrange := h.slotAddr_range (i := (s.inode k).inum) (by rwa [view_self]) (p := .ind)
  rw [view_self] at hrange
  exact hrange hind

end

variable {o : ℕ}

/-- A file has the blocks below its size. -/
lemma Sound.blockAddr_of_lt (h : Sound sb (view s k) s.bitmap s.data)
    (hk : (s.inode k).din.type ≠ .free) (ho : o < (s.inode k).din.size) :
    blockAddr s.data (s.inode k).din (o / BSIZE) ≠ 0 := by
  have hfull := h.full (s.inode k).inum (by rwa [view_self])
  rw [view_self] at hfull
  exact hfull _ ((Nat.div_mul_le_self o BSIZE).trans_lt ho)

variable {i : ℕ}

section

variable {D : ℕ → Dinode} {bitmap : ℕ → ℕ} {data' : ℕ → Bytes} (h : Sound sb D bitmap data)
  (hdata : ∀ b, sb.nmeta ≤ b → data' b = data b) (hi : (D i).type ≠ .free)

include h hdata hi

/-- The files are in the data area. -/
lemma Sound.blockAddr_of_data (bn : ℕ) : blockAddr data' (D i) bn = blockAddr data (D i) bn := by
  unfold blockAddr
  cases blockPlace bn with
  | none => rfl
  | some p => exact h.slotAddr_of_data hdata hi p

lemma Sound.byteAt_of_data (ho : blockAddr data (D i) (o / BSIZE) ≠ 0) :
    byteAt data' (D i) o = byteAt data (D i) o := by
  obtain ⟨p, -, heq⟩ := blockAddr_eq ho
  have hrange := h.slotAddr_range hi (p := p)
  rw [← heq] at hrange
  rw [byteAt, byteAt, h.blockAddr_of_data hdata hi, hdata _ (hrange ho).1]

end

/-- The rounds of a loop that copies `n` bytes from an offset on, one block in a round. -/
def rounds (off n : ℕ) : ℕ := if n = 0 then 0 else (off % BSIZE + n - 1) / BSIZE + 1

variable {n : ℕ}

/-- A round that is not the last one goes to the end of a block. -/
lemma rounds_succ (off : ℕ) (hn : 0 < n) :
    rounds (off + min n (BSIZE - off % BSIZE)) (n - min n (BSIZE - off % BSIZE)) + 1
      ≤ rounds off n := by
  have hrem : off % BSIZE < BSIZE := Nat.mod_lt _ (by norm_num)
  rw [rounds, rounds, if_neg (by omega : ¬n = 0)]
  by_cases hlast : n ≤ BSIZE - off % BSIZE
  · rw [min_eq_left hlast, Nat.sub_self, if_pos rfl]
    exact Nat.le_add_left ..
  · rw [min_eq_right (by omega), if_neg (by omega)]
    simp only [BSIZE] at *
    omega

/-! ### The loop of `readi` -/

lemma map_range_add (f : ℕ → ℕ) {m : ℕ} (h : m ≤ n) :
    (List.range m).map f ++ (List.range (n - m)).map (fun j => f (m + j))
    = (List.range n).map f := by
  conv_rhs => rw [← Nat.add_sub_of_le h, List.range_add, List.map_append, List.map_map]
  rfl

variable {fuel : ℕ}

/-- The loop returns the bytes of blocks that are there. -/
lemma readLoop_mapped {E : Stop → Fs → Prop} {off : ℕ} (hfuel : n ≤ fuel)
    (h : ∀ o, off ≤ o → o < off + n → Mapped sb s.data (s.inode k).din (o / BSIZE)) :
    Post (readLoop sb k fuel off n) s
      (fun bs s' => s' = s ∧
        bs = (List.range n).map fun j => byteAt s.data (s.inode k).din (off + j)) E := by
  induction fuel generalizing off n with
  | zero =>
    obtain rfl : n = 0 := by omega
    exact ⟨rfl, rfl⟩
  | succ fuel ih =>
    unfold readLoop
    by_cases hn0 : n = 0
    · subst hn0
      rw [if_pos rfl]
      exact ⟨rfl, rfl⟩
    · rw [if_neg hn0]
      have hmapped := h off le_rfl (by omega)
      have hrem : off % BSIZE < BSIZE := Nat.mod_lt _ (by norm_num)
      have hm : min n (BSIZE - off % BSIZE) ≤ n := min_le_left ..
      have hm1 : 1 ≤ min n (BSIZE - off % BSIZE) := le_min (by omega) (by omega)
      generalize hmin : min n (BSIZE - off % BSIZE) = m at hm hm1
      have hmb : m ≤ BSIZE - off % BSIZE := hmin ▸ min_le_right ..
      -- The block is there, so `bmap` finds it and changes nothing.
      rw [post_bind]
      refine (bmap_mapped hmapped).imp ?_
      rintro b s' ⟨rfl, rfl⟩
      rw [post_bind, post_bdata hmapped.range, post_bind]
      refine (ih (by omega) fun o ho ho' => h o (by omega) (by omega)).imp ?_
      rintro bs s' ⟨rfl, rfl⟩
      refine ⟨rfl, ?_⟩
      rw [← map_range_add (fun j => byteAt s'.data (s'.inode k).din (off + j)) hm]
      congr 1
      · refine List.map_congr_left fun j hj => ?_
        have hj' := List.mem_range.mp hj
        have hin : off % BSIZE + j < BSIZE := by omega
        obtain ⟨hdiv, hmod⟩ := div_mod_add hin
        rw [byteAt, hdiv, hmod]
      · simp only [Nat.add_assoc]

lemma readLoop_spec (h : Sound sb (view s k) s.bitmap s.data) (hk : (s.inode k).din.type ≠ .free)
    {E : Stop → Fs → Prop} {off : ℕ} (hfuel : n ≤ fuel) (hn : off + n ≤ (s.inode k).din.size) :
    Post (readLoop sb k fuel off n) s
      (fun bs s' => s' = s ∧
        bs = (List.range n).map fun j => byteAt s.data (s.inode k).din (off + j)) E :=
  readLoop_mapped hfuel fun _ _ ho => h.mapped hk (h.blockAddr_of_lt hk (by omega))

/-! ### The loop of `writei` -/

/-- A block of the file stays where it is, with its contents. -/
lemma Grows.block {s' : Fs} (h : Grows sb k s s') (hk : (s.inode k).din.type ≠ .free)
    (hbn : blockAddr s.data (s.inode k).din bn ≠ 0) :
    blockAddr s'.data (s'.inode k).din bn = blockAddr s.data (s.inode k).din bn ∧
      s'.data (blockAddr s.data (s.inode k).din bn)
        = s.data (blockAddr s.data (s.inode k).din bn) := by
  obtain ⟨p, hp, heq⟩ := blockAddr_eq hbn
  have hk' : (view s k (s.inode k).inum).type ≠ .free := by rwa [view_self]
  have hp0 : slotAddr s.data (view s k (s.inode k).inum) p ≠ 0 := by rwa [view_self, ← heq]
  have haddr := h.addr _ p hk' hp0
  have hdata := h.data _ p hk' (fun hand => blockPlace_ne_ind hp hand.2) hp0
  rw [view_self, ← heq] at hdata
  rw [view_self, ← h.inum, view_self] at haddr
  exact ⟨by rw [blockAddr_some hp, haddr, heq], hdata⟩

/-- Bytes have been written to a locked inode; the size has not been changed yet. -/
structure Wrote (sb : Superblock) (k : Ip) (s : Fs) (off : ℕ) (src : List ℕ) (s' : Fs) : Prop
    extends Extends sb k s s' where
  /-- The blocks of other files are as they were. -/
  apart : ∀ i p, i ≠ (s.inode k).inum → (view s k i).type ≠ .free →
    slotAddr s.data (view s k i) p ≠ 0 →
    s'.data (slotAddr s.data (view s k i) p) = s.data (slotAddr s.data (view s k i) p)
  /-- The bytes that have been written. -/
  here : ∀ j < src.length, blockAddr s'.data (s'.inode k).din ((off + j) / BSIZE) ≠ 0 ∧
    byteAt s'.data (s'.inode k).din (off + j) = src.getD j 0
  /-- The other bytes. -/
  keep : ∀ o, blockAddr s.data (s.inode k).din (o / BSIZE) ≠ 0 → ¬(off ≤ o ∧ o < off + src.length) →
    byteAt s'.data (s'.inode k).din o = byteAt s.data (s.inode k).din o
  /-- The other bytes of new blocks. -/
  fresh : ∀ o, blockAddr s.data (s.inode k).din (o / BSIZE) = 0 →
    blockAddr s'.data (s'.inode k).din (o / BSIZE) ≠ 0 → ¬(off ≤ o ∧ o < off + src.length) →
    byteAt s'.data (s'.inode k).din o = 0
  added : Added sb k (PlacesFor off src.length) s s'
  /-- Without a new block the inode is as it was. -/
  stay : (∀ j < src.length, blockAddr s.data (s.inode k).din ((off + j) / BSIZE) ≠ 0) →
    s'.inode k = s.inode k

namespace Wrote

variable {off : ℕ} {src src' : List ℕ} {s' s'' : Fs}

lemma nil (h : Sound sb (view s k) s.bitmap s.data) : Wrote sb k s off [] s :=
  ⟨.refl h, fun _ _ _ _ _ => rfl, fun _ hj => absurd hj (Nat.not_lt_zero _), fun _ _ _ => rfl,
    fun _ hz hne => absurd hz hne, .refl h, fun _ => rfl⟩

section

variable (h : Wrote sb k s off src s')

include h

/-- The blocks of other files stay where they are. -/
lemma slotAddr_other (hne : i ≠ (s.inode k).inum) (hi : (view s k i).type ≠ .free) (p : Place) :
    slotAddr s'.data (view s k i) p = slotAddr s.data (view s k i) p := by
  cases p with
  | inl q => rfl
  | inr j =>
    simp only [slotAddr]
    split
    · rfl
    · next hind => exact congrArg (fun b => word b j) (h.apart i .ind hne hi hind)

/-- The bytes of other files are as they were. -/
lemma byteAt_other (hne : i ≠ (s.inode k).inum) (hi : (view s k i).type ≠ .free)
    (ho : blockAddr s'.data (view s k i) (o / BSIZE) ≠ 0) :
    blockAddr s.data (view s k i) (o / BSIZE) ≠ 0 ∧
      byteAt s'.data (view s k i) o = byteAt s.data (view s k i) o := by
  obtain ⟨p, hp, heq⟩ := blockAddr_eq ho
  have hslot := h.slotAddr_other hne hi p
  rw [heq, hslot] at ho
  rw [byteAt, byteAt, blockAddr_some hp, blockAddr_some hp, hslot, h.apart i p hne hi ho]
  exact ⟨ho, rfl⟩

/-- A block of the file stays where it is. -/
lemma block (hk : (s.inode k).din.type ≠ .free) (hbn : blockAddr s.data (s.inode k).din bn ≠ 0) :
    blockAddr s'.data (s'.inode k).din bn = blockAddr s.data (s.inode k).din bn := by
  obtain ⟨p, hp, heq⟩ := blockAddr_eq hbn
  have haddr := h.addr (s.inode k).inum p (by rwa [view_self]) (by rwa [view_self, ← heq])
  rw [view_self, ← h.inum, view_self] at haddr
  rw [blockAddr_some hp, haddr, heq]

/-- No other block is new. -/
lemma only (hk : (s.inode k).din.type ≠ .free) (hz : blockAddr s.data (s.inode k).din bn = 0)
    (hout : ∀ j < src.length, bn ≠ (off + j) / BSIZE) :
    blockAddr s'.data (s'.inode k).din bn = 0 := by
  unfold blockAddr at hz ⊢
  cases hp : blockPlace bn with
  | none => rfl
  | some p =>
    rw [hp] at hz
    have honly := h.added.only (s.inode k).inum p (by rwa [view_self]) (by rwa [view_self])
    rw [← h.inum, view_self] at honly
    refine honly fun hand => ?_
    obtain ⟨j, hj, hat | hind⟩ := hand.2
    · exact hout j hj (blockPlace_inj hp hat)
    · exact blockPlace_ne_ind hp hind.1

lemma append (h' : Wrote sb k s' (off + src.length) src' s'') (hk : (s.inode k).din.type ≠ .free) :
    Wrote sb k s off (src ++ src') s'' where
  toExtends := h.toExtends.trans h'.toExtends
  apart i p hne hi hp := by
    have hsame := h.addr i p hi hp
    have hdata := h'.apart i p (by rwa [h.inum]) (by rwa [h.type]) (by rwa [hsame])
    rw [hsame] at hdata
    rw [hdata, h.apart i p hne hi hp]
  here j hj := by
    have hk' : (s'.inode k).din.type ≠ .free := by rwa [h.type_self]
    by_cases hlt : j < src.length
    · have hfirst := h.here j hlt
      refine ⟨by rw [h'.block hk' hfirst.1]; exact hfirst.1, ?_⟩
      rw [h'.keep _ hfirst.1 (by omega), hfirst.2, List.getD_append _ _ _ _ hlt]
    · have hsecond := h'.here (j - src.length) (by rw [List.length_append] at hj; omega)
      rw [show off + src.length + (j - src.length) = off + j by omega] at hsecond
      rw [List.getD_append_right _ _ _ _ (by omega)]
      exact hsecond
  keep o ho hrange := by
    rw [List.length_append] at hrange
    rw [h'.keep o (by rwa [h.block hk ho]) (by omega), h.keep o ho (by omega)]
  fresh o hz hne hrange := by
    rw [List.length_append] at hrange
    by_cases hmid : blockAddr s'.data (s'.inode k).din (o / BSIZE) = 0
    · exact h'.fresh o hmid hne (by omega)
    · rw [h'.keep o hmid (by omega), h.fresh o hz hmid (by omega)]
  added := by
    refine (h.added.mono ?_).trans (h'.added.mono ?_)
    · rintro p ⟨j, hj, hp⟩
      exact ⟨j, by rw [List.length_append]; omega, hp⟩
    · rintro p ⟨j, hj, hp⟩
      exact ⟨src.length + j, by rw [List.length_append]; omega, by rwa [← Nat.add_assoc]⟩
  stay hall := by
    have hfirst : ∀ j < src.length, blockAddr s.data (s.inode k).din ((off + j) / BSIZE) ≠ 0 :=
      fun j hj => hall j (by rw [List.length_append]; omega)
    rw [h'.stay fun j hj => ?_, h.stay hfirst]
    have hold := hall (src.length + j) (by rw [List.length_append]; omega)
    rw [← Nat.add_assoc] at hold
    rwa [h.block hk hold]

end

/-- A round of the loop: bytes go to one block. -/
lemma round (h : Sound sb (view s k) s.bitmap s.data) (hk : (s.inode k).din.type ≠ .free)
    {b : ℕ} (hmap : Bmapped sb k (off / BSIZE) s b s')
    (hpos : 0 < src.length) (hlen : off % BSIZE + src.length ≤ BSIZE) :
    Wrote sb k s off src ((s'.setData b (splice (s'.data b) (off % BSIZE) src)).log b) := by
  have hadded := hmap.added
  obtain ⟨hgrow, hb, hb0, hthere, hzero, hothers, -⟩ := hmap
  have hk' : (view s' k (s'.inode k).inum).type ≠ .free := by rwa [view_self, hgrow.type_self]
  obtain ⟨p, hp, hpb⟩ := blockAddr_eq (hb ▸ hb0)
  have hslot : slotAddr s'.data (view s' k (s'.inode k).inum) p = b := by
    rw [view_self, ← hpb, hb]
  -- The block is the one of this place only.
  have hne : ∀ i q, (view s' k i).type ≠ .free → slotAddr s'.data (view s' k i) q ≠ 0 →
      ¬(i = (s.inode k).inum ∧ q = p) → slotAddr s'.data (view s' k i) q ≠ b := by
    intro i q hi hq hiq heq
    refine hiq ?_
    have hinj := hgrow.sound.slotAddr_inj hi hk' hq (heq.trans hslot.symm)
    rwa [hgrow.inum] at hinj
  have haddr : ∀ i q, (view s' k i).type ≠ .free →
      slotAddr (update s'.data b (splice (s'.data b) (off % BSIZE) src)) (view s' k i) q
        = slotAddr s'.data (view s' k i) q := fun i q hi =>
    slotAddr_congr (fun hind => update_of_ne
      (hne i .ind hi hind fun hand => blockPlace_ne_ind hp hand.2.symm) ..) q
  have hblock : ∀ bn, blockAddr
      (update s'.data b (splice (s'.data b) (off % BSIZE) src)) (s'.inode k).din bn
        = blockAddr s'.data (s'.inode k).din bn := by
    intro bn
    unfold blockAddr
    cases hbn : blockPlace bn with
    | none => rfl
    | some q =>
      have hq := haddr _ q hk'
      rw [view_self] at hq
      exact hq
  have hbyte : ∀ o, byteAt
      (update s'.data b (splice (s'.data b) (off % BSIZE) src)) (s'.inode k).din o
        = update s'.data b (splice (s'.data b) (off % BSIZE) src)
            (blockAddr s'.data (s'.inode k).din (o / BSIZE)) (o % BSIZE) := fun o => by
    rw [byteAt, hblock]
  -- A byte of the block, but outside the range that is written.
  have hout : ∀ o, o / BSIZE = off / BSIZE → ¬(off ≤ o ∧ o < off + src.length) →
      ¬(off % BSIZE ≤ o % BSIZE ∧ o % BSIZE < off % BSIZE + src.length) := by
    intro o hdiv hrange
    have ho := Nat.div_add_mod o BSIZE
    have hoff := Nat.div_add_mod off BSIZE
    rw [hdiv] at ho
    omega
  have hsound := hgrow.sound.congr (fun _ => rfl) (fun _ => rfl) haddr fun _ _ => rfl
  refine ⟨⟨hgrow.dinode, hgrow.input, hgrow.through, hgrow.other, hgrow.self,
      fun i q hi hq => ?_, hsound⟩, fun i q hi ht hq => ?_, fun j hj => ?_, fun o ho hrange => ?_,
        fun o ho hne hrange => ?_, ?_, fun hall => ?_⟩
  · exact (haddr i q (by rwa [hgrow.type])).trans (hgrow.addr i q hi hq)
  · have hsame := hgrow.addr i q ht hq
    refine (update_of_ne ?_ ..).trans (hgrow.data i q ht (fun hand => hi hand.1) hq)
    rw [← hsame]
    exact hne i q (by rwa [hgrow.type]) (by rwa [hsame]) fun hand => hi hand.1
  · have hin : off % BSIZE + j < BSIZE := by omega
    obtain ⟨hdiv, hmod⟩ := div_mod_add hin
    refine ⟨?_, ?_⟩
    · rw [hdiv]
      exact (hblock _).trans_ne (hb ▸ hb0)
    · refine (hbyte _).trans ?_
      rw [hdiv, hmod, ← hb, update_self, splice, if_pos (by omega),
        Nat.add_sub_cancel_left]
  · refine (hbyte _).trans ?_
    obtain ⟨hsame, hdata⟩ := hgrow.block hk ho
    rw [hsame, byteAt]
    by_cases hdiv : o / BSIZE = off / BSIZE
    · have hob : blockAddr s.data (s.inode k).din (o / BSIZE) = b := by
        rw [← hsame, hdiv, hb]
      rw [← hdata, hob, update_self, splice, if_neg (hout o hdiv hrange)]
    · obtain ⟨q, hq, hqb⟩ := blockAddr_eq (hsame.trans_ne ho)
      rw [update_of_ne, hdata]
      have hq0 : slotAddr s'.data (view s' k (s'.inode k).inum) q ≠ 0 := by
        rw [view_self, ← hqb, hsame]
        exact ho
      have hqne := hne _ q hk' hq0 fun hand => hdiv (blockPlace_inj hq (hand.2 ▸ hp))
      rwa [view_self, ← hqb, hsame] at hqne
  · by_cases hdiv : o / BSIZE = off / BSIZE
    · refine (hbyte o).trans ?_
      rw [hdiv, ← hb, update_self, splice, if_neg (hout o hdiv hrange), hzero (hdiv ▸ ho)]
    · -- No other block is new.
      have hold := hothers (o / BSIZE) hdiv
      rw [ho] at hold
      exact absurd ((hblock _).trans hold) hne
  · refine (hadded.mono fun p hp => ⟨0, hpos, hp⟩).trans ?_
    exact ⟨rfl, rfl, fun _ => rfl, fun i q hi _ => haddr i q hi,
      fun i q hi hz _ => (haddr i q hi).trans hz, hsound⟩
  · obtain rfl := hthere (by simpa using hall 0 hpos)
    rfl

end Wrote

lemma writeLoop_spec (h : Sound sb (view s k) s.bitmap s.data) (hk : (s.inode k).din.type ≠ .free)
    {off : ℕ} {src : List ℕ} (hfuel : src.length ≤ fuel)
    (hsrc : off + src.length ≤ MAXFILE * BSIZE) :
    Post (writeLoop sb k fuel off src) s (fun _ s' => Wrote sb k s off src s')
      (NoBlocks sb k (PlacesFor off src.length) s) := by
  induction fuel generalizing s off src with
  | zero =>
    obtain rfl : src = [] := List.length_eq_zero_iff.mp (by omega)
    exact .nil h
  | succ fuel ih =>
    unfold writeLoop
    by_cases hsrc0 : src.length = 0
    · rw [if_pos hsrc0]
      obtain rfl := List.length_eq_zero_iff.mp hsrc0
      exact .nil h
    · rw [if_neg hsrc0]
      have hbn : off / BSIZE < MAXFILE := Nat.div_lt_of_lt_mul (by rw [Nat.mul_comm]; omega)
      have hrem : off % BSIZE < BSIZE := Nat.mod_lt _ (by norm_num)
      have hm1 : 1 ≤ min src.length (BSIZE - off % BSIZE) := le_min (by omega) (by omega)
      have hm : min src.length (BSIZE - off % BSIZE) ≤ src.length := min_le_left ..
      have hmb : min src.length (BSIZE - off % BSIZE) ≤ BSIZE - off % BSIZE := min_le_right ..
      generalize min src.length (BSIZE - off % BSIZE) = m at hm hm1 hmb
      rw [post_bind]
      refine (bmap_spec h hk hbn).mono (fun b s₁ hb => ?_)
        fun _ _ he => he.1.after (.refl h) fun p hp => ⟨0, Nat.pos_of_ne_zero hsrc0, hp⟩
      have hk₁ : (s₁.inode k).din.type ≠ .free := by rwa [hb.grows.type_self]
      have hrange : sb.nmeta ≤ b ∧ b < sb.size := by
        rw [hb.addr]
        exact hb.grows.sound.blockAddr_range hk₁ (hb.addr ▸ hb.ne)
      have htake : (src.take m).length = m := by rw [List.length_take, min_eq_left hm]
      have hpos : 0 < (src.take m).length := by omega
      have hround := Wrote.round h hk hb hpos (by omega)
      rw [post_bind, post_bdata hrange, post_bind, post_bwrite]
      have hfuel' : (src.drop m).length ≤ fuel := by rw [List.length_drop]; omega
      have hsrc' : off + m + (src.drop m).length ≤ MAXFILE * BSIZE := by
        rw [List.length_drop]
        omega
      refine (ih hround.sound (by rwa [hround.type_self]) hfuel' hsrc').mono (fun _ s' hs' => ?_) ?_
      · rw [← List.take_append_drop m src]
        refine hround.append ?_ hk
        rwa [htake]
      · intro e s' he
        refine he.after (hround.added.mono ?_) ?_
        · rintro p ⟨j, hj, hp⟩
          exact ⟨j, by omega, hp⟩
        · rintro p ⟨j, hj, hp⟩
          rw [List.length_drop] at hj
          exact ⟨m + j, by omega, by rwa [← Nat.add_assoc]⟩

end Xv6.Files
