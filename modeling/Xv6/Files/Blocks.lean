import Xv6.Files.Inodes
import Xv6.Transition.Hoare
import Xv6.Transition.Ownership

/-!
Which block belongs to which inode (`balloc`, `bfree`).

* `slotAddr`, `blockAddr`: the addresses in an inode and in its indirect block, and the
  address of a block of its contents.
* `Sound`: each block of the data area belongs to one place of one inode, or is free, as the
  free map says; and no inode has a hole.
* `balloc_spec`, `bfree_spec`: what the allocator does to the free map.
-/

namespace Xv6.Files

open Xv6.Fs Transition Function

/-! ### The free map -/

lemma isFree_eq (bitmap : ℕ → ℕ) (b : ℕ) :
    isFree bitmap b = !(bitmap (b / 8)).testBit (b % 8) := by
  rw [isFree, Nat.one_shiftLeft]
  cases h : (bitmap (b / 8)).testBit (b % 8) with
  | true =>
    refine decide_eq_false fun hzero => ?_
    have hbit := congrArg (Nat.testBit · (b % 8)) hzero
    simp [h] at hbit
  | false =>
    refine decide_eq_true (Nat.eq_of_testBit_eq fun j => ?_)
    rw [Nat.testBit_and, Nat.testBit_two_pow, Nat.zero_testBit]
    by_cases hj : b % 8 = j
    · rw [← hj, h, Bool.false_and]
    · simp [hj]

variable {b : ℕ}

lemma eq_of_div_mod {c : ℕ} (hd : c / 8 = b / 8) : c % 8 = b % 8 ↔ c = b := by omega

/-- The free map after a block has been marked. -/
lemma isFree_mark (bitmap : ℕ → ℕ) (b c : ℕ) :
    isFree (update bitmap (b / 8) (bitmap (b / 8) ||| (1 <<< (b % 8)))) c
      = (isFree bitmap c && decide (c ≠ b)) := by
  rw [isFree_eq, isFree_eq]
  by_cases hd : c / 8 = b / 8
  · rw [hd, update_self, Nat.testBit_or, Nat.one_shiftLeft, Nat.testBit_two_pow,
      Bool.not_or]
    simp only [ne_eq, decide_not, ← eq_of_div_mod hd, eq_comm]
  · have hne : c ≠ b := by rintro rfl; exact hd rfl
    simp [update_of_ne hd, hne]

/-- The free map after the mark of a block has been cleared. -/
lemma isFree_clear (bitmap : ℕ → ℕ) (b c : ℕ) :
    isFree (update bitmap (b / 8) (bitmap (b / 8) &&& (255 ^^^ (1 <<< (b % 8))))) c
      = (isFree bitmap c || decide (c = b)) := by
  rw [isFree_eq, isFree_eq]
  by_cases hd : c / 8 = b / 8
  · have h255 : Nat.testBit 255 (c % 8) = true := by
      have hlt : c % 8 < 8 := Nat.mod_lt _ (by omega)
      rw [show (255 : ℕ) = 2 ^ 8 - 1 by norm_num, Nat.testBit_two_pow_sub_one]
      simpa using hlt
    rw [hd, update_self, Nat.testBit_and, Nat.testBit_xor, h255, Nat.one_shiftLeft,
      Nat.testBit_two_pow, Bool.not_and]
    simp only [← eq_of_div_mod hd, eq_comm, Bool.true_xor, Bool.not_not]
  · have hne : c ≠ b := by rintro rfl; exact hd rfl
    simp [update_of_ne hd, hne]

/-- A free map with marks for the first `n` blocks. -/
def firstUsed (n k : ℕ) : ℕ := 2 ^ min 8 (n - 8 * k) - 1

lemma isFree_firstUsed (n b : ℕ) : isFree (firstUsed n) b = decide (n ≤ b) := by
  rw [isFree_eq, firstUsed, Nat.testBit_two_pow_sub_one, ← decide_not]
  refine decide_eq_decide.mpr ?_
  rw [lt_min_iff]
  omega

/-! ### Words of a block -/

@[simp] lemma word_zero (k : ℕ) : word (fun _ => 0) k = 0 := by simp [word]

lemma word_setWord_self (d : Bytes) (k v : ℕ) (hv : v < 2 ^ 32) : word (setWord d k v) k = v := by
  have h0 : 4 * k / 4 = k := by omega
  have h1 : (4 * k + 1) / 4 = k := by omega
  have h2 : (4 * k + 2) / 4 = k := by omega
  have h3 : (4 * k + 3) / 4 = k := by omega
  have m0 : 4 * k % 4 = 0 := by omega
  have m1 : (4 * k + 1) % 4 = 1 := by omega
  have m2 : (4 * k + 2) % 4 = 2 := by omega
  have m3 : (4 * k + 3) % 4 = 3 := by omega
  simp only [word, setWord, h0, h1, h2, h3, m0, m1, m2, m3, if_true]
  omega

lemma word_setWord_of_ne (d : Bytes) {j k : ℕ} (hj : j ≠ k) (v : ℕ) :
    word (setWord d k v) j = word d j := by
  have h0 : 4 * j / 4 ≠ k := by omega
  have h1 : (4 * j + 1) / 4 ≠ k := by omega
  have h2 : (4 * j + 2) / 4 ≠ k := by omega
  have h3 : (4 * j + 3) / 4 ≠ k := by omega
  simp only [word, setWord, h0, h1, h2, h3, if_false]

/-! ### Addresses -/

/-- The places for addresses: those of the inode, of which the last is for the indirect block,
and those of the indirect block. -/
abbrev Place : Type := Fin (NDIRECT + 1) ⊕ Fin NINDIRECT

/-- The place of the address of the indirect block. -/
abbrev Place.ind : Place := .inl (Fin.last NDIRECT)

def slotAddr (data : ℕ → Bytes) (d : Dinode) : Place → ℕ
  | .inl p => d.addrs p
  | .inr j =>
    if d.addrs (Fin.last NDIRECT) = 0 then 0 else word (data (d.addrs (Fin.last NDIRECT))) j

/-- The place for the `bn`th block of a file. -/
def blockPlace (bn : ℕ) : Option Place :=
  if h : bn < NDIRECT then some (.inl (Fin.castSucc ⟨bn, h⟩))
  else if h : bn - NDIRECT < NINDIRECT then some (.inr ⟨bn - NDIRECT, h⟩)
  else none

/-- The address of the `bn`th block of a file, 0 for none. -/
def blockAddr (data : ℕ → Bytes) (d : Dinode) (bn : ℕ) : ℕ :=
  (blockPlace bn).elim 0 (slotAddr data d)

/-- The address in a place of an inode; a dinode that is not in use has none. -/
def addrOf (D : ℕ → Dinode) (data : ℕ → Bytes) (x : ℕ × Place) : ℕ :=
  if (D x.1).type = .free then 0 else slotAddr data (D x.1) x.2

/-- Every block of the file below its size is there. -/
def Full (data : ℕ → Bytes) (d : Dinode) : Prop :=
  ∀ bn, bn * BSIZE < d.size → blockAddr data d bn ≠ 0

/-- **A consistent disk.**  Every address belongs to one place and lies in the data area, the
free map marks the blocks before the data area and the blocks with an owner, and no file has
a hole. -/
structure Sound (sb : Superblock) (D : ℕ → Dinode) (bitmap : ℕ → ℕ) (data : ℕ → Bytes) : Prop where
  owned : Owned sb.nmeta sb.size (addrOf D data) fun b => !isFree bitmap b
  full : ∀ i, (D i).type ≠ .free → Full data (D i)

variable {bn : ℕ}

lemma blockPlace_inl {q : Fin (NDIRECT + 1)} (h : blockPlace bn = some (.inl q)) :
    bn = q.val ∧ bn < NDIRECT := by
  unfold blockPlace at h
  split at h
  · cases h
    exact ⟨rfl, ‹_›⟩
  · split at h <;> cases h

lemma blockPlace_inr {j : Fin NINDIRECT} (h : blockPlace bn = some (.inr j)) :
    bn = NDIRECT + j.val := by
  unfold blockPlace at h
  split at h
  · cases h
  · split at h
    · cases h
      simp only
      omega
    · cases h

variable {p : Place}

lemma blockPlace_ne_ind (h : blockPlace bn = some p) : p ≠ .ind := by
  rintro rfl
  have hbn := blockPlace_inl h
  simp only [Fin.val_last] at hbn
  omega

/-- Different blocks of a file have different places. -/
lemma blockPlace_inj {bn' : ℕ} (h : blockPlace bn = some p)
    (h' : blockPlace bn' = some p) : bn = bn' := by
  cases p with
  | inl q => rw [(blockPlace_inl h).1, (blockPlace_inl h').1]
  | inr j => rw [blockPlace_inr h, blockPlace_inr h']

variable {i : ℕ}

lemma addrOf_of_type {D : ℕ → Dinode} (h : (D i).type ≠ .free) (data : ℕ → Bytes)
    (p : Place) : addrOf D data (i, p) = slotAddr data (D i) p := if_neg h

/-- An inode in use has the address that `blockAddr` finds in one of its places. -/
lemma blockAddr_eq {data : ℕ → Bytes} {d : Dinode} (h : blockAddr data d bn ≠ 0) :
    ∃ p, blockPlace bn = some p ∧ blockAddr data d bn = slotAddr data d p := by
  unfold blockAddr at h ⊢
  cases hp : blockPlace bn with
  | none => simp [hp] at h
  | some p => exact ⟨p, rfl, rfl⟩

/-! ### The steps of the code -/

variable {Q : Unit → Fs → Prop}

section Steps

variable {s : Fs} {E : Stop → Fs → Prop}

@[simp] lemma post_logWrite (b : ℕ) : Post (logWrite b) s Q E ↔ Q () (s.log b) := Iff.rfl

@[simp] lemma post_bwrite (b : ℕ) (d : Bytes) :
    Post (bwrite b d) s Q E ↔ Q () ((s.setData b d).log b) := Iff.rfl

@[simp] lemma post_inode (k : Ip) {Q : Inode → Fs → Prop} :
    Post (inode k) s Q E ↔ Q (s.inode k) s := Iff.rfl

@[simp] lemma post_setInode (k : Ip) (ip : Inode) :
    Post (setInode k ip) s Q E ↔ Q () (s.setInode k ip) := Iff.rfl

@[simp] lemma post_setDin (k : Ip) (d : Dinode) :
    Post (setDin k d) s Q E ↔ Q () (s.setInode k { s.inode k with din := d }) := Iff.rfl

/-- A block of the data area can be read. -/
lemma post_bdata {sb : Superblock} (hb : sb.nmeta ≤ b ∧ b < sb.size)
    {Q : Bytes → Fs → Prop} : Post (bdata sb b) s Q E ↔ Q (s.data b) s := by
  rw [bdata, if_pos hb]
  rfl

end Steps

/-! ### The allocator -/

/-- Nothing but blocks, the free map and the log has changed. -/
structure SameInodes (s s' : Fs) : Prop where
  dinode : s'.dinode = s.dinode
  inode : s'.inode = s.inode
  input : s'.input = s.input
  through : s'.through = s.through

/-- What `balloc` does. -/
structure Allocated (sb : Superblock) (s : Fs) (b : ℕ) (s' : Fs) : Prop where
  nmeta_le : sb.nmeta ≤ b
  lt : b < sb.size
  free : isFree s.bitmap b = true
  first : ∀ c < b, isFree s.bitmap c = false
  map : ∀ c, isFree s'.bitmap c = (isFree s.bitmap c && decide (c ≠ b))
  data : s'.data = update s.data b fun _ => 0
  same : SameInodes s s'

variable {sb : Superblock} {s : Fs}

lemma balloc_spec (hmeta : ∀ b < sb.nmeta, isFree s.bitmap b = false) :
    Post (balloc sb) s (fun b s' => Allocated sb s b s')
      (fun e s' => e = .outOfBlocks ∧ s' = s ∧ ∀ b < sb.size, isFree s.bitmap b = false) := by
  unfold balloc
  rw [post_bind, post_get]
  cases hfind : (List.range sb.size).find? (isFree s.bitmap) with
  | none =>
    refine ⟨rfl, rfl, fun b hb => ?_⟩
    simpa using List.find?_eq_none.mp hfind b (List.mem_range.mpr hb)
  | some b =>
    have hfirst : ∀ c < b, isFree s.bitmap c = false := fun c hc => by
      simpa using (List.find?_range_eq_some.mp hfind).2.2 c hc
    have hfree : isFree s.bitmap b = true := List.find?_some hfind
    have hlt : b < sb.size := List.mem_range.mp (List.mem_of_find?_eq_some hfind)
    have hge : sb.nmeta ≤ b := by
      by_contra hb
      rw [hmeta b (by omega)] at hfree
      cases hfree
    simp only [post_bind, post_set, post_pure, post_logWrite, bzero,
      post_bdata ⟨hge, hlt⟩, post_bwrite]
    refine ⟨hge, hlt, hfree, hfirst, fun c => ?_, rfl, rfl, rfl, rfl, rfl⟩
    exact isFree_mark s.bitmap b c

/-- What `bfree` does. -/
structure Freed (s : Fs) (b : ℕ) (s' : Fs) : Prop where
  map : ∀ c, isFree s'.bitmap c = (isFree s.bitmap c || decide (c = b))
  data : s'.data = s.data
  same : SameInodes s s'

lemma bfree_spec (hb : isFree s.bitmap b = false) {E : Stop → Fs → Prop} :
    Post (bfree sb b) s (fun _ s' => Freed s b s') E := by
  unfold bfree
  rw [post_bind, post_get, hb]
  simp only [Bool.false_eq_true, if_false, post_bind, post_set, post_logWrite]
  exact ⟨isFree_clear s.bitmap b, rfl, rfl, rfl, rfl, rfl⟩

/-! ### Adding a block -/

variable {data' : ℕ → Bytes}

namespace Sound

variable {D : ℕ → Dinode} {bitmap : ℕ → ℕ} {data : ℕ → Bytes}

lemma nmeta_pos (sb : Superblock) : 0 < sb.nmeta := Nat.add_pos_right _ (Nat.succ_pos _)

section

variable (h : Sound sb D bitmap data)

include h

/-- The free map marks the blocks before the data area. -/
lemma isFree_nmeta (hb : b < sb.nmeta) : isFree bitmap b = false := by
  have hroom : sb.nmeta < sb.size := sb.room
  have hused := (h.owned.used b (by omega)).mpr (.inl hb)
  simpa using hused

/-- A block with an owner is in the data area. -/
lemma slotAddr_range (hi : (D i).type ≠ .free) (hp : slotAddr data (D i) p ≠ 0) :
    sb.nmeta ≤ slotAddr data (D i) p ∧ slotAddr data (D i) p < sb.size := by
  have hrange := h.owned.range (i, p)
  rw [addrOf_of_type hi] at hrange
  exact hrange hp

lemma isFree_slotAddr (hi : (D i).type ≠ .free) (hp : slotAddr data (D i) p ≠ 0) :
    isFree bitmap (slotAddr data (D i) p) = false := by
  have hused := h.owned.used_addr (x := (i, p))
  rw [addrOf_of_type hi] at hused
  simpa using hused hp

lemma slotAddr_inj {j : ℕ} (hi : (D i).type ≠ .free) (hj : (D j).type ≠ .free) {q : Place}
    (hp : slotAddr data (D i) p ≠ 0) (heq : slotAddr data (D i) p = slotAddr data (D j) q) :
    i = j ∧ p = q := by
  have hinj := h.owned.inj (i, p) (j, q)
  rw [addrOf_of_type hi, addrOf_of_type hj] at hinj
  have hpair := hinj hp heq
  exact ⟨congrArg Prod.fst hpair, congrArg Prod.snd hpair⟩

lemma congr {D' : ℕ → Dinode} {bitmap' : ℕ → ℕ} (htype : ∀ i, (D' i).type = (D i).type)
    (hsize : ∀ i, (D' i).size = (D i).size)
    (haddr : ∀ i p, (D i).type ≠ .free → slotAddr data' (D' i) p = slotAddr data (D i) p)
    (hmap : ∀ b < sb.size, isFree bitmap' b = isFree bitmap b) : Sound sb D' bitmap' data' := by
  refine ⟨h.owned.congr (fun x => ?_) fun b hb => by rw [hmap b hb], fun i hi bn hbn => ?_⟩
  · unfold addrOf
    rw [htype]
    split
    · rfl
    · exact haddr _ _ ‹_›
  · rw [htype] at hi
    rw [hsize] at hbn
    have hold := h.full i hi bn hbn
    obtain ⟨p, hp, heq⟩ := blockAddr_eq hold
    rw [blockAddr, hp, Option.elim_some, haddr i p hi]
    rwa [← heq]

/-- The addresses depend on blocks of the data area only. -/
lemma slotAddr_of_data (hdata : ∀ b, sb.nmeta ≤ b → data' b = data b) (hi : (D i).type ≠ .free)
    (p : Place) : slotAddr data' (D i) p = slotAddr data (D i) p := by
  cases p with
  | inl q => rfl
  | inr j =>
    simp only [slotAddr]
    split
    · rfl
    · next hind =>
        rw [hdata ((D i).addrs (Fin.last NDIRECT)) (h.slotAddr_range hi (p := .ind) hind).1]

/-- An empty place gets a block that was free. -/
lemma add {D' : ℕ → Dinode} {bitmap' : ℕ → ℕ} (hi : (D i).type ≠ .free)
    (hp : slotAddr data (D i) p = 0) (hb : isFree bitmap b = true) (hlt : b < sb.size)
    (htype : ∀ j, (D' j).type = (D j).type) (hsize : ∀ j, (D' j).size = (D j).size) (haddr : ∀ j
      q, (D j).type ≠ .free → slotAddr data' (D' j) q = if j = i ∧ q = p then b else slotAddr data
      (D j) q) (hmap : ∀ c, isFree bitmap' c = (isFree bitmap c && decide (c ≠ b))) :
    Sound sb D' bitmap' data' := by
  have hblo : sb.nmeta ≤ b := by
    by_contra hlo
    rw [h.isFree_nmeta (by omega)] at hb
    cases hb
  have hb0 : b ≠ 0 := by
    have := nmeta_pos sb
    omega
  refine ⟨h.owned.take (x := (i, p)) (b := b) (nmeta_pos sb) ?_ (by simpa using hb) hlt
    (fun y => ?_) (fun c => ?_), fun j hj bn hbn => ?_⟩
  · rw [addrOf_of_type hi, hp]
  · obtain ⟨j, q⟩ := y
    simp only [addrOf, htype, Prod.mk.injEq]
    by_cases hj : (D j).type = .free
    · have hji : ¬(j = i ∧ q = p) := fun hjq => hi (hjq.1 ▸ hj)
      rw [if_pos hj, if_neg hji, if_pos hj]
    · rw [if_neg hj, if_neg hj, haddr j q hj]
  · rw [hmap, Bool.not_and]
    simp
  · rw [htype] at hj
    rw [hsize] at hbn
    have hold := h.full j hj bn hbn
    obtain ⟨q, hq, heq⟩ := blockAddr_eq hold
    rw [blockAddr, hq, Option.elim_some, haddr j q hj]
    split
    · exact hb0
    · rwa [← heq]

/-- A dinode that is not in use becomes one without contents. -/
lemma setFresh (hfree : (D i).type = .free) {d : Dinode} (haddrs : ∀ p, d.addrs p = 0)
    (hsize : d.size = 0) : Sound sb (update D i d) bitmap data := by
  refine ⟨h.owned.congr (fun y => ?_) fun _ _ => rfl, fun j hj => ?_⟩
  · obtain ⟨j, p⟩ := y
    unfold addrOf
    by_cases hj : j = i
    · subst hj
      simp only [update_self, hfree, if_true]
      split
      · rfl
      · cases p with
        | inl p => exact haddrs p
        | inr q => exact if_pos (haddrs _)
    · simp only [update_of_ne hj]
  · by_cases hji : j = i
    · subst hji
      rw [update_self]
      intro bn hbn
      rw [hsize] at hbn
      exact absurd hbn (Nat.not_lt_zero _)
    · rw [update_of_ne hji] at hj ⊢
      exact h.full j hj

end

/-- **Each file of a list has one block**, in this order from the first data block on, and the
others have none. -/
lemma oneEach (is : List ℕ) (hnodup : is.Nodup) (hroom : sb.nmeta + is.length ≤ sb.size)
    (hone : ∀ i ∈ is, (D i).type ≠ .free ∧ (D i).size ≤ BSIZE ∧
      ∀ q, (D i).addrs q = if q.val = 0 then sb.nmeta + is.idxOf i else 0)
    (hnone : ∀ i ∉ is, (D i).size = 0 ∧ ∀ q, (D i).addrs q = 0) :
    Sound sb D (firstUsed (sb.nmeta + is.length)) data := by
  have hpos : 0 < sb.nmeta := lt_of_lt_of_le (Nat.succ_pos _) (Nat.le_add_left ..)
  have hsome : ∀ i ∈ is, addrOf D data (i, .inl 0) = sb.nmeta + is.idxOf i := fun i hi => by
    rw [addrOf, if_neg (hone i hi).1, slotAddr, (hone i hi).2.2]
    rfl
  have hall : ∀ i p, addrOf D data (i, p) ≠ 0 → i ∈ is ∧ p = .inl 0 := by
    intro i p hx
    have hx : slotAddr data (D i) p ≠ 0 := fun hzero => hx (ite_eq_left_iff.mpr fun _ => hzero)
    by_cases hi : i ∈ is
    · refine ⟨hi, ?_⟩
      cases p with
      | inl q =>
        rw [slotAddr, (hone i hi).2.2] at hx
        exact congrArg Sum.inl (Fin.ext (not_not.mp fun hq => hx (if_neg hq)))
      | inr j =>
        rw [slotAddr, (hone i hi).2.2] at hx
        exact absurd rfl hx
    · cases p with
      | inl q => exact absurd ((hnone i hi).2 q) hx
      | inr j => exact absurd (if_pos ((hnone i hi).2 _)) hx
  refine ⟨⟨?_, ?_, fun b _ => ?_⟩, fun i hi bn hbn => ?_⟩
  · rintro ⟨i, p⟩ hx
    obtain ⟨hi, rfl⟩ := hall i p hx
    rw [hsome i hi]
    have := List.idxOf_lt_length_iff.mpr hi
    omega
  · rintro ⟨i, p⟩ ⟨j, q⟩ hx hxy
    obtain ⟨hj, rfl⟩ := hall j q (hxy ▸ hx)
    obtain ⟨hi, rfl⟩ := hall i p hx
    rw [hsome i hi, hsome j hj, Nat.add_left_cancel_iff] at hxy
    rw [(List.idxOf_inj hi).mp hxy]
  · rw [isFree_firstUsed, ← decide_not, decide_eq_true_iff, not_le]
    refine ⟨fun hb => ?_, ?_⟩
    · refine (Nat.lt_or_ge b sb.nmeta).imp_right fun hge => ?_
      have hlt : b - sb.nmeta < is.length := by omega
      have haddr := hsome _ (List.getElem_mem hlt)
      rw [hnodup.idxOf_getElem, Nat.add_sub_cancel' hge] at haddr
      exact ⟨_, by omega, haddr⟩
    · rintro (hb | ⟨⟨i, p⟩, hx, rfl⟩)
      · omega
      · obtain ⟨hi, rfl⟩ := hall i p hx
        rw [hsome i hi]
        exact Nat.add_lt_add_left (List.idxOf_lt_length_iff.mpr hi) _
  · by_cases hmem : i ∈ is
    · obtain rfl : bn = 0 := by
        have := (hone i hmem).2.1
        simp only [BSIZE] at *
        omega
      change slotAddr data (D i) (.inl 0) ≠ 0
      rw [slotAddr, (hone i hmem).2.2]
      exact Nat.ne_of_gt (Nat.add_pos_left hpos _)
    · rw [(hnone i hmem).1] at hbn
      exact absurd hbn (Nat.not_lt_zero _)

end Sound

end Xv6.Files
