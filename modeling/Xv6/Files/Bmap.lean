import Xv6.Files.Blocks

/-!
The blocks of one inode (`bmap`, `itrunc`).

A process that holds the lock of an inode changes the cached copy first and the dinode later;
`view` is the disk with the cached copy in the place of the dinode.

* `Extends`, `Grows`: blocks have been added to a locked inode.
* `bmap_spec`: `bmap` adds at most the block it returns and an indirect block.
* `itrunc_spec`: `itrunc` frees every block of the inode and nothing else.
-/

namespace Xv6.Files

open Xv6.Fs Transition Function

variable {sb : Superblock} {s : Fs}

/-! ### The blocks of a locked inode -/

/-- The dinodes, with the cached copy in the place of one. -/
def view (s : Fs) (k : Ip) : ℕ → Dinode :=
  update s.dinode (s.inode k).inum (s.inode k).din

lemma view_self (s : Fs) (k : Ip) : view s k (s.inode k).inum = (s.inode k).din :=
  update_self ..

variable {i : ℕ}

lemma view_of_ne {s : Fs} {k : Ip} (h : i ≠ (s.inode k).inum) : view s k i = s.dinode i :=
  update_of_ne h ..

lemma view_setInode (s : Fs) (k : Ip) (ip : Inode) :
    view (s.setInode k ip) k = update s.dinode ip.inum ip.din := by
  simp only [view, Fs.setInode, update_self]

/-- A locked inode may have got blocks; every block of a file is where it was. -/
structure Extends (sb : Superblock) (k : Ip) (s s' : Fs) : Prop where
  dinode : s'.dinode = s.dinode
  input : s'.input = s.input
  through : s'.through = s.through
  other : ∀ j ≠ k, s'.inode j = s.inode j
  self : ∃ a, s'.inode k = { s.inode k with din := { (s.inode k).din with addrs := a } }
  addr : ∀ i p, (view s k i).type ≠ .free → slotAddr s.data (view s k i) p ≠ 0 →
    slotAddr s'.data (view s' k i) p = slotAddr s.data (view s k i) p
  sound : Sound sb (view s' k) s'.bitmap s'.data

namespace Extends

variable {k : Ip} {s' s'' : Fs}

lemma refl (h : Sound sb (view s k) s.bitmap s.data) : Extends sb k s s :=
  ⟨rfl, rfl, rfl, fun _ _ => rfl, ⟨_, rfl⟩, fun _ _ _ _ => rfl, h⟩

lemma inum (h : Extends sb k s s') : (s'.inode k).inum = (s.inode k).inum := by
  obtain ⟨a, ha⟩ := h.self
  rw [ha]

lemma type_self (h : Extends sb k s s') : (s'.inode k).din.type = (s.inode k).din.type := by
  obtain ⟨a, ha⟩ := h.self
  rw [ha]

lemma type (h : Extends sb k s s') (i : ℕ) : (view s' k i).type = (view s k i).type := by
  by_cases hi : i = (s.inode k).inum
  · rw [hi, view_self, ← h.inum, view_self, h.type_self]
  · rw [view_of_ne hi, view_of_ne (by rwa [h.inum]), h.dinode]

lemma trans (h : Extends sb k s s') (h' : Extends sb k s' s'') : Extends sb k s s'' where
  dinode := h'.dinode.trans h.dinode
  input := h'.input.trans h.input
  through := h'.through.trans h.through
  other j hj := (h'.other j hj).trans (h.other j hj)
  self := by
    obtain ⟨a, ha⟩ := h.self
    obtain ⟨a', ha'⟩ := h'.self
    exact ⟨a', by rw [ha', ha]⟩
  addr i p hi hp := by
    have hsame := h.addr i p hi hp
    rw [h'.addr i p (by rwa [h.type]) (by rwa [hsame]), hsame]
  sound := h'.sound

end Extends

/-- Blocks have been added to a locked inode. -/
structure Grows (sb : Superblock) (k : Ip) (s s' : Fs) : Prop extends Extends sb k s s' where
  data : ∀ i p, (view s k i).type ≠ .free → ¬(i = (s.inode k).inum ∧ p = .ind) →
    slotAddr s.data (view s k i) p ≠ 0 →
    s'.data (slotAddr s.data (view s k i) p) = s.data (slotAddr s.data (view s k i) p)

lemma Grows.refl {k : Ip} (h : Sound sb (view s k) s.bitmap s.data) : Grows sb k s s :=
  ⟨.refl h, fun _ _ _ _ _ => rfl⟩

lemma Grows.trans {k : Ip} {s' s'' : Fs} (h : Grows sb k s s') (h' : Grows sb k s' s'') :
    Grows sb k s s'' where
  toExtends := h.toExtends.trans h'.toExtends
  data i p hi hind hp := by
    have hsame := h.addr i p hi hp
    have hdata := h'.data i p (by rwa [h.type]) (by rwa [h.inum]) (by rwa [hsame])
    rw [hsame] at hdata
    rw [hdata, h.data i p hi hind hp]

/-- The addresses of an inode depend on its indirect block only. -/
lemma slotAddr_congr {data data' : ℕ → Bytes} {d : Dinode} (h : d.addrs (Fin.last NDIRECT) ≠ 0 →
      data' (d.addrs (Fin.last NDIRECT)) = data (d.addrs (Fin.last NDIRECT))) (p : Place) :
    slotAddr data' d p = slotAddr data d p := by
  cases p with
  | inl q => rfl
  | inr j =>
    simp only [slotAddr]
    by_cases hind : d.addrs (Fin.last NDIRECT) = 0
    · rw [if_pos hind, if_pos hind]
    · rw [if_neg hind, if_neg hind, h hind]

/-- The blocks of other inodes stay where they are. -/
lemma Grows.slotAddr_other {k : Ip} {s' : Fs} (h : Grows sb k s s') (hne : i ≠ (s.inode k).inum)
    (hi : (view s k i).type ≠ .free) (p : Place) :
    slotAddr s'.data (view s' k i) p = slotAddr s.data (view s k i) p := by
  have hview : view s' k i = view s k i := by
    rw [view_of_ne hne, view_of_ne (by rwa [h.inum]), h.dinode]
  rw [hview]
  exact slotAddr_congr (fun hind => h.data i .ind hi (fun hand => hne hand.1) hind) p

/-- The places for the `bn`th block of a file. -/
def PlacesAt (bn : ℕ) (p : Place) : Prop := blockPlace bn = some p ∨ p = .ind ∧ NDIRECT ≤ bn

/-- **Blocks have been added** to a locked inode, in places that satisfy `P` only. -/
structure Added (sb : Superblock) (k : Ip) (P : Place → Prop) (s s' : Fs) : Prop where
  through : s'.through = s.through
  inum : (s'.inode k).inum = (s.inode k).inum
  type : ∀ i, (view s' k i).type = (view s k i).type
  addr : ∀ i p, (view s k i).type ≠ .free → slotAddr s.data (view s k i) p ≠ 0 →
    slotAddr s'.data (view s' k i) p = slotAddr s.data (view s k i) p
  only : ∀ i p, (view s k i).type ≠ .free → slotAddr s.data (view s k i) p = 0 →
    ¬(i = (s.inode k).inum ∧ P p) → slotAddr s'.data (view s' k i) p = 0
  sound : Sound sb (view s' k) s'.bitmap s'.data

namespace Added

variable {k : Ip} {P P' : Place → Prop} {s' s'' : Fs}

lemma refl (h : Sound sb (view s k) s.bitmap s.data) : Added sb k P s s :=
  ⟨rfl, rfl, fun _ => rfl, fun _ _ _ _ => rfl, fun _ _ _ hz _ => hz, h⟩

lemma mono (h : Added sb k P s s') (hP : ∀ p, P p → P' p) : Added sb k P' s s' :=
  { h with only := fun i p hi hz hout => h.only i p hi hz fun hand => hout ⟨hand.1, hP p hand.2⟩ }

lemma trans (h : Added sb k P s s') (h' : Added sb k P s' s'') : Added sb k P s s'' where
  through := h'.through.trans h.through
  inum := h'.inum.trans h.inum
  type i := (h'.type i).trans (h.type i)
  addr i p hi hp := by
    have hsame := h.addr i p hi hp
    rw [h'.addr i p (by rwa [h.type]) (by rwa [hsame]), hsame]
  only i p hi hz hout := h'.only i p (by rwa [h.type]) (h.only i p hi hz hout) (by rwa [h.inum])
  sound := h'.sound

end Added

lemma Grows.added {k : Ip} {P : Place → Prop} {s' : Fs} (h : Grows sb k s s')
    (honly : ∀ p, ¬P p → slotAddr s'.data (s'.inode k).din p = slotAddr s.data (s.inode k).din p) :
    Added sb k P s s' := by
  refine ⟨h.through, h.inum, h.type, h.addr, fun i p hi hz hout => ?_, h.sound⟩
  by_cases hne : i = (s.inode k).inum
  · have hsame := honly p fun hp => hout ⟨hne, hp⟩
    rw [hne, view_self] at hz
    rw [hne, ← h.inum, view_self, hsame, hz]
  · rw [h.slotAddr_other hne hi, hz]

/-- The stop for want of a block: none is free, and a place for one is empty. -/
structure NoBlocks (sb : Superblock) (k : Ip) (P : Place → Prop) (s : Fs) (e : Stop) (s' : Fs) :
    Prop where
  stop : e = .outOfBlocks
  added : Added sb k P s s'
  full : ∀ b < sb.size, isFree s'.bitmap b = false
  empty : ∃ p, P p ∧ slotAddr s'.data (s'.inode k).din p = 0

/-- A stop after blocks have been added. -/
lemma NoBlocks.after {k : Ip} {P P' : Place → Prop} {s' s'' : Fs} {e : Stop}
    (h : NoBlocks sb k P' s' e s'') (ha : Added sb k P s s') (hP : ∀ p, P' p → P p) :
    NoBlocks sb k P s e s'' := by
  obtain ⟨p, hp, hz⟩ := h.empty
  exact ⟨h.stop, ha.trans (h.added.mono hP), h.full, p, hP p hp, hz⟩

section Add

variable {k : Ip} {b : ℕ} {s₁ : Fs}

/-- A block that has been allocated is not one of an inode. -/
lemma Allocated.ne (ha : Allocated sb s b s₁) (h : Sound sb (view s k) s.bitmap s.data)
    (hi : (view s k i).type ≠ .free) {p : Place} (hp : slotAddr s.data (view s k i) p ≠ 0) :
    slotAddr s.data (view s k i) p ≠ b := by
  intro heq
  have hused := h.isFree_slotAddr hi hp
  rw [heq, ha.free] at hused
  cases hused

lemma Allocated.data_of_ne (ha : Allocated sb s b s₁) {c : ℕ} (hc : c ≠ b) :
    s₁.data c = s.data c := by
  rw [ha.data, update_of_ne hc]

lemma Allocated.slotAddr (ha : Allocated sb s b s₁) (h : Sound sb (view s k) s.bitmap s.data)
    (hi : (view s k i).type ≠ .free) (p : Place) :
    slotAddr s₁.data (view s k i) p = slotAddr s.data (view s k i) p :=
  slotAddr_congr (fun hind => ha.data_of_ne (ha.ne h hi (p := .ind) hind)) p

section

variable {q : Fin (NDIRECT + 1)} {ip : Inode} (h : Sound sb (view s k) s.bitmap s.data)
  (hk : (s.inode k).din.type ≠ .free) (hq : (s.inode k).din.addrs q = 0)
  (ha : Allocated sb s b s₁)
  (hip : ip = { s.inode k with
    din := { (s.inode k).din with addrs := update (s.inode k).din.addrs q b } })

include h hk hq ha hip

/-- What an address in a place of the inode itself changes. -/
lemma Allocated.slotAddr_inl (hi : (view s k i).type ≠ .free) (p : Place) :
    Files.slotAddr s₁.data (view (s₁.setInode k ip) k i) p
      = if i = (s.inode k).inum ∧ p = .inl q then b else Files.slotAddr s.data (view s k i) p := by
  have hk' : (view s k (s.inode k).inum).type ≠ .free := by rwa [view_self]
  have hb0 : b ≠ 0 := by
    have := Sound.nmeta_pos sb
    have := ha.nmeta_le
    omega
  rw [view_setInode, ha.same.dinode]
  by_cases hne : i = (s.inode k).inum
  · subst hne
    rw [hip, update_self, view_self]
    cases p with
    | inl q' =>
      simp only [Files.slotAddr, update_apply, true_and, Sum.inl.injEq]
    | inr j =>
      simp only [Files.slotAddr, true_and, reduceCtorEq, if_false]
      by_cases hlast : Fin.last NDIRECT = q
      · -- The new block is the indirect block: it is zeroed, so it has no addresses.
        rw [hlast, update_self, if_neg hb0, hq, if_pos rfl, ha.data,
          update_self, word_zero]
      · rw [update_of_ne hlast]
        have hsame := ha.slotAddr h hk' (.inr j)
        rw [view_self] at hsame
        exact hsame
  · rw [if_neg (fun hand => hne hand.1), hip, update_of_ne hne, ← view_of_ne hne]
    exact ha.slotAddr h hi p

/-- An address goes to a place of the inode itself. -/
lemma Grows.inl : Grows sb k s (s₁.setInode k ip) := by
  have hinum : ip.inum = (s.inode k).inum := by rw [hip]
  have hself : (s₁.setInode k ip).inode k = ip := update_self ..
  have hview : ∀ i, view (s₁.setInode k ip) k i
      = if i = (s.inode k).inum then ip.din else view s k i := by
    intro i
    rw [view_setInode, hinum, ha.same.dinode, update_apply]
    split
    · rfl
    · next hi => rw [view_of_ne hi]
  have hk' : (view s k (s.inode k).inum).type ≠ .free := by rwa [view_self]
  have haddr : ∀ i p, (view s k i).type ≠ .free →
      slotAddr s₁.data (view (s₁.setInode k ip) k i) p
        = if i = (s.inode k).inum ∧ p = .inl q then b else slotAddr s.data (view s k i) p :=
    fun i p hi => ha.slotAddr_inl h hk hq hip hi p
  refine ⟨⟨ha.same.dinode, ha.same.input, ha.same.through, fun j hj => ?_, ⟨_, hself.trans hip⟩,
    fun i p hi hp => ?_, ?_⟩, fun i p hi _ hp => ha.data_of_ne (ha.ne h hi hp)⟩
  · exact (update_of_ne hj ..).trans (congrFun ha.same.inode j)
  · refine (haddr i p hi).trans (if_neg ?_)
    rintro ⟨rfl, rfl⟩
    rw [view_self] at hp
    exact hp hq
  · refine h.add (i := (s.inode k).inum) (p := .inl q) hk' ?_ ha.free ha.lt (fun j => ?_)
      (fun j => ?_) haddr ha.map
    · rw [view_self]
      exact hq
    all_goals
      rw [hview]
      split
      · next hj => rw [hj, view_self, hip]
      · rfl

end

section Indirect

variable {a : ℕ} {j : Fin NINDIRECT}

variable (h : Sound sb (view s k) s.bitmap s.data) (hk : (s.inode k).din.type ≠ .free)
  (ha₀ : a = (s.inode k).din.addrs (Fin.last NDIRECT))

include h hk ha₀

/-- A block other than the indirect block keeps its contents when an address goes to that one. -/
lemma Allocated.data_inr (ha : Allocated sb s b s₁) (hi : (view s k i).type ≠ .free) {p : Place}
    (hp : Files.slotAddr s.data (view s k i) p ≠ 0) (hne : ¬(i = (s.inode k).inum ∧ p = .ind)) :
    update s₁.data a (setWord (s₁.data a) j b) (Files.slotAddr s.data (view s k i) p)
      = s.data (Files.slotAddr s.data (view s k i) p) := by
  have hk' : (view s k (s.inode k).inum).type ≠ .free := by rwa [view_self]
  have hslot : Files.slotAddr s.data (view s k (s.inode k).inum) .ind = a := by
    rw [view_self, ha₀]
    rfl
  rw [update_of_ne, ha.data_of_ne (ha.ne h hi hp)]
  intro heq
  exact hne (h.slotAddr_inj hi hk' hp (by rw [heq, hslot]))

/-- What an address in a place of the indirect block changes. -/
lemma Allocated.slotAddr_inr (hind : a ≠ 0) (ha : Allocated sb s b s₁)
    (hi : (view s k i).type ≠ .free) (p : Place) :
    Files.slotAddr (update s₁.data a (setWord (s₁.data a) j b)) (view s k i) p
      = if i = (s.inode k).inum ∧ p = .inr j then b else Files.slotAddr s.data (view s k i) p := by
  have hk' : (view s k (s.inode k).inum).type ≠ .free := by rwa [view_self]
  have hslot : Files.slotAddr s.data (view s k (s.inode k).inum) .ind = a := by
    rw [view_self, ha₀]
    rfl
  have hab : a ≠ b := by
    have hne := ha.ne h hk' (p := .ind) (by rwa [hslot])
    rwa [hslot] at hne
  by_cases hne : i = (s.inode k).inum
  · subst hne
    rw [view_self]
    cases p with
    | inl q => simp [Files.slotAddr]
    | inr j' =>
      simp only [Files.slotAddr, true_and, Sum.inr.injEq, ← ha₀, if_neg hind, update_self]
      split
      · next hjj =>
        have hlt : b < 2 ^ 32 := ha.lt.trans sb.size_lt
        rw [hjj, word_setWord_self _ _ _ hlt]
      · next hjj =>
        rw [word_setWord_of_ne _ (fun hval => hjj (Fin.ext hval)), ha.data_of_ne hab]
  · rw [if_neg (fun hand => hne hand.1)]
    exact slotAddr_congr (fun hp => ha.data_inr h hk ha₀ hi (p := .ind) hp fun hand => hne hand.1) p

/-- An address goes to a place of the indirect block. -/
lemma Grows.inr (hind : a ≠ 0) (hj : word (s.data a) j = 0) (ha : Allocated sb s b s₁) :
    Grows sb k s ((s₁.setData a (setWord (s₁.data a) j b)).log a) := by
  have hk' : (view s k (s.inode k).inum).type ≠ .free := by rwa [view_self]
  have hview : view ((s₁.setData a (setWord (s₁.data a) j b)).log a) k = view s k := by
    change update s₁.dinode (s₁.inode k).inum (s₁.inode k).din = _
    rw [ha.same.dinode, ha.same.inode]
    rfl
  have haddr : ∀ i p, (view s k i).type ≠ .free →
      slotAddr (update s₁.data a (setWord (s₁.data a) j b)) (view s k i) p
        = if i = (s.inode k).inum ∧ p = .inr j then b else slotAddr s.data (view s k i) p :=
    fun i p hi => ha.slotAddr_inr h hk ha₀ hind hi p
  refine ⟨⟨ha.same.dinode, ha.same.input, ha.same.through, fun k' _ => congrFun ha.same.inode k',
    ⟨_, congrFun ha.same.inode k⟩, fun i p hi hp => ?_, ?_⟩,
    fun i p hi hpi hp => ha.data_inr h hk ha₀ hi hp hpi⟩
  · rw [hview]
    refine (haddr i p hi).trans (if_neg ?_)
    rintro ⟨rfl, rfl⟩
    rw [view_self] at hp
    simp only [slotAddr, ← ha₀, if_neg hind, hj] at hp
    exact hp rfl
  · rw [hview]
    refine h.add (i := (s.inode k).inum) (p := .inr j) hk' ?_ ha.free ha.lt (fun _ => rfl)
      (fun _ => rfl) haddr ha.map
    rw [view_self]
    simp only [slotAddr, ← ha₀, if_neg hind, hj]

end Indirect

end Add

/-! ### `bmap` -/

/-- What `ensure` gives. -/
structure Ensured (sb : Superblock) (k : Ip) (q : Fin (NDIRECT + 1)) (s : Fs) (b : ℕ) (s' : Fs) :
    Prop where
  grows : Grows sb k s s'
  addr : b = (s'.inode k).din.addrs q
  ne : b ≠ 0
  there : (s.inode k).din.addrs q ≠ 0 → s' = s
  zero : (s.inode k).din.addrs q = 0 → s'.data b = fun _ => 0
  others : ∀ p ≠ .inl q, slotAddr s'.data (s'.inode k).din p = slotAddr s.data (s.inode k).din p

lemma Allocated.ne_zero {b : ℕ} {s₁ : Fs} (ha : Allocated sb s b s₁) : b ≠ 0 := by
  have := Sound.nmeta_pos sb
  have := ha.nmeta_le
  omega

lemma ensure_spec {k : Ip} (h : Sound sb (view s k) s.bitmap s.data)
    (hk : (s.inode k).din.type ≠ .free) (q : Fin (NDIRECT + 1)) :
    Post (ensure sb k q) s (Ensured sb k q s)
      (fun e s' => NoBlocks sb k (· = .inl q) s e s' ∧ (s.inode k).din.addrs q = 0) := by
  simp only [ensure, post_bind, post_inode, post_pure, post_ite, post_setDin]
  refine ⟨fun hq => ?_, fun hq => ⟨.refl h, by simp, hq, by simp, fun hzero => absurd hzero hq,
    fun _ _ => rfl⟩⟩
  refine (balloc_spec fun b => h.isFree_nmeta).mono (fun b s₁ ha => ?_) ?_
  · have hip : ({ s₁.inode k with din := { (s₁.inode k).din with
          addrs := update (s₁.inode k).din.addrs q b } } : Inode)
        = { s.inode k with
          din := { (s.inode k).din with addrs := update (s.inode k).din.addrs q b } } := by
      rw [ha.same.inode]
    refine ⟨.inl h hk hq ha hip, ?_, ha.ne_zero, fun hne => absurd hq hne, fun _ => ?_,
      fun p hp => ?_⟩
    · simp [Fs.setInode]
    · change s₁.data b = _
      rw [ha.data, update_self]
    · have hk' : (view s k (s.inode k).inum).type ≠ .free := by rwa [view_self]
      have hslot := ha.slotAddr_inl h hk hq hip hk' p
      rw [if_neg fun hand => hp hand.2, view_self] at hslot
      rw [← hslot, view_setInode, hip, update_self, Fs.setInode_inode_self]
      rfl
  · rintro e s' ⟨rfl, rfl, hfull⟩
    exact ⟨⟨rfl, .refl h, hfull, _, rfl, hq⟩, hq⟩

/-- What `bmap` gives: the address of a block of the inode, which was added if it was not there. -/
structure Bmapped (sb : Superblock) (k : Ip) (bn : ℕ) (s : Fs) (b : ℕ) (s' : Fs) : Prop where
  grows : Grows sb k s s'
  addr : b = blockAddr s'.data (s'.inode k).din bn
  ne : b ≠ 0
  there : blockAddr s.data (s.inode k).din bn ≠ 0 → s' = s
  zero : blockAddr s.data (s.inode k).din bn = 0 → s'.data b = fun _ => 0
  others : ∀ bn' ≠ bn,
    blockAddr s'.data (s'.inode k).din bn' = blockAddr s.data (s.inode k).din bn'
  ind : bn < NDIRECT → slotAddr s'.data (s'.inode k).din .ind = slotAddr s.data (s.inode k).din .ind

variable {bn : ℕ}

/-- Blocks of which the places keep their addresses. -/
lemma blockAddr_of_places {data data' : ℕ → Bytes} {d d' : Dinode}
    (h : ∀ p, blockPlace bn = some p → slotAddr data' d' p = slotAddr data d p) :
    blockAddr data' d' bn = blockAddr data d bn := by
  unfold blockAddr
  cases hp : blockPlace bn with
  | none => rfl
  | some p => exact h p hp

/-- **`bmap`** returns the address of a block of the inode, and adds the block if it is not
there. -/
lemma bmap_spec {k : Ip} (h : Sound sb (view s k) s.bitmap s.data)
    (hk : (s.inode k).din.type ≠ .free) (hbn : bn < MAXFILE) :
    Post (bmap sb k bn) s (Bmapped sb k bn s)
      (fun e s' => NoBlocks sb k (PlacesAt bn) s e s' ∧
        blockAddr s.data (s.inode k).din bn = 0) := by
  unfold bmap
  split
  · next hlt =>
    have hplace : blockPlace bn = some (.inl ⟨bn, by omega⟩) := by
      rw [blockPlace, dif_pos hlt]
      rfl
    have haddr : ∀ t : Fs, blockAddr t.data (t.inode k).din bn
        = (t.inode k).din.addrs ⟨bn, by omega⟩ := fun t => by
      rw [blockAddr, hplace]
      rfl
    refine (ensure_spec h hk _).mono (fun b s' hens => ?_)
      fun e s' he => ⟨he.1.after (.refl h) ?_, ?_⟩
    · refine ⟨hens.grows, ?_, hens.ne, ?_, ?_, fun bn' hne => ?_,
        fun _ => hens.others _ fun heq => ?_⟩
      · rw [haddr]
        exact hens.addr
      · rw [haddr]
        exact hens.there
      · rw [haddr]
        exact hens.zero
      · refine blockAddr_of_places fun p hp => hens.others p fun hpq => hne ?_
        exact blockPlace_inj hp (hpq ▸ hplace)
      · exact blockPlace_ne_ind (hplace.trans (congrArg some heq.symm)) rfl
    · rintro p rfl
      exact .inl hplace
    · rw [haddr]
      exact he.2
  · next hge =>
    have hlt : bn - NDIRECT < NINDIRECT := by
      simp only [MAXFILE] at hbn
      omega
    have hplace : blockPlace bn = some (.inr ⟨bn - NDIRECT, hlt⟩) := by
      rw [blockPlace, dif_neg hge, dif_pos hlt]
    have haddr : ∀ t : Fs, blockAddr t.data (t.inode k).din bn
        = slotAddr t.data (t.inode k).din (.inr ⟨bn - NDIRECT, hlt⟩) := fun t => by
      rw [blockAddr, hplace]
      rfl
    rw [if_pos hlt]
    -- A block that is there is there with its indirect block.
    have hnone : (s.inode k).din.addrs (Fin.last NDIRECT) = 0 →
        blockAddr s.data (s.inode k).din bn = 0 := by
      intro hzero
      rw [haddr]
      simp only [slotAddr, hzero, if_true]
    have hind : ∀ p : Place, p = .ind → PlacesAt bn p := fun p hp => .inr ⟨hp, not_lt.mp hge⟩
    refine (ensure_spec h hk _).bind (fun _ _ he => ⟨he.1.after (.refl h) hind, hnone he.2⟩)
      fun ind s₁ hens => ?_
    have hgrow := hens.grows
    have hk₁ : (s₁.inode k).din.type ≠ .free := by rwa [hgrow.type_self]
    have hword : ∀ t : Fs, t.inode k = s₁.inode k →
        blockAddr t.data (t.inode k).din bn = word (t.data ind) (bn - NDIRECT) := by
      intro t ht
      rw [haddr]
      simp only [slotAddr, ht, ← hens.addr, if_neg hens.ne]
    have hview : (view s₁ k (s₁.inode k).inum).type ≠ .free := by rwa [view_self]
    have hslot : slotAddr s₁.data (view s₁ k (s₁.inode k).inum) .ind = ind := by
      rw [view_self, hens.addr]
      rfl
    have hrange : sb.nmeta ≤ ind ∧ ind < sb.size := by
      have hrange := hgrow.sound.slotAddr_range hview (p := .ind)
      rw [hslot] at hrange
      exact hrange hens.ne
    have hthere : blockAddr s.data (s.inode k).din bn ≠ 0 → s₁ = s := fun hne =>
      hens.there fun hzero => hne (hnone hzero)
    -- The other blocks after the indirect block has been added.
    have hothers : ∀ bn' p, blockPlace bn' = some p →
        slotAddr s₁.data (s₁.inode k).din p = slotAddr s.data (s.inode k).din p := fun bn' p hp =>
      hens.others p (blockPlace_ne_ind hp)
    simp only [post_bind, post_bdata hrange, post_get, post_pure, post_ite, post_bwrite]
    refine ⟨fun hzero => ?_, fun hne => ⟨hgrow, (hword s₁ rfl).symm, hne, hthere, fun hzero => ?_,
      fun bn' _ => blockAddr_of_places (hothers bn'), fun hlt => absurd hlt hge⟩⟩
    · have hzero₀ : blockAddr s.data (s.inode k).din bn = 0 := by
        by_contra hne
        obtain rfl := hthere hne
        exact hne (hword s₁ rfl ▸ hzero)
      refine (balloc_spec fun b => hgrow.sound.isFree_nmeta).mono (fun b s₂ ha => ?_) ?_
      · have hadd :
            Grows sb k s₁ ((s₂.setData ind (setWord (s₂.data ind) (bn - NDIRECT) b)).log ind) :=
          .inr hgrow.sound hk₁ hens.addr hens.ne (j := ⟨bn - NDIRECT, hlt⟩) hzero ha
        refine ⟨hgrow.trans hadd, ?_, ha.ne_zero, fun hne => absurd hzero₀ hne, fun _ => ?_,
          fun bn' hne => ?_, fun hlt => absurd hlt hge⟩
        · rw [hword ((s₂.setData ind _).log ind) (congrFun ha.same.inode k)]
          simp only [Fs.log, Fs.setData, update_self]
          rw [word_setWord_self _ _ _ (ha.lt.trans sb.size_lt)]
        · have hne := ha.ne hgrow.sound hview (p := .ind) (by rw [hslot]; exact hens.ne)
          rw [hslot] at hne
          change update s₂.data ind _ b = _
          rw [update_of_ne hne.symm, ha.data, update_self]
        · refine blockAddr_of_places fun p hp => ?_
          have hsame := ha.slotAddr_inr hgrow.sound hk₁ hens.addr hens.ne
            (j := ⟨bn - NDIRECT, hlt⟩) hview p
          have hout : ¬((s₁.inode k).inum = (s₁.inode k).inum ∧ p = .inr ⟨bn - NDIRECT, hlt⟩) :=
            fun hand => hne (blockPlace_inj hp (hand.2 ▸ hplace))
          rw [if_neg hout, view_self] at hsame
          rw [← hothers bn' p hp, ← hsame]
          change slotAddr _ (s₂.inode k).din p = _
          rw [ha.same.inode]
          rfl
      · rintro e s' ⟨rfl, rfl, hfull⟩
        refine ⟨⟨rfl, (hgrow.added fun p hp => hens.others p hp).mono hind, hfull, _,
          .inl hplace, ?_⟩, hzero₀⟩
        rw [← haddr, hword s' rfl]
        exact hzero
    · -- The block is there.
      have hsame := blockAddr_of_places (hothers bn)
      rw [hword s₁ rfl, hzero] at hsame
      exact absurd hsame hne

/-- The `bn`th block of an inode can be read. -/
structure Mapped (sb : Superblock) (data : ℕ → Bytes) (d : Dinode) (bn : ℕ) : Prop where
  addr : blockAddr data d bn ≠ 0
  range : sb.nmeta ≤ blockAddr data d bn ∧ blockAddr data d bn < sb.size
  ind : NDIRECT ≤ bn →
    sb.nmeta ≤ d.addrs (Fin.last NDIRECT) ∧ d.addrs (Fin.last NDIRECT) < sb.size

variable {E : Stop → Fs → Prop}

lemma ensure_there {k : Ip} {p : Fin (NDIRECT + 1)} (h : (s.inode k).din.addrs p ≠ 0) :
    Post (ensure sb k p) s (fun b s' => s' = s ∧ b = (s.inode k).din.addrs p) E := by
  simp only [ensure, post_bind, post_inode, if_neg h, post_pure, and_self]

/-- A block that is there is found. -/
lemma bmap_mapped {k : Ip} (h : Mapped sb s.data (s.inode k).din bn) :
    Post (bmap sb k bn) s (fun b s' => s' = s ∧ b = blockAddr s.data (s.inode k).din bn) E := by
  obtain ⟨p, hp, heq⟩ := blockAddr_eq h.addr
  have hne := heq ▸ h.addr
  unfold bmap
  unfold blockPlace at hp
  split at hp
  · next hlt =>
    obtain rfl := Option.some.inj hp
    rw [dif_pos hlt, heq]
    exact ensure_there hne
  · next hge =>
    split at hp
    · next hlt =>
      obtain rfl := Option.some.inj hp
      have hind : (s.inode k).din.addrs (Fin.last NDIRECT) ≠ 0 := fun hzero => hne (if_pos hzero)
      have hslot : slotAddr s.data (s.inode k).din (.inr ⟨bn - NDIRECT, hlt⟩)
          = word (s.data ((s.inode k).din.addrs (Fin.last NDIRECT))) (bn - NDIRECT) := if_neg hind
      rw [hslot] at hne
      rw [dif_neg hge, if_pos hlt, heq, hslot, post_bind]
      refine (ensure_there hind).imp ?_
      rintro b s' ⟨rfl, rfl⟩
      rw [post_bind, post_bdata (h.ind (not_lt.mp hge))]
      simp only [if_neg hne, post_pure, and_self]
    · cases hp

/-! ### `itrunc` -/

open scoped Classical in
/-- The addresses on the disk, without the places of an inode that are not in `P`. -/
noncomputable def kept (s : Fs) (k : Ip) (P : Place → Prop) (y : ℕ × Place) : ℕ :=
  if y.1 = (s.inode k).inum ∧ ¬P y.2 then 0 else addrOf (view s k) s.data y

/-- `itrunc` has freed the blocks of the places that are not in `P`. -/
structure Truncating (sb : Superblock) (k : Ip) (s : Fs) (P : Place → Prop) (t : Fs) : Prop where
  owned : Owned sb.nmeta sb.size (kept s k P) fun b => !isFree t.bitmap b
  data : t.data = s.data
  dinode : t.dinode = s.dinode
  input : t.input = s.input
  through : t.through = s.through
  other : ∀ j ≠ k, t.inode j = s.inode j
  self : ∃ a, t.inode k = { s.inode k with din := { (s.inode k).din with addrs := a } } ∧
    (∀ q, P (.inl q) → a q = (s.inode k).din.addrs q) ∧ ∀ q, ¬P (.inl q) → a q = 0

section Trunc

variable {k : Ip} {t t' : Fs} {P P' : Place → Prop} {x : Place}

lemma kept_self (hk : (s.inode k).din.type ≠ .free) (hx : P x) :
    kept s k P ((s.inode k).inum, x) = slotAddr s.data (s.inode k).din x := by
  rw [kept, if_neg (fun h => h.2 hx), addrOf_of_type (by rwa [view_self]), view_self]

/-- One place less. -/
lemma kept_drop (hP : ∀ p, P' p ↔ P p ∧ p ≠ x) (y : ℕ × Place) :
    kept s k P' y = if y = ((s.inode k).inum, x) then 0 else kept s k P y := by
  obtain ⟨i, p⟩ := y
  unfold kept
  by_cases hi : i = (s.inode k).inum <;> by_cases hp : p = x <;> by_cases hPp : P p <;>
    simp [hi, hp, hPp, hP, Prod.mk.injEq]

section

variable (h : Owned sb.nmeta sb.size (kept s k P) fun b => !isFree t.bitmap b)
  (hk : (s.inode k).din.type ≠ .free) (hx : P x)

include h hk hx

/-- A place without a block is left out. -/
lemma owned_skip (hP : ∀ p, P' p ↔ P p ∧ p ≠ x) (hzero : slotAddr s.data (s.inode k).din x = 0) :
    Owned sb.nmeta sb.size (kept s k P') fun b => !isFree t.bitmap b := by
  refine h.congr (fun y => ?_) fun _ _ => rfl
  rw [kept_drop hP]
  split
  · next hy => rw [hy, kept_self hk hx, hzero]
  · rfl

/-- The block of a place is freed. -/
lemma owned_drop (hP : ∀ p, P' p ↔ P p ∧ p ≠ x) (hne : slotAddr s.data (s.inode k).din x ≠ 0)
    (hfree : Freed t (slotAddr s.data (s.inode k).din x) t') :
    Owned sb.nmeta sb.size (kept s k P') fun b => !isFree t'.bitmap b := by
  have hkept := kept_self (P := P) hk hx
  refine h.drop (x := ((s.inode k).inum, x)) (by rwa [hkept]) (kept_drop hP) fun c => ?_
  rw [hfree.map, hkept, Bool.not_or]
  simp

/-- What is left has not been freed. -/
lemma isFree_of_kept (hne : slotAddr s.data (s.inode k).din x ≠ 0) :
    isFree t.bitmap (slotAddr s.data (s.inode k).din x) = false := by
  have hkept := kept_self (P := P) hk hx
  have hused := h.used_addr (x := ((s.inode k).inum, x)) (by rwa [hkept])
  rw [hkept] at hused
  simpa using hused

end

/-- The places that are left in the first loop of `itrunc`. -/
def leftDirect (xs : List (Fin NDIRECT)) : Place → Prop
  | .inl q => q = Fin.last NDIRECT ∨ ∃ i ∈ xs, i.castSucc = q
  | .inr _ => True

/-- The places that are left in the second loop of `itrunc`. -/
def leftIndirect (xs : List ℕ) : Place → Prop
  | .inl q => q = Fin.last NDIRECT
  | .inr j => j.val ∈ xs

lemma leftDirect_cons {i : Fin NDIRECT} {xs : List (Fin NDIRECT)} (hi : i ∉ xs) (p : Place) :
    leftDirect xs p ↔ leftDirect (i :: xs) p ∧ p ≠ .inl i.castSucc := by
  cases p with
  | inr j => simp [leftDirect]
  | inl q =>
    simp only [leftDirect, List.mem_cons, exists_eq_or_imp, ne_eq, Sum.inl.injEq]
    constructor
    · rintro (rfl | ⟨j, hj, rfl⟩)
      · exact ⟨.inl rfl, (Fin.castSucc_ne_last i).symm⟩
      · refine ⟨.inr (.inr ⟨j, hj, rfl⟩), fun heq => hi ?_⟩
        rwa [← Fin.castSucc_injective _ heq]
    · rintro ⟨hq | hq | hq, hne⟩
      · exact .inl hq
      · exact absurd hq.symm hne
      · exact .inr hq

lemma leftIndirect_cons {j : Fin NINDIRECT} {xs : List ℕ} (hj : j.val ∉ xs) (p : Place) :
    leftIndirect xs p ↔ leftIndirect (j.val :: xs) p ∧ p ≠ .inr j := by
  cases p with
  | inl q => simp [leftIndirect]
  | inr j' =>
    simp only [leftIndirect, List.mem_cons, ne_eq, Sum.inr.injEq]
    constructor
    · exact fun hmem => ⟨.inr hmem, fun heq => hj (heq ▸ hmem)⟩
    · rintro ⟨hval | hmem, hne⟩
      · exact absurd (Fin.ext hval) hne
      · exact hmem

/-- A round of the first loop. -/
lemma Truncating.direct (hk : (s.inode k).din.type ≠ .free) {i : Fin NDIRECT}
    {xs : List (Fin NDIRECT)} (hi : i ∉ xs) (h : Truncating sb k s (leftDirect (i :: xs)) t)
    {E : Stop → Fs → Prop} :
    Post (do
      let d := (← inode k).din
      if d.addrs i.castSucc ≠ 0 then
        bfree sb (d.addrs i.castSucc)
        setDin k { d with addrs := update d.addrs i.castSucc 0 }) t
      (fun _ t' => Truncating sb k s (leftDirect xs) t') E := by
  have hx : leftDirect (i :: xs) (.inl i.castSucc) := .inr ⟨i, List.mem_cons_self, rfl⟩
  have hcons := leftDirect_cons hi
  obtain ⟨a, hself, hkeep, hgone⟩ := h.self
  have haddr : (t.inode k).din.addrs i.castSucc = slotAddr s.data (s.inode k).din
      (.inl i.castSucc) := by
    rw [hself]
    exact hkeep _ hx
  simp only [post_bind, post_inode, post_pure, post_ite, post_setDin, haddr]
  refine ⟨fun hne => ?_, fun hzero => ?_⟩
  · refine (bfree_spec (isFree_of_kept h.owned hk hx hne)).imp fun _ t' hfree => ?_
    have howned := owned_drop h.owned hk hx hcons hne hfree
    refine ⟨howned, hfree.data.trans h.data, hfree.same.dinode.trans h.dinode,
      hfree.same.input.trans h.input, hfree.same.through.trans h.through, fun j hj => ?_,
      update a i.castSucc 0, ?_, fun q hq => ?_, fun q hq => ?_⟩
    · simp only [Fs.setInode, update_of_ne hj, hfree.same.inode, h.other j hj]
    · simp only [Fs.setInode, update_self, hfree.same.inode, hself]
    · have hleft := (hcons _).mp hq
      rw [update_of_ne fun heq => hleft.2 (congrArg Sum.inl heq)]
      exact hkeep q hleft.1
    · by_cases heq : q = i.castSucc
      · rw [heq, update_self]
      · rw [update_of_ne heq]
        exact hgone q fun hleft => hq ((hcons _).mpr ⟨hleft, fun h => heq (Sum.inl.inj h)⟩)
  · rw [not_not] at hzero
    refine ⟨owned_skip h.owned hk hx hcons hzero, h.data, h.dinode, h.input, h.through, h.other, a,
      hself, fun q hq => hkeep q ((hcons _).mp hq).1, fun q hq => ?_⟩
    by_cases heq : q = i.castSucc
    · rw [heq, hkeep _ hx]
      exact hzero
    · exact hgone q fun hleft => hq ((hcons _).mpr ⟨hleft, fun h => heq (Sum.inl.inj h)⟩)

/-- A round of the second loop. -/
lemma Truncating.indirect (hk : (s.inode k).din.type ≠ .free)
    (hind : (s.inode k).din.addrs (Fin.last NDIRECT) ≠ 0) {j : Fin NINDIRECT} {xs : List ℕ}
    (hj : j.val ∉ xs) (h : Truncating sb k s (leftIndirect (j.val :: xs)) t) :
    Post (do
      if word (s.data ((s.inode k).din.addrs (Fin.last NDIRECT))) j ≠ 0 then
        bfree sb (word (s.data ((s.inode k).din.addrs (Fin.last NDIRECT))) j)) t
      (fun _ t' => Truncating sb k s (leftIndirect xs) t') E := by
  have hx : leftIndirect (j.val :: xs) (.inr j) := List.mem_cons_self
  have hcons := leftIndirect_cons hj
  obtain ⟨a, hself, hkeep, hgone⟩ := h.self
  have haddr : word (s.data ((s.inode k).din.addrs (Fin.last NDIRECT))) j
      = slotAddr s.data (s.inode k).din (.inr j) := by
    simp only [slotAddr, if_neg hind]
  simp only [post_pure, post_ite, haddr]
  refine ⟨fun hne => ?_, fun hzero => ?_⟩
  · refine (bfree_spec (isFree_of_kept h.owned hk hx hne)).imp fun _ t' hfree => ?_
    refine ⟨owned_drop h.owned hk hx hcons hne hfree, hfree.data.trans h.data,
      hfree.same.dinode.trans h.dinode, hfree.same.input.trans h.input,
      hfree.same.through.trans h.through, fun j hj => ?_, a, ?_, hkeep, hgone⟩
    · rw [hfree.same.inode, h.other j hj]
    · rw [hfree.same.inode, hself]
  · rw [not_not] at hzero
    exact ⟨owned_skip h.owned hk hx hcons hzero, h.data, h.dinode, h.input, h.through, h.other, a,
      hself, hkeep, hgone⟩

/-- After the first loop. -/
lemma Truncating.start (h : Truncating sb k s (leftDirect []) t) :
    Truncating sb k s (leftIndirect (List.range NINDIRECT)) t := by
  have hP : leftDirect [] = leftIndirect (List.range NINDIRECT) := by
    funext p
    cases p with
    | inl q | inr j => simp [leftDirect, leftIndirect]
  rwa [← hP]

/-- An inode without an indirect block has nothing left after the first loop. -/
lemma Truncating.skip (hk : (s.inode k).din.type ≠ .free)
    (hind : (s.inode k).din.addrs (Fin.last NDIRECT) = 0)
    (h : Truncating sb k s (leftDirect []) t) : Truncating sb k s (fun _ => False) t := by
  obtain ⟨a, hself, hkeep, hgone⟩ := h.self
  have hzero : ∀ p, leftDirect [] p → slotAddr s.data (s.inode k).din p = 0 := by
    intro p hp
    cases p with
    | inl q =>
      obtain rfl : q = Fin.last NDIRECT := by simpa [leftDirect] using hp
      exact hind
    | inr j => exact if_pos hind
  refine ⟨h.owned.congr (fun y => ?_) fun _ _ => rfl, h.data, h.dinode, h.input,
    h.through, h.other, a, hself, fun _ hq => hq.elim, fun q _ => ?_⟩
  · obtain ⟨i, p⟩ := y
    by_cases hi : i = (s.inode k).inum
    · subst hi
      by_cases hp : leftDirect [] p
      · rw [kept_self hk hp, hzero p hp, kept, if_pos ⟨rfl, not_false⟩]
      · rw [kept, kept, if_pos ⟨rfl, not_false⟩, if_pos ⟨rfl, hp⟩]
    · rw [kept, kept, if_neg fun h => hi h.1, if_neg fun h => hi h.1]
  · by_cases hq : leftDirect [] (.inl q)
    · rw [hkeep q hq]
      exact hzero _ hq
    · exact hgone q hq

/-- What `itrunc` does. -/
structure Truncated (sb : Superblock) (k : Ip) (s s' : Fs) : Prop where
  owned : Owned sb.nmeta sb.size (kept s k fun _ => False) fun b => !isFree s'.bitmap b
  data : s'.data = s.data
  dinode : s'.dinode = update s.dinode (s.inode k).inum (s.inode k).din.truncated
  input : s'.input = s.input
  through : s'.through = s.through
  inode : s'.inode = update s.inode k { s.inode k with din := (s.inode k).din.truncated }

/-- The end of `itrunc`. -/
lemma Truncating.finish (h : Truncating sb k s (fun _ => False) t) {E : Stop → Fs → Prop} :
    Post (setDin k { (t.inode k).din with size := 0 }) t
      (fun _ t' => Post (iupdate sb k) t' (fun _ s' => Truncated sb k s s') E) E := by
  obtain ⟨a, hself, -, hgone⟩ := h.self
  obtain rfl : a = fun _ => 0 := funext fun q => hgone q not_false
  simp only [iupdate, post_setDin, post_bind, post_inode, post_modify, post_logWrite, Fs.setInode,
    update_self, hself]
  refine ⟨h.owned, h.data, ?_, h.input, h.through, funext fun j => ?_⟩
  · change update t.dinode _ _ = _
    rw [h.dinode]
    rfl
  · change update t.inode _ _ j = _
    by_cases hj : j = k
    · rw [hj, update_self, update_self]
      rfl
    · rw [update_of_ne hj, update_of_ne hj, h.other j hj]

/-- Before the first loop nothing has been freed. -/
lemma Truncating.init (h : Sound sb (view s k) s.bitmap s.data) :
    Truncating sb k s (leftDirect (List.finRange NDIRECT)) s := by
  have hall : ∀ p, leftDirect (List.finRange NDIRECT) p := by
    intro p
    cases p with
    | inr j => trivial
    | inl q =>
      refine Fin.lastCases (.inl rfl) (fun i => ?_) q
      exact .inr ⟨i, List.mem_finRange i, rfl⟩
  refine ⟨h.owned.congr (fun y => ?_) fun _ _ => rfl, rfl, rfl, rfl, rfl, fun _ _ => rfl, _, rfl,
    fun _ _ => rfl, fun q hq => absurd (hall _) hq⟩
  rw [kept, if_neg fun hy => hy.2 (hall _)]

/-- **`itrunc`** frees the blocks of the inode. -/
lemma itrunc_spec (h : Sound sb (view s k) s.bitmap s.data) (hk : (s.inode k).din.type ≠ .free) :
    Post (itrunc sb k) s (fun _ s' => Truncated sb k s s') E := by
  unfold itrunc
  have hloop : Post ((List.finRange NDIRECT).forM fun i => do
      let d := (← inode k).din
      if d.addrs i.castSucc ≠ 0 then
        bfree sb (d.addrs i.castSucc)
        setDin k { d with addrs := update d.addrs i.castSucc 0 }) s
      (fun _ t => Truncating sb k s (leftDirect []) t) E := by
    refine (Post.forM (I := fun xs t => xs.Nodup ∧ Truncating sb k s (leftDirect xs) t)
      ⟨List.nodup_finRange _, .init h⟩ fun i xs t hI => ?_).imp fun _ _ => And.right
    obtain ⟨hnodup, hI⟩ := hI
    rw [List.nodup_cons] at hnodup
    exact (hI.direct hk hnodup.1).imp fun _ _ ht => ⟨hnodup.2, ht⟩
  refine hloop.seq fun _ t ht => ?_
  obtain ⟨a, hself, hkeep, -⟩ := ht.self
  have hlast : (t.inode k).din.addrs (Fin.last NDIRECT)
      = (s.inode k).din.addrs (Fin.last NDIRECT) := by
    rw [hself]
    exact hkeep _ (.inl rfl)
  simp only [post_bind, post_inode, post_ite, hlast]
  refine ⟨fun hind => ?_, fun hind => (ht.skip hk (not_not.mp hind)).finish⟩
  have hrange : sb.nmeta ≤ (s.inode k).din.addrs (Fin.last NDIRECT) ∧
      (s.inode k).din.addrs (Fin.last NDIRECT) < sb.size := by
    have hslot := h.slotAddr_range (i := (s.inode k).inum) (by rwa [view_self]) (p := .ind)
    rw [view_self] at hslot
    exact hslot hind
  rw [post_bdata hrange, ht.data]
  have hrest : Post ((List.range NINDIRECT).forM fun j => do
      if word (s.data ((s.inode k).din.addrs (Fin.last NDIRECT))) j ≠ 0 then
        bfree sb (word (s.data ((s.inode k).din.addrs (Fin.last NDIRECT))) j)) t
      (fun _ t' => Truncating sb k s (leftIndirect []) t') E := by
    refine (Post.forM (I := fun xs t' => (xs.Nodup ∧ ∀ j ∈ xs, j < NINDIRECT) ∧
      Truncating sb k s (leftIndirect xs) t')
        ⟨⟨List.nodup_range, fun j => List.mem_range.mp⟩, ht.start⟩
      fun j xs t' hI => ?_).imp fun _ _ => And.right
    obtain ⟨⟨hnodup, hlt⟩, hI⟩ := hI
    rw [List.nodup_cons] at hnodup
    have hround := hI.indirect hk hind (j := ⟨j, hlt j List.mem_cons_self⟩) hnodup.1 (E := E)
    refine hround.imp fun _ _ ht' => ⟨⟨hnodup.2, fun i hi => ?_⟩, ht'⟩
    exact hlt i (List.mem_cons_of_mem _ hi)
  refine hrest.imp fun _ t' ht' => ?_
  -- The indirect block itself.
  have hx : leftIndirect [] .ind := rfl
  have hP : ∀ p, False ↔ leftIndirect [] p ∧ p ≠ .ind := by
    intro p
    cases p with
    | inl q | inr j => simp [leftIndirect]
  obtain ⟨a', hself', -, hgone'⟩ := ht'.self
  refine (bfree_spec (isFree_of_kept ht'.owned hk hx hind)).imp fun _ t₂ hfree => ?_
  have howned := owned_drop ht'.owned hk hx hP hind hfree
  rw [post_setDin]
  refine Truncating.finish (t := t₂.setInode k _) ⟨howned, hfree.data.trans ht'.data,
    hfree.same.dinode.trans ht'.dinode,
    hfree.same.input.trans ht'.input, hfree.same.through.trans ht'.through, fun j hj => ?_,
    update a' (Fin.last NDIRECT) 0, ?_, fun _ hq => hq.elim, fun q _ => ?_⟩
  · simp only [Fs.setInode, update_of_ne hj, hfree.same.inode, ht'.other j hj]
  · simp only [Fs.setInode, update_self, hfree.same.inode, hself']
  · by_cases hq : q = Fin.last NDIRECT
    · rw [hq, update_self]
    · rw [update_of_ne hq]
      exact hgone' q hq

/-- The disk is consistent with a dinode that has no blocks. -/
lemma Truncated.sound (h : Truncated sb k s t) (hs : Sound sb (view s k) s.bitmap s.data)
    {D : ℕ → Dinode} (hD : ∀ i ≠ (s.inode k).inum, D i = s.dinode i)
    (haddrs : ∀ q, (D (s.inode k).inum).addrs q = 0) (hsize : (D (s.inode k).inum).size = 0) :
    Sound sb D t.bitmap s.data := by
  have hslot : ∀ p, slotAddr s.data (D (s.inode k).inum) p = 0 := by
    intro p
    cases p with
    | inl q => exact haddrs q
    | inr j => exact if_pos (haddrs _)
  refine ⟨h.owned.congr (fun y => ?_) fun _ _ => rfl, fun i hi => ?_⟩
  · obtain ⟨i, p⟩ := y
    unfold kept addrOf
    by_cases hi : i = (s.inode k).inum
    · subst hi
      simp only [hslot, ite_self, true_and, not_false_eq_true, if_true]
    · simp only [hi, false_and, if_false, hD i hi, view_of_ne hi]
  · by_cases hne : i = (s.inode k).inum
    · subst hne
      rw [Full, hsize]
      exact fun bn hbn => absurd hbn (Nat.not_lt_zero _)
    · have hview := hs.full i
      rw [view_of_ne hne, ← hD i hne] at hview
      exact hview hi

end Trunc

end Xv6.Files
