import Xv6.Vm.Kernel

/-!
The memory of a child (`copyuvm`).

* `copyuvm_spec`: the pages of the parent are copied, or nothing is left.
* `userWrite`, `userWrites`: what user code does through a page directory.
* `copyuvm_copies`: the child has a copy of its own.
-/

namespace Xv6.Vm

open Transition Function

variable {L : Layout} {s s' : Phys} {d p n v sz : ℕ} {H W : Set ℕ} {E : Stop → Phys → Prop}

/-! ### Another address space -/

/-- The address space `p` is not looked at: its pages are held elsewhere. -/
def Apart (s : Phys) (p : ℕ) (H W : Set ℕ) : Prop :=
  ∀ q n, pageAt s p q = some n → n ∈ W → n ∈ H

section Apart

variable (hp : Apart s p H W) (hf : Frame H W s s')

include hp hf

lemma Frame.table : table s' p = Vm.table s p := table_congr (hf.page p (hp .dir p rfl))

lemma Frame.ent : ent s' p = Vm.ent s p :=
  ent_congr (hf.page p (hp .dir p rfl)) fun i t ht => hf.page t (hp (.table i) t ht)

lemma Frame.pageAt : pageAt s' p = Vm.pageAt s p := pageAt_congr (hf.table hp) (hf.ent hp)

lemma Frame.umem : umem s' p = Vm.umem s p :=
  umem_congr (hf.ent hp) fun v n hn => hf.page n (hp (.user v) n hn)

end Apart

/-! ### Copying -/

lemma umem_some (h : umem s d v ≠ none) :
    v < UPAGES ∧ ent s d v &&& PTE_P ≠ 0 ∧
      umem s d v = some (ent s d v % PGSIZE, s.page (ent s d v / PGSIZE)) := by
  cases hn : upage s d v with
  | none => exact absurd (umem_none.mpr hn) h
  | some n =>
    obtain ⟨hv, hpres, rfl⟩ := upage_some.mp hn
    exact ⟨hv, hpres, by rw [umem, hn, Option.map_some]⟩

/-- The flags of an entry that is present. -/
lemma flags_or_present {e : ℕ} (he : e &&& PTE_P ≠ 0) : e % PGSIZE ||| PTE_P = e % PGSIZE := by
  have hodd : e % PGSIZE % 2 = 1 := by
    rw [present_iff] at he
    simp only [PGSIZE]
    omega
  refine Nat.eq_of_testBit_eq fun i => ?_
  rw [Nat.testBit_or]
  cases i with
  | zero => simp [hodd]
  | succ i => simp [PTE_P, Nat.testBit_succ]

/-- The user memory of the new page directory when the pages below `lo` have been copied. -/
structure Copied (L : Layout) (p d sz lo : ℕ) (H W : Set ℕ) (s s' : Phys) : Prop where
  space : Space s' d H W
  kernel : KernelPart L s' d
  frame : Frame H W s s'
  mem : ∀ v, umem s' d v = if v * PGSIZE < sz ∧ v < lo then umem s p v else none

section Copy

variable (hW : ∀ n ∈ W, L.Valid n) (hp : Apart s p H W)
  (hmap : ∀ v, v * PGSIZE < sz → umem s p v ≠ none)

include hW hp hmap

/-- **The loop of `copyuvm`.** -/
lemma copyLoop_spec {fuel lo : ℕ} {s₁ : Phys} (hfuel : sz ≤ (lo + fuel) * PGSIZE)
    (h : Copied L p d sz lo H W s s₁) :
    Post (copyLoop L p d sz fuel (lo * PGSIZE)) s₁
      (fun ok s' => Space s' d H W ∧ Frame H W s s' ∧
        (ok = true → KernelPart L s' d ∧
          ∀ v, umem s' d v = if v * PGSIZE < sz then umem s p v else none) ∧
        (ok = false → s.Works → Crowded H W (sz / PGSIZE + 1))) E := by
  -- All pages have been copied.
  have hdone : ∀ {lo s₁}, Copied L p d sz lo H W s s₁ → sz ≤ lo * PGSIZE →
      Space s₁ d H W ∧ Frame H W s s₁ ∧ (true = true → KernelPart L s₁ d ∧
        ∀ v, umem s₁ d v = if v * PGSIZE < sz then umem s p v else none) ∧
      (true = false → s.Works → Crowded H W (sz / PGSIZE + 1)) := by
    intro lo s₁ h hle
    refine ⟨h.space, h.frame, fun _ => ⟨h.kernel, fun v => ?_⟩, fun hok => (by cases hok)⟩
    have hiff : v * PGSIZE < sz ∧ v < lo ↔ v * PGSIZE < sz :=
      ⟨And.left, fun hlt => ⟨hlt, Nat.lt_of_mul_lt_mul_right (hlt.trans_le hle)⟩⟩
    simp only [h.mem v, hiff]
  induction fuel generalizing lo s₁ with
  | zero => exact hdone h (by simpa using hfuel)
  | succ fuel ih =>
    rw [copyLoop]
    refine post_ite.mpr ⟨fun hlt => ?_, fun hge => hdone h (not_lt.mp hge)⟩
    obtain ⟨hlo, hpres, hmem⟩ := umem_some (hmap lo hlt)
    have hlo' : lo < 2 ^ 20 := lt_of_lt_of_le hlo (by decide)
    have habove : ∀ v, lo ≤ v → umem s₁ d v = none := fun v hv => by
      rw [h.mem v, if_neg (by omega)]
    have hle : lo ≤ sz / PGSIZE := (Nat.le_div_iff_mul_le (by decide)).mpr hlt.le
    obtain ⟨t, ht⟩ := exists_table hpres
    have ht₁ : table s₁ p (lo / NPTENTRIES) = some t := by rw [h.frame.table hp, ht]
    have hent : word (s₁.page t) (lo % NPTENTRIES) = ent s p lo := by
      rw [← ent_of_table ht₁, h.frame.ent hp]
    rw [post_bind, post_walk, PDX_page hlo', ht₁]
    dsimp only [Option.map_some]
    rw [PTX_page, post_bind, post_loadEntry, hent, if_neg hpres]
    refine kalloc_spec.seq fun r s₂ hs₂ => ?_
    obtain ⟨hsame, ⟨rfl, hlist, hnil⟩ | ⟨n, rfl, hlist⟩⟩ := hs₂
    · obtain ⟨hev, hmem₂⟩ := h.space.same hsame hlist
      refine ⟨hev.space, h.frame.trans hev.frame, fun hok => (by cases hok), fun _ hw => ?_⟩
      exact (hev.space.crowded (hmem₂ ▸ habove) (hnil (h.frame.works hw))).mono
        (hle.trans (Nat.le_succ _))
    · -- The page of the parent has not been changed.
      have hcopy : s₂.page (ent s p lo / PGSIZE) = s.page (ent s p lo / PGSIZE) := by
        rw [hsame.page]
        exact h.frame.page _ (hp (.user lo) _ (upage_some.mpr ⟨hlo, hpres, rfl⟩))
      have htaken := h.space.taken hsame hlist (s.page (ent s p lo / PGSIZE))
      have hvalid := hW n (h.space.mem_of_free htaken.free)
      dsimp only
      rw [post_bind, post_get, post_bind, post_setPage, hcopy, mappages_page hlo']
      refine (mapUser_spec hW htaken.space htaken.notMem hlo ?_ (Nat.mod_lt _ (by decide))).seq
        fun ok s₃ hmapped => ?_
      · rw [htaken.mem, h.mem lo, if_neg (by omega)]
      cases hmapped with
      | failed hev hmem₃ hnil =>
        obtain ⟨hev', -⟩ := hev.space.kfree_evolved htaken.notMem
        rw [if_neg (by decide), post_bind, post_kfree hvalid]
        refine ⟨hev'.space, h.frame.trans (htaken.frame.trans ?_), fun hok => (by cases hok),
          fun _ hw => ?_⟩
        · exact (hev.frame.mono (Set.subset_insert n H)).trans hev'.frame
        · have hcrowded := hev.space.crowded (hmem₃ ▸ htaken.mem ▸ habove)
            (hnil (htaken.frame.works (h.frame.works hw)))
          exact hcrowded.of_insert.mono (Nat.succ_le_succ hle)
      | mapped hev hmem₃ =>
        rw [if_pos rfl, next_page (lt_of_le_of_lt (Nat.succ_le_of_lt hlo) (by decide))]
        refine ih ?_ ⟨hev.space, (h.kernel.same htaken.kernel).same hev.kernel,
          h.frame.trans (htaken.frame.trans hev.frame), fun v => ?_⟩
        · rwa [Nat.add_right_comm lo 1 fuel, Nat.add_assoc lo fuel 1]
        · rw [hmem₃, htaken.mem, htaken.page, flags_or_present hpres]
          by_cases hv : v = lo
          · subst hv
            rw [update_self, if_pos ⟨hlt, Nat.lt_succ_self v⟩, hmem]
          · have hiff : v < lo + 1 ↔ v < lo := by omega
            rw [update_of_ne hv, h.mem v]
            simp only [hiff]

/-- **`copyuvm`** -/
lemma copyuvm_spec (h : Pool s H W) :
    Post (copyuvm L p sz) s
      (fun r s' => Frame H W s s' ∧
        (r = none ∧ Pool s' H W ∧ (s.Works → Crowded H W (sz / PGSIZE + 1)) ∨
        ∃ d, r = some d ∧ Space s' d H W ∧ KernelPart L s' d ∧
          ∀ v, umem s' d v = if v * PGSIZE < sz then umem s p v else none)) E := by
  refine (setupkvm_spec hW h).seq fun r s₁ hs₁ => ?_
  cases hs₁ with
  | failed pool frame out =>
    exact ⟨frame, .inl ⟨rfl, pool, fun hw => (out hw).mono (Nat.zero_le _)⟩⟩
  | @made _ d space frame mem kernel =>
    have hstart : Copied L p d sz 0 H W s s₁ := by
      refine ⟨space, kernel, frame, fun v => ?_⟩
      rw [mem v, if_neg (by omega)]
    have hfuel : sz ≤ (0 + (sz / PGSIZE + 1)) * PGSIZE := by
      simp only [PGSIZE]
      omega
    have hloop := copyLoop_spec (E := E) hW hp hmap hfuel hstart
    rw [Nat.zero_mul] at hloop
    refine hloop.seq fun ok s₂ hs₂ => ?_
    cases ok with
    | true =>
      obtain ⟨hkernel, hmem⟩ := hs₂.2.2.1 rfl
      exact ⟨hs₂.2.1, .inr ⟨d, rfl, hs₂.1, hkernel, hmem⟩⟩
    | false =>
      refine Post.seq (freevm_spec hW hs₂.1) fun _ s' hs' => ?_
      exact ⟨hs₂.2.1.trans hs'.2, .inl ⟨rfl, hs'.1, hs₂.2.2.2 rfl⟩⟩

/-- **`copyuvm` succeeds** if there are enough pages. -/
lemma copyuvm_succeeds (h : Pool s H W) (hworks : s.Works)
    (hroom : 1 + NPDENTRIES + (sz / PGSIZE + 1) < s.freelist.length) :
    ∃ d s', copyuvm L p sz s = .ok (some d) s' := by
  obtain ⟨r, s', hrun, -, ⟨rfl, -, hout⟩ | ⟨d, rfl, -⟩⟩ :=
    (copyuvm_spec (E := fun _ _ => False) hW hp hmap h).total fun _ _ => id
  · exact absurd (hout hworks) (h.not_crowded hroom)
  · exact ⟨d, s', hrun⟩

end Copy

/-! ### User writes -/

/-- The user code of an address space writes a byte.  Where there is no page that it may write to,
it faults, and writes nothing. -/
def userWrite (d : ℕ) (s : Phys) (w : ℕ × UInt8) : Phys :=
  match upage s d (w.1 / PGSIZE) with
  | none => s
  | some n =>
    if ent s d (w.1 / PGSIZE) &&& PTE_U = 0 ∨ ent s d (w.1 / PGSIZE) &&& PTE_W = 0 then s
    else
      let page := update (s.page n) (w.1 % PGSIZE) w.2
      { s with page := update s.page n page }

/-- A sequence of user writes. -/
def userWrites (s : Phys) (d : ℕ) (ws : List (ℕ × UInt8)) : Phys := ws.foldl (userWrite d) s

/-- The two address spaces have no page in common, and `d` has each of its pages once. -/
structure Separate (s : Phys) (d p : ℕ) : Prop where
  inj : ∀ q r n, pageAt s d q = some n → pageAt s d r = some n → q = r
  disjoint : ∀ q r n, pageAt s d q = some n → pageAt s p r ≠ some n

lemma pageAt_update (hn : ∀ q, pageAt s d q = some n → ∃ v, q = .user v) (pg : Page) :
    ent { s with page := update s.page n pg } d = ent s d ∧
      pageAt { s with page := update s.page n pg } d = pageAt s d := by
  have hkeep : ∀ q k, (∀ v, q ≠ .user v) → pageAt s d q = some k →
      update s.page n pg k = s.page k := by
    intro q k hq hk
    refine update_of_ne ?_ ..
    rintro rfl
    obtain ⟨v, hv⟩ := hn q hk
    exact hq v hv
  have hdir := hkeep .dir d (fun v => by simp) rfl
  have hent : ent { s with page := update s.page n pg } d = ent s d :=
    ent_congr hdir fun i t ht => hkeep (.table i) t (fun v => by simp) ht
  exact ⟨hent, pageAt_congr (table_congr hdir) hent⟩

/-- A write through one directory is not seen through the other. -/
lemma Separate.userWrite (h : Separate s d p) (w : ℕ × UInt8) :
    Separate (userWrite d s w) d p ∧ umem (userWrite d s w) p = umem s p := by
  unfold Vm.userWrite
  split
  · exact ⟨h, rfl⟩
  · next n hn =>
    split
    · exact ⟨h, rfl⟩
    · have hd := pageAt_update (fun q hq => ⟨_, h.inj q _ n hq hn⟩)
        (update (s.page n) (w.1 % PGSIZE) w.2)
      have hp := pageAt_update (s := s) (d := p) (n := n)
        (fun q hq => absurd hq (h.disjoint (.user _) q n hn))
        (update (s.page n) (w.1 % PGSIZE) w.2)
      refine ⟨⟨?_, ?_⟩, umem_congr hp.1 fun v m hm => update_of_ne ?_ ..⟩
      · rw [hd.2]
        exact h.inj
      · rw [hd.2, hp.2]
        exact h.disjoint
      · rintro rfl
        exact h.disjoint (.user _) (.user v) m hn hm

lemma Separate.userWrites (h : Separate s d p) (ws : List (ℕ × UInt8)) :
    umem (userWrites s d ws) p = umem s p := by
  induction ws generalizing s with
  | nil => rfl
  | cons w ws ih =>
    obtain ⟨h', hmem⟩ := h.userWrite w
    exact (ih h').trans hmem

/-! ### The child -/

/-- **The child's address space `d`** is a copy of the parent's `p`, and is its own. -/
structure Child (L : Layout) (p d sz : ℕ) (s s' : Phys) : Prop where
  parent : umem s' p = umem s p
  copied : ∀ v, v * PGSIZE < PGROUNDUP sz → umem s' d v = umem s p v
  unmapped : ∀ v, PGROUNDUP sz ≤ v * PGSIZE → umem s' d v = none
  kernel : KernelPart L s' d
  disjoint : ∀ q r n, pageAt s' d q = some n → pageAt s' p r ≠ some n
  childWrites : ∀ ws, umem (userWrites s' d ws) p = umem s' p
  parentWrites : ∀ ws, umem (userWrites s' p ws) d = umem s' d

lemma lt_PGROUNDUP (hsz : sz ≤ KERNBASE) : v * PGSIZE < PGROUNDUP sz ↔ v * PGSIZE < sz := by
  simp only [KERNBASE, PGROUNDUP, PGSIZE] at *
  omega

/-- **`copyuvm` copies the memory of the parent and separates it**, or gives back what it took; it
does not stop. -/
theorem copyuvm_copies (hW : ∀ n ∈ W, L.Valid n) (h : Space s p H W) (hsz : sz ≤ KERNBASE)
    (hmap : ∀ v, v * PGSIZE < PGROUNDUP sz → umem s p v ≠ none) :
    ∃ r s', copyuvm L p sz s = .ok r s' ∧ match r with
      | some d => Child L p d sz s s'
      | none => umem s' p = umem s p ∧ s'.freelist.Perm s.freelist := by
  have hpool : Pool s (H ∪ Holdings.held (pageAt s p)) W := h.hide Place
  have hapart : Apart s p (H ∪ Holdings.held (pageAt s p)) W := fun q n hq _ => .inr ⟨q, hq⟩
  obtain ⟨r, s', hrun, hframe, hr⟩ := (copyuvm_spec (E := fun _ _ => False) hW hapart
    (fun v hv => hmap v ((lt_PGROUNDUP hsz).mpr hv)) hpool).total fun _ _ => id
  refine ⟨r, s', hrun, ?_⟩
  obtain ⟨rfl, hpool', -⟩ | ⟨d, rfl, hspace, hkernel, hmem⟩ := hr
  · refine ⟨hframe.umem hapart, (List.perm_ext_iff_of_nodup hpool'.nodup hpool.nodup).mpr
      fun n => ?_⟩
    rw [hpool'.mem_free_iff, hpool.mem_free_iff]
  · have hdisj : ∀ q r n, pageAt s' d q = some n → pageAt s' p r ≠ some n := by
      intro q r n hq hr
      rw [hframe.pageAt hapart] at hr
      exact hspace.held_hold n (.inr ⟨r, hr⟩) q hq
    have hinj : ∀ q r n, pageAt s' p q = some n → pageAt s' p r = some n → q = r := by
      rw [hframe.pageAt hapart]
      exact h.inj
    refine ⟨hframe.umem hapart, fun v hv => ?_, fun v hv => ?_, hkernel, hdisj,
      (Separate.mk hspace.inj hdisj).userWrites,
      (Separate.mk hinj fun q r n hq hr => hdisj r q n hr hq).userWrites⟩
    · rw [hmem v, if_pos ((lt_PGROUNDUP hsz).mp hv)]
    · rw [hmem v, if_neg fun hlt => absurd ((lt_PGROUNDUP hsz).mpr hlt) (not_lt.mpr hv)]

/-- An empty process gets one page, and its memory is copied. -/
theorem copyuvm_copies_page : ∃ s d s',
    growproc smallKernel 0x2000 0 4096 (roomyDir fun _ => false) = .ok (some 4096) s ∧
      umem s 0x2000 0 = some (7, zeroPage) ∧
      copyuvm smallKernel 0x2000 4096 s = .ok (some d) s' ∧ Child smallKernel 0x2000 d 4096 s s' ∧
      umem s' d 0 = some (7, zeroPage) := by
  obtain ⟨s, hrun, hlen⟩ :
      ∃ s, growproc smallKernel 0x2000 0 4096 (roomyDir fun _ => false) = .ok (some 4096) s ∧
        s.freelist.length = 1998 := by
    decide +kernel
  obtain ⟨hev, hrep⟩ :=
    (growproc_evolved (E := fun _ _ => False) valid_roomy (space_roomyDir _) (by decide)
    (mapped_zeroPage rfl) (by decide : -2 ^ 31 ≤ (4096 : ℤ)) (by decide)).ok hrun
  obtain ⟨-, -, hmapped, -, hzero⟩ := hrep.mpr (.inl (by decide))
  have hmap : ∀ v, v * PGSIZE < 4096 → umem s 0x2000 v ≠ none := fun v hv => (hmapped v).mpr hv
  obtain ⟨d, s', hcopy⟩ := copyuvm_succeeds valid_roomy (fun q n hq _ => .inr ⟨q, hq⟩) hmap
    (hev.space.hide Place) (hev.frame.works fun _ => rfl) (by rw [hlen]; decide)
  obtain ⟨r, s'', hcopy', hchild⟩ :=
    copyuvm_copies valid_roomy hev.space (by decide : 4096 ≤ KERNBASE)
    fun v hv => hmap v ((lt_PGROUNDUP (by decide)).mp hv)
  cases hcopy.symm.trans hcopy'
  have hpage := hzero 0 (by decide) (by decide)
  exact ⟨s, d, s', hrun, hpage, hcopy, hchild, (hchild.copied 0 (by decide)).trans hpage⟩

end Xv6.Vm
