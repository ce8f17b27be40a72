import Xv6.Vm.Space

/-!
User memory grows and shrinks (`allocuvm`, `deallocuvm`, `growproc`).

* `deallocuvm_spec`: the pages of a range are unmapped and freed, and nothing else changes.
* `allocuvm_spec`: zeroed pages are added, or nothing changes.
* `growproc_exact`: when a change of the size has the effect that it reports.
-/

namespace Xv6.Vm

open Transition Function

variable {L : Layout} {s s' : Phys} {d t n m i v w : ℕ} {H W : Set ℕ} {E : Stop → Phys → Prop}

/-! ### Unmapping -/

/-- The user pages from `lo` on and below the size `sz` are unmapped. -/
structure Unmapped (d lo sz : ℕ) (H W : Set ℕ) (s s' : Phys) : Prop where
  ev : Evolved d H W s s'
  mem : ∀ v, umem s' d v = if lo ≤ v ∧ v * PGSIZE < sz then none else umem s d v

/-- A user page is freed and its entry is cleared. -/
def Phys.unmap (s : Phys) (n t i : ℕ) : Phys :=
  Phys.setEntry { s with page := update s.page n fun _ => 1, freelist := n :: s.freelist }
    t i 0

lemma unmap_page_of_ne (s : Phys) (i : ℕ) {k : ℕ} (hn : k ≠ n) (ht : k ≠ t) :
    (s.unmap n t i).page k = s.page k := by
  rw [Phys.unmap, setEntry_page_of_ne _ _ _ ht]
  exact update_of_ne hn ..

/-- Apart from the page that is freed, this is a store. -/
lemma unmap_page (s : Phys) (i : ℕ) {k : ℕ} (hk : k ≠ n) :
    (s.unmap n t i).page k = (s.setEntry t i 0).page k := by
  by_cases hkt : k = t
  · subst hkt
    rw [Phys.unmap, setEntry_page_self, setEntry_page_self]
    exact congrArg (setWord · _ 0) (update_of_ne hk ..)
  · rw [unmap_page_of_ne s _ hk hkt, setEntry_page_of_ne s _ _ hkt]

section Unmap

variable (h : Space s d H W) (hn : upage s d v = some n)
  (ht : table s d (v / NPTENTRIES) = some t)

include h hn ht

lemma Space.unmap_ne : n ≠ t ∧ n ≠ d :=
  ⟨h.ne_of_hold (p := Place.user v) (q := Place.table (v / NPTENTRIES)) hn ht (by simp),
    h.ne_of_hold (p := Place.user v) (q := Place.dir) hn rfl (by simp)⟩

lemma Space.unmap_table : table (s.unmap n t (v % NPTENTRIES)) d = table s d := by
  rw [← h.setEntry_table (j := v % NPTENTRIES) ht 0]
  exact table_congr (unmap_page s _ (h.unmap_ne hn ht).2.symm)

lemma Space.unmap_ent : ent (s.unmap n t (v % NPTENTRIES)) d = update (ent s d) v 0 := by
  rw [← h.setEntry_ent ht (by decide)]
  refine ent_congr (unmap_page s _ (h.unmap_ne hn ht).2.symm) fun i t' ht' => ?_
  rw [h.setEntry_table ht 0] at ht'
  exact unmap_page s _
    (h.ne_of_hold (p := Place.table i) (q := Place.user v) ht' hn (by simp))

lemma Space.unmap_space (hv : v < UPAGES) : Space (s.unmap n t (v % NPTENTRIES)) d H W := by
  have hplaces : pageAt (s.unmap n t (v % NPTENTRIES)) d
      = update (pageAt s d) (.user v) none := by
    rw [← show (if (0 : ℕ) &&& PTE_P ≠ 0 then some (0 / PGSIZE) else none) = none from rfl,
      ← h.pageAt_setEntry hv ht (by decide)]
    refine pageAt_congr ?_ ?_
    · rw [h.unmap_table hn ht, h.setEntry_table ht 0]
    · rw [h.unmap_ent hn ht, h.setEntry_ent ht (by decide)]
  change Holdings (pageAt (s.unmap n t (v % NPTENTRIES)) d) (n :: s.freelist) H W
  rw [hplaces]
  exact (h.unplace (p := Place.user v) hn).give fun hmem => h.held_hold n hmem (.user v) hn

lemma Space.unmap_umem (v' : ℕ) :
    umem (s.unmap n t (v % NPTENTRIES)) d v' = if v' = v then none else umem s d v' := by
  have hent := h.unmap_ent hn ht
  split
  · next heq =>
    subst heq
    rw [umem_none, upage, hent, update_self, if_neg fun h => h.2 rfl]
  · next hne =>
    have hup : upage (s.unmap n t (v % NPTENTRIES)) d v' = upage s d v' := by
      rw [upage, upage, hent, update_of_ne hne]
    rw [umem, umem, hup, hent, update_of_ne hne]
    cases hk : upage s d v' with
    | none => rfl
    | some k =>
      rw [Option.map_some, Option.map_some, unmap_page_of_ne]
      · exact h.ne_of_hold (p := Place.user v') (q := Place.user v) hk hn (by simpa using hne)
      · exact h.ne_of_hold (p := Place.user v') (q := Place.table (v / NPTENTRIES)) hk ht (by simp)

lemma Space.unmap_evolved (hv : v < UPAGES) : Evolved d H W s (s.unmap n t (v % NPTENTRIES)) := by
  refine ⟨h.unmap_space hn ht hv, ⟨fun i _ => by rw [h.unmap_table hn ht], fun v' hv' => ?_⟩,
    fun k hk => ?_, id⟩
  · rw [h.unmap_ent hn ht, update_of_ne (by omega)]
  · exact unmap_page_of_ne s _ (h.ne_of_frame (p := Place.user v) hk hn)
      (h.ne_of_frame (p := Place.table (v / NPTENTRIES)) hk ht)

end Unmap

/-- Where the loop of `deallocuvm` goes on when there is no page table. -/
lemma skip_eq (hv : v < UPAGES) :
    ((PGADDR (v / NPTENTRIES + 1) 0 0 + (2 ^ 32 - PGSIZE)) % 2 ^ 32 + PGSIZE) % 2 ^ 32
      = (v / NPTENTRIES + 1) * NPTENTRIES * PGSIZE := by
  rw [PGADDR]
  simp only [Nat.zero_mul, Nat.or_zero, PGSIZE, NPTENTRIES, UPAGES, KERNBASE] at *
  omega

/-- Without a page table nothing is mapped. -/
lemma umem_of_no_table (h : table s d (v / NPTENTRIES) = none) : umem s d v = none := by
  rw [umem_none, upage, ent_of_none h, if_neg fun h => h.2 rfl]

/-- **The loop of `deallocuvm`** visits every page that is mapped. -/
lemma deallocLoop_spec (hW : ∀ n ∈ W, L.Valid n) {sz fuel lo : ℕ} (hsz : sz ≤ KERNBASE)
    (hfuel : sz ≤ (lo + fuel) * PGSIZE) (h : Space s d H W) :
    Post (deallocLoop L d sz fuel (lo * PGSIZE)) s (fun _ => Unmapped d lo sz H W s) E := by
  -- Nothing is left to do.
  have hdone : ∀ {lo s}, Space s d H W → sz ≤ lo * PGSIZE → Unmapped d lo sz H W s s := by
    intro lo s h hle
    refine ⟨.refl h, fun v => ?_⟩
    rw [if_neg]
    rintro ⟨hlo, hlt⟩
    have := Nat.mul_le_mul_right PGSIZE hlo
    omega
  induction fuel generalizing lo s with
  | zero => exact hdone h (by simpa using hfuel)
  | succ fuel ih =>
    rw [deallocLoop]
    refine post_ite.mpr ⟨fun hlt => ?_, fun hge => hdone h (not_lt.mp hge)⟩
    have hlo : lo < UPAGES := by
      simp only [UPAGES, KERNBASE, PGSIZE] at *
      omega
    have hnext := next_page (lt_of_le_of_lt (Nat.succ_le_of_lt hlo) (by decide))
    have hfuel' : sz ≤ (lo + 1 + fuel) * PGSIZE := by
      rwa [Nat.add_right_comm lo 1 fuel, Nat.add_assoc lo fuel 1]
    rw [post_bind, post_walk, PDX_page (lt_of_lt_of_le hlo (by decide))]
    cases ht : table s d (lo / NPTENTRIES) with
    | none =>
      dsimp only [Option.map_none]
      rw [skip_eq hlo]
      have hle : lo + 1 ≤ (lo / NPTENTRIES + 1) * NPTENTRIES := by
        simp only [NPTENTRIES]
        omega
      refine (ih ?_ h).imp fun _ s' hs' => ⟨hs'.ev, fun v => ?_⟩
      · refine hfuel'.trans (Nat.mul_le_mul_right _ ?_)
        omega
      · rw [hs'.mem v]
        by_cases hv : lo ≤ v ∧ v < (lo / NPTENTRIES + 1) * NPTENTRIES
        · have hdiv : v / NPTENTRIES = lo / NPTENTRIES := by
            simp only [NPTENTRIES] at *
            omega
          rw [umem_of_no_table (s := s) (v := v) (by rw [hdiv, ht])]
          simp
        · have hiff : (lo / NPTENTRIES + 1) * NPTENTRIES ≤ v ↔ lo ≤ v := by omega
          simp only [hiff]
    | some t =>
      dsimp only [Option.map_some]
      rw [PTX_page, post_bind, post_loadEntry, ← ent_of_table ht]
      -- The loop goes on at the next page.
      have hgo : ∀ s₁, Evolved d H W s s₁ →
          (∀ v, umem s₁ d v = if v = lo then none else umem s d v) →
          Post (deallocLoop L d sz fuel ((lo * PGSIZE + PGSIZE) % 2 ^ 32)) s₁
            (fun _ => Unmapped d lo sz H W s) E := by
        intro s₁ h₁ hm₁
        rw [hnext]
        refine (ih hfuel' h₁.space).imp fun _ s' hs' => ⟨h₁.trans hs'.ev, fun v => ?_⟩
        rw [hs'.mem v, hm₁ v]
        by_cases hv : v = lo
        · subst hv
          simp [hlt]
        · rw [if_neg hv]
          have hiff : lo + 1 ≤ v ↔ lo ≤ v := by omega
          simp only [hiff]
      refine post_ite.mpr ⟨fun hp => ?_, fun hp => ?_⟩
      · have hn : upage s d lo = some (ent s d lo / PGSIZE) := upage_some.mpr ⟨hlo, hp, rfl⟩
        have hvalid := hW _ (h.mem_of_hold (p := Place.user lo) hn)
        rw [if_neg hvalid.ne_zero, post_bind, post_kfree hvalid, post_bind, post_storeEntry]
        exact hgo _ (h.unmap_evolved hn ht hlo) (h.unmap_umem hn ht)
      · refine hgo s (.refl h) fun v => ?_
        split
        · next heq =>
          subst heq
          exact umem_none.mpr ((upage_none hlo).mpr (not_not.mp hp))
        · rfl

lemma PGROUNDUP_eq {sz : ℕ} (h : sz + PGSIZE ≤ 2 ^ 32) :
    PGROUNDUP sz = (sz + (PGSIZE - 1)) / PGSIZE * PGSIZE := by
  simp only [PGROUNDUP, PGSIZE] at *
  omega

/-- **`deallocuvm`** -/
lemma deallocuvm_spec (hW : ∀ n ∈ W, L.Valid n) {oldsz newsz : ℕ} (hsz : oldsz ≤ KERNBASE)
    (h : Space s d H W) :
    Post (deallocuvm L d oldsz newsz) s
      (fun r s' => r = min oldsz newsz ∧ Evolved d H W s s' ∧
        ∀ v, umem s' d v = if newsz ≤ v * PGSIZE ∧
          v * PGSIZE < oldsz then none else umem s d v) E := by
  rw [deallocuvm]
  refine post_ite.mpr ⟨fun hle => ?_, fun hlt => ?_⟩
  · refine ⟨(min_eq_left hle).symm, .refl h, fun v => ?_⟩
    rw [if_neg (by omega)]
  · rw [not_le] at hlt
    rw [PGROUNDUP_eq (by simp only [KERNBASE, PGSIZE] at *; omega)]
    refine Post.seq (deallocLoop_spec hW hsz ?_ h) fun _ s' hs' =>
      ⟨(min_eq_right hlt.le).symm, hs'.ev, fun v => ?_⟩
    · simp only [PGSIZE]
      omega
    · have hiff : (newsz + (PGSIZE - 1)) / PGSIZE ≤ v ↔ newsz ≤ v * PGSIZE := by
        simp only [PGSIZE]
        omega
      simp only [hs'.mem v, hiff]

/-! ### New memory -/

/-- A page of zeros. -/
def zeroPage : Page := fun _ => 0

/-- What `allocuvm` leaves: zeroed pages are added up to the new size, or nothing changes. -/
inductive Alloc (d oldsz newsz : ℕ) (H W : Set ℕ) (s : Phys) : ℕ → Phys → Prop
  | failed {s' : Phys} (ev : Evolved d H W s s') (mem : umem s' d = umem s d)
      (out : s.Works → ∀ k, newsz ≤ k * PGSIZE → (∀ v, k ≤ v → umem s d v = none) →
        Crowded H W (k + 1)) :
      Alloc d oldsz newsz H W s 0 s'
  | grown {s' : Phys} (ev : Evolved d H W s s')
      (mem : ∀ v, umem s' d v = if oldsz ≤ v * PGSIZE ∧ v * PGSIZE < newsz then some (7, zeroPage)
        else umem s d v) : Alloc d oldsz newsz H W s newsz s'

/-- Nothing but the luck of `kalloc` changes. -/
lemma Space.same (h : Space s d H W) (hs : SamePages s s') (hlist : s'.freelist = s.freelist) :
    Evolved d H W s s' ∧ umem s' d = umem s d := by
  have htab : table s' d = table s d := table_congr (by rw [hs.page])
  have hent : ent s' d = ent s d := ent_congr (by rw [hs.page]) fun _ _ _ => by rw [hs.page]
  refine ⟨⟨?_, ⟨fun i _ => by rw [htab], fun v _ => by rw [hent]⟩, fun n _ => by rw [hs.page],
    hs.works⟩, umem_congr hent fun v n _ => by rw [hs.page]⟩
  rw [Space, pageAt_congr htab hent, hlist]
  exact h

/-- A page is taken from the allocator and filled. -/
structure Taken (d n : ℕ) (p : Page) (H W : Set ℕ) (s s' : Phys) : Prop where
  space : Space s' d (insert n H) W
  kernel : SameKernel d s s'
  frame : Frame H W s s'
  mem : umem s' d = umem s d
  page : s'.page n = p
  notMem : n ∉ H
  free : n ∈ s.freelist

variable {s₁ : Phys}

lemma Space.taken (h : Space s d H W) (hs : SamePages s s₁)
    (hlist : s.freelist = n :: s₁.freelist) (p : Page) :
    Taken d n p H W s { s₁ with page := update s₁.page n p } := by
  have hmem : n ∈ s.freelist := by
    rw [hlist]
    exact List.mem_cons_self
  have hkeep : ∀ q k, pageAt s d q = some k → update s₁.page n p k = s.page k := by
    intro q k hk
    have hne : k ≠ n := by
      rintro rfl
      exact h.free_hold k hmem q hk
    rw [update_of_ne hne, hs.page]
  have htab : table { s₁ with page := update s₁.page n p } d = table s d :=
    table_congr (hkeep .dir d rfl)
  have hent : ent { s₁ with page := update s₁.page n p } d = ent s d :=
    ent_congr (hkeep .dir d rfl) fun i t ht => hkeep (.table i) t ht
  refine ⟨?_, ⟨fun i _ => by rw [htab], fun v _ => by rw [hent]⟩, ⟨fun k hk => ?_, hs.works⟩,
    umem_congr hent fun v k hk => hkeep (.user v) k hk, update_self .., h.free_held n hmem,
    hmem⟩
  · rw [Space, pageAt_congr htab hent]
    exact (hlist ▸ h : Holdings (pageAt s d) (n :: s₁.freelist) H W).take
  · have hne : k ≠ n := by
      rintro rfl
      exact h.free_held k hmem (hk (h.mem_of_free hmem))
    change update s₁.page n p k = s.page k
    rw [update_of_ne hne, hs.page]

/-- A page that is held is given back. -/
lemma Space.kfree_evolved (h : Space s d (insert n H) W) (hn : n ∉ H) :
    Evolved d H W s { s with page := update s.page n fun _ => 1, freelist := n :: s.freelist } ∧
      umem { s with page := update s.page n fun _ => 1, freelist := n :: s.freelist } d
        = umem s d := by
  have hkeep : ∀ q k, pageAt s d q = some k → update s.page n (fun _ => 1) k = s.page k := by
    intro q k hk
    refine update_of_ne ?_ ..
    rintro rfl
    exact h.held_hold k (.inl rfl) q hk
  generalize hs' :
    ({ s with page := update s.page n fun _ => 1, freelist := n :: s.freelist } : Phys) = s'
  have hp : s'.page = update s.page n fun _ => 1 := by rw [← hs']
  have hworks : s.Works → s'.Works := by
    rw [← hs']
    exact id
  have htab : table s' d = table s d := table_congr (by rw [hp]; exact hkeep .dir d rfl)
  have hent : ent s' d = ent s d :=
    ent_congr (by rw [hp]; exact hkeep .dir d rfl)
      fun i t ht => by rw [hp]; exact hkeep (.table i) t ht
  refine ⟨⟨?_, ⟨fun i _ => by rw [htab], fun v _ => by rw [hent]⟩, fun k hk => ?_, hworks⟩,
    umem_congr hent fun v k hk => by rw [hp]; exact hkeep (.user v) k hk⟩
  · rw [Space, pageAt_congr htab hent, ← hs']
    exact h.give hn
  · have hne : k ≠ n := by
      rintro rfl
      exact hn (hk (h.mem_of_held (.inl rfl)))
    rw [hp, update_of_ne hne]

section Alloc

variable {oldsz newsz : ℕ} (hW : ∀ n ∈ W, L.Valid n) (hsz : newsz < KERNBASE)
  (hfree : ∀ v, oldsz ≤ v * PGSIZE → v * PGSIZE < newsz → umem s d v = none)

include hW hsz hfree

/-- Out of memory: what was added is removed. -/
lemma rollback_spec {H' : Set ℕ} (h₁ : Space s₁ d H' W)
    (hm₁ : ∀ v, v * PGSIZE < oldsz ∨ newsz ≤ v * PGSIZE → umem s₁ d v = umem s d v) :
    Post (discard <| deallocuvm L d newsz oldsz) s₁
      (fun _ s' => Evolved d H' W s₁ s' ∧ umem s' d = umem s d) E := by
  rw [post_discard]
  refine (deallocuvm_spec hW hsz.le h₁).imp ?_
  rintro r s' ⟨-, hev, hmem⟩
  refine ⟨hev, funext fun v => ?_⟩
  rw [hmem v]
  split
  · next h => exact (hfree v h.1 h.2).symm
  · next h => exact hm₁ v (by omega)

/-- **The loop of `allocuvm`** when the pages below `lo` have been added. -/
lemma allocLoop_spec {fuel lo : ℕ} (hlo : oldsz ≤ lo * PGSIZE)
    (hfuel : newsz ≤ (lo + fuel) * PGSIZE) (hev : Evolved d H W s s₁)
    (hmem : ∀ v, umem s₁ d v = if oldsz ≤ v * PGSIZE ∧ v * PGSIZE < newsz ∧ v < lo
      then some (7, zeroPage) else umem s d v) :
    Post (allocLoop L d oldsz newsz fuel (lo * PGSIZE)) s₁ (Alloc d oldsz newsz H W s) E := by
  -- All pages have been added.
  have hdone : ∀ {lo s₁}, Evolved d H W s s₁ → (∀ v, umem s₁ d v =
      if oldsz ≤ v * PGSIZE ∧ v * PGSIZE < newsz ∧ v < lo then some (7, zeroPage) else umem s d v) →
      newsz ≤ lo * PGSIZE → Alloc d oldsz newsz H W s newsz s₁ := by
    intro lo s₁ hev hmem hle
    refine .grown hev fun v => ?_
    have hiff : v * PGSIZE < newsz ∧ v < lo ↔ v * PGSIZE < newsz :=
      ⟨And.left, fun hlt => ⟨hlt, Nat.lt_of_mul_lt_mul_right (hlt.trans_le hle)⟩⟩
    simp only [hmem v, hiff]
  -- The pages outside the range have not been touched.
  have hout : ∀ {lo s₁}, (∀ v, umem s₁ d v =
      if oldsz ≤ v * PGSIZE ∧ v * PGSIZE < newsz ∧ v < lo then some (7, zeroPage) else umem s d v) →
      ∀ v, v * PGSIZE < oldsz ∨ newsz ≤ v * PGSIZE → umem s₁ d v = umem s d v := by
    intro lo s₁ hmem v hv
    rw [hmem v, if_neg (by omega)]
  -- There is nothing above the new size.
  have habove : ∀ {lo s₁}, (∀ v, umem s₁ d v =
      if oldsz ≤ v * PGSIZE ∧ v * PGSIZE < newsz ∧ v < lo then some (7, zeroPage) else umem s d v) →
      ∀ k, newsz ≤ k * PGSIZE → (∀ v, k ≤ v → umem s d v = none) → ∀ v, k ≤ v →
        umem s₁ d v = none := by
    intro lo s₁ hmem k hk hnone v hv
    have hle := Nat.mul_le_mul_right PGSIZE hv
    rw [hmem v, if_neg (by omega), hnone v hv]
  induction fuel generalizing lo s₁ with
  | zero => exact hdone hev hmem (by simpa using hfuel)
  | succ fuel ih =>
    rw [allocLoop]
    refine post_ite.mpr ⟨fun hlt => ?_, fun hge => hdone hev hmem (not_lt.mp hge)⟩
    have hlo' : lo < UPAGES := by
      simp only [UPAGES, KERNBASE, PGSIZE] at *
      omega
    have hnext := next_page (lt_of_le_of_lt (Nat.succ_le_of_lt hlo') (by decide))
    refine kalloc_spec.seq ?_
    rintro _ s₂ ⟨hs₂, ⟨rfl, hlist, hnil⟩ | ⟨n, rfl, hlist⟩⟩
    · obtain ⟨hev₂, hmem₂⟩ := hev.space.same hs₂ hlist
      refine Post.seq (rollback_spec hW hsz hfree hev₂.space (hmem₂ ▸ hout hmem)) ?_
      rintro _ s' ⟨hev', hmem'⟩
      refine .failed ((hev.trans hev₂).trans hev') hmem' fun hworks k hk hnone => ?_
      exact (hev₂.space.crowded (hmem₂ ▸ habove hmem k hk hnone)
        (hnil (hev.frame.works hworks))).mono k.le_succ
    · have htaken := hev.space.taken hs₂ hlist zeroPage
      have hvalid := hW n (hev.space.mem_of_free htaken.free)
      have hno : umem { s₂ with page := update s₂.page n zeroPage } d lo = none := by
        rw [htaken.mem, hmem lo, if_neg (by omega)]
        exact hfree lo hlo hlt
      dsimp only
      rw [post_bind, post_setPage, mappages_page (lt_of_lt_of_le hlo' (by decide))]
      refine (mapUser_spec hW htaken.space htaken.notMem hlo' hno (by decide)).seq ?_
      intro ok s₃ hmap
      cases hmap with
      | failed hev₃ hmem₃ hnil =>
        refine Post.seq (rollback_spec hW hsz hfree hev₃.space ?_) ?_
        · rw [hmem₃, htaken.mem]
          exact hout hmem
        rintro _ s₄ ⟨hev₄, hmem₄⟩
        obtain ⟨hev₅, hmem₅⟩ := hev₄.space.kfree_evolved htaken.notMem
        rw [post_bind, post_kfree hvalid]
        refine .failed ⟨hev₅.space, ?_, ?_⟩ (hmem₅.trans hmem₄) fun hworks k hk hnone => ?_
        · exact hev.kernel.trans
            (htaken.kernel.trans (hev₃.kernel.trans (hev₄.kernel.trans hev₅.kernel)))
        · have hsub := Set.subset_insert n H
          exact hev.frame.trans (htaken.frame.trans ((hev₃.frame.mono hsub).trans
            ((hev₄.frame.mono hsub).trans hev₅.frame)))
        · refine (hev₃.space.crowded ?_
            (hnil (htaken.frame.works (hev.frame.works hworks)))).of_insert
          rw [hmem₃, htaken.mem]
          exact habove hmem k hk hnone
      | mapped hev₃ hmem₃ =>
        rw [if_pos rfl, hnext]
        refine ih ?_ ?_ ⟨hev₃.space, ?_, ?_⟩ fun v => ?_
        · exact hlo.trans (Nat.mul_le_mul_right PGSIZE lo.le_succ)
        · rwa [Nat.add_right_comm lo 1 fuel, Nat.add_assoc lo fuel 1]
        · exact hev.kernel.trans (htaken.kernel.trans hev₃.kernel)
        · exact hev.frame.trans (htaken.frame.trans hev₃.frame)
        · rw [hmem₃, htaken.mem, htaken.page]
          by_cases hv : v = lo
          · subst hv
            rw [update_self, if_pos ⟨hlo, hlt, Nat.lt_succ_self v⟩]
            rfl
          · have hiff : v < lo + 1 ↔ v < lo := by omega
            rw [update_of_ne hv, hmem v]
            simp only [hiff]

end Alloc

/-- **`allocuvm`** where the new pages are not mapped. -/
lemma allocuvm_spec (hW : ∀ n ∈ W, L.Valid n) (h : Space s d H W) {oldsz newsz : ℕ}
    (hold : oldsz ≤ KERNBASE)
    (hfree : ∀ v, oldsz ≤ v * PGSIZE → v * PGSIZE < newsz → umem s d v = none) :
    Post (allocuvm L d oldsz newsz) s
      (fun r s' => newsz < oldsz ∧ r = oldsz ∧ s' = s ∨
        oldsz ≤ newsz ∧ newsz < KERNBASE ∧ Alloc d oldsz newsz H W s r s' ∨
        KERNBASE ≤ newsz ∧ r = 0 ∧ s' = s) E := by
  rw [allocuvm]
  refine post_ite.mpr ⟨fun hbig => .inr (.inr ⟨hbig, rfl, rfl⟩), fun hsmall => ?_⟩
  refine post_ite.mpr ⟨fun hlt => .inl ⟨hlt, rfl, rfl⟩, fun hge => ?_⟩
  rw [not_le] at hsmall
  rw [not_lt] at hge
  rw [PGROUNDUP_eq (by simp only [KERNBASE, PGSIZE] at *; omega)]
  refine (allocLoop_spec hW hsmall hfree ?_ ?_ (.refl h) fun v => ?_).imp
    fun _ _ hr => .inr (.inl ⟨hge, hsmall, hr⟩)
  · simp only [PGSIZE]
    omega
  · simp only [PGSIZE]
    omega
  · rw [if_neg]
    rintro ⟨hv, -, hlt⟩
    simp only [PGSIZE] at *
    omega

/-! ### The size of a process -/

/-- **A process of the size `sz`**: exactly the user pages below it are mapped. -/
def Mapped (s : Phys) (d sz : ℕ) : Prop := ∀ v, umem s d v ≠ none ↔ v * PGSIZE < sz

lemma Mapped.none {sz : ℕ} (h : Mapped s d sz) (hv : sz ≤ v * PGSIZE) : umem s d v = none :=
  not_not.mp fun hne => absurd ((h v).mp hne) (not_lt.mpr hv)

/-- **The effect that `growproc` reports**: the size changes by `n`, the pages that stay keep their
contents and new ones are zero; or nothing changes. -/
def Reported (d sz : ℕ) (n : ℤ) (s s' : Phys) : Option ℕ → Prop
  | some sz' => (sz' : ℤ) = sz + n ∧ sz' < KERNBASE ∧ Mapped s' d sz' ∧
      (∀ v, v * PGSIZE < sz → v * PGSIZE < sz' → umem s' d v = umem s d v) ∧
      ∀ v, sz ≤ v * PGSIZE → v * PGSIZE < sz' → umem s' d v = some (7, zeroPage)
  | none => umem s' d = umem s d

section Growproc

variable {sz : ℕ} {z : ℤ} (hW : ∀ n ∈ W, L.Valid n) (h : Space s d H W) (hsz : sz < KERNBASE)
  (hmap : Mapped s d sz)

include hW h hsz hmap

lemma growproc_grows (hpos : 0 < z) (hlt : z < 2 ^ 31) :
    Post (growproc L d sz z) s (fun r s' => Evolved d H W s s' ∧ Reported d sz z s s' r) E := by
  have hnew : (((sz : ℤ) + z) % 2 ^ 32).toNat = sz + z.toNat := by
    simp only [KERNBASE] at hsz
    omega
  rw [growproc]
  simp only [hnew, if_pos hpos]
  refine (allocuvm_spec hW h hsz.le fun v hv _ => hmap.none hv).seq ?_
  rintro r s' (⟨hlt', -, -⟩ | ⟨-, hbound, hr⟩ | ⟨-, rfl, rfl⟩)
  · omega
  · cases hr with
    | failed hev hmem _ => exact ⟨hev, hmem⟩
    | grown hev hmem =>
      rw [if_neg (by omega)]
      refine ⟨hev, by push_cast; omega, hbound, fun v => ?_, fun v hv _ => ?_, fun v hv hv' => ?_⟩
      · rw [hmem v]
        split
        · next hin => simp [hin.2]
        · next hout => rw [hmap v]; omega
      · rw [hmem v, if_neg (by omega)]
      · rw [hmem v, if_pos ⟨hv, hv'⟩]
  · exact ⟨.refl h, rfl⟩

lemma growproc_shrinks (hneg : z < 0) (hge : -2 ^ 31 ≤ z) :
    Post (growproc L d sz z) s
      (fun r s' => Evolved d H W s s' ∧ (Reported d sz z s s' r ↔ -z < sz ∨ sz = 0)) E := by
  rw [growproc]
  simp only [if_neg (not_lt.mpr hneg.le), if_pos hneg]
  refine (deallocuvm_spec hW hsz.le h).seq ?_
  rintro r s' ⟨rfl, hev, hmem⟩
  refine ⟨hev, ?_⟩
  simp only [KERNBASE] at hsz
  rcases lt_trichotomy (-z) (sz : ℤ) with hlt | heq | hgt
  · -- A smaller size that is not zero.
    have hnew : (((sz : ℤ) + z) % 2 ^ 32).toNat = sz - (-z).toNat := by omega
    rw [hnew] at hmem ⊢
    rw [min_eq_right (by omega), if_neg (by omega)]
    refine iff_of_true ⟨by omega, by simp only [KERNBASE]; omega, fun v => ?_, fun v hv hv' => ?_,
      fun v hv hv' => by omega⟩ (.inl hlt)
    · rw [hmem v]
      split
      · next hin => simp only [ne_eq, not_true_eq_false, false_iff]; omega
      · next hout => rw [hmap v]; omega
    · rw [hmem v, if_neg (by omega)]
  · -- Everything is freed, and the size 0 is taken for a failure.
    have hnew : (((sz : ℤ) + z) % 2 ^ 32).toNat = 0 := by omega
    rw [hnew] at hmem ⊢
    rw [Nat.min_zero, if_pos rfl]
    refine iff_of_false (fun hrep => ?_) (by omega)
    have hpos : 0 * PGSIZE < sz := by
      rw [Nat.zero_mul]
      omega
    have hzero : umem s' d 0 = none := by
      rw [hmem 0, if_pos ⟨Nat.zero_le _, hpos⟩]
    exact (hmap 0).mpr hpos (by rw [← hrep, hzero])
  · -- The new size wraps around.
    have hle : sz ≤ (((sz : ℤ) + z) % 2 ^ 32).toNat := by omega
    have hsame : umem s' d = umem s d := funext fun v => by rw [hmem v, if_neg (by omega)]
    rw [min_eq_left hle]
    by_cases hzero : sz = 0
    · rw [if_pos hzero]
      exact iff_of_true hsame (.inr hzero)
    · rw [if_neg hzero]
      refine iff_of_false (fun hrep => ?_) (by omega)
      have := hrep.1
      omega

/-- The pages of a process that changes its size. -/
lemma growproc_evolved (hge : -2 ^ 31 ≤ z) (hlt : z < 2 ^ 31) :
    Post (growproc L d sz z) s
      (fun r s' => Evolved d H W s s' ∧ (Reported d sz z s s' r ↔ 0 ≤ z ∨ -z < sz ∨ sz = 0)) E := by
  rcases lt_trichotomy z 0 with hneg | rfl | hpos
  · refine (growproc_shrinks hW h hsz hmap hneg hge).imp fun r s' hr => ⟨hr.1, ?_⟩
    rw [hr.2]
    omega
  · refine ⟨.refl h, iff_of_true ⟨by simp, hsz, hmap, fun _ _ _ => rfl, fun v hv hv' => ?_⟩
      (.inl le_rfl)⟩
    omega
  · refine (growproc_grows hW h hsz hmap hpos hlt).imp fun r s' hr => ⟨hr.1, ?_⟩
    exact iff_of_true hr.2 (.inl hpos.le)

end Growproc

/-- **`growproc` has the effect that it reports** exactly if it does not free the whole memory, or
more than there is, of a process that has some. -/
theorem growproc_exact {sz : ℕ} {z : ℤ} (hW : ∀ n ∈ W, L.Valid n) (h : Space s d H W)
    (hsz : sz < KERNBASE) (hmap : Mapped s d sz) (hge : -2 ^ 31 ≤ z) (hlt : z < 2 ^ 31) :
    ∃ r s', growproc L d sz z s = .ok r s' ∧
      (Reported d sz z s s' r ↔ 0 ≤ z ∨ -z < sz ∨ sz = 0) := by
  obtain ⟨r, s', hrun, hr⟩ := (growproc_evolved (E := fun _ _ => False) hW h hsz hmap hge hlt).total
    fun _ _ => id
  exact ⟨r, s', hrun, hr.2⟩

/-! ### A small memory -/

lemma table_zeroPage (hz : s.page d = zeroPage) (i : ℕ) : table s d i = none := by
  refine table_none ?_
  rw [hz]
  exact congrArg (· &&& PTE_P) (word_zero i)

/-- An empty page directory. -/
lemma pageAt_zeroPage (hz : s.page d = zeroPage) :
    pageAt s d = update (fun _ => none) .dir (some d) := by
  funext p
  cases p with
  | dir => rfl
  | table i => exact table_zeroPage hz i
  | user v => exact umem_none.mp (umem_of_no_table (table_zeroPage hz _))

/-- A kernel that ends at 3 MB. -/
def smallKernel : Layout where
  data := 0x200000
  kend := 0x300000
  aligned := by decide
  text := by decide
  data_le := by decide
  kend_le := by decide

/-- An empty page directory in the page `0x2000`, and three free pages. -/
def emptyDir : Phys where
  page := fun _ _ => 0
  freelist := [0x2001, 0x2002, 0x2003]
  fails := fun _ => false

/-- An empty page directory in the page `0x2000`, and 2000 free pages. -/
def roomyDir (fails : ℕ → Bool) : Phys :=
  { emptyDir with freelist := List.range' 0x2001 2000, fails := fails }

/-- An empty page directory, and free pages. -/
lemma space_zeroPage {ps : List ℕ} (hz : s.page d = zeroPage) (hps : s.freelist = ps)
    (hnodup : (d :: ps).Nodup) : Space s d ∅ {n | n ∈ d :: ps} := by
  have hpool : Holdings (fun _ : Place => none) (d :: ps) ∅ {n | n ∈ d :: ps} :=
    ⟨fun _ _ _ h => (by cases h), hnodup, fun _ _ _ h => (by cases h), fun _ _ h => h.elim,
      fun _ h => h.elim, fun n => by simp⟩
  rw [Space, pageAt_zeroPage hz, hps]
  exact hpool.take.place (Set.notMem_empty _) rfl

lemma space_emptyDir : Space emptyDir 0x2000 ∅ {0x2000, 0x2001, 0x2002, 0x2003} := by
  have h := space_zeroPage (s := emptyDir) (d := 0x2000) rfl rfl (by decide)
  rwa [show {n | n ∈ 0x2000 :: emptyDir.freelist} = ({0x2000, 0x2001, 0x2002, 0x2003} : Set ℕ) by
    ext n; simp [emptyDir]] at h

lemma valid_small : ∀ n ∈ ({0x2000, 0x2001, 0x2002, 0x2003} : Set ℕ), smallKernel.Valid n := by
  rintro n (rfl | rfl | rfl | rfl)
  all_goals exact ⟨by decide, by decide⟩

/-- The pages of `roomyDir`. -/
def roomyPages : Set ℕ := {n | n ∈ List.range' 0x2000 2001}

lemma space_roomyDir (fails : ℕ → Bool) : Space (roomyDir fails) 0x2000 ∅ roomyPages :=
  space_zeroPage rfl rfl (List.nodup_range' (n := 2001))

lemma valid_roomy : ∀ n ∈ roomyPages, smallKernel.Valid n := fun n hn => by
  have hn := List.mem_range'_1.mp hn
  simp only [Layout.Valid, smallKernel, PGSIZE, PHYSTOP]
  omega

lemma mapped_zeroPage (hz : s.page d = zeroPage) : Mapped s d 0 := fun v => by
  rw [umem_of_no_table (table_zeroPage hz _)]
  simp

/-- An empty process grows by a page. -/
theorem growproc_exact_page : ∃ r s', growproc smallKernel 0x2000 0 4096 emptyDir = .ok r s' ∧
    Reported 0x2000 0 4096 emptyDir s' r := by
  obtain ⟨r, s', hrun, hr⟩ :=
    growproc_exact valid_small space_emptyDir (by decide) (mapped_zeroPage rfl)
    (by decide : -2 ^ 31 ≤ (4096 : ℤ)) (by decide)
  exact ⟨r, s', hrun, hr.mpr (.inl (by decide))⟩

/-- **The whole memory is freed and -1 is returned; more than the whole memory is not freed and 0 is
returned.** -/
theorem growproc_all : ∃ s, growproc smallKernel 0x2000 0 4096 emptyDir = .ok (some 4096) s ∧
    upage s 0x2000 0 ≠ none ∧
    (∃ s', growproc smallKernel 0x2000 4096 (-4096) s = .ok none s' ∧ upage s' 0x2000 0 = none) ∧
    ∃ s', growproc smallKernel 0x2000 4096 (-8192) s = .ok (some 4096) s' := by
  decide +kernel

end Xv6.Vm
