import Xv6.Vm.Copy

/-!
Writing to the user memory of another address space (`clearpteu`, `uva2ka`, `copyout`).

* `Space.setUser`: the contents of a user page are changed.
* `clearpteu_spec`: a guard page.
* `post_uva2ka`: the page at a user address; the code follows a null pointer if there is no page
  table.
* `copyout_page`, `copyout_denied`, `copyout_missing`, `copyout_crosses`: bytes that go into one
  page, to a page that user code may not use, to where there is no page table, and across such a
  page.
-/

namespace Xv6.Vm

open Transition Function

variable {L : Layout} {s s' : Phys} {d n v va f : ℕ} {pg : Page} {H W : Set ℕ}
  {E : Stop → Phys → Prop} {buf : List UInt8}

/-! ### User pages -/

/-- The contents of a user page are changed. -/
lemma Space.setUser (h : Space s d H W) (hn : upage s d v = some n) (pg : Page) :
    Evolved d H W s { s with page := update s.page n pg } ∧
      umem { s with page := update s.page n pg } d
        = update (umem s d) v (some (ent s d v % PGSIZE, pg)) := by
  obtain ⟨hent, hplaces⟩ := pageAt_update (fun q hq => ⟨v, h.inj q (.user v) n hq hn⟩) pg
  have htab : ∀ i, table { s with page := update s.page n pg } d i = table s d i := fun i =>
    congrFun hplaces (.table i)
  refine ⟨⟨?_, ⟨fun i _ => htab i, fun u _ => by rw [hent]⟩, fun k hk => ?_, id⟩,
    funext fun u => ?_⟩
  · rw [Space, hplaces]
    exact h
  · exact update_of_ne (h.ne_of_frame (p := Place.user v) hk hn) ..
  · have hup : upage { s with page := update s.page n pg } d u = upage s d u :=
      congrFun hplaces (.user u)
    rw [umem, hup, hent]
    by_cases hu : u = v
    · subst hu
      rw [update_self, hn, Option.map_some]
      exact congrArg (fun p => some (ent s d u % PGSIZE, p)) (update_self ..)
    · rw [update_of_ne hu, umem]
      cases hk : upage s d u with
      | none => rfl
      | some k =>
        have hne : k ≠ n :=
          h.ne_of_hold (p := Place.user u) (q := Place.user v) hk hn (by simpa using hu)
        rw [Option.map_some, Option.map_some]
        exact congrArg (fun p => some (ent s d u % PGSIZE, p)) (update_of_ne hne ..)

/-- What a mapped user page is in the page table. -/
structure UserPage (s : Phys) (d v f : ℕ) (pg : Page) (t : ℕ) : Prop where
  lt : v < UPAGES
  table : table s d (v / NPTENTRIES) = some t
  present : ent s d v &&& PTE_P ≠ 0
  page : upage s d v = some (ent s d v / PGSIZE)
  flags : ent s d v % PGSIZE = f
  contents : s.page (ent s d v / PGSIZE) = pg

lemma exists_userPage (h : umem s d v = some (f, pg)) : ∃ t, UserPage s d v f pg t := by
  obtain ⟨hv, hpres, hmem⟩ := umem_some (by rw [h]; exact Option.some_ne_none _)
  obtain ⟨t, ht⟩ := exists_table hpres
  rw [h] at hmem
  cases hmem
  exact ⟨t, hv, ht, hpres, upage_some.mpr ⟨hv, hpres, rfl⟩, rfl, rfl⟩

/-! ### Flags -/

/-- A flag of an entry is one of its low bits. -/
lemma flag_mod (e : ℕ) : e &&& PTE_U = e % PGSIZE &&& PTE_U := by
  have h := Nat.and_mod_two_pow (a := e) (b := PTE_U) (n := 12)
  rw [show PTE_U % 2 ^ 12 = PTE_U from rfl, Nat.mod_eq_of_lt] at h
  · exact h
  · exact lt_of_le_of_lt Nat.and_le_right (by decide)

/-- The entry without `PTE_U`. -/
lemma clear_user {e : ℕ} (he : e < 2 ^ 32) :
    (e &&& (2 ^ 32 - 1 - PTE_U)) / PGSIZE = e / PGSIZE ∧
      (e &&& (2 ^ 32 - 1 - PTE_U)) % PGSIZE = e % PGSIZE &&& (PGSIZE - 1 - PTE_U) ∧
      (e &&& (2 ^ 32 - 1 - PTE_U)) &&& PTE_P = e &&& PTE_P := by
  refine ⟨?_, ?_, ?_⟩
  · rw [show PGSIZE = 2 ^ 12 from rfl, Nat.and_div_two_pow,
      show (2 ^ 32 - 1 - PTE_U) / 2 ^ 12 = 2 ^ 20 - 1 from rfl, Nat.and_two_pow_sub_one_eq_mod]
    exact Nat.mod_eq_of_lt (by omega)
  · rw [show PGSIZE = 2 ^ 12 from rfl, Nat.and_mod_two_pow]
    rfl
  · rw [Nat.and_assoc]
    rfl

/-- **`clearpteu`** -/
lemma clearpteu_spec (h : Space s d H W) (hmem : umem s d v = some (f, pg)) :
    Post (clearpteu d (v * PGSIZE)) s
      (fun _ s' => Evolved d H W s s' ∧
        umem s' d = update (umem s d) v (some (f &&& (PGSIZE - 1 - PTE_U), pg))) E := by
  obtain ⟨t, hpage⟩ := exists_userPage hmem
  obtain ⟨hdiv, hmod, hp⟩ := clear_user (ent_lt (s := s) (d := d) v)
  have hlt : ent s d v &&& (2 ^ 32 - 1 - PTE_U) < 2 ^ 32 :=
    lt_of_le_of_lt Nat.and_le_left (ent_lt v)
  have hent := h.setEntry_ent hpage.table hlt
  have hpres : (ent s d v &&& (2 ^ 32 - 1 - PTE_U)) &&& PTE_P ≠ 0 := by
    rw [hp]
    exact hpage.present
  have hplaces : pageAt (s.setEntry t (v % NPTENTRIES) (ent s d v &&& (2 ^ 32 - 1 - PTE_U))) d
      = pageAt s d := by
    rw [h.pageAt_setEntry hpage.lt hpage.table hlt, if_pos hpres, hdiv, ← hpage.page, ← pageAt_user,
      update_eq_self]
  rw [clearpteu, post_bind, post_walk, PDX_page (lt_of_lt_of_le hpage.lt (by decide)), hpage.table]
  dsimp only [Option.map_some]
  rw [post_bind, post_loadEntry, post_storeEntry, PTX_page, ← ent_of_table hpage.table]
  refine ⟨⟨?_, h.setEntry_sameKernel hpage.lt hpage.table hlt, h.setEntry_frame hpage.table⟩,
    funext fun u => ?_⟩
  · change Holdings (pageAt (s.setEntry t (v % NPTENTRIES) _) d) s.freelist H W
    rw [hplaces]
    exact h
  · have hup : upage (s.setEntry t (v % NPTENTRIES) (ent s d v &&& (2 ^ 32 - 1 - PTE_U))) d u
        = upage s d u := congrFun hplaces (.user u)
    rw [umem, hup, hent]
    by_cases hu : u = v
    · subst hu
      rw [hpage.page, Option.map_some, update_self, update_self, hmod, hpage.flags,
        h.setEntry_user hpage.table hpage.page, hpage.contents]
    · rw [update_of_ne hu, update_of_ne hu, umem]
      cases hk : upage s d u with
      | none => rfl
      | some k => rw [Option.map_some, Option.map_some, h.setEntry_user hpage.table hk]

/-! ### The page at a user address -/

/-- **`uva2ka`** -/
lemma post_uva2ka (hv : v < 2 ^ 20) {Q : Option ℕ → Phys → Prop} :
    Post (uva2ka d (v * PGSIZE)) s Q E ↔ match table s d (v / NPTENTRIES) with
      | none => E .nullPte s
      | some _ => if ent s d v &&& PTE_P = 0 ∨ ent s d v &&& PTE_U = 0 then Q none s
          else Q (some (ent s d v / PGSIZE)) s := by
  rw [uva2ka, post_bind, post_walk, PDX_page hv]
  cases ht : table s d (v / NPTENTRIES) with
  | none => rfl
  | some t =>
    dsimp only [Option.map_some]
    rw [post_bind, post_loadEntry, PTX_page, ← ent_of_table ht]
    by_cases hp : ent s d v &&& PTE_P = 0
    · rw [if_pos hp, if_pos (.inl hp)]
      rfl
    · by_cases hu : ent s d v &&& PTE_U = 0
      · rw [if_neg hp, if_pos hu, if_pos (.inr hu)]
        rfl
      · rw [if_neg hp, if_neg hu, if_neg (not_or.mpr ⟨hp, hu⟩)]
        rfl

/-- User code may not use the page, but there is a page table. -/
def Denied (s : Phys) (d v : ℕ) : Prop :=
  table s d (v / NPTENTRIES) ≠ none ∧ (ent s d v &&& PTE_P = 0 ∨ ent s d v &&& PTE_U = 0)

/-! ### `copyout` -/

lemma length_pos_of_ne (hbuf : buf ≠ []) : 0 < buf.length := List.length_pos_iff.mpr hbuf

variable {Q : Bool → Phys → Prop}

/-- One round of `copyout`. -/
lemma post_copyoutLoop (fuel : ℕ) (hbuf : buf ≠ []) :
    Post (copyoutLoop d (fuel + 1) va buf) s Q E ↔
      Post (uva2ka d (va / PGSIZE * PGSIZE)) s (fun r s₁ => (r = none → Q false s₁) ∧ ∀ pa,
        r = some pa → Post (copyoutLoop d fuel ((va / PGSIZE * PGSIZE + PGSIZE) % 2 ^ 32)
          (buf.drop (min (PGSIZE - va % PGSIZE) buf.length)))
          { s₁ with page := update s₁.page pa (writeBytes (s₁.page pa) (va % PGSIZE)
            (buf.take (min (PGSIZE - va % PGSIZE) buf.length))) } Q E) E := by
  have hoff : va - va / PGSIZE * PGSIZE = va % PGSIZE := by
    rw [Nat.mod_def, Nat.mul_comm]
  rw [copyoutLoop, if_pos (length_pos_of_ne hbuf), post_bind, PGROUNDDOWN]
  simp only [hoff]
  constructor
  · intro h
    refine h.imp fun r s₁ hr => ?_
    cases r with
    | none => exact ⟨fun _ => hr, fun pa hpa => (by cases hpa)⟩
    | some pa =>
      refine ⟨fun hpa => (by cases hpa), fun pa' hpa => ?_⟩
      cases hpa
      exact hr
  · intro h
    refine h.imp fun r s₁ hr => ?_
    cases r with
    | none => exact hr.1 rfl
    | some pa => exact hr.2 pa rfl

lemma copyoutLoop_nil (fuel : ℕ) : copyoutLoop d fuel va [] = pure true := by
  cases fuel <;> rfl

/-- The loop of `copyout` at a page that user code may not use. -/
lemma copyoutLoop_denied (hva : va < 2 ^ 32) (hbuf : buf ≠ []) (fuel : ℕ)
    (hden : Denied s d (va / PGSIZE)) :
    Post (copyoutLoop d (fuel + 1) va buf) s (fun r s' => r = false ∧ s' = s) E := by
  have hv : va / PGSIZE < 2 ^ 20 := by
    simp only [PGSIZE]
    omega
  obtain ⟨t, ht⟩ := Option.ne_none_iff_exists'.mp hden.1
  rw [post_copyoutLoop _ hbuf, post_uva2ka hv, ht]
  dsimp only
  rw [if_pos hden.2]
  exact ⟨fun _ => ⟨rfl, rfl⟩, fun pa hpa => (by cases hpa)⟩

/-- **The first page is one that user code may not use.** -/
lemma copyout_denied (hva : va < 2 ^ 32) (hbuf : buf ≠ []) (hden : Denied s d (va / PGSIZE)) :
    Post (copyout d va buf) s (fun r s' => r = false ∧ s' = s) E := by
  rw [copyout, ← Nat.succ_pred_eq_of_pos (length_pos_of_ne hbuf)]
  exact copyoutLoop_denied hva hbuf _ hden

/-- **There is no page table for the first page**: a null pointer is followed. -/
lemma copyout_missing (hva : va < 2 ^ 32) (hbuf : buf ≠ [])
    (hmiss : table s d (va / PGSIZE / NPTENTRIES) = none) :
    copyout d va buf s = .error .nullPte s := by
  have hv : va / PGSIZE < 2 ^ 20 := by
    simp only [PGSIZE]
    omega
  have hpost : Post (copyout d va buf) s (fun _ _ => False) fun e s' => e = .nullPte ∧ s' = s := by
    rw [copyout, ← Nat.succ_pred_eq_of_pos (length_pos_of_ne hbuf), post_copyoutLoop _ hbuf,
      post_uva2ka hv, hmiss]
    exact ⟨rfl, rfl⟩
  unfold Post at hpost
  cases hrun : copyout d va buf s with
  | ok r s' =>
    rw [hrun] at hpost
    exact hpost.elim
  | error e s' =>
    rw [hrun] at hpost
    obtain ⟨rfl, rfl⟩ := hpost
    rfl

/-- One round of `copyout` in a page that user code may use. -/
lemma copyoutLoop_user (h : Space s d H W) (hva : va < 2 ^ 32) (hbuf : buf ≠ []) (fuel : ℕ)
    (hmem : umem s d (va / PGSIZE) = some (f, pg)) (hf : f &&& PTE_U ≠ 0) (hnext : ∀ s₁, Evolved d
      H W s s₁ → umem s₁ d = update (umem s d) (va / PGSIZE) (some (f, writeBytes pg (va % PGSIZE)
      (buf.take (PGSIZE - va % PGSIZE)))) → Post (copyoutLoop d fuel ((va / PGSIZE * PGSIZE +
      PGSIZE) % 2 ^ 32) (buf.drop (PGSIZE - va % PGSIZE))) s₁ Q E) :
    Post (copyoutLoop d (fuel + 1) va buf) s Q E := by
  have hv : va / PGSIZE < 2 ^ 20 := by
    simp only [PGSIZE]
    omega
  obtain ⟨t, hpage⟩ := exists_userPage hmem
  have huser : ¬(ent s d (va / PGSIZE) &&& PTE_P = 0 ∨ ent s d (va / PGSIZE) &&& PTE_U = 0) := by
    rw [flag_mod, hpage.flags]
    exact not_or.mpr ⟨hpage.present, hf⟩
  have htake : buf.take (min (PGSIZE - va % PGSIZE) buf.length)
      = buf.take (PGSIZE - va % PGSIZE) := by
    rcases Nat.le_total (PGSIZE - va % PGSIZE) buf.length with hle | hle
    · rw [Nat.min_eq_left hle]
    · rw [Nat.min_eq_right hle, List.take_length, List.take_of_length_le hle]
  have hdrop : buf.drop (min (PGSIZE - va % PGSIZE) buf.length)
      = buf.drop (PGSIZE - va % PGSIZE) := by
    rcases Nat.le_total (PGSIZE - va % PGSIZE) buf.length with hle | hle
    · rw [Nat.min_eq_left hle]
    · rw [Nat.min_eq_right hle, List.drop_length, List.drop_eq_nil_of_le hle]
  rw [post_copyoutLoop _ hbuf, post_uva2ka hv, hpage.table]
  dsimp only
  rw [if_neg huser, htake, hdrop]
  refine ⟨fun hpa => (by cases hpa), fun pa hpa => ?_⟩
  cases hpa
  rw [hpage.contents]
  obtain ⟨hev, hmem'⟩ := h.setUser hpage.page
    (writeBytes pg (va % PGSIZE) (buf.take (PGSIZE - va % PGSIZE)))
  rw [hpage.flags] at hmem'
  exact hnext _ hev hmem'

/-- **Bytes that go into one user page.** -/
lemma copyout_page (h : Space s d H W) (hva : va < 2 ^ 32)
    (hlen : va % PGSIZE + buf.length ≤ PGSIZE) (hmem : umem s d (va / PGSIZE) = some (f, pg))
    (hf : f &&& PTE_U ≠ 0) :
    Post (copyout d va buf) s
      (fun r s' => r = true ∧ Evolved d H W s s' ∧ umem s' d
        = update (umem s d) (va / PGSIZE) (some (f, writeBytes pg (va % PGSIZE) buf))) E := by
  by_cases hbuf : buf = []
  · subst hbuf
    refine ⟨rfl, .refl h, ?_⟩
    have hsame : writeBytes pg (va % PGSIZE) [] = pg := funext fun o => if_neg (by
      rw [List.length_nil]
      omega)
    rw [hsame, ← hmem, update_eq_self]
  · rw [copyout, ← Nat.succ_pred_eq_of_pos (length_pos_of_ne hbuf)]
    refine copyoutLoop_user h hva hbuf _ hmem hf fun s₁ hev hmem₁ => ?_
    rw [List.drop_eq_nil_of_le (by omega), copyoutLoop_nil]
    rw [List.take_of_length_le (by omega)] at hmem₁
    exact ⟨rfl, hev, hmem₁⟩

/-- A mapped page without `PTE_U`. -/
lemma denied_of_umem (hmem : umem s d v = some (f, pg)) (hf : f &&& PTE_U = 0) : Denied s d v := by
  obtain ⟨t, hpage⟩ := exists_userPage hmem
  refine ⟨by rw [hpage.table]; exact Option.some_ne_none t, .inr ?_⟩
  rw [flag_mod, hpage.flags, hf]

/-- **Bytes that go across a page that user code may not use**: all pages until there are mapped. -/
lemma copyoutLoop_crosses (h : Space s d H W) {fuel g : ℕ} (hfuel : buf.length ≤ fuel)
    (hva : va ≤ g * PGSIZE) (hcross : g * PGSIZE < va + buf.length)
    (hmap : ∀ u, u < g → umem s d u ≠ none) (hg : umem s d g = some (f, pg))
    (hf : f &&& PTE_U = 0) :
    Post (copyoutLoop d fuel va buf) s (fun r s' => r = false ∧ Evolved d H W s s') E := by
  induction fuel generalizing s va buf with
  | zero =>
    rw [Nat.le_zero, List.length_eq_zero_iff] at hfuel
    subst hfuel
    exact absurd hcross (not_lt.mpr hva)
  | succ fuel ih =>
    have hbuf : buf ≠ [] := by
      rintro rfl
      exact absurd hcross (not_lt.mpr hva)
    have hglt : g < UPAGES := (exists_userPage hg).choose_spec.lt
    have hva' : va < 2 ^ 32 := by
      simp only [UPAGES, KERNBASE, PGSIZE] at *
      omega
    have hstop : Denied s d (va / PGSIZE) →
        Post (copyoutLoop d (fuel + 1) va buf) s
          (fun r s' => r = false ∧ Evolved d H W s s') E := by
      intro hden
      refine (copyoutLoop_denied hva' hbuf fuel hden).imp ?_
      rintro r s' ⟨rfl, rfl⟩
      exact ⟨rfl, .refl h⟩
    rcases Nat.lt_or_ge (va / PGSIZE) g with hlt | hge
    · obtain ⟨⟨f', pg'⟩, hu⟩ := Option.ne_none_iff_exists'.mp (hmap _ hlt)
      by_cases hf' : f' &&& PTE_U = 0
      · exact hstop (denied_of_umem hu hf')
      · refine copyoutLoop_user h hva' hbuf fuel hu hf' fun s₁ hev hmem₁ => ?_
        have hnext : (va / PGSIZE * PGSIZE + PGSIZE) % 2 ^ 32 = (va / PGSIZE + 1) * PGSIZE :=
          next_page (by simp only [UPAGES, KERNBASE, PGSIZE] at *; omega)
        have hother : ∀ u, u ≠ va / PGSIZE → umem s₁ d u = umem s d u := fun u hne => by
          rw [hmem₁, update_of_ne hne]
        rw [hnext]
        refine (ih hev.space ?_ ?_ ?_ (fun u hu' => ?_) ?_).imp
          fun r s' hr => ⟨hr.1, hev.trans hr.2⟩
        · rw [List.length_drop]
          simp only [PGSIZE] at *
          omega
        · exact Nat.mul_le_mul_right PGSIZE hlt
        · rw [List.length_drop]
          simp only [PGSIZE] at *
          omega
        · by_cases hne : u = va / PGSIZE
          · rw [hne, hmem₁, update_self]
            exact Option.some_ne_none _
          · rw [hother u hne]
            exact hmap u hu'
        · rw [hother g (by omega), hg]
    · have hpage : va / PGSIZE = g := by
        simp only [PGSIZE] at *
        omega
      exact hstop (hpage ▸ denied_of_umem hg hf)

lemma copyout_crosses (h : Space s d H W) {g : ℕ} (hva : va ≤ g * PGSIZE)
    (hcross : g * PGSIZE < va + buf.length) (hmap : ∀ u, u < g → umem s d u ≠ none)
    (hg : umem s d g = some (f, pg)) (hf : f &&& PTE_U = 0) :
    Post (copyout d va buf) s (fun r s' => r = false ∧ Evolved d H W s s') E :=
  copyoutLoop_crosses h le_rfl hva hcross hmap hg hf

end Xv6.Vm
