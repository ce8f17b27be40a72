import Xv6.Vm.Grow

/-!
Page directories are made and freed (`setupkvm`, `freevm`).

* `freevm_spec`: all pages of an address space go back to the allocator.
* `kent`, `KernelPart`: the kernel's mappings.
* `setupkvm_spec`: a page directory with the kernel's mappings and no user memory.
-/

namespace Xv6.Vm

open Transition Function

variable {L : Layout} {s s' : Phys} {d t n m i v : ℕ} {H W : Set ℕ} {E : Stop → Phys → Prop}

/-! ### Freeing an address space -/

/-- The pool without an address space. -/
abbrev Pool (s : Phys) (H W : Set ℕ) : Prop :=
  Holdings (fun _ : Place => none) s.freelist H W

/-- There are enough free pages. -/
lemma Pool.not_crowded {k : ℕ} (h : Pool s H W) (hk : 1 + NPDENTRIES + k < s.freelist.length) :
    ¬Crowded H W k := by
  have hcard := h.encard_free
  rw [Holdings.held_none, Set.union_empty] at hcard
  rw [Crowded, hcard, Nat.cast_le]
  exact not_le.mpr hk

/-- A page that is held is given back. -/
lemma kfree_frame (hn : n ∈ W) (hH : n ∉ H) :
    Frame H W s
      { s with page := update s.page n fun _ => 1, freelist := n :: s.freelist } := by
  refine ⟨fun k hk => update_of_ne ?_ .., id⟩
  rintro rfl
  exact hH (hk hn)

/-- What an address space without user memory holds while the page tables `is` are still to be
freed. -/
def holdLeft (s : Phys) (d : ℕ) (is : List ℕ) : Place → Option ℕ
  | .dir => some d
  | .table i => if i ∈ is then table s d i else none
  | .user _ => none

lemma holdLeft_range (hmem : ∀ v, umem s d v = none) :
    holdLeft s d (List.range NPDENTRIES) = pageAt s d := by
  funext p
  cases p with
  | dir => rfl
  | table i =>
    rw [holdLeft, pageAt_table]
    split
    · rfl
    · next hi =>
      rw [table, if_neg]
      exact fun hlt => hi (List.mem_range.mpr hlt.1)
  | user v => exact (umem_none.mp (hmem v)).symm

variable {is : List ℕ}

/-- A page table is freed, or there is none. -/
lemma holdLeft_of_cons (hi : i ∉ is) {x : Place → Option ℕ}
    (hx : ∀ p, p ≠ .table i → x p = holdLeft s d (i :: is) p) (hxi : x (.table i) = none) :
    x = holdLeft s d is := by
  funext p
  by_cases hp : p = .table i
  · subst hp
    rw [hxi, holdLeft, if_neg hi]
  · rw [hx p hp]
    cases p with
    | dir => rfl
    | user v => rfl
    | table j =>
      have hj : j ≠ i := fun heq => hp (by rw [heq])
      simp [holdLeft, hj]

/-- The invariant of the loop of `freevm`: the page directory has not been changed since `s`. -/
structure Freeing (s : Phys) (d : ℕ) (H W : Set ℕ) (is : List ℕ) (s' : Phys) : Prop where
  hold : Holdings (holdLeft s d is) s'.freelist H W
  frame : Frame H W s s'
  dir : s'.page d = s.page d
  nodup : is.Nodup
  lt : ∀ i ∈ is, i < NPDENTRIES

variable {s₁ : Phys}

lemma freeTable_spec (hW : ∀ n ∈ W, L.Valid n) (h : Freeing s d H W (i :: is) s₁) :
    Post (freeTable L d i) s₁ (fun _ => Freeing s d H W is) E := by
  obtain ⟨hnot, hnodup⟩ := List.nodup_cons.mp h.nodup
  have hi := h.lt i List.mem_cons_self
  have hlt : ∀ j ∈ is, j < NPDENTRIES := fun j hj => h.lt j (List.mem_cons_of_mem i hj)
  have hat : holdLeft s d (i :: is) (.table i) = table s d i := if_pos List.mem_cons_self
  rw [freeTable, post_bind, post_loadEntry, h.dir]
  refine post_ite.mpr ⟨fun hp => ?_, fun hp => ?_⟩
  · have htab := hat.trans (table_eq hi hp)
    have hmemW := h.hold.mem_of_hold htab
    have hH : word (s.page d) i / PGSIZE ∉ H := fun hmem => h.hold.held_hold _ hmem _ htab
    have hd : d ≠ word (s.page d) i / PGSIZE :=
      h.hold.ne_of_hold (p := Place.dir) (q := Place.table i) rfl htab (by simp)
    rw [post_kfree (hW _ hmemW)]
    refine ⟨?_, h.frame.trans (kfree_frame hmemW hH), ?_, hnodup, hlt⟩
    · have hgive := (h.hold.unplace htab).give hH
      rwa [holdLeft_of_cons hnot (fun p hp => update_of_ne hp ..)
        (update_self ..)] at hgive
    · exact (update_of_ne hd ..).trans h.dir
  · refine ⟨?_, h.frame, h.dir, hnodup, hlt⟩
    rw [← holdLeft_of_cons hnot (fun _ _ => rfl) (hat.trans (table_none (not_not.mp hp)))]
    exact h.hold

lemma freeTables_spec (hW : ∀ n ∈ W, L.Valid n) (h : Freeing s d H W is s₁) :
    Post (is.forM (freeTable L d)) s₁ (fun _ => Freeing s d H W []) E :=
  Post.forM (I := Freeing s d H W) h fun _ _ _ hs₂ => freeTable_spec hW hs₂

/-- **`freevm`** gives all pages of an address space back. -/
lemma freevm_spec (hW : ∀ n ∈ W, L.Valid n) (h : Space s d H W) :
    Post (freevm L d) s (fun _ s' => Pool s' H W ∧ Frame H W s s') E := by
  rw [freevm, post_bind, post_discard]
  generalize his : List.range NPDENTRIES = is
  refine (deallocuvm_spec hW le_rfl h).imp fun _ s₁ hs₁ => ?_
  have hev := hs₁.2.1
  have hnone : ∀ v, umem s₁ d v = none := by
    intro v
    rw [hs₁.2.2 v]
    split
    · rfl
    · next hv =>
      rw [umem_none, upage, if_neg]
      rintro ⟨hlt, -⟩
      simp only [UPAGES, KERNBASE, PGSIZE] at *
      omega
  have hstart : Freeing s₁ d H W is s₁ := by
    subst his
    exact ⟨holdLeft_range hnone ▸ hev.space, .refl s₁, rfl, List.nodup_range,
      fun i hi => List.mem_range.mp hi⟩
  refine (freeTables_spec hW hstart).seq fun _ s₂ hs₂ => ?_
  obtain ⟨hhold, hframe, -, -, -⟩ := hs₂
  have hdir : holdLeft s₁ d [] .dir = some d := rfl
  have hmemW := hhold.mem_of_hold hdir
  have hH : d ∉ H := fun hmem => hhold.held_hold d hmem .dir hdir
  rw [post_kfree (hW d hmemW)]
  refine ⟨?_, (hev.frame.trans hframe).trans (kfree_frame hmemW hH)⟩
  have hgive := (hhold.unplace hdir).give hH
  have hempty : update (holdLeft s₁ d []) .dir none = fun _ => none := by
    funext p
    cases p with
    | dir => rfl
    | table i => simp [holdLeft]
    | user v => rfl
  rwa [hempty] at hgive

/-! ### The kernel's mappings -/

/-- Entries `e` with `m` pages from the page `n` on mapped from the virtual page `v` on. -/
def mapRange (v n m perm : ℕ) (e : ℕ → ℕ) : ℕ → ℕ := fun u =>
  if v ≤ u ∧ u < v + m then (n + (u - v)) * PGSIZE ||| perm ||| PTE_P else e u

/-- The change to an address space by mapping kernel pages. -/
structure KernelMapped (d : ℕ) (H W : Set ℕ) (s s' : Phys) : Prop where
  space : Space s' d H W
  frame : Frame H W s s'
  mem : umem s' d = umem s d

lemma KernelMapped.trans {s₂ s₃ : Phys} (h : KernelMapped d H W s₁ s₂)
    (h' : KernelMapped d H W s₂ s₃) : KernelMapped d H W s₁ s₃ :=
  ⟨h'.space, h.frame.trans h'.frame, h'.mem.trans h.mem⟩

/-- Kernel pages are mapped, so that `P`, or there is no page for a page table. -/
inductive KernelMap (d : ℕ) (H W : Set ℕ) (s : Phys) (P : Phys → Prop) : Bool → Phys → Prop
  | failed {s' : Phys} (mapped : KernelMapped d H W s s') (out : s.Works → s'.freelist = []) :
      KernelMap d H W s P false s'
  | done {s' : Phys} (mapped : KernelMapped d H W s s') (range : P s') : KernelMap d H W s P true s'

lemma KernelMap.after {P Q : Phys → Prop} {ok : Bool} (hk : KernelMapped d H W s s₁)
    (h : KernelMap d H W s₁ P ok s') (hPQ : P s' → Q s') : KernelMap d H W s Q ok s' := by
  cases h with
  | failed hk' hout => exact .failed (hk.trans hk') (hout ∘ hk.frame.works)
  | done hk' hp => exact .done (hk.trans hk') (hPQ hp)

/-- What is mapped by `m` pages from the virtual page `v` on. -/
structure RangeMapped (d v n m perm : ℕ) (s s' : Phys) : Prop where
  ent : ent s' d = mapRange v n m perm (Vm.ent s d)
  table : ∀ i, table s' d i ≠ none ↔
    Vm.table s d i ≠ none ∨ ∃ u, v ≤ u ∧ u < v + m ∧ u / NPTENTRIES = i

variable {perm : ℕ}

/-- A kernel page is mapped. -/
lemma mapKernel_spec (hW : ∀ n ∈ W, L.Valid n) (h : Space s d H W) (hv : UPAGES ≤ v)
    (hv' : v < 2 ^ 20) (hn : n < 2 ^ 20) (hperm : perm < PGSIZE) (hno : ent s d v &&& PTE_P = 0) :
    Post (mapPage d (v * PGSIZE) (n * PGSIZE) perm) s
      (KernelMap d H W s (RangeMapped d v n 1 perm s)) E := by
  refine (mapPage_spec hW h hv' hno _ perm).imp ?_
  rintro _ _ ⟨s₁, hw, ⟨rfl, rfl, hout⟩ | ⟨rfl, t, ht, rfl⟩⟩
  · exact .failed ⟨hw.space, hw.frame h, hw.umem h⟩ hout
  have hlt : n * PGSIZE ||| perm ||| PTE_P < 2 ^ 32 := by
    rw [Nat.or_assoc]
    exact entry_lt hn (or_present_lt hperm)
  have hent := hw.space.setEntry_ent ht hlt
  have htab := hw.space.setEntry_table (j := v % NPTENTRIES) ht (n * PGSIZE ||| perm ||| PTE_P)
  have hmem : umem (s₁.setEntry t (v % NPTENTRIES) (n * PGSIZE ||| perm ||| PTE_P)) d
      = umem s₁ d := by
    funext u
    by_cases hu : u = v
    · have hout : ∀ x : Phys, umem x d u = none := fun x => by
        rw [umem_none, upage, if_neg fun hlt => absurd hlt.1 (by omega)]
      rw [hout, hout]
    · have hup : upage (s₁.setEntry t (v % NPTENTRIES) (n * PGSIZE ||| perm ||| PTE_P)) d u
          = upage s₁ d u := by
        rw [upage, upage, hent, update_of_ne hu]
      rw [umem, umem, hup, hent, update_of_ne hu]
      cases hk : upage s₁ d u with
      | none => rfl
      | some k => rw [Option.map_some, Option.map_some, hw.space.setEntry_user ht hk]
  refine .done ⟨hw.space.setEntry_kernel hv ht hlt, (hw.frame h).trans (hw.space.setEntry_frame ht),
    hmem.trans (hw.umem h)⟩ ⟨?_, fun i => ?_⟩
  · funext u
    rw [hent, hw.ent, mapRange]
    by_cases hu : u = v
    · subst hu
      rw [update_self, if_pos ⟨le_rfl, Nat.lt_succ_self u⟩, Nat.sub_self, Nat.add_zero]
    · rw [update_of_ne hu, if_neg (by omega)]
  · rw [htab]
    by_cases hi : i = v / NPTENTRIES
    · subst hi
      rw [ht]
      exact iff_of_true (Option.some_ne_none t) (.inr ⟨v, le_rfl, Nat.lt_succ_self v, rfl⟩)
    · rw [hw.table i (by rwa [PDX_page hv'])]
      refine ⟨.inl, ?_⟩
      rintro (hne | ⟨u, hu, hu', rfl⟩)
      · exact hne
      · exact absurd (by rw [show u = v by omega]) hi

/-- **The loop of `mappages`** over kernel pages. -/
lemma mapLoop_spec (hW : ∀ n ∈ W, L.Valid n) (hperm : perm < PGSIZE)
    (h : Space s d H W) (hv : UPAGES ≤ v) (hv' : v + m < 2 ^ 20) (hn : n + m < 2 ^ 20)
    (hno : ∀ u, v ≤ u → u < v + (m + 1) → ent s d u &&& PTE_P = 0) :
    Post (mapLoop d perm m (v * PGSIZE) (n * PGSIZE)) s
      (KernelMap d H W s (RangeMapped d v n (m + 1) perm s)) E := by
  induction m generalizing v n s with
  | zero => exact mapKernel_spec hW h hv hv' hn hperm (hno v le_rfl (by omega))
  | succ m ih =>
    have hpage := mapKernel_spec (E := E) hW h hv (by omega) (by omega : n < 2 ^ 20) hperm
      (hno v le_rfl (by omega))
    refine hpage.seq ?_
    intro ok s₁ hmap
    cases hmap with
    | failed hk hout => exact .failed hk hout
    | done hk hr =>
      rw [if_pos rfl, next_page (by omega), next_page (by omega)]
      refine (ih hk.space (by omega) (by omega) (by omega) fun u hu hu' => ?_).imp
        fun ok s' hmap => hmap.after hk fun hs' => ?_
      · rw [hr.ent, mapRange, if_neg (by omega)]
        exact hno u (by omega) (by omega)
      · refine ⟨?_, fun i => ?_⟩
        · funext u
          rw [hs'.ent, hr.ent, mapRange, mapRange, mapRange]
          by_cases hu : v ≤ u ∧ u < v + (m + 1 + 1)
          · rw [if_pos hu]
            by_cases huv : u = v
            · subst huv
              rw [if_neg (by omega), if_pos (by omega)]
            · rw [if_pos (by omega), show n + 1 + (u - (v + 1)) = n + (u - v) by omega]
          · rw [if_neg hu, if_neg (by omega), if_neg (by omega)]
        · rw [hs'.table i, hr.table i]
          constructor
          · rintro ((hne | ⟨u, hu, hu', rfl⟩) | ⟨u, hu, hu', rfl⟩)
            · exact .inl hne
            · exact .inr ⟨u, hu, by omega, rfl⟩
            · exact .inr ⟨u, by omega, by omega, rfl⟩
          · rintro (hne | ⟨u, hu, hu', rfl⟩)
            · exact .inl (.inl hne)
            · by_cases huv : u = v
              · exact .inl (.inr ⟨u, hu, by omega, rfl⟩)
              · exact .inr ⟨u, by omega, by omega, rfl⟩

/-- `mappages` for `m + 1` pages. -/
lemma mappages_range (hv : v + m < 2 ^ 20) (pa perm : ℕ) :
    mappages d (v * PGSIZE) ((m + 1) * PGSIZE) pa perm = mapLoop d perm m (v * PGSIZE) pa := by
  have ha : PGROUNDDOWN (v * PGSIZE) = v * PGSIZE := by
    rw [PGROUNDDOWN, Nat.mul_div_cancel _ (by decide)]
  have hlast : PGROUNDDOWN ((v * PGSIZE + (m + 1) * PGSIZE + (2 ^ 32 - 1)) % 2 ^ 32)
      = (v + m) * PGSIZE := by
    simp only [PGROUNDDOWN, PGSIZE]
    omega
  have hcount : ((v + m) * PGSIZE + (2 ^ 32 - v * PGSIZE)) % 2 ^ 32 / PGSIZE = m := by
    simp only [PGSIZE]
    omega
  rw [mappages]
  simp only [ha, hlast, hcount]

/-- A row of the table `kmap`. -/
lemma kmapRow_spec (hW : ∀ n ∈ W, L.Valid n) (hperm : perm < PGSIZE)
    (h : Space s d H W) (hm : 0 < m) (hv : UPAGES ≤ v) (hv' : v + m ≤ 2 ^ 20) (hn : n + m ≤ 2 ^ 20)
    (hno : ∀ u, v ≤ u → u < v + m → ent s d u &&& PTE_P = 0) :
    Post (mappages d (v * PGSIZE) (m * PGSIZE) (n * PGSIZE) perm) s
      (KernelMap d H W s (RangeMapped d v n m perm s)) E := by
  obtain ⟨m, rfl⟩ := Nat.exists_eq_add_of_lt hm
  rw [Nat.zero_add] at hv' hn hno ⊢
  rw [mappages_range (by omega)]
  exact mapLoop_spec hW hperm h hv (by omega) (by omega) hno

/-- **The kernel's entries**: the rows of `kmap`. -/
def kent (L : Layout) : ℕ → ℕ :=
  let dp := L.data / PGSIZE
  mapRange 0xFE000 0xFE000 0x2000 PTE_W <|
    mapRange (0x80000 + dp) dp (0xE000 - dp) PTE_W <|
      mapRange 0x80100 0x100 (dp - 0x100) 0 <| mapRange 0x80000 0 0x100 PTE_W fun _ => 0

/-- **The kernel part of an address space** as `setupkvm` makes it. -/
structure KernelPart (L : Layout) (s : Phys) (d : ℕ) : Prop where
  ent : ∀ v, UPAGES ≤ v → ent s d v = kent L v
  table : ∀ i, UTABLES ≤ i → (table s d i ≠ none ↔ i < 568 ∨ 1016 ≤ i ∧ i < NPDENTRIES)

lemma KernelPart.same (h : KernelPart L s d) (hk : SameKernel d s s') : KernelPart L s' d :=
  ⟨fun v hv => (hk.ent v hv).trans (h.ent v hv), fun i hi => by rw [hk.table i hi, h.table i hi]⟩

/-- The page of the symbol `data`. -/
lemma Layout.exists_data (L : Layout) :
    ∃ p, L.data = p * PGSIZE ∧ 0x100 < p ∧ p < 0xE000 := by
  obtain ⟨p, hp⟩ := L.aligned
  have h₁ := L.text
  have h₂ := L.data_le
  have h₃ := L.kend_le
  refine ⟨p, hp.trans (Nat.mul_comm ..), ?_, ?_⟩
  · simp only [PGSIZE, EXTMEM] at *
    omega
  · simp only [PGSIZE, PHYSTOP] at *
    omega

/-- A row of the table, and then the others. -/
lemma kmapRow_bind {v n m : ℕ} {rest : VmM Bool} {P : Phys → Prop}
    (hrow : Post (mappages d (v * PGSIZE) (m * PGSIZE) (n * PGSIZE) perm) s
      (KernelMap d H W s (RangeMapped d v n m perm s)) E)
    (hrest : ∀ s₁, KernelMapped d H W s s₁ → RangeMapped d v n m perm s s₁ →
      Post rest s₁ (KernelMap d H W s₁ P) E) :
    Post (do
      if ← mappages d (v * PGSIZE) (m * PGSIZE) (n * PGSIZE) perm then rest else return false)
      s (KernelMap d H W s P) E := by
  refine hrow.seq fun ok s₁ hs₁ => ?_
  cases hs₁ with
  | failed hk hout => exact .failed hk hout
  | done hk hr => exact (hrest s₁ hk hr).imp fun ok s' hs' => hs'.after hk id

/-- The page tables that the rows of `kmap` use. -/
lemma kmap_tables {p : ℕ} (hlo : 0x100 < p) (hhi : p < 0xE000) (hi : UTABLES ≤ i) :
    ((((False ∨ ∃ u, 0x80000 ≤ u ∧ u < 0x80000 + 0x100 ∧ u / NPTENTRIES = i) ∨
      ∃ u, 0x80100 ≤ u ∧ u < 0x80100 + (p - 0x100) ∧ u / NPTENTRIES = i) ∨
      ∃ u, 0x80000 + p ≤ u ∧ u < 0x80000 + p + (0xE000 - p) ∧ u / NPTENTRIES = i) ∨
      ∃ u, 0xFE000 ≤ u ∧ u < 0xFE000 + 0x2000 ∧ u / NPTENTRIES = i) ↔
        i < 568 ∨ 1016 ≤ i ∧ i < NPDENTRIES := by
  simp only [UTABLES, UPAGES, KERNBASE, PGSIZE, NPTENTRIES, NPDENTRIES] at *
  constructor
  · rintro ((((hf | ⟨u, hu, hu', rfl⟩) | ⟨u, hu, hu', rfl⟩) | ⟨u, hu, hu', rfl⟩) |
      ⟨u, hu, hu', rfl⟩)
    · exact hf.elim
    all_goals omega
  · rintro (hlt | ⟨hge, hlt⟩)
    · -- The first page of the table lies in one of the first three rows.
      rcases Nat.lt_or_ge (i * 1024) 0x80100 with h₁ | h₁
      · exact .inl (.inl (.inl (.inr ⟨i * 1024, by omega, by omega, by omega⟩)))
      · rcases Nat.lt_or_ge (i * 1024) (0x80000 + p) with h₂ | h₂
        · exact .inl (.inl (.inr ⟨i * 1024, by omega, by omega, by omega⟩))
        · exact .inl (.inr ⟨i * 1024, by omega, by omega, by omega⟩)
    · exact .inr ⟨i * 1024, by omega, by omega, by omega⟩

/-- The kernel's mappings are made in an empty page directory. -/
lemma kmapLoop_spec (hW : ∀ n ∈ W, L.Valid n) (h : Space s d H W)
    (hent : ∀ v, ent s d v = 0) (htab : ∀ i, table s d i = none) :
    Post (kmapLoop d (kmap L)) s (KernelMap d H W s (KernelPart L · d)) E := by
  obtain ⟨p, hdata, hlo, hhi⟩ := L.exists_data
  have hp : L.data / PGSIZE = p := by rw [hdata, Nat.mul_div_cancel _ (by decide)]
  have hsize₂ : (p * PGSIZE + (2 ^ 32 - EXTMEM)) % 2 ^ 32 = (p - 0x100) * PGSIZE := by
    simp only [PGSIZE, EXTMEM]
    omega
  have hsize₃ : (PHYSTOP + (2 ^ 32 - p * PGSIZE)) % 2 ^ 32 = (0xE000 - p) * PGSIZE := by
    simp only [PGSIZE, PHYSTOP]
    omega
  have hvirt₃ : KERNBASE + p * PGSIZE = (0x80000 + p) * PGSIZE := by
    simp only [PGSIZE, KERNBASE]
    omega
  have hrows : kmapLoop d (kmap L) = do
      if ← mappages d (0x80000 * PGSIZE) (0x100 * PGSIZE) (0 * PGSIZE) PTE_W then
        if ← mappages d (0x80100 * PGSIZE) ((p - 0x100) * PGSIZE) (0x100 * PGSIZE) 0 then
          if ← mappages d ((0x80000 + p) * PGSIZE) ((0xE000 - p) * PGSIZE) (p * PGSIZE) PTE_W then
            if ← mappages d (0xFE000 * PGSIZE) (0x2000 * PGSIZE) (0xFE000 * PGSIZE) PTE_W then
              return true
            else return false
          else return false
        else return false
      else return false := by
    simp only [kmapLoop, kmap, hdata, hsize₂, hsize₃, hvirt₃]
    rfl
  rw [hrows]
  have hzero : ∀ {u}, ent s d u &&& PTE_P = 0 := by
    intro u
    rw [hent u]
    rfl
  refine kmapRow_bind (kmapRow_spec hW (by decide) h (by decide) (by decide) (by decide) (by decide)
    fun u _ _ => hzero) fun s₁ hk₁ hr₁ => ?_
  refine kmapRow_bind (kmapRow_spec hW (by decide) hk₁.space (by omega) (by decide)
    (by omega) (by omega) fun u hu hu' => ?_) fun s₂ hk₂ hr₂ => ?_
  · rw [hr₁.ent, mapRange, if_neg (by omega)]
    exact hzero
  have hge : UPAGES ≤ 0x80000 + p := Nat.le_add_right 0x80000 p
  refine kmapRow_bind (kmapRow_spec hW (by decide) hk₂.space (by omega) hge (by omega) (by omega)
    fun u hu hu' => ?_) fun s₃ hk₃ hr₃ => ?_
  · rw [hr₂.ent, hr₁.ent, mapRange, if_neg (by omega), mapRange, if_neg (by omega)]
    exact hzero
  refine kmapRow_bind (kmapRow_spec hW (by decide) hk₃.space (by decide) (by decide)
    (by decide) (by decide) fun u hu hu' => ?_) fun s₄ hk₄ hr₄ => ?_
  · rw [hr₃.ent, hr₂.ent, hr₁.ent, mapRange, if_neg (by omega), mapRange, if_neg (by omega),
      mapRange, if_neg (by omega)]
    exact hzero
  refine .done ⟨hk₄.space, .refl s₄, rfl⟩ ⟨fun v _ => ?_, fun i hi => ?_⟩
  · rw [hr₄.ent, hr₃.ent, hr₂.ent, hr₁.ent, show ent s d = fun _ => 0 from funext hent, kent, hp]
  · rw [hr₄.table i, hr₃.table i, hr₂.table i, hr₁.table i, htab i]
    simpa using kmap_tables hlo hhi hi

/-- What `setupkvm` makes. -/
inductive SetupKvm (L : Layout) (H W : Set ℕ) (s : Phys) : Option ℕ → Phys → Prop
  | failed {s' : Phys} (pool : Pool s' H W) (frame : Frame H W s s')
      (out : s.Works → Crowded H W 0) : SetupKvm L H W s none s'
  | made {s' : Phys} {d : ℕ} (space : Space s' d H W) (frame : Frame H W s s')
      (mem : ∀ v, umem s' d v = none) (kernel : KernelPart L s' d) : SetupKvm L H W s (some d) s'

/-- **`setupkvm`** -/
lemma setupkvm_spec (hW : ∀ n ∈ W, L.Valid n) (h : Pool s H W) :
    Post (setupkvm L) s (SetupKvm L H W s) E := by
  refine kalloc_spec.seq fun r s₁ hs₁ => ?_
  obtain ⟨⟨hpage, hworks⟩, ⟨rfl, hlist, hnil⟩ | ⟨d, rfl, hlist⟩⟩ := hs₁
  · have hpool : Pool s₁ H W := by
      rw [Pool, hlist]
      exact h
    refine .failed hpool ⟨fun n _ => by rw [hpage], hworks⟩ fun hw => ?_
    rw [Pool, hnil hw] at hpool
    exact (hpool.encard_le [] fun p n hp => (by cases hp)).trans (Nat.cast_le.mpr (Nat.zero_le _))
  have hmem : d ∈ s.freelist := by
    rw [hlist]
    exact List.mem_cons_self
  dsimp only
  rw [post_bind, post_setPage, if_neg (by decide)]
  generalize hs₂ : ({ s₁ with page := update s₁.page d fun _ => 0 } : Phys) = s₂
  have hzero : s₂.page d = zeroPage := by
    rw [← hs₂]
    exact update_self ..
  have hspace : Space s₂ d H W := by
    rw [Space, pageAt_zeroPage hzero, ← hs₂]
    exact (hlist ▸ h : Holdings _ (d :: s₁.freelist) H W).take.place (h.free_held d hmem) rfl
  have hframe : Frame H W s s₂ := by
    rw [← hs₂]
    refine ⟨fun n hn => (update_of_ne ?_ ..).trans (by rw [hpage]), hworks⟩
    rintro rfl
    exact h.free_held n hmem (hn (h.mem_of_free hmem))
  have htab := table_zeroPage hzero
  have hent : ∀ v, ent s₂ d v = 0 := fun v => ent_of_none (htab _)
  refine (kmapLoop_spec hW hspace hent htab).seq fun ok s₃ hs₃ => ?_
  have hnone : ∀ {s₃}, KernelMapped d H W s₂ s₃ → ∀ v, umem s₃ d v = none := by
    intro s₃ hk v
    rw [hk.mem]
    exact umem_of_no_table (htab _)
  cases hs₃ with
  | done hk hpart => exact .made hk.space (hframe.trans hk.frame) (hnone hk) hpart
  | failed hk hnil =>
    refine Post.seq (freevm_spec hW hk.space) fun _ s' hs' => ?_
    exact .failed hs'.1 ((hframe.trans hk.frame).trans hs'.2) fun hw =>
      hk.space.crowded (fun v _ => hnone hk v) (hnil (hframe.works hw))

end Xv6.Vm
