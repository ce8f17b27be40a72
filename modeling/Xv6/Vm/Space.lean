import Xv6.Transition.Hoare
import Xv6.Transition.Holdings
import Xv6.Vm.Memory

/-!
Address spaces (`walkpgdir`, `mappages`).

* `table`, `ent`, `umem`: what a page directory maps.
* `Place`, `pageAt`, `Space`: the pages that an address space consists of, each of them held once.
* `walkpgdir_spec`: a page table page is added.
* `mapPage_spec`, `mapUser_spec`: a page is mapped.
-/

namespace Xv6.Vm

open Transition Function

/-! ### Words and entries -/

lemma word_lt (p : Page) (i : ℕ) : word p i < 2 ^ 32 := by
  have h₀ := (p (4 * i)).toNat_lt
  have h₁ := (p (4 * i + 1)).toNat_lt
  have h₂ := (p (4 * i + 2)).toNat_lt
  have h₃ := (p (4 * i + 3)).toNat_lt
  unfold word
  omega

@[simp] lemma word_zero (i : ℕ) : word (fun _ => 0) i = 0 := rfl

variable {p : Page}

lemma setWord_apply {i w k : ℕ} (hk : k < 4) :
    setWord p i w (4 * i + k) = UInt8.ofNat (w / 2 ^ (8 * k)) := by
  have hdiv : (4 * i + k) / 4 = i := by omega
  have hmod : (4 * i + k) % 4 = k := by omega
  rw [setWord, if_pos hdiv, hmod]

lemma word_setWord_self {i w : ℕ} (hw : w < 2 ^ 32) : word (setWord p i w) i = w := by
  have h₀ : setWord p i w (4 * i) = UInt8.ofNat w := by
    simpa using setWord_apply (p := p) (i := i) (w := w) (k := 0) (by decide)
  rw [word, h₀, setWord_apply (by decide), setWord_apply (by decide), setWord_apply (by decide)]
  simp only [UInt8.toNat_ofNat']
  omega

lemma word_setWord_of_ne {i j w : ℕ} (h : j ≠ i) : word (setWord p i w) j = word p j := by
  have hne : ∀ k < 4, setWord p i w (4 * j + k) = p (4 * j + k) := fun k hk => by
    rw [setWord, if_neg (by omega)]
  have h₀ : setWord p i w (4 * j) = p (4 * j) := hne 0 (by decide)
  rw [word, word, h₀, hne 1 (by decide), hne 2 (by decide), hne 3 (by decide)]

variable {f : ℕ}

/-- The page of an entry. -/
lemma entry_div (n : ℕ) (hf : f < PGSIZE) : (n * PGSIZE ||| f) / PGSIZE = n := by
  have h := Nat.or_div_two_pow (a := n * PGSIZE) (b := f) (n := 12)
  rw [show (2 : ℕ) ^ 12 = PGSIZE from rfl] at h
  rw [h, Nat.mul_div_cancel _ (by decide), Nat.div_eq_of_lt hf, Nat.or_zero]

/-- The flags of an entry. -/
lemma entry_mod (n : ℕ) (hf : f < PGSIZE) : (n * PGSIZE ||| f) % PGSIZE = f := by
  have h := Nat.or_mod_two_pow (a := n * PGSIZE) (b := f) (n := 12)
  rw [show (2 : ℕ) ^ 12 = PGSIZE from rfl] at h
  rw [h, Nat.mul_mod_left, Nat.mod_eq_of_lt hf, Nat.zero_or]

lemma entry_lt {n : ℕ} (hn : n < 2 ^ 20) (hf : f < PGSIZE) : n * PGSIZE ||| f < 2 ^ 32 := by
  refine Nat.or_lt_two_pow ?_ (lt_of_lt_of_le hf (by decide))
  simp only [PGSIZE]
  omega

lemma present_iff {e : ℕ} : e &&& PTE_P ≠ 0 ↔ e % 2 = 1 := by
  rw [PTE_P, Nat.and_one_is_mod]
  omega

lemma present_or (e : ℕ) : (e ||| PTE_P) &&& PTE_P ≠ 0 := by
  have h := Nat.or_mod_two_pow (a := e) (b := 1) (n := 1)
  rw [pow_one] at h
  rw [present_iff, PTE_P, h]
  rcases Nat.mod_two_eq_zero_or_one e with h₀ | h₁
  · rw [h₀]
    rfl
  · rw [h₁]
    rfl

lemma or_present_lt {perm : ℕ} (hperm : perm < PGSIZE) : perm ||| PTE_P < PGSIZE :=
  Nat.or_lt_two_pow (n := 12) hperm (by decide)

/-! ### What a page directory maps -/

abbrev UPAGES : ℕ := KERNBASE / PGSIZE
abbrev UTABLES : ℕ := UPAGES / NPTENTRIES

/-- The `i`th page table. -/
def table (s : Phys) (d i : ℕ) : Option ℕ :=
  if i < NPDENTRIES ∧ word (s.page d) i &&& PTE_P ≠ 0 then some (word (s.page d) i / PGSIZE)
  else none

/-- The entry for the virtual page `v`. -/
def ent (s : Phys) (d v : ℕ) : ℕ :=
  match table s d (v / NPTENTRIES) with
  | none => 0
  | some t => word (s.page t) (v % NPTENTRIES)

/-- The page that the user page `v` is mapped to. -/
def upage (s : Phys) (d v : ℕ) : Option ℕ :=
  if v < UPAGES ∧ ent s d v &&& PTE_P ≠ 0 then some (ent s d v / PGSIZE) else none

/-- **User memory**: the flags and the contents of each user page that is mapped. -/
def umem (s : Phys) (d v : ℕ) : Option (ℕ × Page) :=
  (upage s d v).map fun n => (ent s d v % PGSIZE, s.page n)

/-- The places of an address space. -/
inductive Place where
  | dir
  | table (i : ℕ)
  | user (v : ℕ)
  deriving DecidableEq

/-- The page at a place. -/
def pageAt (s : Phys) (d : ℕ) : Place → Option ℕ
  | .dir => some d
  | .table i => table s d i
  | .user v => upage s d v

/-- **An address space**: its pages, the free ones and those held elsewhere are the pages of `W`,
each of them once. -/
abbrev Space (s : Phys) (d : ℕ) (H W : Set ℕ) : Prop := Holdings (pageAt s d) s.freelist H W

/-- The allocator accepts the page. -/
def Layout.Valid (L : Layout) (n : ℕ) : Prop := L.kend ≤ n * PGSIZE ∧ n * PGSIZE < PHYSTOP

variable {L : Layout} {s s' : Phys} {d t n m i j v e va : ℕ} {H W : Set ℕ}

lemma Layout.Valid.lt (h : L.Valid n) : n < 2 ^ 20 := by
  have := h.2
  simp only [PGSIZE, PHYSTOP] at this
  omega

lemma Layout.Valid.ne_zero (h : L.Valid n) : n ≠ 0 := by
  rintro rfl
  have h₁ := h.1
  have h₂ := L.text
  have h₃ := L.data_le
  omega

@[simp] lemma pageAt_dir : pageAt s d .dir = some d := rfl

@[simp] lemma pageAt_table : pageAt s d (.table i) = table s d i := rfl

@[simp] lemma pageAt_user : pageAt s d (.user v) = upage s d v := rfl

lemma table_eq (hi : i < NPDENTRIES) (hp : word (s.page d) i &&& PTE_P ≠ 0) :
    table s d i = some (word (s.page d) i / PGSIZE) := if_pos ⟨hi, hp⟩

lemma table_none (hp : word (s.page d) i &&& PTE_P = 0) : table s d i = none :=
  if_neg fun h => h.2 hp

lemma ent_of_table (h : table s d (v / NPTENTRIES) = some t) :
    ent s d v = word (s.page t) (v % NPTENTRIES) := by
  rw [ent, h]

lemma ent_of_none (h : table s d (v / NPTENTRIES) = none) : ent s d v = 0 := by
  rw [ent, h]

lemma ent_lt (v : ℕ) : ent s d v < 2 ^ 32 := by
  unfold ent
  split
  · decide
  · exact word_lt _ _

/-- An entry that is present is in a page table. -/
lemma exists_table (h : ent s d v &&& PTE_P ≠ 0) : ∃ t, table s d (v / NPTENTRIES) = some t := by
  cases ht : table s d (v / NPTENTRIES) with
  | none => exact absurd (by rw [ent_of_none ht]; rfl) h
  | some t => exact ⟨t, rfl⟩

lemma upage_some :
    upage s d v = some n ↔ v < UPAGES ∧ ent s d v &&& PTE_P ≠ 0 ∧ n = ent s d v / PGSIZE := by
  unfold upage
  split
  · next h => exact ⟨fun hn => ⟨h.1, h.2, (Option.some.inj hn).symm⟩, fun hn => by rw [hn.2.2]⟩
  · next h => exact ⟨fun hn => (by cases hn), fun hn => absurd ⟨hn.1, hn.2.1⟩ h⟩

lemma upage_none (hv : v < UPAGES) : upage s d v = none ↔ ent s d v &&& PTE_P = 0 := by
  unfold upage
  split
  · next h => exact ⟨fun hn => (by cases hn), fun h₀ => absurd h₀ h.2⟩
  · next h => exact ⟨fun _ => not_not.mp fun h₀ => h ⟨hv, h₀⟩, fun _ => rfl⟩

lemma umem_none : umem s d v = none ↔ upage s d v = none := by
  rw [umem, Option.map_eq_none_iff]

/-- Two states with the same page directory and page tables. -/
lemma table_congr (hd : s'.page d = s.page d) : table s' d = table s d := by
  funext i
  rw [table, table, hd]

lemma ent_congr (hd : s'.page d = s.page d)
    (ht : ∀ i t, table s d i = some t → s'.page t = s.page t) : ent s' d = ent s d := by
  funext v
  cases h : table s d (v / NPTENTRIES) with
  | none => rw [ent_of_none h, ent_of_none (by rw [table_congr hd, h])]
  | some t => rw [ent_of_table h, ent_of_table (t := t) (by rw [table_congr hd, h]), ht _ t h]

lemma pageAt_congr (htable : table s' d = table s d) (hent : ent s' d = ent s d) :
    pageAt s' d = pageAt s d := by
  funext p
  cases p with
  | dir => rfl
  | table i => rw [pageAt_table, pageAt_table, htable]
  | user v => rw [pageAt_user, pageAt_user, upage, upage, hent]

/-- User memory is the same if the entries and the user pages are. -/
lemma umem_congr (hent : ent s' d = ent s d)
    (hpage : ∀ v n, upage s d v = some n → s'.page n = s.page n) : umem s' d = umem s d := by
  funext v
  have hup : upage s' d v = upage s d v := by rw [upage, upage, hent]
  rw [umem, umem, hup, hent]
  cases h : upage s d v with
  | none => rfl
  | some n => rw [Option.map_some, Option.map_some, hpage v n h]

/-! ### Stores -/

/-- A word of a page is changed. -/
def Phys.setEntry (s : Phys) (t i w : ℕ) : Phys :=
  { s with page := update s.page t (setWord (s.page t) i w) }

@[simp] lemma setEntry_page_self (s : Phys) (t i w : ℕ) :
    (s.setEntry t i w).page t = setWord (s.page t) i w := update_self ..

lemma setEntry_page_of_ne (s : Phys) (i w : ℕ) (h : n ≠ t) : (s.setEntry t i w).page n = s.page n :=
  update_of_ne h ..

section Store

variable (h : Space s d H W)

include h

lemma Space.table_ne (ht : table s d i = some t) : t ≠ d :=
  h.ne_of_hold (p := Place.table i) (q := Place.dir) ht rfl (by simp)

lemma Space.table_inj (ht : table s d i = some t) (hj : table s d j = some t) : i = j := by
  have := h.inj (.table i) (.table j) t ht hj
  simpa using this

/-- A store to a page table. -/
lemma Space.setEntry_table (ht : table s d i = some t) (w : ℕ) :
    table (s.setEntry t j w) d = table s d :=
  table_congr (setEntry_page_of_ne s j w (h.table_ne ht).symm)

lemma Space.setEntry_ent (ht : table s d (v / NPTENTRIES) = some t) {w : ℕ} (hw : w < 2 ^ 32) :
    ent (s.setEntry t (v % NPTENTRIES) w) d = update (ent s d) v w := by
  have htab := h.setEntry_table (j := v % NPTENTRIES) ht w
  funext v'
  by_cases hv : v' = v
  · subst hv
    rw [update_self, ent_of_table (t := t) (by rw [htab, ht])]
    rw [setEntry_page_self, word_setWord_self hw]
  · rw [update_of_ne hv]
    cases ht' : table s d (v' / NPTENTRIES) with
    | none => rw [ent_of_none ht', ent_of_none (by rw [htab, ht'])]
    | some t' =>
      rw [ent_of_table ht', ent_of_table (t := t') (by rw [htab, ht'])]
      by_cases heq : t' = t
      · subst heq
        have hdiv := h.table_inj ht ht'
        rw [setEntry_page_self, word_setWord_of_ne]
        simp only [NPTENTRIES] at *
        omega
      · rw [setEntry_page_of_ne s _ w heq]

end Store

/-- A new page table is put in the page directory. -/
def Phys.addTable (s : Phys) (d i n : ℕ) : Phys :=
  let p := update s.page n fun _ => 0
  { s with page := update p d (setWord (p d) i (n * PGSIZE ||| PTE_P ||| PTE_W ||| PTE_U)) }

lemma addTable_page_of_ne (s : Phys) (i : ℕ) {k : ℕ} (hd : k ≠ d) (hn : k ≠ n) :
    (s.addTable d i n).page k = s.page k := by
  rw [Phys.addTable]
  simp only
  rw [update_of_ne hd, update_of_ne hn]

section AddTable

variable (hn : n < 2 ^ 20) (hnd : n ≠ d)

include hn hnd

lemma addTable_table (hi : i < NPDENTRIES) :
    table (s.addTable d i n) d = update (table s d) i (some n) := by
  have hdir : (s.addTable d i n).page d
      = setWord (s.page d) i (n * PGSIZE ||| PTE_P ||| PTE_W ||| PTE_U) := by
    rw [Phys.addTable]
    simp only
    rw [update_self, update_of_ne hnd.symm]
  have hentry : n * PGSIZE ||| PTE_P ||| PTE_W ||| PTE_U = n * PGSIZE ||| 7 := by
    rw [Nat.or_assoc, Nat.or_assoc]
    rfl
  rw [hentry] at hdir
  funext j
  by_cases hj : j = i
  · subst hj
    have hword : word ((s.addTable d j n).page d) j = n * PGSIZE ||| 7 := by
      rw [hdir, word_setWord_self (entry_lt hn (by decide))]
    have hpres : (n * PGSIZE ||| 7) &&& PTE_P ≠ 0 := by
      rw [show n * PGSIZE ||| 7 = n * PGSIZE ||| 6 ||| PTE_P by rw [Nat.or_assoc]; rfl]
      exact present_or _
    rw [update_self, table_eq hi (by rwa [hword]), hword, entry_div n (by decide)]
  · rw [update_of_ne hj, table, table, hdir, word_setWord_of_ne hj]

lemma addTable_ent (h : Space s d H W) (hfree : ∀ p, pageAt s d p ≠ some n) (hi : i < NPDENTRIES)
    (hnone : table s d i = none) : ent (s.addTable d i n) d = ent s d := by
  funext v
  have htab := addTable_table (s := s) hn hnd hi
  by_cases hv : v / NPTENTRIES = i
  · have ht : table (s.addTable d i n) d (v / NPTENTRIES) = some n := by
      rw [htab, hv, update_self]
    have hzero : (s.addTable d i n).page n = fun _ => 0 := by
      rw [Phys.addTable]
      simp only
      rw [update_of_ne hnd, update_self]
    rw [ent_of_table ht, hzero, ent_of_none (by rw [hv, hnone]), word_zero]
  · have ht : table (s.addTable d i n) d (v / NPTENTRIES) = table s d (v / NPTENTRIES) := by
      rw [htab, update_of_ne hv]
    cases h' : table s d (v / NPTENTRIES) with
    | none => rw [ent_of_none h', ent_of_none (ht.trans h')]
    | some t =>
      have htn : t ≠ n := fun heq => hfree (.table (v / NPTENTRIES)) (heq ▸ h')
      rw [ent_of_table h', ent_of_table (ht.trans h'), addTable_page_of_ne s i (h.table_ne h') htn]

end AddTable

/-! ### The code -/

variable {Q : Unit → Phys → Prop} {E : Stop → Phys → Prop}

@[simp] lemma post_setPage (n : ℕ) (p : Page) :
    Post (setPage n p) s Q E ↔ Q () { s with page := update s.page n p } := Iff.rfl

@[simp] lemma post_loadEntry (t i : ℕ) {Q : ℕ → Phys → Prop} :
    Post (loadEntry t i) s Q E ↔ Q (word (s.page t) i) s := Iff.rfl

@[simp] lemma post_storeEntry (t i w : ℕ) :
    Post (storeEntry t i w) s Q E ↔ Q () (s.setEntry t i w) := Iff.rfl

/-- The coming calls of `kalloc` fail only if there is no page. -/
def Phys.Works (s : Phys) : Prop := ∀ i, s.fails i = false

/-- The pages stay as they are, and `kalloc` works if it did. -/
structure SamePages (s s' : Phys) : Prop where
  page : s'.page = s.page
  works : s.Works → s'.Works

/-- **`kalloc`** -/
lemma kalloc_spec : Post kalloc s
    (fun r s' => SamePages s s' ∧
      (r = none ∧ s'.freelist = s.freelist ∧ (s.Works → s'.freelist = []) ∨
        ∃ n, r = some n ∧ s.freelist = n :: s'.freelist)) E := by
  have hworks : s.Works → ∀ i, s.fails (i + 1) = false := fun h i => h (i + 1)
  unfold kalloc
  rw [post_bind, post_get]
  refine post_ite.mpr ⟨fun hfails => ?_, fun _ => ?_⟩
  · refine ⟨⟨rfl, hworks⟩, .inl ⟨rfl, rfl, fun h => ?_⟩⟩
    rw [h 0] at hfails
    cases hfails
  · cases hlist : s.freelist with
    | nil => exact ⟨⟨rfl, hworks⟩, .inl ⟨rfl, rfl, fun _ => rfl⟩⟩
    | cons r next => exact ⟨⟨rfl, hworks⟩, .inr ⟨r, rfl, rfl⟩⟩

lemma post_kfree (hn : L.Valid n) :
    Post (kfree L n) s Q E ↔
      Q () { s with page := update s.page n fun _ => 1, freelist := n :: s.freelist } := by
  have hcheck : ¬(n * PGSIZE < L.kend ∨ PHYSTOP ≤ n * PGSIZE) := by
    have h₁ := hn.1
    have h₂ := hn.2
    omega
  rw [kfree, if_neg hcheck]
  rfl

/-- A walk that adds no page table. -/
@[simp] lemma post_walk {Q : Option (ℕ × ℕ) → Phys → Prop} :
    Post (walkpgdir d va false) s Q E ↔ Q ((table s d (PDX va)).map fun t => (t, PTX va)) s := by
  have hlt : PDX va < NPDENTRIES := Nat.mod_lt _ (by decide)
  rw [walkpgdir, post_bind, post_loadEntry]
  by_cases hp : word (s.page d) (PDX va) &&& PTE_P = 0
  · rw [if_neg (not_not.mpr hp), if_pos rfl, table_none hp]
    rfl
  · rw [if_pos hp, table_eq hlt hp]
    rfl

/-- What `walkpgdir` does to the memory: a page table may be added for the address. -/
structure Walked (d va : ℕ) (H W : Set ℕ) (s s' : Phys) : Prop where
  space : Space s' d H W
  ent : ent s' d = Vm.ent s d
  table : ∀ i, i ≠ PDX va → table s' d i = Vm.table s d i
  page : ∀ n, n ∉ s.freelist → n ≠ d → s'.page n = s.page n
  works : s.Works → s'.Works

/-- **A walk that adds a page table** if it has to. -/
lemma walkpgdir_spec (hW : ∀ n ∈ W, L.Valid n) (h : Space s d H W) (va : ℕ) :
    Post (walkpgdir d va true) s
      (fun r s' => Walked d va H W s s' ∧ (r = none ∧ (s.Works → s'.freelist = []) ∨
        ∃ t, table s' d (PDX va) = some t ∧ r = some (t, PTX va))) E := by
  have hlt : PDX va < NPDENTRIES := Nat.mod_lt _ (by decide)
  rw [walkpgdir, post_bind, post_loadEntry]
  refine post_ite.mpr ⟨fun hp => ?_, fun hp => ?_⟩
  · exact ⟨⟨h, rfl, fun _ _ => rfl, fun _ _ _ => rfl, id⟩, .inr ⟨_, table_eq hlt hp, rfl⟩⟩
  have hnone : table s d (PDX va) = none := table_none (not_not.mp hp)
  rw [if_neg (by decide)]
  refine kalloc_spec.seq ?_
  rintro _ s₁ ⟨⟨hpage, hworks⟩, ⟨rfl, hlist, hout⟩ | ⟨n, rfl, hlist⟩⟩
  · have htab : table s₁ d = table s d := table_congr (by rw [hpage])
    have hent : ent s₁ d = ent s d := ent_congr (by rw [hpage]) fun _ _ _ => by rw [hpage]
    refine ⟨⟨?_, hent, fun i _ => by rw [htab], fun n _ _ => by rw [hpage], hworks⟩,
      .inl ⟨rfl, hout⟩⟩
    rw [Space, pageAt_congr htab hent, hlist]
    exact h
  · have hmem : n ∈ s.freelist := by rw [hlist]; exact List.mem_cons_self
    have hvalid := (hW n (h.mem_of_free hmem)).lt
    have hfree := h.free_hold n hmem
    have hnd : n ≠ d := fun heq => hfree .dir (by rw [heq]; rfl)
    have htab := addTable_table (s := s) hvalid hnd hlt
    have hent := addTable_ent hvalid hnd h hfree hlt hnone
    have hplaces : pageAt (s.addTable d (PDX va) n) d
        = update (pageAt s d) (.table (PDX va)) (some n) := by
      funext p
      cases p with
      | dir => rfl
      | table i =>
        by_cases hi : i = PDX va
        · subst hi
          rw [pageAt_table, htab, update_self, update_self]
        · rw [pageAt_table, htab, update_of_ne hi, update_of_ne (by simpa using hi)]
          rfl
      | user v =>
        rw [update_of_ne (by simp), pageAt_user, pageAt_user, upage, upage, hent]
    have hs₁ : s₁.addTable d (PDX va) n
        = { s.addTable d (PDX va) n with freelist := s₁.freelist, fails := s₁.fails } := by
      simp only [Phys.addTable, hpage]
    refine (post_bind _).mpr ?_
    change Walked d va H W s (s₁.addTable d (PDX va) n) ∧ (_ ∨
      ∃ t, table (s₁.addTable d (PDX va) n) d (PDX va) = some t ∧
        some (n, PTX va) = some (t, PTX va))
    rw [hs₁]
    refine ⟨⟨?_, hent, fun i hi => ?_, fun k hk hd => ?_, hworks⟩, .inr ⟨n, ?_, rfl⟩⟩
    · have hheld := (hlist ▸ h : Holdings (pageAt s d) (n :: s₁.freelist) H W).take
      change Holdings (pageAt (s.addTable d (PDX va) n) d) s₁.freelist H W
      rw [hplaces]
      exact hheld.place (h.free_held n hmem) hnone
    · exact (congrFun htab i).trans (update_of_ne hi ..)
    · exact addTable_page_of_ne s _ hd fun heq => hk (heq ▸ hmem)
    · exact (congrFun htab _).trans (update_self ..)

/-! ### Mapping a page -/

/-- Pages that are held elsewhere, or are not looked at, stay as they are, and `kalloc` works if it
did. -/
structure Frame (H W : Set ℕ) (s s' : Phys) : Prop where
  page : ∀ n, (n ∈ W → n ∈ H) → s'.page n = s.page n
  works : s.Works → s'.Works

lemma Frame.refl (s : Phys) : Frame H W s s := ⟨fun _ _ => rfl, id⟩

variable {s₂ s₃ : Phys}

lemma Frame.trans {s₁ : Phys} (h : Frame H W s₁ s₂) (h' : Frame H W s₂ s₃) :
    Frame H W s₁ s₃ := ⟨fun n hn => (h'.page n hn).trans (h.page n hn), h'.works ∘ h.works⟩

lemma Frame.mono {H' : Set ℕ} (h : Frame H' W s s') (hsub : H ⊆ H') : Frame H W s s' :=
  ⟨fun n hn => h.page n fun hmem => hsub (hn hmem), h.works⟩

/-- A page that is held elsewhere is at no place, and is not free. -/
lemma Space.ne_of_frame {p : Place} (h : Space s d H W) (hn : n ∈ W → n ∈ H)
    (hp : pageAt s d p = some m) : n ≠ m := by
  rintro rfl
  exact h.held_hold n (hn (h.mem_of_hold hp)) p hp

lemma Walked.frame (h : Space s d H W) (hw : Walked d va H W s s') : Frame H W s s' := by
  refine ⟨fun n hn => hw.page n (fun hmem => ?_) (h.ne_of_frame (p := Place.dir) hn rfl), hw.works⟩
  exact h.free_held n hmem (hn (h.mem_of_free hmem))

lemma Walked.umem (h : Space s d H W) (hw : Walked d va H W s s') : umem s' d = umem s d := by
  refine umem_congr hw.ent fun v n hn => hw.page n (fun hmem => ?_) ?_
  · exact h.free_hold n hmem (.user v) hn
  · exact h.ne_of_hold (p := Place.user v) (q := Place.dir) hn rfl (by simp)

/-- The kernel part of an address space stays as it is. -/
structure SameKernel (d : ℕ) (s s' : Phys) : Prop where
  table : ∀ i, UTABLES ≤ i → table s' d i = Vm.table s d i
  ent : ∀ v, UPAGES ≤ v → ent s' d v = Vm.ent s d v

lemma SameKernel.refl (d : ℕ) (s : Phys) : SameKernel d s s := ⟨fun _ _ => rfl, fun _ _ => rfl⟩

lemma SameKernel.trans {s₁ : Phys} (h : SameKernel d s₁ s₂) (h' : SameKernel d s₂ s₃) :
    SameKernel d s₁ s₃ :=
  ⟨fun i hi => (h'.table i hi).trans (h.table i hi), fun v hv => (h'.ent v hv).trans (h.ent v hv)⟩

/-- **A change of user memory**: the kernel part and the pages held elsewhere stay. -/
structure Evolved (d : ℕ) (H W : Set ℕ) (s s' : Phys) : Prop where
  space : Space s' d H W
  kernel : SameKernel d s s'
  frame : Frame H W s s'

lemma Evolved.refl (h : Space s d H W) : Evolved d H W s s := ⟨h, .refl d s, .refl s⟩

lemma Evolved.trans {s₁ : Phys} (h : Evolved d H W s₁ s₂) (h' : Evolved d H W s₂ s₃) :
    Evolved d H W s₁ s₃ := ⟨h'.space, h.kernel.trans h'.kernel, h.frame.trans h'.frame⟩

lemma PDX_page (hv : v < 2 ^ 20) : PDX (v * PGSIZE) = v / NPTENTRIES := by
  simp only [PDX, PGSIZE, NPDENTRIES, NPTENTRIES]
  omega

lemma PTX_page (v : ℕ) : PTX (v * PGSIZE) = v % NPTENTRIES := by
  simp only [PTX, PGSIZE, NPTENTRIES]
  omega

/-- The address of the next page. -/
lemma next_page (hv : v + 1 < 2 ^ 20) : (v * PGSIZE + PGSIZE) % 2 ^ 32 = (v + 1) * PGSIZE := by
  simp only [PGSIZE]
  omega

/-- **One round of `mappages`** for a page that is not mapped. -/
lemma mapPage_spec (hW : ∀ n ∈ W, L.Valid n) (h : Space s d H W) (hv : v < 2 ^ 20)
    (hno : ent s d v &&& PTE_P = 0) (pa perm : ℕ) :
    Post (mapPage d (v * PGSIZE) pa perm) s
      (fun ok s' => ∃ s₁, Walked d (v * PGSIZE) H W s s₁ ∧
        (ok = false ∧ s' = s₁ ∧ (s.Works → s₁.freelist = []) ∨
          ok = true ∧ ∃ t, table s₁ d (v / NPTENTRIES) = some t ∧
            s' = s₁.setEntry t (v % NPTENTRIES) (pa ||| perm ||| PTE_P))) E := by
  refine (walkpgdir_spec hW h _).seq ?_
  rintro _ s₁ ⟨hw, ⟨rfl, hout⟩ | ⟨t, ht, rfl⟩⟩
  · exact ⟨s₁, hw, .inl ⟨rfl, rfl, hout⟩⟩
  · rw [PDX_page hv] at ht
    have hentry : word (s₁.page t) (PTX (v * PGSIZE)) = ent s d v := by
      rw [PTX_page, ← ent_of_table ht, hw.ent]
    dsimp only
    rw [post_bind, post_loadEntry, hentry, if_neg (not_not.mpr hno)]
    refine ⟨s₁, hw, .inr ⟨rfl, t, ht, ?_⟩⟩
    rw [PTX_page]
    rfl

section SetEntry

variable {s₁ : Phys} {w : ℕ}

/-- A store to a page table does not reach other pages. -/
lemma Space.setEntry_frame (h : Space s d H W) (ht : table s d i = some t) :
    Frame H W s (s.setEntry t j w) :=
  ⟨fun _ hn => setEntry_page_of_ne s j w (h.ne_of_frame (p := Place.table i) hn ht), id⟩

lemma Space.setEntry_user (h : Space s d H W) (ht : table s d i = some t) {v' : ℕ}
    (hn : upage s d v' = some n) : (s.setEntry t j w).page n = s.page n :=
  setEntry_page_of_ne s j w
    (h.ne_of_hold (p := Place.user v') (q := Place.table i) hn ht (by simp))

/-- The entry of a kernel page is set. -/
lemma Space.setEntry_kernel (h : Space s d H W) (hv : UPAGES ≤ v)
    (ht : table s d (v / NPTENTRIES) = some t) (hw : w < 2 ^ 32) :
    Space (s.setEntry t (v % NPTENTRIES) w) d H W := by
  have htab := h.setEntry_table (j := v % NPTENTRIES) ht w
  have hent := h.setEntry_ent ht hw
  have hplaces : pageAt (s.setEntry t (v % NPTENTRIES) w) d = pageAt s d := by
    funext p
    cases p with
    | dir => rfl
    | table i => rw [pageAt_table, pageAt_table, htab]
    | user v' =>
      by_cases hv' : v' < UPAGES
      · rw [pageAt_user, pageAt_user, upage, upage, hent, update_of_ne (by omega)]
      · rw [pageAt_user, pageAt_user, upage, upage, if_neg fun h => hv' h.1,
          if_neg fun h => hv' h.1]
  change Holdings (pageAt (s.setEntry t (v % NPTENTRIES) w) d) s.freelist H W
  rw [hplaces]
  exact h

/-- The entry of a user page is set: the pages at its place before and after. -/
lemma Space.pageAt_setEntry (h : Space s d H W) (hv : v < UPAGES)
    (ht : table s d (v / NPTENTRIES) = some t) (hw : w < 2 ^ 32) :
    pageAt (s.setEntry t (v % NPTENTRIES) w) d
      = update (pageAt s d) (.user v)
          (if w &&& PTE_P ≠ 0 then some (w / PGSIZE) else none) := by
  have htab := h.setEntry_table (j := v % NPTENTRIES) ht w
  have hent := h.setEntry_ent ht hw
  funext p
  cases p with
  | dir => rfl
  | table i =>
    rw [update_of_ne (by simp), pageAt_table, pageAt_table, htab]
  | user v' =>
    by_cases hv' : v' = v
    · subst hv'
      rw [update_self, pageAt_user, upage, hent, update_self]
      simp only [hv, true_and]
    · rw [update_of_ne (by simpa using hv'), pageAt_user, pageAt_user, upage, upage, hent,
        update_of_ne hv']

lemma Space.setEntry_sameKernel (h : Space s d H W) (hv : v < UPAGES)
    (ht : table s d (v / NPTENTRIES) = some t) (hw : w < 2 ^ 32) :
    SameKernel d s (s.setEntry t (v % NPTENTRIES) w) := by
  refine ⟨fun i _ => by rw [h.setEntry_table ht w], fun v' hv' => ?_⟩
  rw [h.setEntry_ent ht hw, update_of_ne (by omega)]

end SetEntry

lemma Walked.sameKernel (hv : v < UPAGES) (hw : Walked d (v * PGSIZE) H W s s') :
    SameKernel d s s' := by
  refine ⟨fun i hi => hw.table i ?_, fun v' _ => by rw [hw.ent]⟩
  rw [PDX_page (lt_of_lt_of_le hv (by decide))]
  simp only [UTABLES, UPAGES, KERNBASE, PGSIZE, NPTENTRIES] at *
  omega

/-- `mappages` for one page. -/
lemma mappages_page (hv : v < 2 ^ 20) (pa perm : ℕ) :
    mappages d (v * PGSIZE) PGSIZE pa perm = mapPage d (v * PGSIZE) pa perm := by
  have ha : PGROUNDDOWN (v * PGSIZE) = v * PGSIZE := by
    rw [PGROUNDDOWN, Nat.mul_div_cancel _ (by decide)]
  have hlast : PGROUNDDOWN ((v * PGSIZE + PGSIZE + (2 ^ 32 - 1)) % 2 ^ 32) = v * PGSIZE := by
    simp only [PGROUNDDOWN, PGSIZE]
    omega
  have hzero : (v * PGSIZE + (2 ^ 32 - v * PGSIZE)) % 2 ^ 32 / PGSIZE = 0 := by
    simp only [PGSIZE]
    omega
  rw [mappages]
  simp only [ha, hlast, hzero]
  rfl

/-- What mapping the page `m` at the user page `v` does. -/
inductive MapUser (d v m perm : ℕ) (H W : Set ℕ) (s : Phys) : Bool → Phys → Prop
  | failed {s' : Phys} (ev : Evolved d (insert m H) W s s') (mem : umem s' d = umem s d)
      (out : s.Works → s'.freelist = []) : MapUser d v m perm H W s false s'
  | mapped {s' : Phys} (ev : Evolved d H W s s')
      (mem : umem s' d = update (umem s d) v (some (perm ||| PTE_P, s.page m))) :
      MapUser d v m perm H W s true s'

/-- **A page that is held is mapped** at a user page. -/
lemma mapUser_spec (hW : ∀ n ∈ W, L.Valid n) (h : Space s d (insert m H) W) (hm : m ∉ H)
    (hv : v < UPAGES) (hno : umem s d v = none) {perm : ℕ} (hperm : perm < PGSIZE) :
    Post (mapPage d (v * PGSIZE) (m * PGSIZE) perm) s (MapUser d v m perm H W s) E := by
  have hno' : ent s d v &&& PTE_P = 0 := (upage_none hv).mp (umem_none.mp hno)
  have hlt : v < 2 ^ 20 := lt_of_lt_of_le hv (by decide)
  refine (mapPage_spec hW h hlt hno' _ perm).imp ?_
  rintro _ _ ⟨s₁, hw, ⟨rfl, rfl, hout⟩ | ⟨rfl, t, ht, rfl⟩⟩
  · exact .failed ⟨hw.space, hw.sameKernel hv, hw.frame h⟩ (hw.umem h) hout
  have hvalid := (hW m (h.mem_of_held (.inl rfl))).lt
  have hflags := or_present_lt hperm
  have hentry : m * PGSIZE ||| perm ||| PTE_P = m * PGSIZE ||| (perm ||| PTE_P) := Nat.or_assoc ..
  have hwlt : m * PGSIZE ||| perm ||| PTE_P < 2 ^ 32 := by
    rw [hentry]
    exact entry_lt hvalid hflags
  have hpres : (m * PGSIZE ||| perm ||| PTE_P) &&& PTE_P ≠ 0 := present_or _
  have hdiv : (m * PGSIZE ||| perm ||| PTE_P) / PGSIZE = m := by rw [hentry, entry_div m hflags]
  have hplaces := hw.space.pageAt_setEntry hv ht hwlt
  rw [if_pos hpres, hdiv] at hplaces
  have hup : ∀ v', upage s₁ d v' = upage s d v' := fun v' => by rw [upage, upage, hw.ent]
  have hmpage : (s₁.setEntry t (v % NPTENTRIES) (m * PGSIZE ||| perm ||| PTE_P)).page m
      = s.page m := by
    have hmem : m ∈ W → m ∈ insert m H := fun _ => .inl rfl
    rw [(hw.space.setEntry_frame ht).page m hmem, (hw.frame h).page m hmem]
  refine .mapped ⟨?_, (hw.sameKernel hv).trans (hw.space.setEntry_sameKernel hv ht hwlt),
    ((hw.frame h).trans (hw.space.setEntry_frame ht)).mono (Set.subset_insert m H)⟩ ?_
  · change Holdings (pageAt (s₁.setEntry t (v % NPTENTRIES) _) d) s₁.freelist H W
    rw [hplaces]
    exact hw.space.place hm (by rw [pageAt_user, hup, umem_none.mp hno])
  · funext v'
    have hat := congrFun hplaces (.user v')
    by_cases hv' : v' = v
    · subst hv'
      rw [update_self, pageAt_user] at hat
      rw [update_self, Vm.umem, hat, Option.map_some, hmpage,
        hw.space.setEntry_ent ht hwlt, update_self, hentry, entry_mod m hflags]
    · rw [update_of_ne (by simpa using hv'), pageAt_user, pageAt_user, hup] at hat
      rw [update_of_ne hv', Vm.umem, Vm.umem, hat, hw.space.setEntry_ent ht hwlt,
        update_of_ne hv', hw.ent]
      cases hn : upage s d v' with
      | none => rfl
      | some n =>
        have hkeep : s₁.page n = s.page n :=
          hw.page n (fun hmem => h.free_hold n hmem (.user v') hn)
          (h.ne_of_hold (p := Place.user v') (q := Place.dir) hn rfl (by simp))
        rw [Option.map_some, Option.map_some, hw.space.setEntry_user ht ((hup v').trans hn), hkeep]

/-! ### Out of memory -/

/-- **The pages are too few** for an address space with `k` user pages. -/
def Crowded (H W : Set ℕ) (k : ℕ) : Prop := (W \ H).encard ≤ (1 + NPDENTRIES + k : ℕ)

variable {k : ℕ}

lemma Crowded.mono (h : Crowded H W n) (hle : n ≤ k) : Crowded H W k :=
  h.trans (by exact_mod_cast Nat.add_le_add_left hle _)

/-- One page less is held elsewhere. -/
lemma Crowded.of_insert (h : Crowded (insert m H) W k) : Crowded H W (k + 1) := by
  have hsub : W \ H ⊆ insert m (W \ insert m H) := fun n hn => by
    by_cases hm : n = m
    · exact .inl hm
    · exact .inr ⟨hn.1, fun hmem => hmem.elim hm hn.2⟩
  calc (W \ H).encard ≤ (W \ insert m H).encard + 1 :=
        (Set.encard_le_encard hsub).trans (Set.encard_insert_le ..)
    _ ≤ (1 + NPDENTRIES + k : ℕ) + 1 := by gcongr; exact h

/-- Without free pages all pages are in the address space. -/
lemma Space.crowded (h : Space s d H W) (hk : ∀ v, k ≤ v → umem s d v = none)
    (hfree : s.freelist = []) : Crowded H W k := by
  rw [Space, hfree] at h
  refine (h.encard_le (.dir :: ((List.range NPDENTRIES).map .table ++ (List.range k).map .user))
    fun p n hp => ?_).trans ?_
  · cases p with
    | dir => exact List.mem_cons_self
    | table i =>
      have hi : i < NPDENTRIES := not_not.mp fun hi => by
        rw [pageAt_table, table, if_neg fun h => hi h.1] at hp
        cases hp
      simpa using hi
    | user v =>
      have hv : v < k := not_le.mp fun hv => by
        rw [pageAt_user, umem_none.mp (hk v hv)] at hp
        cases hp
      simpa using hv
  · simp [Nat.add_comm, Nat.add_left_comm]

end Xv6.Vm
