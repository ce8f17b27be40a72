import Mathlib.Data.List.Intervals
import Xv6.Vm.Grow

/-!
The loop of `deallocuvm` skips the pages of a page table that is not there.

* `visit`: what is done at one page address; `deallocEach`: every address of the range is visited.
* `deallocEnds`: the loop, which says whether it has ended.
* `deallocEnds_eq`, `deallocuvm_eq`: the loop ends, and skipping makes no difference.
* `Freed`, `visits_freed`: what the visits do.
* `deallocuvm_exact`: both together.
-/

namespace Xv6.Vm

open Transition

variable (L : Layout)

/-- The page at `a` is freed if it is there, and its PTE is cleared. -/
def visit (pgdir a : ℕ) : VmM Unit := do
  match ← walkpgdir pgdir a false with
  | none => return ()
  | some (t, i) =>
    let pte ← loadEntry t i
    if pte &&& PTE_P ≠ 0 then
      if pte / PGSIZE = 0 then throw .kfree
      kfree L (pte / PGSIZE)
      storeEntry t i 0

/-- The page addresses `a` with `PGROUNDUP(newsz) <= a < oldsz`. -/
def addresses (oldsz newsz : ℕ) : List ℕ :=
  ((List.range UPAGES).map (· * PGSIZE)).filter fun a => PGROUNDUP newsz ≤ a ∧ a < oldsz

/-- **Deallocation without skipping.** -/
def deallocEach (pgdir oldsz newsz : ℕ) : VmM ℕ := do
  if oldsz ≤ newsz then return oldsz
  else
    (addresses oldsz newsz).forM (visit L pgdir)
    return newsz

/-- Where the loop of `deallocuvm` goes on. -/
def nextAddress (pgdir a : ℕ) (s : Phys) : ℕ :=
  match table s pgdir (PDX a) with
  | none => ((PGADDR (PDX a + 1) 0 0 + (2 ^ 32 - PGSIZE)) % 2 ^ 32 + PGSIZE) % 2 ^ 32
  | some _ => (a + PGSIZE) % 2 ^ 32

/-- The loop of `deallocuvm` with at most `fuel` rounds: has it ended? -/
def deallocEnds (pgdir oldsz : ℕ) : ℕ → ℕ → VmM Bool
  | 0, a => return decide (¬ a < oldsz)
  | fuel + 1, a => do
    if a < oldsz then
      let s ← get
      visit L pgdir a
      deallocEnds pgdir oldsz fuel (nextAddress pgdir a s)
    else return true

variable {L} {s s' : Phys} {d : ℕ}

/-! ### Skipping -/

/-- Code that returns is followed by the rest. -/
lemma bind_of_ok {α β : Type} {m : VmM α} {f : α → VmM β} {a : α} (h : m s = .ok a s') :
    (m >>= f) s = f a s' := by
  change EStateM.bind m f s = _
  rw [EStateM.bind, h]

lemma bind_congr_run {α β : Type} (m : VmM α) {f g : α → VmM β} (h : ∀ a s', f a s' = g a s') :
    (m >>= f) s = (m >>= g) s := by
  rw [show f = g from funext fun a => funext (h a)]

lemma bind_congr_of_run {α β : Type} {m m' : VmM α} {f : α → VmM β} (h : m s = m' s) :
    (m >>= f) s = (m' >>= f) s := by
  change EStateM.bind m f s = EStateM.bind m' f s
  rw [EStateM.bind, EStateM.bind, h]

lemma walk_run (va : ℕ) : walkpgdir d va false s
    = .ok ((table s d (PDX va)).map fun t => (t, PTX va)) s := by
  have hwalk : Post (walkpgdir d va false) s
      (fun r s' => r = (table s d (PDX va)).map (fun t => (t, PTX va)) ∧ s' = s)
      (fun _ _ => False) := post_walk.mpr ⟨rfl, rfl⟩
  obtain ⟨r, s', hrun, rfl, rfl⟩ := hwalk.total fun _ _ => id
  exact hrun

/-- Without a page table there is nothing to do. -/
lemma visit_of_none {a : ℕ} (h : table s d (PDX a) = none) : visit L d a s = .ok () s := by
  have hwalk := walk_run (s := s) (d := d) a
  rw [h, Option.map_none] at hwalk
  rw [visit, bind_of_ok hwalk]
  rfl

lemma nextAddress_none {v : ℕ} (hv : v < UPAGES) (h : table s d (v / NPTENTRIES) = none) :
    nextAddress d (v * PGSIZE) s = (v / NPTENTRIES + 1) * NPTENTRIES * PGSIZE := by
  rw [nextAddress, PDX_page (lt_of_lt_of_le hv (by decide)), h]
  exact skip_eq hv

lemma nextAddress_some {v t : ℕ} (hv : v < UPAGES) (h : table s d (v / NPTENTRIES) = some t) :
    nextAddress d (v * PGSIZE) s = (v + 1) * PGSIZE := by
  rw [nextAddress, PDX_page (lt_of_lt_of_le hv (by decide)), h]
  exact next_page (lt_of_le_of_lt (Nat.succ_le_of_lt hv) (by decide))

/-- The visits of pages without a page table do nothing. -/
lemma visits_append {us vs : List ℕ}
    (hus : ∀ v ∈ us, v < UPAGES ∧ table s d (v / NPTENTRIES) = none) :
    (us ++ vs).forM (fun v => visit L d (v * PGSIZE)) s
      = vs.forM (fun v => visit L d (v * PGSIZE)) s := by
  induction us with
  | nil => rfl
  | cons v us ih =>
    obtain ⟨hv, ht⟩ := hus v List.mem_cons_self
    have hvisit : visit L d (v * PGSIZE) s = .ok () s := by
      apply visit_of_none
      rw [PDX_page (lt_of_lt_of_le hv (by decide)), ht]
    change (visit L d (v * PGSIZE) >>= fun _ => List.forM (us ++ vs) _) s = _
    rw [bind_of_ok hvisit]
    exact ih fun w hw => hus w (List.mem_cons_of_mem _ hw)

/-- The number of pages below a size. -/
def pagesBelow (sz : ℕ) : ℕ := (sz + (PGSIZE - 1)) / PGSIZE

variable {sz : ℕ}

lemma lt_pagesBelow {v : ℕ} : v < pagesBelow sz ↔ v * PGSIZE < sz := by
  simp only [pagesBelow, PGSIZE]
  omega

/-- The end of the page table that is skipped. -/
lemma lt_skipEnd (lo : ℕ) : lo < (lo / NPTENTRIES + 1) * NPTENTRIES := by
  simp only [NPTENTRIES]
  omega

variable {lo : ℕ}

lemma fuel_next {fuel : ℕ} (h : sz ≤ (lo + (fuel + 1)) * PGSIZE) :
    sz ≤ ((lo / NPTENTRIES + 1) * NPTENTRIES + fuel) * PGSIZE := by
  have hlt := lt_skipEnd lo
  exact h.trans (Nat.mul_le_mul_right _ (by omega))

/-- **The skip is exact**: the visits of the pages that are left out do nothing. -/
lemma visits_skip (hsz : sz ≤ KERNBASE) (ht : table s d (lo / NPTENTRIES) = none) :
    (List.Ico lo (pagesBelow sz)).forM (fun v => visit L d (v * PGSIZE)) s
      = (List.Ico ((lo / NPTENTRIES + 1) * NPTENTRIES) (pagesBelow sz)).forM
        (fun v => visit L d (v * PGSIZE)) s := by
  have hend := lt_skipEnd lo
  -- a page before the end of the range or of the page table has no page table
  have hnone : ∀ {m v}, m ≤ (lo / NPTENTRIES + 1) * NPTENTRIES → m ≤ pagesBelow sz →
      v ∈ List.Ico lo m → v < UPAGES ∧ table s d (v / NPTENTRIES) = none := by
    intro m v hm hm' hv
    obtain ⟨hle, hv⟩ := List.Ico.mem.mp hv
    have hvsz := lt_pagesBelow.mp (hv.trans_le hm')
    have hdiv : v / NPTENTRIES = lo / NPTENTRIES := by
      simp only [NPTENTRIES] at *
      omega
    refine ⟨?_, by rw [hdiv, ht]⟩
    simp only [UPAGES, KERNBASE, PGSIZE] at *
    omega
  rcases le_total ((lo / NPTENTRIES + 1) * NPTENTRIES) (pagesBelow sz) with hle | hle
  · rw [← List.Ico.append_consecutive hend.le hle]
    exact visits_append fun v => hnone le_rfl hle
  · rw [List.Ico.eq_nil_of_le hle, ← List.append_nil (List.Ico lo (pagesBelow sz))]
    exact visits_append fun v => hnone hle le_rfl

/-- **The loop ends, and it is the visits one by one**: by induction on the rounds, which are enough
for what is left of the range. -/
lemma deallocEnds_eq {fuel : ℕ} (hsz : sz ≤ KERNBASE) (hfuel : sz ≤ (lo + fuel) * PGSIZE)
    (s : Phys) : deallocEnds L d sz fuel (lo * PGSIZE) s =
      (do (List.Ico lo (pagesBelow sz)).forM fun v => visit L d (v * PGSIZE)
          return true : VmM Bool) s := by
  have hdone : ∀ lo, ¬ lo * PGSIZE < sz → List.Ico lo (pagesBelow sz) = [] := fun lo h =>
    List.Ico.eq_nil_of_le (not_lt.mp fun hlt => h (lt_pagesBelow.mp hlt))
  induction fuel generalizing lo s with
  | zero =>
    have hge : ¬ lo * PGSIZE < sz := not_lt.mpr (by simpa using hfuel)
    rw [deallocEnds, hdone lo hge, decide_eq_true hge]
    rfl
  | succ fuel ih =>
    rw [deallocEnds]
    split_ifs with hlt
    · have hlo : lo < UPAGES := by
        simp only [UPAGES, KERNBASE, PGSIZE] at *
        omega
      have hlt' := lt_pagesBelow.mpr hlt
      change (visit L d (lo * PGSIZE) >>= fun _ =>
        deallocEnds L d sz fuel (nextAddress d (lo * PGSIZE) s)) s = _
      cases ht : table s d (lo / NPTENTRIES) with
      | none =>
        have hvisit : visit L d (lo * PGSIZE) s = .ok () s := by
          apply visit_of_none
          rw [PDX_page (lt_of_lt_of_le hlo (by decide)), ht]
        rw [bind_of_ok hvisit, nextAddress_none hlo ht, ih (fuel_next hfuel)]
        exact bind_congr_of_run (visits_skip hsz ht).symm
      | some t =>
        rw [nextAddress_some hlo ht, List.Ico.eq_cons hlt']
        change _ = ((visit L d (lo * PGSIZE) >>= fun _ => List.forM _ _) >>= fun _ => pure true) s
        rw [bind_assoc]
        refine bind_congr_run _ fun _ s' => ih ?_ s'
        rwa [Nat.add_right_comm lo 1 fuel, Nat.add_assoc lo fuel 1]
    · rw [hdone lo hlt]
      rfl

/-- The loop of `deallocuvm` is this one. -/
lemma deallocLoop_eq (sz fuel a : ℕ) (s : Phys) :
    deallocLoop L d sz fuel a s = (deallocEnds L d sz fuel a >>= fun _ => pure ()) s := by
  induction fuel generalizing a s with
  | zero => rfl
  | succ fuel ih =>
    rw [deallocLoop, deallocEnds]
    split_ifs with hlt
    · have hget : (get : VmM Phys) s = .ok s s := rfl
      have hwalk := walk_run (s := s) (d := d) a
      rw [bind_assoc, bind_of_ok hget, bind_assoc]
      cases ht : table s d (PDX a) with
      | none =>
        rw [ht, Option.map_none] at hwalk
        rw [bind_of_ok hwalk, bind_of_ok (visit_of_none ht), ← ih, nextAddress, ht]
      | some t =>
        rw [ht, Option.map_some] at hwalk
        have hload : loadEntry t (PTX a) s = .ok (word (s.page t) (PTX a)) s := rfl
        rw [bind_of_ok hwalk, visit, bind_assoc, bind_of_ok hwalk, nextAddress, ht]
        dsimp only
        rw [bind_of_ok hload, bind_assoc, bind_of_ok hload]
        split_ifs
        · rfl
        · rw [bind_assoc]
          refine bind_congr_run _ fun _ s' => ?_
          exact bind_congr_run _ fun _ s'' => ih _ s''
        · exact ih _ s
    · rfl

lemma PGROUNDUP_lt {oldsz newsz : ℕ} (hsz : oldsz ≤ KERNBASE) (hlt : newsz < oldsz) :
    PGROUNDUP newsz = pagesBelow newsz * PGSIZE :=
  PGROUNDUP_eq (by simp only [KERNBASE, PGSIZE] at *; omega)

/-- The user pages from `newsz` on and below `oldsz`. -/
def pagesIn (oldsz newsz : ℕ) : List ℕ :=
  (List.range UPAGES).filter fun v => newsz ≤ v * PGSIZE ∧ v * PGSIZE < oldsz

lemma pagesIn_eq {oldsz newsz : ℕ} (hsz : oldsz ≤ KERNBASE) :
    pagesIn oldsz newsz = List.Ico (pagesBelow newsz) (pagesBelow oldsz) := by
  have hle : pagesBelow oldsz ≤ UPAGES := by
    simp only [pagesBelow, UPAGES, KERNBASE, PGSIZE] at *
    omega
  have hfilter : ∀ v, decide (newsz ≤ v * PGSIZE ∧ v * PGSIZE < oldsz)
      = (decide (v < pagesBelow oldsz) && decide (pagesBelow newsz ≤ v)) := by
    intro v
    rw [← Bool.decide_and, decide_eq_decide, lt_pagesBelow, and_comm, ← not_lt, ← not_lt,
      lt_pagesBelow]
  rw [pagesIn]
  simp only [hfilter]
  rw [← List.filter_filter, ← List.Ico.zero_bot, List.Ico.filter_le, List.Ico.filter_lt,
    min_eq_right hle, Nat.zero_max]

lemma lt_of_mem_pagesIn {oldsz newsz v : ℕ} (hv : v ∈ pagesIn oldsz newsz) : v < UPAGES := by
  rw [pagesIn, List.mem_filter, List.mem_range] at hv
  exact hv.1

lemma nodup_pagesIn {oldsz newsz : ℕ} (hsz : oldsz ≤ KERNBASE) : (pagesIn oldsz newsz).Nodup := by
  rw [pagesIn_eq hsz]
  exact List.Ico.nodup ..

lemma addresses_eq {oldsz newsz : ℕ} (hsz : oldsz ≤ KERNBASE) (hlt : newsz < oldsz) :
    addresses oldsz newsz = (pagesIn oldsz newsz).map (· * PGSIZE) := by
  have hround : ∀ v, PGROUNDUP newsz ≤ v * PGSIZE ↔ newsz ≤ v * PGSIZE := by
    intro v
    rw [PGROUNDUP_lt hsz hlt, Nat.mul_le_mul_right_iff (by decide), ← not_lt, ← not_lt,
      lt_pagesBelow]
  rw [addresses, List.filter_map, pagesIn]
  simp only [Function.comp_def, hround]

lemma rounds_enough (oldsz newsz : ℕ) :
    oldsz ≤ (pagesBelow newsz + (oldsz / PGSIZE + 1)) * PGSIZE := by
  simp only [PGSIZE]
  omega

section Rounds

variable {oldsz newsz : ℕ} (hsz : oldsz ≤ KERNBASE) (hlt : newsz < oldsz)

include hsz hlt

lemma deallocEnds_visits (s : Phys) :
    deallocEnds L d oldsz (oldsz / PGSIZE + 1) (PGROUNDUP newsz) s =
      (do (pagesIn oldsz newsz).forM fun v => visit L d (v * PGSIZE)
          return true : VmM Bool) s := by
  rw [PGROUNDUP_lt hsz hlt, pagesIn_eq hsz]
  exact deallocEnds_eq hsz (rounds_enough oldsz newsz) s

lemma deallocLoop_visits (s : Phys) :
    deallocLoop L d oldsz (oldsz / PGSIZE + 1) (PGROUNDUP newsz) s =
      (pagesIn oldsz newsz).forM (fun v => visit L d (v * PGSIZE)) s := by
  rw [deallocLoop_eq, bind_congr_of_run (deallocEnds_visits hsz hlt s), bind_assoc]
  simp only [pure_bind]
  exact congrFun (bind_pure _) s

end Rounds

/-- **Skipping makes no difference.** -/
lemma deallocuvm_eq {oldsz newsz : ℕ} (hsz : oldsz ≤ KERNBASE) :
    deallocuvm L d oldsz newsz = deallocEach L d oldsz newsz := by
  funext s
  rw [deallocuvm, deallocEach]
  split_ifs with hle
  · rfl
  · rw [not_le] at hle
    refine bind_congr_of_run ?_
    rw [deallocLoop_visits hsz hle, addresses_eq hsz hle]
    simp only [List.forM_eq_forM, List.forM_map]

/-! ### What the visits do -/

/-- **The user pages are distinct pages of the allocator**, and none of them is the page directory
or a page table. -/
structure Distinct (L : Layout) (s : Phys) (d : ℕ) : Prop where
  inj : ∀ p q n, pageAt s d p = some n → pageAt s d q = some n → p = q
  valid : ∀ v n, upage s d v = some n → L.Valid n

/-- The PTEs of `vs` that are present are cleared and their pages are freed, in this order; nothing
else changes. -/
structure Freed (d : ℕ) (vs : List ℕ) (s s' : Phys) : Prop where
  freelist : s'.freelist = (vs.filterMap (upage s d)).reverse ++ s.freelist
  ent : ∀ v, ent s' d v = if v ∈ vs ∧ upage s d v ≠ none then 0 else Vm.ent s d v
  table : table s' d = Vm.table s d
  page : ∀ k, (∀ v ∈ vs, upage s d v ≠ some k) → (∀ i, Vm.table s d i ≠ some k) →
    s'.page k = s.page k
  fails : s'.fails = s.fails

lemma Distinct.space (h : Distinct L s d) :
    Space { s with freelist := [] } d ∅ {n | ∃ p, pageAt s d p = some n} where
  inj := h.inj
  nodup := List.nodup_nil
  free_hold _ hn := by cases hn
  free_held _ hn := by cases hn
  held_hold _ hn := hn.elim
  total n := by
    simp only [List.not_mem_nil, Set.mem_empty_iff_false, false_or]
    rfl

namespace Freed

variable {vs : List ℕ} {v : ℕ}

lemma nil (s : Phys) : Freed d [] s s :=
  ⟨rfl, fun _ => (if_neg fun h => (by cases h.1)).symm, rfl, fun _ _ _ => rfl, rfl⟩

/-- Nothing is there. -/
lemma refl (h : upage s d v = none) : Freed d [v] s s where
  freelist := by rw [List.filterMap_cons_none h]; rfl
  ent w := by
    rw [if_neg]
    rintro ⟨hw, hne⟩
    rw [List.mem_singleton.mp hw] at hne
    exact hne h
  table := rfl
  page _ _ _ := rfl
  fails := rfl

lemma upage_eq (h : Freed d vs s s') (v : ℕ) :
    upage s' d v = if v ∈ vs then none else upage s d v := by
  by_cases hv : v ∈ vs
  · rw [if_pos hv]
    cases hup : upage s d v with
    | none =>
      have hent : Vm.ent s' d v = Vm.ent s d v := by
        rw [h.ent, if_neg fun hc => hc.2 hup]
      rw [upage, hent]
      exact hup
    | some n =>
      have hent : Vm.ent s' d v = 0 := by
        rw [h.ent, if_pos ⟨hv, by rw [hup]; exact Option.some_ne_none n⟩]
      rw [upage, hent]
      exact if_neg fun hc => hc.2 rfl
  · have hent : Vm.ent s' d v = Vm.ent s d v := by
      rw [h.ent, if_neg fun hc => hv hc.1]
    rw [if_neg hv, upage, hent]
    rfl

/-- Pages are only taken out. -/
lemma pageAt_of (h : Freed d vs s s') {p : Place} {n : ℕ} (hp : pageAt s' d p = some n) :
    pageAt s d p = some n := by
  cases p with
  | dir => exact hp
  | table i => rwa [pageAt_table, ← h.table]
  | user v =>
    rw [pageAt_user, h.upage_eq] at hp
    split_ifs at hp
    exact hp

lemma separate (h : Freed d vs s s') (hs : Distinct L s d) : Distinct L s' d where
  inj p q n hp hq := hs.inj p q n (h.pageAt_of hp) (h.pageAt_of hq)
  valid v n hn := hs.valid v n (h.pageAt_of (p := .user v) hn)

lemma cons {s₁ : Phys} (h : Freed d [v] s s₁) (h' : Freed d vs s₁ s') (hv : v ∉ vs) :
    Freed d (v :: vs) s s' where
  freelist := by
    have hsame : vs.filterMap (upage s₁ d) = vs.filterMap (upage s d) := by
      refine List.filterMap_congr fun w hw => ?_
      rw [h.upage_eq, if_neg (by simpa using ne_of_mem_of_not_mem hw hv)]
    rw [h'.freelist, h.freelist, hsame, ← List.append_assoc, ← List.reverse_append]
    exact congrArg (·.reverse ++ s.freelist) (List.filterMap_append (l := [v])).symm
  ent w := by
    rw [h'.ent, h.ent, h.upage_eq]
    by_cases hw : w = v
    · subst hw
      simp [hv]
    · simp [hw]
  table := h'.table.trans h.table
  page k hk ht := by
    rw [h'.page k, h.page k]
    · exact fun w hw => hk w (by rw [List.mem_singleton.mp hw]; exact List.mem_cons_self)
    · exact ht
    · intro w hw
      rw [h.upage_eq, if_neg (by simpa using ne_of_mem_of_not_mem hw hv)]
      exact hk w (List.mem_cons_of_mem _ hw)
    · rwa [h.table]
  fails := h'.fails.trans h.fails

end Freed

/-- The page of a PTE is freed and the PTE is cleared. -/
lemma Distinct.freed (h : Distinct L s d) {v n t : ℕ} (hn : upage s d v = some n)
    (ht : table s d (v / NPTENTRIES) = some t) : Freed d [v] s (s.unmap n t (v % NPTENTRIES)) where
  freelist := by
    rw [List.filterMap_cons_some hn]
    rfl
  ent w := by
    have hent := congrFun (h.space.unmap_ent hn ht) w
    refine hent.trans ?_
    by_cases hw : w = v
    · subst hw
      simp [hn]
    · simp only [Function.update_of_ne hw, List.mem_singleton, hw, false_and, if_false]
      rfl
  table := h.space.unmap_table hn ht
  page k hk htab := unmap_page_of_ne s _ (fun heq => hk v List.mem_cons_self (heq ▸ hn))
    fun heq => htab _ (heq ▸ ht)
  fails := rfl

/-- **One visit.** -/
lemma visit_spec (h : Distinct L s d) {v : ℕ} (hv : v < UPAGES) :
    Post (visit L d (v * PGSIZE)) s (fun _ s' => Freed d [v] s s') (fun _ _ => False) := by
  rw [visit, post_bind, post_walk, PDX_page (lt_of_lt_of_le hv (by decide))]
  cases ht : table s d (v / NPTENTRIES) with
  | none => exact .refl (umem_none.mp (umem_of_no_table ht))
  | some t =>
    dsimp only [Option.map_some]
    rw [PTX_page, post_bind, post_loadEntry, ← ent_of_table ht]
    refine post_ite.mpr ⟨fun hp => ?_, fun hp => .refl ((upage_none hv).mpr (not_not.mp hp))⟩
    have hn : upage s d v = some (ent s d v / PGSIZE) := upage_some.mpr ⟨hv, hp, rfl⟩
    have hvalid := h.valid v _ hn
    rw [if_neg hvalid.ne_zero, post_bind, post_kfree hvalid, post_storeEntry]
    exact h.freed hn ht

/-- **The visits**, by induction on the pages. -/
lemma visits_spec (h : Distinct L s d) {vs : List ℕ} (hvs : ∀ v ∈ vs, v < UPAGES)
    (hnodup : vs.Nodup) :
    Post (vs.forM fun v => visit L d (v * PGSIZE)) s (fun _ s' => Freed d vs s s')
      (fun _ _ => False) := by
  induction vs generalizing s with
  | nil => exact .nil s
  | cons v vs ih =>
    obtain ⟨hv, hnodup⟩ := List.nodup_cons.mp hnodup
    refine (visit_spec h (hvs v List.mem_cons_self)).seq fun _ s₁ h₁ => ?_
    refine (ih (h₁.separate h) (fun w hw => hvs w (List.mem_cons_of_mem _ hw)) hnodup).imp
      fun _ s' h' => h₁.cons h' hv

lemma visits_total (h : Distinct L s d) {vs : List ℕ} (hvs : ∀ v ∈ vs, v < UPAGES)
    (hnodup : vs.Nodup) :
    ∃ s', vs.forM (fun v => visit L d (v * PGSIZE)) s = .ok () s' ∧ Freed d vs s s' := by
  obtain ⟨_, s', hrun, hfreed⟩ := (visits_spec h hvs hnodup).total fun _ _ => id
  exact ⟨s', hrun, hfreed⟩

/-- **`deallocuvm`**: it ends, has the effect of visiting every page address of the range, and frees
and clears exactly the PTEs there that are present. -/
theorem deallocuvm_exact {oldsz newsz : ℕ} (hsz : oldsz ≤ KERNBASE) (h : Distinct L s d) :
    deallocuvm L d oldsz newsz = deallocEach L d oldsz newsz ∧
    (newsz < oldsz → ∀ s, deallocEnds L d oldsz (oldsz / PGSIZE + 1) (PGROUNDUP newsz) s
      = (deallocLoop L d oldsz (oldsz / PGSIZE + 1) (PGROUNDUP newsz) >>= fun _ => pure true) s) ∧
    ∃ s', deallocuvm L d oldsz newsz s = .ok (if newsz < oldsz then newsz else oldsz) s' ∧
      Freed d (pagesIn oldsz newsz) s s' := by
  refine ⟨deallocuvm_eq hsz, fun hlt s => ?_, ?_⟩
  · rw [deallocEnds_visits hsz hlt, bind_congr_of_run (deallocLoop_visits hsz hlt s)]
  · by_cases hlt : newsz < oldsz
    · obtain ⟨s', hrun, hfreed⟩ := visits_total h (fun v => lt_of_mem_pagesIn) (nodup_pagesIn hsz)
      rw [← deallocLoop_visits hsz hlt] at hrun
      rw [deallocuvm, if_neg (not_le.mpr hlt), if_pos hlt]
      exact ⟨s', bind_of_ok hrun, hfreed⟩
    · have hnil : pagesIn oldsz newsz = [] := by
        rw [pagesIn, List.filter_eq_nil_iff]
        simp only [decide_eq_true_iff]
        intro v _
        omega
      rw [deallocuvm, if_pos (not_lt.mp hlt), if_neg hlt, hnil]
      exact ⟨s, rfl, .nil s⟩

/-- An empty process gets one page and gives it back; the range goes on where there is no page
table. -/
theorem deallocuvm_exact_absent : ∃ s s', upage s 0x2000 0 ≠ none ∧ table s 0x2000 1 = none ∧
    deallocuvm smallKernel 0x2000 0x402000 0 s = .ok 0 s' ∧
    Freed 0x2000 (pagesIn 0x402000 0) s s' := by
  obtain ⟨s, hrun, hpage, habsent⟩ :
      ∃ s, growproc smallKernel 0x2000 0 4096 emptyDir = .ok (some 4096) s ∧
        upage s 0x2000 0 ≠ none ∧ table s 0x2000 1 = none := by
    decide +kernel
  have hspace := ((growproc_evolved (E := fun _ _ => False) valid_small space_emptyDir (by decide)
    (mapped_zeroPage rfl) (by decide : -2 ^ 31 ≤ (4096 : ℤ)) (by decide)).ok hrun).1.space
  have hsep : Distinct smallKernel s 0x2000 :=
    ⟨hspace.inj, fun v n hn => valid_small n (hspace.mem_of_hold (p := Place.user v) hn)⟩
  obtain ⟨-, -, s', hdealloc, hfreed⟩ : _ ∧ _ ∧
      ∃ s', deallocuvm smallKernel 0x2000 0x402000 0 s
        = .ok (if 0 < 0x402000 then 0 else 0x402000) s' ∧ Freed 0x2000 (pagesIn 0x402000 0) s s' :=
    deallocuvm_exact (by decide : 0x402000 ≤ KERNBASE) hsep
  rw [if_pos (by decide)] at hdealloc
  exact ⟨s, s', hpage, habsent, hdealloc, hfreed⟩

end Xv6.Vm
