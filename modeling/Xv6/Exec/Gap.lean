import Xv6.Exec.Stack

/-!
Argument strings for which `copyout` follows a null pointer (`uva2ka`, `walkpgdir`).

Between the end of physical memory and the devices there are no page tables, and `uva2ka` does not
look whether `walkpgdir` returns 0.

* `pushStack_returns_iff`: the stack pointer must not wrap around to these addresses.
* `kernelDir`: the page directory of an empty address space, written down.
-/

namespace Xv6.Exec

open Xv6.Vm Transition

variable {L : Layout} {H W : Set ℕ} {d sz sz' : ℕ} {vm vm₁ : Phys} {argv : List (List UInt8)}

/-- The stack pointer wraps around, or it does not. -/
lemma pushStack_post (hW : ∀ n ∈ W, L.Valid n) (h : Making L H W d sz vm)
    (halloc : allocStack L d sz vm = .ok (some sz') vm₁) (hargs : ∀ a ∈ argv, a.length < KERNBASE) :
    Post (pushStack d sz' argv) vm₁ (fun _ _ => ¬Gaps sz' [] argv)
      (fun e _ => e = .nullPte ∧ Gaps sz' [] argv) := by
  cases (allocStack_spec (E := fun _ _ => False) hW h).ok halloc with
  | made _ hs _ _ => exact (pushStack_spec hs hargs).imp fun _ _ hr => hr.1

/-- **The arguments are pushed without following a null pointer** exactly if for no string, when
those before it fit in the stack page, the stack pointer wraps around to the addresses without page
tables. -/
theorem pushStack_returns_iff (hW : ∀ n ∈ W, L.Valid n) (h : Making L H W d sz vm)
    (halloc : allocStack L d sz vm = .ok (some sz') vm₁) (hargs : ∀ a ∈ argv, a.length < KERNBASE) :
    (∃ r vm', pushStack d sz' argv vm₁ = .ok r vm') ↔
      ∀ i < argv.length, i < MAXARG → used (argv.take i) ≤ PGSIZE →
        ¬Window sz' (used (argv.take (i + 1))) := by
  have hgaps : Gaps sz' [] argv ↔ ¬∀ i < argv.length, i < MAXARG → used (argv.take i) ≤ PGSIZE →
      ¬Window sz' (used (argv.take (i + 1))) := by
    simp only [Gaps, List.length_nil, Nat.zero_add, List.nil_append]
    push Not
    rfl
  have hpost := pushStack_post hW h halloc hargs
  constructor
  · rintro ⟨r, vm', hrun⟩
    exact not_not.mp fun hno => hpost.ok hrun (hgaps.mpr hno)
  · intro hno
    obtain ⟨r, vm', hrun, -⟩ := hpost.total fun e vm' he => absurd hno (hgaps.mp he.2)
    exact ⟨r, vm', hrun⟩

/-! ### A page directory -/

/-- A page with the given words. -/
def pageOf (w : ℕ → ℕ) : Page := fun o => UInt8.ofNat (w (o / 4) / 2 ^ (8 * (o % 4)))

lemma word_pageOf {w : ℕ → ℕ} {i : ℕ} (h : w i < 2 ^ 32) : word (pageOf w) i = w i := by
  have hbyte : ∀ k < 4, (pageOf w (4 * i + k)).toNat = w i / 2 ^ (8 * k) % 2 ^ 8 := by
    intro k hk
    have hdiv : (4 * i + k) / 4 = i := by omega
    have hmod : (4 * i + k) % 4 = k := by omega
    rw [pageOf, hdiv, hmod, UInt8.toNat_ofNat']
  have h₀ := hbyte 0 (by decide)
  have h₁ := hbyte 1 (by decide)
  have h₂ := hbyte 2 (by decide)
  have h₃ := hbyte 3 (by decide)
  rw [Nat.add_zero] at h₀
  rw [word, h₀, h₁, h₂, h₃]
  omega

/-- The page tables of the kernel part. -/
def IsKernelTable (i : ℕ) : Prop := 512 ≤ i ∧ i < 568 ∨ 1016 ≤ i ∧ i < 1024

instance (i : ℕ) : Decidable (IsKernelTable i) := inferInstanceAs (Decidable (_ ∨ _))

/-- The words of the page directory: the page table `i` is in the page `0x3000 + i`. -/
def dirWord (i : ℕ) : ℕ := if IsKernelTable i then (0x3000 + i) * PGSIZE ||| 7 else 0

/-- The page directory and the page tables. -/
def kernelPage (n : ℕ) : Page :=
  if n = 0x2000 then pageOf dirWord
  else pageOf fun j => kent smallKernel ((n - 0x3000) * NPTENTRIES + j)

/-- **An empty address space** with its page directory in the page `0x2000`, and four free pages. -/
def kernelDir : Phys where
  page := kernelPage
  freelist := [0x2001, 0x2002, 0x2003, 0x2004]
  fails := fun _ => false

lemma kent_lt (L : Layout) (v : ℕ) : kent L v < 2 ^ 32 := by
  obtain ⟨p, hdata, hlo, hhi⟩ := L.exists_data
  have hp : L.data / PGSIZE = p := by rw [hdata, Nat.mul_div_cancel _ (by decide)]
  have hrow : ∀ {v₀ n m perm : ℕ} {e : ℕ → ℕ}, n + m ≤ 2 ^ 20 → perm < PGSIZE → e v < 2 ^ 32 →
      mapRange v₀ n m perm e v < 2 ^ 32 := by
    intro v₀ n m perm e hn hperm he
    unfold mapRange
    split
    · rw [Nat.or_assoc]
      exact entry_lt (by omega) (or_present_lt hperm)
    · exact he
  rw [kent, hp]
  exact hrow (by decide) (by decide) (hrow (by omega) (by decide) (hrow (by omega) (by decide)
    (hrow (by decide) (by decide) (by decide))))

lemma table_kernelDir (i : ℕ) :
    table kernelDir 0x2000 i = if IsKernelTable i then some (0x3000 + i) else none := by
  have hpage : kernelDir.page 0x2000 = pageOf dirWord := by
    change kernelPage 0x2000 = _
    rw [kernelPage, if_pos rfl]
  have hlt : dirWord i < 2 ^ 32 := by
    unfold dirWord
    split
    · next hi =>
      refine entry_lt ?_ (by decide)
      unfold IsKernelTable at hi
      omega
    · decide
  unfold table
  rw [hpage, word_pageOf hlt, dirWord]
  split
  · next hi =>
    have hi' : i < NPDENTRIES := by
      unfold IsKernelTable at hi
      simp only [NPDENTRIES]
      omega
    have hpres : ((0x3000 + i) * PGSIZE ||| 7) &&& PTE_P ≠ 0 := by
      rw [present_iff, ← Nat.mod_mod_of_dvd _ (by decide : 2 ∣ PGSIZE), entry_mod _ (by decide)]
    rw [if_pos ⟨hi', hpres⟩, entry_div _ (by decide)]
  · rw [if_neg fun hp => hp.2 rfl]

lemma kent_eq_zero {v : ℕ} (h : ¬IsKernelTable (v / NPTENTRIES)) : kent smallKernel v = 0 := by
  have hdata : smallKernel.data / PGSIZE = 0x200 := rfl
  unfold IsKernelTable at h
  simp only [NPTENTRIES] at h
  rw [kent, hdata]
  unfold mapRange
  rw [if_neg (by omega), if_neg (by omega), if_neg (by omega), if_neg (by omega)]

lemma kernelPart_kernelDir : KernelPart smallKernel kernelDir 0x2000 := by
  refine ⟨fun v _ => ?_, fun i hi => ?_⟩
  · by_cases hi : IsKernelTable (v / NPTENTRIES)
    · have htab : table kernelDir 0x2000 (v / NPTENTRIES) = some (0x3000 + v / NPTENTRIES) := by
        rw [table_kernelDir, if_pos hi]
      have hpage : kernelDir.page (0x3000 + v / NPTENTRIES)
          = pageOf fun j => kent smallKernel (v / NPTENTRIES * NPTENTRIES + j) := by
        change kernelPage _ = _
        rw [kernelPage, if_neg (by simp only [NPTENTRIES]; omega), Nat.add_sub_cancel_left]
      rw [ent_of_table htab, hpage,
        word_pageOf (w := fun j => kent smallKernel (v / NPTENTRIES * NPTENTRIES + j)) (kent_lt ..),
        Nat.div_add_mod']
    · rw [ent_of_none (by rw [table_kernelDir, if_neg hi]), kent_eq_zero hi]
  · have hiff : IsKernelTable i ↔ i < 568 ∨ 1016 ≤ i ∧ i < NPDENTRIES := by
      simp only [IsKernelTable, UTABLES, UPAGES, KERNBASE, PGSIZE, NPTENTRIES, NPDENTRIES] at *
      omega
    rw [table_kernelDir, ← hiff]
    by_cases hk : IsKernelTable i
    · rw [if_pos hk]
      exact iff_of_true (Option.some_ne_none _) hk
    · rw [if_neg hk]
      exact iff_of_false (fun hne => hne rfl) hk

/-- The pages of `kernelDir`. -/
def kernelPages : Set ℕ := {n | n ∈ kernelDir.freelist ∨ ∃ p, pageAt kernelDir 0x2000 p = some n}

lemma umem_kernelDir (v : ℕ) : umem kernelDir 0x2000 v = none := by
  by_cases hv : v < UPAGES
  · refine umem_of_no_table ?_
    rw [table_kernelDir, if_neg]
    unfold IsKernelTable
    simp only [UPAGES, KERNBASE, PGSIZE, NPTENTRIES] at *
    omega
  · rw [umem_none, upage, if_neg fun h => hv h.1]

/-- The places of `kernelDir`. -/
lemma pageAt_kernelDir {p : Place} {n : ℕ} (h : pageAt kernelDir 0x2000 p = some n) :
    p = .dir ∧ n = 0x2000 ∨ ∃ i, p = .table i ∧ IsKernelTable i ∧ n = 0x3000 + i := by
  cases p with
  | dir => exact .inl ⟨rfl, (Option.some.inj h).symm⟩
  | table i =>
    rw [pageAt_table, table_kernelDir] at h
    split at h
    · next hi => exact .inr ⟨i, rfl, hi, (Option.some.inj h).symm⟩
    · cases h
  | user v =>
    rw [pageAt_user, umem_none.mp (umem_kernelDir v)] at h
    cases h

lemma making_kernelDir : Making smallKernel ∅ kernelPages 0x2000 0 kernelDir := by
  refine ⟨⟨fun p q n hp hq => ?_, by decide, fun n hn p hp => ?_, fun _ _ => id, fun _ h => h.elim,
    fun n => ?_⟩, kernelPart_kernelDir, fun v => ?_, by decide⟩
  · obtain ⟨rfl, rfl⟩ | ⟨i, rfl, -, rfl⟩ := pageAt_kernelDir hp <;>
      obtain ⟨rfl, hn⟩ | ⟨j, rfl, -, hn⟩ := pageAt_kernelDir hq
    · rfl
    · omega
    · omega
    · rw [Nat.add_left_cancel hn]
  · have hle : 0x2000 < n ∧ n < 0x3000 := by
      fin_cases hn <;> decide
    obtain ⟨-, rfl⟩ | ⟨i, -, -, rfl⟩ := pageAt_kernelDir hp
    · omega
    · omega
  · rw [kernelPages, Set.mem_ofPred_eq]
    simp
  · rw [umem_kernelDir]
    exact iff_of_false (fun h => h rfl) (Nat.not_lt_zero _)

lemma valid_kernelPages : ∀ n ∈ kernelPages, smallKernel.Valid n := by
  rintro n (hn | ⟨p, hp⟩)
  · fin_cases hn <;> exact ⟨by decide, by decide⟩
  · obtain ⟨-, rfl⟩ | ⟨i, -, hi, rfl⟩ := pageAt_kernelDir hp
    · exact ⟨by decide, by decide⟩
    · unfold IsKernelTable at hi
      simp only [Layout.Valid, smallKernel, PHYSTOP, PGSIZE]
      omega

/-- There is a stack page. -/
lemma exists_allocStack :
    ∃ vm₁, allocStack smallKernel 0x2000 0 kernelDir = .ok (some 8192) vm₁ := by
  decide +kernel

/-- A short argument is pushed. -/
theorem pushStack_returns_short :
    ∃ vm₁ r vm', allocStack smallKernel 0x2000 0 kernelDir = .ok (some 8192) vm₁ ∧
    pushStack 0x2000 8192 [[97]] vm₁ = .ok r vm' := by
  obtain ⟨vm₁, halloc⟩ := exists_allocStack
  have hshort : ∀ i < 1, i < MAXARG → used ([[97]].take i) ≤ PGSIZE →
      ¬Window 8192 (used ([[97]].take (i + 1))) := by
    intro i hi _ _ hw
    obtain rfl : i = 0 := by omega
    exact absurd hw.1 (by decide)
  have hargs : ∀ a ∈ ([[97]] : List (List UInt8)), a.length < KERNBASE := by decide
  obtain ⟨r, vm', hrun⟩ :=
    (pushStack_returns_iff valid_kernelPages making_kernelDir halloc hargs).mpr hshort
  exact ⟨vm₁, r, vm', halloc, hrun⟩

/-- An argument of 48 MB. -/
lemma pushStack_wraps {vm₁ : Phys}
    (halloc : allocStack smallKernel 0x2000 0 kernelDir = .ok (some 8192) vm₁) {arg : List UInt8}
    (hlen : arg.length = 0x3000000) :
    ∃ vm', pushStack 0x2000 8192 [arg] vm₁ = .error .nullPte vm' := by
  have hargs : ∀ a ∈ [arg], a.length < KERNBASE := fun a ha => by
    rw [List.mem_singleton.mp ha, hlen]
    decide
  have hpost := pushStack_post valid_kernelPages making_kernelDir halloc hargs
  have hgaps : Gaps 8192 [] [arg] := by
    refine ⟨0, Nat.one_pos, by decide, Nat.zero_le _, ?_⟩
    change Window 8192 (room arg.length + 0)
    rw [hlen]
    exact ⟨by decide, by decide⟩
  cases hrun : pushStack 0x2000 8192 [arg] vm₁ with
  | ok r vm' => exact absurd hgaps (hpost.ok hrun)
  | error e vm' =>
    obtain ⟨rfl, -⟩ := hpost.error hrun
    exact ⟨vm', rfl⟩

/-- **The stack pointer wraps around to an address without a page table.** -/
theorem pushStack_long :
    ∃ vm₁ vm', allocStack smallKernel 0x2000 0 kernelDir = .ok (some 8192) vm₁ ∧
    pushStack 0x2000 8192 [List.replicate 0x3000000 97] vm₁ = .error .nullPte vm' := by
  obtain ⟨vm₁, halloc⟩ := exists_allocStack
  obtain ⟨vm', hrun⟩ := pushStack_wraps halloc (List.length_replicate (n := 0x3000000) (a := 97))
  exact ⟨vm₁, vm', halloc, hrun⟩

end Xv6.Exec
