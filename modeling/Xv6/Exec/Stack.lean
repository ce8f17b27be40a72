import Xv6.Exec.Load

/-!
The user stack (`exec`, `clearpteu`, `copyout`).

* `Stacked`: an address space with a guard page and a stack page.
* `used`: the room that argument strings take.
* `Window`: the room for which the stack pointer wraps around to addresses without page tables.
* `pushArgs_spec`, `pushStack_spec`: what is pushed, and when a null pointer is followed.
-/

namespace Xv6.Exec

open Xv6.Vm Transition Function

variable {L : Layout} {H W : Set ℕ} {d sz top sp : ℕ} {vm vm' : Phys} {pg : Page}
  {E : Vm.Stop → Phys → Prop} {buf : List UInt8}

/-! ### The kernel part -/

/-- The kernel's entries are not for user code. -/
lemma kent_user (L : Layout) (v : ℕ) : kent L v &&& PTE_U = 0 := by
  have hrow : ∀ {v₀ n m perm : ℕ} {e : ℕ → ℕ}, perm = PTE_W ∨ perm = 0 → e v &&& PTE_U = 0 →
      mapRange v₀ n m perm e v &&& PTE_U = 0 := by
    intro v₀ n m perm e hperm he
    unfold mapRange
    split
    · rcases hperm with rfl | rfl
      · rw [flag_mod, Nat.or_assoc, entry_mod _ (by decide)]
        rfl
      · rw [flag_mod, Nat.or_assoc, entry_mod _ (by decide)]
        rfl
    · exact he
  exact hrow (.inl rfl) (hrow (.inl rfl) (hrow (.inr rfl) (hrow (.inl rfl) (by rfl))))

/-- The addresses between physical memory and the devices. -/
def InGap (a : ℕ) : Prop := KERNBASE + PHYSTOP ≤ a ∧ a < DEVSPACE

variable {a : ℕ}

/-- A kernel address that is not in the gap has a page table, and is not for user code. -/
lemma denied_kernel (h : KernelPart L vm d) (hlo : KERNBASE ≤ a) (hlt : a < 2 ^ 32)
    (hgap : ¬InGap a) : Denied vm d (a / PGSIZE) := by
  unfold InGap at hgap
  refine ⟨(h.table _ ?_).mpr ?_, .inr ?_⟩
  · simp only [UTABLES, UPAGES, KERNBASE, PGSIZE, NPTENTRIES] at *
    omega
  · simp only [KERNBASE, PHYSTOP, DEVSPACE, PGSIZE, NPTENTRIES, NPDENTRIES] at *
    omega
  · rw [h.ent _ (by simp only [UPAGES, KERNBASE, PGSIZE] at *; omega)]
    exact kent_user L _

/-- **In the gap there are no page tables.** -/
lemma missing_gap (h : KernelPart L vm d) (hgap : InGap a) :
    table vm d (a / PGSIZE / NPTENTRIES) = none := by
  unfold InGap at hgap
  refine not_not.mp fun hne => ?_
  have := (h.table _ (by
    simp only [UTABLES, UPAGES, KERNBASE, PHYSTOP, PGSIZE, NPTENTRIES] at *
    omega)).mp hne
  simp only [KERNBASE, PHYSTOP, DEVSPACE, PGSIZE, NPTENTRIES, NPDENTRIES] at *
  omega

/-! ### The stack page -/

/-- **An address space with a stack page**, which has the contents `pg`, at the top, and a guard
page below it. -/
structure Stacked (L : Layout) (H W : Set ℕ) (d top : ℕ) (vm : Phys) (pg : Page) : Prop where
  space : Space vm d H W
  kernel : KernelPart L vm d
  two : 2 ≤ top
  lt : top * PGSIZE < KERNBASE
  mapped : ∀ u < top, umem vm d u ≠ none
  guard : ∃ g, umem vm d (top - 2) = some (3, g)
  page : umem vm d (top - 1) = some (7, pg)

/-- Only the stack page changes. -/
structure Written (H W : Set ℕ) (d top : ℕ) (vm vm' : Phys) : Prop where
  ev : Evolved d H W vm vm'
  mem : ∀ u ≠ top - 1, umem vm' d u = umem vm d u

lemma Written.trans {vm₁ vm₂ vm₃ : Phys} (h : Written H W d top vm₁ vm₂)
    (h' : Written H W d top vm₂ vm₃) : Written H W d top vm₁ vm₃ :=
  ⟨h.ev.trans h'.ev, fun u hu => (h'.mem u hu).trans (h.mem u hu)⟩

/-- Bytes are pushed into the stack page. -/
lemma Stacked.push (h : Stacked L H W d top vm pg) (hbuf : buf ≠ []) (hlo : (top - 1) * PGSIZE ≤ sp)
    (hhi : sp + buf.length ≤ top * PGSIZE) :
    Post (copyout d sp buf) vm
      (fun r vm' => r = true ∧ Written H W d top vm vm' ∧
        Stacked L H W d top vm' (writeBytes pg (sp % PGSIZE) buf)) E := by
  have hlen := List.length_pos_iff.mpr hbuf
  have htwo := h.two
  have hlt := h.lt
  have hpage : sp / PGSIZE = top - 1 := by
    simp only [PGSIZE] at *
    omega
  refine (copyout_page h.space ?_ ?_ (hpage ▸ h.page) (by decide)).imp ?_
  · simp only [KERNBASE] at *
    omega
  · simp only [PGSIZE] at *
    omega
  rintro r vm' ⟨rfl, hev, hmem⟩
  rw [hpage] at hmem
  have hother : ∀ u ≠ top - 1, umem vm' d u = umem vm d u := fun u hu => by
    rw [hmem, update_of_ne hu]
  refine ⟨rfl, ⟨hev, hother⟩, hev.space, h.kernel.same hev.kernel, h.two, h.lt,
    fun u hu => ?_, ?_, ?_⟩
  · by_cases hne : u = top - 1
    · rw [hne, hmem, update_self]
      exact Option.some_ne_none _
    · rw [hother u hne]
      exact h.mapped u hu
  · obtain ⟨g, hg⟩ := h.guard
    exact ⟨g, by rw [hother _ (by omega), hg]⟩
  · rw [hmem, update_self]

/-- Bytes that start below the stack page do not pass the guard page. -/
lemma Stacked.guarded (h : Stacked L H W d top vm pg) (hbuf : buf ≠ [])
    (hlo : sp < (top - 1) * PGSIZE) (hhi : (top - 2) * PGSIZE < sp + buf.length) :
    Post (copyout d sp buf) vm (fun r vm' => r = false ∧ Evolved d H W vm vm') E := by
  obtain ⟨g, hg⟩ := h.guard
  have htwo := h.two
  have hlt := h.lt
  rcases Nat.lt_or_ge ((top - 2) * PGSIZE) sp with hin | hout
  · have hpage : sp / PGSIZE = top - 2 := by
      simp only [PGSIZE] at *
      omega
    refine (copyout_denied ?_ hbuf (hpage ▸ denied_of_umem hg (by decide))).imp ?_
    · simp only [KERNBASE, PGSIZE] at *
      omega
    · rintro r vm' ⟨rfl, rfl⟩
      exact ⟨rfl, .refl h.space⟩
  · exact copyout_crosses h.space hout hhi (fun u hu => h.mapped u (by omega)) hg (by decide)

/-! ### The room for the arguments -/

/-- The room for a string and its terminator: a multiple of 4. -/
def room (len : ℕ) : ℕ := (len + 4) / 4 * 4

/-- The room for argument strings. -/
def used (args : List (List UInt8)) : ℕ := (args.map fun a => room a.length).sum

@[simp] lemma used_nil : used [] = 0 := rfl

lemma used_append (args args' : List (List UInt8)) :
    used (args ++ args') = used args + used args' := by
  rw [used, List.map_append, List.sum_append, used, used]

lemma used_concat (args : List (List UInt8)) (a : List UInt8) :
    used (args ++ [a]) = used args + room a.length := by
  rw [used_append]
  rfl

lemma used_dvd (args : List (List UInt8)) : 4 ∣ used args := by
  induction args with
  | nil => exact Nat.dvd_zero 4
  | cons a args ih => exact Nat.dvd_add (Nat.dvd_mul_left 4 _) ih

/-- **The stack pointer wraps around to the gap.** -/
def Window (sz u : ℕ) : Prop :=
  sz + (2 ^ 32 - DEVSPACE) < u ∧ u ≤ sz + (2 ^ 32 - (KERNBASE + PHYSTOP))

/-- The stack pointer below an argument string. -/
lemma below_eq {len : ℕ} (hsp : 4 ∣ sp) (hlt : sp < KERNBASE) (hlen : len < KERNBASE) :
    below sp len = if room len ≤ sp then sp - room len else 2 ^ 32 + sp - room len := by
  obtain ⟨k, rfl⟩ := hsp
  unfold below room
  simp only [KERNBASE] at *
  split <;> omega

/-- What happens to an argument string with which the room `u` is used. -/
inductive PushOne (L : Layout) (H W : Set ℕ) (d top u : ℕ) (vm : Phys) (pg' : Page) :
    Bool → Phys → Prop
  | fits {vm' : Phys} (hle : u ≤ PGSIZE) (hw : Written H W d top vm vm')
      (hs : Stacked L H W d top vm' pg') : PushOne L H W d top u vm pg' true vm'
  | fails {vm' : Phys} (hgt : PGSIZE < u) (hev : Evolved d H W vm vm') :
      PushOne L H W d top u vm pg' false vm'

variable {u : ℕ}

/-- Where a string of the length `len` is put. -/
lemma room_arith {T len x : ℕ} (hlo : 2 * PGSIZE ≤ T) (hu : u ≤ PGSIZE) (hlen : len + 1 ≤ x)
    (hroom : x ≤ len + 4) (hno : x ≤ T - u) :
    T - 2 * PGSIZE < T - (u + x) + (len + 1) ∧ T - (u + x) + (len + 1) ≤ T := by
  simp only [PGSIZE] at *
  omega

/-- **An argument string is pushed**, or does not fit, or a null pointer is followed. -/
lemma pushOne_spec (h : Stacked L H W d top vm pg) (hu : u ≤ PGSIZE) (hdvd : 4 ∣ u)
    {a : List UInt8} (ha : a.length < KERNBASE) :
    Post (copyout d (below (top * PGSIZE - u) a.length) (a ++ [0])) vm
      (fun r vm' => ¬Window (top * PGSIZE) (u + room a.length) ∧
        PushOne L H W d top (u + room a.length) vm
          (writeBytes pg ((top * PGSIZE - (u + room a.length)) % PGSIZE) (a ++ [0])) r vm')
      (fun e _ => e = .nullPte ∧ Window (top * PGSIZE) (u + room a.length)) := by
  have htwo := h.two
  have hlt := h.lt
  have hbuf : a ++ [0] ≠ [] := List.append_ne_nil_of_right_ne_nil _ (List.cons_ne_nil _ _)
  have hlen : (a ++ [0]).length = a.length + 1 := List.length_append
  have hsp : 4 ∣ top * PGSIZE - u := Nat.dvd_sub (Dvd.dvd.mul_left (by decide) _) hdvd
  have hroom : a.length + 1 ≤ room a.length ∧ room a.length ≤ a.length + 4 := by
    unfold room
    omega
  have hpages : 2 * PGSIZE ≤ top * PGSIZE := Nat.mul_le_mul_right PGSIZE htwo
  rw [below_eq hsp (by omega) ha]
  generalize room a.length = x at hroom ⊢
  rcases Nat.lt_or_ge (top * PGSIZE - u) x with hwrap | hno
  · -- The stack pointer wraps around.
    rw [if_neg (not_le.mpr hwrap)]
    have hwindow : Window (top * PGSIZE) (u + x) ↔ InGap (2 ^ 32 + (top * PGSIZE - u) - x) := by
      simp only [Window, InGap, KERNBASE, PHYSTOP, DEVSPACE, PGSIZE] at *
      omega
    rw [hwindow]
    have hlt' : 2 ^ 32 + (top * PGSIZE - u) - x < 2 ^ 32 := by omega
    by_cases hgap : InGap (2 ^ 32 + (top * PGSIZE - u) - x)
    · have hrun := copyout_missing hlt' hbuf (missing_gap h.kernel hgap)
      unfold Post
      rw [hrun]
      exact ⟨rfl, hgap⟩
    · refine (copyout_denied hlt' hbuf (denied_kernel h.kernel ?_ hlt' hgap)).imp ?_
      · simp only [KERNBASE, PGSIZE] at *
        omega
      · rintro r vm' ⟨rfl, rfl⟩
        refine ⟨hgap, .fails ?_ (.refl h.space)⟩
        simp only [KERNBASE, PGSIZE] at *
        omega
  · rw [if_pos hno]
    have hone : (top - 1) * PGSIZE + PGSIZE = top * PGSIZE := by
      rw [← Nat.succ_mul, Nat.succ_eq_add_one, Nat.sub_add_cancel (by omega)]
    have hwindow : ¬Window (top * PGSIZE) (u + x) := by
      simp only [Window, KERNBASE, PHYSTOP, DEVSPACE, PGSIZE] at *
      omega
    have harith := room_arith hpages hu hroom.1 hroom.2 hno
    rw [← Nat.sub_mul, ← hlen] at harith
    rw [Nat.sub_sub]
    rcases Nat.lt_or_ge PGSIZE (u + x) with hgt | hle
    · refine (h.guarded hbuf ?_ ?_).imp ?_
      · omega
      · exact harith.1
      · rintro r vm' ⟨rfl, hev⟩
        exact ⟨hwindow, .fails hgt hev⟩
    · refine (h.push hbuf ?_ ?_).imp ?_
      · exact Nat.le_sub_of_add_le ((Nat.add_le_add_left hle _).trans_eq hone)
      · exact harith.2
      · rintro r vm' ⟨rfl, hw, hs⟩
        exact ⟨hwindow, .fits hle hw hs⟩

/-! ### What is on the stack -/

/-- The bytes `bs` are in the page at the address `a`. -/
def Holds (pg : Page) (a : ℕ) (bs : List UInt8) : Prop :=
  ∀ j (hj : j < bs.length), pg ((a + j) % PGSIZE) = bs[j]

lemma holds_write (ha : a % PGSIZE + buf.length ≤ PGSIZE) :
    Holds (writeBytes pg (a % PGSIZE) buf) a buf := by
  intro j hj
  have hoff : (a + j) % PGSIZE = a % PGSIZE + j := by
    simp only [PGSIZE] at *
    omega
  rw [hoff, writeBytes, if_pos ⟨Nat.le_add_right .., Nat.add_lt_add_left hj _⟩,
    Nat.add_sub_cancel_left, List.getD_eq_getElem _ _ hj]

/-- Bytes are written below others, in the same page. -/
lemma Holds.write_below {b : ℕ} {bs : List UInt8} (h : Holds pg a bs) (hb : (top - 1) * PGSIZE ≤ b)
    (hab : b + buf.length ≤ a) (ha : a + bs.length ≤ top * PGSIZE) :
    Holds (writeBytes pg (b % PGSIZE) buf) a bs := by
  intro j hj
  rw [writeBytes, if_neg, h j hj]
  simp only [PGSIZE] at *
  omega

/-- The address of the `i`th argument string. -/
def ptr (sz : ℕ) (args : List (List UInt8)) (i : ℕ) : ℕ := sz - used (args.take (i + 1))

/-- The addresses of the argument strings. -/
def ptrs (sz : ℕ) (args : List (List UInt8)) : List ℕ := (List.range args.length).map (ptr sz args)

lemma length_ptrs (sz : ℕ) (args : List (List UInt8)) : (ptrs sz args).length = args.length := by
  rw [ptrs, List.length_map, List.length_range]

variable {args : List (List UInt8)} {i : ℕ}

lemma ptr_concat (a : List UInt8) (hi : i < args.length) :
    ptr sz (args ++ [a]) i = ptr sz args i := by
  rw [ptr, ptr, List.take_append_of_le_length hi]

lemma ptrs_concat (sz : ℕ) (args : List (List UInt8)) (a : List UInt8) :
    ptrs sz (args ++ [a]) = ptrs sz args ++ [sz - used (args ++ [a])] := by
  rw [ptrs, List.length_append, List.length_singleton, List.range_succ, List.map_append, ptrs]
  congr 1
  · exact List.map_congr_left fun i hi => ptr_concat a (List.mem_range.mp hi)
  · rw [List.map_singleton, ptr, List.take_of_length_le (by rw [List.length_append]; rfl)]

/-- The room for the strings until the `i`th. -/
lemma used_take_le (args : List (List UInt8)) (i : ℕ) : used (args.take i) ≤ used args := by
  have h := used_append (args.take i) (args.drop i)
  rw [List.take_append_drop] at h
  omega

lemma used_take_succ (args : List (List UInt8)) (hi : i < args.length) :
    used (args.take (i + 1)) = used (args.take i) + room args[i].length := by
  rw [List.take_succ_eq_append_getElem hi, used_concat]

lemma used_take_mono (args : List (List UInt8)) {j : ℕ} (hij : i ≤ j) :
    used (args.take i) ≤ used (args.take j) := by
  have h := used_take_le (args.take j) i
  rwa [List.take_take, Nat.min_eq_left hij] at h

/-- The argument strings are in the stack page. -/
def Strings (sz : ℕ) (args : List (List UInt8)) (pg : Page) : Prop :=
  ∀ i (hi : i < args.length), Holds pg (ptr sz args i) (args[i] ++ [0])

lemma le_room (len : ℕ) : len + 1 ≤ room len := by
  unfold room
  omega

/-- An argument string lies in the stack page, above those that come later. -/
lemma ptr_bounds (hsz : used args ≤ sz) (hi : i < args.length) :
    sz - used args ≤ ptr sz args i ∧ ptr sz args i + (args[i].length + 1)
      ≤ sz - used (args.take i) := by
  have h₁ := used_take_le args (i + 1)
  have h₂ := used_take_succ args hi
  have h₃ := le_room args[i].length
  unfold ptr
  omega

lemma Strings.concat {a : List UInt8} (h : Strings (top * PGSIZE) args pg)
    (htop : 0 < top) (hu : used (args ++ [a]) ≤ PGSIZE) :
    Strings (top * PGSIZE) (args ++ [a])
      (writeBytes pg ((top * PGSIZE - used (args ++ [a])) % PGSIZE) (a ++ [0])) := by
  have hlen : (a ++ [0]).length = a.length + 1 := List.length_append
  have hroom := le_room a.length
  have husum := used_concat args a
  have hpage : PGSIZE ≤ top * PGSIZE := Nat.le_mul_of_pos_left PGSIZE htop
  intro i hi
  rw [List.length_append, List.length_singleton] at hi
  rcases Nat.lt_succ_iff_lt_or_eq.mp hi with hlt | rfl
  · have hle : used args ≤ top * PGSIZE := by omega
    obtain ⟨hlo, hhi⟩ := ptr_bounds hle hlt
    have hpage' : (top - 1) * PGSIZE ≤ top * PGSIZE - used (args ++ [a]) := by
      rw [Nat.sub_mul, Nat.one_mul]
      exact Nat.sub_le_sub_left hu _
    rw [ptr_concat a hlt, List.getElem_append_left hlt]
    refine (h i hlt).write_below hpage' ?_ ?_
    · rewrite [hlen]
      omega
    · have hlen' : (args[i] ++ [(0 : UInt8)]).length = args[i].length + 1 := List.length_append
      rewrite [hlen']
      omega
  · have hptr : ptr (top * PGSIZE) (args ++ [a]) args.length
        = top * PGSIZE - used (args ++ [a]) := by
      rw [ptr, List.take_of_length_le (by rw [List.length_append]; rfl)]
    have helem : (args ++ [a])[args.length] = a := by simp
    rw [hptr, helem]
    refine holds_write ?_
    rewrite [hlen]
    simp only [PGSIZE] at *
    omega

/-! ### The code -/

/-- **One of the strings `args`, after the strings `done`, goes to the gap.** -/
def Gaps (sz : ℕ) (done args : List (List UInt8)) : Prop :=
  ∃ i < args.length, done.length + i < MAXARG ∧ used (done ++ args.take i) ≤ PGSIZE ∧
    Window sz (used (done ++ args.take (i + 1)))

lemma gaps_nil (sz : ℕ) (done : List (List UInt8)) : ¬Gaps sz done [] := by
  rintro ⟨i, hi, -⟩
  exact Nat.not_lt_zero i hi

variable {done : List (List UInt8)}

lemma gaps_cons {a : List UInt8} :
    Gaps sz done (a :: args) ↔
      (done.length < MAXARG ∧ used done ≤ PGSIZE ∧ Window sz (used (done ++ [a]))) ∨
        Gaps sz (done ++ [a]) args := by
  have hsplit : ∀ i, done ++ a :: args.take i = done ++ [a] ++ args.take i := fun i => by simp
  constructor
  · rintro ⟨i, hi, hmax, hu, hw⟩
    cases i with
    | zero => exact .inl ⟨hmax, by simpa using hu, by simpa using hw⟩
    | succ i =>
      rw [List.take_succ_cons, hsplit] at hu hw
      refine .inr ⟨i, Nat.lt_of_succ_lt_succ hi, ?_, hu, hw⟩
      rw [List.length_append, List.length_singleton]
      omega
  · rintro (⟨hmax, hu, hw⟩ | ⟨i, hi, hmax, hu, hw⟩)
    · exact ⟨0, Nat.succ_pos _, hmax, by simpa using hu, by simpa using hw⟩
    · refine ⟨i + 1, Nat.succ_lt_succ hi, ?_, ?_, ?_⟩
      · rw [List.length_append, List.length_singleton] at hmax
        omega
      · rwa [List.take_succ_cons, hsplit]
      · rwa [List.take_succ_cons, hsplit]

/-- There is no room for more strings. -/
lemma not_gaps_of_full (h : PGSIZE < used done) : ¬Gaps sz done args := by
  rintro ⟨i, -, -, hu, -⟩
  rw [used_append] at hu
  omega

/-- The argument strings `args` have been pushed. -/
structure Pushed (L : Layout) (H W : Set ℕ) (d top : ℕ) (args : List (List UInt8)) (vm vm' : Phys) :
    Prop where
  written : Written H W d top vm vm'
  count : args.length ≤ MAXARG
  used : used args ≤ PGSIZE
  page : ∃ pg, Stacked L H W d top vm' pg ∧ Strings (top * PGSIZE) args pg

/-- **There is room for the arguments and their addresses** in the stack page. -/
def Fits (args : List (List UInt8)) : Prop :=
  args.length ≤ MAXARG ∧ used args + 4 * (3 + args.length + 1) ≤ PGSIZE

/-- **The arguments are pushed**, or they do not fit, or a null pointer is followed. -/
lemma pushArgs_spec (h : Stacked L H W d top vm pg) (hcount : done.length ≤ MAXARG)
    (hu : used done ≤ PGSIZE) (hstr : Strings (top * PGSIZE) done pg)
    (hargs : ∀ a ∈ args, a.length < KERNBASE) :
    Post (pushArgs d args (top * PGSIZE - used done) (ptrs (top * PGSIZE) done)) vm
      (fun r vm' => ¬Gaps (top * PGSIZE) done args ∧ Evolved d H W vm vm' ∧
        (r = none → ¬Fits (done ++ args)) ∧ ∀ x, r = some x →
          x = (top * PGSIZE - used (done ++ args), ptrs (top * PGSIZE) (done ++ args)) ∧
            Pushed L H W d top (done ++ args) vm vm')
      (fun e _ => e = .nullPte ∧ Gaps (top * PGSIZE) done args) := by
  induction args generalizing done vm pg with
  | nil =>
    rw [List.append_nil]
    refine ⟨gaps_nil _ _, .refl h.space, fun hr => (by cases hr), fun x hx => ?_⟩
    cases hx
    exact ⟨rfl, ⟨.refl h.space, fun _ _ => rfl⟩, hcount, hu, pg, h, hstr⟩
  | cons a args ih =>
    rw [pushArgs, length_ptrs]
    refine post_ite.mpr ⟨fun hmax => ?_, fun hmax => ?_⟩
    · -- There are too many.
      refine ⟨?_, .refl h.space, fun _ hfits => ?_, fun x hx => (by cases hx)⟩
      · rintro ⟨i, -, hlt, -⟩
        omega
      · have := hfits.1
        rw [List.length_append, List.length_cons] at this
        omega
    rw [not_le] at hmax
    have hone := pushOne_spec h hu (used_dvd done) (hargs a List.mem_cons_self)
    rw [← used_concat] at hone
    have hgaps : Gaps (top * PGSIZE) done (a :: args) ↔
        Window (top * PGSIZE) (used (done ++ [a])) ∨ Gaps (top * PGSIZE) (done ++ [a]) args := by
      rw [gaps_cons]
      simp only [hmax, hu, true_and]
    refine hone.bind (fun e _ he => ⟨he.1, hgaps.mpr (.inl he.2)⟩) ?_
    rintro r vm₁ ⟨hno, hpush⟩
    have hgaps' : Gaps (top * PGSIZE) done (a :: args) ↔
        Gaps (top * PGSIZE) (done ++ [a]) args := by
      rw [hgaps]
      exact or_iff_right hno
    simp only [hgaps']
    cases hpush with
    | fails hgt hev =>
      refine ⟨not_gaps_of_full hgt, hev, fun _ hfits => ?_, fun x hx => (by cases hx)⟩
      have hsum := used_append (done ++ [a]) args
      have hle := hfits.2
      rw [List.append_assoc, List.singleton_append] at hsum
      omega
    | fits hle hw hs =>
      have htwo := h.two
      have hbelow : below (top * PGSIZE - used done) a.length
          = top * PGSIZE - used (done ++ [a]) := by
        have hsp : 4 ∣ top * PGSIZE - used done :=
          Nat.dvd_sub (Dvd.dvd.mul_left (by decide) _) (used_dvd done)
        have hpages : 2 * PGSIZE ≤ top * PGSIZE := Nat.mul_le_mul_right PGSIZE htwo
        have hlt := h.lt
        have hsum := used_concat done a
        rw [below_eq hsp (by omega) (hargs a List.mem_cons_self), if_pos, Nat.sub_sub, hsum]
        omega
      rw [hbelow, ← ptrs_concat, if_pos rfl]
      have happ : done ++ a :: args = done ++ [a] ++ args := by simp
      rw [happ]
      refine (ih hs ?_ hle (hstr.concat (by omega) hle)
        fun b hb => hargs b (List.mem_cons_of_mem a hb)).imp
        fun r vm' hr => ⟨hr.1, hw.ev.trans hr.2.1, hr.2.2.1, fun x hx => ?_⟩
      · rw [List.length_append, List.length_singleton]
        exact hmax
      · obtain ⟨hx', hp⟩ := hr.2.2.2 x hx
        exact ⟨hx', hw.trans hp.written, hp.count, hp.used, hp.page⟩

/-- The byte at a user address. -/
def ubyte (vm : Phys) (d a : ℕ) : Option UInt8 :=
  (umem vm d (a / PGSIZE)).map fun x => x.2 (a % PGSIZE)

/-- The bytes `bs` are at the user address `a`. -/
def UserBytes (vm : Phys) (d a : ℕ) (bs : List UInt8) : Prop :=
  ∀ j (hj : j < bs.length), ubyte vm d (a + j) = some bs[j]

lemma Stacked.userBytes (h : Stacked L H W d top vm pg) {bs : List UInt8} (hb : Holds pg a bs)
    (hlo : (top - 1) * PGSIZE ≤ a) (hhi : a + bs.length ≤ top * PGSIZE) : UserBytes vm d a bs := by
  intro j hj
  have hpage : (a + j) / PGSIZE = top - 1 := by
    have := h.two
    simp only [PGSIZE] at *
    omega
  rw [ubyte, hpage, h.page, Option.map_some]
  exact congrArg some (hb j hj)

/-- **The argument stack**: from the stack pointer on there are a fake return address, argc, a
pointer to the array of pointers, and the array, which ends with 0; each of the pointers is that of
a copy of an argument, which ends with NUL.  All of them are in the stack page, and they do not
overlap. -/
structure ArgStack (vm : Phys) (d sz sp : ℕ) (argv : List (List UInt8)) (ptr : ℕ → ℕ) : Prop where
  aligned : 4 ∣ sp
  low : sz - PGSIZE ≤ sp
  fits : sp + 4 * (3 + argv.length + 1) ≤ sz
  words : UserBytes vm d sp (([0xffffffff, argv.length, sp + 12] ++ (List.range argv.length).map ptr
    ++ [0]).flatMap wordBytes)
  strings : ∀ i (hi : i < argv.length), UserBytes vm d (ptr i) (argv[i] ++ [0])
  above : ∀ i < argv.length, sp + 4 * (3 + argv.length + 1) ≤ ptr i
  high : ∀ i (hi : i < argv.length), ptr i + (argv[i].length + 1) ≤ sz
  apart : ∀ i j (hj : j < argv.length), i < j → ptr j + (argv[j].length + 1) ≤ ptr i

lemma length_wordBytes (ws : List ℕ) : (ws.flatMap wordBytes).length = 4 * ws.length := by
  induction ws with
  | nil => rfl
  | cons w ws ih =>
    rw [List.flatMap_cons, List.length_append, ih, List.length_cons, wordBytes, List.length_map,
      List.length_range]
    omega

/-- The bytes of `ustack`. -/
lemma ustack_eq {sp : ℕ} (hsp : 4 * (3 + args.length + 1) ≤ sp) (hlt : sp < 2 ^ 32) :
    ustack sp (ptrs sz args) = [0xffffffff, args.length, sp - 4 * (3 + args.length + 1) + 12]
      ++ (List.range args.length).map (ptr sz args) ++ [0] := by
  have hthird : (sp + (2 ^ 32 - (args.length + 1) * 4)) % 2 ^ 32
      = sp - 4 * (3 + args.length + 1) + 12 := by omega
  rw [ustack, length_ptrs, hthird]
  rfl

/-- What `pushStack` leaves. -/
inductive PushedTo (L : Layout) (H W : Set ℕ) (d top : ℕ) (argv : List (List UInt8)) (vm : Phys) :
    Option ℕ → Phys → Prop
  | failed {vm' : Phys} (ev : Evolved d H W vm vm') (full : ¬Fits argv) :
      PushedTo L H W d top argv vm none vm'
  | pushed {vm' : Phys} {sp : ℕ} (written : Written H W d top vm vm')
      (args : ArgStack vm' d (top * PGSIZE) sp argv (ptr (top * PGSIZE) argv)) :
      PushedTo L H W d top argv vm (some sp) vm'

lemma ustack_room {T n : ℕ} (hT : 2 * PGSIZE ≤ T) (hu : u ≤ PGSIZE) (hn : n ≤ MAXARG) :
    4 * (3 + n + 1) ≤ T - u := by
  simp only [PGSIZE, MAXARG] at *
  omega

lemma guard_arith (htop : 2 ≤ top) (hu : u ≤ PGSIZE) : (top - 2) * PGSIZE < top * PGSIZE - u := by
  simp only [PGSIZE] at *
  omega

/-- `ustack` is pushed below the strings. -/
lemma argStack_of_push {argv : List (List UInt8)} {words : List UInt8} (hused : used argv ≤ PGSIZE)
    (hstr : Strings (top * PGSIZE) argv pg) (hin : (top - 1) * PGSIZE ≤ sp)
    (hend : sp + 4 * (3 + argv.length + 1) = top * PGSIZE - used argv)
    (hwords : ([0xffffffff, argv.length, sp + 12] ++ (List.range argv.length).map
      (ptr (top * PGSIZE) argv) ++ [0]).flatMap wordBytes = words)
    (hlen : words.length = 4 * (3 + argv.length + 1))
    (hs : Stacked L H W d top vm (writeBytes pg (sp % PGSIZE) words)) :
    ArgStack vm d (top * PGSIZE) sp argv (ptr (top * PGSIZE) argv) := by
  have htop := hs.two
  have hpages : 2 * PGSIZE ≤ top * PGSIZE := Nat.mul_le_mul_right PGSIZE htop
  have hone : top * PGSIZE - PGSIZE = (top - 1) * PGSIZE := by rw [Nat.sub_mul, Nat.one_mul]
  have hle : used argv ≤ top * PGSIZE :=
    hused.trans ((Nat.le_mul_of_pos_left _ (by decide)).trans hpages)
  have hbounds := fun {i : ℕ} (hi : i < argv.length) => ptr_bounds hle hi
  have hhigh : ∀ i (hi : i < argv.length),
      ptr (top * PGSIZE) argv i + (argv[i].length + 1) ≤ top * PGSIZE :=
    fun i hi => (hbounds hi).2.trans (Nat.sub_le ..)
  refine ⟨?_, hone.trans_le hin, hend.trans_le (Nat.sub_le ..), ?_, fun i hi => ?_,
    fun i hi => hend.trans_le (hbounds hi).1, hhigh, fun i j hj hij => ?_⟩
  · have hdvd : 4 ∣ sp + 4 * (3 + argv.length + 1) := by
      rw [hend]
      exact Nat.dvd_sub (Dvd.dvd.mul_left (by decide) _) (used_dvd argv)
    exact (Nat.dvd_add_left (Nat.dvd_mul_right 4 _)).mp hdvd
  · rw [hwords]
    refine hs.userBytes (holds_write ?_) hin ?_
    · rewrite [hlen]
      simp only [PGSIZE] at *
      omega
    · rewrite [hlen, hend]
      exact Nat.sub_le ..
  · have hlen' : (argv[i] ++ [(0 : UInt8)]).length = argv[i].length + 1 := List.length_append
    have habove : sp + words.length ≤ ptr (top * PGSIZE) argv i := by
      rewrite [hlen, hend]
      exact (hbounds hi).1
    have htop' : ptr (top * PGSIZE) argv i + (argv[i] ++ [(0 : UInt8)]).length ≤ top * PGSIZE := by
      rewrite [hlen']
      exact hhigh i hi
    exact hs.userBytes ((hstr i hi).write_below hin habove htop')
      (hin.trans ((Nat.le_add_right ..).trans habove)) htop'
  · exact (hbounds hj).2.trans (Nat.sub_le_sub_left (used_take_mono argv hij) _)

/-- **`pushStack`** -/
lemma pushStack_spec {argv : List (List UInt8)} (h : Stacked L H W d top vm pg)
    (hargs : ∀ a ∈ argv, a.length < KERNBASE) :
    Post (pushStack d (top * PGSIZE) argv) vm
      (fun r vm' => ¬Gaps (top * PGSIZE) [] argv ∧ PushedTo L H W d top argv vm r vm')
      (fun e _ => e = .nullPte ∧ Gaps (top * PGSIZE) [] argv) := by
  have hnone : Strings (top * PGSIZE) [] pg := fun i hi => absurd hi (Nat.not_lt_zero i)
  have hstart := pushArgs_spec h (Nat.zero_le _) (Nat.zero_le _) hnone hargs
  rw [used_nil, Nat.sub_zero, List.nil_append] at hstart
  refine hstart.seq ?_
  rintro r vm₁ ⟨hno, hev, hfull, hr⟩
  cases r with
  | none => exact ⟨hno, .failed hev (hfull rfl)⟩
  | some x =>
    obtain ⟨rfl, hp⟩ := hr x rfl
    obtain ⟨pg₁, hs, hstr⟩ := hp.page
    have htwo := h.two
    have hlt := h.lt
    have hcount := hp.count
    have hused := hp.used
    have hpages : 2 * PGSIZE ≤ top * PGSIZE := Nat.mul_le_mul_right PGSIZE htwo
    have hsp := ustack_room hpages hp.used hp.count
    have hlt' : top * PGSIZE - used argv < 2 ^ 32 :=
      (Nat.sub_le ..).trans_lt (hlt.trans (by decide))
    have hsp' : (top * PGSIZE - used argv + (2 ^ 32 - (3 + argv.length + 1) * 4)) % 2 ^ 32
        = top * PGSIZE - used argv - 4 * (3 + argv.length + 1) := by omega
    dsimp only
    rw [length_ptrs, hsp', ustack_eq hsp hlt']
    have hdvd : 4 ∣ top * PGSIZE - used argv :=
      Nat.dvd_sub (Dvd.dvd.mul_left (by decide) _) (used_dvd argv)
    generalize hwords : ([0xffffffff, argv.length,
      top * PGSIZE - used argv - 4 * (3 + argv.length + 1) + 12]
        ++ (List.range argv.length).map (ptr (top * PGSIZE) argv) ++ [0]).flatMap wordBytes = words
    have hlen : words.length = 4 * (3 + argv.length + 1) := by
      rw [← hwords, length_wordBytes, List.length_append, List.length_append, List.length_map,
        List.length_range]
      rfl
    have hbuf : words ≠ [] := by
      rw [← List.length_pos_iff, hlen]
      exact Nat.mul_pos (by decide) (Nat.succ_pos _)
    have hend : top * PGSIZE - used argv - 4 * (3 + argv.length + 1) + words.length
        = top * PGSIZE - used argv := by
      rw [hlen]
      exact Nat.sub_add_cancel hsp
    have hone : (top - 1) * PGSIZE + PGSIZE = top * PGSIZE := by
      rw [← Nat.succ_mul, Nat.succ_eq_add_one, Nat.sub_add_cancel (by omega)]
    rcases Nat.lt_or_ge (top * PGSIZE - used argv - 4 * (3 + argv.length + 1)) ((top - 1) * PGSIZE)
      with hout | hin
    · -- The array reaches into the guard page.
      refine (hs.guarded hbuf hout ?_).bind (fun _ _ => False.elim) ?_
      · rewrite [hend]
        exact guard_arith htwo hp.used
      · rintro r vm₂ ⟨rfl, hev₂⟩
        refine ⟨hno, .failed (hev.trans hev₂) fun hfits => ?_⟩
        have := hfits.2
        omega
    · refine (hs.push hbuf hin ?_).bind (fun _ _ => False.elim) ?_
      · rewrite [hend]
        exact Nat.sub_le ..
      · rintro r vm₂ ⟨rfl, hw, hs₂⟩
        rw [hlen] at hend
        exact ⟨hno, .pushed (hp.written.trans hw)
          (argStack_of_push hused hstr hin hend hwords hlen hs₂)⟩

/-! ### The two pages -/

/-- What `allocStack` leaves. -/
inductive StackAlloc (L : Layout) (H W : Set ℕ) (d sz : ℕ) (vm : Phys) : Option ℕ → Phys → Prop
  | failed {vm' : Phys} (ev : Evolved d H W vm vm') (out : vm.Works →
      PGROUNDUP sz + 2 * PGSIZE < KERNBASE → Crowded H W (PGROUNDUP sz / PGSIZE + 3)) :
      StackAlloc L H W d sz vm none vm'
  | made {vm' : Phys} {top : ℕ} {pg : Page} (ev : Evolved d H W vm vm')
      (stacked : Stacked L H W d top vm' pg) (size : top * PGSIZE = PGROUNDUP sz + 2 * PGSIZE)
      (mem : ∀ u < top - 2, umem vm' d u = umem vm d u) :
      StackAlloc L H W d sz vm (some (top * PGSIZE)) vm'

lemma PGROUNDUP_le (h : sz ≤ KERNBASE) : PGROUNDUP sz ≤ KERNBASE := by
  simp only [PGROUNDUP, KERNBASE, PGSIZE] at *
  omega

lemma two_pages {t : ℕ} (h : t * PGSIZE ≤ KERNBASE) :
    (t * PGSIZE + 2 * PGSIZE) % 2 ^ 32 = (t + 2) * PGSIZE ∧
      ((t + 2) * PGSIZE + (2 ^ 32 - 2 * PGSIZE)) % 2 ^ 32 = t * PGSIZE := by
  simp only [KERNBASE, PGSIZE] at *
  omega

/-- **`allocStack`** -/
lemma allocStack_spec (hW : ∀ n ∈ W, L.Valid n) (h : Making L H W d sz vm) :
    Post (allocStack L d sz) vm (StackAlloc L H W d sz vm) E := by
  have hsz := h.lt
  have ht : PGROUNDUP sz = (sz + PGSIZE - 1) % 2 ^ 32 / PGSIZE * PGSIZE := rfl
  generalize (sz + PGSIZE - 1) % 2 ^ 32 / PGSIZE = t at ht
  have hle : t * PGSIZE ≤ KERNBASE := ht.symm.trans_le (PGROUNDUP_le hsz.le)
  have hmapped : ∀ u, umem vm d u ≠ none ↔ u < t := fun u => by
    rw [h.mapped u, ← lt_PGROUNDUP hsz.le, ht]
    exact Nat.mul_lt_mul_right (by decide)
  have hpages := two_pages hle
  have hlt : t * PGSIZE < (t + 2) * PGSIZE := Nat.mul_lt_mul_of_pos_right (by omega) (by decide)
  unfold allocStack
  dsimp only
  rw [ht, hpages.1]
  refine (allocuvm_spec hW h.space hle fun v hv _ => ?_).seq ?_
  · have hle : t ≤ v := Nat.le_of_mul_le_mul_right hv (by decide)
    exact not_not.mp fun hne => absurd ((hmapped v).mp hne) (not_lt.mpr hle)
  rintro r vm₁ (⟨hbad, -⟩ | ⟨-, hsmall, ha⟩ | ⟨hbig, rfl, rfl⟩)
  · exact absurd hbad (not_lt.mpr hlt.le)
  · cases ha with
    | failed hev _ hout =>
      refine .failed hev fun hworks _ => ?_
      rw [ht, Nat.mul_div_cancel _ (by decide)]
      refine hout hworks (t + 2) le_rfl fun u hu => not_not.mp fun hne => ?_
      exact absurd ((hmapped u).mp hne) (by omega)
    | grown hev hmem =>
      have hpage : ∀ u, t ≤ u → u < t + 2 → umem vm₁ d u = some (7, zeroPage) := fun u hu hu' => by
        have hlt : u * PGSIZE < (t + 2) * PGSIZE := Nat.mul_lt_mul_of_pos_right hu' (by decide)
        rw [hmem u, if_pos ⟨Nat.mul_le_mul_right PGSIZE hu, hlt⟩]
      have hold : ∀ u < t, umem vm₁ d u = umem vm d u := fun u hu => by
        rw [hmem u, if_neg fun hin => not_le.mpr hu (Nat.le_of_mul_le_mul_right hin.1 (by decide))]
      have hpos : (t + 2) * PGSIZE ≠ 0 := Nat.mul_ne_zero (by omega) (by decide)
      rw [if_neg hpos, hpages.2]
      refine (clearpteu_spec hev.space (hpage t le_rfl (by omega))).seq ?_
      rintro _ vm₂ ⟨hev₂, hmem₂⟩
      have hother : ∀ u ≠ t, umem vm₂ d u = umem vm₁ d u := fun u hu => by
        rw [hmem₂, update_of_ne hu]
      have hev' := hev.trans hev₂
      have hsize : (t + 2) * PGSIZE = PGROUNDUP sz + 2 * PGSIZE := by rw [ht, Nat.add_mul]
      have hbelow : ∀ u < t + 2 - 2, umem vm₂ d u = umem vm d u := fun u hu => by
        rw [Nat.add_sub_cancel] at hu
        rw [hother u (by omega), hold u hu]
      have hlast : umem vm₂ d (t + 2 - 1) = some (7, zeroPage) := by
        rw [hother _ (by omega)]
        exact hpage _ (by omega) (by omega)
      refine .made hev' ⟨hev'.space, h.kernel.same hev'.kernel, Nat.le_add_left 2 t, hsmall,
        fun u hu => ?_, ⟨zeroPage, ?_⟩, hlast⟩ hsize hbelow
      · by_cases hne : u = t
        · rw [hne, hmem₂, update_self]
          exact Option.some_ne_none _
        · rw [hother u hne]
          rcases Nat.lt_or_ge u t with hlt' | hge
          · rw [hold u hlt']
            exact (hmapped u).mpr hlt'
          · rw [hpage u hge hu]
            exact Option.some_ne_none _
      · rw [Nat.add_sub_cancel, hmem₂, update_self]
        rfl
  · refine .failed (.refl h.space) fun _ hlt => absurd hbig ?_
    rw [ht, ← Nat.add_mul] at hlt
    exact not_le.mpr hlt

end Xv6.Exec
