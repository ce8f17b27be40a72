import Mathlib.Tactic

/-!
Physical memory and page tables (`kalloc.c`, `vm.c`).

* `Phys`: the pages of physical memory and the free list.
* `kalloc`, `kfree`: the allocator.
* `walkpgdir`, `mappages`, `setupkvm`, `allocuvm`, `deallocuvm`, `freevm`, `clearpteu`, `copyuvm`,
  `uva2ka`, `copyout`: page tables.
* `growproc`: the size of a process.

A page is named by its number; the kernel's pointer to it is `P2V` of its address.  Addresses are
natural numbers below `2 ^ 32`, with the remainder taken where the C code can wrap around.  The
links of the free list are a list, and are not written into the pages.
-/

namespace Xv6.Vm

abbrev PGSIZE : ℕ := 4096
abbrev EXTMEM : ℕ := 0x100000
abbrev PHYSTOP : ℕ := 0xE000000
abbrev DEVSPACE : ℕ := 0xFE000000
abbrev KERNBASE : ℕ := 0x80000000
abbrev KERNLINK : ℕ := KERNBASE + EXTMEM
abbrev NPDENTRIES : ℕ := 1024
abbrev NPTENTRIES : ℕ := 1024
abbrev PTE_P : ℕ := 0x001
abbrev PTE_W : ℕ := 0x002
abbrev PTE_U : ℕ := 0x004

/-- Page directory index -/
def PDX (va : ℕ) : ℕ := va / 2 ^ 22 % NPDENTRIES

/-- Page table index -/
def PTX (va : ℕ) : ℕ := va / 2 ^ 12 % NPTENTRIES

/-- Construct virtual address from indexes and offset. -/
def PGADDR (d t o : ℕ) : ℕ := (d * 2 ^ 22 ||| t * 2 ^ 12 ||| o) % 2 ^ 32

def PGROUNDUP (sz : ℕ) : ℕ := (sz + PGSIZE - 1) % 2 ^ 32 / PGSIZE * PGSIZE

def PGROUNDDOWN (a : ℕ) : ℕ := a / PGSIZE * PGSIZE

/-- The contents of a page. -/
abbrev Page : Type := ℕ → UInt8

/-- The `i`th word of a page. -/
def word (p : Page) (i : ℕ) : ℕ :=
  (p (4 * i)).toNat + 2 ^ 8 * (p (4 * i + 1)).toNat + 2 ^ 16 * (p (4 * i + 2)).toNat
    + 2 ^ 24 * (p (4 * i + 3)).toNat

/-- A page with the `i`th word changed. -/
def setWord (p : Page) (i w : ℕ) : Page := fun o =>
  if o / 4 = i then UInt8.ofNat (w / 2 ^ (8 * (o % 4))) else p o

/-- A page with bytes written to it from the offset `off` on. -/
def writeBytes (p : Page) (off : ℕ) (bs : List UInt8) : Page := fun o =>
  if off ≤ o ∧ o < off + bs.length then bs.getD (o - off) 0 else p o

/-- The pages of physical memory and the free list.  `fails` says which of the coming calls of
`kalloc` fail although there is a page. -/
structure Phys where
  page : ℕ → Page
  freelist : List ℕ
  fails : ℕ → Bool

/-- Where the code stops: the panics, and a null pointer that is followed. -/
inductive Stop where
  | kfree
  | remap
  | phystopTooHigh
  | loaduvmAligned
  | loaduvmExist
  | clearpteu
  | copyuvmExist
  | copyuvmPresent
  | nullPte
  deriving DecidableEq

abbrev VmM : Type → Type := EStateM Stop Phys

/-- The physical addresses of the linker's symbols `data` and `end`. -/
structure Layout where
  data : ℕ
  kend : ℕ
  aligned : PGSIZE ∣ data
  text : EXTMEM < data
  data_le : data ≤ kend
  kend_le : kend < PHYSTOP

section Code

variable (L : Layout)

/-! ### The allocator -/

def setPage (n : ℕ) (p : Page) : VmM Unit :=
  modify fun s => { s with page := Function.update s.page n p }

/-- Allocate one page of physical memory. -/
def kalloc : VmM (Option ℕ) := do
  let s ← get
  let fails := fun i => s.fails (i + 1)
  if s.fails 0 then
    set { s with fails := fails }
    return none
  else
    match s.freelist with
    | [] =>
      set { s with fails := fails }
      return none
    | r :: next =>
      set { s with freelist := next, fails := fails }
      return some r

/-- Free a page of physical memory. -/
def kfree (n : ℕ) : VmM Unit := do
  if n * PGSIZE < L.kend ∨ PHYSTOP ≤ n * PGSIZE then throw .kfree
  setPage n fun _ => 1
  modify fun s => { s with freelist := n :: s.freelist }

/-! ### Page tables -/

/-- The `i`th entry of a page table or page directory. -/
def loadEntry (t i : ℕ) : VmM ℕ := do return word ((← get).page t) i

def storeEntry (t i w : ℕ) : VmM Unit := do setPage t (setWord ((← get).page t) i w)

/-- Return the place of the PTE in page table pgdir that corresponds to virtual address va: the page
table and the index.  If alloc, create any required page table pages. -/
def walkpgdir (pgdir va : ℕ) (alloc : Bool) : VmM (Option (ℕ × ℕ)) := do
  let pde ← loadEntry pgdir (PDX va)
  if pde &&& PTE_P ≠ 0 then return some (pde / PGSIZE, PTX va)
  else if alloc = false then return none
  else
    match ← kalloc with
    | none => return none
    | some pgtab =>
      setPage pgtab fun _ => 0
      storeEntry pgdir (PDX va) (pgtab * PGSIZE ||| PTE_P ||| PTE_W ||| PTE_U)
      return some (pgtab, PTX va)

/-- One round of `mappages`. -/
def mapPage (pgdir a pa perm : ℕ) : VmM Bool := do
  match ← walkpgdir pgdir a true with
  | none => return false
  | some (t, i) =>
    if (← loadEntry t i) &&& PTE_P ≠ 0 then throw .remap
    storeEntry t i (pa ||| perm ||| PTE_P)
    return true

/-- The loop of `mappages`, with `n` pages after the one at `a` until `last`. -/
def mapLoop (pgdir perm : ℕ) : ℕ → ℕ → ℕ → VmM Bool
  | 0, a, pa => mapPage pgdir a pa perm
  | n + 1, a, pa => do
    if ← mapPage pgdir a pa perm then
      mapLoop pgdir perm n ((a + PGSIZE) % 2 ^ 32) ((pa + PGSIZE) % 2 ^ 32)
    else return false

/-- Create PTEs for virtual addresses starting at va that refer to physical addresses starting at
pa.  Returns false if there is no memory. -/
def mappages (pgdir va size pa perm : ℕ) : VmM Bool :=
  let a := PGROUNDDOWN va
  let last := PGROUNDDOWN ((va + size + (2 ^ 32 - 1)) % 2 ^ 32)
  mapLoop pgdir perm ((last + (2 ^ 32 - a)) % 2 ^ 32 / PGSIZE) a pa

/-- The loop of `deallocuvm`, of which there are at most `fuel` rounds. -/
def deallocLoop (pgdir oldsz : ℕ) : ℕ → ℕ → VmM Unit
  | 0, _ => return ()
  | fuel + 1, a => do
    if a < oldsz then
      match ← walkpgdir pgdir a false with
      | none =>
        let a := (PGADDR (PDX a + 1) 0 0 + (2 ^ 32 - PGSIZE)) % 2 ^ 32
        deallocLoop pgdir oldsz fuel ((a + PGSIZE) % 2 ^ 32)
      | some (t, i) =>
        let pte ← loadEntry t i
        if pte &&& PTE_P ≠ 0 then
          if pte / PGSIZE = 0 then throw .kfree
          kfree L (pte / PGSIZE)
          storeEntry t i 0
        deallocLoop pgdir oldsz fuel ((a + PGSIZE) % 2 ^ 32)
    else return ()

/-- Deallocate user pages to bring the process size from oldsz to newsz.  Returns the new process
size. -/
def deallocuvm (pgdir oldsz newsz : ℕ) : VmM ℕ := do
  if oldsz ≤ newsz then return oldsz
  else
    deallocLoop L pgdir oldsz (oldsz / PGSIZE + 1) (PGROUNDUP newsz)
    return newsz

/-- One round of the loop of `freevm`. -/
def freeTable (pgdir i : ℕ) : VmM Unit := do
  let pde ← loadEntry pgdir i
  if pde &&& PTE_P ≠ 0 then kfree L (pde / PGSIZE)

/-- Free a page table and all the physical memory pages in the user part. -/
def freevm (pgdir : ℕ) : VmM Unit := do
  discard <| deallocuvm L pgdir KERNBASE 0
  (List.range NPDENTRIES).forM (freeTable L pgdir)
  kfree L pgdir

/-- A row of the table `kmap`. -/
structure Kmap where
  virt : ℕ
  physStart : ℕ
  physEnd : ℕ
  perm : ℕ

/-- The kernel's mappings. -/
def kmap : List Kmap :=
  [⟨KERNBASE, 0, EXTMEM, PTE_W⟩, ⟨KERNLINK, EXTMEM, L.data, 0⟩,
    ⟨KERNBASE + L.data, L.data, PHYSTOP, PTE_W⟩, ⟨DEVSPACE, DEVSPACE, 0, PTE_W⟩]

/-- The loop of `setupkvm`. -/
def kmapLoop (pgdir : ℕ) : List Kmap → VmM Bool
  | [] => return true
  | k :: ks => do
    let size := (k.physEnd + (2 ^ 32 - k.physStart)) % 2 ^ 32
    if ← mappages pgdir k.virt size k.physStart k.perm then kmapLoop pgdir ks
    else return false

/-- Set up kernel part of a page table. -/
def setupkvm : VmM (Option ℕ) := do
  match ← kalloc with
  | none => return none
  | some pgdir =>
    setPage pgdir fun _ => 0
    if DEVSPACE < KERNBASE + PHYSTOP then throw .phystopTooHigh
    if ← kmapLoop pgdir (kmap L) then return some pgdir
    else
      freevm L pgdir
      return none

/-- The loop of `allocuvm`, of which there are at most `fuel` rounds. -/
def allocLoop (pgdir oldsz newsz : ℕ) : ℕ → ℕ → VmM ℕ
  | 0, _ => return newsz
  | fuel + 1, a => do
    if a < newsz then
      match ← kalloc with
      | none =>
        discard <| deallocuvm L pgdir newsz oldsz
        return 0
      | some mem =>
        setPage mem fun _ => 0
        if ← mappages pgdir a PGSIZE (mem * PGSIZE) (PTE_W ||| PTE_U) then
          allocLoop pgdir oldsz newsz fuel ((a + PGSIZE) % 2 ^ 32)
        else
          discard <| deallocuvm L pgdir newsz oldsz
          kfree L mem
          return 0
    else return newsz

/-- Allocate page tables and physical memory to grow process from oldsz to newsz.  Returns new size
or 0 on error. -/
def allocuvm (pgdir oldsz newsz : ℕ) : VmM ℕ :=
  if KERNBASE ≤ newsz then return 0
  else if newsz < oldsz then return oldsz
  else allocLoop L pgdir oldsz newsz (newsz / PGSIZE + 1) (PGROUNDUP oldsz)

/-- Clear PTE_U on a page. -/
def clearpteu (pgdir uva : ℕ) : VmM Unit := do
  match ← walkpgdir pgdir uva false with
  | none => throw .clearpteu
  | some (t, i) => storeEntry t i ((← loadEntry t i) &&& (2 ^ 32 - 1 - PTE_U))

/-- The loop of `copyuvm`, of which there are at most `fuel` rounds. -/
def copyLoop (pgdir d sz : ℕ) : ℕ → ℕ → VmM Bool
  | 0, _ => return true
  | fuel + 1, i => do
    if i < sz then
      match ← walkpgdir pgdir i false with
      | none => throw .copyuvmExist
      | some (t, j) =>
        let pte ← loadEntry t j
        if pte &&& PTE_P = 0 then throw .copyuvmPresent
        match ← kalloc with
        | none => return false
        | some mem =>
          setPage mem ((← get).page (pte / PGSIZE))
          if ← mappages d i PGSIZE (mem * PGSIZE) (pte % PGSIZE) then
            copyLoop pgdir d sz fuel ((i + PGSIZE) % 2 ^ 32)
          else
            kfree L mem
            return false
    else return true

/-- Given a parent process's page table, create a copy of it for a child. -/
def copyuvm (pgdir sz : ℕ) : VmM (Option ℕ) := do
  match ← setupkvm L with
  | none => return none
  | some d =>
    if ← copyLoop L pgdir d sz (sz / PGSIZE + 1) 0 then return some d
    else
      freevm L d
      return none

/-- Map user virtual address to kernel address.  The PTE pointer is not checked. -/
def uva2ka (pgdir uva : ℕ) : VmM (Option ℕ) := do
  match ← walkpgdir pgdir uva false with
  | none => throw .nullPte
  | some (t, i) =>
    let pte ← loadEntry t i
    if pte &&& PTE_P = 0 then return none
    else if pte &&& PTE_U = 0 then return none
    else return some (pte / PGSIZE)

/-- The loop of `copyout`, of which there are at most `fuel` rounds. -/
def copyoutLoop (pgdir : ℕ) : ℕ → ℕ → List UInt8 → VmM Bool
  | 0, _, _ => return true
  | fuel + 1, va, buf => do
    if 0 < buf.length then
      let va0 := PGROUNDDOWN va
      match ← uva2ka pgdir va0 with
      | none => return false
      | some pa0 =>
        let n := min (PGSIZE - (va - va0)) buf.length
        setPage pa0 (writeBytes ((← get).page pa0) (va - va0) (buf.take n))
        copyoutLoop pgdir fuel ((va0 + PGSIZE) % 2 ^ 32) (buf.drop n)
    else return true

/-- Copy bytes to user address va in page table pgdir. -/
def copyout (pgdir va : ℕ) (buf : List UInt8) : VmM Bool := copyoutLoop pgdir buf.length va buf

/-! ### The size of a process -/

/-- Grow the memory of the process with the page directory pgdir and the size sz by n bytes.
Returns the new size, or nothing on failure (and the size stays). -/
def growproc (pgdir sz : ℕ) (n : ℤ) : VmM (Option ℕ) := do
  let newsz := ((sz + n) % 2 ^ 32).toNat
  if 0 < n then
    let sz' ← allocuvm L pgdir sz newsz
    return if sz' = 0 then none else some sz'
  else if n < 0 then
    let sz' ← deallocuvm L pgdir sz newsz
    return if sz' = 0 then none else some sz'
  else return some sz

end Code

end Xv6.Vm
