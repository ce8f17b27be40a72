import Xv6.Files.Names
import Xv6.Vm.Memory

/-!
`exec` (`exec.c`, and `loaduvm` of `vm.c`).

* `State`: physical memory, the file system, the log operations that the process has open, and of
  `struct proc` and its trap frame what `exec` changes.  `loads` records the pages that bytes of
  files have been read into.
* `loaduvm`, `loadSegs`, `load`: the program is read into a new address space.
* `allocStack`, `pushArgs`, `pushStack`, `stack`: the user stack.
* `exec`: the whole.

A path is a list of bytes that are not zero, and so is an argument string.
-/

namespace Xv6.Exec

open Xv6.Files Xv6.Vm

abbrev ELF_MAGIC : ℕ := 0x464C457F
abbrev ELF_PROG_LOAD : ℕ := 1
abbrev MAXARG : ℕ := 32

/-- What `exec` changes of `struct proc` and of its trap frame. -/
structure Proc where
  pgdir : ℕ
  sz : ℕ
  eip : ℕ
  esp : ℕ
  name : List ℕ

/-- `len` bytes of a file have been read into the physical page `pa`, which is the virtual page
`page`. -/
structure Load where
  page : ℕ
  pa : ℕ
  len : ℕ

structure State where
  vm : Phys
  fs : Files.Fs
  ops : ℕ
  proc : Proc
  loads : List Load

/-- Where the code stops. -/
inductive Stop where
  | vm (e : Vm.Stop)
  | fs (e : Files.Stop)

abbrev ExecM : Type → Type := EStateM Stop State

def liftVm {α : Type} (m : VmM α) : ExecM α := fun s =>
  match m s.vm with
  | .ok a vm => .ok a { s with vm := vm }
  | .error e vm => .error (.vm e) { s with vm := vm }

def liftFs {α : Type} (m : FsM α) : ExecM α := fun s =>
  match m s.fs with
  | .ok a fs => .ok a { s with fs := fs }
  | .error e fs => .error (.fs e) { s with fs := fs }

def beginOp : ExecM Unit :=
  modify fun s => { s with ops := s.ops + 1, fs := { s.fs with logged := [] } }

def endOp : ExecM Unit := modify fun s => { s with ops := s.ops - 1 }

/-! ### Headers -/

def ushort (bs : List ℕ) (o : ℕ) : ℕ := bs.getD o 0 % 256 + 2 ^ 8 * (bs.getD (o + 1) 0 % 256)

def uint (bs : List ℕ) (o : ℕ) : ℕ := ushort bs o + 2 ^ 16 * ushort bs (o + 2)

/-- `struct elfhdr`, the fields that are read. -/
structure Elfhdr where
  magic : ℕ
  entry : ℕ
  phoff : ℕ
  phnum : ℕ

def Elfhdr.ofBytes (bs : List ℕ) : Elfhdr := ⟨uint bs 0, uint bs 24, uint bs 28, ushort bs 44⟩

/-- `struct proghdr`, the fields that are read. -/
structure Proghdr where
  type : ℕ
  off : ℕ
  vaddr : ℕ
  filesz : ℕ
  memsz : ℕ

def Proghdr.ofBytes (bs : List ℕ) : Proghdr :=
  ⟨uint bs 0, uint bs 4, uint bs 8, uint bs 16, uint bs 20⟩

section Code

variable (L : Layout) (sb : Superblock)

/-- Read `n` bytes; nothing if there are fewer. -/
def readExact (ip : Ip) (off n : ℕ) : ExecM (Option (List ℕ)) := do
  match ← liftFs (readi sb ip off n) with
  | none => return none
  | some bs => if bs.length = n then return some bs else return none

/-! ### The program -/

/-- Read bytes of the file into the page `pa`, which is the virtual page `v`. -/
def readPage (ip : Ip) (v pa off n : ℕ) : ExecM Bool := do
  match ← liftFs (readi sb ip off n) with
  | none => return false
  | some bs =>
    liftVm (do setPage pa (writeBytes ((← get).page pa) 0 (bs.map UInt8.ofNat)))
    modify fun s => { s with loads := ⟨v, pa, bs.length⟩ :: s.loads }
    return decide (bs.length = n)

/-- The loop of `loaduvm`, of which there are at most `fuel` rounds. -/
def loadLoop (pgdir addr : ℕ) (ip : Ip) (offset sz : ℕ) : ℕ → ℕ → ExecM Bool
  | 0, _ => return true
  | fuel + 1, i => do
    if i < sz then
      let va := (addr + i) % 2 ^ 32
      match ← liftVm (walkpgdir pgdir va false) with
      | none => throw (.vm .loaduvmExist)
      | some (t, j) =>
        let pa := (← liftVm (loadEntry t j)) / PGSIZE
        let n := if sz - i < PGSIZE then sz - i else PGSIZE
        if ← readPage sb ip (va / PGSIZE) pa ((offset + i) % 2 ^ 32) n then
          loadLoop pgdir addr ip offset sz fuel ((i + PGSIZE) % 2 ^ 32)
        else return false
    else return true

/-- Load a program segment into pgdir. -/
def loaduvm (pgdir addr : ℕ) (ip : Ip) (offset sz : ℕ) : ExecM Bool := do
  if addr % PGSIZE ≠ 0 then throw (.vm .loaduvmAligned)
  loadLoop sb pgdir addr ip offset sz (sz / PGSIZE + 1) 0

/-- The loop over the program headers, with the number of those to come.  Returns the size, or
nothing for `goto bad`. -/
def loadSegs (pgdir : ℕ) (ip : Ip) : ℕ → ℕ → ℕ → ExecM (Option ℕ)
  | 0, _, sz => return some sz
  | n + 1, off, sz => do
    match ← readExact sb ip off 32 with
    | none => return none
    | some bs =>
      let ph := Proghdr.ofBytes bs
      let off := (off + 32) % 2 ^ 32
      if ph.type ≠ ELF_PROG_LOAD then loadSegs pgdir ip n off sz
      else if ph.memsz < ph.filesz then return none
      else if (ph.vaddr + ph.memsz) % 2 ^ 32 < ph.vaddr then return none
      else
        let sz ← liftVm (allocuvm L pgdir sz ((ph.vaddr + ph.memsz) % 2 ^ 32))
        if sz = 0 then return none
        else if ph.vaddr % PGSIZE ≠ 0 then return none
        else if ← loaduvm sb pgdir ph.vaddr ip ph.off ph.filesz then loadSegs pgdir ip n off sz
        else return none

/-- A program that is loaded. -/
structure Image where
  pgdir : ℕ
  sz : ℕ
  entry : ℕ

/-- The failures while the file is open: free the page directory, if there is one, and release the
file. -/
def badFile (pgdir : Option ℕ) (ip : Ip) : ExecM (Option Image) := do
  match pgdir with
  | none => pure ()
  | some d => liftVm (freevm L d)
  liftFs (iunlockput sb ip)
  endOp
  return none

/-- `exec` until the file is released. -/
def load (cwd : Ip) (path : List ℕ) : ExecM (Option Image) := do
  beginOp
  match ← liftFs (namei sb cwd path) with
  | none =>
    endOp
    return none
  | some ip =>
    liftFs (ilock sb ip)
    match ← readExact sb ip 0 52 with
    | none => badFile L sb none ip
    | some bs =>
      let elf := Elfhdr.ofBytes bs
      if elf.magic ≠ ELF_MAGIC then badFile L sb none ip
      else
        match ← liftVm (setupkvm L) with
        | none => badFile L sb none ip
        | some pgdir =>
          match ← loadSegs L sb pgdir ip elf.phnum elf.phoff 0 with
          | none => badFile L sb (some pgdir) ip
          | some sz =>
            liftFs (iunlockput sb ip)
            endOp
            return some ⟨pgdir, sz, elf.entry⟩

/-! ### The user stack -/

/-- The stack pointer below an argument string. -/
def below (sp len : ℕ) : ℕ := (sp + (2 ^ 32 - (len + 1))) % 2 ^ 32 / 4 * 4

/-- Push argument strings; `ptrs` are the addresses of those before. -/
def pushArgs (pgdir : ℕ) : List (List UInt8) → ℕ → List ℕ → VmM (Option (ℕ × List ℕ))
  | [], sp, ptrs => return some (sp, ptrs)
  | arg :: argv, sp, ptrs => do
    if MAXARG ≤ ptrs.length then return none
    else
      let sp := below sp arg.length
      if ← copyout pgdir sp (arg ++ [0]) then pushArgs pgdir argv sp (ptrs ++ [sp])
      else return none

/-- The bytes of a word. -/
def wordBytes (w : ℕ) : List UInt8 := (List.range 4).map fun k => UInt8.ofNat (w / 2 ^ (8 * k))

/-- The array `ustack`: fake return PC, argc, argv pointer, the pointers and 0. -/
def ustack (sp : ℕ) (ptrs : List ℕ) : List ℕ :=
  [0xffffffff, ptrs.length, (sp + (2 ^ 32 - (ptrs.length + 1) * 4)) % 2 ^ 32] ++ ptrs ++ [0]

/-- Allocate two pages at the next page boundary.  Make the first inaccessible.  Use the second as
the user stack.  Returns the size. -/
@[irreducible] def allocStack (pgdir sz : ℕ) : VmM (Option ℕ) := do
  let sz := PGROUNDUP sz
  let sz ← allocuvm L pgdir sz ((sz + 2 * PGSIZE) % 2 ^ 32)
  if sz = 0 then return none
  else
    clearpteu pgdir ((sz + (2 ^ 32 - 2 * PGSIZE)) % 2 ^ 32)
    return some sz

/-- Push the arguments and `ustack`.  Returns the stack pointer. -/
def pushStack (pgdir sz : ℕ) (argv : List (List UInt8)) : VmM (Option ℕ) := do
  match ← pushArgs pgdir argv sz [] with
  | none => return none
  | some (sp, ptrs) =>
    let words := ustack sp ptrs
    let sp := (sp + (2 ^ 32 - (3 + ptrs.length + 1) * 4)) % 2 ^ 32
    if ← copyout pgdir sp (words.flatMap wordBytes) then return some sp else return none

/-- The user stack.  Returns the size and the stack pointer. -/
def stack (pgdir sz : ℕ) (argv : List (List UInt8)) : VmM (Option (ℕ × ℕ)) := do
  match ← allocStack L pgdir sz with
  | none => return none
  | some sz =>
    match ← pushStack pgdir sz argv with
    | none => return none
    | some sp => return some (sz, sp)

/-! ### The whole -/

/-- Like strncpy but guaranteed to NUL-terminate. -/
def safestrcpy (s t : List ℕ) (n : ℕ) : List ℕ :=
  if n = 0 then s
  -- The loop has passed the NUL that it copied when another one is stored.
  else if t.length < n - 1 then t ++ [0, 0] ++ s.drop (t.length + 2)
  else t.take (n - 1) ++ [0] ++ s.drop n

/-- What comes after the last slash of a path. -/
def lastElem (path : List ℕ) : List ℕ := (path.reverse.takeWhile (· ≠ slash)).reverse

/-- Commit to the user image. -/
def commit (path : List ℕ) (img : Image) (sz sp : ℕ) : ExecM Unit := do
  let old := (← get).proc
  let proc := { pgdir := img.pgdir, sz := sz, eip := img.entry, esp := sp,
                name := safestrcpy old.name (lastElem path) 16 }
  modify fun s => { s with proc := proc }
  liftVm (freevm L old.pgdir)

/-- `exec`; false is -1. -/
def exec (cwd : Ip) (path : List ℕ) (argv : List (List UInt8)) : ExecM Bool := do
  match ← load L sb cwd path with
  | none => return false
  | some img =>
    match ← liftVm (stack L img.pgdir img.sz argv) with
    | none =>
      liftVm (freevm L img.pgdir)
      return false
    | some (sz, sp) =>
      commit L path img sz sp
      return true

end Code

end Xv6.Exec
