import Xv6.Files.Calls
import Xv6.Proc.Table
import Xv6.Transition.Hoare

/-!
Processes and their files (`file.c`, `sysfile.c`, and the file part of `fork` and `exit`).

* `Sys`: the file system, the file table, and of each process the current directory and the
  descriptors.  A slot of the process table without a current directory is not in use.
* `Call`, `runCall`, `sysStep`: the system calls, each of which runs alone.
-/

namespace Xv6.Files

open Xv6.Fs Xv6.Proc Function

abbrev NOFILE : ℕ := 16
abbrev NFILE : ℕ := 100
abbrev O_WRONLY : ℕ := 0x001
abbrev O_RDWR : ℕ := 0x002
abbrev O_CREATE : ℕ := 0x200

abbrev FileId : Type := Fin NFILE
abbrev Fd : Type := Fin NOFILE

/-- `struct file` with `ip` if its type is `FD_INODE`, and `none` if it is `FD_NONE`. -/
structure File where
  ref : ℕ := 0
  ip : Option Ip := none
  off : ℕ := 0
  readable : Bool := false
  writable : Bool := false

/-- The part of `struct proc` that is about files. -/
structure Proc where
  cwd : Option Ip := none
  ofile : Fd → Option FileId := fun _ => none

structure Sys where
  fs : Fs
  file : FileId → File := fun _ => {}
  proc : Slot → Proc := fun _ => {}

abbrev SysM : Type → Type := EStateM Stop Sys

variable (sb : Superblock)

def liftFs {α : Type} (m : FsM α) : SysM α := fun s =>
  match m s.fs with
  | .ok a fs => .ok a { s with fs := fs }
  | .error e fs => .error e { s with fs := fs }

open Transition in
@[simp] lemma post_liftFs {α : Type} (m : FsM α) {s : Sys} {Q : α → Sys → Prop}
    {E : Stop → Sys → Prop} :
    Post (liftFs m) s Q E
      ↔ Post m s.fs (fun a t => Q a { s with fs := t }) fun e t => E e { s with fs := t } := by
  unfold Post liftFs
  cases m s.fs <;> rfl

def setFile (f : FileId) (x : File) : SysM Unit :=
  modify fun s => { s with file := update s.file f x }

def setProc (p : Slot) (x : Proc) : SysM Unit :=
  modify fun s => { s with proc := update s.proc p x }

/-! ### The file table -/

/-- Allocate a file structure. -/
def filealloc : SysM (Option FileId) := do
  let s ← get
  match (List.finRange NFILE).find? fun f => (s.file f).ref = 0 with
  | none => return none
  | some f =>
    setFile f { s.file f with ref := 1 }
    return some f

/-- Increment ref count for file `f`. -/
def filedup (f : FileId) : SysM Unit := do
  let x := (← get).file f
  if x.ref < 1 then throw .filedup
  setFile f { x with ref := x.ref + 1 }

/-- Close file `f`.  (Decrement ref count, close when reaches 0.) -/
def fileclose (f : FileId) : SysM Unit := do
  let x := (← get).file f
  if x.ref < 1 then throw .fileclose
  if 1 < x.ref then setFile f { x with ref := x.ref - 1 }
  else
    setFile f { x with ref := 0, ip := none }
    match x.ip with
    | none => return ()
    | some ip =>
      liftFs beginOp
      liftFs (iput sb ip)

/-- Allocate a file descriptor for the given file. -/
def fdalloc (p : Slot) (f : FileId) : SysM (Option Fd) := do
  let x := (← get).proc p
  match (List.finRange NOFILE).find? fun fd => x.ofile fd = none with
  | none => return none
  | some fd =>
    setProc p { x with ofile := update x.ofile fd (some f) }
    return some fd

/-! ### System calls -/

inductive Call where
  | mkdir (p : Slot) (path : List ℕ)
  | mknod (p : Slot) (path : List ℕ) (major minor : ℤ)
  | openFile (p : Slot) (path : List ℕ) (omode : ℕ)
  | link (p : Slot) (old new : List ℕ)
  | unlink (p : Slot) (path : List ℕ)
  | chdir (p : Slot) (path : List ℕ)
  | dup (p : Slot) (fd : Fd)
  | close (p : Slot) (fd : Fd)
  | fork (p q : Slot)
  | exit (p : Slot)

def sysMkdir (cwd : Ip) (path : List ℕ) : SysM Bool := do
  liftFs beginOp
  match ← liftFs (create sb cwd path .dir 0 0) with
  | none => return false
  | some ip =>
    liftFs (iunlockput sb ip)
    return true

def sysMknod (cwd : Ip) (path : List ℕ) (major minor : ℤ) : SysM Bool := do
  liftFs beginOp
  match ← liftFs (create sb cwd path .dev major minor) with
  | none => return false
  | some ip =>
    liftFs (iunlockput sb ip)
    return true

/-- The inode that `sys_open` opens, locked. -/
def openInode (cwd : Ip) (path : List ℕ) (omode : ℕ) : FsM (Option Ip) := do
  if omode &&& O_CREATE ≠ 0 then create sb cwd path .file 0 0
  else
    match ← namei sb cwd path with
    | none => return none
    | some ip =>
      ilock sb ip
      if (← inode ip).din.type = .dir ∧ omode ≠ 0 then
        iunlockput sb ip
        return none
      else return some ip

/-- Returns the descriptor. -/
def sysOpen (p : Slot) (cwd : Ip) (path : List ℕ) (omode : ℕ) : SysM (Option Fd) := do
  liftFs beginOp
  match ← liftFs (openInode sb cwd path omode) with
  | none => return none
  | some ip =>
    match ← filealloc with
    | none =>
      liftFs (iunlockput sb ip)
      return none
    | some f =>
      match ← fdalloc p f with
      | none =>
        fileclose sb f
        liftFs (iunlockput sb ip)
        return none
      | some fd =>
        liftFs (iunlock ip)
        setFile f
          { (← get).file f with
            ip := some ip
            off := 0
            readable := omode &&& O_WRONLY = 0
            writable := omode &&& O_WRONLY ≠ 0 ∨ omode &&& O_RDWR ≠ 0 }
        return some fd

def sysChdir (p : Slot) (cwd : Ip) (path : List ℕ) : SysM Bool := do
  liftFs beginOp
  match ← liftFs (namei sb cwd path) with
  | none => return false
  | some ip =>
    liftFs (ilock sb ip)
    if (← liftFs (inode ip)).din.type ≠ .dir then
      liftFs (iunlockput sb ip)
      return false
    else
      liftFs (iunlock ip)
      liftFs (iput sb cwd)
      setProc p { (← get).proc p with cwd := some ip }
      return true

def sysDup (p : Slot) (fd : Fd) : SysM Bool := do
  match ((← get).proc p).ofile fd with
  | none => return false
  | some f =>
    match ← fdalloc p f with
    | none => return false
    | some _ =>
      filedup f
      return true

def sysClose (p : Slot) (fd : Fd) : SysM Bool := do
  let x := (← get).proc p
  match x.ofile fd with
  | none => return false
  | some f =>
    setProc p { x with ofile := update x.ofile fd none }
    fileclose sb f
    return true

/-- The part of `fork` that is about files, for a child in the slot `q`. -/
def forkFiles (p q : Slot) (cwd : Ip) : SysM Unit := do
  (List.finRange NOFILE).forM fun fd => do
    match ((← get).proc p).ofile fd with
    | none => return ()
    | some f =>
      filedup f
      let x := (← get).proc q
      setProc q { x with ofile := update x.ofile fd (some f) }
  let ip ← liftFs (idup cwd)
  setProc q { (← get).proc q with cwd := some ip }

/-- The part of `exit` that is about files. -/
def exitFiles (p : Slot) (cwd : Ip) : SysM Unit := do
  (List.finRange NOFILE).forM fun fd => do
    match ((← get).proc p).ofile fd with
    | none => return ()
    | some f =>
      fileclose sb f
      let x := (← get).proc p
      setProc p { x with ofile := update x.ofile fd none }
  liftFs beginOp
  liftFs (iput sb cwd)
  setProc p { (← get).proc p with cwd := none }

/-- The process that makes the call. -/
def Call.caller : Call → Slot
  | .mkdir p _ | .mknod p _ _ _ | .openFile p _ _ | .link p _ _ | .unlink p _ | .chdir p _
  | .dup p _ | .close p _ | .fork p _ | .exit p => p

/-- A system call of a process with the current directory `cwd`. -/
def runCall (cwd : Ip) : Call → SysM Unit
  | .mkdir _ path => discard <| sysMkdir sb cwd path
  | .mknod _ path major minor => discard <| sysMknod sb cwd path major minor
  | .openFile p path omode => discard <| sysOpen sb p cwd path omode
  | .link _ old new => discard <| liftFs (sysLink sb cwd old new)
  | .unlink _ path => discard <| liftFs (sysUnlink sb cwd path)
  | .chdir p path => discard <| sysChdir sb p cwd path
  | .dup p fd => discard <| sysDup p fd
  | .close p fd => discard <| sysClose sb p fd
  | .fork p q => do if ((← get).proc q).cwd = none then forkFiles p q cwd
  | .exit p => exitFiles sb p cwd

/-- **One system call.**  The step is not possible for a process that does not exist, and
when the call stops. -/
def sysStep (s : Sys) (c : Call) : Option Sys :=
  match (s.proc c.caller).cwd with
  | none => none
  | some cwd =>
    match runCall sb cwd c s with
    | .ok _ s' => some s'
    | .error _ _ => none

end Xv6.Files
