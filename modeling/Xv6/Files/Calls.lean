import Xv6.Files.Names

/-!
Calls that change the name space (`sysfile.c`).

`cwd` is the current directory of the caller.  A call returns `true` for 0 and `false`
for -1.
-/

namespace Xv6.Files

open Xv6.Fs

variable (sb : Superblock)

/-- `"."` -/
abbrev dot : List ℕ := [46]
/-- `".."` -/
abbrev dotdot : List ℕ := [46, 46]

/-- In a call that runs alone a transaction starts at once. -/
def beginOp : FsM Unit := modify fun s => { s with logged := [] }

/-- The link count is changed and written. -/
def addLinks (k : Ip) (x : ℤ) : FsM Unit := do
  let d := (← inode k).din
  setDin k { d with nlink := short (d.nlink + x) }
  iupdate sb k

/-- The part of `sys_link` that makes the new entry; `false` is the jump to `bad`. -/
def linkNew (cwd : Ip) (new : List ℕ) (ip : Ip) : FsM Bool := do
  match ← nameiparent sb cwd new with
  | none => return false
  | some (dp, name) =>
    ilock sb dp
    let linked ← dirlink sb dp name (← inode ip).inum
    iunlockput sb dp
    return linked

/-- Create the path `new` as a link to the same inode as `old`. -/
def sysLink (cwd : Ip) (old new : List ℕ) : FsM Bool := do
  beginOp
  match ← namei sb cwd old with
  | none => return false
  | some ip =>
    ilock sb ip
    if (← inode ip).din.type = .dir then
      iunlockput sb ip
      return false
    else
      addLinks sb ip 1
      iunlock ip
      if ← linkNew sb cwd new ip then
        iput sb ip
        return true
      else
        -- bad:
        ilock sb ip
        addLinks sb ip (-1)
        iunlockput sb ip
        return false

/-- The loop of `isdirempty`. -/
def emptyDirLoop (dp : Ip) : ℕ → ℕ → FsM Bool
  | 0, _ => return true
  | fuel + 1, off => do
    if off < (← inode dp).din.size then
      let de ← readDirent sb dp off .isdiremptyReadi
      if de.inum ≠ 0 then return false else emptyDirLoop dp fuel (off + DESIZE)
    else return true

/-- Is the directory `dp` empty except for `"."` and `".."`? -/
def isdirempty (dp : Ip) : FsM Bool := do
  emptyDirLoop sb dp ((← inode dp).din.size + 1) (2 * DESIZE)

/-- `ip->type == T_DIR && !isdirempty(ip)` -/
def isFullDir (ip : Ip) : FsM Bool := do
  if (← inode ip).din.type = .dir then return !(← isdirempty sb ip) else return false

/-- The part of `sys_unlink` that removes the entry. -/
def removeEntry (dp ip : Ip) (off : ℕ) : FsM Unit := do
  if (← writei sb dp (List.replicate DESIZE 0) off) ≠ some DESIZE then throw .unlinkWritei
  if (← inode ip).din.type = .dir then addLinks sb dp (-1)
  iunlockput sb dp
  addLinks sb ip (-1)
  iunlockput sb ip

def sysUnlink (cwd : Ip) (path : List ℕ) : FsM Bool := do
  beginOp
  match ← nameiparent sb cwd path with
  | none => return false
  | some (dp, name) =>
    ilock sb dp
    -- Cannot unlink "." or "..".
    if namecmp name dot = 0 ∨ namecmp name dotdot = 0 then
      iunlockput sb dp
      return false
    else
      match ← dirlookup sb dp name with
      | none =>
        iunlockput sb dp
        return false
      | some (ip, off) =>
        ilock sb ip
        if (← inode ip).din.nlink < 1 then throw .unlinkNlink
        if ← isFullDir sb ip then
          iunlockput sb ip
          iunlockput sb dp
          return false
        else
          removeEntry sb dp ip off
          return true

/-- The part of `create` that creates the `.` and `..` entries. -/
def makeDots (dp ip : Ip) : FsM Unit := do
  addLinks sb dp 1
  -- No ip->nlink++ for ".": avoid cyclic ref count.
  if !(← dirlink sb ip dot (← inode ip).inum) then throw .createDots
  if !(← dirlink sb ip dotdot (← inode dp).inum) then throw .createDots

/-- The part of `create` that makes a new inode. -/
def createNew (dp : Ip) (name : List ℕ) (ty : InodeType) (major minor : ℤ) : FsM Ip := do
  let ip ← ialloc sb ty
  ilock sb ip
  let d := (← inode ip).din
  setDin ip { d with major := short major, minor := short minor, nlink := 1 }
  iupdate sb ip
  if ty = .dir then makeDots sb dp ip
  if !(← dirlink sb dp name (← inode ip).inum) then throw .createDirlink
  iunlockput sb dp
  return ip

/-- The inode, locked and referenced. -/
def create (cwd : Ip) (path : List ℕ) (ty : InodeType) (major minor : ℤ) : FsM (Option Ip) := do
  match ← nameiparent sb cwd path with
  | none => return none
  | some (dp, name) =>
    ilock sb dp
    match ← dirlookup sb dp name with
    | some (ip, _) =>
      iunlockput sb dp
      ilock sb ip
      if ty = .file ∧ (← inode ip).din.type = .file then return some ip
      else
        iunlockput sb ip
        return none
    | none => return some (← createNew sb dp name ty major minor)

end Xv6.Files
