import Xv6.Files.Quiet
import Xv6.Files.Runs
import Xv6.Files.Sys

/-!
Calls that fail change nothing (`sys_link`, `sys_unlink`, `sys_mkdir`, `sys_mknod`, `sys_chdir`).

* `Consistent`: a file system between calls.
* `Harmless`: code that leaves the files as they are if it returns -1.
* `sysLink_harmless` and its like: the calls.
* `failed_call`: what a failed call leaves as it was.
-/

namespace Xv6.Files

open Xv6.Fs Xv6.Proc Transition Function

/-- **A consistent file system** between calls: the disk and the cache are consistent, link counts
are natural numbers of a `short`, and no entry names a file without links and holders. -/
structure Consistent (sb : Superblock) (s : Fs) : Prop where
  rest : AtRest sb s
  kept : Kept s.inode (node s)
  nlink : ∀ i, 0 ≤ (node s i).nlink ∧ (node s i).nlink < 2 ^ 15

lemma Consistent.start {sb : Superblock} {s : Fs} (hs : Consistent sb s) :
    Midcall sb s.inode (node s) [] ∅ s :=
  .start hs.rest.wf hs.rest.unlocked

/-- The files, and where their blocks are, are as before. -/
structure SameFiles (t t' : Fs) : Prop where
  dinode : t'.dinode = t.dinode
  bitmap : t'.bitmap = t.bitmap
  data : t'.data = t.data

variable {sb : Superblock} {t t' u : Fs} {k dp cwd : Ip} {B : Ip → Inode} {N : ℕ → Node}
  {H : List (Ip × ℕ)} {L : Set Ip} {i d : ℕ} {α : Type} {m : FsM α}

lemma SameFiles.trans (h : SameFiles t t') (h' : SameFiles t' u) : SameFiles t u :=
  ⟨h'.dinode.trans h.dinode, h'.bitmap.trans h.bitmap, h'.data.trans h.data⟩

lemma SameDisk.files (h : SameDisk t t') : SameFiles t t' := ⟨h.dinode, h.bitmap, h.data⟩

lemma SameFiles.node (h : SameFiles t t') (i : ℕ) : node t' i = Files.node t i := by
  rw [Files.node, Files.node, h.dinode, h.data]

lemma SameFiles.refl (t : Fs) : SameFiles t t := ⟨rfl, rfl, rfl⟩

/-- **Code that does no harm**: if the result is a failure, the files are as before. -/
def Harmless (m : FsM α) (bad : α → Prop) (t : Fs) : Prop :=
  Post m t (fun r t' => bad r → SameFiles t t') fun _ _ => True

variable {β : Type} {bad : β → Prop}

/-- Something quiet comes first. -/
lemma Harmless.bind {f : α → FsM β} {Q : α → Fs → Prop} (h : Quiet False m t)
    (hQ : Post m t Q (Err False)) (hf : ∀ a t', Q a t' → Harmless (f a) bad t') :
    Harmless (m >>= f) bad t := by
  refine (Post.and h hQ).bind (fun _ _ _ => trivial) fun a t' ha => ?_
  exact (hf a t' ha.2).imp fun _ u hu hb => ha.1.files.trans (hu hb)

lemma Harmless.pure (a : α) {bad : α → Prop} : Harmless (Pure.pure a) bad t := fun _ => .refl t

lemma Harmless.begin {f : Unit → FsM β} (hf : Harmless (f ()) bad { t with logged := [] }) :
    Harmless (beginOp >>= f) bad t :=
  hf.imp fun _ _ hu hb => ⟨(hu hb).dinode, (hu hb).bitmap, (hu hb).data⟩

/-- What does not fail does no harm. -/
lemma post_succeeds {ε σ : Type} (m : EStateM ε σ α) {s : σ} {Q : σ → Prop} :
    Post (do let _ ← m; return true) s (fun r s' => r = false → Q s') fun _ _ => True :=
  (post_bind _).mpr (.of_forall (fun _ _ hb => absurd hb (by decide)) fun _ _ => trivial)

/-! ### Lookups of a call -/

lemma dirlookup_harmless {f : Option (Ip × ℕ) → FsM β} (hkept : Kept B N)
    (h : Midcall sb B N H L t) (hk : (dp, d) ∈ H) (hL : dp ∈ L) (name : List ℕ)
    (hnone : ∀ t', Midcall sb B N H L t' → Harmless (f none) bad t') (hsome : ∀ k i off t',
      Midcall sb B N ((k, i) :: H) L t' → ¬Loose B N i → Harmless (f (some (k, off))) bad t') :
    Harmless (dirlookup sb dp name >>= f) bad t := by
  by_cases hdir : (N d).type = .dir
  · refine Harmless.bind (dirlookup_quiet h hk hL hdir False.elim name)
      (dirlookup_spec h hk hL name) fun r t' hr => ?_
    cases hr.2 with
    | absent h' _ => exact hnone t' h'
    | present hj hname _ h' => exact hsome _ _ _ t' h' (hkept.entry d hdir _ hj hname.1)
  · have hspec :
        Post (dirlookup sb dp name) t
        (fun r t' => (N d).type = .dir ∧ Looked sb B N H L d name r t')
        (Err False) := dirlookup_spec h hk hL name
    exact hspec.bind (fun _ _ _ => trivial) fun _ _ hr => absurd hr.1 hdir

/-- An inode is locked; the call stops if it has the lock already. -/
lemma ilock_harmless {f : Unit → FsM β} (h : Midcall sb B N H L t) (hk : (k, i) ∈ H)
    (hf : ∀ t', Midcall sb B N H (insert k L) t' → k ∉ L → Harmless (f ()) bad t') :
    Harmless (ilock sb k >>= f) bad t := by
  have hspec : Post (ilock sb k) t (fun _ t' => Locked sb B N H L k t t') (Err False) :=
    ilock_spec h hk False.elim
  refine (ilock_disk.and hspec).bind (fun _ _ _ => trivial) fun _ t' ht' => ?_
  exact (hf t' ht'.2.mid ht'.2.notMem).imp fun _ _ hu hb => ht'.1.files.trans (hu hb)

/-! ### A link count that goes up and down -/

/-- The link count of the inode `i` is changed by `x`. -/
structure Raised (i : ℕ) (x : ℤ) (t t' : Fs) : Prop where
  dinode : t'.dinode
    = update t.dinode i { t.dinode i with nlink := short ((t.dinode i).nlink + x) }
  bitmap : t'.bitmap = t.bitmap
  data : t'.data = t.data

lemma short_back {n : ℤ} (h₀ : 0 ≤ n) (h : n < 2 ^ 15) : short (short (n + 1) + -1) = n := by
  have hback : short (short (n + 1) + -1) = short n := by
    unfold short
    rw [Int.bmod_add_bmod]
    congr 1
    omega
  rw [hback, short_of_lt h₀ h]

/-- The count goes up and down again. -/
lemma Raised.back {t₁ t₂ t₃ : Fs} (hup : Raised i 1 t t₁) (hsame : SameFiles t₁ t₂)
    (hdown : Raised i (-1) t₂ t₃) (hroom : 0 ≤ (t.dinode i).nlink ∧ (t.dinode i).nlink < 2 ^ 15) :
    SameFiles t t₃ := by
  refine ⟨?_, hdown.bitmap.trans (hsame.bitmap.trans hup.bitmap),
    hdown.data.trans (hsame.data.trans hup.data)⟩
  rw [hdown.dinode, hsame.dinode, hup.dinode, update_self, update_idem]
  simp only [short_back hroom.1 hroom.2]
  exact update_eq_self i t.dinode

lemma addLinks_raised (h : Midcall sb B N H L t) (hk : (k, i) ∈ H) (hL : k ∈ L) (x : ℤ) :
    Post (addLinks sb k x) t (fun _ t' => Raised i x t t' ∧ Midcall sb B (addNlink N i x) H L t')
      (Err False) := by
  have hraised : Post (addLinks sb k x) t (fun _ => Raised i x t) (Err False) := by
    obtain ⟨-, -, hdin⟩ := h.node_of_locked hk hL
    have hinum : (t.inode k).inum = i := h.held _ hk
    simp only [addLinks, iupdate, post_bind, post_inode, post_setDin, post_modify, post_logWrite,
      Fs.setInode_inode_self, hdin, hinum]
    exact ⟨rfl, rfl, rfl⟩
  exact (hraised.and (addLinks_spec (E := Err False) h hk hL x)).mono (fun _ _ hu => ⟨hu.1, hu.2.1⟩)
    fun _ _ => And.left

/-- One link more does not let a file go. -/
lemma not_loose_addNlink {j : ℕ} (hroom : 0 ≤ (N i).nlink ∧ (N i).nlink < 2 ^ 15)
    (hno : ¬Loose B N j) : ¬Loose B (addNlink N i 1) j := by
  by_cases hj : j = i
  · subst hj
    rintro ⟨-, hzero, -⟩
    rw [addNlink_self] at hzero
    have hback := short_back hroom.1 hroom.2
    rw [show short ((N j).nlink + 1) = 0 from hzero] at hback
    have hneg : short (0 + -1) = -1 := by decide
    omega
  · unfold Loose
    rw [addNlink_of_ne hj]
    exact hno

lemma Kept.addNlink (hkept : Kept B N) (hroom : 0 ≤ (N i).nlink ∧ (N i).nlink < 2 ^ 15) :
    Kept B (addNlink N i 1) := by
  refine ⟨not_loose_addNlink hroom hkept.root, fun d hdir j hj hne => ?_⟩
  by_cases hd : d = i
  · subst hd
    rw [addNlink_self] at hdir hj hne ⊢
    exact not_loose_addNlink hroom (hkept.entry d hdir j hj hne)
  · rw [addNlink_of_ne hd] at hdir hj hne ⊢
    exact not_loose_addNlink hroom (hkept.entry d hdir j hj hne)

lemma addNlink_back (hroom : 0 ≤ (N i).nlink ∧ (N i).nlink < 2 ^ 15) :
    addNlink (addNlink N i 1) i (-1) = N := by
  unfold addNlink
  simp only [update_self, update_idem, short_back hroom.1 hroom.2]
  exact update_eq_self i N

/-- An inode is unlocked and given back, and the call returns. -/
lemma done_harmless {r : β} (h : Midcall sb B N ((k, i) :: H) (insert k L) t) (hk : k ∉ L)
    (hno : ¬Loose B N i) : Harmless (do iunlockput sb k; return r) bad t :=
  Harmless.bind (iunlockput_quiet h hk hno) (iunlockput_spec h hk) fun _ t' _ _ => .refl t'

/-- A reference is given back; the call stops if it has the lock. -/
lemma iput_harmless {r : β} (h : Midcall sb B N ((k, i) :: H) L t) (hno : ¬Loose B N i) :
    Harmless (do iput sb k; return r) bad t := by
  by_cases hk : k ∈ L
  · rw [iput, acquiresleep, Harmless, post_bind, post_bind, post_bind, post_inode,
      (h.lock k).mpr hk, if_pos rfl]
    trivial
  · exact Harmless.bind (iput_quiet h hk hno) (iput_spec h) fun _ _ _ => .pure _

/-- Nothing is known about what the lookups reach. -/
lemma Start.weak (hcwd : 0 < (B cwd).ref) : Start B N (fun _ => True) False cwd :=
  ⟨hcwd, False.elim, False.elim, False.elim⟩

section Calls

variable (hkept : Kept B N)

include hkept

lemma dirlink_harmless (h : Midcall sb B N H L t) (hk : (dp, d) ∈ H) (hL : dp ∈ L) (name : List ℕ)
    (inum : ℕ) : Harmless (dirlink sb dp name inum) (· = false) t := by
  refine dirlookup_harmless hkept h hk hL name (fun t' h' => ?_) fun k i off t' h' hno =>
    iput_harmless h' hno
  -- The entry is made, or the call stops.
  refine (post_bind _).mpr (.of_forall (fun d t₁ => ?_) fun _ _ => trivial)
  refine (post_bind _).mpr (.of_forall (fun off t₂ => ?_) fun _ _ => trivial)
  refine (post_bind _).mpr (.of_forall (fun r t₃ => ?_) fun _ _ => trivial)
  cases r with
  | none => trivial
  | some n => exact post_ite.mpr ⟨fun _ hb => absurd hb (by decide), fun _ => trivial⟩

variable (hcwd : 0 < (B cwd).ref)

include hcwd

lemma namex_harmless {f : Option (Ip × List ℕ) → FsM β} (h : Midcall sb B N H ∅ t) (path : List ℕ)
    (parent : Bool) (hnone : ∀ t', Midcall sb B N H ∅ t' → Harmless (f none) bad t') (hsome : ∀ k
      i name t', Midcall sb B N ((k, i) :: H) ∅ t' → ¬Loose B N i → Harmless (f (some (k, name)))
      bad t') : Harmless (namex sb cwd path parent >>= f) bad t := by
  refine Harmless.bind (namex_quiet hkept False.elim hcwd h False.elim False.elim path parent)
    (namex_spec (Start.weak hcwd) h path parent) fun r t' hr => ?_
  cases hr with
  | absent h' _ => exact hnone t' h'
  | present hwalk _ _ h' => exact hsome _ _ _ t' h' (hkept.walk (hkept.startOf hcwd path) hwalk)

lemma namei_harmless {f : Option Ip → FsM β} (h : Midcall sb B N H ∅ t) (path : List ℕ)
    (hnone : ∀ t', Midcall sb B N H ∅ t' → Harmless (f none) bad t') (hsome : ∀ k i t', Midcall sb
      B N ((k, i) :: H) ∅ t' → ¬Loose B N i → Harmless (f (some k)) bad t') :
    Harmless (namei sb cwd path >>= f) bad t := by
  rw [namei, bind_assoc]
  refine namex_harmless hkept hcwd h path false (fun t' h' => ?_) fun k i name t' h' hno => ?_
  · exact hnone t' h'
  · exact hsome k i t' h' hno

lemma sysUnlink_harmless (h : Midcall sb B N [] ∅ t) (path : List ℕ) :
    Harmless (sysUnlink sb cwd path) (· = false) t := by
  have h₀ : Midcall sb B N [] ∅ { t with logged := [] } := h.congr rfl rfl rfl rfl rfl
  refine .begin (namex_harmless hkept hcwd h₀ path true ?_ ?_)
  · exact fun _ _ => .pure _
  intro dp d name t₁ h₁ hno
  refine ilock_harmless h₁ (.head _) fun t₂ h₂ hnot => ?_
  refine post_ite.mpr ⟨fun _ => done_harmless h₂ hnot hno, fun _ => ?_⟩
  refine dirlookup_harmless hkept h₂ (.head _) (.inl rfl) name ?_ ?_
  · exact fun _ h₃ => done_harmless h₃ hnot hno
  intro k i off t₃ h₃ hno'
  refine ilock_harmless h₃ (.head _) fun t₄ h₄ hnot' => ?_
  have hfull : Post (isFullDir sb k) t₄ (fun r t' => t' = t₄ ∧ _) (Err False) :=
    isFullDir_spec h₄ (.head _) (.inl rfl)
  rw [Harmless, post_bind, post_inode]
  refine post_ite.mpr ⟨fun _ => trivial, fun _ => ?_⟩
  refine hfull.bind (fun _ _ _ => trivial) fun r t₅ ht₅ => ?_
  obtain ⟨rfl, -⟩ := ht₅
  refine post_ite.mpr ⟨fun _ => ?_, fun _ => ?_⟩
  · exact Harmless.bind (iunlockput_quiet h₄ hnot' hno') (iunlockput_spec h₄ hnot')
      fun _ _ ht₆ => done_harmless ht₆.1 hnot hno
  · exact post_succeeds (removeEntry sb dp k off)

lemma create_harmless (h : Midcall sb B N [] ∅ t) (path : List ℕ) (ty : InodeType)
    (major minor : ℤ) : Harmless (create sb cwd path ty major minor) (· = none) t := by
  refine namex_harmless hkept hcwd h path true (fun _ _ => .pure _) ?_
  intro dp d name t₁ h₁ hno
  refine ilock_harmless h₁ (.head _) fun t₂ h₂ hnot => ?_
  refine dirlookup_harmless hkept h₂ (.head _) (.inl rfl) name ?_ ?_
  · exact fun _ _ =>
      (post_bind _).mpr (.of_forall (fun _ _ hb => absurd hb (Option.some_ne_none _))
      fun _ _ => trivial)
  intro k i off t₃ h₃ hno'
  have hswap := h₃.perm (List.Perm.swap (dp, d) (k, i) [])
  refine Harmless.bind (iunlockput_quiet hswap hnot hno) (iunlockput_spec hswap hnot)
    fun _ t₄ ht₄ => ?_
  refine ilock_harmless ht₄.1 List.mem_cons_self fun t₅ h₅ hnot' => ?_
  rw [Harmless, post_bind, post_inode]
  exact post_ite.mpr ⟨fun _ hb => absurd hb (Option.some_ne_none _),
    fun _ => done_harmless h₅ hnot' hno'⟩

lemma linkNew_harmless (h : Midcall sb B N [(k, i)] ∅ t) (new : List ℕ) :
    Harmless (linkNew sb cwd new k) (· = false) t := by
  refine namex_harmless hkept hcwd h new true (fun _ _ => .pure _) ?_
  intro dp d name t₁ h₁ hno
  refine ilock_harmless h₁ (.head _) fun t₂ h₂ hnot => ?_
  rw [Harmless, post_bind, post_inode]
  have hlink : Post (dirlink sb dp name (t₂.inode k).inum) t₂ _ (Err False) :=
    dirlink_spec h₂ (.head _) (.inl rfl) name _
  refine Post.bind (Post.and (dirlink_harmless hkept h₂ (.head _) (.inl rfl) name _) hlink)
    (fun _ _ _ => trivial) ?_
  rintro r t₃ ⟨hsame, hr⟩
  rcases hr with ⟨rfl, h₃⟩ | ⟨rfl, -⟩
  · exact (done_harmless h₃ hnot hno).imp fun _ _ hu hb => (hsame rfl).trans (hu hb)
  · exact post_succeeds (iunlockput sb dp)

lemma sysLink_harmless (h : Midcall sb B N [] ∅ t)
    (hroom : ∀ i, 0 ≤ (N i).nlink ∧ (N i).nlink < 2 ^ 15) (old new : List ℕ) :
    Harmless (sysLink sb cwd old new) (· = false) t := by
  have h₀ : Midcall sb B N [] ∅ { t with logged := [] } := h.congr rfl rfl rfl rfl rfl
  refine .begin (namei_harmless hkept hcwd h₀ old (fun _ _ => .pure _) fun k i t₁ h₁ hno => ?_)
  refine ilock_harmless h₁ (.head _) fun t₂ h₂ hnot => ?_
  rw [Harmless, post_bind, post_inode]
  refine post_ite.mpr ⟨fun _ => done_harmless h₂ hnot hno, fun _ => ?_⟩
  refine (addLinks_raised h₂ (.head _) (.inl rfl) 1).bind (fun _ _ _ => trivial) ?_
  rintro _ t₃ ⟨hup, h₃⟩
  have hkept₁ := hkept.addNlink (hroom i)
  have hquiet : Quiet False (iunlock k) t₃ := iunlock_quiet h₃ hnot
  refine (Post.and hquiet (iunlock_spec (E := Err False) h₃ hnot)).bind (fun _ _ _ => trivial) ?_
  rintro _ t₄ ⟨hd₄, h₄, -⟩
  refine Post.bind
    (Post.and (linkNew_harmless hkept₁ hcwd h₄ new) (linkNew_spec (Start.weak hcwd) h₄ new))
    (fun _ _ _ => trivial) ?_
  rintro _ t₅ ⟨hsame, ⟨rfl, h₅⟩ | ⟨rfl, -⟩⟩
  · -- The link count goes back.
    have hspec : Post (ilock sb k) t₅ (fun _ t' => Locked sb B (addNlink N i 1) [(k, i)] ∅ k t₅ t')
        (Err False) :=
      ilock_spec h₅ (.head _) False.elim
    refine (ilock_disk.and hspec).bind (fun _ _ _ => trivial) fun _ t₆ ht₆ => ?_
    refine (addLinks_raised ht₆.2.mid (.head _) (.inl rfl) (-1)).bind (fun _ _ _ => trivial) ?_
    rintro _ t₇ ⟨hdown, h₇⟩
    rw [addNlink_back (hroom i)] at h₇
    have hback := hup.back (hd₄.files.trans ((hsame rfl).trans ht₆.1.files)) hdown (by
      obtain ⟨hnode, htype, -⟩ := h₂.node_of_locked (.head _) (.inl rfl)
      rw [← node_nlink htype, hnode]
      exact hroom i)
    exact (done_harmless h₇ hnot hno).imp fun _ _ hu hb => hback.trans (hu hb)
  · exact post_succeeds (iput sb k)

end Calls

/-! ### The calls -/

/-- A system call that changes the name space. -/
inductive NameCall where
  | link (old new : List ℕ)
  | unlink (path : List ℕ)
  | mkdir (path : List ℕ)
  | mknod (path : List ℕ) (major minor : ℤ)
  | chdir (path : List ℕ)

/-- The call of a process with the current directory `cwd`. -/
def NameCall.run (sb : Superblock) (p : Slot) (cwd : Ip) : NameCall → SysM Bool
  | .link old new => liftFs (sysLink sb cwd old new)
  | .unlink path => liftFs (sysUnlink sb cwd path)
  | .mkdir path => sysMkdir sb cwd path
  | .mknod path major minor => sysMknod sb cwd path major minor
  | .chdir path => sysChdir sb p cwd path

/-- **Nothing has changed**: the files, the bitmap, the references to inodes, the processes and the
open files. -/
structure Unchanged (s s' : Sys) : Prop where
  node : ∀ i, node s'.fs i = Files.node s.fs i
  bitmap : s'.fs.bitmap = s.fs.bitmap
  ref : ∀ k, (s'.fs.inode k).ref = (s.fs.inode k).ref
  inum : ∀ k, 0 < (s.fs.inode k).ref → (s'.fs.inode k).inum = (s.fs.inode k).inum
  proc : s'.proc = s.proc
  file : s'.file = s.file

/-- Each current directory has a reference. -/
structure SysConsistent (sb : Superblock) (s : Sys) : Prop where
  fs : Consistent sb s.fs
  cwd : ∀ p k, (s.proc p).cwd = some k → 0 < (s.fs.inode k).ref

lemma Unchanged.of_files {s : Sys} (hfiles : SameFiles s.fs t)
    (hmid : Midcall sb s.fs.inode N [] ∅ t) : Unchanged s { s with fs := t } :=
  ⟨hfiles.node, hfiles.bitmap, hmid.ref, hmid.inum, rfl, rfl⟩

section Run

variable {s s' : Sys} (hs : Consistent sb s.fs) (href : 0 < (s.fs.inode cwd).ref)

include hs href

/-- `sys_mkdir` and `sys_mknod` -/
lemma mk_unchanged (path : List ℕ) (ty : InodeType) (major minor : ℤ) (f : Ip → SysM Unit) :
    Post (do
      liftFs beginOp
      match ← liftFs (create sb cwd path ty major minor) with
      | none => return false
      | some ip =>
        f ip
        return true) s (fun r s' => r = false → Unchanged s s') fun _ _ => True := by
  have h : Midcall sb s.fs.inode (node s.fs) [] ∅ { s.fs with logged := [] } :=
    hs.start.congr rfl rfl rfl rfl rfl
  rw [post_bind, post_liftFs]
  change Post (liftFs (create sb cwd path ty major minor) >>= _)
    { s with fs := { s.fs with logged := [] } } _ _
  rw [post_bind, post_liftFs]
  refine Post.mono (Post.and (create_harmless hs.kept href h path ty major minor)
    (create_spec (Start.weak href) h path False.elim major minor)) ?_ fun _ _ _ => trivial
  rintro r t ⟨hsame, hr⟩
  cases hr with
  | failed ht =>
    have hfiles := hsame rfl
    exact fun _ => .of_files ⟨hfiles.dinode, hfiles.bitmap, hfiles.data⟩ ht
  | existing | created => exact post_succeeds _

lemma sysChdir_unchanged (p : Slot) (path : List ℕ) :
    Post (sysChdir sb p cwd path) s (fun r s' => r = false → Unchanged s s') fun _ _ => True := by
  have h : Midcall sb s.fs.inode (node s.fs) [] ∅ { s.fs with logged := [] } :=
    hs.start.congr rfl rfl rfl rfl rfl
  have hquiet : Quiet False (namei sb cwd path) { s.fs with logged := [] } :=
    (namex_quiet hs.kept False.elim href h False.elim False.elim path false).bind
    (namex_spec (Start.weak href) h path false) fun _ _ _ => .pure _
  rw [sysChdir, post_bind, post_liftFs]
  change Post (liftFs (namei sb cwd path) >>= _) { s with fs := { s.fs with logged := [] } } _ _
  rw [post_bind, post_liftFs]
  refine Post.mono (Post.and hquiet (namei_spec (Start.weak href) h path)) ?_ fun _ _ _ => trivial
  rintro _ t₁ ⟨hd₁, ⟨rfl, h₁⟩ | ⟨k, i, rfl, hwalk, -, h₁⟩⟩
  · exact fun _ => .of_files ⟨hd₁.dinode, hd₁.bitmap, hd₁.data⟩ h₁
  have hspec :
      Post (ilock sb k) t₁ (fun _ t' => Locked sb s.fs.inode (node s.fs) [(k, i)] ∅ k t₁ t')
      (Err False) :=
    ilock_spec h₁ (.head _) False.elim
  have hno := hs.kept.walk (hs.kept.startOf href path) hwalk
  refine (post_bind _).mpr
    (post_liftFs _ |>.mpr ((ilock_disk.and hspec).mono (fun _ t₂ ht₂ => ?_) fun _ _ _ => trivial))
  have hquiet' : Quiet False (iunlockput sb k) t₂ := iunlockput_quiet ht₂.2.mid ht₂.2.notMem hno
  have hput : Post (iunlockput sb k) t₂ _ (Err False) := iunlockput_spec ht₂.2.mid ht₂.2.notMem
  rw [post_bind, post_liftFs, post_inode]
  refine post_ite.mpr ⟨fun _ => ?_, fun _ => ?_⟩
  · refine (post_bind _).mpr
      (post_liftFs _ |>.mpr ((Post.and hquiet' hput).mono (fun _ t₃ ht₃ _ => ?_)
      fun _ _ _ => trivial))
    have hd₃ := (hd₁.trans ht₂.1).trans ht₃.1
    exact .of_files ⟨hd₃.dinode, hd₃.bitmap, hd₃.data⟩ ht₃.2.1
  · refine (post_bind _).mpr (.of_forall (fun _ _ => ?_) fun _ _ => trivial)
    refine (post_bind _).mpr (.of_forall (fun _ _ => ?_) fun _ _ => trivial)
    exact (post_bind _).mpr (.of_forall (fun _ _ => post_succeeds _) fun _ _ => trivial)

/-- **A call that returns -1 changes nothing.** -/
lemma run_unchanged (p : Slot) (c : NameCall) :
    Post (c.run sb p cwd) s (fun r s' => r = false → Unchanged s s') fun _ _ => True := by
  have h := hs.start
  cases c with
  | link old new =>
    rw [NameCall.run, post_liftFs]
    refine Post.mono (Post.and (sysLink_harmless hs.kept href h hs.nlink old new)
      (sysLink_spec (Start.weak href) False.elim h old new)) ?_ fun _ _ _ => trivial
    rintro r t ⟨hsame, N', -, ht⟩ hr
    exact .of_files (hsame hr) ht
  | unlink path =>
    rw [NameCall.run, post_liftFs]
    refine Post.mono
      (Post.and (sysUnlink_harmless hs.kept href h path) (sysUnlink_spec (Start.weak href) h path))
      ?_ fun _ _ _ => trivial
    rintro r t ⟨hsame, N', -, ht, -⟩ hr
    exact .of_files (hsame hr) ht
  | mkdir path => exact mk_unchanged hs href path .dir 0 0 _
  | mknod path major minor => exact mk_unchanged hs href path .dev major minor _
  | chdir path => exact sysChdir_unchanged hs href p path

end Run

/-- What is to be checked of the inodes `is` when the others are free: the numbers of links, and the
entries of the directories, which have one block. -/
def Checked (sb : Superblock) (s : Fs) (is : List ℕ) : Prop :=
  0 < (node s ROOTINO).nlink ∧ ∀ i ∈ is, (0 ≤ (node s i).nlink ∧ (node s i).nlink < 2 ^ 15) ∧
    ((node s i).type = .dir → (node s i).size = 512 ∧ ∀ j < 32, ((node s i).entry j).inum ≠ 0 →
      0 < (node s ((node s i).entry j).inum).nlink ∧ ((node s i).entry j).inum < sb.ninodes ∧
        (node s ((node s i).entry j).inum).type ≠ .free)

instance (sb : Superblock) (s : Fs) (is : List ℕ) : Decidable (Checked sb s is) := by
  unfold Checked
  infer_instance

lemma consistent_of_checked {s : Fs} (is : List ℕ) (hrest : AtRest sb s)
    (hfree : ∀ i ∉ is, (s.dinode i).type = .free) (h : Checked sb s is) :
    Consistent sb s ∧ Tidy sb (node s) := by
  have hloose : ∀ {i}, 0 < (node s i).nlink → ¬Loose s.inode (node s) i := by
    intro i hpos hl
    have := hl.2.1
    omega
  have hdir : ∀ {d}, (node s d).type = .dir → d ∈ is := by
    intro d hd
    refine not_not.mp fun hno => ?_
    rw [node_type, hfree d hno] at hd
    cases hd
  have hlt : ∀ {d}, (node s d).type = .dir →
      ∀ {j}, DESIZE * (j + 1) ≤ (node s d).size → j < 32 := by
    intro d hd j hj
    rw [((h.2 d (hdir hd)).2 hd).1] at hj
    change 16 * (j + 1) ≤ 512 at hj
    omega
  refine ⟨⟨hrest, ⟨hloose h.1, fun d hd j hj hne => ?_⟩, fun i => ?_⟩, fun d hd => ?_,
    fun d hd j hj hne => ?_⟩
  · exact hloose (((h.2 d (hdir hd)).2 hd).2 j (hlt hd hj) hne).1
  · by_cases hi : i ∈ is
    · exact (h.2 i hi).1
    · rw [node_eq_free (hfree i hi)]
      decide
  · rw [((h.2 d (hdir hd)).2 hd).1]
    decide
  · exact (((h.2 d (hdir hd)).2 hd).2 j (hlt hd hj) hne).2

lemma ninode_pos : 0 < NINODE := by decide

lemma nproc_pos : 0 < NPROC := by decide

def firstIp : Ip := ⟨0, ninode_pos⟩

def firstSlot : Slot := ⟨0, nproc_pos⟩

/-- The disk with an empty root directory, to which one process has a reference. -/
def bootFs : Fs :=
  { rootImage with inode := update (fun _ => {}) firstIp { ref := 1, inum := ROOTINO } }

def bootSys : Sys :=
  { fs := bootFs, proc := update (fun _ => {}) firstSlot { cwd := some firstIp } }

lemma atRest_bootFs : AtRest smallDisk bootFs := by
  refine ⟨.one sound_rootImage (fun hv => absurd hv (by decide)) (fun hl => absurd hl (by decide)),
    fun k => ?_⟩
  by_cases hk : k = firstIp
  · rw [hk]
    rfl
  · simp only [bootFs, update_of_ne hk]

lemma node_bootFs {i : ℕ} (hi : (node bootFs i).type ≠ .free) : i = ROOTINO := by
  obtain ⟨rfl, -⟩ | ⟨-, hfree⟩ := rootImage_dinode i
  · rfl
  · rw [node_type] at hi
    exact absurd (congrArg Dinode.type hfree) hi

lemma consistent_bootFs : Consistent smallDisk bootFs ∧ Tidy smallDisk (node bootFs) :=
  consistent_of_checked [ROOTINO] atRest_bootFs
    (fun i hi =>
      not_not.mp fun hne => hi (List.mem_singleton.mpr (node_bootFs (by rwa [node_type]))))
    (by decide +kernel)

lemma sysConsistent_bootSys : SysConsistent smallDisk bootSys := by
  refine ⟨consistent_bootFs.1, fun p k hk => ?_⟩
  by_cases hp : p = firstSlot
  · subst hp
    cases hk
    decide
  · simp only [bootSys, update_of_ne hp] at hk
    cases hk

/-- **A call that returns -1 changes nothing.** -/
theorem failed_call {s s' : Sys} {p : Slot} (hs : SysConsistent sb s)
    (hcwd : (s.proc p).cwd = some cwd) (c : NameCall) (hrun : c.run sb p cwd s = .ok false s') :
    Unchanged s s' := by
  have hpost := run_unchanged hs.fs (hs.cwd p cwd hcwd) p c
  rw [Post, hrun] at hpost
  exact hpost rfl

/-- `mkdir("/.")` -/
theorem failed_call_dot :
    ∃ s', NameCall.run smallDisk firstSlot firstIp (.mkdir [47, 46]) bootSys = .ok false s' ∧
    Unchanged bootSys s' := by
  obtain ⟨s', hrun⟩ :
      ∃ s', NameCall.run smallDisk firstSlot firstIp (.mkdir [47, 46]) bootSys = .ok false s' := by
    decide +kernel
  exact ⟨s', hrun, failed_call sysConsistent_bootSys rfl _ hrun⟩

end Xv6.Files
