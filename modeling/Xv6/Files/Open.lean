import Xv6.Files.Failures

/-!
An open that fails (`sys_open`).

* `Missing`: a path whose last element is not in its directory.
* `create_opened`, `openInode_opened`: the inode that is opened, and whether a file was made for it.
* `failed_open`: an open that returns -1 changes nothing, unless it made the file before it found
  that there is no file structure or no descriptor for it.
-/

namespace Xv6.Files

open Xv6.Fs Xv6.Proc Transition Function

/-- **A missing file**: the last element of the path is not in the directory that the others lead
to. -/
def Missing (N : ℕ → Node) (cwd : ℕ) (path : List ℕ) : Prop :=
  ∃ d name, Walk N true (startOf cwd path) path d ∧ LastElem path name ∧
    ∀ j, DESIZE * j < (N d).size → ¬(N d).Matches name j

variable {sb : Superblock} {t t' : Fs} {k cwd : Ip} {B : Ip → Inode} {N : ℕ → Node} {i i' : ℕ}
  {path name : List ℕ}

lemma Walk.unique {parent : Bool} (h : Walk N parent i path i') {j' : ℕ}
    (h' : Walk N parent i path j') : i' = j' := by
  induction h with
  | done hskip hparent =>
    cases h' with
    | done _ _ => rfl
    | stop hs _ _ | step hs _ _ _ _ _ _ => cases hskip.symm.trans hs
  | stop hskip hparent _ =>
    cases h' with
    | done hs _ => cases hskip.symm.trans hs
    | stop _ _ _ => rfl
    | step hs hp _ _ _ _ _ =>
      rw [hskip] at hs
      cases hs
      exact absurd ⟨hparent, rfl⟩ hp
  | step hskip hparent _ _ hname hfirst _ ih =>
    cases h' with
    | done hs _ => cases hskip.symm.trans hs
    | stop hs hp _ =>
      rw [hskip] at hs
      cases hs
      exact absurd ⟨hp, rfl⟩ hparent
    | step hs _ _ _ hname' hfirst' hrest =>
      rw [hskip] at hs
      cases hs
      rw [hname'.first_unique hname hfirst' hfirst] at hrest
      exact ih hrest

/-- A parent is a directory. -/
lemma Walk.dir (h : Walk N true i path i') : (N i').type = .dir := by
  generalize hparent : true = parent at h
  induction h with
  | done _ hp => cases hparent.trans hp
  | stop _ _ hdir => exact hdir
  | step _ _ _ _ _ _ _ ih => exact ih

lemma not_lastElem_nil : ¬LastElem [] name := by
  intro h
  cases h with
  | last hs | next hs _ => cases hs

lemma LastElem.unique (h : LastElem path name) {name' : List ℕ} (h' : LastElem path name') :
    name = name' := by
  induction h with
  | last hskip =>
    cases h' with
    | last hs =>
      rw [hskip] at hs
      cases hs
      rfl
    | next hs hrest =>
      rw [hskip] at hs
      cases hs
      exact absurd hrest not_lastElem_nil
  | next hskip hlast ih =>
    cases h' with
    | last hs =>
      rw [hskip] at hs
      cases hs
      exact absurd hlast not_lastElem_nil
    | next hs hrest =>
      rw [hskip] at hs
      cases hs
      exact ih hrest

/-- What is opened, if `made` says whether a file is made for it. -/
inductive Opened (sb : Superblock) (B : Ip → Inode) (N : ℕ → Node) (made : Prop) (t : Fs) :
    Option Ip → Fs → Prop
  | failed {t' : Fs} (hold : ¬made) (same : SameFiles t t') (h : Midcall sb B N [] ∅ t') :
      Opened sb B N made t none t'
  | existing {t' : Fs} {k : Ip} {i : ℕ} (hold : ¬made) (same : SameFiles t t')
      (h : Midcall sb B N [(k, i)] (insert k ∅) t') (hno : ¬Loose B N i) :
      Opened sb B N made t (some k) t'
  | created {t' : Fs} {k : Ip} {i : ℕ} {N' : ℕ → Node} (hnew : made)
      (h : Midcall sb B N' [(k, i)] (insert k ∅) t') (hnode : (N' i).nlink = 1)
      (hfree : (N i).nlink ≠ 1) : Opened sb B N made t (some k) t'

variable {made : Prop}

/-- Something quiet comes first. -/
lemma post_opened_bind {α : Type} {m : FsM α} {f : α → FsM (Option Ip)}
    {Q : α → Fs → Prop} (h : Quiet False m t) (hQ : Post m t Q (Err False))
    (hf : ∀ a t', Q a t' → Post (f a) t' (Opened sb B N made t') fun _ _ => True) :
    Post (m >>= f) t (Opened sb B N made t) fun _ _ => True := by
  refine (Post.and h hQ).bind (fun _ _ _ => trivial) fun a t' ha => ?_
  refine (hf a t' ha.2).imp fun r u hu => ?_
  have hsame := ha.1.files
  cases hu with
  | failed hold same h => exact .failed hold (hsame.trans same) h
  | existing hold same h hno => exact .existing hold (hsame.trans same) h hno
  | created hnew h hnode hfree => exact .created hnew h hnode hfree

/-- A locked inode is given back, and the call fails. -/
lemma giveUp_opened (hold : ¬made) (h : Midcall sb B N [(k, i)] (insert k ∅) t)
    (hno : ¬Loose B N i) :
    Post (do iunlockput sb k; return none) t (Opened sb B N made t) fun _ _ => True :=
  post_opened_bind (iunlockput_quiet h (Set.notMem_empty k) hno)
    (iunlockput_spec h (Set.notMem_empty k)) fun _ t' ht' => .failed hold (.refl t') ht'.1

section Calls

variable (hkept : Kept B N) (hcwd : 0 < (B cwd).ref)
  (hfree : ∀ i, (N i).type = .free → (N i).nlink = 0)

include hkept hcwd hfree

lemma create_opened (h : Midcall sb B N [] ∅ t) (path : List ℕ) (major minor : ℤ) :
    Post (create sb cwd path .file major minor) t
      (Opened sb B N (Missing N (B cwd).inum path) t) fun _ _ => True := by
  refine post_opened_bind (namex_quiet hkept False.elim hcwd h False.elim False.elim path true)
    (namex_spec (Start.weak hcwd) h path true) fun r t₁ hr => ?_
  cases hr with
  | absent h₁ hno =>
    refine .failed ?_ (.refl t₁) h₁
    rintro ⟨d, name, hwalk, -⟩
    exact hno d hwalk
  | @present _ dp d name hwalk _ hlast h₁ =>
    have hnod := hkept.walk (hkept.startOf hcwd path) hwalk
    have hnot : dp ∉ (∅ : Set Ip) := Set.notMem_empty dp
    refine post_opened_bind (ilock_quiet h₁ (.head _) hnot False.elim)
      (ilock_spec h₁ (.head _) False.elim) fun _ t₂ ht₂ => ?_
    have h₂ := ht₂.mid
    have hdir := hwalk.dir
    refine post_opened_bind (dirlookup_quiet h₂ (.head _) (.inl rfl) hdir False.elim name)
      (dirlookup_spec h₂ (.head _) (.inl rfl) name) ?_
    rintro r t₃ ⟨-, hlook⟩
    cases hlook with
    | absent h₃ hno =>
      have hspec : Post (createNew sb dp name .file major minor) t₃ _ (Err False) :=
        createNew_spec h₃ False.elim name major minor
      refine hspec.bind (fun _ _ _ => trivial) ?_
      rintro k t' ⟨i, j, hi, -, -, hid, hnew, h'⟩
      refine .created ⟨d, name, hwalk, hlast rfl, hno⟩ h' ?_ ?_
      · rw [putEntry, update_of_ne hid, makeAt, if_neg (by decide), update_self]
        rfl
      · rcases h₃.node i with heq | ⟨hloose, -⟩
        · rw [hfree i (heq ▸ hi)]
          decide
        · rw [hloose.2.1]
          decide
    | @present _ k j hj hmatch _ h₃ =>
      have hold : ¬Missing N (B cwd).inum path := by
        rintro ⟨d', name', hwalk', hlast', hno⟩
        obtain rfl := hwalk.unique hwalk'
        obtain rfl := (hlast rfl).unique hlast'
        have hpos : 0 < DESIZE := by decide
        exact hno j (by rw [Nat.mul_succ] at hj; omega) hmatch
      have hnoi := hkept.entry d hdir j hj hmatch.1
      have hswap := h₃.perm (List.Perm.swap (dp, d) (k, _) [])
      refine post_opened_bind (iunlockput_quiet hswap hnot hnod) (iunlockput_spec hswap hnot)
        fun _ t₄ h₄ => ?_
      have hmemk : (k, ((N d).entry j).inum) ∈ [(k, ((N d).entry j).inum)] := List.mem_cons_self
      refine post_opened_bind (ilock_quiet h₄.1 hmemk (Set.notMem_empty k) False.elim)
        (ilock_spec h₄.1 hmemk False.elim) fun _ t₅ ht₅ => ?_
      rw [post_bind, post_inode, post_ite]
      refine ⟨fun _ => .existing hold (.refl t₅) ht₅.mid hnoi, fun _ => ?_⟩
      exact giveUp_opened hold ht₅.mid hnoi

/-- **The inode that `sys_open` opens.** -/
lemma openInode_opened (h : Midcall sb B N [] ∅ t) (path : List ℕ) (omode : ℕ) :
    Post (openInode sb cwd path omode) t
      (Opened sb B N (omode &&& O_CREATE ≠ 0 ∧ Missing N (B cwd).inum path) t) fun _ _ => True := by
  unfold openInode
  rw [post_ite]
  refine ⟨fun hcreate => ?_, fun hopen => ?_⟩
  · simp only [hcreate, ne_eq, not_false_eq_true, true_and]
    exact create_opened hkept hcwd hfree h path 0 0
  have hold : ¬(omode &&& O_CREATE ≠ 0 ∧ Missing N (B cwd).inum path) := fun hmade => hopen hmade.1
  have hquiet : Quiet False (namei sb cwd path) t :=
    (namex_quiet hkept False.elim hcwd h False.elim False.elim path false).bind
      (namex_spec (Start.weak hcwd) h path false) fun _ _ _ => .pure _
  refine post_opened_bind hquiet (namei_spec (Start.weak hcwd) h path) ?_
  rintro _ t₁ (⟨rfl, h₁⟩ | ⟨k, i, rfl, hwalk, -, h₁⟩)
  · exact .failed hold (.refl t₁) h₁
  have hno := hkept.walk (hkept.startOf hcwd path) hwalk
  refine post_opened_bind (ilock_quiet h₁ (.head _) (Set.notMem_empty k) False.elim)
    (ilock_spec h₁ (.head _) False.elim) fun _ t₂ ht₂ => ?_
  rw [post_bind, post_inode, post_ite]
  refine ⟨fun _ => giveUp_opened hold ht₂.mid hno, fun _ => ?_⟩
  exact .existing hold (.refl t₂) ht₂.mid hno

end Calls

/-! ### The call -/

variable {s : Sys}

variable {E : Stop → Sys → Prop}

lemma filealloc_post :
    Post filealloc s
      (fun r s' => r = none ∧ s' = s ∨ ∃ f, r = some f ∧ (s.file f).ref = 0 ∧
        s' = { s with file := update s.file f { s.file f with ref := 1 } }) E := by
  unfold filealloc
  rw [post_bind, post_get]
  cases hfind : (List.finRange NFILE).find? fun f => (s.file f).ref = 0 with
  | none => exact .inl ⟨rfl, rfl⟩
  | some f => exact .inr ⟨f, rfl, by simpa using List.find?_some hfind, rfl⟩

/-- The process with a file in a descriptor. -/
def Sys.setFd (s : Sys) (p : Slot) (fd : Fd) (x : Option FileId) : Sys :=
  { s with
    proc := update s.proc p
      { s.proc p with ofile := update (s.proc p).ofile fd x } }

lemma fdalloc_post (p : Slot) (f : FileId) :
    Post (fdalloc p f) s
      (fun r s' => r = none ∧ s' = s ∨ ∃ fd, r = some fd ∧ (s.proc p).ofile fd = none ∧
        s' = s.setFd p fd (some f)) E := by
  unfold fdalloc
  rw [post_bind, post_get]
  dsimp only
  cases hfind : (List.finRange NOFILE).find? fun fd => (s.proc p).ofile fd = none with
  | none => exact .inl ⟨rfl, rfl⟩
  | some fd => exact .inr ⟨fd, rfl, by simpa using List.find?_some hfind, rfl⟩

/-- A file structure that was allocated and is given back at once. -/
lemma fileclose_fresh {f : FileId} (href : (s.file f).ref = 0) (hip : (s.file f).ip = none) :
    Post (fileclose sb f)
      { s with file := update s.file f { s.file f with ref := 1 } }
      (fun _ s' => s' = s) E := by
  have hback : ({ s.file f with ref := 0, ip := none } : File) = s.file f := by
    rw [← href, ← hip]
  simp only [fileclose, setFile, post_bind, post_get, update_self, post_ite, post_modify,
    hip, update_idem]
  refine ⟨fun h => absurd h (lt_irrefl _), fun _ => ⟨fun h => absurd h (lt_irrefl _), fun _ => ?_⟩⟩
  change { s with file := update s.file f { s.file f with ref := 0, ip := none } } = s
  rw [hback, update_eq_self]

/-- What a call that fails leaves, if `made` says whether it made a file. -/
def Left (made : Prop) (s : Sys) (t : Fs) : Prop :=
  ¬made ∧ Unchanged s { s with fs := t } ∨ made ∧ ∃ i, node t i ≠ node s.fs i

lemma Opened.left (hsame : SameFiles s.fs t)
    (h : Opened sb s.fs.inode (node s.fs) made t none t') : Left made s t' := by
  cases h with
  | failed hold same h => exact .inl ⟨hold, .of_files (hsame.trans same) h⟩

/-- The inode is given back. -/
lemma Opened.put (hsame : SameFiles s.fs t)
    (h : Opened sb s.fs.inode (node s.fs) made t (some k) t') :
    Post (iunlockput sb k) t' (fun _ => Left made s) fun _ _ => True := by
  have hnot : k ∉ (∅ : Set Ip) := Set.notMem_empty k
  cases h with
  | existing hold same h hno =>
    have hquiet : Quiet False (iunlockput sb k) t' := iunlockput_quiet h hnot hno
    have hspec : Post (iunlockput sb k) t' _ (Err False) := iunlockput_spec h hnot
    refine (Post.and hquiet hspec).mono (fun _ u hu => ?_) fun _ _ _ => trivial
    exact .inl ⟨hold, .of_files ((hsame.trans same).trans hu.1.files) hu.2.1⟩
  | @created _ _ i N' hnew h hnode hfree =>
    have hspec : Post (iunlockput sb k) t' _ (Err False) := iunlockput_spec h hnot
    refine hspec.mono (fun _ u hu => .inr ⟨hnew, i, fun heq => hfree ?_⟩) fun _ _ _ => trivial
    -- The new file has a link, so that giving it back does not free it.
    rw [← heq, hu.1.node_of_nlink (by rw [hnode]; decide), hnode]

lemma sysOpen_failed (hs : Consistent sb s.fs) (href : 0 < (s.fs.inode cwd).ref)
    (hfile : ∀ f, (s.file f).ref = 0 → (s.file f).ip = none) (p : Slot) (path : List ℕ)
    (omode : ℕ) :
    Post (sysOpen sb p cwd path omode) s
      (fun r s' => r = none →
        ∃ t, s' = { s with fs := t } ∧
          Left (omode &&& O_CREATE ≠ 0 ∧ Missing (node s.fs) (s.fs.inode cwd).inum path) s t)
      fun _ _ => True := by
  have h : Midcall sb s.fs.inode (node s.fs) [] ∅ { s.fs with logged := [] } :=
    hs.start.congr rfl rfl rfl rfl rfl
  have hfree : ∀ i, (node s.fs i).type = .free → (node s.fs i).nlink = 0 := fun i hi => by
    rw [node_type] at hi
    rw [node_eq_free hi]
    rfl
  have hsame : SameFiles s.fs { s.fs with logged := [] } := ⟨rfl, rfl, rfl⟩
  rw [sysOpen, post_bind, post_liftFs]
  change Post (liftFs (openInode sb cwd path omode) >>= _)
    { s with fs := { s.fs with logged := [] } } _ _
  rw [post_bind, post_liftFs]
  refine (openInode_opened hs.kept href hfree h path omode).imp fun r t ht => ?_
  cases r with
  | none => exact fun _ => ⟨t, rfl, ht.left hsame⟩
  | some ip =>
    refine filealloc_post.seq ?_
    rintro _ _ (⟨rfl, rfl⟩ | ⟨f, rfl, hf, rfl⟩)
    · rw [post_bind, post_liftFs]
      exact (ht.put hsame).imp fun _ u hu _ => ⟨u, rfl, hu⟩
    · refine (fdalloc_post p f).seq ?_
      rintro _ _ (⟨rfl, rfl⟩ | ⟨fd, rfl, -, rfl⟩)
      · refine (fileclose_fresh (s := { s with fs := t }) hf (hfile f hf)).seq ?_
        rintro _ _ rfl
        rw [post_bind, post_liftFs]
        exact (ht.put hsame).imp fun _ u hu _ => ⟨u, rfl, hu⟩
      · refine (post_bind _).mpr (.of_forall (fun _ _ => ?_) fun _ _ => trivial)
        refine (post_bind _).mpr (.of_forall (fun _ _ => ?_) fun _ _ => trivial)
        exact (post_bind _).mpr
          (.of_forall (fun _ _ hnone => absurd hnone (Option.some_ne_none _)) fun _ _ => trivial)

/-- **An open that returns -1** leaves everything as it was exactly if it was not to make a file
that is missing; otherwise the file stays. -/
theorem failed_open {s s' : Sys} {p : Slot} (hs : SysConsistent sb s)
    (hfile : ∀ f, (s.file f).ref = 0 → (s.file f).ip = none) (hcwd : (s.proc p).cwd = some cwd)
    (path : List ℕ) (omode : ℕ) (hrun : sysOpen sb p cwd path omode s = .ok none s') :
    (Unchanged s s' ↔ ¬(omode &&& O_CREATE ≠ 0 ∧ Missing (node s.fs) (s.fs.inode cwd).inum path)) ∧
      (omode &&& O_CREATE ≠ 0 ∧ Missing (node s.fs) (s.fs.inode cwd).inum path →
        ∃ i, node s'.fs i ≠ node s.fs i) := by
  have hpost := sysOpen_failed hs.fs (hs.cwd p cwd hcwd) hfile p path omode
  rw [Post, hrun] at hpost
  obtain ⟨t, rfl, hleft⟩ := hpost rfl
  rcases hleft with ⟨hold, hsame⟩ | ⟨hnew, i, hi⟩
  · exact ⟨⟨fun _ => hold, fun _ => hsame⟩, fun hnew => absurd hnew hold⟩
  · exact ⟨⟨fun hsame => absurd (hsame.node i) hi, fun hold => absurd hnew hold⟩, fun _ => ⟨i, hi⟩⟩

/-- `open("/x")` where there is no such file -/
theorem failed_open_x : ∃ s',
    sysOpen smallDisk firstSlot firstIp [47, 120] 0 bootSys = .ok none s' ∧
      Unchanged bootSys s' := by
  obtain ⟨s', hrun⟩ :
      ∃ s', sysOpen smallDisk firstSlot firstIp [47, 120] 0 bootSys = .ok none s' := by
    decide +kernel
  have hopen := failed_open sysConsistent_bootSys (fun _ _ => rfl) rfl _ _ hrun
  exact ⟨s', hrun, hopen.1.mpr fun hmade => absurd hmade.1 (by decide)⟩

/-- A process opens the root directory until it has no descriptor left. -/
def noFds : List Call := List.replicate NOFILE (.openFile firstSlot [47] 0)

/-- `open("/x", O_CREATE)` returns -1, and the file that it has made stays. -/
theorem failed_open_makes : ∃ s s', exec (sysStep smallDisk) bootSys noFds = some s ∧
    sysOpen smallDisk firstSlot firstIp [47, 120] O_CREATE s = .ok none s' ∧
    (node s.fs 2).type = .free ∧ (node s'.fs 2).type = .file := by
  simp only [exists_and_left]
  decide +kernel

end Xv6.Files
