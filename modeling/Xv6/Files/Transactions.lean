import Xv6.Files.LogBound
import Xv6.Files.Open

/-!
Transactions that change the name space fit in the log (`sys_link`, `sys_unlink`, `create`,
`fileclose`, `exit`).

* `sysLink_logs`, `sysUnlink_logs`, `create_logs`: how many blocks the calls pass to `log_write`.
* `Transaction`: the transactions of system calls.
* `metadata_fits_log`: each of them passes at most `MAXOPBLOCKS` blocks to `log_write`.
-/

namespace Xv6.Files

open Xv6.Fs Xv6.Proc Transition Function

variable {sb : Superblock} {t t' u : Fs} {k dp cwd : Ip} {B : Ip → Inode} {N : ℕ → Node}
  {H : List (Ip × ℕ)} {L : Set Ip} {i d n m : ℕ} {X : Finset ℕ}

/-! ### The calls -/

section NameCalls

variable (hsb : sb.size ≤ BPB) (hmap : sb.bmapstart ∈ X) (hheld : AllHeld B N)

include hsb hmap hheld

/-- A directory entry is made and the directory is given back. -/
lemma linkNew_logs (hcwd : 0 < (B cwd).ref) (h : Midcall sb B N [(k, i)] ∅ t) (new : List ℕ) :
    Logs 3 X (linkNew sb cwd new k) t := by
  refine namex_logs hheld hcwd h new true (fun _ _ => .pure _) fun dp d name t₁ h₁ => ?_
  refine Logs.count (b := sb.iblock d) (n := 2) ?_
  have hmap' : sb.bmapstart ∈ insert (sb.iblock d) X := Finset.mem_insert_of_mem hmap
  have hd : sb.iblock d ∈ insert (sb.iblock d) X := Finset.mem_insert_self ..
  refine ilock_logs h₁ (.head _) fun t₂ h₂ hnot => ?_
  rw [Logs, post_bind, post_inode]
  have hspec : Post (dirlink sb dp name (t₂.inode k).inum) t₂ _ (Err False) :=
    dirlink_spec h₂ (.head _) (.inl rfl) name _
  refine Logs.bind (n := 2) (m := 0)
    (dirlink_logs hsb hmap' hheld h₂ (.head _) (.inl rfl) hd name _) hspec ?_
  rintro r t₃ (⟨rfl, h₃⟩ | ⟨rfl, j, -, h₃⟩)
  · exact release_logs hheld h₃ hnot fun _ _ => .pure _
  · exact release_logs (hheld.putEntry _ _ _ _) h₃ hnot fun _ _ => .pure _

omit hmap in
lemma sysLink_logs (hcwd : 0 < (B cwd).ref) (h : Midcall sb B N [] ∅ t)
    (hroom : ∀ i, 0 ≤ (N i).nlink ∧ (N i).nlink < 2 ^ 15) (old new : List ℕ) :
    Post (sysLink sb cwd old new) t (fun _ => LogsBut 5 ∅ { t with logged := [] })
      fun _ => LogsBut 5 ∅ { t with logged := [] } := by
  have h₀ : Midcall sb B N [] ∅ { t with logged := [] } := h.congr rfl rfl rfl rfl rfl
  rw [sysLink, post_bind]
  refine namei_logs hheld hcwd h₀ old (fun _ _ => .pure _) fun k i t₁ h₁ => ?_
  refine Logs.count (b := sb.iblock i) (n := 4) (Logs.count (b := sb.bmapstart) (n := 3) ?_)
  have hmap : sb.bmapstart ∈ insert sb.bmapstart (insert (sb.iblock i) (∅ : Finset ℕ)) :=
    Finset.mem_insert_self ..
  have hi : sb.iblock i ∈ insert sb.bmapstart (insert (sb.iblock i) (∅ : Finset ℕ)) :=
    Finset.mem_insert_of_mem (Finset.mem_insert_self ..)
  refine ilock_logs h₁ (.head _) fun t₂ h₂ hnot => ?_
  rw [Logs, post_bind, post_inode]
  refine post_ite.mpr ⟨fun _ => release_logs hheld h₂ hnot fun _ _ => .pure _, fun _ => ?_⟩
  refine addLinks_logs hi h₂ (.head _) (.inl rfl) 1 fun t₃ h₃ => ?_
  have hheld₁ := hheld.addNlink (hroom i)
  have hunlock : Post (iunlock k) t₃ _ (Err False) := iunlock_spec h₃ hnot
  have hquiet : Quiet False (iunlock k) t₃ := iunlock_quiet h₃ hnot
  refine .quiet_bind hquiet hunlock fun _ t₄ ht₄ => ?_
  refine Logs.bind (n := 3) (m := 0) (linkNew_logs hsb hmap hheld₁ hcwd ht₄.1 new)
    (linkNew_spec (Start.weak hcwd) ht₄.1 new) ?_
  rintro _ t₅ (⟨rfl, h₅⟩ | ⟨rfl, d, j, name, -, -, -, -, h₅⟩)
  · refine ilock_logs h₅ (.head _) fun t₆ h₆ _ => addLinks_logs hi h₆ (.head _) (.inl rfl) (-1)
      fun t₇ h₇ => ?_
    rw [addNlink_back (hroom i)] at h₇
    exact release_logs hheld h₇ hnot fun _ _ => .pure _
  · have hput : Post (iput sb k) t₅ _ (Err False) := iput_spec h₅
    exact Logs.bind (n := 0) (m := 0) (iput_held_logs (hheld₁.putEntry _ _ _ _) h₅) hput
      fun _ _ _ => .pure _

omit hheld in
/-- The entry, the directory, which may be freed, and the file. -/
lemma removeEntry_logs {i d j : ℕ} (hi : sb.iblock i ∈ X) (hd : sb.iblock d ∈ X)
    (hdir : (N d).type = .dir) (h : Midcall sb B N [(k, i), (dp, d)] (insert k (insert dp ∅)) t)
    (hkd : k ≠ dp) : Logs 2 X (removeEntry sb dp k (DESIZE * j)) t := by
  have hinum : (t.inode dp).inum = d := h.held _ (.tail _ (.head _))
  have hspec : Post (writei sb dp (List.replicate DESIZE 0) (DESIZE * j)) t _ (Err False) :=
    writei_spec h (.tail _ (.head _)) (.inr (.inl rfl)) _ _
  have hwrite : Logs 2 X (writei sb dp (List.replicate DESIZE 0) (DESIZE * j)) t :=
    writei_logs hsb hmap List.length_replicate (by rwa [hinum]) j
  refine hwrite.bind (m := 0) hspec fun r t₁ hr => ?_
  -- Both inodes are unlocked and given back.
  have htail : ∀ N₂ u, Midcall sb B N₂ [(k, i), (dp, d)] (insert k (insert dp ∅)) u →
      Logs 0 X (do
        iunlockput sb dp
        addLinks sb k (-1)
        iunlockput sb k) u := by
    intro N₂ u hu
    rw [Set.insert_comm] at hu
    have hdp : dp ∉ insert k (∅ : Set Ip) := by simpa using Ne.symm hkd
    refine iunlockput_logs hsb hmap hd (hu.perm (List.Perm.swap (dp, d) (k, i) [])) hdp
      fun u₁ hu₁ => ?_
    refine addLinks_logs hi hu₁ List.mem_cons_self (.inl rfl) (-1) fun u₂ hu₂ => ?_
    have hlast :=
      iunlockput_logs (f := pure) (n := 0) hsb hmap hi hu₂ (Set.notMem_empty k) fun _ _ => .pure _
    rwa [bind_pure] at hlast
  cases hr with
  | dev htype _ =>
    rw [hdir] at htype
    cases htype
  | range _ h₁ =>
    rw [if_pos (by simp)]
    exact .of_eq rfl
  | done _ h₁ =>
    rw [if_neg (by simp)]
    simp only
    rw [Logs, post_bind, post_inode]
    refine post_ite.mpr ⟨fun _ => ?_, fun _ => htail _ t₁ h₁⟩
    exact addLinks_logs hd h₁ (.tail _ (.head _)) (.inr (.inl rfl)) (-1) fun t₂ h₂ => htail _ t₂ h₂

omit hmap in
lemma sysUnlink_logs (hcwd : 0 < (B cwd).ref) (h : Midcall sb B N [] ∅ t) (path : List ℕ) :
    Post (sysUnlink sb cwd path) t (fun _ => LogsBut 5 ∅ { t with logged := [] })
      fun _ => LogsBut 5 ∅ { t with logged := [] } := by
  have h₀ : Midcall sb B N [] ∅ { t with logged := [] } := h.congr rfl rfl rfl rfl rfl
  rw [sysUnlink, post_bind]
  refine namex_logs hheld hcwd h₀ path true (fun _ _ => .pure _) fun dp d name t₁ h₁ => ?_
  refine ilock_logs h₁ (.head _) fun t₂ h₂ hnot => ?_
  refine post_ite.mpr ⟨fun _ => release_logs hheld h₂ hnot fun _ _ => .pure _, fun _ => ?_⟩
  have hlook : Post (dirlookup sb dp name) t₂ _ (Err False) :=
    dirlookup_spec h₂ (.head _) (.inl rfl) name
  refine Logs.bind (n := 0) (m := 5) (dirlookup_logs h₂ (.head _) (.inl rfl) name) hlook
    fun r t₃ hr => ?_
  obtain ⟨hdir, hr⟩ := hr
  cases hr with
  | absent h₃ _ => exact release_logs hheld h₃ hnot fun _ _ => .pure _
  | @present _ k j _ _ _ h₃ =>
    generalize ((N d).entry j).inum = i at h₃
    refine Logs.count (b := sb.iblock i) (n := 4) (Logs.count (b := sb.iblock d) (n := 3)
      (Logs.count (b := sb.bmapstart) (n := 2) ?_))
    refine ilock_logs h₃ (.head _) fun t₄ h₄ hnot' => ?_
    rw [Logs, post_bind, post_inode]
    refine post_ite.mpr ⟨fun _ => .of_eq rfl, fun _ => ?_⟩
    have hfull : Post (isFullDir sb k) t₄ (fun r t' => t' = t₄ ∧ _) (Err False) :=
      isFullDir_spec h₄ (.head _) (.inl rfl)
    refine Logs.quiet_bind (isFullDir_quiet h₄ (.head _) (.inl rfl) False.elim) hfull
      fun r t₅ ht₅ => ?_
    obtain ⟨rfl, -⟩ := ht₅
    refine post_ite.mpr ⟨fun _ => ?_, fun _ => ?_⟩
    · exact release_logs hheld h₄ hnot' fun _ h₆ => release_logs hheld h₆ hnot fun _ _ => .pure _
    · have hkd : k ≠ dp := fun heq => hnot' (.inl heq)
      have hremove : Post (removeEntry sb dp k (DESIZE * j)) t₅ _ (Err False) :=
        removeEntry_spec h₄ hkd hdir
      refine Logs.bind (n := 2) (m := 0) (removeEntry_logs hsb ?_ ?_ ?_ hdir h₄ hkd) hremove
        fun _ _ _ => .pure _
      · simp
      · simp
      · simp

omit hsb hmap hheld in
lemma iget_logs (inum : ℕ) :
    Post (iget inum) t (fun k u => u.logged = t.logged ∧ (u.inode k).inum = inum)
      fun _ u => u.logged = t.logged := by
  unfold iget
  rw [post_bind, post_get]
  cases hfind : (List.finRange NINODE).find?
    fun k => 0 < (t.inode k).ref ∧ (t.inode k).inum = inum with
  | some k =>
    have hk := List.find?_some hfind
    simp only [decide_eq_true_eq] at hk
    simp only [post_bind, post_setInode, post_pure, Fs.setInode_inode_self]
    exact ⟨rfl, hk.2⟩
  | none =>
    cases (List.finRange NINODE).find? fun k => (t.inode k).ref = 0 with
    | some k =>
      simp only [post_bind, post_setInode, post_pure, Fs.setInode_inode_self]
      exact ⟨rfl, trivial⟩
    | none => rfl

omit hsb hmap hheld in
lemma ialloc_logs (ty : InodeType) :
    Post (ialloc sb ty) t (fun k u => LogsBut 0 (insert (sb.iblock (u.inode k).inum) X) t u)
      fun _ => LogsBut 1 X t := by
  simp only [ialloc, post_bind, post_get]
  cases (List.range' 1 (sb.ninodes - 1)).find? fun i => (t.dinode i).type = .free with
  | none => exact .of_eq rfl
  | some i =>
    simp only [post_bind, post_set, post_logWrite]
    have hlogs :
        LogsBut 0 (insert (sb.iblock i) X) t ((t.setDinode i (.fresh ty)).log (sb.iblock i)) :=
      LogsBut.log (.of_eq rfl) rfl (Finset.mem_insert_self ..)
    refine (iget_logs i).mono (fun k u hu => ?_) fun _ u hu => ?_
    · rw [hu.2]
      exact hlogs.trans (m := 0) (.of_eq hu.1)
    · exact (hlogs.trans (m := 0) (.of_eq hu)).count

/-- The directory above, and the first block of the new one. -/
lemma makeDots_logs {i d : ℕ} (hi : sb.iblock i ∈ X) (hd : sb.iblock d ∈ X)
    (h : Midcall sb B N [(k, i), (dp, d)] (insert k (insert dp ∅)) t)
    (hroom : 0 ≤ (N d).nlink ∧ (N d).nlink < 2 ^ 15) : Logs 4 X (makeDots sb dp k) t := by
  refine addLinks_logs hd h (.tail _ (.head _)) (.inr (.inl rfl)) 1 fun t₁ h₁ => ?_
  have hheld₁ := hheld.addNlink hroom
  rw [Logs, post_bind, post_inode]
  have hdot : Post (dirlink sb k dot (t₁.inode k).inum) t₁ _ (Err False) :=
    dirlink_spec h₁ (.head _) (.inl rfl) dot _
  refine Logs.bind (n := 2) (m := 2) (dirlink_logs hsb hmap hheld₁ h₁ (.head _) (.inl rfl) hi dot _)
    hdot ?_
  rintro r t₂ (⟨rfl, h₂⟩ | ⟨rfl, j, -, h₂⟩)
  · exact .of_eq rfl
  simp only [Bool.not_true, Bool.false_eq_true, if_false]
  rw [Logs, post_bind, post_inode]
  have hdots : Post (dirlink sb k dotdot (t₂.inode dp).inum) t₂ _ (Err False) :=
    dirlink_spec h₂ (.head _) (.inl rfl) dotdot _
  refine Logs.bind (n := 2) (m := 0)
    (dirlink_logs hsb hmap (hheld₁.putEntry _ _ _ _) h₂ (.head _) (.inl rfl) hi dotdot _) hdots
    fun r t₃ _ => ?_
  exact post_ite.mpr ⟨fun _ => .of_eq rfl, fun _ => .of_eq rfl⟩

/-- A new inode, its directory entry, and what it takes to make a directory. -/
lemma createNew_logs {d : ℕ} (hd : sb.iblock d ∈ X) (h : Midcall sb B N [(dp, d)] (insert dp ∅) t)
    (hroom : ∀ i, 0 ≤ (N i).nlink ∧ (N i).nlink < 2 ^ 15) (name : List ℕ) (ty : InodeType)
    (major minor : ℤ) : Logs 7 X (createNew sb dp name ty major minor) t := by
  have hd' := h.node_of_locked List.mem_cons_self (.inl rfl)
  have hspec : Post (ialloc sb ty) t _ (Err False) := ialloc_spec h ty
  refine (Post.and (ialloc_logs (X := X) ty) hspec).bind (fun _ _ he => he.1.mono (by decide)) ?_
  rintro k t₁ ⟨hlogs, i, hfree, hpos, hlt, -, h₁⟩
  have hid : i ≠ d := by
    rintro rfl
    rw [node_type] at hfree
    exact hd'.2.1 hfree
  rw [show (t₁.inode k).inum = i from h₁.held _ (.head _)] at hlogs
  -- The block of the new inode is known from here.
  have hmap' : sb.bmapstart ∈ insert (sb.iblock i) X := Finset.mem_insert_of_mem hmap
  have hi : sb.iblock i ∈ insert (sb.iblock i) X := Finset.mem_insert_self ..
  have hd : sb.iblock d ∈ insert (sb.iblock i) X := Finset.mem_insert_of_mem hd
  suffices hrest : Logs 6 (insert (sb.iblock i) X) _ t₁ from
    Post.mono (Logs.after hlogs hrest) (fun _ _ hu => hu.count) fun _ _ hu => hu.count
  refine ilock_logs h₁ (.head _) fun t₂ h₂ hnot => ?_
  have hkd : k ≠ dp := fun heq => hnot (.inl heq)
  have hinum : (t₂.inode k).inum = i := h₂.held _ (.head _)
  rw [Logs, post_bind, post_inode, post_bind, post_setDin, post_bind]
  have hupdate : Post (iupdate sb k) (t₂.setInode k { t₂.inode k with
      din := { (t₂.inode k).din with major := short major, minor := short minor, nlink := 1 } })
      (fun _ => LogsBut 0 (insert (sb.iblock i) X) t₂) fun _ _ => False := by
    have hnone : LogsBut 0 (insert (sb.iblock i) X) t₂ t₂ := .of_eq rfl
    simp only [iupdate, post_bind, post_inode, post_modify, post_logWrite,
      Fs.setInode_inode_self, hinum]
    exact hnone.log (b := sb.iblock i) rfl hi
  have hmade : Post (iupdate sb k) (t₂.setInode k { t₂.inode k with
      din := { (t₂.inode k).din with major := short major, minor := short minor, nlink := 1 } })
      (fun _ u => Midcall sb B (update N i (newNode ty major minor)) [(k, i), (dp, d)]
        (insert k (insert dp ∅)) u) fun _ _ => False := by
    refine (iupdate_spec h₂ (.head _) (.inl rfl) ?_ ?_ ?_).imp fun _ u hu => ?_
    · rfl
    · rfl
    · rfl
    · have hmid := hu.1
      rw [update_self, update_idem] at hmid
      exact hmid
  refine (hupdate.and hmade).mono (fun _ t₃ ht₃ => ?_) fun _ _ he => he.1.elim
  have hheld₃ := hheld.newNode i ty major minor
  -- The new file is entered in the directory.
  have htail : ∀ N₄ u, AllHeld B N₄ → Midcall sb B N₄ [(k, i), (dp, d)] (insert k (insert dp ∅)) u →
      Logs 2 (insert (sb.iblock i) X) (do
        if !(← dirlink sb dp name (← inode k).inum) then throw .createDirlink
        iunlockput sb dp
        return k) u := by
    intro N₄ u hheld₄ hu
    rw [Logs, post_bind, post_inode]
    have hlink : Post (dirlink sb dp name (u.inode k).inum) u _ (Err False) :=
      dirlink_spec hu (.tail _ (.head _)) (.inr (.inl rfl)) name _
    refine Logs.bind (n := 2) (m := 0)
      (dirlink_logs hsb hmap' hheld₄ hu (.tail _ (.head _)) (.inr (.inl rfl)) hd name _) hlink ?_
    rintro r u₁ (⟨rfl, hu₁⟩ | ⟨rfl, j, -, hu₁⟩)
    · exact .of_eq rfl
    · rw [Set.insert_comm] at hu₁
      have hdp : dp ∉ insert k (∅ : Set Ip) := by simpa using Ne.symm hkd
      exact release_logs (hheld₄.putEntry _ _ _ _) (hu₁.perm (List.Perm.swap (dp, d) (k, i) [])) hdp
        fun _ _ => .pure _
  refine post_ite.mpr ⟨fun _ => ?_, fun _ => ?_⟩
  · have hroom₃ : 0 ≤ (update N i (Files.newNode ty major minor) d).nlink ∧
        (update N i (Files.newNode ty major minor) d).nlink < 2 ^ 15 := by
      rw [update_of_ne hid.symm]
      exact hroom d
    have hdots : Post (makeDots sb dp k) t₃ _ (Err False) :=
      makeDots_spec ht₃.2 hkd (by rw [update_self]; rfl) hpos (hlt.trans_le sb.ninodes_le)
    refine Post.mono (Logs.after ht₃.1 (Logs.bind (n := 4) (m := 2)
      (makeDots_logs hsb hmap' hheld₃ hi hd ht₃.2 hroom₃) hdots fun _ t₄ h₄ => htail _ t₄ ?_ h₄))
      (fun _ _ hu => hu.mono (by decide)) fun _ _ hu => hu.mono (by decide)
    exact ((hheld₃.addNlink hroom₃).putEntry _ _ _ _).putEntry _ _ _ _
  · exact Post.mono (Logs.after ht₃.1 (htail _ t₃ hheld₃ ht₃.2)) (fun _ _ hu => hu.mono (by decide))
      fun _ _ hu => hu.mono (by decide)

/-- **`create`** -/
lemma create_logs (hcwd : 0 < (B cwd).ref) (h : Midcall sb B N [] ∅ t)
    (hroom : ∀ i, 0 ≤ (N i).nlink ∧ (N i).nlink < 2 ^ 15) (path : List ℕ) (ty : InodeType)
    (major minor : ℤ) : Logs 8 X (create sb cwd path ty major minor) t := by
  refine namex_logs hheld hcwd h path true (fun _ _ => .pure _) fun dp d name t₁ h₁ => ?_
  refine ilock_logs h₁ (.head _) fun t₂ h₂ hnot => ?_
  have hlook : Post (dirlookup sb dp name) t₂ _ (Err False) :=
    dirlookup_spec h₂ (.head _) (.inl rfl) name
  refine Logs.bind (n := 0) (m := 8) (dirlookup_logs h₂ (.head _) (.inl rfl) name) hlook
    fun r t₃ hr => ?_
  cases hr.2 with
  | absent h₃ _ =>
    refine Logs.count (b := sb.iblock d) (n := 7) ?_
    have hmap' : sb.bmapstart ∈ insert (sb.iblock d) X := Finset.mem_insert_of_mem hmap
    have hnew :=
      createNew_logs hsb hmap' hheld (Finset.mem_insert_self ..) h₃ hroom name ty major minor
    have hany : Post (createNew sb dp name ty major minor) t₃ (fun _ _ => True) fun _ _ => True :=
      .of_forall (fun _ _ => trivial) fun _ _ => trivial
    exact hnew.bind (m := 0) hany fun _ _ _ => .pure _
  | @present _ k j _ _ _ h₃ =>
    refine release_logs hheld (h₃.perm (List.Perm.swap (dp, d) _ [])) hnot fun t₄ h₄ => ?_
    refine ilock_logs h₄ List.mem_cons_self fun t₅ h₅ hnot' => ?_
    rw [Logs, post_bind, post_inode]
    exact post_ite.mpr ⟨fun _ => .of_eq rfl,
      fun _ => release_logs hheld h₅ hnot' fun _ _ => .pure _⟩

end NameCalls

/-! ### System calls -/

/-- A transaction of a process. -/
inductive Transaction where
  | link (old new : List ℕ)
  | unlink (path : List ℕ)
  | openFile (path : List ℕ) (omode : ℕ)
  | mkdir (path : List ℕ)
  | mknod (path : List ℕ) (major minor : ℤ)
  | chdir (path : List ℕ)
  /-- `fileclose` -/
  | close (f : FileId)
  /-- `exit` gives back the current directory. -/
  | putCwd

/-- The transaction of the process `p` with the current directory `cwd`. -/
def Transaction.run (sb : Superblock) (p : Slot) (cwd : Ip) : Transaction → SysM Unit
  | .link old new => discard <| liftFs (sysLink sb cwd old new)
  | .unlink path => discard <| liftFs (sysUnlink sb cwd path)
  | .openFile path omode => discard <| sysOpen sb p cwd path omode
  | .mkdir path => discard <| sysMkdir sb cwd path
  | .mknod path major minor => discard <| sysMknod sb cwd path major minor
  | .chdir path => discard <| sysChdir sb p cwd path
  | .close f => fileclose sb f
  | .putCwd => do
    liftFs beginOp
    liftFs (iput sb cwd)

/-- **Files are held by open files and current directories**: an open file has a reference to its
inode, and a file without links is open or a current directory. -/
structure SysHeld (s : Sys) : Prop where
  free : ∀ f, (s.file f).ref = 0 → (s.file f).ip = none
  file : ∀ f k, (s.file f).ip = some k → 0 < (s.fs.inode k).ref
  held : ∀ i, (node s.fs i).type ≠ .free → (node s.fs i).nlink = 0 →
    (∃ f k, (s.file f).ip = some k ∧ (s.fs.inode k).inum = i) ∨
      ∃ p k, (s.proc p).cwd = some k ∧ (s.fs.inode k).inum = i

lemma SysHeld.allHeld {s : Sys} (h : SysHeld s) (hs : SysConsistent sb s) :
    AllHeld s.fs.inode (node s.fs) := by
  rintro i ⟨htype, hnlink, hno⟩
  rcases h.held i htype hnlink with ⟨f, k, hf, hk⟩ | ⟨p, k, hp, hk⟩
  · exact hno k (h.file f k hf) hk
  · exact hno k (hs.cwd p k hp) hk

/-- The current transaction is not too large. -/
def Small (s : Sys) : Prop := s.fs.logged.toFinset.card ≤ MAXOPBLOCKS

lemma small_of_logsBut {s : Sys} {n : ℕ} (h : LogsBut n ∅ { t with logged := [] } s.fs)
    (hn : n ≤ MAXOPBLOCKS) : Small s := by
  obtain ⟨new, hnew, hcard⟩ := h.atMost
  rw [Finset.card_empty] at hcard
  rw [Small, hnew]
  exact hcard.trans hn

/-- The inode that a call works on is locked, and what it has made so far is held. -/
def HasInode (sb : Superblock) (B : Ip → Inode) (r : Option Ip) (t : Fs) : Prop :=
  ∀ k, r = some k → ∃ N i, AllHeld B N ∧ Midcall sb B N [(k, i)] (insert k ∅) t

lemma HasInode.release {r : Option Ip} (h : HasInode sb B r t) (hr : r = some k) :
    Logs 0 ∅ (iunlockput sb k) t := by
  obtain ⟨N, i, hheld, hmid⟩ := h k hr
  have hquiet : Quiet False (iunlockput sb k) t :=
    iunlockput_quiet hmid (Set.notMem_empty k) (hheld i)
  exact .of_quiet hquiet

section Inodes

variable (hsb : sb.size ≤ BPB) (hheld : AllHeld B N) (hroom : ∀ i, 0 ≤ (N i).nlink ∧
  (N i).nlink < 2 ^ 15) (hcwd : 0 < (B cwd).ref) (h : Midcall sb B N [] ∅ t)

include hsb hheld hroom hcwd h

lemma create_hasInode (path : List ℕ) (ty : InodeType) (major minor : ℤ) :
    Post (create sb cwd path ty major minor) t (fun r u => LogsBut 9 ∅ t u ∧ HasInode sb B r u)
      fun _ => LogsBut 9 ∅ t := by
  have hlogs : Logs 9 ∅ (create sb cwd path ty major minor) t :=
    Logs.count (create_logs hsb (Finset.mem_insert_self sb.bmapstart ∅) hheld hcwd h hroom path
      ty major minor)
  have hspec : Post (create sb cwd path ty major minor) t _ (Err False) :=
    create_spec (Start.weak hcwd) h path False.elim major minor
  refine (Post.and hlogs hspec).mono (fun r u hu => ⟨hu.1, fun k hk => ?_⟩) fun _ _ hu => hu.1
  cases hu.2 with
  | failed => cases hk
  | existing _ _ _ h' =>
    cases hk
    exact ⟨N, _, hheld, h'⟩
  | created _ _ _ _ _ _ _ hid h' =>
    cases hk
    exact ⟨_, _, (hheld.makeAt hid (hroom _) ty major minor).putEntry _ _ _ _, h'⟩

lemma openInode_hasInode (path : List ℕ) (omode : ℕ) :
    Post (openInode sb cwd path omode) t (fun r u => LogsBut 9 ∅ t u ∧ HasInode sb B r u)
      fun _ => LogsBut 9 ∅ t := by
  refine post_ite.mpr ⟨fun _ => create_hasInode hsb hheld hroom hcwd h path .file 0 0, fun _ => ?_⟩
  have hspec : Post (namei sb cwd path) t _ (Err False) := namei_spec (Start.weak hcwd) h path
  have hnamei : Logs 9 ∅ (namei sb cwd path) t := by
    have hlogs :=
      namei_logs (f := pure) (n := 9) (X := ∅) hheld hcwd h path (fun _ _ => .pure _)
        fun _ _ _ _ => .pure _
    rwa [bind_pure] at hlogs
  refine (Post.and hnamei hspec).bind (fun _ _ he => he.1) ?_
  rintro _ t₁ ⟨hlogs, ⟨rfl, -⟩ | ⟨k, i, rfl, -, -, h₁⟩⟩
  · exact ⟨hlogs, fun k hk => by cases hk⟩
  have hlock : Post (ilock sb k) t₁ (fun _ t' => Locked sb B N [(k, i)] ∅ k t₁ t') (Err False) :=
    ilock_spec h₁ List.mem_cons_self False.elim
  have hsame : ∀ {u}, SameDisk t₁ u → LogsBut 9 ∅ t u :=
    fun hu => hlogs.trans (m := 0) (.of_eq hu.logged)
  refine (ilock_disk.and hlock).bind (fun _ _ he => hsame he.1) fun _ t₂ ht₂ => ?_
  rw [post_bind, post_inode]
  refine post_ite.mpr ⟨fun _ => ?_, fun _ => ⟨hsame ht₂.1, ?_⟩⟩
  · have hquiet : Quiet False (iunlockput sb k) t₂ :=
      iunlockput_quiet ht₂.2.mid ht₂.2.notMem (hheld i)
    rw [post_bind]
    exact Post.mono hquiet (fun _ u hu => ⟨hsame (ht₂.1.trans hu), fun k hk => by cases hk⟩)
      fun _ u hu => hsame (ht₂.1.trans hu.1)
  · intro k' hk'
    cases hk'
    exact ⟨N, i, hheld, ht₂.2.mid⟩

end Inodes

section SysCalls

variable {s : Sys} (hsb : sb.size ≤ BPB) (hs : SysConsistent sb s) (hheld : SysHeld s)
  (href : 0 < (s.fs.inode cwd).ref)

include hsb hs

/-- `iput` in a transaction of its own. -/
lemma put_small (hk : 0 < (s.fs.inode k).ref) {s' : Sys} (hfs : s'.fs = s.fs) :
    Post (do
      liftFs beginOp
      liftFs (iput sb k)) s' (fun _ => Small) fun _ => Small := by
  have h : Midcall sb s.fs.inode (node s.fs) [] ∅ { s.fs with logged := [] } :=
    hs.fs.start.congr rfl rfl rfl rfl rfl
  rw [post_bind, post_liftFs, hfs]
  change Post (liftFs (iput sb k)) { s' with fs := { s.fs with logged := [] } } _ _
  rw [post_liftFs]
  have hput : Logs 0 {sb.bmapstart, sb.iblock (s.fs.inode k).inum} (iput sb k)
      { s.fs with logged := [] } :=
    iput_logs hsb (by simp) (by simp) h.wf hk
  have hlogs : Logs 2 ∅ (iput sb k) { s.fs with logged := [] } := hput.count.count
  exact Post.mono hlogs (fun _ _ hu => small_of_logsBut hu (by decide))
    fun _ _ hu => small_of_logsBut hu (by decide)

include hheld href

/-- What `create` has made or found is given back. -/
lemma mk_small (path : List ℕ) (ty : InodeType) (major minor : ℤ) :
    Post (do
      liftFs beginOp
      match ← liftFs (create sb cwd path ty major minor) with
      | none => return false
      | some ip =>
        liftFs (iunlockput sb ip)
        return true) s (fun _ => Small) fun _ => Small := by
  have h : Midcall sb s.fs.inode (node s.fs) [] ∅ { s.fs with logged := [] } :=
    hs.fs.start.congr rfl rfl rfl rfl rfl
  rw [post_bind, post_liftFs]
  change Post (liftFs (create sb cwd path ty major minor) >>= _)
    { s with fs := { s.fs with logged := [] } } _ _
  rw [post_bind, post_liftFs]
  refine (create_hasInode hsb (hheld.allHeld hs) hs.fs.nlink href h path ty major minor).mono
    (fun r t ht => ?_) fun _ _ hu => small_of_logsBut hu (by decide)
  cases r with
  | none => exact small_of_logsBut ht.1 (by decide)
  | some ip =>
    rw [post_bind, post_liftFs]
    exact Post.mono (Logs.after ht.1 (ht.2.release rfl))
      (fun _ _ hu => small_of_logsBut hu (by decide)) fun _ _ hu => small_of_logsBut hu (by decide)

lemma sysOpen_small (p : Slot) (path : List ℕ) (omode : ℕ) :
    Post (sysOpen sb p cwd path omode) s (fun _ => Small) fun _ => Small := by
  have h : Midcall sb s.fs.inode (node s.fs) [] ∅ { s.fs with logged := [] } :=
    hs.fs.start.congr rfl rfl rfl rfl rfl
  rw [sysOpen, post_bind, post_liftFs]
  change Post (liftFs (openInode sb cwd path omode) >>= _)
    { s with fs := { s.fs with logged := [] } } _ _
  rw [post_bind, post_liftFs]
  refine (openInode_hasInode hsb (hheld.allHeld hs) hs.fs.nlink href h path omode).mono
    (fun r t ht => ?_) fun _ _ hu => small_of_logsBut hu (by decide)
  cases r with
  | none => exact small_of_logsBut ht.1 (by decide)
  | some ip =>
    -- The inode is given back in a state with the same file system.
    have hput : ∀ s' : Sys, s'.fs = t → Post (do
        liftFs (iunlockput sb ip)
        return none) s' (fun (_ : Option Fd) => Small) fun _ => Small := by
      rintro s' rfl
      rw [post_bind, post_liftFs]
      exact Post.mono (Logs.after ht.1 (ht.2.release rfl))
        (fun _ _ hu => small_of_logsBut hu (by decide))
        fun _ _ hu => small_of_logsBut hu (by decide)
    refine filealloc_post.seq ?_
    rintro _ _ (⟨rfl, rfl⟩ | ⟨f, rfl, hf, rfl⟩)
    · exact hput _ rfl
    refine (fdalloc_post p f).seq ?_
    rintro _ _ (⟨rfl, rfl⟩ | ⟨fd, rfl, -, rfl⟩)
    · refine (fileclose_fresh (s := { s with fs := t }) hf (hheld.free f hf)).seq ?_
      rintro _ _ rfl
      exact hput _ rfl
    · rw [post_bind, post_liftFs]
      have hsame : ∀ {u}, SameDisk t u → LogsBut 9 ∅ { s.fs with logged := [] } u := fun hu =>
        ht.1.trans (m := 0) (.of_eq hu.logged)
      exact iunlock_disk.mono (fun _ _ hu => small_of_logsBut (hsame hu) (by decide))
        fun _ _ hu => small_of_logsBut (hsame hu) (by decide)

lemma sysChdir_small (p : Slot) (path : List ℕ) :
    Post (sysChdir sb p cwd path) s (fun _ => Small) fun _ => Small := by
  have h : Midcall sb s.fs.inode (node s.fs) [] ∅ { s.fs with logged := [] } :=
    hs.fs.start.congr rfl rfl rfl rfl rfl
  have hall := hheld.allHeld hs
  have hquiet : Quiet False (namei sb cwd path) { s.fs with logged := [] } :=
    (namex_quiet hall.kept False.elim href h False.elim False.elim path false).bind
    (namex_spec (Start.weak href) h path false) fun _ _ _ => .pure _
  have hsmall : ∀ {u : Fs} {s' : Sys}, SameDisk { s.fs with logged := [] } u → s'.fs = u →
    Small s' := by
    rintro u s' hu rfl
    exact small_of_logsBut (n := 0) (.of_eq hu.logged) (by decide)
  rw [sysChdir, post_bind, post_liftFs]
  change Post (liftFs (namei sb cwd path) >>= _) { s with fs := { s.fs with logged := [] } } _ _
  rw [post_bind, post_liftFs]
  refine Post.mono (Post.and hquiet (namei_spec (Start.weak href) h path)) ?_
    fun _ _ he => hsmall he.1.1 rfl
  rintro _ t₁ ⟨hd₁, ⟨rfl, h₁⟩ | ⟨k, i, rfl, -, -, h₁⟩⟩
  · exact hsmall hd₁ rfl
  have hlock :
      Post (ilock sb k) t₁ (fun _ t' => Locked sb s.fs.inode (node s.fs) [(k, i)] ∅ k t₁ t')
      (Err False) :=
    ilock_spec h₁ List.mem_cons_self False.elim
  refine (post_bind _).mpr (post_liftFs _ |>.mpr ((ilock_disk.and hlock).mono (fun _ t₂ ht₂ => ?_)
    fun _ _ he => hsmall (hd₁.trans he.1) rfl))
  have hd₂ := hd₁.trans ht₂.1
  rw [post_bind, post_liftFs, post_inode]
  refine post_ite.mpr ⟨fun _ => ?_, fun _ => ?_⟩
  · have hput : Quiet False (iunlockput sb k) t₂ := iunlockput_quiet ht₂.2.mid ht₂.2.notMem (hall i)
    exact (post_bind _).mpr
      (post_liftFs _ |>.mpr (Post.mono hput (fun _ _ hu => hsmall (hd₂.trans hu) rfl)
      fun _ _ he => hsmall (hd₂.trans he.1) rfl))
  · -- The old current directory may be freed.
    have hunlock : Post (iunlock k) t₂ _ (Err False) := iunlock_spec ht₂.2.mid ht₂.2.notMem
    refine (post_bind _).mpr
      (post_liftFs _ |>.mpr ((iunlock_disk.and hunlock).mono (fun _ t₃ ht₃ => ?_)
      fun _ _ he => hsmall (hd₂.trans he.1) rfl))
    have h₃ := ht₃.2.1
    have href₃ : 0 < (t₃.inode cwd).ref := by
      rw [h₃.ref cwd]
      omega
    have hput : Logs 0 {sb.bmapstart, sb.iblock (t₃.inode cwd).inum} (iput sb cwd) t₃ :=
      iput_logs hsb (by simp) (by simp) h₃.wf href₃
    have hlogs : Logs 2 ∅ (iput sb cwd) t₃ := hput.count.count
    have hbefore : LogsBut 0 ∅ { s.fs with logged := [] } t₃ := .of_eq (hd₂.trans ht₃.1).logged
    refine (post_bind _).mpr
      (post_liftFs _ |>.mpr (Post.mono (Logs.after hbefore hlogs) (fun _ _ hu => ?_)
      fun _ _ hu => small_of_logsBut hu (by decide)))
    exact small_of_logsBut hu (by decide)

end SysCalls

/-- **Every transaction fits in the log**: one that changes the name space, closes a file or gives
back a current directory passes at most `MAXOPBLOCKS` blocks to `log_write`, also if it stops. -/
theorem metadata_fits_log {s : Sys} {p : Slot} (hsb : sb.size ≤ BPB) (hs : SysConsistent sb s)
    (hheld : SysHeld s) (hcwd : (s.proc p).cwd = some cwd) (hlog : s.fs.logged = [])
    (c : Transaction) : (finalState (c.run sb p cwd s)).fs.logged.toFinset.card ≤ MAXOPBLOCKS := by
  have href := hs.cwd p cwd hcwd
  have hall := hheld.allHeld hs
  refine Post.final (I := Small) ?_
  cases c with
  | link old new =>
    rw [Transaction.run, post_discard, post_liftFs]
    exact (sysLink_logs hsb hall href hs.fs.start hs.fs.nlink old new).mono
      (fun _ _ hu => small_of_logsBut hu (by decide)) fun _ _ hu => small_of_logsBut hu (by decide)
  | unlink path =>
    rw [Transaction.run, post_discard, post_liftFs]
    exact (sysUnlink_logs hsb hall href hs.fs.start path).mono
      (fun _ _ hu => small_of_logsBut hu (by decide)) fun _ _ hu => small_of_logsBut hu (by decide)
  | openFile path omode => exact post_discard.mpr (sysOpen_small hsb hs hheld href p path omode)
  | mkdir path => exact post_discard.mpr (mk_small hsb hs hheld href path .dir 0 0)
  | mknod path major minor =>
    exact post_discard.mpr (mk_small hsb hs hheld href path .dev major minor)
  | chdir path => exact post_discard.mpr (sysChdir_small hsb hs hheld href p path)
  | close f =>
    have hsmall : ∀ s' : Sys, s'.fs = s.fs → Small s' := fun s' hfs => by
      rw [Small, hfs, hlog]
      exact Nat.zero_le _
    simp only [Transaction.run, fileclose, setFile, post_bind, post_get, post_ite,
      post_throw, post_modify]
    refine ⟨fun _ => hsmall s rfl, fun _ => ⟨fun _ => hsmall _ rfl, fun _ => ?_⟩⟩
    cases hip : (s.file f).ip with
    | none => exact hsmall _ rfl
    | some k => exact put_small hsb hs (hheld.file f k hip) rfl
  | putCwd => exact put_small hsb hs href rfl

lemma sysHeld_bootSys : SysHeld bootSys := by
  refine ⟨fun _ _ => rfl, fun _ _ hf => absurd hf (Option.some_ne_none _).symm,
    fun i hi hnlink => ?_⟩
  obtain rfl := node_bootFs hi
  exact absurd hnlink (by decide)

/-- `mkdir("/a")` -/
theorem metadata_fits_log_mkdir :
    (finalState (Transaction.run smallDisk firstSlot firstIp (.mkdir [47, 97])
      bootSys)).fs.logged.toFinset.card ≤ MAXOPBLOCKS :=
  metadata_fits_log (by decide) sysConsistent_bootSys sysHeld_bootSys rfl rfl _

end Xv6.Files
