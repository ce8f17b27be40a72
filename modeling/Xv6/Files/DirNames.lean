import Xv6.Files.Resolve

/-!
The names in a directory (`dirlink`, `sys_link`, `sys_unlink`, `create`).

`dirlookup` returns the first entry with a name, so an entry is only found if no earlier one in use
has the same name, up to `DIRSIZ` bytes.  `Named` says that no two entries in use have the same
name; every operation keeps it as long as the bytes of a directory are not written directly, which
`sys_open` sees to (`Ordinary`).  So no entry is ever hidden by another one: `no_entry_hidden`.
-/

namespace Xv6.Files

open Xv6.Fs Transition Function

/-- No two entries in use have the same name. -/
def Node.Distinct (x : Node) : Prop :=
  ∀ name a b, DESIZE * a < x.size → DESIZE * b < x.size → x.Matches name a →
    x.Matches name b → a = b

def Named (N : ℕ → Node) : Prop := ∀ d, (N d).type = .dir → (N d).Distinct

variable {sb : Superblock} {s s₀ s' t : Fs} {B : Ip → Inode} {N : ℕ → Node}
  {H : List (Ip × ℕ)} {L : Set Ip} {k : Ip} {i j d : ℕ} {x y : Node} {name : List ℕ}

/-! ### Entries are written -/

/-- The names after an entry has been written.  Its inode number is cut to a `ushort`. -/
lemma Node.matches_put {n : List ℕ} {l : ℕ} : (x.put j ⟨i, strncpy name DIRSIZ⟩).Matches n l ↔
    if l = j then i % 2 ^ 16 ≠ 0 ∧ canon n = canon name else x.Matches n l := by
  split
  · next h =>
    subst h
    have hbytes : Dirent.toBytes ⟨i, strncpy name DIRSIZ⟩
        = Dirent.toBytes ⟨i % 2 ^ 16, strncpy name DIRSIZ⟩ := by
      simp only [Dirent.toBytes, List.cons.injEq, List.append_cancel_right_eq, and_true]
      omega
    have hput : x.put l ⟨i, strncpy name DIRSIZ⟩ = x.put l ⟨i % 2 ^ 16, strncpy name DIRSIZ⟩ := by
      unfold put
      rw [hbytes]
    rw [hput, Matches, entry_put_self x l (strncpy_length ..) (Nat.mod_lt _ (by decide)),
      namecmp_eq_zero, canon_strncpy]
  · next h => rw [Matches, entry_put_of_ne x _ h, Matches]

/-- A name that has no other entry may be entered, and an entry may be erased. -/
lemma Node.Distinct.put (h : x.Distinct) (hj : DESIZE * j ≤ x.size)
    (hfree : i = 0 ∨ ∀ l ≠ j, DESIZE * l < x.size → ¬x.Matches name l) :
    (x.put j ⟨i, strncpy name DIRSIZ⟩).Distinct := by
  have hold : ∀ l ≠ j, DESIZE * l < max x.size (DESIZE * (j + 1)) → DESIZE * l < x.size := by
    intro l hl hlt
    simp only [DESIZE, DIRSIZ] at hj hlt ⊢
    omega
  have halone : ∀ n l, l ≠ j → DESIZE * l < x.size → i % 2 ^ 16 ≠ 0 ∧ canon n = canon name →
      ¬x.Matches n l := by
    rintro n l hl hlt ⟨hi, hn⟩ hm
    refine hfree.elim (fun h0 => hi (by simp [h0])) fun hfree => hfree l hl hlt ⟨hm.1, ?_⟩
    rw [namecmp_eq_zero, ← hn, ← namecmp_eq_zero]
    exact hm.2
  intro n a b ha hb hma hmb
  rw [matches_put] at hma hmb
  split at hma <;> split at hmb
  · next haj hbj => rw [haj, hbj]
  · next _ hbj => exact absurd hmb (halone n b hbj (hold b hbj hb) hma)
  · next haj _ => exact absurd hma (halone n a haj (hold a haj ha) hmb)
  · next haj hbj => exact h n a b (hold a haj ha) (hold b hbj hb) hma hmb

lemma Node.Distinct.of_empty (h : x.size = 0) : x.Distinct := fun _ _ _ ha => by
  rw [h] at ha
  exact absurd ha (Nat.not_lt_zero _)

namespace Named

variable (h : Named N)

include h

lemma update (hy : y.type = .dir → y.Distinct) : Named (update N i y) := by
  intro d hd
  by_cases hdi : d = i
  · subst hdi
    rw [update_self] at hd ⊢
    exact hy hd
  · rw [update_of_ne hdi] at hd ⊢
    exact h d hd

lemma addNlink (i : ℕ) (x : ℤ) : Named (addNlink N i x) := h.update (h i)

lemma putEntry (hj : DESIZE * j ≤ (N d).size)
    (hfree : i = 0 ∨ ∀ l ≠ j, DESIZE * l < (N d).size → ¬(N d).Matches name l) :
    Named (putEntry N d j i name) := h.update fun hd => (h d hd).put hj hfree

lemma putNew (hnew : NewEntry (N d) j name) (i : ℕ) : Named (Files.putEntry N d j i name) := by
  refine h.putEntry ?_ (.inr fun l _ hl => hnew.absent l hl)
  rcases hnew.vacant.2 with ⟨hle, -⟩ | heq
  · rw [Nat.mul_succ] at hle
    omega
  · exact heq.ge

lemma unlinkAt (hj : DESIZE * (j + 1) ≤ (N d).size) (i : ℕ) : Named (unlinkAt N d j i) := by
  have herased : Named (Files.putEntry N d j 0 []) := by
    refine h.putEntry ?_ (.inl rfl)
    rw [Nat.mul_succ] at hj
    omega
  unfold Files.unlinkAt
  split
  · exact (herased.addNlink d (-1)).addNlink i (-1)
  · exact herased.addNlink i (-1)

/-- A new directory has the entries `.` and `..`. -/
lemma dotsAt (hid : i ≠ d) (hsize : (N i).size = 0) : Named (dotsAt N d i) := by
  have hi : (Files.addNlink N d 1 i).size = 0 := by rw [addNlink_of_ne hid, hsize]
  refine ((h.addNlink d 1).putEntry (by simp) (.inr fun l _ hl => ?_)).putEntry ?_
    (.inr fun l hl hlt => ?_)
  · rw [hi] at hl
    exact absurd hl (Nat.not_lt_zero _)
  · rw [Files.putEntry, update_self, Node.put_size, hi]
    decide
  · rw [Files.putEntry, update_self] at hlt ⊢
    rw [Node.put_size, hi] at hlt
    obtain rfl : l = 0 := by
      simp only [DESIZE, DIRSIZ] at hlt
      omega
    rw [Node.matches_put, if_pos rfl]
    exact fun h => absurd h.2 (by decide)

lemma makeAt (hid : i ≠ d) (ty : InodeType) (major minor : ℤ) :
    Named (makeAt N d i ty major minor) := by
  have hnew : Named (Function.update N i (newNode ty major minor)) :=
    h.update fun _ => .of_empty rfl
  unfold Files.makeAt
  split
  · exact hnew.dotsAt hid (by rw [update_self]; rfl)
  · exact hnew

/-- What a call has made of the files. -/
lemma of_midcall (hmid : Midcall sb B N H L t) : Named (node t) := by
  intro d hd
  rcases hmid.node d with heq | ⟨-, hfree⟩
  · rw [heq] at hd ⊢
    exact h d hd
  · rw [hfree] at hd
    cases hd

end Named

/-- Whoever makes a new file enters it in the directory as it found it. -/
lemma NewEntry.makeAt (h : NewEntry (N d) j name) (hid : i ≠ d) (ty : InodeType) (major minor : ℤ) :
    NewEntry (makeAt N d i ty major minor d) j name := by
  unfold Files.makeAt
  split
  · rw [dotsAt_of_ne hid.symm, addNlink_self, update_of_ne hid.symm]
    exact h.congr rfl rfl rfl
  · rwa [update_of_ne hid.symm]

/-! ### Operations -/

/-- Directories are not written directly, and only `iput` cuts a file. -/
def Ordinary (s : Fs) : Op → Prop
  | .writei k _ _ => (node s (s.inode k).inum).type ≠ .dir
  | .itrunc _ => False
  | _ => True

instance (s : Fs) (op : Op) : Decidable (Ordinary s op) := by
  unfold Ordinary
  split <;> infer_instance

/-- Something is done to an inode between `ilock` and `iunlock`. -/
lemma Named.locked (h : AtRest sb s) (href : 0 < (s.inode k).ref) {α : Type} {m : FsM α}
    (hm : ∀ t, Midcall sb (without k s.inode) (node s) [(k, (s.inode k).inum)] (insert k ∅) t →
      Post m t (fun _ t' => ∃ N', Named N' ∧
        Midcall sb (without k s.inode) N' [(k, (s.inode k).inum)] (insert k ∅) t') (Err False)) :
    Post (do
      ilock sb k
      let _ ← m
      iunlock k) s (fun _ t => Named (node t)) (Err False) := by
  have hmid := Midcall.hold h.wf h.unlocked href
  refine (ilock_spec hmid (List.mem_singleton_self _) False.elim).seq fun _ t ht => ?_
  refine (hm t ht.mid).seq fun _ u hu => ?_
  obtain ⟨N', hN', hu⟩ := hu
  exact (iunlock_spec hu (Set.notMem_empty k)).imp fun _ v hv => hN'.of_midcall hv.1

/-- **An operation** hides no entry. -/
lemma runOp_named (h : AtRest sb s) (hn : Named (node s)) {op : Op} (hop : Allowed s op)
    (hord : Ordinary s op) : Post (runOp sb op) s (fun _ t => Named (node t)) (Err False) := by
  have hstart := Midcall.start h.wf h.unlocked
  cases op with
  | iget inum =>
    refine (iget_spec hstart).seq fun _ t ht => ?_
    exact hn.of_midcall ht.1
  | ialloc ty =>
    refine (ialloc_spec hstart ty).seq ?_
    rintro _ t ⟨i, -, -, -, -, hmid⟩
    exact (hn.update fun _ => .of_empty rfl).of_midcall hmid
  | iput k =>
    exact (iput_spec (Midcall.hold h.wf h.unlocked (hop k rfl))).imp
      fun _ t ht => hn.of_midcall ht.1
  | readi k off n =>
    refine Named.locked h (hop k rfl) fun t ht => ?_
    exact (readi_spec ht (List.mem_singleton_self _) (.inl rfl) off n).imp
      fun _ u hu => ⟨_, hn, hu.1⟩
  | writei k src off =>
    refine Named.locked h (hop k rfl) fun t ht => ?_
    refine (writei_spec ht (List.mem_singleton_self _) (.inl rfl) src off).imp fun _ u hu => ?_
    cases hu with
    | dev _ hmid | range _ hmid => exact ⟨_, hn, hmid⟩
    | done hwrite hmid =>
      refine ⟨_, hn.update fun hd => absurd ?_ hord, hmid⟩
      rwa [(Node.write_eq_some.mp hwrite).2.2] at hd
  | itrunc k => exact hord.elim
  | create cwd path ty major minor =>
    refine (create_spec (R := fun _ => True) (start_of_ref (hop cwd rfl)) hstart path False.elim
      major minor).seq fun r t ht => ?_
    cases ht with
    | failed hmid => exact hn.of_midcall hmid
    | existing _ _ _ hmid =>
      exact (iunlock_spec hmid (Set.notMem_empty _)).imp fun _ v hv => hn.of_midcall hv.1
    | created _ _ _ hnew _ _ _ hid hmid =>
      have hmade := (hn.makeAt hid ty major minor).putNew (hnew.makeAt hid ty major minor)
      exact (iunlock_spec hmid (Set.notMem_empty _)).imp fun _ v hv => (hmade _).of_midcall hv.1
  | link cwd old new =>
    refine (sysLink_spec (R := fun _ => True) (start_of_ref (hop cwd rfl)) False.elim hstart
      old new).seq ?_
    rintro _ t ⟨N', hlink, hmid⟩
    refine Named.of_midcall ?_ hmid
    cases hlink with
    | same => exact hn
    | back => exact (hn.addNlink _ _).addNlink _ _
    | linked _ _ _ _ _ _ hnew => exact (hn.addNlink _ _).putNew hnew _
  | unlink cwd path =>
    refine (sysUnlink_spec (R := fun _ => True) (start_of_ref (hop cwd rfl)) hstart path).seq ?_
    rintro _ t ⟨N', hunlink, hmid, -⟩
    refine Named.of_midcall ?_ hmid
    cases hunlink with
    | same => exact hn
    | unlinked _ _ _ _ _ _ hj => exact hn.unlinkAt hj _

/-! ### Runs -/

variable {tr : List (Fs × Op)}

lemma named_of_run (h : AtRest sb s₀) (hn : Named (node s₀)) (hr : Run (opStep sb) s₀ tr s)
    (hord : ∀ e ∈ tr, Ordinary e.1 e.2) : Named (node s) := by
  induction hr with
  | nil => exact hn
  | @cons s u _ op _ hs _ ih =>
    refine ih (h.step hs) ?_ fun e he => hord e (List.mem_cons_of_mem _ he)
    unfold opStep at hs
    split at hs
    · next hop =>
      split at hs
      · next hrun =>
        cases hs
        exact (runOp_named h hn hop (hord _ List.mem_cons_self)).ok hrun
      · cases hs
    · cases hs

/-- **No entry is hidden**: after any run of operations that return, in which no directory is
written directly, a lookup of the name of any entry in use, in any directory, finds that entry.  (An
operation that meets an inode number past the inode blocks, `Stop.stray`, does not return.) -/
theorem no_entry_hidden (h : AtRest sb s₀) (hn : Named (node s₀)) (hr : Run (opStep sb) s₀ tr s)
    (hord : ∀ e ∈ tr, Ordinary e.1 e.2) (hd : (node s d).type = .dir)
    (hj : DESIZE * (j + 1) ≤ (node s d).size) (hlive : ((node s d).entry j).inum ≠ 0) :
    lookupIn (node s) d (canon ((node s d).entry j).name) = some ((node s d).entry j).inum := by
  have hmatch : (node s d).Matches (canon ((node s d).entry j).name) j :=
    ⟨hlive, namecmp_eq_zero.mpr (canon_canon _)⟩
  refine (lookupIn_eq_some (canon_canon _)).mpr ⟨hd, j, hj, hmatch, fun l hl hml => hl.ne ?_, rfl⟩
  have hsize : ∀ l ≤ j, DESIZE * l < (node s d).size := fun l hl =>
    (Nat.mul_lt_mul_of_pos_left (Nat.lt_succ_of_le hl) (by decide)).trans_le hj
  exact named_of_run h hn hr hord d hd _ l j (hsize l hl.le) (hsize j le_rfl) hml hmatch

/-- A file is made and written; it is given a second name, and its first one is made a directory. -/
def renameOps (root file : Ip) : List Op :=
  [.iget ROOTINO, .create root [97] .file 0 0, .writei file [1, 2, 3] 0, .link root [97] [98],
    .unlink root [97], .create root [97] .dir 0 0]

theorem no_entry_hidden_renameOps : ∃ s tr, Run (opStep smallDisk) rootImage tr s ∧ tr.length = 6 ∧
    lookupIn (node s) ROOTINO [98] = some 2 := by
  have hroot : Named (node rootImage) := by
    have hnames : ∀ a b : Fin 32, ((node bootFs ROOTINO).entry a).inum ≠ 0 →
        ((node bootFs ROOTINO).entry b).inum ≠ 0 →
        canon ((node bootFs ROOTINO).entry a).name = canon ((node bootFs ROOTINO).entry b).name →
          a = b := by
      decide +kernel
    intro d hd n a b ha hb hma hmb
    obtain rfl : d = ROOTINO :=
      node_bootFs (by rw [show node bootFs d = node rootImage d from rfl, hd]; decide)
    change 16 * a < 512 at ha
    change 16 * b < 512 at hb
    exact congrArg Fin.val (hnames ⟨a, by omega⟩ ⟨b, by omega⟩ hma.1 hmb.1
      ((namecmp_eq_zero.mp hma.2).symm.trans (namecmp_eq_zero.mp hmb.2)))
  obtain ⟨s, hs, hlen, hord, hdir, hsize, hentry⟩ :
      ∃ s, exec (opStep smallDisk) rootImage (renameOps 0 1) = some s ∧
        (traceOf (opStep smallDisk) rootImage (renameOps 0 1)).length = 6 ∧
        (∀ e ∈ traceOf (opStep smallDisk) rootImage (renameOps 0 1), Ordinary e.1 e.2) ∧
        (node s ROOTINO).type = .dir ∧ DESIZE * (3 + 1) ≤ (node s ROOTINO).size ∧
        (node s ROOTINO).entry 3 = ⟨2, strncpy [98] DIRSIZ⟩ := by
    decide +kernel
  have hfound :=
    no_entry_hidden atRest_rootImage hroot (run_traceOf hs) hord hdir hsize (by rw [hentry]; decide)
  rw [hentry] at hfound
  exact ⟨s, _, run_traceOf hs, hlen, hfound⟩

end Xv6.Files
