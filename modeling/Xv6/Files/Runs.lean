import Xv6.Files.ByteArray
import Xv6.Files.CallSpecs
import Xv6.Transition.Run

/-!
Sequences of operations on inodes (`fs.c`, `sysfile.c`).

* `Op`, `runOp`, `opStep`: an operation, with the locks that its callers take.  A caller has a
  reference to the inode that it passes.
* `AtRest`: the disk is consistent, the cache agrees with it, and no inode is locked.
* `runOp_spec`: an operation leads from rest to rest, or stops.
* `owned_of_run`, `through_of_run`: what holds in every run.

A run goes on only where operations return: not after a panic, with nobody to wake the process, or
where `ilock` is given an inode number past the inode blocks (`Stop.stray`), as an entry of a
directory that was written directly can hold.
-/

namespace Xv6.Files

open Xv6.Fs Transition Function

/-! ### The operations -/

inductive Op where
  | iget (inum : ℕ)
  | ialloc (ty : InodeType)
  | iput (k : Ip)
  | readi (k : Ip) (off n : ℕ)
  | writei (k : Ip) (src : List ℕ) (off : ℕ)
  | itrunc (k : Ip)
  | create (cwd : Ip) (path : List ℕ) (ty : InodeType) (major minor : ℤ)
  | link (cwd : Ip) (old new : List ℕ)
  | unlink (cwd : Ip) (path : List ℕ)

/-- The inode for which the caller has a reference. -/
def Op.uses : Op → Option Ip
  | .iget _ | .ialloc _ => none
  | .iput k | .readi k _ _ | .writei k _ _ | .itrunc k => some k
  | .create cwd _ _ _ _ | .link cwd _ _ | .unlink cwd _ => some cwd

variable (sb : Superblock)

def runOp : Op → FsM Unit
  | .iget inum => discard <| iget inum
  | .ialloc ty => discard <| ialloc sb ty
  | .iput k => iput sb k
  | .readi k off n => do
    ilock sb k
    let _ ← readi sb k off n
    iunlock k
  | .writei k src off => do
    ilock sb k
    let _ ← writei sb k src off
    iunlock k
  | .itrunc k => do
    ilock sb k
    itrunc sb k
    iunlock k
  | .create cwd path ty major minor => do
    match ← create sb cwd path ty major minor with
    | none => return ()
    | some ip => iunlock ip
  | .link cwd old new => discard <| sysLink sb cwd old new
  | .unlink cwd path => discard <| sysUnlink sb cwd path

/-- The callers' references. -/
def Allowed (s : Fs) (op : Op) : Prop := ∀ k ∈ op.uses, 0 < (s.inode k).ref

instance (s : Fs) (op : Op) : Decidable (Allowed s op) := by
  unfold Allowed
  infer_instance

/-- **One operation.**  The step is not possible when the operation stops, `Stop.stray` included. -/
def opStep (s : Fs) (op : Op) : Option Fs :=
  if Allowed s op then
    match runOp sb op s with
    | .ok _ s' => some s'
    | .error _ _ => none
  else none

variable {sb} {s s' t : Fs} {B : Ip → Inode} {N : ℕ → Node} {H : List (Ip × ℕ)}
  {L : Set Ip} {k : Ip} {i : ℕ} {good : Prop}

/-! ### From rest to rest -/

/-- No operation is under way. -/
structure AtRest (sb : Superblock) (s : Fs) : Prop where
  wf : Wf sb s
  unlocked : ∀ k, (s.inode k).lock = false

lemma Midcall.atRest (h : Midcall sb B N H ∅ t) : AtRest sb t :=
  ⟨h.wf, fun k => Bool.eq_false_of_not_eq_true fun hl => (h.lock k).mp hl⟩

/-- **`itrunc`** leaves an empty file. -/
lemma itrunc_node_spec (h : Midcall sb B N H L t) (hk : (k, i) ∈ H) (hL : k ∈ L)
    {E : Stop → Fs → Prop} : Post (itrunc sb k) t (fun _ t' => ∃ N', Midcall sb B N' H L t') E := by
  have hinum : (t.inode k).inum = i := h.held _ hk
  obtain ⟨-, htype, hdin⟩ := h.node_of_locked hk hL
  obtain ⟨-, hsound⟩ := h.sound_of_locked hL
  refine (itrunc_spec hsound (by rwa [hdin])).imp fun _ u hu => ?_
  have hD : u.dinode = update t.dinode i (t.inode k).din.truncated := by rw [hu.dinode, hinum]
  have hsound' : Sound sb u.dinode u.bitmap u.data := by
    rw [hu.data]
    refine hu.sound hsound (fun j hj => ?_) (fun q => ?_) ?_
    · rw [hu.dinode, update_of_ne hj]
    · rw [hu.dinode, update_self]
      rfl
    · rw [hu.dinode, update_self]
      rfl
  have hother : ∀ j ≠ i, node u j = node t j := fun j hj => by
    rw [node, node, hu.data, hD, update_of_ne hj]
  exact ⟨_, h.change hk hL (by rwa [Dinode.truncated_type, hdin]) hD hu.inode hsound'
    (hu.through.trans h.wf.through) hother⟩

/-- Something is done to an inode between `ilock` and `iunlock`. -/
lemma AtRest.locked (h : AtRest sb s) (href : 0 < (s.inode k).ref) {α : Type} {m : FsM α}
    (hm : ∀ t, Midcall sb (without k s.inode) (node s) [(k, (s.inode k).inum)] (insert k ∅) t →
      Post m t (fun _ t' => ∃ N', Midcall sb (without k s.inode) N' [(k, (s.inode k).inum)]
      (insert k ∅) t') (Err False)) :
    Post (do
      ilock sb k
      let _ ← m
      iunlock k) s (fun _ => AtRest sb) (Err False) := by
  have hmid := Midcall.hold h.wf h.unlocked href
  refine (ilock_spec hmid (List.mem_singleton_self _) False.elim).seq fun _ t ht => ?_
  refine (hm t ht.mid).seq fun _ u hu => ?_
  obtain ⟨N', hu⟩ := hu
  exact (iunlock_spec hu (Set.notMem_empty k)).imp fun _ v hv => hv.1.atRest

/-- Nothing is known of the files. -/
lemma start_of_ref {R : ℕ → Prop} (href : 0 < (s.inode k).ref) : Start s.inode (node s) R False k :=
  ⟨href, False.elim, False.elim, False.elim⟩

/-- **An operation** leads from rest to rest, or it stops, and then no block has been freed twice
and every inode that was unlocked had been written. -/
lemma runOp_spec (h : AtRest sb s) {op : Op} (hop : Allowed s op) :
    Post (runOp sb op) s (fun _ => AtRest sb) (Err False) := by
  have hstart := Midcall.start h.wf h.unlocked
  cases op with
  | iget inum =>
    exact (iget_spec hstart).seq fun _ t ht => ht.1.atRest
  | ialloc ty =>
    refine (ialloc_spec hstart ty).seq fun _ t ht => ?_
    obtain ⟨_, -, -, -, -, hmid⟩ := ht
    exact hmid.atRest
  | iput k =>
    exact (iput_spec (Midcall.hold h.wf h.unlocked (hop k rfl))).imp fun _ t ht => ht.1.atRest
  | readi k off n =>
    refine h.locked (hop k rfl) fun t ht => ?_
    exact (readi_spec ht (List.mem_singleton_self _) (.inl rfl) off n).imp fun _ u hu => ⟨_, hu.1⟩
  | writei k src off =>
    refine h.locked (hop k rfl) fun t ht => ?_
    refine (writei_spec ht (List.mem_singleton_self _) (.inl rfl) src off).imp fun _ u hu => ?_
    cases hu with
    | dev _ hmid => exact ⟨_, hmid⟩
    | range _ hmid => exact ⟨_, hmid⟩
    | done _ hmid => exact ⟨_, hmid⟩
  | itrunc k =>
    exact h.locked (hop k rfl)
      fun t ht => itrunc_node_spec ht (List.mem_singleton_self _) (.inl rfl)
  | create cwd path ty major minor =>
    refine (create_spec (R := fun _ => True) (start_of_ref (hop cwd rfl)) hstart path False.elim
      major minor).seq fun r t ht => ?_
    cases ht with
    | failed hmid => exact hmid.atRest
    | existing _ _ _ hmid | created _ _ _ _ _ _ _ _ hmid =>
      exact (iunlock_spec hmid (Set.notMem_empty _)).imp fun _ v hv => hv.1.atRest
  | link cwd old new =>
    refine (sysLink_spec (R := fun _ => True) (start_of_ref (hop cwd rfl)) False.elim hstart old
      new).seq fun _ t ht => ?_
    obtain ⟨_, -, hmid⟩ := ht
    exact hmid.atRest
  | unlink cwd path =>
    refine (sysUnlink_spec (R := fun _ => True) (start_of_ref (hop cwd rfl)) hstart path).seq
      fun _ t ht => ?_
    obtain ⟨_, -, hmid, -⟩ := ht
    exact hmid.atRest

/-! ### Runs -/

variable {op : Op} {tr : List (Fs × Op)} {s₀ : Fs}

lemma AtRest.step (h : AtRest sb s) (hstep : opStep sb s op = some s') : AtRest sb s' := by
  unfold opStep at hstep
  split at hstep
  · next hop =>
    cases hrun : runOp sb op s with
    | ok a t =>
      rw [hrun] at hstep
      cases hstep
      exact (runOp_spec h hop).ok hrun
    | error e t =>
      rw [hrun] at hstep
      cases hstep
  · cases hstep

lemma AtRest.run (h : AtRest sb s₀) (hr : Run (opStep sb) s₀ tr s) : AtRest sb s :=
  hr.invariant (I := AtRest sb) h fun _ _ _ hs hstep => hs.step hstep

/-- **Every block has one owner**: after any run of operations that return, no block belongs to two
files or to a file and the metadata, the free map marks the blocks with an owner and no others, no
file has a hole, and the next operation does not free a block that is free. -/
theorem owned_of_run (h : AtRest sb s₀) (hr : Run (opStep sb) s₀ tr s) :
    Sound sb s.dinode s.bitmap s.data ∧
      ∀ op, Allowed s op → ∀ t, runOp sb op s ≠ .error .freeingFreeBlock t := by
  have hs := h.run hr
  refine ⟨hs.wf.sound, fun op hop t hrun => ?_⟩
  exact ((runOp_spec hs hop).error hrun).2.1 rfl

/-- A root directory with one block. -/
def rootDir : Dinode :=
  { Dinode.fresh .dir with nlink := 1, size := 512, addrs := fun q => if q.val = 0 then 5 else 0 }

/-- A disk with an empty root directory. -/
def rootImage : Fs where
  dinode := update (fun _ => .fresh .free) ROOTINO rootDir
  bitmap := firstUsed (smallDisk.nmeta + 1)
  data := update (fun _ _ => 0) 5 fun o =>
    (Dirent.toBytes ⟨ROOTINO, strncpy dot DIRSIZ⟩ ++ Dirent.toBytes
      ⟨ROOTINO, strncpy dotdot DIRSIZ⟩).getD o 0

lemma rootImage_dinode (i : ℕ) :
    i = ROOTINO ∧ rootImage.dinode i = rootDir ∨ i ≠ ROOTINO ∧
      rootImage.dinode i = .fresh .free := by
  by_cases hi : i = ROOTINO
  · exact .inl ⟨hi, by rw [hi]; rfl⟩
  · exact .inr ⟨hi, by simp only [rootImage, update_of_ne hi]⟩

lemma sound_rootImage : Sound smallDisk rootImage.dinode rootImage.bitmap rootImage.data := by
  refine .oneEach [ROOTINO] (List.nodup_singleton _) (by decide) (by decide +kernel) fun i hi => ?_
  rw [((rootImage_dinode i).resolve_left fun h => hi (List.mem_singleton.mpr h.1)).2]
  exact ⟨rfl, fun _ => rfl⟩

lemma atRest_rootImage : AtRest smallDisk rootImage :=
  ⟨⟨sound_rootImage, fun _ _ hj => absurd hj (lt_irrefl 0), fun _ hj => absurd hj (lt_irrefl 0),
    fun _ hl => absurd hl Bool.false_ne_true, rfl⟩, fun _ => rfl⟩

/-- A file is made, written, and given a second name; then its contents and its first name are
removed. -/
def someOps : List Op :=
  [.iget ROOTINO, .create 0 [97] .file 0 0, .writei 1 [1, 2, 3] 0, .link 0 [97] [98], .itrunc 1,
    .unlink 0 [97], .iput 1]

lemma exec_someOps : ∃ s, exec (opStep smallDisk) rootImage someOps = some s ∧
    (traceOf (opStep smallDisk) rootImage someOps).length = 7 := by
  decide +kernel

theorem owned_of_run_someOps : ∃ s tr, Run (opStep smallDisk) rootImage tr s ∧ tr.length = 7 ∧
    Sound smallDisk s.dinode s.bitmap s.data := by
  obtain ⟨s, hs, hlen⟩ := exec_someOps
  exact ⟨s, _, run_traceOf hs, hlen, (owned_of_run atRest_rootImage (run_traceOf hs)).1⟩

/-- **The inode cache is write-through**: after any run of operations that return, every inode that
was unlocked had been written, also if the next operation stops, the copies in the cache are the
dinodes, and no file has a hole.  At the start the free map marks the blocks in use and no others,
as `mkfs` leaves it; `hole_of_run` shows that it has to mark the blocks in use. -/
theorem through_of_run (h : AtRest sb s₀) (hr : Run (opStep sb) s₀ tr s) :
    s.through = true ∧
      (∀ k, 0 < (s.inode k).ref → (s.inode k).valid = true →
        (s.inode k).din = s.dinode (s.inode k).inum) ∧
      (∀ i, (s.dinode i).type ≠ .free → Full s.data (s.dinode i)) ∧
      ∀ op, Allowed s op → ∀ e t, runOp sb op s = .error e t → t.through = true := by
  have hs := h.run hr
  refine ⟨hs.wf.through, fun k hk hv => (hs.wf.sync k hk hv).1, hs.wf.sound.full,
    fun op hop e t hrun => ?_⟩
  exact ((runOp_spec hs hop).error hrun).1

theorem through_of_run_someOps : ∃ s tr, Run (opStep smallDisk) rootImage tr s ∧ tr.length = 7 ∧
    s.through = true := by
  obtain ⟨s, hs, hlen⟩ := exec_someOps
  exact ⟨s, _, run_traceOf hs, hlen, (through_of_run atRest_rootImage (run_traceOf hs)).1⟩

/-- A file with an indirect block that the free map shows as free, and an empty file. -/
def markedFree : Fs where
  dinode := update
    (update (fun _ => .fresh .free) 2
      { Dinode.fresh .file with nlink := 1, size := 6656, addrs := fun q => 6 + q.val })
    3 { Dinode.fresh .file with nlink := 1 }
  bitmap := fun b => if b = 2 then 11 else 255
  data := fun b => if b = 18 then fun o => if o = 0 then 19 else 0 else fun _ => 0

/-- The indirect block is given to the other file, and the first file has a hole. -/
theorem hole_of_run :
    (∀ i, (markedFree.dinode i).type ≠ .free → Full markedFree.data (markedFree.dinode i)) ∧
      (∀ k, (markedFree.inode k).ref = 0 ∧ (markedFree.inode k).lock = false) ∧
      markedFree.through = true ∧
      ∃ s tr, Run (opStep smallDisk) markedFree tr s ∧ (s.dinode 2).type = .file ∧
        ¬Full s.data (s.dinode 2) := by
  refine ⟨fun i hi => ?_, fun _ => ⟨rfl, rfl⟩, rfl, ?_⟩
  · have hthree : ∀ bn < 13, blockAddr markedFree.data (markedFree.dinode 2) bn ≠ 0 := by decide
    by_cases h3 : i = 3
    · rw [h3]
      exact fun bn hbn => absurd hbn (Nat.not_lt_zero _)
    by_cases h2 : i = 2
    · rw [h2]
      intro bn hbn
      change bn * 512 < 6656 at hbn
      exact hthree bn (by omega)
    · simp only [markedFree, update_of_ne h3, update_of_ne h2] at hi
      exact absurd rfl hi
  · obtain ⟨s, hs, htype, hsize, hzero⟩ :
        ∃ s, exec (opStep smallDisk) markedFree [.iget 3, .writei 0 [0] 0] = some s ∧
          (s.dinode 2).type = .file ∧ (s.dinode 2).size = 6656 ∧
          blockAddr s.data (s.dinode 2) 12 = 0 := by
      decide +kernel
    refine ⟨s, _, run_traceOf hs, htype, fun hfull => hfull 12 ?_ hzero⟩
    rw [hsize]
    decide

end Xv6.Files
