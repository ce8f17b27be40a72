import Xv6.Files.Lookup

/-!
Lookups leave the disk alone (`dirlookup`, `namex`).

* `Quiet`: code that does not change the disk.  If `tidy` it stops only when the inode cache is
  full.
* `Tidy`: the directories of a disk are well formed and no entry dangles.
* `iput_quiet`: a reference to a file with links or other holders is given back.
* `dirlookup_quiet`, `namex_quiet`: the lookups.
-/

namespace Xv6.Files

open Xv6.Fs Transition

/-- **Code that leaves the disk alone.** -/
def Quiet (tidy : Prop) {α : Type} (m : FsM α) (t : Fs) : Prop :=
  Post m t (fun _ => SameDisk t) fun e t' =>
    SameDisk t t' ∧ (tidy → e = .igetNoInodes ∧ ∀ k, 0 < (t'.inode k).ref)

variable {sb : Superblock} {t : Fs} {k dp : Ip} {B : Ip → Inode} {N : ℕ → Node} {H : List (Ip × ℕ)}
  {L : Set Ip} {i d : ℕ} {tidy : Prop} {α β : Type} {m : FsM α} {f : α → FsM β}

lemma SameDisk.refl (t : Fs) : SameDisk t t := ⟨rfl, rfl, rfl, rfl⟩

namespace Quiet

lemma pure (a : α) : Quiet tidy (pure a) t := SameDisk.refl t

lemma bind {Q : α → Fs → Prop} (h : Quiet tidy m t) (hQ : Post m t Q (Err False))
    (hf : ∀ a t', Q a t' → Quiet tidy (f a) t') : Quiet tidy (m >>= f) t := by
  refine (Post.and h hQ).bind (fun e t' he => he.1) fun a t' ha => ?_
  exact (hf a t' ha.2).mono (fun _ u hu => ha.1.trans hu) fun e u hu => ⟨ha.1.trans hu.1, hu.2⟩

/-- Code that does not stop if `tidy`. -/
lemma of_total (hdisk : Post m t (fun _ => SameDisk t) fun _ => SameDisk t)
    (htotal : tidy → ∃ a t', m t = .ok a t') : Quiet tidy m t := by
  unfold Quiet Post at *
  cases hm : m t with
  | ok a t' =>
    rw [hm] at hdisk
    exact hdisk
  | error e t' =>
    rw [hm] at hdisk
    refine ⟨hdisk, fun htidy => ?_⟩
    obtain ⟨a, u, hu⟩ := htotal htidy
    rw [hm] at hu
    cases hu

end Quiet

/-! ### References and locks -/

lemma iget_quiet (i : ℕ) : Quiet tidy (iget i) t := by
  unfold iget Quiet
  rw [post_bind, post_get]
  cases (List.finRange NINODE).find? fun k => 0 < (t.inode k).ref ∧ (t.inode k).inum = i with
  | some k => exact ⟨rfl, rfl, rfl, rfl⟩
  | none =>
    cases hfind : (List.finRange NINODE).find? fun k => (t.inode k).ref = 0 with
    | some k => exact ⟨rfl, rfl, rfl, rfl⟩
    | none =>
      refine ⟨.refl t, fun _ => ⟨rfl, fun k => ?_⟩⟩
      have hk := List.find?_eq_none.mp hfind k (List.mem_finRange k)
      exact Nat.pos_of_ne_zero (by simpa using hk)

lemma idup_quiet (k : Ip) : Quiet tidy (idup k) t := ⟨rfl, rfl, rfl, rfl⟩

lemma ilock_quiet (h : Midcall sb B N H L t) (hk : (k, i) ∈ H) (hL : k ∉ L)
    (hthere : tidy → i < sb.ninodes ∧ (node t i).type ≠ .free) : Quiet tidy (ilock sb k) t := by
  refine .of_total ilock_disk fun htidy => ?_
  obtain ⟨t', hres, -, -⟩ := ilock_total h hk hL (hthere htidy).1 (hthere htidy).2
  exact ⟨(), t', hres⟩

lemma iunlock_quiet (h : Midcall sb B N H (insert k L) t) (hk : k ∉ L) :
    Quiet tidy (iunlock k) t := by
  refine .of_total iunlock_disk fun _ => ?_
  obtain ⟨a, t', hres, -⟩ := (iunlock_spec (E := fun _ _ => False) h hk).total fun _ _ => id
  exact ⟨a, t', hres⟩

/-- A reference is given back, and there are links or other holders. -/
lemma iput_quiet (h : Midcall sb B N ((k, i) :: H) L t) (hk : k ∉ L) (hheld : ¬Loose B N i) :
    Quiet tidy (iput sb k) t := by
  have hlock : (t.inode k).lock = false :=
    Bool.eq_false_of_not_eq_true fun hl => hk ((h.lock k).mp hl)
  have hstay : ¬(((t.inode k).valid = true ∧ (t.inode k).din.nlink = 0) ∧ (t.inode k).ref = 1) := by
    rintro ⟨⟨hv, hnlink⟩, href⟩
    obtain ⟨hnode, htype, hdin⟩ := h.node_of_valid List.mem_cons_self hv
    refine hheld ⟨by rwa [← hnode, node_type], by rw [← hnode, node_nlink htype, ← hdin, hnlink],
      fun l hl heq => ?_⟩
    -- The other holder has the same entry of the cache.
    have hlref := h.ref l
    have hlk : l = k :=
      h.wf.uniq l k (by omega) (by omega) (by rw [h.inum l hl, heq, h.held _ List.mem_cons_self])
    subst hlk
    rw [List.map_cons, List.count_cons_self] at hlref
    omega
  unfold Quiet
  rw [iput, post_bind, acquiresleep_spec hlock]
  simp only [post_bind, post_inode, Fs.setInode_inode_self, post_ite]
  refine ⟨fun hdead => ⟨fun href => absurd ⟨hdead, href⟩ hstay, fun _ => ?_⟩, fun _ => ?_⟩
  · exact ⟨rfl, rfl, rfl, rfl⟩
  · exact ⟨rfl, rfl, rfl, rfl⟩

lemma iunlockput_quiet (h : Midcall sb B N ((k, i) :: H) (insert k L) t) (hk : k ∉ L)
    (hheld : ¬Loose B N i) : Quiet tidy (iunlockput sb k) t :=
  (iunlock_quiet h hk).bind (iunlock_spec h hk) fun _ _ ht' => iput_quiet ht'.1 hk hheld

/-! ### Lookups -/

/-- **Well-formed directories**: a directory has entries only, and an entry that is in use names an
inode that is in use. -/
structure Tidy (sb : Superblock) (N : ℕ → Node) : Prop where
  size : ∀ d, (N d).type = .dir → DESIZE ∣ (N d).size
  entry : ∀ d, (N d).type = .dir → ∀ j, DESIZE * (j + 1) ≤ (N d).size → ((N d).entry j).inum ≠ 0 →
    ((N d).entry j).inum < sb.ninodes ∧ (N ((N d).entry j).inum).type ≠ .free

section

variable (h : Midcall sb B N H L t) (hk : (dp, d) ∈ H) (hL : dp ∈ L) (hdir : (N d).type = .dir)

include h hk hL hdir

lemma readDirent_quiet {j : ℕ} (hj : DESIZE * j < (N d).size) (hsize : tidy → DESIZE ∣ (N d).size)
    (stop : Stop) : Quiet tidy (readDirent sb dp (DESIZE * j) stop) t := by
  refine Post.bind (readi_file_spec h hk hL (DESIZE * j) DESIZE (by rw [hdir]; decide))
    (fun _ _ => False.elim) fun r t' hr => ?_
  obtain ⟨rfl, rfl⟩ := hr
  by_cases htidy : tidy
  · -- The entry is there as a whole.
    obtain ⟨hnode, htype, -⟩ := h.node_of_locked hk hL
    have hmax : (N d).size ≤ MAXFILE * BSIZE := hnode ▸ size_le h.wf (by rwa [node_type])
    have hlt : MAXFILE * BSIZE + DESIZE < 2 ^ 32 := by decide
    have hle : DESIZE * j + DESIZE ≤ (N d).size := by
      obtain ⟨n, hn⟩ := hsize htidy
      rw [hn, ← Nat.mul_succ]
      exact Nat.mul_le_mul_left _ (lt_of_desize (hn ▸ hj))
    rw [Node.read, if_neg, if_neg (not_lt.mpr hle)]
    · simp only [List.length_map, List.length_range, if_true]
      exact .refl _
    · rw [Nat.mod_eq_of_lt (by omega)]
      omega
  · cases (N d).read (DESIZE * j) DESIZE with
    | none => exact ⟨.refl _, fun h => absurd h htidy⟩
    | some bs =>
      refine post_ite.mpr ⟨fun _ => .refl _, fun _ => ⟨.refl _, fun h => absurd h htidy⟩⟩

lemma lookupLoop_quiet (hsize : tidy → DESIZE ∣ (N d).size) (name : List ℕ) (fuel j : ℕ) :
    Quiet tidy (lookupLoop sb dp name fuel (DESIZE * j)) t := by
  have hdin : (t.inode dp).din.size = (N d).size := by rw [node_eq h hk hL]
  induction fuel generalizing j with
  | zero => exact .pure _
  | succ fuel ih =>
    rw [lookupLoop, Quiet, post_bind, post_inode, hdin, post_ite]
    refine ⟨fun hlt => ?_, fun _ => .refl t⟩
    refine (readDirent_quiet h hk hL hdir hlt hsize _).bind
      (readDirent_spec h hk hL hdir j (by decide) (by decide)) fun de t' hde => ?_
    obtain ⟨rfl, -, -⟩ := hde
    refine post_ite.mpr ⟨fun _ => ih (j + 1),
      fun _ => post_ite.mpr ⟨fun _ => ?_, fun _ => ih (j + 1)⟩⟩
    exact (iget_quiet _).bind (iget_spec h) fun _ _ _ => .pure _

lemma dirlookup_quiet (hsize : tidy → DESIZE ∣ (N d).size) (name : List ℕ) :
    Quiet tidy (dirlookup sb dp name) t := by
  have htype : (t.inode dp).din.type = (N d).type := by rw [node_eq h hk hL]
  rw [dirlookup, Quiet, post_bind, post_inode, if_neg (by rw [htype, hdir]; exact not_not.mpr rfl)]
  exact lookupLoop_quiet h hk hL hdir hsize name _ 0

end

/-- No entry names a file without links and holders. -/
structure Kept (B : Ip → Inode) (N : ℕ → Node) : Prop where
  root : ¬Loose B N ROOTINO
  entry : ∀ d, (N d).type = .dir → ∀ j, DESIZE * (j + 1) ≤ (N d).size → ((N d).entry j).inum ≠ 0 →
    ¬Loose B N ((N d).entry j).inum

lemma Kept.walk {parent : Bool} {path : List ℕ} {i' : ℕ} (hkept : Kept B N) (hi : ¬Loose B N i)
    (hwalk : Walk N parent i path i') : ¬Loose B N i' := by
  induction hwalk with
  | done _ _ => exact hi
  | stop _ _ _ => exact hi
  | step _ _ hdir hj hname _ _ ih => exact ih (hkept.entry _ hdir _ hj hname.1)

lemma Kept.startOf {cwd : Ip} (hkept : Kept B N) (hcwd : 0 < (B cwd).ref) (path : List ℕ) :
    ¬Loose B N (startOf (B cwd).inum path) := by
  unfold Files.startOf
  split
  · exact hkept.root
  · exact fun hloose => hloose.2.2 cwd hcwd rfl

section Walk

variable (hkept : Kept B N) (htidy : tidy → Tidy sb N)

include hkept htidy

/-- **The walk along a path** changes nothing: the inodes on the way have links or holders. -/
lemma namexLoop_quiet {parent : Bool} {fuel : ℕ} {path name : List ℕ}
    (h : Midcall sb B N ((k, i) :: H) ∅ t) (hno : ¬Loose B N i)
    (hi : tidy → i < sb.ninodes ∧ (N i).type ≠ .free) :
    Quiet tidy (namexLoop sb parent fuel k path name) t := by
  induction fuel generalizing k i path name t with
  | zero => exact .pure _
  | succ fuel ih =>
    have hnode : node t i = N i := (h.node i).resolve_right fun hl => hno hl.1
    have hk : k ∉ (∅ : Set Ip) := Set.notMem_empty k
    unfold namexLoop namexLoopWith
    cases skipelem path with
    | none =>
      refine post_ite.mpr ⟨fun _ => ?_, fun _ => .refl t⟩
      exact (iput_quiet h hk hno).bind (iput_spec h) fun _ _ _ => .pure _
    | some elem =>
      obtain ⟨name', rest⟩ := elem
      have hmem : (k, i) ∈ (k, i) :: H := List.mem_cons_self
      refine (ilock_quiet h hmem hk (by rwa [hnode])).bind (ilock_spec h hmem False.elim)
        fun _ t₁ ht₁ => ?_
      have htype : (t₁.inode k).din.type = (N i).type := by rw [node_eq ht₁.mid hmem (.inl rfl)]
      rw [Quiet, post_bind, post_inode, htype, post_ite]
      refine ⟨fun _ => ?_, fun hdir => ?_⟩
      · exact (iunlockput_quiet ht₁.mid hk hno).bind (iunlockput_spec ht₁.mid hk)
          fun _ _ _ => .pure _
      rw [not_not] at hdir
      refine post_ite.mpr ⟨fun _ => ?_, fun _ => ?_⟩
      · exact (iunlock_quiet ht₁.mid hk).bind (iunlock_spec ht₁.mid hk) fun _ _ _ => .pure _
      · refine (dirlookup_quiet ht₁.mid hmem (.inl rfl) hdir
          (fun ht => (htidy ht).size i hdir) name').bind
          (dirlookup_spec ht₁.mid hmem (.inl rfl) name') fun r t₂ ht₂ => ?_
        cases ht₂.2 with
        | absent h₂ _ =>
          exact (iunlockput_quiet h₂ hk hno).bind (iunlockput_spec h₂ hk) fun _ _ _ => .pure _
        | present hj hname _ h₂ =>
          have hswap := h₂.perm (List.Perm.swap (k, i) _ H)
          refine (iunlockput_quiet hswap hk hno).bind (iunlockput_spec hswap hk) fun _ t₃ ht₃ => ?_
          exact ih ht₃.1 (hkept.entry i hdir _ hj hname.1)
            fun ht => (htidy ht).entry i hdir _ hj hname.1

/-- **A path lookup** changes nothing on the disk. -/
lemma namex_quiet {cwd : Ip} (hcwd : 0 < (B cwd).ref) (h : Midcall sb B N H ∅ t)
    (hroot : tidy → (N ROOTINO).type ≠ .free)
    (hthere : tidy → (B cwd).inum < sb.ninodes ∧ (N (B cwd).inum).type ≠ .free)
    (path : List ℕ) (parent : Bool) : Quiet tidy (namex sb cwd path parent) t := by
  have hpos : 0 < (t.inode cwd).ref := by
    have := h.ref cwd
    omega
  unfold namex namexWith
  by_cases hslash : path.head? = some slash
  · rw [if_pos hslash]
    exact (iget_quiet _).bind (iget_spec h) fun k t' ht' =>
      namexLoop_quiet hkept htidy ht'.1 hkept.root fun ht => ⟨sb.root, hroot ht⟩
  · rw [if_neg hslash]
    refine (idup_quiet _).bind (idup_spec h hpos) fun k t' ht' => ?_
    obtain ⟨rfl, ht'⟩ := ht'
    rw [h.inum _ hcwd] at ht'
    exact namexLoop_quiet hkept htidy ht' (fun hloose => hloose.2.2 k hcwd rfl) hthere

end Walk

end Xv6.Files
