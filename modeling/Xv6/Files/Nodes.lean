import Xv6.Files.Contents

/-!
Files, and the state in the middle of a call (`iget`, `ilock`, `iput`).

* `Node`: an inode as the calls see it, with its contents.
* `Wf`: the disk is consistent and the cache agrees with it.
* `Midcall`: a call has taken some references (`handles`) and locks, on top of the cache as it
  was before, and sees the files `N`.  A file without links and without a holder before the call
  may have been freed meanwhile.
* `iget_spec`, `ilock_spec`, `iunlock_spec`, `iput_spec`: references and locks are taken and given
  back.
-/

namespace Xv6.Files

open Xv6.Fs Transition Function

/-! ### Files -/

/-- An inode with its contents. -/
@[ext] structure Node where
  type : InodeType
  major : ℤ
  minor : ℤ
  nlink : ℤ
  size : ℕ
  byte : ℕ → ℕ

/-- A dinode that is not in use. -/
def Node.free : Node := ⟨.free, 0, 0, 0, 0, fun _ => 0⟩

/-- What `ialloc` makes. -/
def Node.fresh (ty : InodeType) : Node := ⟨ty, 0, 0, 0, 0, fun _ => 0⟩

/-- The file of a dinode. -/
def nodeOf (data : ℕ → Bytes) (d : Dinode) : Node :=
  if d.type = .free then .free
  else ⟨d.type, d.major, d.minor, d.nlink, d.size,
    fun o => if o < d.size then byteAt data d o else 0⟩

def node (s : Fs) (i : ℕ) : Node := nodeOf s.data (s.dinode i)

lemma nodeOf_type (data : ℕ → Bytes) (d : Dinode) : (nodeOf data d).type = d.type := by
  unfold nodeOf
  split
  · next h => exact h.symm
  · rfl

lemma nodeOf_of_type {d : Dinode} (h : d.type ≠ .free) (data : ℕ → Bytes) :
    nodeOf data d
      = ⟨d.type, d.major, d.minor, d.nlink, d.size,
        fun o => if o < d.size then byteAt data d o else 0⟩ :=
  if_neg h

lemma node_type (s : Fs) (i : ℕ) : (node s i).type = (s.dinode i).type := nodeOf_type ..

variable {s : Fs}

lemma node_nlink {i : ℕ} (h : (s.dinode i).type ≠ .free) :
    (node s i).nlink = (s.dinode i).nlink := by
  rw [node, nodeOf_of_type h]

lemma node_eq_free {i : ℕ} (h : (s.dinode i).type = .free) : node s i = .free := if_pos h

/-! ### The disk and the cache -/

/-- **A consistent file system**: the disk is consistent, an inode has at most one entry of the
cache, a valid entry has the dinode, and a locked entry is valid. -/
structure Wf (sb : Superblock) (s : Fs) : Prop where
  sound : Sound sb s.dinode s.bitmap s.data
  uniq : ∀ j k, 0 < (s.inode j).ref → 0 < (s.inode k).ref →
    (s.inode j).inum = (s.inode k).inum → j = k
  sync : ∀ k, 0 < (s.inode k).ref → (s.inode k).valid = true →
    (s.inode k).din = s.dinode (s.inode k).inum ∧ (s.inode k).din.type ≠ .free
  held : ∀ k, (s.inode k).lock = true → 0 < (s.inode k).ref ∧ (s.inode k).valid = true
  through : s.through = true

variable {sb : Superblock} {t : Fs} {k : Ip}

namespace Wf

/-- An entry of the cache is changed. -/
lemma setInode (h : Wf sb t) {ip : Inode}
    (huniq : 0 < ip.ref → ∀ j ≠ k, 0 < (t.inode j).ref → (t.inode j).inum ≠ ip.inum)
    (hsync : 0 < ip.ref → ip.valid = true → ip.din = t.dinode ip.inum ∧ ip.din.type ≠ .free)
    (hheld : ip.lock = true → 0 < ip.ref ∧ ip.valid = true) : Wf sb (t.setInode k ip) := by
  refine ⟨h.sound, fun i j hi hj hij => ?_, fun j hj hv => ?_, fun j hj => ?_, h.through⟩
  · by_cases hik : i = k <;> by_cases hjk : j = k
    · rw [hik, hjk]
    · rw [hik] at hi hij
      simp only [Fs.setInode, update_self, update_of_ne hjk] at hi hj hij
      exact absurd hij.symm (huniq hi j hjk hj)
    · rw [hjk] at hj hij
      simp only [Fs.setInode, update_self, update_of_ne hik] at hi hj hij
      exact absurd hij (huniq hj i hik hi)
    · simp only [Fs.setInode, update_of_ne hik, update_of_ne hjk] at hi hj hij
      exact h.uniq i j hi hj hij
  · by_cases hjk : j = k
    · subst hjk
      simp only [Fs.setInode, update_self] at hj hv ⊢
      exact hsync hj hv
    · simp only [Fs.setInode, update_of_ne hjk] at hj hv ⊢
      exact h.sync j hj hv
  · by_cases hjk : j = k
    · subst hjk
      simp only [Fs.setInode, update_self] at hj ⊢
      exact hheld hj
    · simp only [Fs.setInode, update_of_ne hjk] at hj ⊢
      exact h.held j hj

/-- One entry of the cache is in use. -/
lemma one {D : ℕ → Dinode} {bitmap : ℕ → ℕ} {data : ℕ → Bytes} (h : Sound sb D bitmap data)
    {ip : Inode} (hsync : ip.valid = true → ip.din = D ip.inum ∧ ip.din.type ≠ .free)
    (hheld : ip.lock = true → 0 < ip.ref ∧ ip.valid = true) :
    Wf sb { dinode := D, bitmap := bitmap, data := data, inode := update (fun _ => {}) k ip } := by
  have hempty : Wf sb { dinode := D, bitmap := bitmap, data := data } :=
    ⟨h, fun _ _ hj => absurd hj (lt_irrefl 0), fun _ hj => absurd hj (lt_irrefl 0),
      fun _ hl => absurd hl Bool.false_ne_true, rfl⟩
  exact hempty.setInode (fun _ _ _ hj => absurd hj (lt_irrefl 0)) (fun _ => hsync) hheld

/-- With a valid entry the disk is what the entry shows of it. -/
lemma view_eq (h : Wf sb t) (hk : 0 < (t.inode k).ref) (hv : (t.inode k).valid = true) :
    view t k = t.dinode := by
  rw [view, (h.sync k hk hv).1, update_eq_self]

lemma sound_view (h : Wf sb t) (hk : 0 < (t.inode k).ref) (hv : (t.inode k).valid = true) :
    Sound sb (view t k) t.bitmap t.data := by
  rw [h.view_eq hk hv]
  exact h.sound

end Wf

/-! ### In the middle of a call -/

/-- A file without links that nobody held before the call. -/
def Loose (B : Ip → Inode) (N : ℕ → Node) (i : ℕ) : Prop :=
  (N i).type ≠ .free ∧ (N i).nlink = 0 ∧ ∀ k, 0 < (B k).ref → (B k).inum ≠ i

/-- **A call that started with the cache `B`** has the references `H`, each with the number of its
inode, and the locks `L`, and sees the files `N`. -/
structure Midcall (sb : Superblock) (B : Ip → Inode) (N : ℕ → Node) (H : List (Ip × ℕ)) (L : Set Ip)
    (t : Fs) : Prop where
  wf : Wf sb t
  ref : ∀ k, (t.inode k).ref = (B k).ref + (H.map Prod.fst).count k
  inum : ∀ k, 0 < (B k).ref → (t.inode k).inum = (B k).inum
  held : ∀ x ∈ H, (t.inode x.1).inum = x.2
  valid : ∀ k, 0 < (B k).ref → (B k).valid = true → (t.inode k).valid = true
  lock : ∀ k, (t.inode k).lock = true ↔ k ∈ L
  node : ∀ i, node t i = N i ∨ Loose B N i ∧ Files.node t i = .free

namespace Midcall

variable {B : Ip → Inode} {N : ℕ → Node} {H H' : List (Ip × ℕ)} {L L' : Set Ip} {i : ℕ}

/-- At the start. -/
lemma start (h : Wf sb t) (hlock : ∀ k, (t.inode k).lock = false) :
    Midcall sb t.inode (Files.node t) [] ∅ t :=
  ⟨h, fun _ => rfl, fun _ _ => rfl, fun _ hx => absurd hx List.not_mem_nil, fun _ _ => id,
    fun k => by simp [hlock k], fun _ => .inl rfl⟩

variable (h : Midcall sb B N H L t)

include h

lemma perm (hH : H.Perm H') : Midcall sb B N H' L t :=
  { h with
    ref := fun k => by rw [h.ref k, (hH.map Prod.fst).count_eq]
    held := fun x hx => h.held x (hH.mem_iff.mpr hx) }

lemma pos (hk : (k, i) ∈ H) : 0 < (t.inode k).ref := by
  have hcount : 0 < (H.map Prod.fst).count k :=
    List.count_pos_iff.mpr (List.mem_map.mpr ⟨(k, i), hk, rfl⟩)
  have href := h.ref k
  omega

/-- The file of a valid entry is there. -/
lemma node_of_valid (hk : (k, i) ∈ H) (hv : (t.inode k).valid = true) :
    Files.node t i = N i ∧ (t.dinode i).type ≠ .free ∧ (t.inode k).din = t.dinode i := by
  obtain ⟨hdin, htype⟩ := h.wf.sync k (h.pos hk) hv
  rw [hdin, h.held _ hk] at htype
  rw [h.held _ hk] at hdin
  have hnode : Files.node t i = N i := by
    refine (h.node i).resolve_right fun hfree => htype ?_
    rw [← node_type, hfree.2]
    rfl
  exact ⟨hnode, htype, hdin⟩

/-- Only an entry of the cache changes. -/
lemma setInode {ip : Inode} (hwf : Wf sb (t.setInode k ip))
    (href : ip.ref = (B k).ref + (H'.map Prod.fst).count k)
    (hcount : ∀ j ≠ k, (H'.map Prod.fst).count j = (H.map Prod.fst).count j)
    (hinum : 0 < (B k).ref → ip.inum = (B k).inum) (hheld : ∀ x ∈ H', x.1 = k → ip.inum = x.2)
    (hsub : ∀ x ∈ H', x.1 ≠ k → x ∈ H)
    (hvalid : 0 < (B k).ref → (B k).valid = true → ip.valid = true)
    (hlock : ip.lock = true ↔ k ∈ L') (hL : ∀ j ≠ k, j ∈ L' ↔ j ∈ L) :
    Midcall sb B N H' L' (t.setInode k ip) := by
  refine ⟨hwf, fun j => ?_, fun j hj => ?_, fun x hx => ?_, fun j hj hv => ?_, fun j => ?_, h.node⟩
  · by_cases hjk : j = k
    · subst hjk
      simpa only [Fs.setInode, update_self] using href
    · simpa only [Fs.setInode, update_of_ne hjk, hcount j hjk] using h.ref j
  · by_cases hjk : j = k
    · subst hjk
      simpa only [Fs.setInode, update_self] using hinum hj
    · simpa only [Fs.setInode, update_of_ne hjk] using h.inum j hj
  · by_cases hxk : x.1 = k
    · simpa only [Fs.setInode, hxk, update_self] using hheld x hx hxk
    · simpa only [Fs.setInode, update_of_ne hxk] using h.held x (hsub x hx hxk)
  · by_cases hjk : j = k
    · subst hjk
      simpa only [Fs.setInode, update_self] using hvalid hj hv
    · simpa only [Fs.setInode, update_of_ne hjk] using h.valid j hj hv
  · by_cases hjk : j = k
    · subst hjk
      simpa only [Fs.setInode, update_self] using hlock
    · simpa only [Fs.setInode, update_of_ne hjk, hL j hjk] using h.lock j

/-- An entry without references is not held. -/
lemma ref_zero (hk : (t.inode k).ref = 0) :
    (B k).ref = 0 ∧ (H.map Prod.fst).count k = 0 ∧ ∀ x ∈ H, x.1 ≠ k := by
  have href := h.ref k
  refine ⟨by omega, by omega, fun x hx hxk => ?_⟩
  have hpos := h.pos (k := x.1) (i := x.2) hx
  rw [hxk] at hpos
  omega

end Midcall

/-- The cache without a reference to an inode. -/
def without (k : Ip) (B : Ip → Inode) : Ip → Inode :=
  update B k { B k with ref := (B k).ref - 1 }

/-- **A reference that is held from before**, with the locks that are held. -/
lemma Midcall.holding (h : Wf sb t) (href : 0 < (t.inode k).ref) :
    Midcall sb (without k t.inode) (Files.node t) [(k, (t.inode k).inum)]
      {j | (t.inode j).lock = true} t := by
  have hentry : ∀ j, (without k t.inode j).inum = (t.inode j).inum ∧
      (without k t.inode j).valid = (t.inode j).valid := by
    intro j
    by_cases hj : j = k
    · subst hj
      rw [without, update_self]
      exact ⟨rfl, rfl⟩
    · rw [without, update_of_ne hj]
      exact ⟨rfl, rfl⟩
  refine ⟨h, fun j => ?_, fun j _ => (hentry j).1.symm, fun x hx => ?_, fun j _ hv => ?_,
    fun j => Iff.rfl, fun _ => .inl rfl⟩
  · by_cases hj : j = k
    · subst hj
      rw [without, update_self, List.map_singleton, List.count_singleton_self]
      exact (Nat.sub_add_cancel href).symm
    · rw [without, update_of_ne hj, List.map_singleton, List.count_singleton,
        if_neg (by simpa using Ne.symm hj)]
      rfl
  · rw [List.mem_singleton.mp hx]
  · rwa [(hentry j).2] at hv

lemma Midcall.hold (h : Wf sb t) (hlock : ∀ j, (t.inode j).lock = false)
    (href : 0 < (t.inode k).ref) :
    Midcall sb (without k t.inode) (Files.node t) [(k, (t.inode k).inum)] ∅ t := by
  have hempty : {j | (t.inode j).lock = true} = ∅ := by simp [hlock]
  rw [← hempty]
  exact .holding h href

/-- A file has no more bytes than there are blocks for. -/
lemma size_le {i : ℕ} (h : Wf sb t) (htype : (Files.node t i).type ≠ .free) :
    (Files.node t i).size ≤ MAXFILE * BSIZE := by
  rw [node_type] at htype
  rw [Files.node, nodeOf_of_type htype]
  by_contra hlt
  exact lt_irrefl _ (lt_maxfile (h.sound.full i htype MAXFILE (not_le.mp hlt)))

/-- How a call stops: never with a block freed twice, and every inode that was unlocked had been
written; if `good`, never for an inode without a type. -/
def Err (good : Prop) (e : Stop) (t : Fs) : Prop :=
  t.through = true ∧ e ≠ .freeingFreeBlock ∧ (good → e ≠ .ilockNoType)

variable {E : Stop → Fs → Prop} {Q : Unit → Fs → Prop}

section Specs

variable {B : Ip → Inode} {N : ℕ → Node} {H : List (Ip × ℕ)} {L : Set Ip} {i : ℕ} {good : Prop}

lemma iget_spec (h : Midcall sb B N H L t) :
    Post (iget i) t
      (fun k t' => Midcall sb B N ((k, i) :: H) L t' ∧ ∀ j, node t' j = node t j) (Err good) := by
  simp only [iget, post_bind, post_get]
  cases hfind : (List.finRange NINODE).find?
    fun k => 0 < (t.inode k).ref ∧ (t.inode k).inum = i with
  | some k =>
    obtain ⟨hpos, hinum⟩ : 0 < (t.inode k).ref ∧ (t.inode k).inum = i := by
      simpa using List.find?_some hfind
    simp only [post_bind, post_setInode, post_pure]
    refine ⟨h.setInode (h.wf.setInode (fun _ j hj hpos' heq => hj (h.wf.uniq j k hpos' hpos heq))
      (fun _ => h.wf.sync k hpos) fun hl => ⟨by simp, (h.wf.held k hl).2⟩) ?_
      (fun j hj => ?_) (h.inum k)
      (fun x hx hxk => ?_) (fun x hx hxk => ?_) (h.valid k) (h.lock k) fun _ _ => Iff.rfl,
      fun _ => rfl⟩
    · rw [List.map_cons, List.count_cons_self, h.ref k, Nat.add_assoc]
    · rw [List.map_cons, List.count_cons_of_ne (Ne.symm hj)]
    · rcases List.mem_cons.mp hx with rfl | hx
      · exact hinum
      · rw [← hxk, h.held x hx]
    · rcases List.mem_cons.mp hx with rfl | hx
      · exact absurd rfl hxk
      · exact hx
  | none =>
    cases hfind' : (List.finRange NINODE).find? fun k => (t.inode k).ref = 0 with
    | none => exact ⟨h.wf.through, by decide, fun _ => by decide⟩
    | some k =>
      have hzero : (t.inode k).ref = 0 := by simpa using List.find?_some hfind'
      obtain ⟨hB, hcount, hne⟩ := h.ref_zero hzero
      have hlock : (t.inode k).lock = false := by
        by_contra hl
        have := (h.wf.held k (by simpa using hl)).1
        omega
      -- No entry has the inode.
      have hnone : ∀ j, 0 < (t.inode j).ref → (t.inode j).inum ≠ i := by
        intro j hj heq
        have hall := List.find?_eq_none.mp hfind j (List.mem_finRange j)
        simp [hj, heq] at hall
      simp only [post_bind, post_setInode, post_pure]
      refine ⟨h.setInode (h.wf.setInode (fun _ j _ hj => hnone j hj) (fun _ hv => by cases hv)
        fun hl => ?_)
        ?_ (fun j hj => ?_) (fun hpos => ?_) (fun x hx hxk => ?_) (fun x hx hxk => ?_)
          (fun hpos => ?_)
        (h.lock k) fun _ _ => Iff.rfl, fun _ => rfl⟩
      · rw [hlock] at hl
        cases hl
      · rw [List.map_cons, List.count_cons_self, hB, hcount]
      · rw [List.map_cons, List.count_cons_of_ne (Ne.symm hj)]
      · omega
      · rcases List.mem_cons.mp hx with rfl | hx
        · rfl
        · exact absurd hxk (hne x hx)
      · rcases List.mem_cons.mp hx with rfl | hx
        · exact absurd rfl hxk
        · exact hx
      · omega

lemma idup_spec (h : Midcall sb B N H L t) (hk : 0 < (t.inode k).ref) :
    Post (idup k) t (fun j t' => j = k ∧ Midcall sb B N ((k, (t.inode k).inum) :: H) L t') E := by
  simp only [idup, post_bind, post_inode, post_setInode, post_pure]
  refine ⟨trivial, h.setInode (h.wf.setInode (fun _ j hj hpos heq => hj (h.wf.uniq j k hpos hk heq))
    (fun _ => h.wf.sync k hk) fun hl => ⟨by simp, (h.wf.held k hl).2⟩) ?_
    (fun j hj => ?_) (h.inum k)
    (fun x hx hxk => ?_) (fun x hx hxk => ?_) (h.valid k) (h.lock k) fun _ _ => Iff.rfl⟩
  · rw [List.map_cons, List.count_cons_self, h.ref k, Nat.add_assoc]
  · rw [List.map_cons, List.count_cons_of_ne (Ne.symm hj)]
  · rcases List.mem_cons.mp hx with rfl | hx
    · rfl
    · rw [← hxk, h.held x hx]
  · rcases List.mem_cons.mp hx with rfl | hx
    · exact absurd rfl hxk
    · exact hx

/-- Only the inode cache has changed. -/
structure SameDisk (s s' : Fs) : Prop where
  dinode : s'.dinode = s.dinode
  bitmap : s'.bitmap = s.bitmap
  data : s'.data = s.data
  logged : s'.logged = s.logged

lemma SameDisk.trans {s' s'' : Fs} (h : SameDisk s s') (h' : SameDisk s' s'') : SameDisk s s'' :=
  ⟨h'.dinode.trans h.dinode, h'.bitmap.trans h.bitmap, h'.data.trans h.data,
    h'.logged.trans h.logged⟩

lemma acquiresleep_disk : Post (acquiresleep k) s (fun _ => SameDisk s) fun _ => SameDisk s := by
  unfold acquiresleep
  rw [post_bind, post_inode]
  exact post_ite.mpr ⟨fun _ => ⟨rfl, rfl, rfl, rfl⟩, fun _ => ⟨rfl, rfl, rfl, rfl⟩⟩

lemma ilock_disk : Post (ilock sb k) s (fun _ => SameDisk s) fun _ => SameDisk s := by
  unfold ilock
  simp only [post_bind, post_inode]
  refine post_ite.mpr ⟨fun _ => ⟨rfl, rfl, rfl, rfl⟩, fun _ => ?_⟩
  refine acquiresleep_disk.seq fun _ u hu => ?_
  rw [post_bind, post_get]
  refine post_ite.mpr ⟨fun _ => hu, fun _ => ?_⟩
  refine post_ite.mpr ⟨fun _ => hu, fun _ => ?_⟩
  rw [post_bind, post_setInode]
  exact post_ite.mpr ⟨fun _ => hu.trans ⟨rfl, rfl, rfl, rfl⟩,
    fun _ => hu.trans ⟨rfl, rfl, rfl, rfl⟩⟩

lemma iunlock_disk : Post (iunlock k) s (fun _ => SameDisk s) fun _ => SameDisk s := by
  unfold iunlock
  simp only [post_bind, post_inode]
  exact post_ite.mpr ⟨fun _ => ⟨rfl, rfl, rfl, rfl⟩, fun _ => ⟨rfl, rfl, rfl, rfl⟩⟩

/-- What `ilock` gives: the lock, and the file. -/
structure Locked (sb : Superblock) (B : Ip → Inode) (N : ℕ → Node) (H : List (Ip × ℕ)) (L : Set Ip)
    (k : Ip) (t t' : Fs) : Prop where
  mid : Midcall sb B N H (insert k L) t'
  notMem : k ∉ L
  node : ∀ j, node t' j = Files.node t j

lemma ilock_spec (h : Midcall sb B N H L t) (hk : (k, i) ∈ H)
    (hgood : good → (node t i).type ≠ .free) :
    Post (ilock sb k) t (fun _ t' => Locked sb B N H L k t t') (Err good) := by
  have hpos := h.pos hk
  have hinsert : ∀ j ≠ k, j ∈ insert k L ↔ j ∈ L := fun j hj =>
    ⟨fun hmem => hmem.resolve_left hj, .inr⟩
  have huniq : ∀ j ≠ k, 0 < (t.inode j).ref → (t.inode j).inum ≠ (t.inode k).inum :=
    fun j hj hpos' heq => hj (h.wf.uniq j k hpos' hpos heq)
  simp only [ilock, acquiresleep, post_bind, post_inode, post_ite, post_throw, post_pure,
    post_setInode, post_get, Fs.setInode_inode_self, Fs.setInode_setInode, Fs.setInode_dinode]
  refine ⟨fun hlt => by omega,
    fun _ => ⟨fun _ => ?_, fun hlock => ⟨fun hv => ?_, fun hv => ⟨fun _ => ?_,
    fun _ => ⟨fun htype => ?_, fun htype => ?_⟩⟩⟩⟩⟩
  · exact ⟨h.wf.through, by decide, fun _ => by decide⟩
  · -- The copy is valid.
    refine ⟨h.setInode (h.wf.setInode (fun _ => huniq) (fun _ => h.wf.sync k hpos)
      fun _ => ⟨hpos, hv⟩)
      (h.ref k) (fun _ _ => rfl) (h.inum k) (fun x hx hxk => ?_) (fun x hx _ => hx)
      (h.valid k) ?_ hinsert,
      fun hmem => hlock ((h.lock k).mpr hmem), fun _ => rfl⟩
    · rw [← hxk, h.held x hx]
    · simp
  · exact ⟨h.wf.through, by decide, fun _ => by decide⟩
  · have hinum : (t.inode k).inum = i := h.held _ hk
    refine ⟨h.wf.through, by decide, fun hg => absurd ?_ (hgood hg)⟩
    rwa [node_type, ← hinum]
  · -- The copy is read from the disk.
    refine ⟨h.setInode (h.wf.setInode (fun _ => huniq) (fun _ _ => ⟨rfl, htype⟩)
      fun _ => ⟨hpos, rfl⟩)
      (h.ref k) (fun _ _ => rfl) (h.inum k) (fun x hx hxk => ?_) (fun x hx _ => hx)
      (fun _ _ => rfl) ?_
      hinsert, fun hmem => hlock ((h.lock k).mpr hmem), fun _ => rfl⟩
    · rw [← hxk, h.held x hx]
    · simp

/-- An inode that is in use and unlocked can be locked. -/
lemma ilock_total (h : Midcall sb B N H L t) (hk : (k, i) ∈ H) (hL : k ∉ L) (hi : i < sb.ninodes)
    (htype : (node t i).type ≠ .free) :
    ∃ t', ilock sb k t = .ok () t' ∧ Locked sb B N H L k t t' ∧ SameDisk t t' := by
  have hpos := h.pos hk
  have hinum : (t.inode k).inum = i := h.held _ hk
  have hlock : (t.inode k).lock ≠ true := fun hl => hL ((h.lock k).mp hl)
  have harea : ¬sb.bmapstart ≤ sb.iblock i := by
    have := sb.inodes
    have : i / IPB ≤ sb.ninodes / IPB := Nat.div_le_div_right hi.le
    unfold Superblock.iblock
    omega
  have hok : Post (ilock sb k) t (fun _ _ => True) fun _ _ => False := by
    simp only [ilock, acquiresleep, post_bind, post_inode, post_ite, post_throw, post_pure,
      post_setInode, post_get, Fs.setInode_inode_self, Fs.setInode_dinode, hinum]
    refine ⟨fun hlt => by omega,
      fun _ => ⟨hlock, fun _ => ⟨fun _ => trivial, fun _ => ⟨harea, fun _ =>
      ⟨fun hfree => htype ?_, fun _ => trivial⟩⟩⟩⟩⟩
    rwa [node_type]
  have hspec : Post (ilock sb k) t (fun _ t' => Locked sb B N H L k t t') (Err False) :=
    ilock_spec h hk False.elim
  obtain ⟨_, t', hres, ⟨-, hlocked⟩, hdisk⟩ :=
    ((hok.and hspec).and ilock_disk).total fun e s' he => he.1.1
  exact ⟨t', hres, hlocked, hdisk⟩

/-- An inode whose copy is the dinode is unlocked. -/
lemma releasesleep_spec (hthrough : t.through = true)
    (hsync : (t.inode k).valid = true → (t.inode k).din = t.dinode (t.inode k).inum) :
    Post (releasesleep k) t Q E ↔ Q () (t.setInode k { t.inode k with lock := false }) := by
  have hflag : (t.through && (!(t.inode k).valid ||
      decide ((t.inode k).din = t.dinode (t.inode k).inum))) = t.through := by
    rw [hthrough, Bool.true_and]
    cases hv : (t.inode k).valid with
    | false => rfl
    | true => simp [hsync hv]
  simp only [releasesleep, post_bind, post_get, post_set, hflag]
  rfl

lemma iunlock_spec (h : Midcall sb B N H (insert k L) t) (hk : k ∉ L) :
    Post (iunlock k) t (fun _ t' => Midcall sb B N H L t' ∧ (∀ j, node t' j = node t j) ∧
      (t'.inode k).valid = true) E := by
  have hlock : (t.inode k).lock = true := (h.lock k).mpr (.inl rfl)
  obtain ⟨hpos, hv⟩ := h.wf.held k hlock
  have hsync := h.wf.sync k hpos hv
  simp only [iunlock, post_bind, post_inode, hlock, post_ite, post_throw]
  refine ⟨fun hbad => ?_, fun _ => ?_⟩
  · simp at hbad
    omega
  rw [releasesleep_spec h.wf.through fun _ => hsync.1]
  refine ⟨h.setInode (h.wf.setInode (fun _ j hj hpos' heq => hj (h.wf.uniq j k hpos' hpos heq))
    (fun _ _ => hsync) fun hl => by cases hl) (h.ref k) (fun _ _ => rfl) (h.inum k)
    (fun x hx hxk => ?_)
    (fun x hx _ => hx) (h.valid k) ?_ (fun j hj => ?_), fun _ => rfl, ?_⟩
  · rw [← hxk, h.held x hx]
  · simpa using hk
  · exact ⟨.inr, fun hmem => hmem.resolve_left hj⟩
  · rw [Fs.setInode_inode_self]
    exact hv

/-- A reference is given back and the file stays. -/
lemma Midcall.drop (h : Midcall sb B N ((k, i) :: H) L t) (hk : k ∉ L) :
    Midcall sb B N H L (t.setInode k { t.inode k with ref := (t.inode k).ref - 1 }) := by
  have hpos := h.pos List.mem_cons_self
  have href := h.ref k
  rw [List.map_cons, List.count_cons_self] at href
  refine h.setInode (h.wf.setInode (fun _ j hj hpos' heq => hj (h.wf.uniq j k hpos' hpos heq))
    (fun _ => h.wf.sync k hpos) fun hl => absurd ((h.lock k).mp hl) hk) ?_
    (fun j hj => ?_) (h.inum k)
    (fun x hx hxk => ?_) (fun x hx _ => List.mem_cons_of_mem _ hx) (h.valid k) (h.lock k)
    fun _ _ => Iff.rfl
  · simp only
    omega
  · rw [List.map_cons, List.count_cons_of_ne (Ne.symm hj)]
  · rw [← hxk, h.held x (List.mem_cons_of_mem _ hx)]

/-- The last reference is given back and the file is freed. -/
lemma Midcall.free (h : Midcall sb B N ((k, i) :: H) L t) (hk : k ∉ L)
    (hv : (t.inode k).valid = true) (hnlink : (t.inode k).din.nlink = 0)
    (href : (t.inode k).ref = 1) {t' : Fs} (hdata : t'.data = t.data)
    (hD : ∀ j ≠ i, t'.dinode j = t.dinode j) (hfree : (t'.dinode i).type = .free)
    (hsound : Sound sb t'.dinode t'.bitmap t.data) (hthrough : t'.through = true)
    (hother : ∀ j ≠ k, t'.inode j = t.inode j)
    (hself : (t'.inode k).ref = 0 ∧ (t'.inode k).lock = false) : Midcall sb B N H L t' := by
  have hpos := h.pos List.mem_cons_self
  have hinum : (t.inode k).inum = i := h.held _ List.mem_cons_self
  obtain ⟨hnode, htype, hdin⟩ := h.node_of_valid List.mem_cons_self hv
  have hcount := h.ref k
  rw [List.map_cons, List.count_cons_self] at hcount
  have hnotin : ∀ x ∈ H, x.1 ≠ k := by
    intro x hx hxk
    have hmem : k ∈ H.map Prod.fst := List.mem_map.mpr ⟨x, hx, hxk⟩
    have := List.count_pos_iff.mpr hmem
    omega
  -- The other entries that are in use are for other inodes.
  have hne : ∀ j ≠ k, 0 < (t.inode j).ref → (t.inode j).inum ≠ i := fun j hj hpos' heq =>
    hj (h.wf.uniq j k hpos' hpos (heq.trans hinum.symm))
  refine ⟨⟨hdata ▸ hsound, fun j l hj hl hjl => ?_, fun j hj hjv => ?_, fun j hj => ?_, hthrough⟩,
    fun j => ?_, fun j hj => ?_, fun x hx => ?_, fun j hj hjv => ?_, fun j => ?_, fun j => ?_⟩
  · have hjk : j ≠ k := by
      rintro rfl
      omega
    have hlk : l ≠ k := by
      rintro rfl
      omega
    rw [hother j hjk] at hj hjl
    rw [hother l hlk] at hl hjl
    exact h.wf.uniq j l hj hl hjl
  · have hjk : j ≠ k := by
      rintro rfl
      omega
    rw [hother j hjk] at hj hjv ⊢
    rw [hD _ (hne j hjk hj)]
    exact h.wf.sync j hj hjv
  · have hjk : j ≠ k := by
      rintro rfl
      rw [hself.2] at hj
      cases hj
    rw [hother j hjk] at hj ⊢
    exact h.wf.held j hj
  · by_cases hjk : j = k
    · subst hjk
      omega
    · have hold := h.ref j
      rw [List.map_cons, List.count_cons_of_ne (Ne.symm hjk)] at hold
      rw [hother j hjk, hold]
  · rw [hother j (by rintro rfl; omega)]
    exact h.inum j hj
  · rw [hother _ (hnotin x hx)]
    exact h.held x (List.mem_cons_of_mem _ hx)
  · rw [hother j (by rintro rfl; omega)]
    exact h.valid j hj hjv
  · by_cases hjk : j = k
    · subst hjk
      simp [hself.2, hk]
    · rw [hother j hjk]
      exact h.lock j
  · by_cases hji : j = i
    · subst hji
      refine .inr ⟨⟨?_, ?_, fun l hl heq => ?_⟩, node_eq_free hfree⟩
      · rwa [← hnode, node_type]
      · rw [← hnode, node_nlink htype, ← hdin, hnlink]
      · have hlk : l ≠ k := by
          rintro rfl
          omega
        have hl' := h.ref l
        exact hne l hlk (by omega) (by rw [h.inum l hl, heq])
    · rw [Files.node, hD j hji, hdata]
      exact h.node j

lemma acquiresleep_spec (hlock : (t.inode k).lock = false) :
    Post (acquiresleep k) t Q E ↔ Q () (t.setInode k { t.inode k with lock := true }) := by
  simp only [acquiresleep, post_bind, post_inode, hlock, Bool.false_eq_true, if_false,
    post_setInode]

/-- What `iput` does to the files: the last reference to a file without links frees it. -/
structure Put (k : Ip) (i : ℕ) (t t' : Fs) : Prop where
  other : ∀ j ≠ i, node t' j = node t j
  self : node t' i = node t i ∨ (node t i).nlink = 0 ∧ node t' i = .free
  last : (t.inode k).valid = true → (t'.inode k).ref = 0 → (node t i).nlink = 0 → node t' i = .free

lemma iput_spec (h : Midcall sb B N ((k, i) :: H) L t) :
    Post (iput sb k) t (fun _ t' => Midcall sb B N H L t' ∧ Put k i t t') (Err good) := by
  by_cases hk : k ∈ L
  · -- The caller has the lock itself and sleeps.
    rw [iput, acquiresleep, post_bind, post_bind, post_inode, (h.lock k).mpr hk, if_pos rfl]
    exact ⟨h.wf.through, by decide, fun _ => by decide⟩
  have hpos := h.pos List.mem_cons_self
  have hinum : (t.inode k).inum = i := h.held _ List.mem_cons_self
  have hlock : (t.inode k).lock = false := by
    rw [← Bool.not_eq_true]
    exact fun hl => hk ((h.lock k).mp hl)
  -- The end of `iput`, if the file stays.
  have hstay : ((t.inode k).valid = true → (t.inode k).din.nlink = 0 → (t.inode k).ref ≠ 1) →
      Post (releasesleep k) (t.setInode k { t.inode k with lock := true })
        (fun _ t' =>
          Midcall sb B N H L (t'.setInode k { t'.inode k with ref := (t'.inode k).ref - 1 }) ∧
            Put k i t (t'.setInode k { t'.inode k with ref := (t'.inode k).ref - 1 }))
              (Err good) := by
    intro hnot
    have hsync := h.wf.sync k hpos
    rw [releasesleep_spec (t := t.setInode k _) h.wf.through
      (by simpa using fun hv => (hsync hv).1)]
    simp only [Fs.setInode_inode_self, Fs.setInode_setInode]
    rw [← hlock]
    refine ⟨h.drop hk, fun _ _ => rfl, .inl rfl, fun hv hzero hnlink => ?_⟩
    rw [Fs.setInode_inode_self] at hzero
    obtain ⟨-, htype, hdin⟩ := h.node_of_valid List.mem_cons_self hv
    rw [node_nlink htype, ← hdin] at hnlink
    have := hnot hv hnlink
    simp only at hzero
    omega
  rw [iput, post_bind, acquiresleep_spec hlock]
  simp only [post_bind, post_inode, Fs.setInode_inode_self, post_ite, post_setInode, post_setDin,
    iupdate, post_modify, post_logWrite]
  refine ⟨fun hdead => ⟨fun href => ?_, fun href => hstay fun _ _ => href⟩,
    fun halive => hstay fun hv hnlink => absurd ⟨hv, hnlink⟩ halive⟩
  obtain ⟨hv, hnlink⟩ := hdead
  obtain ⟨hnode, htype, hdin⟩ := h.node_of_valid List.mem_cons_self hv
  -- The state with the lock.
  have hview : view (t.setInode k { t.inode k with lock := true }) k = t.dinode := by
    rw [view_setInode]
    simp only [hinum, hdin, update_eq_self]
  have hsound :
      Sound sb (view (t.setInode k { t.inode k with lock := true }) k) t.bitmap t.data := by
    rw [hview]
    exact h.wf.sound
  refine (itrunc_spec hsound (by simpa [hdin] using htype)).imp fun _ t₂ htr => ?_
  have hk₂ : t₂.inode k = { t.inode k with lock := true, din := (t.inode k).din.truncated } := by
    rw [htr.inode, update_self]
    simp
  have hinum₂ : (t₂.inode k).inum = i := by rw [hk₂, ← hinum]
  simp only [Fs.log_inode, Fs.setDinode_inode, Fs.setInode_inode_self, hk₂, hinum]
  refine (releasesleep_spec ?_ ?_).mpr ?_
  · exact htr.through.trans h.wf.through
  · simp only [Fs.setInode_inode_self, Bool.false_eq_true, false_implies]
  simp only [Fs.setInode_inode_self, Fs.setInode_setInode]
  generalize hd : ({ (t.inode k).din.truncated with type := .free } : Dinode) = d
  have hD : ∀ j ≠ i, update t₂.dinode i d j = t.dinode j := by
    intro j hj
    rw [update_of_ne hj, htr.dinode]
    simp only [Fs.setInode_inode_self, hinum, Fs.setInode_dinode, update_of_ne hj]
  have hfree : (update t₂.dinode i d i).type = .free := by rw [update_self, ← hd]
  have hsound₂ : Sound sb (update t₂.dinode i d) t₂.bitmap t.data := by
    refine htr.sound hsound (fun j hj => ?_) (fun q => ?_) ?_
    · rw [Fs.setInode_inode_self] at hj
      exact hD j (hinum ▸ hj)
    · rw [Fs.setInode_inode_self, hinum, update_self, ← hd]
      rfl
    · rw [Fs.setInode_inode_self, hinum, update_self, ← hd]
      rfl
  refine ⟨h.free hk hv hnlink href htr.data hD hfree hsound₂ (htr.through.trans h.wf.through)
    (fun j hj => ?_) ⟨?_, ?_⟩, fun j hj => ?_, .inr ⟨?_, node_eq_free hfree⟩,
    fun _ _ _ => node_eq_free hfree⟩
  · simp only [Fs.setInode, Fs.log, Fs.setDinode, update_of_ne hj, htr.inode]
  · rw [Fs.setInode_inode_self]
    simp only
    omega
  · rw [Fs.setInode_inode_self]
  · change nodeOf t₂.data (update t₂.dinode i d j) = _
    rw [hD j hj, htr.data]
    rfl
  · rw [node_nlink htype, ← hdin, hnlink]

lemma iunlockput_spec (h : Midcall sb B N ((k, i) :: H) (insert k L) t) (hk : k ∉ L) :
    Post (iunlockput sb k) t (fun _ t' => Midcall sb B N H L t' ∧ Put k i t t') (Err good) := by
  refine (iunlock_spec h hk).seq fun _ t₁ ht₁ => ?_
  obtain ⟨hmid, hnode, hv⟩ := ht₁
  refine (iput_spec hmid).imp fun _ t' ht' => ⟨ht'.1, ?_⟩
  have hput := ht'.2
  refine ⟨fun j hj => (hput.other j hj).trans (hnode j), ?_, fun _ hzero hnlink => ?_⟩
  · rw [← hnode i]
    exact hput.self
  · exact hput.last hv hzero (by rwa [hnode])

end Specs

end Xv6.Files
