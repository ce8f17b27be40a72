import Xv6.Files.Dirents

/-!
What the calls do to the files (`sys_link`, `sys_unlink`, `create`).

Each result is described by the files after the call in terms of the files `N` before it:
`LinkTo`, `UnlinkTo`, `CreateTo`.
-/

namespace Xv6.Files

open Xv6.Fs Transition Function

variable {sb : Superblock} {t : Fs} {B : Ip → Inode} {N : ℕ → Node} {R : ℕ → Prop} {good : Prop}
  {cwd : Ip}

variable {H : List (Ip × ℕ)} {L : Set Ip}

lemma beginOp_spec (h : Midcall sb B N H L t) {E : Stop → Fs → Prop} :
    Post beginOp t (fun _ t' => Midcall sb B N H L t') E :=
  h.congr rfl rfl rfl rfl rfl

/-! ### `sys_link` -/

/-- What `sys_link` can do. -/
inductive LinkTo (N : ℕ → Node) (R : ℕ → Prop) (good : Prop) (cwd : ℕ) (new : List ℕ) :
    Bool → (ℕ → Node) → Prop
  | same : LinkTo N R good cwd new false N
  | back {i : ℕ} (hi : (N i).type ≠ .free) (hR : good → R i) :
      LinkTo N R good cwd new false (addNlink (addNlink N i 1) i (-1))
  | linked {i d j : ℕ} {name : List ℕ} (hi : (N i).type ≠ .free) (hdir : (N i).type ≠ .dir)
      (hR : good → R i)
      (hwalk : Walk (addNlink N i 1) true (startOf cwd new) new d) (hRd : good → R d)
      (hname : Elem new name) (hnew : NewEntry (addNlink N i 1 d) j name) :
      LinkTo N R good cwd new true (putEntry (addNlink N i 1) d j i name)

/-- Link counts that a `short` has room for. -/
def Room (N : ℕ → Node) (R : ℕ → Prop) : Prop :=
  ∀ i, R i → 0 < (N i).nlink ∧ (N i).nlink + 1 < 2 ^ 15

lemma short_of_lt {x : ℤ} (h₀ : 0 ≤ x) (h : x < 2 ^ 15) : short x = x := by
  unfold short
  rw [Int.bmod_eq_of_le (by omega) (by omega)]

/-- One link more does not change what the lookups find. -/
lemma Start.addNlink (hs : Start B N R good cwd) (hroom : good → Room N R) (i : ℕ) :
    Start B (addNlink N i 1) R good cwd := by
  refine ⟨hs.ref, fun hg j hj => ?_, hs.root, hs.cwd⟩
  by_cases hji : j = i
  · subst hji
    obtain ⟨htype, -, hentry⟩ := hs.closed hg j hj
    obtain ⟨hpos, hlt⟩ := hroom hg j hj
    rw [addNlink_self]
    refine ⟨htype, ?_, hentry⟩
    simp only
    rw [short_of_lt (by omega) hlt]
    omega
  · rw [addNlink_of_ne hji]
    exact hs.closed hg j hj

lemma namei_spec (hs : Start B N R good cwd) (h : Midcall sb B N H L t) (path : List ℕ) :
    Post (namei sb cwd path) t
      (fun r t' => r = none ∧ Midcall sb B N H L t' ∨
        ∃ k i, r = some k ∧ Walk N false (startOf (B cwd).inum path) path i ∧ (good → R i) ∧
          Midcall sb B N ((k, i) :: H) L t') (Err good) := by
  refine (namex_spec hs h path false).seq fun r t' hr => ?_
  cases hr with
  | absent h' _ => exact .inl ⟨rfl, h'⟩
  | present hwalk hR _ h' => exact .inr ⟨_, _, rfl, hwalk, hR, h'⟩

variable {k : Ip} {i : ℕ}

/-- What the lookups reach can be locked. -/
lemma Start.ilock (hs : Start B N R good cwd) (h : Midcall sb B N H L t) (hk : (k, i) ∈ H)
    (hR : good → R i) :
    Post (Files.ilock sb k) t (fun _ t' => Locked sb B N H L k t t') (Err good) := by
  refine ilock_spec h hk fun hg => ?_
  obtain ⟨htype, hnlink, -⟩ := hs.closed hg i (hR hg)
  rwa [h.node_of_nlink hnlink]

/-- The part of `sys_link` that makes the entry. -/
lemma linkNew_spec (hs : Start B N R good cwd) (h : Midcall sb B N [(k, i)] ∅ t) (new : List ℕ) :
    Post (linkNew sb cwd new k) t
      (fun r t' => r = false ∧ Midcall sb B N [(k, i)] ∅ t' ∨
        r = true ∧ ∃ d j name, Walk N true (startOf (B cwd).inum new) new d ∧ (good → R d) ∧
          Elem new name ∧
          NewEntry (N d) j name ∧ Midcall sb B (putEntry N d j i name) [(k, i)] ∅ t')
            (Err good) := by
  refine (namex_spec hs h new true).seq fun r t₁ hr => ?_
  cases hr with
  | absent h₁ _ => exact .inl ⟨rfl, h₁⟩
  | @present _ dp d name hwalk hRd hlast h₁ =>
    refine (hs.ilock h₁ (.head _) hRd).seq fun _ t₂ ht₂ => ?_
    have hinum : (t₂.inode k).inum = i :=
      ht₂.mid.held (k, i) (List.mem_cons_of_mem _ List.mem_cons_self)
    rw [post_bind, post_inode, hinum]
    refine (dirlink_spec ht₂.mid (.head _) (.inl rfl) name i).seq ?_
    rintro r t₃ (⟨rfl, h₃⟩ | ⟨rfl, j, hnew, h₃⟩)
    · exact (iunlockput_spec h₃ ht₂.notMem).seq fun _ t' ht' => .inl ⟨rfl, ht'.1⟩
    · exact (iunlockput_spec h₃ ht₂.notMem).seq fun _ t' ht' =>
        .inr ⟨rfl, d, j, name, hwalk, hRd, (hlast rfl).elem, hnew, ht'.1⟩

lemma sysLink_spec (hs : Start B N R good cwd) (hroom : good → Room N R) (h : Midcall sb B N [] ∅ t)
    (old new : List ℕ) :
    Post (sysLink sb cwd old new) t
      (fun r t' => ∃ N', LinkTo N R good (B cwd).inum new r N' ∧ Midcall sb B N' [] ∅ t')
      (Err good) := by
  refine (beginOp_spec h).seq fun _ t₀ h₀ => ?_
  refine (namei_spec hs h₀ old).seq ?_
  rintro r t₁ (⟨rfl, h₁⟩ | ⟨k, i, rfl, -, hR, h₁⟩)
  · exact ⟨N, .same, h₁⟩
  refine (hs.ilock h₁ (.head _) hR).seq fun _ t₂ ht₂ => ?_
  obtain ⟨h₂, hnotin, -⟩ := ht₂
  have htype : (t₂.inode k).din.type = (N i).type := by rw [node_eq h₂ (.head _) (.inl rfl)]
  have hfree := h₂.type_of_locked (.head _) (.inl rfl)
  rw [post_bind, post_inode, htype, post_ite]
  refine ⟨fun _ => ?_, fun hdir => ?_⟩
  · exact (iunlockput_spec h₂ hnotin).seq fun _ t' ht' => ⟨N, .same, ht'.1⟩
  refine (addLinks_spec h₂ (.head _) (.inl rfl) 1).seq fun _ t₃ h₃ => ?_
  refine (iunlock_spec h₃.1 hnotin).seq fun _ t₄ h₄ => ?_
  have hs₁ := hs.addNlink hroom i
  refine (linkNew_spec hs₁ h₄.1 new).seq ?_
  rintro r t₅ (⟨rfl, h₅⟩ | ⟨rfl, d, j, name, hwalk, hRd, hname, hnew, h₅⟩)
  · -- The link count goes back.
    refine (hs₁.ilock h₅ (.head _) hR).seq fun _ t₆ h₆ => ?_
    refine (addLinks_spec h₆.mid (.head _) (.inl rfl) (-1)).seq fun _ t₇ h₇ => ?_
    exact (iunlockput_spec h₇.1 hnotin).seq fun _ t' ht' => ⟨_, .back hfree hR, ht'.1⟩
  · refine (iput_spec h₅).seq fun _ t' ht' => ?_
    exact ⟨_, .linked hfree hdir hR hwalk hRd hname hnew, ht'.1⟩

/-! ### `sys_unlink` -/

/-- A directory has nothing but `.` and `..`. -/
def Node.Empty (x : Node) : Prop := ∀ l, 2 ≤ l → DESIZE * l < x.size → (x.entry l).inum = 0

variable {j : ℕ}

lemma emptyDirLoop_spec (h : Midcall sb B N H L t)
    (hk : (k, i) ∈ H) (hL : k ∈ L) (hdir : (N i).type = .dir) {fuel : ℕ}
    (hfuel : (N i).size ≤ DESIZE * j + fuel)
    (hzero : ∀ l, 2 ≤ l → l < j → ((N i).entry l).inum = 0) :
    Post (emptyDirLoop sb k fuel (DESIZE * j)) t
      (fun r t' => t' = t ∧ (r = true → (N i).Empty)) (Err good) := by
  have hsize : (t.inode k).din.size = (N i).size := by rw [node_eq h hk hL]
  induction fuel generalizing j with
  | zero => exact ⟨rfl, fun _ l hl hlt => hzero l hl (lt_of_desize (by omega))⟩
  | succ fuel ih =>
    rw [emptyDirLoop, post_bind, post_inode, hsize, post_ite]
    refine ⟨fun hlt => ?_, fun hge => ⟨rfl, fun _ l hl hlt => hzero l hl (lt_of_desize (by omega))⟩⟩
    refine (readDirent_spec h hk hL hdir j (by decide) (by decide)).seq fun de t' hde => ?_
    obtain ⟨rfl, -, rfl⟩ := hde
    rw [post_ite]
    refine ⟨fun _ => ⟨rfl, fun hr => by cases hr⟩, fun hne => ?_⟩
    have hpos : 0 < DESIZE := by decide
    refine ih (j := j + 1) (by rw [Nat.mul_succ]; omega) fun l hl hlt => ?_
    rcases Nat.lt_succ_iff_lt_or_eq.mp hlt with hlt | rfl
    · exact hzero l hl hlt
    · exact not_not.mp hne

lemma isFullDir_spec (h : Midcall sb B N H L t) (hk : (k, i) ∈ H) (hL : k ∈ L) :
    Post (isFullDir sb k) t
      (fun r t' => t' = t ∧ (r = false → (N i).type = .dir → (N i).Empty)) (Err good) := by
  have hN := node_eq h hk hL
  have hsize : (t.inode k).din.size = (N i).size := by rw [hN]
  have htype : (t.inode k).din.type = (N i).type := by rw [hN]
  rw [isFullDir, post_bind, post_inode, htype, post_ite]
  refine ⟨fun hdir => ?_, fun hdir => ⟨rfl, fun _ hd => absurd hd hdir⟩⟩
  rw [post_bind, isdirempty, post_bind, post_inode, hsize, Nat.mul_comm]
  refine (emptyDirLoop_spec (j := 2) h hk hL hdir (by omega) fun l hl hlt => by omega).imp
    fun r t' hr => ⟨hr.1, fun hfalse _ => hr.2 ?_⟩
  simpa using hfalse

/-- The files after an entry of the directory `d` for the inode `i` has been removed. -/
def unlinkAt (N : ℕ → Node) (d j i : ℕ) : ℕ → Node :=
  let N₁ := putEntry N d j 0 []
  addNlink (if (N i).type = .dir then addNlink N₁ d (-1) else N₁) i (-1)

/-- What `sys_unlink` can do. -/
inductive UnlinkTo (N : ℕ → Node) (R : ℕ → Prop) (good : Prop) (cwd : ℕ) (path : List ℕ) :
    Bool → (ℕ → Node) → Prop
  | same : UnlinkTo N R good cwd path false N
  | unlinked {d j i : ℕ} {name : List ℕ} (hwalk : Walk N true (startOf cwd path) path d)
      (hRd : good → R d)
      (hname : Elem path name) (hdot : namecmp name dot ≠ 0) (hdotdot : namecmp name dotdot ≠ 0)
      (hdir : (N d).type = .dir) (hj : DESIZE * (j + 1) ≤ (N d).size)
      (hmatch : (N d).Matches name j)
      (hi : ((N d).entry j).inum = i) (hid : i ≠ d) (htype : (N i).type ≠ .free)
      (hnlink : 1 ≤ (N i).nlink)
      (hempty : (N i).type = .dir → (N i).Empty) :
      UnlinkTo N R good cwd path true (unlinkAt N d j i)

/-- What has lost its last link and has no holder is freed. -/
def Settled (B : Ip → Inode) (N N' : ℕ → Node) (t : Fs) : Prop :=
  ∀ i, Loose B N' i → Loose B N i ∨ node t i = .free

/-- Different entries of the cache are for different inodes. -/
lemma Midcall.inum_ne {k' : Ip} {i' : ℕ} (h : Midcall sb B N H L t)
    (hk : (k, i) ∈ H) (hk' : (k', i') ∈ H) (hne : k ≠ k') : i ≠ i' := fun heq =>
  hne (h.wf.uniq k k' (h.pos hk) (h.pos hk') (by rw [h.held _ hk, h.held _ hk']; exact heq))

/-- A file that nobody held before the call is not held after its last reference is given back. -/
lemma Midcall.ref_of_loose {L' : Set Ip} {N' : ℕ → Node} {t' : Fs}
    (h : Midcall sb B N ((k, i) :: H) L t) (h' : Midcall sb B N' H L' t') (hloose : Loose B N' i)
    (hH : ∀ x ∈ H, x.1 ≠ k) : (t'.inode k).ref = 0 := by
  have hB : (B k).ref = 0 := by
    by_contra hpos
    have hinum := h.inum k (by omega)
    rw [h.held _ List.mem_cons_self] at hinum
    exact hloose.2.2 k (by omega) hinum.symm
  rw [h'.ref k, hB, List.count_eq_zero_of_not_mem, Nat.add_zero]
  intro hmem
  obtain ⟨x, hx, rfl⟩ := List.mem_map.mp hmem
  exact hH x hx rfl

variable {d : ℕ}

lemma unlinkAt_of_ne {l : ℕ} (hd : l ≠ d) (hi : l ≠ i) : unlinkAt N d j i l = N l := by
  unfold unlinkAt
  rw [addNlink_of_ne hi]
  split
  · rw [addNlink_of_ne hd, putEntry, update_of_ne hd]
  · rw [putEntry, update_of_ne hd]

variable {dp : Ip}

/-- The part of `sys_unlink` that removes the entry. -/
lemma removeEntry_spec
    (h : Midcall sb B N [(k, i), (dp, d)] (insert k (insert dp ∅)) t) (hkd : k ≠ dp)
    (hdir : (N d).type = .dir) :
    Post (removeEntry sb dp k (DESIZE * j)) t
      (fun _ t' => Midcall sb B (unlinkAt N d j i) [] ∅ t' ∧ Settled B N (unlinkAt N d j i) t')
      (Err good) := by
  have hid : i ≠ d := h.inum_ne (.head _) (.tail _ (.head _)) hkd
  unfold removeEntry
  refine (writei_spec h (.tail _ (.head _)) (.inr (.inl rfl)) _ _).seq fun r t₁ hr => ?_
  cases hr with
  | dev htype _ =>
    rw [hdir] at htype
    cases htype
  | range _ h₁ =>
    rw [if_pos (by simp)]
    exact .of_ne h₁.wf.through (by decide) (by decide)
  | @done _ x hwrite h₁ =>
    rw [if_neg (by simp)]
    have hx : update N d x = putEntry N d j 0 [] := by
      rw [putEntry, ← Node.write_eq_put (strncpy_length ..) (y := x) hwrite]
    rw [hx] at h₁
    -- Both inodes are unlocked and given back.
    have htail : ∀ N₂ u, unlinkAt N d j i = addNlink N₂ i (-1) →
        Midcall sb B N₂ [(k, i), (dp, d)] (insert k (insert dp ∅)) u →
        Post (do
          iunlockput sb dp
          addLinks sb k (-1)
          iunlockput sb k) u
          (fun _ t' => Midcall sb B (unlinkAt N d j i) [] ∅ t' ∧ Settled B N (unlinkAt N d j i) t')
          (Err good) := by
      intro N₂ u hN₂ hu
      rw [Set.insert_comm] at hu
      have hdp : dp ∉ insert k (∅ : Set Ip) := by simpa using Ne.symm hkd
      have hswap := hu.perm (List.Perm.swap (dp, d) (k, i) [])
      refine (iunlockput_spec hswap hdp).seq ?_
      rintro _ u₁ ⟨hu₁, hput⟩
      refine (addLinks_spec hu₁ List.mem_cons_self (.inl rfl) (-1)).seq ?_
      rintro _ u₂ ⟨hu₂, hframe⟩
      rw [← hN₂] at hu₂
      refine (iunlockput_spec hu₂ (Set.notMem_empty k)).imp ?_
      rintro _ t' ⟨ht', hput'⟩
      refine ⟨ht', fun l hl => ?_⟩
      have hvalid : ∀ {N H L} {v : Fs} {k : Ip}, Midcall sb B N H (insert k L) v →
          (v.inode k).valid = true :=
        fun hv => (hv.wf.held _ ((hv.lock _).mpr (.inl rfl))).2
      by_cases hli : l = i
      · subst hli
        refine .inr (hput'.last (hvalid hu₂) (hu₂.ref_of_loose ht' hl (by simp)) ?_)
        rw [(hu₂.node_of_locked List.mem_cons_self (.inl rfl)).1]
        exact hl.2.1
      · by_cases hld : l = d
        · subst hld
          have hN₂l : N₂ l = unlinkAt N l j i l := by rw [hN₂, addNlink_of_ne hli]
          have hl₂ : Loose B N₂ l := by
            unfold Loose
            rw [hN₂l]
            exact hl
          have hfree :=
            hput.last (hvalid hswap) (hswap.ref_of_loose hu₁ hl₂ (by simpa using hkd)) (by
            rw [(hswap.node_of_locked List.mem_cons_self (.inl rfl)).1]
            exact hl₂.2.1)
          rw [hput'.other l hli, hframe l hli]
          exact .inr hfree
        · have hsame := unlinkAt_of_ne (N := N) (j := j) hld hli
          unfold Loose at hl ⊢
          rw [hsame] at hl
          exact .inl hl
    have htype : (t₁.inode k).din.type = (N i).type := by
      have hN := node_eq h₁ (.head _) (.inl rfl)
      rw [putEntry, update_of_ne hid] at hN
      rw [hN]
    simp only
    rw [post_bind, post_inode, htype, post_ite]
    refine ⟨fun hd => ?_, fun hd => ?_⟩
    · refine (addLinks_spec h₁ (.tail _ (.head _)) (.inr (.inl rfl)) (-1)).seq fun _ t₂ h₂ => ?_
      exact htail _ t₂ (by rw [unlinkAt, if_pos hd]) h₂.1
    · exact htail _ t₁ (by rw [unlinkAt, if_neg hd]) h₁

lemma sysUnlink_spec (hs : Start B N R good cwd) (h : Midcall sb B N [] ∅ t) (path : List ℕ) :
    Post (sysUnlink sb cwd path) t
      (fun r t' => ∃ N', UnlinkTo N R good (B cwd).inum path r N' ∧ Midcall sb B N' [] ∅ t' ∧
        Settled B N N' t') (Err good) := by
  -- Nothing has been done.
  have hsame : ∀ u, Midcall sb B N [] ∅ u → ∃ N', UnlinkTo N R good (B cwd).inum path false N' ∧
      Midcall sb B N' [] ∅ u ∧ Settled B N N' u := fun u hu => ⟨N, .same, hu, fun _ => .inl⟩
  refine (beginOp_spec h).seq fun _ t₀ h₀ => ?_
  refine (namex_spec hs h₀ path true).seq fun r t₁ hr => ?_
  cases hr with
  | absent h₁ _ => exact hsame t₁ h₁
  | @present _ dp d name hwalk hRd hlast h₁ =>
    refine (hs.ilock h₁ (.head _) hRd).seq fun _ t₂ ht₂ => ?_
    obtain ⟨h₂, hnotin, -⟩ := ht₂
    rw [post_ite]
    refine ⟨fun _ => ?_, fun hdots => ?_⟩
    · exact (iunlockput_spec h₂ hnotin).seq fun _ t' ht' => hsame t' ht'.1
    rw [not_or] at hdots
    refine (dirlookup_spec h₂ (.head _) (.inl rfl) name).seq ?_
    rintro r t₃ ⟨hdir, hlook⟩
    cases hlook with
    | absent h₃ _ =>
      exact (iunlockput_spec h₃ hnotin).seq fun _ t' ht' => hsame t' ht'.1
    | @present _ k j hj hmatch _ h₃ =>
      generalize hi : ((N d).entry j).inum = i at h₃
      have hRi : good → R i := fun hg => hi ▸ (hs.closed hg d (hRd hg)).2.2 hdir j hj hmatch.1
      refine (hs.ilock h₃ (.head _) hRi).seq fun _ t₄ ht₄ => ?_
      obtain ⟨h₄, hnotin', -⟩ := ht₄
      have hkd : k ≠ dp := fun heq => hnotin' (.inl heq)
      have hnlink : (t₄.inode k).din.nlink = (N i).nlink := by rw [node_eq h₄ (.head _) (.inl rfl)]
      rw [post_bind, post_inode, hnlink]
      simp only [post_ite, post_bind, post_throw]
      refine ⟨fun _ => .of_ne h₄.wf.through (by decide) (by decide), fun hpos => ?_⟩
      refine (isFullDir_spec h₄ (.head _) (.inl rfl)).imp ?_
      rintro full t₅ ⟨rfl, hempty⟩
      refine ⟨fun _ => ?_, fun hfull => ?_⟩
      · refine (iunlockput_spec h₄ hnotin').imp fun _ t₆ ht₆ => ?_
        exact (iunlockput_spec ht₆.1 hnotin).imp fun _ t' ht' => hsame t' ht'.1
      · refine (removeEntry_spec h₄ hkd hdir).imp fun _ t' ht' => ?_
        refine ⟨_, .unlinked hwalk hRd (hlast rfl).elem hdots.1 hdots.2 hdir hj hmatch hi
          (h₄.inum_ne (.head _) (.tail _ (.head _)) hkd) (h₄.type_of_locked (.head _) (.inl rfl))
          (by omega) ?_, ht'.1, ht'.2⟩
        exact hempty (by simpa using hfull)

/-! ### `create` -/

/-- The files after the `.` and `..` of the directory `i` have been made. -/
def dotsAt (N : ℕ → Node) (d i : ℕ) : ℕ → Node :=
  putEntry (putEntry (addNlink N d 1) i 0 i dot) i 1 d dotdot

lemma dotsAt_of_ne {l : ℕ} (hi : l ≠ i) : dotsAt N d i l = addNlink N d 1 l := by
  rw [dotsAt, putEntry, update_of_ne hi, putEntry, update_of_ne hi]

lemma makeDots_spec (h : Midcall sb B N [(k, i), (dp, d)] (insert k (insert dp ∅)) t) (hkd : k ≠ dp)
    (hsize : (N i).size = 0) (hi : 0 < i) (hi' : i < 2 ^ 16) :
    Post (makeDots sb dp k) t
      (fun _ t' => Midcall sb B (dotsAt N d i) [(k, i), (dp, d)] (insert k (insert dp ∅)) t')
      (Err good) := by
  have hid : i ≠ d := h.inum_ne (.head _) (.tail _ (.head _)) hkd
  refine (addLinks_spec h (.tail _ (.head _)) (.inr (.inl rfl)) 1).seq ?_
  rintro _ t₁ ⟨h₁, -⟩
  have hinum : (t₁.inode k).inum = i := h₁.held _ (.head _)
  rw [post_bind, post_inode, hinum]
  refine (dirlink_spec h₁ (.head _) (.inl rfl) dot i).seq ?_
  rintro r t₂ (⟨rfl, h₂⟩ | ⟨rfl, j, hnew, h₂⟩)
  · exact .of_ne h₂.wf.through (by decide) (by decide)
  have hNi : addNlink N d 1 i = N i := addNlink_of_ne hid 1
  obtain rfl : j = 0 := by
    have hv := hnew.vacant.2
    rw [hNi, hsize] at hv
    simp only [DESIZE, DIRSIZ] at hv
    omega
  have hinum₂ : (t₂.inode dp).inum = d := h₂.held _ (.tail _ (.head _))
  simp only [Bool.not_true, Bool.false_eq_true, if_false, post_bind, post_inode, hinum₂]
  refine (dirlink_spec h₂ (.head _) (.inl rfl) dotdot d).imp ?_
  rintro r t₃ (⟨rfl, h₃⟩ | ⟨rfl, j, hnew', h₃⟩)
  · exact .of_ne h₃.wf.through (by decide) (by decide)
  obtain rfl : j = 1 := by
    have hv := hnew'.vacant.2
    rw [putEntry, update_self, hNi, Node.put_size, hsize] at hv
    rcases hv with ⟨hle, hzero⟩ | hv
    · obtain rfl : j = 0 := by
        simp only [DESIZE, DIRSIZ] at hle
        omega
      rw [Node.entry_put_self _ _ (strncpy_length ..) hi'] at hzero
      exact absurd hzero (by simpa using hi.ne')
    · simp only [DESIZE, DIRSIZ] at hv
      omega
  exact h₃

/-- A new file of `create`, before it has contents. -/
def newNode (ty : InodeType) (major minor : ℤ) : Node :=
  { Node.fresh ty with major := short major, minor := short minor, nlink := 1 }

/-- The files after a new file `i` has been made, before it is entered in the directory `d`. -/
def makeAt (N : ℕ → Node) (d i : ℕ) (ty : InodeType) (major minor : ℤ) : ℕ → Node :=
  let N₁ := update N i (newNode ty major minor)
  if ty = .dir then dotsAt N₁ d i else N₁

lemma NewEntry.congr {x y : Node} {name : List ℕ} (h : NewEntry x j name) (htype : y.type = x.type)
    (hsize : y.size = x.size) (hbyte : y.byte = x.byte) : NewEntry y j name := by
  have hentry : ∀ l, y.entry l = x.entry l := fun l => by
    unfold Node.entry
    rw [hbyte]
  refine ⟨htype.trans h.dir, fun l hl => ?_, ⟨fun l hl => ?_, ?_⟩, h.room⟩
  · unfold Node.Matches
    rw [hentry]
    exact h.absent l (hsize ▸ hl)
  · rw [hentry]
    exact h.vacant.1 l hl
  · rw [hentry, hsize]
    exact h.vacant.2

variable {ty : InodeType}

/-- The directory is as it was, but for the link count. -/
lemma NewEntry.of_makeAt {major minor : ℤ} {name : List ℕ} (hid : i ≠ d)
    (h : NewEntry (makeAt N d i ty major minor d) j name) : NewEntry (N d) j name := by
  unfold makeAt at h
  split at h
  · rw [dotsAt_of_ne hid.symm, addNlink_self, update_of_ne hid.symm] at h
    exact h.congr rfl rfl rfl
  · rwa [update_of_ne hid.symm] at h

/-- The part of `create` that makes a new inode. -/
lemma createNew_spec (h : Midcall sb B N [(dp, d)] (insert dp ∅) t)
    (hty : good → ty ≠ .free) (name : List ℕ) (major minor : ℤ) :
    Post (createNew sb dp name ty major minor) t
      (fun k t' => ∃ i j, (node t i).type = .free ∧ 0 < i ∧ i < sb.ninodes ∧ i ≠ d ∧
        NewEntry (N d) j name ∧
        Midcall sb B (putEntry (makeAt N d i ty major minor) d j i name) [(k, i)] (insert k ∅) t')
      (Err good) := by
  have hd := h.node_of_locked List.mem_cons_self (.inl rfl)
  refine (ialloc_spec h ty).seq ?_
  rintro k t₁ ⟨i, hfree, hi, hlt, hfresh, h₁⟩
  have hid : i ≠ d := by
    rintro rfl
    rw [node_type] at hfree
    exact hd.2.1 hfree
  refine (ilock_spec h₁ (.head _) fun hg => ?_).seq fun _ t₂ ht₂ => ?_
  · rw [hfresh]
    exact hty hg
  obtain ⟨h₂, hnotin, -⟩ := ht₂
  have hkd : k ≠ dp := fun heq => hnotin (.inl heq)
  rw [post_bind, post_inode, post_bind, post_setDin, post_bind]
  refine (iupdate_spec h₂ (.head _) (.inl rfl) ?_ ?_ ?_).imp ?_
  · rfl
  · rfl
  · rfl
  rintro _ t₃ ⟨h₃, -⟩
  rw [update_self, update_idem] at h₃
  have h₃' : Midcall sb B (update N i (newNode ty major minor)) [(k, i), (dp, d)]
      (insert k (insert dp ∅)) t₃ := h₃
  -- The new file is entered in the directory.
  have htail : ∀ u, Midcall sb B (makeAt N d i ty major minor) [(k, i), (dp, d)]
      (insert k (insert dp ∅)) u → Post (do
        if !(← dirlink sb dp name (← inode k).inum) then throw .createDirlink
        iunlockput sb dp
        return k) u
        (fun k t' => ∃ i j, (node t i).type = .free ∧ 0 < i ∧ i < sb.ninodes ∧ i ≠ d ∧
          NewEntry (N d) j name ∧
          Midcall sb B (putEntry (makeAt N d i ty major minor) d j i name) [(k, i)] (insert k ∅) t')
        (Err good) := by
    intro u hu
    have hinum : (u.inode k).inum = i := hu.held _ (.head _)
    rw [post_bind, post_inode, hinum]
    refine (dirlink_spec hu (.tail _ (.head _)) (.inr (.inl rfl)) name i).seq ?_
    rintro r u₁ (⟨rfl, hu₁⟩ | ⟨rfl, j, hnew, hu₁⟩)
    · exact .of_ne hu₁.wf.through (by decide) (by decide)
    · rw [Set.insert_comm] at hu₁
      have hdp : dp ∉ insert k (∅ : Set Ip) := by simpa using Ne.symm hkd
      have hswap := hu₁.perm (List.Perm.swap (dp, d) (k, i) [])
      refine (iunlockput_spec hswap hdp).seq fun _ u₂ hu₂ => ?_
      exact ⟨i, j, hfree, hi, hlt, hid, hnew.of_makeAt hid, hu₂.1⟩
  rw [post_ite]
  refine ⟨fun hdir => ?_, fun hdir => ?_⟩
  · refine (makeDots_spec h₃' hkd ?_ hi ?_).seq fun _ t₄ h₄ => htail t₄ ?_
    · rw [update_self]
      rfl
    · exact hlt.trans_le sb.ninodes_le
    · rw [makeAt, if_pos hdir]
      exact h₄
  · refine htail t₃ ?_
    rw [makeAt, if_neg hdir]
    exact h₃'

/-- What `create` does. -/
inductive CreateTo (sb : Superblock) (B : Ip → Inode) (N : ℕ → Node) (R : ℕ → Prop)
    (good : Prop) (cwd : ℕ)
    (path : List ℕ) (ty : InodeType) (major minor : ℤ) : Option Ip → Fs → Prop
  | failed {t : Fs} (h : Midcall sb B N [] ∅ t) :
      CreateTo sb B N R good cwd path ty major minor none t
  | existing {t : Fs} {k : Ip} {i : ℕ} (hty : ty = .file) (htype : (N i).type = .file)
      (hR : good → R i) (h : Midcall sb B N [(k, i)] (insert k ∅) t) :
      CreateTo sb B N R good cwd path ty major minor (some k) t
  | created {t : Fs} {k : Ip} {d j i : ℕ} {name : List ℕ}
      (hwalk : Walk N true (startOf cwd path) path d)
      (hRd : good → R d) (hname : Elem path name) (hnew : NewEntry (N d) j name)
      (hfree : (N i).type = .free ∨ Loose B N i) (hi : 0 < i) (hlt : i < sb.ninodes) (hid : i ≠ d)
      (h : Midcall sb B (putEntry (makeAt N d i ty major minor) d j i name) [(k, i)]
        (insert k ∅) t) :
      CreateTo sb B N R good cwd path ty major minor (some k) t

lemma create_spec (hs : Start B N R good cwd) (h : Midcall sb B N [] ∅ t) (path : List ℕ)
    (hty : good → ty ≠ .free) (major minor : ℤ) :
    Post (create sb cwd path ty major minor) t
      (CreateTo sb B N R good (B cwd).inum path ty major minor) (Err good) := by
  refine (namex_spec hs h path true).seq fun r t₁ hr => ?_
  cases hr with
  | absent h₁ _ => exact .failed h₁
  | @present _ dp d name hwalk hRd hlast h₁ =>
    refine (hs.ilock h₁ (.head _) hRd).seq fun _ t₂ ht₂ => ?_
    obtain ⟨h₂, hnotin, -⟩ := ht₂
    refine (dirlookup_spec h₂ (.head _) (.inl rfl) name).seq ?_
    rintro r t₃ ⟨hdir, hlook⟩
    cases hlook with
    | absent h₃ _ =>
      refine (createNew_spec h₃ hty name major minor).seq ?_
      rintro k t' ⟨i, j, hfree, hi, hlt, hid, hnew, h'⟩
      refine .created hwalk hRd (hlast rfl).elem hnew ?_ hi hlt hid h'
      rcases h₃.node i with heq | ⟨hloose, -⟩
      · exact .inl (heq ▸ hfree)
      · exact .inr hloose
    | @present _ k j hj hmatch _ h₃ =>
      generalize hi : ((N d).entry j).inum = i at h₃
      have hRi : good → R i := fun hg => hi ▸ (hs.closed hg d (hRd hg)).2.2 hdir j hj hmatch.1
      have hswap := h₃.perm (List.Perm.swap (dp, d) (k, i) [])
      refine (iunlockput_spec hswap hnotin).seq fun _ t₄ h₄ => ?_
      refine (hs.ilock h₄.1 (.head _) hRi).seq fun _ t₅ ht₅ => ?_
      have htype : (t₅.inode k).din.type = (N i).type := by
        rw [node_eq ht₅.mid (.head _) (.inl rfl)]
      rw [post_bind, post_inode, htype, post_ite]
      refine ⟨fun hfile => .existing hfile.1 hfile.2 hRi ht₅.mid, fun _ => ?_⟩
      exact (iunlockput_spec ht₅.mid ht₅.notMem).seq fun _ t' ht' => .failed ht'.1

end Xv6.Files
