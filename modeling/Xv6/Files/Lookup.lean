import Mathlib.Data.List.TakeWhile
import Xv6.Files.NodeOps

/-!
Directories and paths, in the middle of a call (`dirlookup`, `namex`).

* `Node.entry`, `Node.Matches`: the entries of a directory.
* `dirlookup_spec`: what is found.
* `Walk`: the walk along a path.
* `namex_spec`: a path lookup changes no file, other than that it may free one without links and
  holders; in directories whose entries name files that are there it does not stop at a free
  inode.
-/

namespace Xv6.Files

open Xv6.Fs Transition

namespace Node

/-- The `j`th entry of a directory. -/
def entry (x : Node) (j : ℕ) : Dirent :=
  .ofBytes ((List.range DESIZE).map fun o => x.byte (DESIZE * j + o))

/-- The `j`th entry is in use and has the name. -/
def Matches (x : Node) (name : List ℕ) (j : ℕ) : Prop :=
  (x.entry j).inum ≠ 0 ∧ namecmp name (x.entry j).name = 0

end Node

variable {sb : Superblock} {t : Fs} {k : Ip} {B : Ip → Inode} {N : ℕ → Node} {H : List (Ip × ℕ)}
  {L : Set Ip} {d : ℕ} {dp : Ip} {good : Prop} {name : List ℕ}

/-- A stop that is neither of the two that matter. -/
lemma Err.of_ne {e : Stop} (ht : t.through = true) (h₁ : e ≠ .freeingFreeBlock)
    (h₂ : e ≠ .ilockNoType) : Err good e t := ⟨ht, h₁, fun _ => h₂⟩

/-! ### Entries -/

variable {j : ℕ}

/-- An entry that starts before the end of another one does not come after it. -/
lemma lt_of_desize {l : ℕ} (h : DESIZE * l < DESIZE * j) : l < j := Nat.lt_of_mul_lt_mul_left h

lemma readDirent_spec (h : Midcall sb B N H L t) (hk : (dp, d) ∈ H) (hL : dp ∈ L)
    (hdir : (N d).type = .dir) (j : ℕ) {stop : Stop} (h₁ : stop ≠ .freeingFreeBlock)
    (h₂ : stop ≠ .ilockNoType) :
    Post (readDirent sb dp (DESIZE * j) stop) t
      (fun de t' => t' = t ∧ DESIZE * (j + 1) ≤ (N d).size ∧ de = (N d).entry j) (Err good) := by
  refine (readi_spec h hk hL _ _).seq fun r t' hr => ?_
  obtain ⟨rfl, rfl⟩ := hr.2 (by rw [hdir]; decide)
  cases hread : (N d).read (DESIZE * j) DESIZE with
  | none => exact .of_ne h.wf.through h₁ h₂
  | some bs =>
    rw [post_ite]
    refine ⟨fun hlen => ⟨rfl, ?_⟩, fun _ => .of_ne h.wf.through h₁ h₂⟩
    rw [Node.read] at hread
    split at hread
    · cases hread
    · cases hread
      rw [List.length_map, List.length_range] at hlen
      refine ⟨?_, by rw [hlen]; rfl⟩
      rw [Nat.mul_succ]
      split at hlen <;> omega

/-- What `dirlookup` finds: the first entry with the name, and a reference to its inode. -/
inductive Looked (sb : Superblock) (B : Ip → Inode) (N : ℕ → Node) (H : List (Ip × ℕ)) (L : Set Ip)
    (d : ℕ) (name : List ℕ) : Option (Ip × ℕ) → Fs → Prop
  | absent {t : Fs} (h : Midcall sb B N H L t)
      (hno : ∀ j, DESIZE * j < (N d).size → ¬(N d).Matches name j) : Looked sb B N H L d name none t
  | present {t : Fs} {k : Ip} {j : ℕ} (hj : DESIZE * (j + 1) ≤ (N d).size)
      (hname : (N d).Matches name j) (hfirst : ∀ l < j, ¬(N d).Matches name l)
      (h : Midcall sb B N ((k, ((N d).entry j).inum) :: H) L t) :
      Looked sb B N H L d name (some (k, DESIZE * j)) t

lemma lookupLoop_spec (h : Midcall sb B N H L t) (hk : (dp, d) ∈ H) (hL : dp ∈ L)
    (hdir : (N d).type = .dir) {fuel : ℕ} (hfuel : (N d).size ≤ DESIZE * j + fuel)
    (hno : ∀ l < j, ¬(N d).Matches name l) :
    Post (lookupLoop sb dp name fuel (DESIZE * j)) t (Looked sb B N H L d name) (Err good) := by
  have hsize : (t.inode dp).din.size = (N d).size := by rw [node_eq h hk hL]
  induction fuel generalizing j with
  | zero => exact .absent h fun l hl => hno l (lt_of_desize (by omega))
  | succ fuel ih =>
    rw [lookupLoop, post_bind, post_inode, hsize, post_ite]
    refine ⟨fun hlt => ?_, fun hge => .absent h fun l hl => hno l (lt_of_desize (by omega))⟩
    refine (readDirent_spec h hk hL hdir j (by decide) (by decide)).seq fun de t' hde => ?_
    obtain ⟨rfl, hj, rfl⟩ := hde
    -- The next round, if the entry does not match.
    have hnext : ¬(N d).Matches name j →
        Post (lookupLoop sb dp name fuel (DESIZE * j + DESIZE)) t' (Looked sb B N H L d name)
          (Err good) := by
      intro hne
      have hpos : 0 < DESIZE := by decide
      refine ih (j := j + 1) (by rw [Nat.mul_succ]; omega) fun l hl => ?_
      rcases Nat.lt_succ_iff_lt_or_eq.mp hl with hl | rfl
      · exact hno l hl
      · exact hne
    simp only [post_ite]
    refine ⟨fun hzero => hnext fun hm => hm.1 hzero, fun hne => ⟨fun hname => ?_, fun hname =>
      hnext fun hm => hname hm.2⟩⟩
    refine (iget_spec h).seq fun k t₁ hk₁ => ?_
    exact .present hj ⟨hne, hname⟩ hno hk₁.1

/-- **`dirlookup`** in a locked directory. -/
lemma dirlookup_spec (h : Midcall sb B N H L t) (hk : (dp, d) ∈ H) (hL : dp ∈ L) (name : List ℕ) :
    Post (dirlookup sb dp name) t (fun r t' => (N d).type = .dir ∧ Looked sb B N H L d name r t')
      (Err good) := by
  have hN := node_eq h hk hL
  have htype : (t.inode dp).din.type = (N d).type := by rw [hN]
  have hsize : (t.inode dp).din.size = (N d).size := by rw [hN]
  rw [dirlookup, post_bind, post_inode, post_ite, htype, hsize]
  refine ⟨fun _ => .of_ne h.wf.through (by decide) (by decide), fun hdir => ?_⟩
  rw [not_not] at hdir
  refine (lookupLoop_spec (j := 0) h hk hL hdir (by omega)
    (fun _ hl => absurd hl (Nat.not_lt_zero _))).imp fun r t' hr => ⟨hdir, hr⟩

/-! ### Paths -/

/-- The name can be an element of the path. -/
structure Elem (path name : List ℕ) : Prop where
  ne : name ≠ []
  length : name.length ≤ DIRSIZ
  mem : ∀ c ∈ name, c ≠ slash ∧ c ∈ path

variable {path : List ℕ}

lemma skipelem_some {name rest : List ℕ} (h : skipelem path = some (name, rest)) :
    rest.length < path.length ∧ rest ⊆ path ∧ Elem path name := by
  unfold skipelem at h
  simp only at h
  split at h
  · cases h
  next hne =>
  cases h
  have hsub : path.dropWhile (· = slash) ⊆ path := (List.dropWhile_sublist _).subset
  have hle := (List.dropWhile_sublist (p := (· = slash)) (l := path)).length_le
  cases hp : path.dropWhile (· = slash) with
  | nil => exact absurd hp hne
  | cons c q =>
    rw [hp] at hsub hle
    have hc : c ≠ slash := by
      have hhead :=
        List.head_dropWhile_not (p := (· = slash)) (l := path) (hp ▸ List.cons_ne_nil c q)
      simpa [hp] using hhead
    have hdrop : (c :: q).dropWhile (· ≠ slash) = q.dropWhile (· ≠ slash) := by
      rw [List.dropWhile_cons_of_pos (by simpa using hc)]
    have htake : (c :: q).takeWhile (· ≠ slash) = c :: q.takeWhile (· ≠ slash) := by
      rw [List.takeWhile_cons_of_pos (by simpa using hc)]
    have hrest := (List.dropWhile_sublist (p := (· = slash)) (l := q.dropWhile (· ≠ slash))).trans
      (List.dropWhile_sublist (p := (· ≠ slash)) (l := q))
    rw [hdrop, htake]
    refine ⟨?_, ?_, ?_, ?_, fun x hx => ?_⟩
    · have := hrest.length_le
      rw [List.length_cons] at hle
      omega
    · exact fun x hx => hsub (List.mem_cons_of_mem c (hrest.subset hx))
    · simp
    · rw [List.length_take]
      exact min_le_left ..
    · have hmem := List.mem_of_mem_take hx
      rw [← htake] at hmem
      have hx' := List.mem_takeWhile_imp hmem
      exact ⟨by simpa using hx', hsub ((List.takeWhile_sublist _).subset hmem)⟩

/-- The files in `R` are there and have links, and the entries of a directory in `R` name files in
`R`. -/
def Closed (N : ℕ → Node) (R : ℕ → Prop) : Prop :=
  ∀ i, R i → (N i).type ≠ .free ∧ (N i).nlink ≠ 0 ∧
    ((N i).type = .dir → ∀ j, DESIZE * (j + 1) ≤ (N i).size → ((N i).entry j).inum ≠ 0 →
      R ((N i).entry j).inum)

/-- A file with links is there. -/
lemma Midcall.node_of_nlink (h : Midcall sb B N H L t) {i : ℕ} (hi : (N i).nlink ≠ 0) :
    Files.node t i = N i := (h.node i).resolve_right fun hfree => hi hfree.1.2.1

/-- **The walk along a path** from the inode `i`: each element is looked up in the directory that
the ones before lead to.  For a parent the last element is not looked up. -/
inductive Walk (N : ℕ → Node) (parent : Bool) : ℕ → List ℕ → ℕ → Prop
  | done {i : ℕ} {path : List ℕ} (hskip : skipelem path = none) (hparent : parent = false) :
      Walk N parent i path i
  | stop {i : ℕ} {path name : List ℕ} (hskip : skipelem path = some (name, []))
      (hparent : parent = true) (hdir : (N i).type = .dir) : Walk N parent i path i
  | step {i j i' : ℕ} {path name rest : List ℕ} (hskip : skipelem path = some (name, rest))
      (hparent : ¬(parent = true ∧ rest = [])) (hdir : (N i).type = .dir)
      (hj : DESIZE * (j + 1) ≤ (N i).size) (hname : (N i).Matches name j)
      (hfirst : ∀ l < j, ¬(N i).Matches name l)
      (hrest : Walk N parent ((N i).entry j).inum rest i') :
      Walk N parent i path i'

/-- The last element of a path. -/
inductive LastElem : List ℕ → List ℕ → Prop
  | last {path name : List ℕ} (hskip : skipelem path = some (name, [])) : LastElem path name
  | next {path first rest name : List ℕ} (hskip : skipelem path = some (first, rest))
      (hrest : LastElem rest name) : LastElem path name

lemma LastElem.elem {name : List ℕ} (h : LastElem path name) : Elem path name := by
  induction h with
  | last hskip => exact (skipelem_some hskip).2.2
  | next hskip _ ih =>
    have hsub := (skipelem_some hskip).2.1
    exact ⟨ih.ne, ih.length, fun c hc => ⟨(ih.mem c hc).1, hsub (ih.mem c hc).2⟩⟩

/-- The first entry with a name. -/
lemma Node.Matches.first_unique {x : Node} {l : ℕ} (hj : x.Matches name j) (hl : x.Matches name l)
    (hfj : ∀ m < j, ¬x.Matches name m) (hfl : ∀ m < l, ¬x.Matches name m) : j = l := by
  rcases lt_trichotomy j l with hlt | heq | hlt
  · exact absurd hj (hfl j hlt)
  · exact heq
  · exact absurd hl (hfj l hlt)

/-- What `namex` finds: a reference to the inode the path leads to, and for a parent the last
element of the path. -/
inductive Found (sb : Superblock) (B : Ip → Inode) (N : ℕ → Node) (H : List (Ip × ℕ)) (L : Set Ip)
    (R : ℕ → Prop) (good : Prop) (i : ℕ) (path : List ℕ) (parent : Bool) :
    Option (Ip × List ℕ) → Fs → Prop
  | absent {t : Fs} (h : Midcall sb B N H L t) (hno : ∀ i', ¬Walk N parent i path i') :
      Found sb B N H L R good i path parent none t
  | present {t : Fs} {k : Ip} {i' : ℕ} {name : List ℕ} (hwalk : Walk N parent i path i')
      (hR : good → R i') (hlast : parent = true → LastElem path name)
      (h : Midcall sb B N ((k, i') :: H) L t) :
      Found sb B N H L R good i path parent (some (k, name)) t

lemma namexLoop_spec {R : ℕ → Prop} (hclosed : good → Closed N R) {parent : Bool} {fuel i : ℕ}
    {name : List ℕ} (hfuel : path.length < fuel) (hR : good → R i)
    (h : Midcall sb B N ((k, i) :: H) L t) :
    Post (namexLoop sb parent fuel k path name) t (Found sb B N H L R good i path parent)
      (Err good) := by
  induction fuel generalizing k i path name t with
  | zero => omega
  | succ fuel ih =>
    unfold namexLoop namexLoopWith
    cases hskip : skipelem path with
    | none =>
      simp only
      rw [post_ite]
      refine ⟨fun hparent => ?_, fun hparent => .present (.done hskip (by simpa using hparent)) hR
        (fun hp => absurd hp hparent) h⟩
      refine (iput_spec h).seq fun _ t' ht' => .absent ht'.1 fun i' hwalk => ?_
      cases hwalk with
      | done _ hp => exact absurd (hparent.symm.trans hp) (by decide)
      | stop hs _ _ | step hs _ _ _ _ _ _ =>
        rw [hskip] at hs
        cases hs
    | some elem =>
      obtain ⟨name', rest⟩ := elem
      obtain ⟨hlen, hsub, helem⟩ := skipelem_some hskip
      have hmem : (k, i) ∈ (k, i) :: H := List.mem_cons_self
      have hthere : good → (node t i).type ≠ .free := by
        intro hg
        obtain ⟨htype, hnlink, -⟩ := hclosed hg i (hR hg)
        rwa [h.node_of_nlink hnlink]
      refine (ilock_spec h hmem hthere).seq fun _ t₁ ht₁ => ?_
      have hL : k ∈ insert k L := .inl rfl
      have htype : (t₁.inode k).din.type = (N i).type := by rw [node_eq ht₁.mid hmem hL]
      rw [post_bind, post_inode, htype, post_ite]
      refine ⟨fun hdir => ?_, fun hdir => ?_⟩
      · refine (iunlockput_spec ht₁.mid ht₁.notMem).seq fun _ t' ht' =>
          .absent ht'.1 fun i' hwalk => ?_
        cases hwalk with
        | done hs _ =>
          rw [hskip] at hs
          cases hs
        | stop _ _ hd | step _ _ hd _ _ _ _ => exact hdir hd
      rw [not_not] at hdir
      rw [post_ite]
      refine ⟨fun hstop => ?_, fun hstep => ?_⟩
      · obtain ⟨hparent, rfl⟩ := hstop
        exact (iunlock_spec ht₁.mid ht₁.notMem).seq fun _ t' ht' =>
          .present (.stop hskip hparent hdir) hR (fun _ => .last hskip) ht'.1
      · refine (dirlookup_spec ht₁.mid hmem hL name').seq ?_
        rintro r t₂ ⟨-, hlook⟩
        cases hlook with
        | absent h₂ hno =>
          refine (iunlockput_spec h₂ ht₁.notMem).seq fun _ t' ht' =>
            .absent ht'.1 fun i' hwalk => ?_
          cases hwalk with
          | done hs _ =>
            rw [hskip] at hs
            cases hs
          | stop hs hp _ =>
            rw [hskip] at hs
            cases hs
            exact hstep ⟨hp, rfl⟩
          | step hs _ _ hj hname _ _ =>
            rw [hskip] at hs
            cases hs
            exact hno _ ((Nat.mul_lt_mul_of_pos_left (Nat.lt_succ_self _)
              (by decide)).trans_le hj) hname
        | present hj hname hfirst h₂ =>
          have hswap := h₂.perm (List.Perm.swap (k, i) _ H)
          refine (iunlockput_spec hswap ht₁.notMem).seq fun _ t₃ ht₃ => ?_
          refine (ih (by omega) (fun hg => ?_) ht₃.1).imp fun r t' hr => ?_
          · exact (hclosed hg i (hR hg)).2.2 hdir _ hj hname.1
          · cases hr with
            | absent h' hno =>
              refine .absent h' fun i' hwalk => ?_
              cases hwalk with
              | done hs _ =>
                rw [hskip] at hs
                cases hs
              | stop hs hp _ =>
                rw [hskip] at hs
                cases hs
                exact hstep ⟨hp, rfl⟩
              | step hs _ _ _ hname' hfirst' hrest =>
                rw [hskip] at hs
                cases hs
                rw [hname'.first_unique hname hfirst' hfirst] at hrest
                exact hno i' hrest
            | present hwalk hR' hlast h' =>
              exact .present (.step hskip hstep hdir hj hname hfirst hwalk) hR'
                (fun hp => .next hskip (hlast hp)) h'

/-- The inode at which the walk along a path starts. -/
def startOf (cwd : ℕ) (path : List ℕ) : ℕ := if path.head? = some slash then ROOTINO else cwd

/-- What the lookups of a call need: a current directory, and if `good` that what they can reach is
in `R`. -/
structure Start (B : Ip → Inode) (N : ℕ → Node) (R : ℕ → Prop) (good : Prop) (cwd : Ip) : Prop where
  ref : 0 < (B cwd).ref
  closed : good → Closed N R
  root : good → R ROOTINO
  cwd : good → R (B cwd).inum

/-- **A path lookup.** -/
lemma namex_spec {R : ℕ → Prop} {cwd : Ip} (hs : Start B N R good cwd) (h : Midcall sb B N H L t)
    (path : List ℕ) (parent : Bool) :
    Post (namex sb cwd path parent) t
      (Found sb B N H L R good (startOf (B cwd).inum path) path parent) (Err good) := by
  have hpos : 0 < (t.inode cwd).ref := by
    have := h.ref cwd
    have := hs.ref
    omega
  simp only [namex, namexWith, post_ite, post_bind]
  refine ⟨fun hslash => ?_, fun hslash => ?_⟩
  · rw [startOf, if_pos hslash]
    exact (iget_spec h).imp
      fun k t' ht' => namexLoop_spec hs.closed (Nat.lt_succ_self _) hs.root ht'.1
  · rw [startOf, if_neg hslash]
    refine (idup_spec h hpos).imp ?_
    rintro k t' ⟨rfl, ht'⟩
    rw [h.inum _ hs.ref] at ht'
    exact namexLoop_spec hs.closed (Nat.lt_succ_self _) hs.cwd ht'

end Xv6.Files
