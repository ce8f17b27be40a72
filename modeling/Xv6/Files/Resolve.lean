import Mathlib.Data.List.DropRight
import Xv6.Files.Dirents
import Xv6.Files.Failures

/-!
Path resolution (`skipelem`, `namex`, `namei`, `nameiparent`).

* `nameiBuf`, `nameiparentBuf`: the lookups with the buffer for the name, which `skipelem` leaves
  without a NUL if the element fills it and uses again for the next element.  `namexLoopBuf_eq`:
  what the buffer holds up to the NUL is the name.
* `components`, `resolve`, `resolveParent`: what a path means.
* `walk_iff_resolve`, `walk_iff_resolveParent`: the walk along a path finds what it means.
* `path_resolution`: the lookups return it, and the only new reference is the one returned.
-/

namespace Xv6.Files

open Xv6.Fs Transition

variable {sb : Superblock}

/-! ### The buffer for a name -/

/-- The element `s` is copied to the buffer. -/
def copyElem (name s : List ℕ) : List ℕ :=
  if DIRSIZ ≤ s.length then s.take DIRSIZ else s ++ 0 :: name.drop (s.length + 1)

/-- `skipelem` with the buffer `name`. -/
def skipelemBuf (path name : List ℕ) : Option (List ℕ × List ℕ) :=
  let path := path.dropWhile (· = slash)
  if path = [] then none
  else
    some (copyElem name (path.takeWhile (· ≠ slash)),
      (path.dropWhile (· ≠ slash)).dropWhile (· = slash))

variable (sb) in
/-- `name` is what the stack has in the place of the buffer. -/
def nameiBuf (cwd : Ip) (path name : List ℕ) : FsM (Option Ip) := do
  return (← namexWith sb skipelemBuf cwd path false name).map Prod.fst

variable (sb) in
def nameiparentBuf (cwd : Ip) (path name : List ℕ) : FsM (Option (Ip × List ℕ)) :=
  namexWith sb skipelemBuf cwd path true name

/-- What the buffer holds up to the NUL is the element, as much of it as fits. -/
lemma canon_copyElem {name s : List ℕ} (h : ∀ c ∈ s, c ≠ 0) :
    canon (copyElem name s) = s.take DIRSIZ := by
  have hall : ∀ c ∈ s, decide (c ≠ 0) = true := fun c hc => by simpa using h c hc
  unfold copyElem
  split
  · have htake : ∀ c ∈ s.take DIRSIZ, decide (c ≠ 0) = true :=
      fun c hc => hall c (List.mem_of_mem_take hc)
    rw [canon, List.takeWhile_eq_self_iff.mpr htake, List.take_take, min_self]
  · rw [canon, List.takeWhile_append_of_pos hall, List.takeWhile_cons_of_neg (by decide),
      List.append_nil]

/-- A lookup reads a name up to the NUL. -/
lemma lookupLoop_canon (dp : Ip) (name : List ℕ) (fuel off : ℕ) :
    lookupLoop sb dp name fuel off = lookupLoop sb dp (canon name) fuel off := by
  have hname : ∀ n, namecmp name n = 0 ↔ namecmp (canon name) n = 0 := fun n => by
    rw [namecmp_eq_zero, namecmp_eq_zero, canon_canon]
  induction fuel generalizing off with
  | zero => rfl
  | succ fuel ih => simp only [lookupLoop, ih, hname]

lemma dirlookup_canon (dp : Ip) (name : List ℕ) :
    dirlookup sb dp name = dirlookup sb dp (canon name) := by
  unfold dirlookup
  simp only [lookupLoop_canon dp name]

/-- The rest of a path has no NUL either. -/
lemma skipelemBuf_eq {path : List ℕ} (h : ∀ c ∈ path, c ≠ 0) (name : List ℕ) :
    (skipelemBuf path name).map (fun x => (canon x.1, x.2)) = skipelem path := by
  unfold skipelemBuf skipelem
  simp only
  split
  · rfl
  · have hmem : ∀ c ∈ (path.dropWhile (· = slash)).takeWhile (· ≠ slash), c ≠ 0 := fun c hc =>
      h c ((List.dropWhile_sublist _).subset ((List.takeWhile_sublist _).subset hc))
    rw [Option.map_some, canon_copyElem hmem]

/-- The name that a lookup leaves in the buffer. -/
def readName (r : Option (Ip × List ℕ)) : Option (Ip × List ℕ) := r.map fun x => (x.1, canon x.2)

/-- **The loop with the buffer** is the loop over names. -/
lemma namexLoopBuf_eq {parent : Bool} {fuel : ℕ} {ip : Ip} {path : List ℕ} (h : ∀ c ∈ path, c ≠ 0)
    (name : List ℕ) :
    readName <$> namexLoopWith sb skipelemBuf parent fuel ip path name
      = namexLoop sb parent fuel ip path (canon name) := by
  induction fuel generalizing ip path name with
  | zero => rfl
  | succ fuel ih =>
    have hskip := skipelemBuf_eq h name
    unfold namexLoop namexLoopWith
    cases hbuf : skipelemBuf path name with
    | none =>
      rw [← hskip, hbuf]
      simp only [Option.map_none, apply_ite (readName <$> ·), map_bind, map_pure]
      rfl
    | some elem =>
      obtain ⟨name', rest⟩ := elem
      rw [hbuf, Option.map_some] at hskip
      have hrest : ∀ c ∈ rest, c ≠ 0 := fun c hc => h c ((skipelem_some hskip.symm).2.1 hc)
      rw [← hskip]
      simp only [apply_ite (readName <$> ·), map_bind, map_pure, dirlookup_canon ip name']
      congr 1
      funext _
      congr 1
      funext d
      congr 1
      congr 1
      congr 1
      funext r
      cases r with
      | none => simp only [map_bind, map_pure]; rfl
      | some x => simp only [map_bind, ih hrest]

/-- The name before the first element does not matter for a parent, -/
lemma namexLoop_parent (fuel : ℕ) (ip : Ip) (path name name' : List ℕ) :
    namexLoop sb true fuel ip path name = namexLoop sb true fuel ip path name' := by
  cases fuel with
  | zero => rfl
  | succ fuel =>
    unfold namexLoop namexLoopWith
    cases skipelem path with
    | none => rfl
    | some elem => rfl

/-- and a lookup that is not for a parent has no use for it. -/
lemma namexLoop_fst (fuel : ℕ) (ip : Ip) (path name name' : List ℕ) :
    Option.map Prod.fst <$> namexLoop sb false fuel ip path name
      = Option.map Prod.fst <$> namexLoop sb false fuel ip path name' := by
  cases fuel with
  | zero => rfl
  | succ fuel =>
    unfold namexLoop namexLoopWith
    cases skipelem path with
    | none => rfl
    | some elem => rfl

/-- **`nameiparent` with the buffer.** -/
lemma nameiparentBuf_eq {path : List ℕ} (h : ∀ c ∈ path, c ≠ 0) (cwd : Ip) (name : List ℕ) :
    readName <$> nameiparentBuf sb cwd path name = nameiparent sb cwd path := by
  have hname : ∀ fuel ip, namexLoop sb true fuel ip path (canon name)
      = namexLoop sb true fuel ip path [] :=
    fun fuel ip => namexLoop_parent fuel ip path _ _
  unfold nameiparentBuf nameiparent namex namexWith
  by_cases hslash : path.head? = some slash
  · simp only [if_pos hslash, map_bind, namexLoopBuf_eq h, hname]
  · simp only [if_neg hslash, map_bind, namexLoopBuf_eq h, hname]

/-- **`namei` with the buffer.** -/
lemma nameiBuf_eq {path : List ℕ} (h : ∀ c ∈ path, c ≠ 0) (cwd : Ip) (name : List ℕ) :
    nameiBuf sb cwd path name = namei sb cwd path := by
  have hread : ∀ r, Option.map Prod.fst r = Option.map Prod.fst (readName r) :=
    fun r => by cases r <;> rfl
  have hname : ∀ fuel ip,
      Option.map Prod.fst <$> namexLoopWith sb skipelemBuf false fuel ip path name
      = Option.map Prod.fst <$> namexLoop sb false fuel ip path [] := fun fuel ip =>
    calc Option.map Prod.fst <$> namexLoopWith sb skipelemBuf false fuel ip path name
        = Option.map Prod.fst <$> readName <$> namexLoopWith sb skipelemBuf false fuel ip
          path name := by
          rw [Functor.map_map]
          exact congrArg (· <$> _) (funext hread)
      _ = Option.map Prod.fst <$> namexLoop sb false fuel ip path (canon name) := by
        rw [namexLoopBuf_eq h]
      _ = _ := namexLoop_fst fuel ip path _ _
  unfold nameiBuf namei namex namexWith
  by_cases hslash : path.head? = some slash
  · simp only [if_pos hslash, bind_pure_comp, map_bind, hname]
  · simp only [if_neg hslash, bind_pure_comp, map_bind, hname]

/-! ### What a path means -/

/-- The components of a path: what is between the slashes, if anything is, cut to the room that an
entry has for a name. -/
def components (path : List ℕ) : List (List ℕ) :=
  ((path.splitOn slash).filter (· ≠ [])).map (·.take DIRSIZ)

lemma components_slash (path : List ℕ) : components (slash :: path) = components path := by
  have hsplit : (slash :: path).splitOn slash = [] :: path.splitOn slash :=
    List.splitOnP_append_cons [] path (beq_self_eq_true slash)
  simp [components, hsplit]

/-- Slashes at the beginning do not count. -/
lemma components_dropWhile (path : List ℕ) :
    components (path.dropWhile (· = slash)) = components path := by
  induction path with
  | nil => rfl
  | cons c path ih =>
    by_cases hc : c = slash
    · rw [List.dropWhile_cons_of_pos (by simpa using hc), ih, hc, components_slash]
    · rw [List.dropWhile_cons_of_neg (by simpa using hc)]

/-- The first component. -/
lemma components_append {elem rest : List ℕ} (hne : elem ≠ []) (helem : ∀ c ∈ elem, c ≠ slash)
    (hrest : rest = [] ∨ rest.head? = some slash) :
    components (elem ++ rest) = elem.take DIRSIZ :: components rest := by
  have hno : ∀ c ∈ elem, (c == slash) = false := fun c hc => by simpa using helem c hc
  have hone : elem.splitOn slash = [elem] := List.splitOnP_eq_singleton hno
  rcases hrest with rfl | hhead
  · simp [components, hone, hne]
  · obtain ⟨q, rfl⟩ := List.head?_eq_some_iff.mp hhead
    have hsplit : (elem ++ slash :: q).splitOn slash = elem.splitOn slash ++ q.splitOn slash :=
      List.splitOnP_append_cons elem q (beq_self_eq_true slash)
    rw [components_slash]
    simp [components, hsplit, hone, hne]

lemma components_of_skipelem_none {path : List ℕ} (h : skipelem path = none) :
    components path = [] := by
  unfold skipelem at h
  simp only at h
  split at h
  next hnil =>
    rw [← components_dropWhile, hnil]
    rfl
  · cases h

lemma components_of_skipelem {path name rest : List ℕ} (h : skipelem path = some (name, rest)) :
    components path = name :: components rest := by
  unfold skipelem at h
  simp only at h
  split at h
  · cases h
  next hne =>
  cases h
  have hhead := List.head_dropWhile_not (p := fun c : ℕ => decide (c = slash)) (l := path) hne
  rw [components_dropWhile, ← components_dropWhile path]
  generalize path.dropWhile (fun c => decide (c = slash)) = p at hne hhead ⊢
  conv_lhs => rw [← List.takeWhile_append_dropWhile (p := fun c : ℕ => decide (c ≠ slash)) (l := p)]
  refine components_append ?_ (fun c hc => by simpa using List.mem_takeWhile_imp hc) ?_
  · obtain ⟨c, q, rfl⟩ := List.exists_cons_of_ne_nil hne
    have hc : c ≠ slash := of_decide_eq_false hhead
    rw [List.takeWhile_cons_of_pos (by simpa using hc)]
    exact List.cons_ne_nil _ _
  · by_cases hnil : p.dropWhile (fun c => decide (c ≠ slash)) = []
    · exact .inl hnil
    · have hstop := List.head_dropWhile_not (p := fun c : ℕ => decide (c ≠ slash)) (l := p) hnil
      refine .inr (List.head?_eq_some_head hnil ▸ ?_)
      simpa using hstop

/-- The inode that a name leads to in a directory: the one the first entry in use with the name
has. -/
def Node.lookup (x : Node) (name : List ℕ) : Option ℕ :=
  ((List.range (x.size / DESIZE)).find?
    fun j => (x.entry j).inum ≠ 0 ∧ canon (x.entry j).name = name).map fun j => (x.entry j).inum

/-- One component is looked up. -/
def lookupIn (N : ℕ → Node) (i : ℕ) (name : List ℕ) : Option ℕ :=
  if (N i).type = .dir then (N i).lookup name else none

/-- **What a path means**: its components are looked up in turn. -/
def resolve (N : ℕ → Node) (i : ℕ) (names : List (List ℕ)) : Option ℕ := names.foldlM (lookupIn N) i

/-- **The parent and the last component** of a path. -/
def resolveParent (N : ℕ → Node) (i : ℕ) (names : List (List ℕ)) : Option (ℕ × List ℕ) := do
  let last ← names.getLast?
  let d ← resolve N i names.dropLast
  if (N d).type = .dir then some (d, last) else none

lemma resolve_cons (N : ℕ → Node) (i : ℕ) (name : List ℕ) (names : List (List ℕ)) :
    resolve N i (name :: names) = (lookupIn N i name).bind fun m => resolve N m names :=
  List.foldlM_cons

lemma resolveParent_single (N : ℕ → Node) (i : ℕ) (name : List ℕ) :
    resolveParent N i [name] = if (N i).type = .dir then some (i, name) else none := rfl

lemma resolveParent_cons (N : ℕ → Node) (i : ℕ) (name : List ℕ) {names : List (List ℕ)}
    (hne : names ≠ []) :
    resolveParent N i (name :: names) = (lookupIn N i name).bind
      fun m => resolveParent N m names := by
  obtain ⟨first, rest, rfl⟩ := List.exists_cons_of_ne_nil hne
  unfold resolveParent
  rw [List.getLast?_cons_cons, List.dropLast_cons_of_ne_nil hne, resolve_cons]
  cases hlast : (first :: rest).getLast? with
  | none => exact absurd (List.getLast?_eq_none_iff.mp hlast) hne
  | some last =>
    cases lookupIn N i name with
    | none => rfl
    | some m => rfl

/-! ### The walk finds it -/

variable {N : ℕ → Node} {i i' : ℕ} {parent : Bool} {path name rest : List ℕ}

lemma Elem.canon_eq (h : Elem path name) (hpath : ∀ c ∈ path, c ≠ 0) : canon name = name := by
  have hall : ∀ c ∈ name, decide (c ≠ 0) = true := fun c hc => by simpa using hpath c (h.mem c hc).2
  rw [canon, List.takeWhile_eq_self_iff.mpr hall, List.take_of_length_le h.length]

/-- The entry a name leads to. -/
lemma lookup_eq_some {x : Node} {m : ℕ} (hname : canon name = name) :
    x.lookup name = some m ↔ ∃ j, DESIZE * (j + 1) ≤ x.size ∧ x.Matches name j ∧
      (∀ l < j, ¬x.Matches name l) ∧ (x.entry j).inum = m := by
  have hmatch : ∀ j, ((x.entry j).inum ≠ 0 ∧ canon (x.entry j).name = name) ↔ x.Matches name j :=
    fun j => by
    rw [Node.Matches, namecmp_eq_zero, hname, eq_comm (a := name)]
  have hin : ∀ j, j ∈ List.range (x.size / DESIZE) ↔ DESIZE * (j + 1) ≤ x.size := fun j => by
    rw [List.mem_range, Nat.lt_iff_add_one_le, Nat.le_div_iff_mul_le (by decide), Nat.mul_comm]
  simp only [Node.lookup, Option.map_eq_some_iff, List.find?_range_eq_some, hmatch, hin,
    decide_eq_true_eq, Bool.not_eq_true', decide_eq_false_iff_not]
  exact exists_congr fun j => by tauto

lemma lookupIn_eq_some {m : ℕ} (hname : canon name = name) :
    lookupIn N i name = some m ↔ (N i).type = .dir ∧ ∃ j, DESIZE * (j + 1) ≤ (N i).size ∧
      (N i).Matches name j ∧ (∀ l < j, ¬(N i).Matches name l) ∧ ((N i).entry j).inum = m := by
  unfold lookupIn
  split
  next hdir => rw [lookup_eq_some hname, and_iff_right hdir]
  next hdir => exact ⟨fun h => (Option.some_ne_none m h.symm).elim, fun h => absurd h.1 hdir⟩

/-- One step of the walk. -/
lemma walk_skip (hskip : skipelem path = some (name, rest)) (hname : canon name = name)
    (hparent : ¬(parent = true ∧ rest = [])) :
    Walk N parent i path i' ↔ ∃ m, lookupIn N i name = some m ∧ Walk N parent m rest i' := by
  constructor
  · intro hwalk
    cases hwalk with
    | done hs _ =>
      rw [hskip] at hs
      cases hs
    | stop hs hp _ =>
      rw [hskip] at hs
      cases hs
      exact absurd ⟨hp, rfl⟩ hparent
    | step hs _ hdir hj hmatch hfirst hrest =>
      rw [hskip] at hs
      cases hs
      exact ⟨_, (lookupIn_eq_some hname).mpr ⟨hdir, _, hj, hmatch, hfirst, rfl⟩, hrest⟩
  · rintro ⟨m, hm, hrest⟩
    obtain ⟨hdir, j, hj, hmatch, hfirst, rfl⟩ := (lookupIn_eq_some hname).mp hm
    exact .step hskip hparent hdir hj hmatch hfirst hrest

/-- **The walk along a path** ends where the components lead. -/
lemma walk_iff_resolve (hpath : ∀ c ∈ path, c ≠ 0) :
    Walk N false i path i' ↔ resolve N i (components path) = some i' := by
  induction hn : path.length using Nat.strong_induction_on generalizing path i with
  | _ n ih =>
    cases hskip : skipelem path with
    | none =>
      rw [components_of_skipelem_none hskip]
      refine ⟨fun hwalk => ?_, fun h => ?_⟩
      · cases hwalk with
        | done _ _ => rfl
        | stop hs _ _ | step hs _ _ _ _ _ _ =>
          rw [hskip] at hs
          cases hs
      · cases h
        exact .done hskip rfl
    | some elem =>
      obtain ⟨name, rest⟩ := elem
      obtain ⟨hlen, hsub, helem⟩ := skipelem_some hskip
      have hrest : ∀ m, Walk N false m rest i' ↔ resolve N m (components rest) = some i' := fun m =>
        ih rest.length (by omega) (fun c hc => hpath c (hsub hc)) rfl
      rw [walk_skip hskip (helem.canon_eq hpath) (fun h => Bool.false_ne_true h.1),
        components_of_skipelem hskip, resolve_cons, Option.bind_eq_some_iff]
      simp only [hrest]

/-- What is left of a path does not begin with a slash. -/
lemma components_ne_nil (hskip : skipelem path = some (name, rest)) (hrest : rest ≠ []) :
    components rest ≠ [] := by
  cases hnext : skipelem rest with
  | some elem =>
    obtain ⟨name', rest'⟩ := elem
    rw [components_of_skipelem hnext]
    exact List.cons_ne_nil _ _
  | none =>
    refine absurd ?_ hrest
    unfold skipelem at hskip hnext
    simp only at hskip hnext
    split at hskip
    · cases hskip
    · cases hskip
      split at hnext
      · next hnil => rwa [List.dropWhile_idempotent] at hnil
      · cases hnext

/-- **The walk to the parent**, with the last component. -/
lemma walk_iff_resolveParent (hpath : ∀ c ∈ path, c ≠ 0) :
    Walk N true i path i' ∧ LastElem path name ↔ resolveParent N i (components path)
      = some (i', name) := by
  induction hn : path.length using Nat.strong_induction_on generalizing path i with
  | _ n ih =>
    cases hskip : skipelem path with
    | none =>
      rw [components_of_skipelem_none hskip]
      refine ⟨fun h => ?_, fun h => (Option.some_ne_none _ h.symm).elim⟩
      cases h.2 with
      | last hs | next hs _ =>
        rw [hskip] at hs
        cases hs
    | some elem =>
      obtain ⟨name', rest⟩ := elem
      obtain ⟨hlen, hsub, helem⟩ := skipelem_some hskip
      rw [components_of_skipelem hskip]
      by_cases hrest : rest = []
      · subst hrest
        have hlast : LastElem path name ↔ name = name' := by
          refine ⟨fun h => ?_, fun h => h ▸ .last hskip⟩
          cases h with
          | last hs =>
            rw [hskip] at hs
            cases hs
            rfl
          | next hs hrest =>
            rw [hskip] at hs
            cases hs
            obtain ⟨c, hc⟩ := List.exists_mem_of_ne_nil name hrest.elem.ne
            exact absurd (hrest.elem.mem c hc).2 List.not_mem_nil
        have hwalk : Walk N true i path i' ↔ (N i).type = .dir ∧ i = i' := by
          refine ⟨fun h => ?_, fun h => h.2 ▸ .stop hskip rfl h.1⟩
          cases h with
          | done _ hp => exact absurd hp (by decide)
          | stop _ _ hdir => exact ⟨hdir, rfl⟩
          | step hs hp _ _ _ _ _ =>
            rw [hskip] at hs
            cases hs
            exact absurd ⟨rfl, rfl⟩ hp
        rw [show components [] = [] from rfl, resolveParent_single, hlast, hwalk]
        split
        next hdir => simp [hdir, eq_comm]
        next hdir => simp [hdir]
      · have hih : ∀ m, Walk N true m rest i' ∧ LastElem rest name ↔
            resolveParent N m (components rest) = some (i', name) := fun m =>
          ih rest.length (by omega) (fun c hc => hpath c (hsub hc)) rfl
        rw [walk_skip hskip (helem.canon_eq hpath) (fun h => hrest h.2),
          resolveParent_cons _ _ _ (components_ne_nil hskip hrest), Option.bind_eq_some_iff]
        simp only [← hih]
        have hlast : LastElem path name ↔ LastElem rest name := by
          refine ⟨fun h => ?_, .next hskip⟩
          cases h with
          | last hs =>
            rw [hskip] at hs
            cases hs
            exact absurd rfl hrest
          | next hs h =>
            rw [hskip] at hs
            cases hs
            exact h
        rw [hlast]
        exact ⟨fun ⟨⟨m, hm, hw⟩, hl⟩ => ⟨m, hm, hw, hl⟩, fun ⟨m, hm, hw, hl⟩ => ⟨⟨m, hm, hw⟩, hl⟩⟩

/-! ### The lookups -/

/-- The only reference that is new is the one to `r`. -/
structure OneRef (s s' : Fs) (r : Option Ip) : Prop where
  ref : ∀ k, (s'.inode k).ref = (s.inode k).ref + if r = some k then 1 else 0
  inum : ∀ k, 0 < (s.inode k).ref → (s'.inode k).inum = (s.inode k).inum

/-- Every entry of the inode cache is in use. -/
def CacheFull (e : Stop) (s : Fs) : Prop := e = .igetNoInodes ∧ ∀ k, 0 < (s.inode k).ref

/-- **No entry dangles**: entries, the root and the current directory lead to inodes in use. -/
structure NoDangling (sb : Superblock) (s : Fs) (cwd : Ip) : Prop where
  tidy : Tidy sb (node s)
  root : (node s ROOTINO).type ≠ .free
  cwd : (s.inode cwd).inum < sb.ninodes ∧ (node s (s.inode cwd).inum).type ≠ .free

variable {s t : Fs} {cwd k : Ip}

lemma Midcall.oneRef_none (h : Midcall sb s.inode N [] ∅ t) : OneRef s t none :=
  ⟨fun k => by rw [h.ref k, if_neg (Option.some_ne_none k).symm]; rfl, h.inum⟩

lemma Midcall.oneRef_some (h : Midcall sb s.inode N [(k, i)] ∅ t) : OneRef s t (some k) := by
  refine ⟨fun l => ?_, h.inum⟩
  rw [h.ref l, List.map_singleton, List.count_singleton]
  simp only [beq_iff_eq, Option.some_inj]

section Lookups

variable (hs : Consistent sb s) (hd : NoDangling sb s cwd) (hcwd : 0 < (s.inode cwd).ref)

include hs hd hcwd

/-- A lookup stops only if the inode cache is full. -/
lemma namex_found (path : List ℕ) (parent : Bool) :
    Post (namex sb cwd path parent) s
      (fun r t => SameDisk s t ∧ Found sb s.inode (node s) [] ∅ (fun _ => True) False
        (startOf (s.inode cwd).inum path) path parent r t) CacheFull :=
  (Post.and (namex_quiet hs.kept (fun _ : True => hd.tidy) hcwd hs.start (fun _ => hd.root)
    (fun _ => hd.cwd) path parent)
    (namex_spec (Start.weak hcwd) hs.start path parent)).mono (fun _ _ => id)
    fun _ _ he => he.1.2 trivial

lemma namei_resolves (hpath : ∀ c ∈ path, c ≠ 0) :
    Post (namei sb cwd path) s
      (fun r t => r.map (fun k => (t.inode k).inum)
          = resolve (node s) (startOf (s.inode cwd).inum path) (components path) ∧
        OneRef s t r ∧ SameDisk s t) CacheFull := by
  rw [namei, post_bind]
  refine (namex_found hs hd hcwd path false).imp ?_
  rintro r t ⟨hdisk, hr⟩
  cases hr with
  | absent h hno =>
    refine ⟨Eq.symm ?_, h.oneRef_none, hdisk⟩
    exact Option.eq_none_iff_forall_ne_some.mpr
      fun i' hi' => hno i' ((walk_iff_resolve hpath).mpr hi')
  | present hwalk _ _ h =>
    refine ⟨?_, h.oneRef_some, hdisk⟩
    rw [(walk_iff_resolve hpath).mp hwalk]
    exact congrArg some (h.held _ List.mem_cons_self)

lemma nameiparent_resolves (hpath : ∀ c ∈ path, c ≠ 0) :
    Post (nameiparent sb cwd path) s
      (fun r t => r.map (fun x => ((t.inode x.1).inum, x.2))
          = resolveParent (node s) (startOf (s.inode cwd).inum path) (components path) ∧
        OneRef s t (r.map Prod.fst) ∧ SameDisk s t) CacheFull := by
  refine (namex_found hs hd hcwd path true).imp ?_
  rintro r t ⟨hdisk, hr⟩
  cases hr with
  | absent h hno =>
    refine ⟨Eq.symm ?_, h.oneRef_none, hdisk⟩
    refine Option.eq_none_iff_forall_ne_some.mpr fun ⟨i', name⟩ hx => ?_
    exact hno i' ((walk_iff_resolveParent hpath).mpr hx).1
  | present hwalk _ hlast h =>
    refine ⟨?_, h.oneRef_some, hdisk⟩
    rw [(walk_iff_resolveParent hpath).mp ⟨hwalk, hlast rfl⟩]
    exact congrArg (fun i => some (i, _)) (h.held _ List.mem_cons_self)

end Lookups

/-- **Path resolution**: `namei` and `nameiparent` return what the components of the path lead to,
and the only new reference is to the inode that is returned; they do not return only if a further
inode is needed and the inode cache is full. -/
theorem path_resolution (hs : Consistent sb s) (hd : NoDangling sb s cwd)
    (hcwd : 0 < (s.inode cwd).ref) (hpath : ∀ c ∈ path, c ≠ 0) (name : List ℕ) :
    Post (nameiBuf sb cwd path name) s
      (fun r t => r.map (fun k => (t.inode k).inum)
          = resolve (node s) (startOf (s.inode cwd).inum path) (components path) ∧
        OneRef s t r ∧ SameDisk s t) CacheFull ∧
    Post (nameiparentBuf sb cwd path name) s
      (fun r t => r.map (fun x => ((t.inode x.1).inum, canon x.2))
          = resolveParent (node s) (startOf (s.inode cwd).inum path) (components path) ∧
        OneRef s t (r.map Prod.fst) ∧ SameDisk s t) CacheFull := by
  refine ⟨?_, ?_⟩
  · rw [nameiBuf_eq hpath]
    exact namei_resolves hs hd hcwd hpath
  · have hpost := nameiparent_resolves hs hd hcwd hpath
    rw [← nameiparentBuf_eq hpath cwd name, post_map] at hpost
    refine hpost.imp fun r t hr => ?_
    cases r with
    | none => exact hr
    | some x => exact hr

lemma noDangling_bootFs :
    NoDangling smallDisk bootFs firstIp := ⟨consistent_bootFs.2, by decide, by decide⟩

/-- `namei("//./")` and `nameiparent("//./")` -/
theorem path_resolution_dot :
    (∃ t, nameiBuf smallDisk firstIp [47, 47, 46, 47] [] bootFs = .ok (some firstIp) t ∧
      OneRef bootFs t (some firstIp)) ∧
    ∃ t, nameiparentBuf smallDisk firstIp [47, 47, 46, 47] [] bootFs
      = .ok (some (firstIp, [46, 0])) t ∧ OneRef bootFs t (some firstIp) := by
  have hpath : ∀ c ∈ ([47, 47, 46, 47] : List ℕ), c ≠ 0 := by decide
  have hpost := path_resolution consistent_bootFs.1 noDangling_bootFs (by decide) hpath []
  obtain ⟨⟨t, ht⟩, t', ht'⟩ :
      (∃ t, nameiBuf smallDisk firstIp [47, 47, 46, 47] [] bootFs = .ok (some firstIp) t) ∧
        ∃ t, nameiparentBuf smallDisk firstIp [47, 47, 46, 47] [] bootFs
          = .ok (some (firstIp, [46, 0])) t := by
    decide +kernel
  rw [Post, Post, ht, ht'] at hpost
  exact ⟨⟨t, ht, hpost.1.2.1⟩, t', ht', hpost.2.2.1⟩

/-! ### A full cache -/

/-- A disk with 64 inodes. -/
def manyInodes : Superblock where
  size := 40
  ninodes := 64
  inodestart := 2
  bmapstart := 11
  size_lt := by decide
  inodes := by decide
  room := by decide
  ninodes_le := by decide
  root := by decide

/-- The root directory has one file `x`, which is not in the cache; the cache has the root
directory, and 49 files that are open and have been unlinked. -/
def crowdedFs : Fs where
  dinode := fun i =>
    if i = ROOTINO then
      { Dinode.fresh .dir with
        nlink := 1, size := 512, addrs := fun q => if q.val = 0 then manyInodes.nmeta else 0 }
    else if i < 51 then .fresh (if i = 0 then .free else .file)
    else if i = 51 then { Dinode.fresh .file with nlink := 1 }
    else .fresh .free
  bitmap := firstUsed (manyInodes.nmeta + 1)
  data := Function.update (fun _ _ => 0) manyInodes.nmeta fun o =>
    (Dirent.toBytes ⟨ROOTINO, strncpy dot DIRSIZ⟩ ++ Dirent.toBytes
      ⟨ROOTINO, strncpy dotdot DIRSIZ⟩ ++ Dirent.toBytes ⟨51, strncpy [120] DIRSIZ⟩).getD o 0
  inode := fun k => { inum := k.val + 1, ref := 1 }

lemma sound_crowdedFs : Sound manyInodes crowdedFs.dinode crowdedFs.bitmap crowdedFs.data := by
  refine .oneEach [ROOTINO] (List.nodup_singleton _) (by decide) (by decide +kernel) fun i hi => ?_
  simp only [crowdedFs, if_neg fun h => hi (List.mem_singleton.mpr h)]
  split
  · exact ⟨rfl, fun _ => rfl⟩
  · split
    · exact ⟨rfl, fun _ => rfl⟩
    · exact ⟨rfl, fun _ => rfl⟩

lemma consistent_crowdedFs :
    Consistent manyInodes crowdedFs ∧ Tidy manyInodes (node crowdedFs) := by
  refine consistent_of_checked (List.range 52) ⟨⟨sound_crowdedFs,
    fun j k _ _ hjk => Fin.ext (Nat.succ_injective hjk), fun _ _ hv => absurd hv Bool.false_ne_true,
    fun _ hl => absurd hl Bool.false_ne_true, rfl⟩,
      fun _ => rfl⟩ (fun i hi => ?_) (by decide +kernel)
  rw [List.mem_range, not_lt] at hi
  simp only [crowdedFs]
  rw [if_neg (by simp only [ROOTINO]; omega), if_neg (by omega), if_neg (by omega)]
  rfl

lemma noDangling_crowdedFs : NoDangling manyInodes crowdedFs firstIp :=
  ⟨consistent_crowdedFs.2, by decide, by decide⟩

/-- `namei("/x")` panics, though there is a file `/x`. -/
theorem path_resolution_full :
    Consistent manyInodes crowdedFs ∧ NoDangling manyInodes crowdedFs firstIp ∧
    resolve (node crowdedFs) ROOTINO (components [47, 120]) = some 51 ∧
    ∃ t, nameiBuf manyInodes firstIp [47, 120] [] crowdedFs = .error .igetNoInodes t :=
  ⟨consistent_crowdedFs.1, noDangling_crowdedFs, by decide +kernel⟩

end Xv6.Files
