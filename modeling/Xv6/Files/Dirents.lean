import Mathlib.Data.List.TakeWhile
import Xv6.Files.Lookup

/-!
The entries of a directory (`dirlink`).

* `canon`: the characters of a name that count; `namecmp_eq_zero`: two names are equal if these
  are.
* `Node.put`: a directory with an entry written to it, with what its entries are then.
* `dirlink_spec`: `dirlink` writes an entry where there is none, if the name is not present.
-/

namespace Xv6.Files

open Xv6.Fs Transition

/-! ### Names -/

/-- The characters of a name up to the NUL, as many as an entry has room for. -/
def canon (name : List ℕ) : List ℕ := (name.takeWhile (· ≠ 0)).take DIRSIZ

lemma strncmp_eq_zero (p q : List ℕ) (n : ℕ) :
    strncmp p q n = 0 ↔ (p.takeWhile (· ≠ 0)).take n = (q.takeWhile (· ≠ 0)).take n := by
  induction n generalizing p q with
  | zero => simp [strncmp]
  | succ n ih =>
    rw [strncmp]
    cases p with
    | nil =>
      cases q with
      | nil => simp
      | cons y q =>
        by_cases hy : y = 0
        · simp [hy]
        · simp [hy]
    | cons x p =>
      by_cases hx : x = 0
      · cases q with
        | nil => simp [hx]
        | cons y q =>
          by_cases hy : y = 0
          · simp [hx, hy]
          · simp [hx, hy]
      · cases q with
        | nil => simp [hx]
        | cons y q =>
          by_cases hxy : x = y
          · subst hxy
            simp [hx, ih]
          · have hne : (x : ℤ) - y ≠ 0 := by omega
            by_cases hy : y = 0
            · simp [hx, hy]
            · simp [hx, hy, hxy, hne]

lemma namecmp_eq_zero {s t : List ℕ} : namecmp s t = 0 ↔ canon s = canon t := strncmp_eq_zero ..

lemma strncpy_length (t : List ℕ) (n : ℕ) : (strncpy t n).length = n := by
  simp only [strncpy, List.length_append, List.length_take, List.length_replicate]
  omega

lemma canon_mem {name : List ℕ} : ∀ c ∈ canon name, decide (c ≠ 0) = true := fun _ hc =>
  List.mem_takeWhile_imp (p := fun c : ℕ => decide (c ≠ 0)) (List.mem_of_mem_take hc)

lemma canon_canon (name : List ℕ) : canon (canon name) = canon name := by
  conv_lhs => rw [canon, List.takeWhile_eq_self_iff.mpr canon_mem]
  exact List.take_of_length_le (List.length_take_le ..)

/-- A name is read back as it was written. -/
lemma canon_strncpy (name : List ℕ) : canon (strncpy name DIRSIZ) = canon name := by
  change ((canon name ++
    List.replicate (DIRSIZ - (canon name).length) 0).takeWhile (· ≠ 0)).take DIRSIZ = _
  have hzero : (List.replicate (DIRSIZ - (canon name).length) 0).takeWhile
      (fun c : ℕ => decide (c ≠ 0)) = [] := by
    cases DIRSIZ - (canon name).length <;> simp [List.replicate_succ]
  rw [List.takeWhile_append_of_pos canon_mem, hzero, List.append_nil, List.take_of_length_le]
  exact List.length_take_le ..

/-! ### Entries -/

variable {de : Dirent}

namespace Node

/-- The directory with an entry written to it. -/
def put (x : Node) (j : ℕ) (de : Dirent) : Node :=
  { x with
    size := max x.size (DESIZE * (j + 1))
    byte := fun o => if DESIZE * j ≤ o ∧
      o < DESIZE * (j + 1) then de.toBytes.getD (o - DESIZE * j) 0 else x.byte o }

@[simp] lemma put_type (x : Node) (j : ℕ) (de : Dirent) : (x.put j de).type = x.type := rfl
@[simp] lemma put_nlink (x : Node) (j : ℕ) (de : Dirent) : (x.put j de).nlink = x.nlink := rfl
@[simp] lemma put_size (x : Node) (j : ℕ) (de : Dirent) :
    (x.put j de).size = max x.size (DESIZE * (j + 1)) := rfl

lemma toBytes_length (h : de.name.length = DIRSIZ) : de.toBytes.length = DESIZE := by
  simp only [Dirent.toBytes, List.length_append, h, List.length_cons, List.length_nil]

lemma write_eq_put {x y : Node} {j : ℕ} (hname : de.name.length = DIRSIZ)
    (h : x.write de.toBytes (DESIZE * j) = some y) : y = x.put j de := by
  unfold write at h
  split at h
  · cases h
  · cases h
    rw [toBytes_length hname]
    rfl

/-- An entry is read back as it was written. -/
lemma ofBytes_toBytes (hinum : de.inum < 2 ^ 16) : Dirent.ofBytes de.toBytes = de := by
  cases de with
  | mk inum name =>
    simp only [Dirent.ofBytes, Dirent.toBytes, List.cons_append, List.nil_append,
      List.getD_cons_zero, List.getD_cons_succ, List.drop_succ_cons, List.drop_zero,
      Dirent.mk.injEq, and_true]
    simp only at hinum
    omega

/-- The entry that has been written. -/
lemma entry_put_self (x : Node) (j : ℕ) (hname : de.name.length = DIRSIZ)
    (hinum : de.inum < 2 ^ 16) : (x.put j de).entry j = de := by
  have hbytes : (List.range DESIZE).map (fun o => (x.put j de).byte (DESIZE * j + o))
      = de.toBytes := by
    refine List.ext_getElem (by rw [List.length_map, List.length_range, toBytes_length hname])
      fun o ho ho' => ?_
    rw [toBytes_length hname] at ho'
    rw [List.getElem_map, List.getElem_range, put]
    simp only
    rw [if_pos ⟨Nat.le_add_right .., by rw [Nat.mul_succ]; omega⟩, Nat.add_sub_cancel_left,
      List.getD_eq_getElem]
  rw [entry, hbytes, ofBytes_toBytes hinum]

/-- The other entries. -/
lemma entry_put_of_ne {j l : ℕ} (x : Node) (de : Dirent) (h : l ≠ j) :
    (x.put j de).entry l = x.entry l := by
  unfold entry
  congr 1
  refine List.map_congr_left fun o ho => ?_
  have ho' := List.mem_range.mp ho
  refine if_neg ?_
  rintro ⟨h₁, h₂⟩
  simp only [DESIZE, DIRSIZ] at *
  omega

end Node

/-- The entries that name an inode, other than `.`, by directory and position. -/
def links (N : ℕ → Node) (i : ℕ) : Set (ℕ × ℕ) :=
  {x | (N x.1).type = .dir ∧ DESIZE * (x.2 + 1) ≤ (N x.1).size ∧ ((N x.1).entry x.2).inum = i ∧
    canon ((N x.1).entry x.2).name ≠ dot}

variable {sb : Superblock} {t : Fs} {B : Ip → Inode} {N : ℕ → Node} {H : List (Ip × ℕ)} {L : Set Ip}
  {d : ℕ} {dp : Ip} {good : Prop}

/-! ### New entries -/

/-- Where `dirlink` puts an entry: over the first one that is not in use, or at the end. -/
def Node.Vacant (x : Node) (j : ℕ) : Prop :=
  (∀ l < j, (x.entry l).inum ≠ 0) ∧
    (DESIZE * (j + 1) ≤ x.size ∧ (x.entry j).inum = 0 ∨ x.size = DESIZE * j)

lemma emptyLoop_spec (h : Midcall sb B N H L t) (hk : (dp, d) ∈ H) (hL : dp ∈ L)
    (hdir : (N d).type = .dir) {fuel j : ℕ} (hfuel : (N d).size ≤ DESIZE * j + fuel)
    (hused : ∀ l < j, ((N d).entry l).inum ≠ 0) (hj : DESIZE * j ≤ (N d).size) :
    Post (emptyLoop sb dp fuel (DESIZE * j)) t
      (fun off t' => t' = t ∧ ∃ l, off = DESIZE * l ∧ (N d).Vacant l) (Err good) := by
  have hsize : (t.inode dp).din.size = (N d).size := by rw [node_eq h hk hL]
  induction fuel generalizing j with
  | zero => exact ⟨rfl, j, rfl, hused, .inr (by omega)⟩
  | succ fuel ih =>
    rw [emptyLoop, post_bind, post_inode, hsize, post_ite]
    refine ⟨fun hlt => ?_, fun hge => ⟨rfl, j, rfl, hused, .inr (by omega)⟩⟩
    refine (readDirent_spec h hk hL hdir j (by decide) (by decide)).seq fun de t' hde => ?_
    obtain ⟨rfl, hle, rfl⟩ := hde
    rw [post_ite]
    refine ⟨fun hzero => ⟨rfl, j, rfl, hused, .inl ⟨hle, hzero⟩⟩, fun hne => ?_⟩
    have hpos : 0 < DESIZE := by decide
    refine ih (j := j + 1) (by rw [Nat.mul_succ]; omega) (fun l hl => ?_) hle
    rcases Nat.lt_succ_iff_lt_or_eq.mp hl with hl | rfl
    · exact hused l hl
    · exact hne

/-- The files with an entry written to a directory. -/
def putEntry (N : ℕ → Node) (d j i : ℕ) (name : List ℕ) : ℕ → Node :=
  Function.update N d ((N d).put j ⟨i, strncpy name DIRSIZ⟩)

/-- The place `j` of a directory is free for a new entry with the name. -/
structure NewEntry (x : Node) (j : ℕ) (name : List ℕ) : Prop where
  dir : x.type = .dir
  absent : ∀ l, DESIZE * l < x.size → ¬x.Matches name l
  vacant : x.Vacant j
  room : DESIZE * (j + 1) ≤ MAXFILE * BSIZE

/-- **`dirlink`** in a locked directory. -/
lemma dirlink_spec (h : Midcall sb B N H L t) (hk : (dp, d) ∈ H) (hL : dp ∈ L) (name : List ℕ)
    (inum : ℕ) :
    Post (dirlink sb dp name inum) t
      (fun r t' => r = false ∧ Midcall sb B N H L t' ∨
        r = true ∧ ∃ j, NewEntry (N d) j name ∧ Midcall sb B (putEntry N d j inum name) H L t')
          (Err good) := by
  refine (dirlookup_spec h hk hL name).seq ?_
  rintro r t₁ ⟨hdir, hlook⟩
  cases hlook with
  | present hj hname _ h₁ =>
    exact (iput_spec h₁).seq fun _ t' ht' => .inl ⟨rfl, ht'.1⟩
  | absent h₁ hno =>
    have hsize : (t₁.inode dp).din.size = (N d).size := by rw [node_eq h₁ hk hL]
    rw [post_bind, post_inode, hsize]
    refine (emptyLoop_spec (j := 0) h₁ hk hL hdir (by omega)
      (fun _ hl => absurd hl (Nat.not_lt_zero _)) (Nat.zero_le _)).seq ?_
    rintro off t₂ ⟨rfl, j, rfl, hvacant⟩
    have hlen : (strncpy name DIRSIZ).length = DIRSIZ := strncpy_length ..
    refine (writei_spec h₁ hk hL _ _).seq fun r t' hr => ?_
    cases hr with
    | dev htype _ =>
      rw [hdir] at htype
      cases htype
    | range _ h₂ => exact .of_ne h₂.wf.through (by decide) (by decide)
    | done hwrite h₂ =>
      rw [post_ite]
      refine ⟨fun _ => .inr ⟨rfl, j, ⟨hdir, hno, hvacant, ?_⟩, ?_⟩,
        fun _ => .of_ne h₂.wf.through (by decide) (by decide)⟩
      · unfold Node.write at hwrite
        split at hwrite
        · cases hwrite
        · next hrange =>
          rw [Node.toBytes_length (by exact hlen)] at hrange
          rw [Nat.mul_succ]
          omega
      · rw [putEntry, ← Node.write_eq_put (by exact hlen) hwrite]
        exact h₂

end Xv6.Files
