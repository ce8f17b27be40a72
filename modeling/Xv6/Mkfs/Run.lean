import Xv6.Files.Dirents
import Xv6.Mkfs.Made

/-!
A run of `mkfs`.

* `nodesWith`: the files of an image by the entries of the root directory and the contents.
* `addEntry_spec`, `addFile_spec`: an entry, and a file, is added.
* `main_spec`: the image in the end is that of the files, with the size of the root directory
  rounded up and the blocks before `freeblock` marked.
* `main_freeblock`: how many blocks are taken at most.
-/

namespace Xv6.Mkfs

open Xv6.Files Transition Function
open Xv6.Fs hiding word

/-! ### The files -/

def dirBytes (es : List Dirent) : List ℕ := es.flatMap Dirent.toBytes

/-- The files of an image with the entries `es` in the root directory and files with the contents
`cs`. -/
def nodesWith (es : List Dirent) (cs : List (List ℕ)) : ℕ → Node
  | 0 => .free
  | 1 => fileWith .dir (dirBytes es)
  | i + 2 => cs[i]?.elim .free (fileWith .file)

/-- The entries that `mkfs` makes in the root directory. -/
def rootEntries (files : List Input) : List Dirent :=
  ⟨ROOTINO, strncpy dot DIRSIZ⟩ :: ⟨ROOTINO, strncpy dotdot DIRSIZ⟩ ::
    files.zipIdx.map fun x => ⟨x.2 + 2, strncpy x.1.name DIRSIZ⟩

def nodesOf (files : List Input) : ℕ → Node :=
  nodesWith (rootEntries files) (files.map Input.contents)

section Nodes

variable {es : List Dirent} {cs : List (List ℕ)}

lemma nodesWith_root (es' : List Dirent) :
    update (nodesWith es cs) ROOTINO (fileWith .dir (dirBytes es')) = nodesWith es' cs := by
  funext i
  match i with
  | 0 => rfl
  | 1 => rfl
  | i + 2 => rfl

lemma nodesWith_file (c c' : List ℕ) :
    update (nodesWith es (cs ++ [c])) (cs.length + 2) (fileWith .file c')
      = nodesWith es (cs ++ [c']) := by
  funext i
  match i with
  | 0 => rfl
  | 1 => rfl
  | i + 2 =>
    by_cases hi : i = cs.length
    · subst hi
      rw [update_self]
      simp [nodesWith]
    · rw [update_of_ne (by omega)]
      simp only [nodesWith]
      by_cases hlt : i < cs.length
      · rw [List.getElem?_append_left hlt, List.getElem?_append_left hlt]
      · rw [List.getElem?_eq_none (by simp; omega), List.getElem?_eq_none (by simp; omega)]

lemma nodesWith_new :
    update (nodesWith es cs) (cs.length + 2) (fileWith .file []) = nodesWith es (cs ++ [[]]) := by
  rw [← nodesWith_file []]
  funext i
  by_cases hi : i = cs.length + 2
  · rw [hi, update_self, update_self]
  · rw [update_of_ne hi, update_of_ne hi]
    match i with
    | 0 => rfl
    | 1 => rfl
    | i + 2 =>
      simp only [nodesWith]
      by_cases hlt : i < cs.length
      · rw [List.getElem?_append_left hlt]
      · rw [List.getElem?_eq_none (by omega), List.getElem?_eq_none (by simp; omega)]

lemma nodesWith_self (c : List ℕ) :
    nodesWith es (cs ++ [c]) (cs.length + 2) = fileWith .file c := by
  simp [nodesWith]

lemma dirBytes_length (h : ∀ e ∈ es, e.name.length = DIRSIZ) :
    (dirBytes es).length = DESIZE * es.length := by
  induction es with
  | nil => rfl
  | cons e es ih =>
    have hcons : dirBytes (e :: es) = e.toBytes ++ dirBytes es := List.flatMap_cons
    rw [hcons, List.length_append, ih fun x hx => h x (List.mem_cons_of_mem e hx),
      Node.toBytes_length (h e List.mem_cons_self), List.length_cons, Nat.mul_succ, Nat.add_comm]

end Nodes

variable {files : List Input}

/-- The names have the length they have in an entry. -/
lemma rootEntries_name : ∀ e ∈ rootEntries files, e.name.length = DIRSIZ := by
  intro e he
  simp only [rootEntries, List.mem_cons, List.mem_map] at he
  obtain rfl | rfl | ⟨x, -, rfl⟩ := he
  · exact strncpy_length ..
  · exact strncpy_length ..
  · exact strncpy_length ..

lemma rootEntries_length (files : List Input) : (rootEntries files).length = files.length + 2 := by
  simp [rootEntries]

lemma rootEntries_append (files : List Input) (f : Input) :
    rootEntries (files ++ [f])
      = rootEntries files ++ [⟨files.length + 2, strncpy f.name DIRSIZ⟩] := by
  simp [rootEntries, List.zipIdx_append]

/-! ### The steps -/

variable {m : Host} {es : List Dirent} {cs : List (List ℕ)}

lemma addEntry_spec (h : Made m (nodesWith es cs)) (hname : ∀ e ∈ es, e.name.length = DIRSIZ)
    (hes : es.length < NINODES) {inum : ℕ} (hinum : inum < 2 ^ 16) (name : List ℕ) :
    Post (addEntry ROOTINO inum name) m
      (fun _ m' => Made m' (nodesWith (es ++ [⟨inum, strncpy name DIRSIZ⟩]) cs) ∧
        m'.freeinode = m.freeinode) Full := by
  have hlen := dirBytes_length hname
  have hentry : (Dirent.toBytes ⟨inum, strncpy name DIRSIZ⟩).length = DESIZE :=
    Node.toBytes_length (strncpy_length ..)
  have hmax : (dirBytes es).length + (Dirent.toBytes ⟨inum, strncpy name DIRSIZ⟩).length
      ≤ MAXFILE * BSIZE := by
    have hes' : es.length < 200 := hes
    rw [hlen, hentry]
    simp only [DESIZE, DIRSIZ, MAXFILE, NDIRECT, NINDIRECT, BSIZE]
    omega
  rw [addEntry, xshort_eq hinum]
  refine (iappend_spec h (i := ROOTINO) InodeType.noConfusion (fileWith_write hmax)).imp
    fun _ m' hm' => ?_
  have happ : dirBytes es ++ Dirent.toBytes ⟨inum, strncpy name DIRSIZ⟩
      = dirBytes (es ++ [⟨inum, strncpy name DIRSIZ⟩]) := by
    simp [dirBytes]
  rw [happ, nodesWith_root] at hm'
  exact hm'

/-- The loop that copies a file. -/
lemma reads_spec {reads : List (List ℕ)} (h : Made m (nodesWith es (cs ++ [[]])))
    (hmax : reads.flatten.length ≤ MAXFILE * BSIZE) :
    Post (reads.forM (iappend (cs.length + 2))) m
      (fun _ m' => Made m' (nodesWith es (cs ++ [reads.flatten])) ∧ m'.freeinode = m.freeinode)
      Full := by
  refine (Post.forM
    (I := fun rest m' => ∃ c, c ++ rest.flatten = reads.flatten ∧
      Made m' (nodesWith es (cs ++ [c])) ∧ m'.freeinode = m.freeinode) ⟨[], rfl, h, rfl⟩ ?_).imp ?_
  · rintro p rest m₁ ⟨c, hc, hm₁, hfree⟩
    have hlen : c.length + p.length ≤ MAXFILE * BSIZE := by
      refine le_trans ?_ hmax
      rw [← hc, List.flatten_cons, List.length_append, List.length_append]
      omega
    have hself : nodesWith es (cs ++ [c]) (cs.length + 2) = fileWith .file c := nodesWith_self c
    have hwrite : (fileWith .file c).write p c.length = some (fileWith .file (c ++ p)) :=
      fileWith_write hlen
    refine (iappend_spec hm₁ (i := cs.length + 2) (x := fileWith .file (c ++ p)) ?_ ?_).imp
      fun _ m' hm' => ⟨c ++ p, ?_, ?_, hm'.2.trans hfree⟩
    · rw [hself]
      exact InodeType.noConfusion
    · rw [hself]
      exact hwrite
    · rw [← hc, List.flatten_cons, List.append_assoc]
    · rw [← nodesWith_file c]
      exact hm'.1
  · rintro _ m' ⟨c, hc, hm', hfree⟩
    rw [List.flatten_nil, List.append_nil] at hc
    exact ⟨hc ▸ hm', hfree⟩

/-- How `mkfs` stops early: the image is full, or a name has a `/`. -/
def Stops (files : List Input) (e : Exit) (m : Host) : Prop :=
  Full e m ∨ e = .index ∧ ∃ f ∈ files, slash ∈ f.shortname

/-- A file is added. -/
lemma addFile_spec {done : List Input} {f : Input} (hf : f ∈ files)
    (h : Made m (nodesOf done)) (hfree : m.freeinode = done.length + 2)
    (hroom : done.length + 2 < NINODES) (hmax : f.contents.length ≤ MAXFILE * BSIZE) :
    Post (addFile ROOTINO f) m
      (fun _ m' => Made m' (nodesOf (done ++ [f])) ∧ m'.freeinode = (done ++ [f]).length + 2)
      (Stops files) := by
  rw [addFile, post_ite]
  refine ⟨fun hslash => .inr ⟨rfl, f, hf, hslash⟩, fun _ => ?_⟩
  have hcs : (done.map Input.contents).length = done.length := List.length_map ..
  have hes : (rootEntries done).length < NINODES := by rwa [rootEntries_length]
  have hbits : done.length + 2 < 2 ^ 16 := hroom.trans (by decide)
  rw [post_bind]
  refine (ialloc_spec h (by rwa [hfree]) (.inr rfl)).imp ?_
  rintro i m₁ ⟨rfl, hfree₁, hm₁⟩
  rw [hfree] at hfree₁ hm₁ ⊢
  rw [← hcs, nodesOf] at hm₁
  replace hm₁ : Made m₁ (nodesWith (rootEntries done) (done.map Input.contents ++ [[]])) :=
    nodesWith_new ▸ hm₁
  rw [post_bind]
  refine (addEntry_spec hm₁ rootEntries_name hes hbits f.name).mono ?_ fun _ _ => .inl
  rintro _ m₂ ⟨hm₂, hfree₂⟩
  have hreads := reads_spec hm₂ hmax
  rw [hcs] at hreads
  refine hreads.mono ?_ fun _ _ => .inl
  rintro _ m₃ ⟨hm₃, hfree₃⟩
  refine ⟨?_, ?_⟩
  · rw [nodesOf, rootEntries_append, List.map_append]
    exact hm₃
  · rw [hfree₃, hfree₂, hfree₁, List.length_append, List.length_singleton]

/-! ### The whole run -/

/-- All blocks are written with zeroes. -/
lemma zero_spec (n : ℕ) {E : Exit → Host → Prop} :
    Post (zeroLoop n) { freeblock := nmeta }
      (fun _ m => m = { sectors := n, freeblock := nmeta }) E := by
  unfold zeroLoop
  refine (Post.forM
    (I := fun rest m => ∃ k ≤ n, rest = List.range' k (n - k) ∧
      m = { sectors := k, freeblock := nmeta })
    ⟨0, Nat.zero_le n, List.range_eq_range', rfl⟩ ?_).imp ?_
  · rintro i rest m ⟨k, hk, hrest, rfl⟩
    obtain ⟨l, hl⟩ : ∃ l, n - k = l + 1 := by
      refine Nat.exists_eq_succ_of_ne_zero fun hzero => ?_
      rw [hzero] at hrest
      cases hrest
    rw [hl, List.range'_succ] at hrest
    obtain ⟨rfl, rfl⟩ := List.cons.inj hrest
    refine ⟨i + 1, by omega, by rw [show n - (i + 1) = l by omega], ?_⟩
    simp only [update_eq_self, max_eq_right (Nat.le_succ i)]
  · rintro _ m ⟨k, hk, hrest, rfl⟩
    have hlen := congrArg List.length hrest
    rw [List.length_nil, List.length_range'] at hlen
    rw [show k = n by omega]

lemma post_zero (n : ℕ) {Q : PUnit → Host → Prop} {E : Exit → Host → Prop} :
    Post (zeroLoop n) { freeblock := nmeta } Q E ↔
      Q () { sectors := n, freeblock := nmeta } := by
  obtain ⟨_, _, hres, rfl⟩ := (zero_spec n (E := fun _ _ => False)).total fun _ _ => id
  exact Post.ok_iff hres

lemma getDinode_zero (q : ℕ) : getDinode (fun _ => 0) q = {} := by
  simp only [getDinode, word, Nat.mul_zero, Nat.add_zero, Nat.zero_mod, Nat.zero_div]

/-- The image before the first inode is made. -/
lemma made_empty : Made
    { disk := update (fun _ _ => 0) 1 sb.toBytes, sectors := FSSIZE, freeblock := nmeta }
    fun _ => .free := by
  have hblock : ∀ i < NINODES,
      update (fun _ _ => 0) 1 sb.toBytes (iblock i) = (fun _ => 0 : Bytes) := by
    intro i hi
    refine update_of_ne ?_ ..
    have := (iblock_lt hi).1
    omega
  have hdin : ∀ i, (dinodes (update (fun _ _ => 0) 1 sb.toBytes) i).type = .free ∧
      (dinodes (update (fun _ _ => 0) 1 sb.toBytes) i).size = 0 ∧
      ∀ p, (dinodes (update (fun _ _ => 0) 1 sb.toBytes) i).addrs p = 0 := by
    intro i
    by_cases hi : i < NINODES
    · rw [dinodes_of_lt hi, hblock i hi, getDinode_zero]
      exact ⟨rfl, rfl, fun _ => rfl⟩
    · rw [dinodes_of_le (not_lt.mp hi)]
      exact ⟨rfl, rfl, fun _ => rfl⟩
  refine ⟨rfl, le_rfl, by decide, fun b hb => ?_, ?_, fun i hi => ?_, ?_, fun i => ?_,
    fun i hi => absurd rfl hi, fun i hi => absurd rfl hi, fun i hi => absurd rfl hi, fun _ _ => rfl⟩
  · have hb1 : b ≠ 1 := by
      rintro rfl
      exact absurd hb (by decide)
    simp only [update_of_ne hb1]
  · exact update_self (1 : ℕ) sb.toBytes fun _ _ => 0
  · have hzero := hblock i hi
    simp only [hzero, getDinode_zero]
    exact ⟨Nat.two_pow_pos 16, Nat.two_pow_pos 16, Nat.two_pow_pos 16, Nat.two_pow_pos 16,
      Nat.two_pow_pos 32, fun _ => Nat.two_pow_pos 32⟩
  · have hblank : Sound layout (dinodes (update (fun _ _ => 0) 1 sb.toBytes))
        (firstUsed layout.nmeta) (update (fun _ _ => 0) 1 sb.toBytes) :=
      .oneEach [] List.nodup_nil layout.room.le (fun i hi => absurd hi List.not_mem_nil)
        fun i _ => (hdin i).2
    rwa [layout_nmeta] at hblank
  · exact if_pos (hdin i).1

/-- The image in the end: the size of the root directory is that of whole blocks, and the blocks
before `freeblock` are marked. -/
def finish (m : Host) : Host :=
  { m with
    disk := update
      (setRaw m.disk ROOTINO { getDinode (m.disk (iblock ROOTINO)) (ROOTINO % IPB) with
        size := ((getDinode (m.disk (iblock ROOTINO)) (ROOTINO % IPB)).size / BSIZE + 1) * BSIZE })
      sb.bmapstart
      ((List.range m.freeblock).foldl
        (fun buf i => update buf (i / 8) (buf (i / 8) ||| (1 <<< (i % 8)))) fun _ => 0) }

/-- The size of the root directory. -/
lemma rootSize (h : Made m (nodesOf files)) (hlen : files.length < NINODES) :
    (getDinode (m.disk (iblock ROOTINO)) (ROOTINO % IPB)).size = DESIZE * (files.length + 2) ∧
      (getDinode (m.disk (iblock ROOTINO)) (ROOTINO % IPB)).size < 2 ^ 16 := by
  have hroot : (nodesOf files ROOTINO).size = DESIZE * (files.length + 2) :=
    (dirBytes_length rootEntries_name).trans (by rw [rootEntries_length])
  rw [h.node_eq InodeType.noConfusion, dinodes_of_lt (by decide)] at hroot
  have hlen' : files.length < 200 := hlen
  have hsmall : DESIZE * (files.length + 2) < 2 ^ 16 := by
    simp only [DESIZE, DIRSIZ]
    omega
  exact ⟨hroot, hroot.trans_lt hsmall⟩

/-- **`mkfs`** makes the image of the files, unless it is full or a name has a `/`. -/
lemma main_spec (hlen : files.length + 1 < NINODES)
    (hmax : ∀ f ∈ files, f.contents.length ≤ MAXFILE * BSIZE) :
    Post (main files) {} (fun _ m' => ∃ m, Made m (nodesOf files) ∧ m' = finish m)
      (Stops files) := by
  rw [main, post_bind, post_modify, post_bind, post_zero, post_bind, post_wsect, post_bind]
  refine (ialloc_spec made_empty (by decide) (.inl rfl)).imp ?_
  rintro i m ⟨rfl, hfree, hm⟩
  replace hfree : m.freeinode = 2 := hfree
  replace hm : Made m (nodesWith [] []) := by
    have hempty : nodesWith [] [] = update (fun _ => .free) 1 (fileWith (typeOf T_DIR) []) := by
      funext i
      match i with
      | 0 => rfl
      | 1 => rfl
      | i + 2 => rfl
    rw [hempty]
    exact hm
  change Post (if (1 : ℕ) ≠ ROOTINO then throw .rootino else _) m _ _
  rw [if_neg (by decide), post_bind]
  refine (addEntry_spec hm (fun e he => absurd he List.not_mem_nil) (by decide)
    (by decide) dot).mono ?_ fun _ _ => .inl
  rintro _ m₁ ⟨hm₁, hfree₁⟩
  rw [post_bind]
  refine (addEntry_spec hm₁ (fun e he => ?_) (by decide) (by decide) dotdot).mono ?_ fun _ _ => .inl
  · rw [List.mem_singleton.mp he]
    exact strncpy_length ..
  rintro _ m₂ ⟨hm₂, hfree₂⟩
  rw [post_bind]
  refine (Post.forM
    (I := fun rest m' => ∃ done, done ++ rest = files ∧ Made m' (nodesOf done) ∧
      m'.freeinode = done.length + 2) ⟨[], rfl, hm₂, hfree₂.trans (hfree₁.trans hfree)⟩ ?_).imp ?_
  · rintro f rest m₃ ⟨done, hdone, hm₃, hfree₃⟩
    have hmem : f ∈ files := by simp [← hdone]
    have hroom : done.length + 2 < NINODES := by
      refine lt_of_le_of_lt ?_ hlen
      rw [← hdone, List.length_append, List.length_cons]
      omega
    refine (addFile_spec hmem hm₃ hfree₃ hroom (hmax f hmem)).imp fun _ m' hm' => ?_
    exact ⟨done ++ [f], by rw [← hdone, List.append_assoc, List.singleton_append], hm'⟩
  rintro _ m₃ ⟨done, hdone, hm₃, -⟩
  rw [List.append_nil] at hdone
  subst hdone
  have hlt : ROOTINO < NINODES := by decide
  have hsize := rootSize hm₃ (hlen.trans_le' (Nat.le_succ _))
  rw [post_bind, post_rinode hm₃.sectors hlt, post_bind, post_winode hm₃.sectors hlt, post_bind,
    post_get, balloc, post_ite]
  have hused : m₃.freeblock < BSIZE * 8 := hm₃.high.trans_lt (by decide)
  refine ⟨fun _ => ⟨m₃, hm₃, ?_⟩, fun hge => absurd hused hge⟩
  have hsectors : max m₃.sectors (sb.bmapstart + 1) = m₃.sectors := by
    rw [hm₃.sectors]
    rfl
  have hround : ((getDinode (m₃.disk (iblock ROOTINO)) (ROOTINO % IPB)).size / BSIZE + 1) * BSIZE
      < 2 ^ 32 := by
    have := Nat.div_mul_le_self (getDinode (m₃.disk (iblock ROOTINO)) (ROOTINO % IPB)).size BSIZE
    have := hsize.2
    rw [Nat.succ_mul]
    simp only [BSIZE] at *
    omega
  simp only [finish, hsectors, xint_eq (hm₃.sized ROOTINO hlt).size, xint_eq hround]

/-! ### How many blocks are taken -/

/-- The code takes at most `n` blocks. -/
def AtMost {α : Type} (code : MkM α) (n : ℕ) : Prop :=
  ∀ m, Post code m (fun _ m' => m'.freeblock ≤ m.freeblock + n)
    fun _ m' => m'.freeblock ≤ m.freeblock + n

namespace AtMost

variable {α β : Type} {code : MkM α} {next : α → MkM β} {a b : ℕ}

lemma mono (h : AtMost code a) (hab : a ≤ b) : AtMost code b := fun m =>
  (h m).mono (fun _ _ hle => by omega) fun _ _ hle => by omega

lemma pure (x : α) (n : ℕ) : AtMost (Pure.pure x : MkM α) n := fun _ => Nat.le_add_right ..

lemma bind (h : AtMost code a) (hnext : ∀ x, AtMost (next x) b) :
    AtMost (code >>= next) (a + b) := by
  intro m
  refine (h m).bind (fun _ _ hle => by omega) fun x m₁ hle => ?_
  exact (hnext x m₁).mono (fun _ _ hle' => by omega) fun _ _ hle' => by omega

/-- Code that takes no block before the rest. -/
lemma andThen (h : AtMost code 0) (hnext : ∀ x, AtMost (next x) b) : AtMost (code >>= next) b := by
  have hbind := h.bind hnext
  rwa [Nat.zero_add] at hbind

lemma forM {γ : Type} {f : γ → MkM PUnit} {cost : γ → ℕ} (h : ∀ x, AtMost (f x) (cost x))
    (l : List γ) : AtMost (l.forM f) (l.map cost).sum := by
  induction l with
  | nil => exact .pure _ _
  | cons x xs ih => exact (h x).bind fun _ => ih

lemma wsect (sec : ℕ) (buf : Bytes) : AtMost (wsect sec buf) 0 := fun _ => le_rfl

lemma rsect (sec : ℕ) :
    AtMost (rsect sec) 0 := fun _ => post_rsect.mpr ⟨fun _ => le_rfl, fun _ => le_rfl⟩

lemma newBlock : AtMost newBlock 1 := fun _ => le_rfl

lemma winode (inum : ℕ) (ip : RawDinode) :
    AtMost (winode inum ip) 0 := (rsect _).andThen fun _ => wsect _ _

lemma rinode (inum : ℕ) : AtMost (rinode inum) 0 := (rsect _).andThen fun _ => .pure _ _

lemma ialloc (ty : ℕ) : AtMost (ialloc ty) 0 := fun m =>
  ((winode m.freeinode _).andThen fun _ => .pure _ _) { m with freeinode := m.freeinode + 1 }

lemma fillSlot (din : RawDinode) (p : Fin (NDIRECT + 1)) : AtMost (fillSlot din p) 1 := by
  unfold Mkfs.fillSlot
  split
  · exact newBlock.bind fun _ => .pure _ 0
  · exact .pure _ _

lemma blockFor (din : RawDinode) (fbn : ℕ) : AtMost (blockFor din fbn) 2 := by
  unfold Mkfs.blockFor
  split
  · exact ((fillSlot _ _).mono (by omega)).bind fun _ => .pure _ 0
  · refine (fillSlot _ _).bind (b := 1) fun din => (rsect _).andThen fun _ => ?_
    split
    · exact newBlock.bind fun _ => (wsect _ _).andThen fun _ => .pure _ 0
    · exact .pure _ _

/-- The loop of `iappend` takes two blocks in a round. -/
lemma appendLoop (fuel : ℕ) (din : RawDinode) (off : ℕ) (p : List ℕ) :
    AtMost (appendLoop fuel din off p) (2 * rounds off p.length) := by
  induction fuel generalizing din off p with
  | zero => exact .pure _ _
  | succ fuel ih =>
    unfold Mkfs.appendLoop
    split
    · exact .pure _ _
    next hp =>
    split
    · exact fun _ => Nat.le_add_right ..
    · have hrem : off % BSIZE < BSIZE := Nat.mod_lt _ (by norm_num)
      have hn1 : (off / BSIZE + 1) * BSIZE - off = BSIZE - off % BSIZE := by
        have := Nat.div_add_mod' off BSIZE
        rw [Nat.succ_mul]
        omega
      rw [hn1]
      have hround : 2 + 2 * rounds (off + min p.length (BSIZE - off % BSIZE))
          (p.drop (min p.length (BSIZE - off % BSIZE))).length ≤ 2 * rounds off p.length := by
        have := rounds_succ off (Nat.pos_of_ne_zero hp)
        rw [List.length_drop]
        omega
      refine AtMost.mono ((blockFor _ _).bind fun r => ?_) hround
      exact (rsect _).andThen fun _ => (wsect _ _).andThen fun _ => ih _ _ _

/-- The blocks for what is appended, at most. -/
lemma iappend (inum : ℕ) (p : List ℕ) : AtMost (iappend inum p) (2 * (p.length / BSIZE + 2)) := by
  refine (rinode _).andThen fun din => ?_
  refine AtMost.mono ((appendLoop _ _ _ _).bind fun r => winode _ _) ?_
  have hrem : xint din.size % BSIZE < BSIZE := Nat.mod_lt _ (by norm_num)
  unfold rounds
  split
  · omega
  · simp only [BSIZE] at *
    omega

lemma addEntry (rootino inum : ℕ) (name : List ℕ) : AtMost (addEntry rootino inum name) 4 := by
  have hlen : (Dirent.toBytes ⟨xshort inum, strncpy name DIRSIZ⟩).length = DESIZE :=
    Node.toBytes_length (strncpy_length ..)
  have h := iappend rootino (Dirent.toBytes ⟨xshort inum, strncpy name DIRSIZ⟩)
  rwa [hlen] at h

end AtMost

/-- The blocks for a file and its entry, at most. -/
def fileCost (f : Input) : ℕ := 4 + (f.reads.map fun p => 2 * (p.length / BSIZE + 2)).sum

lemma AtMost.addFile (rootino : ℕ) (f : Input) : AtMost (addFile rootino f) (fileCost f) := by
  unfold Mkfs.addFile
  split
  · exact fun _ => Nat.le_add_right ..
  · refine (ialloc _).andThen fun inum => (addEntry _ _ _).bind fun _ => ?_
    exact .forM (iappend inum) f.reads

/-- How many blocks a run takes at most, those before the data area included. -/
lemma main_freeblock (files : List Input) :
    Post (main files) {} (fun _ m' => m'.freeblock ≤ nmeta + (4 + (4 + (files.map fileCost).sum)))
      fun _ m' => m'.freeblock ≤ nmeta + (4 + (4 + (files.map fileCost).sum)) := by
  rw [main, post_bind, post_modify, post_bind, post_zero, post_bind, post_wsect]
  refine (AtMost.ialloc T_DIR).andThen (fun rootino => ?_) _
  split
  · exact fun _ => Nat.le_add_right ..
  · refine (AtMost.addEntry _ _ _).bind fun _ => (AtMost.addEntry _ _ _).bind fun _ => ?_
    refine AtMost.bind (b := 0) (.forM (AtMost.addFile rootino) files) fun _ => ?_
    refine (AtMost.rinode _).andThen fun din => (AtMost.winode _ _).andThen fun _ => fun m => ?_
    rw [post_bind, post_get, balloc, post_ite]
    exact ⟨fun _ => le_rfl, fun _ => le_rfl⟩

end Xv6.Mkfs
