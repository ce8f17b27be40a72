import Xv6.Mkfs.Consistency

/-!
What `mkfs` writes the kernel reads back (`mkfs.c`, `fs.c`).

The root directory may have a hole behind its last entry, so this does not rest on `Wf`: the kernel
reads only the blocks up to the entry that it looks for.

* `iget_new`, `ilock_new`: an inode that is not in the cache is taken and read.
* `readi_mapped`, `lookupLoop_found`: reading, and looking for an entry, in blocks that are there.
* `mkfs_read_back`: every file is found under its name, with its size and its bytes.
-/

namespace Xv6.Mkfs

open Xv6.Files Transition
open Xv6.Fs hiding word

/-! ### The kernel -/

variable {Q : Option (Ip × ℕ) → Fs → Prop} {i : ℕ} {l : ℕ} {off n : ℕ}

section Kernel

variable {sb : Superblock} {s : Fs} {k : Ip} {E : Stop → Fs → Prop}

lemma iget_new (hnone : ∀ k, 0 < (s.inode k).ref → (s.inode k).inum ≠ i)
    (hroom : ∃ k, (s.inode k).ref = 0) :
    Post (iget i) s (fun k s' => (s.inode k).ref = 0 ∧
      s' = s.setInode k { s.inode k with inum := i, ref := 1, valid := false }) E := by
  simp only [iget, post_bind, post_get]
  have hfind : (List.finRange NINODE).find? (fun k => 0 < (s.inode k).ref ∧ (s.inode k).inum = i)
      = none := by
    refine List.find?_eq_none.mpr fun k _ hk => ?_
    obtain ⟨hpos, hinum⟩ := of_decide_eq_true hk
    exact hnone k hpos hinum
  rw [hfind]
  cases hfind' : (List.finRange NINODE).find? fun k => (s.inode k).ref = 0 with
  | none =>
    obtain ⟨k, hk⟩ := hroom
    exact absurd (decide_eq_true hk) (List.find?_eq_none.mp hfind' k (List.mem_finRange k))
  | some k =>
    simp only [post_bind, post_setInode, post_pure]
    exact ⟨by simpa using List.find?_some hfind', trivial⟩

/-- The inode is locked and read. -/
lemma ilock_new (hlock : (s.inode k).lock = false) (hrange : sb.iblock i < sb.bmapstart)
    (htype : (s.dinode i).type ≠ .free) :
    Post (ilock sb k) (s.setInode k { s.inode k with inum := i, ref := 1, valid := false })
      (fun _ s' =>
        s' = s.setInode k { inum := i, ref := 1, lock := true, valid := true, din := s.dinode i })
      E := by
  rw [ilock, post_bind, post_inode, Fs.setInode_inode_self, if_neg (lt_irrefl 1), acquiresleep,
    post_bind, post_bind, post_inode, Fs.setInode_inode_self, hlock, if_neg Bool.false_ne_true,
    post_setInode, post_bind, post_get, Fs.setInode_inode_self, if_neg Bool.false_ne_true,
    if_neg (not_le.mpr hrange), post_bind, post_setInode, Fs.setInode_setInode,
    Fs.setInode_setInode, Fs.setInode_dinode, if_neg htype]
  exact rfl

/-- Reading blocks that are there. -/
lemma readi_mapped (htype : (s.inode k).din.type ≠ .dev) (hoff : off ≤ (s.inode k).din.size)
    (hover : off + n < 2 ^ 32) (hmap : ∀ o, off ≤ o → o < off + n → o < (s.inode k).din.size →
      Mapped sb s.data (s.inode k).din (o / BSIZE)) :
    Post (readi sb k off n) s (fun r s' => s' = s ∧
      r = some ((List.range (min n ((s.inode k).din.size - off))).map fun j =>
        byteAt s.data (s.inode k).din (off + j))) E := by
  have hin : ¬((s.inode k).din.size < off ∨ (off + n) % 2 ^ 32 < off) := by
    rw [Nat.mod_eq_of_lt hover]
    omega
  have hmin : (if (s.inode k).din.size < off + n then (s.inode k).din.size - off else n)
      = min n ((s.inode k).din.size - off) := by
    split <;> omega
  simp only [readi, post_bind, post_inode, if_neg htype, if_neg hin, post_pure, hmin]
  refine (readLoop_mapped le_rfl fun o ho ho' => hmap o ho ?_ ?_).imp ?_
  · omega
  · omega
  · rintro bs s' ⟨rfl, rfl⟩
    exact ⟨rfl, rfl⟩

lemma readDirent_mapped {e : Dirent} {stop : Stop} (htype : (s.inode k).din.type ≠ .dev)
    (hsize : DESIZE * (l + 1) ≤ (s.inode k).din.size) (hover : (s.inode k).din.size < 2 ^ 32)
    (hmap : ∀ o, DESIZE * l ≤ o → o < DESIZE * (l + 1) → Mapped sb s.data (s.inode k).din (o /
      BSIZE)) (he : Dirent.ofBytes ((List.range DESIZE).map fun j => byteAt s.data (s.inode k).din
      (DESIZE * l + j)) = e) :
    Post (readDirent sb k (DESIZE * l) stop) s (fun de s' => s' = s ∧ de = e) E := by
  rw [Nat.mul_succ] at hsize hmap
  rw [readDirent, post_bind]
  refine (readi_mapped htype (by omega) (by omega) fun o ho ho' _ => hmap o ho ho').imp ?_
  rintro r s' ⟨rfl, rfl⟩
  rw [min_eq_left (by omega)]
  simp only [List.length_map, List.length_range, if_true, post_pure]
  exact ⟨trivial, he⟩

/-- The loop of `dirlookup` finds the first entry with the name. -/
lemma lookupLoop_found {e : ℕ → Dirent} {name : List ℕ} {j fuel l : ℕ} (hread : ∀ l ≤ j, Post
      (readDirent sb k (DESIZE * l) .dirlookupRead) s (fun de s' => s' = s ∧ de = e l) E)
    (hsize : DESIZE * (j + 1) ≤ (s.inode k).din.size)
    (hskip : ∀ l < j, namecmp name (e l).name ≠ 0) (hinum : (e j).inum ≠ 0)
    (hname : namecmp name (e j).name = 0) (hl : l ≤ j) (hfuel : j < l + fuel)
    (hfound : Post (iget (e j).inum) s (fun ip s' => Q (some (ip, DESIZE * j)) s') E) :
    Post (lookupLoop sb k name fuel (DESIZE * l)) s Q E := by
  induction fuel generalizing l with
  | zero => omega
  | succ fuel ih =>
    have hlt : DESIZE * l < (s.inode k).din.size := by
      have := Nat.mul_le_mul_left DESIZE hl
      have : 0 < DESIZE := by decide
      rw [Nat.mul_succ] at hsize
      omega
    rw [lookupLoop, post_bind, post_inode, if_pos hlt, post_bind]
    refine (hread l hl).imp ?_
    rintro de s' ⟨rfl, rfl⟩
    by_cases hj : l = j
    · subst hj
      rw [if_neg hinum, if_pos hname, post_bind]
      exact hfound
    · have hnext : Post (lookupLoop sb k name fuel (DESIZE * l + DESIZE)) s' Q E := by
        rw [← Nat.mul_succ]
        exact ih (by omega) (by omega)
      rw [if_neg (hskip l (by omega)), ite_self]
      exact hnext

end Kernel

/-! ### The image -/

variable {m : Host} {files : List Input}

lemma finish_mapped (h : Made m (nodesOf files)) (hlen : files.length < NINODES)
    (hi : (nodesOf files i).type ≠ .free) {bn : ℕ} (hbn : bn * BSIZE < (nodesOf files i).size) :
    Mapped layout (finish m).disk (dinodes (finish m).disk i) bn := by
  have htype := h.type_ne hi
  have hself := locked_inode_self m (Fin.last 49) i
  have hsound := ((h.midcall (Fin.last 49) hi).sound_of_locked rfl).2
  have hne : blockAddr m.disk (dinodes m.disk i) bn ≠ 0 := by
    refine h.sound.full i htype bn ?_
    rwa [h.node_eq hi] at hbn
  have hold : Mapped layout m.disk (dinodes m.disk i) bn := by
    have htype' : ((locked m (Fin.last 49) i).inode (Fin.last 49)).din.type
        ≠ .free := by rwa [hself]
    have hne' : blockAddr m.disk ((locked m (Fin.last 49) i).inode (Fin.last 49)).din bn
        ≠ 0 := by rwa [hself]
    have hmapped := hsound.mapped htype' hne'
    rwa [hself] at hmapped
  have haddr := finish_blockAddr h hlen htype bn
  refine ⟨by rwa [haddr], by rw [haddr]; exact hold.range, fun hge => ?_⟩
  rw [finish_addrs h hlen]
  exact hold.ind hge

/-- The bytes of the files. -/
lemma finish_byte (h : Made m (nodesOf files)) (hlen : files.length < NINODES)
    (hi : (nodesOf files i).type ≠ .free) {o : ℕ} (ho : o < (nodesOf files i).size) :
    byteAt (finish m).disk (dinodes (finish m).disk i) o = (nodesOf files i).byte o := by
  have htype := h.type_ne hi
  have hsize : (nodesOf files i).size = (dinodes m.disk i).size := by rw [h.node_eq hi]
  have hne : blockAddr m.disk (dinodes m.disk i) (o / BSIZE) ≠ 0 := by
    refine h.sound.full i htype _ ((Nat.div_mul_le_self o BSIZE).trans_lt ?_)
    rwa [← hsize]
  rw [finish_byteAt h hlen htype hne, h.node_eq hi]
  exact (if_pos (hsize ▸ ho)).symm

/-- The kernel reads the superblock that `mkfs` wrote. -/
lemma readsb_finish (h : Made m (nodesOf files)) : readsb (finish m).disk = sb := by
  have hone : (finish m).disk 1 = sb.toBytes := by
    rw [finish_of_ne (by decide), setRaw_one (by decide), h.super]
  rw [readsb, hone]
  decide

/-- The entries that the kernel reads. -/
lemma finish_entry (h : Made m (nodesOf files)) (hlen : files.length < NINODES)
    (hl : l < (rootEntries files).length) :
    Dirent.ofBytes ((List.range DESIZE).map fun o =>
      byteAt (finish m).disk (dinodes (finish m).disk ROOTINO) (DESIZE * l + o))
        = (rootEntries files)[l] := by
  have hsize : (nodesOf files ROOTINO).size = DESIZE * (rootEntries files).length :=
    dirBytes_length rootEntries_name
  refine entry_dirBytes
    (x := ⟨.dir, 0, 0, 0, 0, byteAt (finish m).disk (dinodes (finish m).disk ROOTINO)⟩)
    rootEntries_name hl ?_ fun o ho => ?_
  · rw [rootEntries_inum]
    rw [rootEntries_length] at hl
    have hlen' : files.length < 200 := hlen
    omega
  · refine finish_byte h hlen InodeType.noConfusion ?_
    have := Nat.mul_le_mul_left DESIZE (Nat.succ_le_of_lt hl)
    rw [Nat.mul_succ] at this
    omega

/-- Only the entry of the file has its name. -/
lemma rootEntries_first (hnodup : (files.map fun f => canon f.name).Nodup)
    (hdots : ∀ f ∈ files, canon f.name ≠ dot ∧ canon f.name ≠ dotdot) {j l : ℕ}
    (hj : j < files.length) (hl : l < (rootEntries files).length) (hlj : l < j + 2) :
    canon ((rootEntries files)[l]).name ≠ canon (files[j]).name := by
  obtain ⟨hdot, hdotdot⟩ := hdots _ (List.getElem_mem hj)
  match l with
  | 0 =>
    have hname : ((rootEntries files)[0]).name = strncpy dot DIRSIZ := rfl
    rw [hname, canon_strncpy]
    exact fun heq => hdot (heq.symm.trans (by decide))
  | 1 =>
    have hname : ((rootEntries files)[1]).name = strncpy dotdot DIRSIZ := rfl
    rw [hname, canon_strncpy]
    exact fun heq => hdotdot (heq.symm.trans (by decide))
  | l + 2 =>
    rw [rootEntries_canon (by omega)]
    intro heq
    have hl' : l < (files.map fun f => canon f.name).length := by rw [List.length_map]; omega
    have hj' : j < (files.map fun f => canon f.name).length := by rwa [List.length_map]
    have hinj : l = j :=
      (@List.Nodup.getElem_inj_iff _ _ hnodup l hl' j hj').mp (by simpa using heq)
    omega

lemma map_range_drop {c : List ℕ} {f : ℕ → ℕ} (hf : ∀ o < c.length, f o = c.getD o 0) :
    (List.range (min n (c.length - off))).map (fun j => f (off + j)) = (c.drop off).take n := by
  refine List.ext_getElem (by simp) fun i hi hi' => ?_
  have hlt : off + i < c.length := by
    simp only [List.length_map, List.length_range] at hi
    omega
  rw [List.getElem_map, List.getElem_range, List.getElem_take, List.getElem_drop, hf _ hlt,
    List.getD_eq_getElem]

/-! ### Reading a file -/

/-- The file that was found is locked and read. -/
def readFound (off n : ℕ) : Option (Ip × ℕ) → FsM (Option (InodeType × ℕ × Option (List ℕ)))
  | none => return none
  | some (ip, _) => do
    ilock layout ip
    let d := (← inode ip).din
    return some (d.type, d.size, ← readi layout ip off n)

/-- A file is looked up in the root directory and read. -/
def readFile (name : List ℕ) (off n : ℕ) : FsM (Option (InodeType × ℕ × Option (List ℕ))) := do
  let dp ← iget ROOTINO
  ilock layout dp
  readFound off n (← dirlookup layout dp name)

/-- The root directory is locked in the entry `k` of the cache, and no other inode is used. -/
structure RootLocked (disk : ℕ → Bytes) (k : Ip) (s : Fs) : Prop where
  dinode : s.dinode = dinodes disk
  data : s.data = disk
  self : s.inode k
    = { inum := ROOTINO, ref := 1, lock := true, valid := true, din := dinodes disk ROOTINO }
  other : ∀ k' ≠ k, s.inode k' = {}

lemma iblock_range (hi : i < NINODES) : layout.iblock i < layout.bmapstart := by
  rw [layout_iblock, layout_bmapstart]
  exact (iblock_lt hi).2

section Read

variable (h : Made m (nodesOf files)) (hlen : files.length < NINODES)

include h hlen

lemma finish_root_type : (dinodes (finish m).disk ROOTINO).type = .dir := by
  rw [finish_type h hlen, ← nodeOf_type m.disk, h.node]
  rfl

lemma finish_root_size (hl : l ≤ files.length + 2) :
    DESIZE * l ≤ (dinodes (finish m).disk ROOTINO).size ∧
      (dinodes (finish m).disk ROOTINO).size < 2 ^ 32 := by
  have hsize : (dinodes (finish m).disk ROOTINO).size = rounded (DESIZE * (files.length + 2)) := by
    rw [finish_root h hlen]
  have hlen' : files.length < 200 := hlen
  rw [hsize]
  refine ⟨(Nat.mul_le_mul_left DESIZE hl).trans (le_rounded _), ?_⟩
  simp only [rounded, DESIZE, DIRSIZ, BSIZE]
  omega

variable {E : Stop → Fs → Prop}

/-- The kernel locks the root directory. -/
lemma rootLocked_spec {Q : Option (InodeType × ℕ × Option (List ℕ)) → Fs → Prop} {name : List ℕ}
    (hnext : ∀ k s, RootLocked (finish m).disk k s → Post (dirlookup layout k name >>= readFound
      off n) s Q E) : Post (readFile name off n) (mount (finish m).disk) Q E := by
  rw [readFile, post_bind]
  refine (iget_new (fun k hk => absurd hk (lt_irrefl 0)) ⟨Fin.last 49, rfl⟩).imp ?_
  rintro k s ⟨-, rfl⟩
  rw [post_bind]
  refine (ilock_new rfl (iblock_range (by decide)) ?_).imp ?_
  · change (dinodes (finish m).disk ROOTINO).type ≠ .free
    rw [finish_root_type h hlen]
    decide
  rintro _ s rfl
  refine hnext k _ ⟨rfl, rfl, Fs.setInode_inode_self .., fun k' hk' => ?_⟩
  exact Function.update_of_ne hk' ..

variable {k : Ip} {s : Fs} (hs : RootLocked (finish m).disk k s)

include hs

/-- An entry of the root directory is read. -/
lemma readDirent_root (hl : l < files.length + 2) :
    Post (readDirent layout k (DESIZE * l) .dirlookupRead) s
      (fun de s' => s' = s ∧ de = Dirent.ofBytes ((List.range DESIZE).map fun o =>
        byteAt (finish m).disk (dinodes (finish m).disk ROOTINO) (DESIZE * l + o))) E := by
  obtain ⟨hsize, hover⟩ := finish_root_size h hlen (Nat.succ_le_of_lt hl)
  refine readDirent_mapped ?_ ?_ ?_ (fun o _ ho => ?_) ?_
  · rw [hs.self, finish_root_type h hlen]
    decide
  · rwa [hs.self]
  · rwa [hs.self]
  · rw [hs.self, hs.data]
    refine finish_mapped h hlen InodeType.noConfusion ((Nat.div_mul_le_self o BSIZE).trans_lt ?_)
    refine (ho.trans_le (Nat.mul_le_mul_left DESIZE (Nat.succ_le_of_lt hl))).trans_eq ?_
    rw [← rootEntries_length]
    exact (dirBytes_length rootEntries_name).symm
  · rw [hs.self, hs.data]

/-- The name of a file leads to its inode. -/
lemma dirlookup_root (hnodup : (files.map fun f => canon f.name).Nodup)
    (hdots : ∀ f ∈ files, canon f.name ≠ dot ∧ canon f.name ≠ dotdot) {j : ℕ}
    (hj : j < files.length)
    (hfound : Post (iget (j + 2)) s (fun ip s' => Q (some (ip, DESIZE * (j + 2))) s') E) :
    Post (dirlookup layout k (canon (files[j]).name)) s Q E := by
  have hes := rootEntries_length files
  have hentry := finish_entry h hlen (l := j + 2) (by omega)
  obtain ⟨hsize, -⟩ := finish_root_size h hlen (l := j + 2 + 1) (by omega)
  rw [dirlookup, post_bind, post_inode, hs.self, if_neg (by rw [finish_root_type h hlen]; decide)]
  refine lookupLoop_found (j := j + 2) (l := 0)
    (fun l hl => readDirent_root h hlen hs (by omega)) ?_
    (fun l hl => ?_) ?_ ?_ (Nat.zero_le _) ?_ ?_
  · rwa [hs.self]
  · -- The entries before it have other names.
    rw [finish_entry h hlen (by omega), Ne, namecmp_eq_zero, canon_canon]
    exact fun heq => rootEntries_first hnodup hdots hj (by omega) hl heq.symm
  · rw [hentry, rootEntries_inum]
    omega
  · rw [hentry, namecmp_eq_zero, canon_canon, rootEntries_canon hj]
  · simp only [DESIZE, DIRSIZ] at *
    omega
  · rwa [hentry, rootEntries_inum, max_eq_left (by omega)]

/-- The inode has the bytes of the file. -/
lemma readFound_root {j : ℕ} (hj : j < files.length) (hroom : files.length + 1 < NINODES)
    {off n o : ℕ} (hoff : off ≤ (files[j]).contents.length) (hover : off + n < 2 ^ 32) :
    Post (iget (j + 2)) s (fun ip s' => Post (readFound off n (some (ip, o))) s'
      (fun r _ => r = some (.file, (files[j]).contents.length,
        some (((files[j]).contents.drop off).take n))) E) E := by
  have hfile := nodesOf_file hj
  have htype : (nodesOf files (j + 2)).type ≠ .free := by
    rw [hfile]
    exact InodeType.noConfusion
  have hdin := finish_dinode_of_ne h hlen (show j + 2 ≠ ROOTINO by change j + 2 ≠ 1; omega)
  have hN := h.node_eq htype
  rw [hfile] at hN
  have hftype : (dinodes (finish m).disk (j + 2)).type = .file := by
    rw [hdin]
    exact (congrArg Node.type hN).symm
  have hfsize : (dinodes (finish m).disk (j + 2)).size = (files[j]).contents.length := by
    rw [hdin]
    exact (congrArg Node.size hN).symm
  refine (iget_new (fun k' hk' => ?_) ?_).imp ?_
  · by_cases hk : k' = k
    · rw [hk, hs.self]
      change 1 ≠ j + 2
      omega
    · rw [hs.other k' hk] at hk'
      exact absurd hk' (lt_irrefl 0)
  · obtain ⟨k', hk'⟩ := exists_ne k
    exact ⟨k', by rw [hs.other k' hk']⟩
  rintro ip s' ⟨href, rfl⟩
  have hip : ip ≠ k := by
    rintro rfl
    rw [hs.self] at href
    exact absurd href Nat.one_ne_zero
  rw [readFound, post_bind]
  refine (ilock_new (by rw [hs.other ip hip]) (iblock_range (by omega)) ?_).imp ?_
  · rw [hs.dinode, hftype]
    decide
  rintro _ s' rfl
  rw [post_bind, post_inode, Fs.setInode_inode_self, hs.dinode, post_bind]
  refine (readi_mapped ?_ ?_ hover fun o _ _ ho => ?_).imp ?_
  · rw [Fs.setInode_inode_self, hftype]
    decide
  · rwa [Fs.setInode_inode_self, hfsize]
  · rw [Fs.setInode_inode_self] at ho ⊢
    change Mapped layout s.data _ _
    rw [hs.data]
    refine finish_mapped h hlen htype ((Nat.div_mul_le_self o BSIZE).trans_lt ?_)
    rw [hfile]
    exact ho.trans_eq hfsize
  · rintro r s' ⟨-, rfl⟩
    rw [post_pure, Fs.setInode_inode_self, hftype, hfsize]
    refine congrArg (fun bs => some (InodeType.file, (files[j]).contents.length, some bs)) ?_
    refine map_range_drop fun o ho => ?_
    change byteAt s.data (dinodes (finish m).disk (j + 2)) o = _
    rw [hs.data, finish_byte h hlen htype (by rwa [hfile]), hfile]
    rfl

end Read

/-- **What `mkfs` writes the kernel reads back**: under the name of a file is a file of its size
with its bytes. -/
theorem mkfs_read_back (files : List Input) (h : Fits files)
    (hnodup : (files.map fun f => canon f.name).Nodup)
    (hdots : ∀ f ∈ files, canon f.name ≠ dot ∧ canon f.name ≠ dotdot) :
    (∃ m, main files {} = .error .index m ∧ ∃ f ∈ files, slash ∈ f.shortname) ∨
      ∃ m, main files {} = .ok () m ∧ readsb m.disk = sb ∧
        ∀ f ∈ files, ∀ off n, off ≤ f.contents.length → off + n < 2 ^ 32 →
          ∃ s', readFile (canon f.name) off n (mount m.disk)
            = .ok (some (.file, f.contents.length, some ((f.contents.drop off).take n))) s' := by
  have hlen : files.length < NINODES := Nat.lt_of_succ_lt h.inodes
  obtain hslash | ⟨m, hm, hres⟩ := h.main
  · exact .inl hslash
  · refine .inr ⟨finish m, hres, readsb_finish hm, fun f hf off n hoff hover => ?_⟩
    obtain ⟨j, hj, rfl⟩ := List.getElem_of_mem hf
    have hspec : Post (readFile (canon (files[j]).name) off n) (mount (finish m).disk)
        (fun r _ => r
          = some (.file, (files[j]).contents.length, some (((files[j]).contents.drop off).take n)))
        fun _ _ => False := by
      refine rootLocked_spec hm hlen fun k s hs => ?_
      rw [post_bind]
      exact dirlookup_root hm hlen hs hnodup hdots hj
        (readFound_root hm hlen hs hj h.inodes hoff hover)
    obtain ⟨r, s', hrun, rfl⟩ := hspec.total fun _ _ => id
    exact ⟨s', hrun⟩

/-- A file of three bytes in two pieces. -/
theorem mkfs_read_back_small :
    ∃ m, main small {} = .ok () m ∧ readsb m.disk = sb ∧
      ∀ f ∈ small, ∀ off n, off ≤ f.contents.length → off + n < 2 ^ 32 →
        ∃ s', readFile (canon f.name) off n (mount m.disk)
          = .ok (some (.file, f.contents.length, some ((f.contents.drop off).take n))) s' := by
  refine (mkfs_read_back small fits_small (by decide) (by decide)).resolve_left ?_
  rintro ⟨-, -, hslash⟩
  exact absurd hslash (by decide)

end Xv6.Mkfs
