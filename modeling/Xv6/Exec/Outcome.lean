import Xv6.Exec.Stack

/-!
`exec` is atomic.

* `exec_spec`: `exec` fails and all is as before, or the process has a new address space with the
  arguments on its stack; a null pointer is followed only for strings that wrap around to the gap.
* `exec_atomic`: for strings that are shorter than a page it returns.
* `exec_arguments`: the argument stack after a successful `exec`.
-/

namespace Xv6.Exec

open Xv6.Fs Xv6.Files Xv6.Vm Transition

variable {L : Vm.Layout} {sb : Superblock} {s s₀ : State} {H W : Set ℕ} {cwd : Ip} {path : List ℕ}
  {argv : List (List UInt8)} {d sz : ℕ} {vm vm' : Phys}

/-! ### The stack -/

/-- What `stack` leaves. -/
inductive StackTo (L : Vm.Layout) (H W : Set ℕ) (d sz : ℕ) (argv : List (List UInt8)) (vm : Phys) :
    Option (ℕ × ℕ) → Phys → Prop
  | failed {vm' : Phys} (ev : Evolved d H W vm vm') (out : vm.Works → Fits argv →
      PGROUNDUP sz + 2 * PGSIZE < KERNBASE → Crowded H W (PGROUNDUP sz / PGSIZE + 3)) :
      StackTo L H W d sz argv vm none vm'
  | made {vm' : Phys} {sz' sp : ℕ} (ev : Evolved d H W vm vm')
      (size : sz' = PGROUNDUP sz + 2 * PGSIZE) (args : ArgStack vm' d sz' sp argv (ptr sz' argv))
      (mem : ∀ u, (u + 2) * PGSIZE < sz' → umem vm' d u = umem vm d u) :
      StackTo L H W d sz argv vm (some (sz', sp)) vm'

/-- The stack pointer wraps around to the gap for one of the strings. -/
def Wraps (argv : List (List UInt8)) : Prop := ∃ sz, Gaps sz [] argv

lemma stack_spec (hW : ∀ n ∈ W, L.Valid n) (h : Making L H W d sz vm)
    (hargs : ∀ a ∈ argv, a.length < KERNBASE) :
    Post (stack L d sz argv) vm (StackTo L H W d sz argv vm)
      (fun e _ => e = .nullPte ∧ Wraps argv) := by
  refine (allocStack_spec hW h).seq fun r vm₁ hr => ?_
  cases hr with
  | failed hev hout => exact .failed hev fun hworks _ => hout hworks
  | @made _ top pg hev hs hsize hmem =>
    refine (pushStack_spec hs hargs).bind (fun _ _ he => ⟨he.1, _, he.2⟩) fun r vm₂ hr => ?_
    cases hr.2 with
    | failed hev₂ hfull => exact .failed (hev.trans hev₂) fun _ hfits => absurd hfits hfull
    | pushed hw hstack =>
      refine .made (hev.trans hw.ev) hsize hstack fun u hu => ?_
      have hlt : u + 2 < top := Nat.lt_of_mul_lt_mul_right hu
      rw [hw.mem u (by omega), hmem u (by omega)]

/-- Strings that are shorter than a page do not wrap around. -/
lemma not_wraps (h : ∀ a ∈ argv, a.length < PGSIZE) : ¬Wraps argv := by
  rintro ⟨sz, i, hi, -, hu, hw⟩
  rw [List.nil_append] at hu hw
  rw [used_take_succ argv hi] at hw
  have hlen := h argv[i] (List.getElem_mem hi)
  have hlo := hw.1
  unfold room at hlo
  simp only [PGSIZE, DEVSPACE] at *
  omega

/-! ### The outcome -/

/-- **All is as before.** -/
structure AsBefore (s₀ s : State) : Prop where
  proc : s.proc = s₀.proc
  mem : umem s.vm s₀.proc.pgdir = umem s₀.vm s₀.proc.pgdir
  free : s.vm.freelist.Perm s₀.vm.freelist
  files : SameFiles s₀.fs s.fs
  ref : ∀ k, (s.fs.inode k).ref = (s₀.fs.inode k).ref
  unlocked : ∀ k, (s.fs.inode k).lock = false
  ops : s.ops = s₀.ops

/-- **The process has the program**: the pages of the old address space are free, the arguments are
on the stack, and the pages below the guard page are as they were loaded. -/
structure Executed (L : Vm.Layout) (sb : Superblock) (cwd : Ip) (path : List ℕ)
    (argv : List (List UInt8)) (H W : Set ℕ) (s₀ s : State) (img : Image) (s₁ : State) : Prop where
  load : load L sb cwd path s₀ = .ok (some img) s₁
  pgdir : s.proc.pgdir = img.pgdir
  eip : s.proc.eip = img.entry
  size : s.proc.sz = PGROUNDUP img.sz + 2 * PGSIZE
  space : Space s.vm s.proc.pgdir H W
  args : ArgStack s.vm s.proc.pgdir s.proc.sz s.proc.esp argv (ptr s.proc.sz argv)
  mem : ∀ u, (u + 2) * PGSIZE < s.proc.sz → umem s.vm s.proc.pgdir u = umem s₁.vm s.proc.pgdir u
  ops : s.ops = s₀.ops

/-- Bytes of files have been read only into pages that were free, at user addresses. -/
def LoadsFresh (s₀ s : State) : Prop :=
  ∀ x ∈ s.loads, x ∈ s₀.loads ∨ x.page < UPAGES ∧ x.len ≤ PGSIZE ∧ x.pa ∈ s₀.vm.freelist

/-- The pages that `exec` took are back. -/
lemma Since.asBefore (hr : Ready L sb cwd H W s₀) (h : Since H W s₀ s) (hfile : FileClosed sb s₀ s)
    (hpool : Pool s.vm (others s₀ H) W) : AsBefore s₀ s := by
  have hpool₀ : Pool s₀.vm (others s₀ H) W := hr.space.hide Vm.Place
  have hapart : Apart s₀.vm s₀.proc.pgdir (others s₀ H) W := fun q n hq _ => .inr ⟨q, hq⟩
  refine ⟨h.proc, h.frame.umem hapart, ?_, h.files, hfile.mid.ref, ?_, hfile.ops⟩
  · refine (List.perm_ext_iff_of_nodup hpool.nodup hpool₀.nodup).mpr fun n => ?_
    rw [hpool.mem_free_iff, hpool₀.mem_free_iff]
  · exact hfile.mid.atRest.unlocked

/-- What is on the stack depends on the user memory only. -/
lemma ArgStack.congr {sp : ℕ} {p : ℕ → ℕ} (h : ArgStack vm d sz sp argv p)
    (hmem : umem vm' d = umem vm d) : ArgStack vm' d sz sp argv p := by
  have hbytes : ∀ {a bs}, UserBytes vm d a bs → UserBytes vm' d a bs := by
    intro a bs hb j hj
    rw [ubyte, hmem]
    exact hb j hj
  exact ⟨h.aligned, h.low, h.fits, hbytes h.words, fun i hi => hbytes (h.strings i hi), h.above,
    h.high, h.apart⟩

/-- **The old address space is freed**, and the new one is the process's. -/
lemma freeOld_spec (hr : Ready L sb cwd H W s₀) (hf : Frame (others s₀ H) W s₀.vm vm)
    (h : Space vm d (others s₀ H) W) {E : Vm.Stop → Phys → Prop} :
    Post (freevm L s₀.proc.pgdir) vm
      (fun _ vm' => Space vm' d H W ∧ umem vm' d = umem vm d) E := by
  have hapart : Apart s₀.vm s₀.proc.pgdir (others s₀ H) W := fun q n hq _ => .inr ⟨q, hq⟩
  have hold : pageAt vm s₀.proc.pgdir = pageAt s₀.vm s₀.proc.pgdir := hf.pageAt hapart
  have hspace : Space vm s₀.proc.pgdir (H ∪ Holdings.held (pageAt vm d)) W := by
    rw [Space, hold]
    refine h.exchange hr.space.inj fun n hn hmem => ?_
    obtain ⟨q, hq⟩ := hmem
    exact hr.space.held_hold n hn q hq
  refine (freevm_spec hr.valid hspace).imp ?_
  rintro _ vm' ⟨hpool, hframe⟩
  have hapart' : Apart vm d (H ∪ Holdings.held (pageAt vm d)) W := fun q n hq _ => .inr ⟨q, hq⟩
  refine ⟨?_, hframe.umem hapart'⟩
  rw [Space, hframe.pageAt hapart']
  refine hpool.reveal h.inj fun n hn hmem => ?_
  obtain ⟨q, hq⟩ := hmem
  exact h.held_hold n (.inl hn) q hq

/-- **`exec`** -/
lemma exec_spec (hr : Ready L sb cwd H W s₀) (path : List ℕ)
    (hargs : ∀ a ∈ argv, a.length < KERNBASE) :
    Post (exec L sb cwd path argv) s₀
      (fun r s => LoadsFresh s₀ s ∧ (r = false → AsBefore s₀ s) ∧
        (r = true → ∃ img s₁, Executed L sb cwd path argv H W s₀ s img s₁))
      (fun e s => ExecStops e s ∨ e = .vm .nullPte ∧ Wraps argv) := by
  refine ((load_spec hr path).and (post_self _ _)).bind (fun _ _ he => .inl he.1) ?_
  rintro r s₁ ⟨hloaded, hrun⟩
  cases hloaded with
  | failed pool since file =>
    exact ⟨since.loads, fun _ => since.asBefore hr file pool, fun hr => (by cases hr)⟩
  | @loaded img making since file =>
    refine (post_bind _).mpr ((post_liftVm _).mpr ?_)
    refine (stack_spec hr.valid making hargs).mono (fun r vm' hvm' => ?_)
      fun e _ he => .inr ⟨by rw [he.1], he.2⟩
    cases hvm' with
    | failed hev =>
      refine (post_bind _).mpr ((post_liftVm _).mpr ?_)
      refine (freevm_spec hr.valid hev.space).mono (fun _ vm'' hvm'' => ?_) fun _ _ => False.elim
      have hsince := (since.vm hev.frame).vm hvm''.2
      exact ⟨since.loads, fun _ => hsince.asBefore hr ⟨file.mid, file.ops⟩ hvm''.1,
        fun hr => (by cases hr)⟩
    | @made _ sz' sp hev hsize hstack hmem =>
      have hpgdir : s₁.proc.pgdir = s₀.proc.pgdir := by rw [since.proc]
      refine (post_bind _).mpr ?_
      rw [commit, post_bind, post_get, post_bind, post_modify, post_liftVm]
      dsimp only
      rw [hpgdir]
      refine (freeOld_spec hr (since.frame.trans hev.frame) hev.space).mono (fun _ vm'' hvm'' => ?_)
        fun _ _ => False.elim
      refine ⟨since.loads, fun hr => (by cases hr),
        fun _ => ⟨img, s₁, hrun, rfl, rfl, hsize, hvm''.1,
        hstack.congr hvm''.2, fun u hu => ?_, file.ops⟩⟩
      rw [hvm''.2]
      exact hmem u hu

/-- **`exec` is atomic and safe on every file**: it returns -1 and all is as before, or 0; it stops
only in the file system, when the inode cache is full or the console has no input. -/
theorem exec_atomic (hr : Ready L sb cwd H W s₀) (path : List ℕ)
    (hargs : ∀ a ∈ argv, a.length < PGSIZE) :
    Post (exec L sb cwd path argv) s₀
      (fun r s => LoadsFresh s₀ s ∧ (r = true ∨ r = false ∧ AsBefore s₀ s)) ExecStops := by
  refine (exec_spec hr path fun a ha => (hargs a ha).trans (by decide)).mono
    (fun r s hs => ⟨hs.1, ?_⟩) fun e s he => he.resolve_right fun hw => not_wraps hargs hw.2
  cases r with
  | false => exact .inr ⟨rfl, hs.2.1 rfl⟩
  | true => exact .inl rfl

/-- **The argument stack of a process after `exec`**, which is in the stack page and decodes to
`argv`; the pages below the guard page are as they were loaded. -/
theorem exec_arguments (hr : Ready L sb cwd H W s₀) (path : List ℕ)
    (hargs : ∀ a ∈ argv, a.length < KERNBASE) :
    Post (exec L sb cwd path argv) s₀
      (fun r s => r = true → ∃ img s₁, load L sb cwd path s₀ = .ok (some img) s₁ ∧
        s.proc.pgdir = img.pgdir ∧ s.proc.sz = PGROUNDUP img.sz + 2 * PGSIZE ∧
        ArgStack s.vm s.proc.pgdir s.proc.sz s.proc.esp argv (ptr s.proc.sz argv) ∧
        ∀ u, (u + 2) * PGSIZE < s.proc.sz → umem s.vm s.proc.pgdir u = umem s₁.vm s.proc.pgdir u)
      fun _ _ => True := by
  refine (exec_spec hr path hargs).mono (fun r s hs hok => ?_) fun _ _ _ => trivial
  obtain ⟨img, s₁, h⟩ := hs.2.2 hok
  exact ⟨img, s₁, h.load, h.pgdir, h.size, h.args, h.mem⟩

/-- **`exec` succeeds** on a file that is loaded, if there are enough pages and the arguments
fit. -/
lemma exec_succeeds (hr : Ready L sb cwd H W s₀) {img : Image} {s₁ : State}
    (hload : load L sb cwd path s₀ = .ok (some img) s₁) (hargs : ∀ a ∈ argv, a.length < PGSIZE)
    (hfits : Fits argv) (hsz : PGROUNDUP img.sz + 2 * PGSIZE < KERNBASE) (hworks : s₀.vm.Works)
    (hroom : ¬Crowded (others s₀ H) W (PGROUNDUP img.sz / PGSIZE + 3)) :
    ∃ s, exec L sb cwd path argv s₀ = .ok true s := by
  have hpost : Post (exec L sb cwd path argv) s₀ (fun r _ => r = true) fun _ _ => False := by
    cases (load_spec hr path).ok hload with
    | loaded making since file =>
      have hpgdir : s₁.proc.pgdir = s₀.proc.pgdir := by rw [since.proc]
      rw [exec, post_bind, Post.ok_iff hload, post_bind, post_liftVm]
      refine (stack_spec hr.valid making fun a ha => (hargs a ha).trans (by decide)).mono
        (fun r vm hvm => ?_) fun _ _ he => not_wraps hargs he.2
      cases hvm with
      | failed _ hout => exact absurd (hout (since.frame.works hworks) hfits hsz) hroom
      | made hev _ _ _ =>
        rw [post_bind, commit, post_bind, post_get, post_bind, post_modify, post_liftVm]
        dsimp only
        rw [hpgdir]
        exact (freeOld_spec hr (since.frame.trans hev.frame) hev.space).imp fun _ _ _ => rfl
  obtain ⟨r, s, hrun, rfl⟩ := hpost.total fun _ _ => id
  exact ⟨s, hrun⟩

/-- A file is loaded that has one segment, of which no byte is in the file. -/
lemma load_succeeds (hr : Ready L sb cwd H W s₀) {k : Ip} {t₁ t₂ t₃ t₄ t₅ : Files.Fs}
    {bs ph : List ℕ} {entry phoff off memsz : ℕ}
    (hnamei : namei sb cwd path { s₀.fs with logged := [] } = .ok (some k) t₁)
    (hlock : ilock sb k t₁ = .ok () t₂) (hread : readi sb k 0 52 t₂ = .ok (some bs) t₃)
    (hlen : bs.length = 52) (helf : Elfhdr.ofBytes bs = ⟨ELF_MAGIC, entry, phoff, 1⟩)
    (hread' : readi sb k phoff 32 t₃ = .ok (some ph) t₄) (hlen' : ph.length = 32)
    (hph : Proghdr.ofBytes ph = ⟨ELF_PROG_LOAD, off, 0, 0, memsz⟩) (hpos : 0 < memsz)
    (hlt : memsz < KERNBASE) (hput : iunlockput sb k t₄ = .ok () t₅) (hworks : s₀.vm.Works)
    (hroom : ¬Crowded (others s₀ H) W (memsz / PGSIZE + 2)) :
    ∃ d s, load L sb cwd path s₀ = .ok (some ⟨d, memsz, entry⟩) s := by
  have hpool : Pool s₀.vm (others s₀ H) W := hr.space.hide Vm.Place
  have hmod : (0 + memsz) % 2 ^ 32 = memsz := by
    rw [Nat.zero_add]
    exact Nat.mod_eq_of_lt (hlt.trans (by decide))
  have hpost : Post (load L sb cwd path) s₀ (fun r _ => ∃ d, r = some ⟨d, memsz, entry⟩)
      fun _ _ => False := by
    rw [load, post_bind, beginOp, post_modify, post_bind, post_liftFs, Post.ok_iff hnamei]
    dsimp only
    rw [post_bind, post_liftFs, Post.ok_iff hlock, post_bind, readExact, post_bind, post_liftFs,
      Post.ok_iff hread]
    dsimp only
    rw [if_pos hlen, post_pure]
    dsimp only
    rw [helf, if_neg (not_not.mpr rfl), post_bind, post_liftVm]
    refine (setupkvm_spec hr.valid hpool).mono (fun r vm hvm => ?_) fun _ _ => id
    cases hvm with
    | failed _ _ hout => exact absurd ((hout hworks).mono (Nat.zero_le _)) hroom
    | @made _ d space frame mem kernel =>
      dsimp only
      rw [post_bind, loadSegs, post_bind, readExact, post_bind, post_liftFs, Post.ok_iff hread']
      dsimp only
      rw [if_pos hlen', post_pure]
      dsimp only
      rw [hph, if_neg (not_not.mpr rfl), if_neg (Nat.not_lt_zero _), if_neg (Nat.not_lt_zero _),
        hmod, post_bind, post_liftVm]
      refine (allocuvm_spec hr.valid space (Nat.zero_le _) fun v _ _ => mem v).mono
        (fun r vm₂ hvm₂ => ?_) fun _ _ => id
      obtain ⟨hneg, -⟩ | ⟨-, -, halloc⟩ | ⟨hbig, -⟩ := hvm₂
      · exact absurd hneg (Nat.not_lt_zero _)
      · cases halloc with
        | failed _ _ hout =>
          refine absurd (hout (frame.works hworks) (memsz / PGSIZE + 1) ?_ fun v _ => mem v) hroom
          simp only [PGSIZE]
          omega
        | grown _ _ =>
          have hnothing : loaduvm sb d 0 k off 0 = pure true := rfl
          rw [if_neg hpos.ne']
          dsimp only
          rw [if_neg (by decide : ¬0 % PGSIZE ≠ 0), hnothing, post_bind, post_pure, if_pos rfl,
            loadSegs, post_pure]
          dsimp only
          rw [post_bind, post_liftFs, Post.ok_iff hput]
          exact ⟨d, rfl⟩
      · exact absurd hbig (not_le.mpr hlt)
  obtain ⟨r, s, hrun, d, rfl⟩ := hpost.total fun _ _ => id
  exact ⟨d, s, hrun⟩

/-! ### A process -/

/-- An executable file with one segment, a page at the address 0 of which no byte is in the file. -/
def elfHeader : List ℕ :=
  [0x7F, 0x45, 0x4C, 0x46] ++ List.replicate 24 0 ++ [52] ++ List.replicate 15 0 ++
  [1] ++ List.replicate 7 0

def progHeader : List ℕ := [1] ++ List.replicate 20 0 ++ [16] ++ List.replicate 10 0

/-- The root directory has one file `a`, which is executable. -/
def progFs : Files.Fs where
  dinode := Function.update rootImage.dinode 2 { Dinode.fresh .file with
    nlink := 1, size := 84, addrs := fun q => if q.val = 0 then 6 else 0 }
  bitmap := firstUsed (smallDisk.nmeta + 2)
  data := Function.update (Function.update rootImage.data 5 fun o =>
      if o < 32 then rootImage.data 5 o
      else (Dirent.toBytes ⟨2, strncpy [97] DIRSIZ⟩).getD (o - 32) 0)
    6 fun o => (elfHeader ++ progHeader).getD o 0
  inode := bootFs.inode

lemma progFs_dinode {i : ℕ} (hi : i ∉ [ROOTINO, 2]) : progFs.dinode i = .fresh .free := by
  rw [List.mem_pair, not_or] at hi
  simp only [progFs, Function.update_of_ne hi.2]
  exact ((rootImage_dinode i).resolve_left fun h => hi.1 h.1).2

lemma consistent_progFs : Consistent smallDisk progFs ∧ Tidy smallDisk (node progFs) := by
  have hsound : Sound smallDisk progFs.dinode progFs.bitmap progFs.data :=
    .oneEach [ROOTINO, 2] (by decide) (by decide) (by decide +kernel) fun i hi => by
      rw [progFs_dinode hi]
      exact ⟨rfl, fun _ => rfl⟩
  refine consistent_of_checked [ROOTINO, 2] ⟨.one hsound (fun hv => absurd hv (by decide))
    (fun hl => absurd hl (by decide)), atRest_bootFs.unlocked⟩ (fun i hi => ?_) (by decide +kernel)
  rw [progFs_dinode hi]
  rfl

/-- A process with an empty address space, in the root directory. -/
def freshProc (fails : ℕ → Bool) : State where
  vm := roomyDir fails
  fs := progFs
  ops := 0
  proc := { pgdir := 0x2000, sz := 0, eip := 0, esp := 0, name := List.replicate 16 0 }
  loads := []

lemma ready_freshProc (fails : ℕ → Bool) :
    Ready smallKernel smallDisk firstIp ∅ roomyPages (freshProc fails) := by
  have hroot : ROOTINO < smallDisk.ninodes ∧ (node progFs ROOTINO).type ≠ .free := by decide
  exact ⟨valid_roomy, space_roomyDir fails, consistent_progFs.1, consistent_progFs.2, Nat.one_pos,
    hroot.2, hroot⟩

/-- There are pages for `k` user pages. -/
lemma room_freshProc (fails : ℕ → Bool) {k : ℕ} (hk : 1 + NPDENTRIES + k < 2000) :
    ¬Crowded (others (freshProc fails) ∅) roomyPages k := by
  have hpool : Pool (roomyDir fails) (others (freshProc fails) ∅) roomyPages :=
    (space_roomyDir fails).hide Vm.Place
  refine hpool.not_crowded (hk.trans_eq ?_)
  exact List.length_range'.symm

/-- `exec("/a", argv)` fails if there is no page for a page table; the page of the directory, which
it has taken by then, is given back. -/
theorem exec_atomic_short :
    ∃ s, exec smallKernel smallDisk firstIp [47, 97] [[97]] (freshProc (· == 1)) = .ok false s ∧
      AsBefore (freshProc (· == 1)) s := by
  have hargs : ∀ a ∈ ([[97]] : List (List UInt8)), a.length < PGSIZE := by decide
  have hafter : ∀ fails s, exec smallKernel smallDisk firstIp [47, 97] [[97]] (freshProc fails)
      = .ok false s → AsBefore (freshProc fails) s := fun fails s hrun =>
    (((exec_atomic (ready_freshProc fails) [47, 97] hargs).ok hrun).2.resolve_left (by decide)).2
  obtain ⟨s, hrun⟩ :
      ∃ s, exec smallKernel smallDisk firstIp [47, 97] [[97]] (freshProc (· == 1))
        = .ok false s := by
    decide +kernel
  exact ⟨s, hrun, hafter _ s hrun⟩

/-- The entry of the cache for the file `a`. -/
def progIp : Ip := ⟨1, by decide⟩

/-- The file `a` is loaded. -/
lemma load_prog : ∃ d s, load smallKernel smallDisk firstIp [47, 97] (freshProc fun _ => false)
    = .ok (some ⟨d, 4096, 0⟩) s := by
  obtain ⟨t₁, hnamei, t₂, hlock, t₃, hread, t₄, hread', t₅, hput⟩ :
      ∃ t₁, namei smallDisk firstIp [47, 97] { progFs with logged := [] } = .ok (some progIp) t₁ ∧
        ∃ t₂, ilock smallDisk progIp t₁ = .ok () t₂ ∧
        ∃ t₃, readi smallDisk progIp 0 52 t₂ = .ok (some elfHeader) t₃ ∧
        ∃ t₄, readi smallDisk progIp 52 32 t₃ = .ok (some progHeader) t₄ ∧
        ∃ t₅, iunlockput smallDisk progIp t₄ = .ok () t₅ := by
    decide +kernel
  exact load_succeeds (ready_freshProc _) hnamei hlock hread (by decide) rfl hread' (by decide) rfl
    (by decide) (by decide) hput (fun _ => rfl) (room_freshProc _ (by decide))

/-- The stack of the process after `exec("/a", argv)`. -/
theorem exec_arguments_prog : ∃ d s₁ s,
    load smallKernel smallDisk firstIp [47, 97] (freshProc fun _ => false)
      = .ok (some ⟨d, 4096, 0⟩) s₁ ∧
      exec smallKernel smallDisk firstIp [47, 97] [[97]] (freshProc fun _ => false) = .ok true s ∧
      s.proc.pgdir = d ∧ s.proc.sz = 12288 ∧
        ArgStack s.vm d 12288 s.proc.esp [[97]] (ptr 12288 [[97]]) ∧
      umem s.vm d 0 = umem s₁.vm d 0 := by
  have hargs : ∀ a ∈ ([[97]] : List (List UInt8)), a.length < PGSIZE := by decide
  have hafter := fun fails (s : State)
      (hrun : exec smallKernel smallDisk firstIp [47, 97] [[97]] (freshProc fails) = .ok true s) =>
    (exec_arguments (ready_freshProc fails) [47, 97] fun a ha => (hargs a ha).trans (by decide)).ok
    hrun rfl
  obtain ⟨d, s₁, hload⟩ := load_prog
  have hup : PGROUNDUP 4096 = 4096 := by decide
  obtain ⟨s, hrun⟩ := exec_succeeds (ready_freshProc _) hload hargs ⟨by decide, by decide⟩
    (by rw [hup]; decide) (fun _ => rfl) (room_freshProc _ (by rw [hup]; decide))
  obtain ⟨img, s₁', hload', hpgdir, hsize, hstack, hmem⟩ := hafter _ s hrun
  cases hload.symm.trans hload'
  rw [hup] at hsize
  have hsz : s.proc.sz = 12288 := hsize
  rw [hsz, hpgdir] at hstack hmem
  exact ⟨d, s₁, s, hload, hrun, hpgdir, hsz, hstack, hmem 0 (by decide)⟩

end Xv6.Exec
