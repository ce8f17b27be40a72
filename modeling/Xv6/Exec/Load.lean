import Xv6.Exec.Program
import Xv6.Files.Failures
import Xv6.Vm.Copyout

/-!
Loading a program (`exec`, `loaduvm`).

* `Ready`: a process in a consistent system.
* `Since`: what loading leaves as it was: the process, the files and the pages of the others; bytes
  of the file have been read only into pages that were free.
* `loaduvm_spec`, `loadSegs_spec`, `load_spec`: the new address space has exactly the pages below
  its size, or it is given back.
-/

namespace Xv6.Exec

open Xv6.Fs Xv6.Files Xv6.Vm Transition

variable {L : Vm.Layout} {sb : Superblock} {s s₀ s' : State} {α : Type}

/-! ### Lifting -/

variable {E : Stop → State → Prop} {Q : α → State → Prop}

@[simp] lemma post_liftVm (m : VmM α) :
    Post (liftVm m) s Q E
      ↔ Post m s.vm (fun a t => Q a { s with vm := t })
        fun e t => E (.vm e) { s with vm := t } := by
  unfold Post liftVm
  cases m s.vm <;> rfl

@[simp] lemma post_liftFs (m : FsM α) :
    Post (liftFs m) s Q E
      ↔ Post m s.fs (fun a t => Q a { s with fs := t })
        fun e t => E (.fs e) { s with fs := t } := by
  unfold Post liftFs
  cases m s.fs <;> rfl

/-! ### The file -/

section File

variable {B : Ip → Inode} {N : ℕ → Node} {t : Files.Fs} {k : Ip} {i : ℕ}

/-- Where the code of the file system may stop: the inode cache is full, or there is no input for
the console. -/
def Stops (e : Files.Stop) (t : Files.Fs) : Prop :=
  e = .igetNoInodes ∧ (∀ k, 0 < (t.inode k).ref) ∨ e = .asleep ∧ t.input = []

lemma Node.read_length {x : Node} {off n : ℕ} {bs : List ℕ} (h : x.read off n = some bs) :
    bs.length ≤ n := by
  unfold Node.read at h
  split at h
  · cases h
  · cases h
    rw [List.length_map, List.length_range]
    split <;> omega

/-- Reading the console. -/
lemma consoleread_open (h : Midcall sb B N [(k, i)] {k} t) (hi : i < sb.ninodes) (n : ℕ) :
    Post (consoleread sb k n) t (fun r t' => Midcall sb B N [(k, i)] {k} t' ∧ SameFiles t t' ∧
      ∀ bs, r = some bs → bs.length ≤ n) Stops := by
  have hmem : (k, i) ∈ [(k, i)] := List.mem_cons_self
  have hL : k ∈ ({k} : Set Ip) := rfl
  refine ((iunlock_disk (s := t)).and (unlock_spec (E := fun _ _ => False) h hmem hL)).bind
    (fun _ _ he => he.2.elim) ?_
  rintro _ t₁ ⟨hd₁, h₁, htype⟩
  rw [post_bind, post_get]
  cases hin : t₁.input with
  | nil => exact .inr ⟨rfl, hin⟩
  | cons line rest =>
    have hno : k ∉ ({k} : Set Ip) \ {k} := fun hk => hk.2 rfl
    have h₂ : Midcall sb B N [(k, i)] ({k} \ {k}) { t₁ with input := rest } :=
      h₁.congr rfl rfl rfl rfl rfl
    obtain ⟨t₃, hrun, hlocked, hd₃⟩ := ilock_total h₂ hmem hno hi htype
    rw [post_bind, post_modify, post_bind, Post.ok_iff hrun, post_pure]
    refine ⟨?_, hd₁.files.trans ⟨hd₃.dinode, hd₃.bitmap, hd₃.data⟩, fun bs hbs => ?_⟩
    · rw [← Set.insert_sdiff_self_of_mem hL]
      exact hlocked.mid
    · obtain ⟨line', -, rfl⟩ := Option.map_eq_some_iff.mp hbs
      exact List.length_take_le n line'

/-- **Reading the file that is open.** -/
lemma readi_open (h : Midcall sb B N [(k, i)] {k} t) (hi : i < sb.ninodes) (off n : ℕ) :
    Post (readi sb k off n) t (fun r t' => Midcall sb B N [(k, i)] {k} t' ∧ SameFiles t t' ∧
      ∀ bs, r = some bs → bs.length ≤ n) Stops := by
  have hmem : (k, i) ∈ [(k, i)] := List.mem_cons_self
  have hL : k ∈ ({k} : Set Ip) := rfl
  by_cases hdev : (N i).type = .dev
  · have hdev' : (t.inode k).din.type = .dev := by rwa [node_eq h hmem hL] at hdev
    rw [readi, post_bind, post_inode, if_pos hdev', post_ite, post_pure]
    refine ⟨fun _ => ⟨h, .refl t, fun bs hbs => (by cases hbs)⟩, fun _ => consoleread_open h hi n⟩
  · refine (readi_file_spec h hmem hL off n hdev).mono ?_ fun _ _ => False.elim
    rintro r t' ⟨rfl, rfl⟩
    exact ⟨h, .refl t', fun bs hbs => Node.read_length hbs⟩

end File

/-- A path leads to an inode that is in use. -/
lemma Tidy.walk {N : ℕ → Node} {parent : Bool} {path : List ℕ} {i i' : ℕ} (h : Tidy sb N)
    (hi : i < sb.ninodes ∧ (N i).type ≠ .free) (hwalk : Walk N parent i path i') :
    i' < sb.ninodes ∧ (N i').type ≠ .free := by
  induction hwalk with
  | done _ _ => exact hi
  | stop _ _ _ => exact hi
  | step _ _ hdir hj hname _ _ ih => exact ih (h.entry _ hdir _ hj hname.1)

/-! ### The start and the rest of the system -/

/-- The pages that are not `exec`'s: those of the others and those of the old address space. -/
def others (s₀ : State) (H : Set ℕ) : Set ℕ := H ∪ Holdings.held (pageAt s₀.vm s₀.proc.pgdir)

/-- **A process in a consistent system.** -/
structure Ready (L : Vm.Layout) (sb : Superblock) (cwd : Ip) (H W : Set ℕ) (s₀ : State) : Prop where
  valid : ∀ n ∈ W, L.Valid n
  space : Space s₀.vm s₀.proc.pgdir H W
  fs : Consistent sb s₀.fs
  tidy : Tidy sb (node s₀.fs)
  ref : 0 < (s₀.fs.inode cwd).ref
  root : (node s₀.fs ROOTINO).type ≠ .free
  cwd : (s₀.fs.inode cwd).inum < sb.ninodes ∧ (node s₀.fs (s₀.fs.inode cwd).inum).type ≠ .free

/-- **What is as it was at the start.** -/
structure Since (H W : Set ℕ) (s₀ s : State) : Prop where
  proc : s.proc = s₀.proc
  frame : Frame (others s₀ H) W s₀.vm s.vm
  files : SameFiles s₀.fs s.fs
  loads : ∀ x ∈ s.loads, x ∈ s₀.loads ∨
    x.page < UPAGES ∧ x.len ≤ PGSIZE ∧ x.pa ∈ s₀.vm.freelist

/-- The file with the inode `i` is open, at the entry `k` of the cache. -/
structure FileOpen (sb : Superblock) (k : Ip) (i : ℕ) (s₀ s : State) : Prop where
  mid : Midcall sb s₀.fs.inode (node s₀.fs) [(k, i)] {k} s.fs
  lt : i < sb.ninodes
  kept : ¬Loose s₀.fs.inode (node s₀.fs) i
  ops : s.ops = s₀.ops + 1

/-- The file has been released. -/
structure FileClosed (sb : Superblock) (s₀ s : State) : Prop where
  mid : Midcall sb s₀.fs.inode (node s₀.fs) [] ∅ s.fs
  ops : s.ops = s₀.ops

/-- **An address space that is made**: exactly the pages below its size are mapped. -/
structure Making (L : Vm.Layout) (H W : Set ℕ) (d sz : ℕ) (vm : Phys) : Prop where
  space : Space vm d H W
  kernel : KernelPart L vm d
  mapped : Mapped vm d sz
  lt : sz < KERNBASE

/-- Where `exec` may stop. -/
def ExecStops : Stop → State → Prop
  | .vm _, _ => False
  | .fs e, s => Stops e s.fs

variable {H W : Set ℕ} {cwd k : Ip} {i d sz : ℕ}

/-- The pages of an address space that is made were free. -/
lemma Ready.fresh (hr : Ready L sb cwd H W s₀) {vm : Phys} (h : Space vm d (others s₀ H) W)
    {q : Vm.Place} {n : ℕ} (hn : pageAt vm d q = some n) : n ∈ s₀.vm.freelist := by
  have hout : n ∉ others s₀ H := fun hmem => h.held_hold n hmem q hn
  rcases (hr.space.total n).mp (h.mem_of_hold hn) with hfree | hH | hold
  · exact hfree
  · exact absurd (.inl hH) hout
  · exact absurd (.inr hold) hout

lemma Ready.startOf (hr : Ready L sb cwd H W s₀) (path : List ℕ) :
    Files.startOf (s₀.fs.inode cwd).inum path < sb.ninodes ∧
      (node s₀.fs (Files.startOf (s₀.fs.inode cwd).inum path)).type ≠ .free := by
  unfold Files.startOf
  split
  · exact ⟨sb.root, hr.root⟩
  · exact hr.cwd

/-- Memory changes. -/
lemma Since.vm (h : Since H W s₀ s) {vm : Phys} (hf : Frame (others s₀ H) W s.vm vm) :
    Since H W s₀ { s with vm := vm } := ⟨h.proc, h.frame.trans hf, h.files, h.loads⟩

/-- The file system changes. -/
lemma Since.fs (h : Since H W s₀ s) {t : Files.Fs} (hf : SameFiles s.fs t) :
    Since H W s₀ { s with fs := t } := ⟨h.proc, h.frame, h.files.trans hf, h.loads⟩

lemma FileOpen.vm (h : FileOpen sb k i s₀ s) (vm : Phys) : FileOpen sb k i s₀ { s with vm := vm } :=
  ⟨h.mid, h.lt, h.kept, h.ops⟩

/-- The file is read. -/
lemma readi_lift (hopen : FileOpen sb k i s₀ s) (hs : Since H W s₀ s) (off n : ℕ) :
    Post (liftFs (readi sb k off n)) s
      (fun r s' => FileOpen sb k i s₀ s' ∧ Since H W s₀ s' ∧ s'.vm = s.vm ∧ s'.loads = s.loads ∧
        ∀ bs, r = some bs → bs.length ≤ n) ExecStops := by
  rw [post_liftFs]
  refine (readi_open hopen.mid hopen.lt off n).imp ?_
  rintro r t ⟨hmid, hfiles, hlen⟩
  exact ⟨⟨hmid, hopen.lt, hopen.kept, hopen.ops⟩, hs.fs hfiles, rfl, rfl, hlen⟩

lemma readExact_spec (hopen : FileOpen sb k i s₀ s) (hs : Since H W s₀ s) (off n : ℕ) :
    Post (readExact sb k off n) s
      (fun _ s' => FileOpen sb k i s₀ s' ∧ Since H W s₀ s' ∧ s'.vm = s.vm) ExecStops := by
  refine (readi_lift hopen hs off n).seq fun r s₁ hs₁ => ?_
  cases r with
  | none => exact ⟨hs₁.1, hs₁.2.1, hs₁.2.2.1⟩
  | some bs =>
    exact post_ite.mpr ⟨fun _ => ⟨hs₁.1, hs₁.2.1, hs₁.2.2.1⟩, fun _ => ⟨hs₁.1, hs₁.2.1, hs₁.2.2.1⟩⟩

/-! ### A segment -/

/-- The address space and the file while a segment is loaded. -/
structure Loading (L : Vm.Layout) (sb : Superblock) (H W : Set ℕ) (k : Ip) (i d sz : ℕ)
    (s₀ s : State) : Prop where
  making : Making L (others s₀ H) W d sz s.vm
  since : Since H W s₀ s
  file : FileOpen sb k i s₀ s

/-- A page of the program is read. -/
lemma readPage_spec (hr : Ready L sb cwd H W s₀) (h : Loading L sb H W k i d sz s₀ s) {v pa n : ℕ}
    (hpa : upage s.vm d v = some pa) (hn : n ≤ PGSIZE) (off : ℕ) :
    Post (readPage sb k v pa off n) s (fun ok s' => Loading L sb H W k i d sz s₀ s' ∧
      (∀ x ∈ s.loads, x ∈ s'.loads) ∧ (ok = true → ∃ x ∈ s'.loads, x.page = v ∧ x.len = n))
      ExecStops := by
  refine (readi_lift h.file h.since off n).seq ?_
  rintro r s₁ ⟨hopen, hs, hvm, hloads, hlen⟩
  have hmaking : Making L (others s₀ H) W d sz s₁.vm := hvm ▸ h.making
  cases r with
  | none => exact ⟨⟨hmaking, hs, hopen⟩, fun x hx => hloads ▸ hx, fun hok => (by cases hok)⟩
  | some bs =>
    rw [← hvm] at hpa
    obtain ⟨hev, hmem⟩ := hmaking.space.setUser hpa
      (writeBytes (s₁.vm.page pa) 0 (bs.map UInt8.ofNat))
    rw [post_bind, post_liftVm, post_bind, post_get, post_setPage, post_bind,
      post_modify, post_pure]
    refine ⟨⟨⟨hev.space, hmaking.kernel.same hev.kernel, fun u => ?_, hmaking.lt⟩,
      ⟨hs.proc, hs.frame.trans hev.frame, hs.files, fun x hx => ?_⟩,
      ⟨hopen.mid, hopen.lt, hopen.kept, hopen.ops⟩⟩, fun x hx => ?_, fun hok => ?_⟩
    · rw [← hmaking.mapped u, hmem]
      by_cases hu : u = v
      · subst hu
        rw [Function.update_self]
        refine iff_of_true (Option.some_ne_none _) ?_
        rw [Ne, umem_none, hpa]
        exact Option.some_ne_none pa
      · rw [Function.update_of_ne hu]
    · rcases List.mem_cons.mp hx with rfl | hx
      · exact .inr ⟨(upage_some.mp hpa).1, (hlen bs rfl).trans hn,
          hr.fresh hmaking.space (q := .user v) hpa⟩
      · exact hs.loads x hx
    · exact List.mem_cons_of_mem _ (hloads ▸ hx)
    · exact ⟨_, List.mem_cons_self, rfl, of_decide_eq_true hok⟩

/-- Bytes have been read into each page from `lo` on, up to the address `top`. -/
def ReadUpTo (lo top : ℕ) (s : State) : Prop :=
  ∀ u, lo ≤ u → u * PGSIZE < top → ∃ x ∈ s.loads, x.page = u ∧ x.len = min (top - u * PGSIZE) PGSIZE

/-- **The loop of `loaduvm`** over pages that are mapped. -/
lemma loadLoop_spec (hr : Ready L sb cwd H W s₀) (offset : ℕ) {v filesz fuel j : ℕ}
    (hfuel : filesz ≤ (j + fuel) * PGSIZE) (hfile : v * PGSIZE + filesz ≤ sz)
    (h : Loading L sb H W k i d sz s₀ s) :
    Post (loadLoop sb d (v * PGSIZE) k offset filesz fuel (j * PGSIZE)) s
      (fun ok s' => Loading L sb H W k i d sz s₀ s' ∧ (∀ x ∈ s.loads, x ∈ s'.loads) ∧
        (ok = true → ReadUpTo (v + j) (v * PGSIZE + filesz) s')) ExecStops := by
  -- No page is left.
  have hdone : ∀ {j s}, filesz ≤ j * PGSIZE → ReadUpTo (v + j) (v * PGSIZE + filesz) s := by
    intro j s hle u hu hlt
    have := Nat.mul_le_mul_right PGSIZE hu
    rw [Nat.add_mul] at this
    omega
  induction fuel generalizing j s with
  | zero => exact ⟨h, fun _ => id, fun _ => hdone hfuel⟩
  | succ fuel ih =>
    rw [loadLoop]
    refine post_ite.mpr ⟨fun hlt => ?_, fun hge => ⟨h, fun _ => id, fun _ => hdone (not_lt.mp hge)⟩⟩
    have hsz := h.making.lt
    have hin : (v + j) * PGSIZE < sz := by
      rw [Nat.add_mul]
      exact (Nat.add_lt_add_left hlt _).trans_le hfile
    have hva : (v * PGSIZE + j * PGSIZE) % 2 ^ 32 = (v + j) * PGSIZE := by
      rw [← Nat.add_mul]
      exact Nat.mod_eq_of_lt ((hin.trans hsz).trans (by decide))
    obtain ⟨hlt', hpres, -⟩ := umem_some ((h.making.mapped (v + j)).mpr hin)
    obtain ⟨t, ht⟩ := exists_table hpres
    have hpage : (v + j) * PGSIZE / PGSIZE = v + j := Nat.mul_div_cancel _ (by decide)
    rw [post_bind, post_liftVm, post_walk, hva, PDX_page (lt_of_lt_of_le hlt' (by decide)), ht]
    dsimp only [Option.map_some]
    rw [post_bind, post_liftVm, post_loadEntry, PTX_page, ← ent_of_table ht, hpage]
    refine (readPage_spec hr h (upage_some.mpr ⟨hlt', hpres, rfl⟩) ?_ _).seq ?_
    · split <;> omega
    rintro ok s₁ ⟨h₁, hkeep, hread⟩
    cases ok with
    | false => exact ⟨h₁, hkeep, fun hok => (by cases hok)⟩
    | true =>
      rw [if_pos rfl, next_page (by simp only [UPAGES, KERNBASE, PGSIZE] at *; omega)]
      refine (ih ?_ h₁).imp
        fun ok s₂ h₂ => ⟨h₂.1, fun x hx => h₂.2.1 x (hkeep x hx), fun hok u hu hlt => ?_⟩
      · rwa [Nat.add_right_comm j 1 fuel, Nat.add_assoc j fuel 1]
      · rcases Nat.eq_or_lt_of_le hu with rfl | hu
        · obtain ⟨x, hx, hpage, hlen⟩ := hread rfl
          refine ⟨x, h₂.2.1 x hx, hpage, hlen.trans ?_⟩
          rw [Nat.add_mul]
          split <;> omega
        · exact h₂.2.2 hok u hu hlt

/-- **`loaduvm`** at an address that is a multiple of the page size. -/
lemma loaduvm_spec (hr : Ready L sb cwd H W s₀) {addr filesz : ℕ} (offset : ℕ)
    (haddr : addr % PGSIZE = 0) (hfile : addr + filesz ≤ sz) (h : Loading L sb H W k i d sz s₀ s) :
    Post (loaduvm sb d addr k offset filesz) s (fun ok s' => Loading L sb H W k i d sz s₀ s' ∧
      (ok = true → ReadUpTo (addr / PGSIZE) (addr + filesz) s')) ExecStops := by
  obtain ⟨v, hv⟩ := Nat.dvd_of_mod_eq_zero haddr
  rw [Nat.mul_comm] at hv
  subst hv
  rw [loaduvm, if_neg (not_not.mpr haddr)]
  have hfuel : filesz ≤ (0 + (filesz / PGSIZE + 1)) * PGSIZE := by
    simp only [PGSIZE]
    omega
  have hloop := loadLoop_spec hr offset hfuel hfile h
  rw [Nat.zero_mul] at hloop
  rw [Nat.mul_div_cancel _ (by decide)]
  exact hloop.imp fun _ _ hs' => ⟨hs'.1, hs'.2.2⟩

/-! ### The program -/

lemma uint_lt (bs : List ℕ) (o : ℕ) : uint bs o < 2 ^ 32 := by
  have hbyte : ∀ j, bs.getD j 0 % 256 < 256 := fun j => Nat.mod_lt _ (by decide)
  have h₀ := hbyte o
  have h₁ := hbyte (o + 1)
  have h₂ := hbyte (o + 2)
  have h₃ := hbyte (o + 2 + 1)
  simp only [uint, ushort]
  omega

/-- **`allocuvm`** in an address space that is made. -/
lemma Making.allocuvm (hW : ∀ n ∈ W, L.Valid n) {vm : Phys} (h : Making L H W d sz vm) (newsz : ℕ)
    {E : Vm.Stop → Phys → Prop} :
    Post (allocuvm L d sz newsz) vm
      (fun r vm' => Evolved d H W vm vm' ∧ (r ≠ 0 → newsz ≤ r ∧ Making L H W d r vm')) E := by
  refine (allocuvm_spec hW h.space h.lt.le fun v hv _ => h.mapped.none hv).imp ?_
  rintro r vm' (⟨hlt, rfl, rfl⟩ | ⟨hle, hlt, ha⟩ | ⟨-, rfl, rfl⟩)
  · exact ⟨.refl h.space, fun _ => ⟨hlt.le, h⟩⟩
  · cases ha with
    | failed hev _ => exact ⟨hev, fun hne => absurd rfl hne⟩
    | grown hev hmem =>
      refine ⟨hev, fun _ => ⟨le_rfl, hev.space, h.kernel.same hev.kernel, fun v => ?_, hlt⟩⟩
      rw [hmem v]
      split
      · next hin => exact iff_of_true (Option.some_ne_none _) hin.2
      · next hout =>
        rw [h.mapped v]
        generalize v * PGSIZE = a at *
        omega
  · exact ⟨.refl h.space, fun hne => absurd rfl hne⟩

/-- What is there when the loop over the program headers ends. -/
inductive Segs (L : Vm.Layout) (sb : Superblock) (H W : Set ℕ) (k : Ip) (i d : ℕ) (s₀ s : State) :
    Option ℕ → Prop
  | bad (space : Space s.vm d (others s₀ H) W) (since : Since H W s₀ s)
      (file : FileOpen sb k i s₀ s) : Segs L sb H W k i d s₀ s none
  | loaded {sz : ℕ} (loading : Loading L sb H W k i d sz s₀ s) : Segs L sb H W k i d s₀ s (some sz)

lemma Loading.bad (h : Loading L sb H W k i d sz s₀ s) : Segs L sb H W k i d s₀ s none :=
  .bad h.making.space h.since h.file

/-- **The loop over the program headers**, whatever they are. -/
lemma loadSegs_spec (hr : Ready L sb cwd H W s₀) (h : Loading L sb H W k i d sz s₀ s) (n off : ℕ) :
    Post (loadSegs L sb d k n off sz) s (fun r s' => Segs L sb H W k i d s₀ s' r) ExecStops := by
  induction n generalizing s off sz with
  | zero => exact .loaded h
  | succ n ih =>
    rw [loadSegs]
    refine (readExact_spec h.file h.since off 32).seq ?_
    rintro r s₁ ⟨hopen, hs, hvm⟩
    have h₁ : Loading L sb H W k i d sz s₀ s₁ := ⟨hvm ▸ h.making, hs, hopen⟩
    cases r with
    | none => exact h₁.bad
    | some bs =>
      have hvaddr : (Proghdr.ofBytes bs).vaddr < 2 ^ 32 := uint_lt bs 8
      have hmemsz : (Proghdr.ofBytes bs).memsz < 2 ^ 32 := uint_lt bs 20
      dsimp only
      generalize Proghdr.ofBytes bs = ph at hvaddr hmemsz ⊢
      refine post_ite.mpr ⟨fun _ => ih h₁ _, fun _ => ?_⟩
      refine post_ite.mpr ⟨fun _ => h₁.bad, fun hsize => ?_⟩
      refine post_ite.mpr ⟨fun _ => h₁.bad, fun hwrap => ?_⟩
      rw [post_bind, post_liftVm]
      refine (h₁.making.allocuvm hr.valid _).mono (fun sz' vm' hvm' => ?_) fun _ _ => False.elim
      have hs₂ := h₁.since.vm hvm'.1.frame
      have hopen₂ := h₁.file.vm vm'
      refine post_ite.mpr ⟨fun _ => .bad hvm'.1.space hs₂ hopen₂, fun hne => ?_⟩
      obtain ⟨hle, hmaking⟩ := hvm'.2 hne
      have h₂ : Loading L sb H W k i d sz' s₀ { s₁ with vm := vm' } := ⟨hmaking, hs₂, hopen₂⟩
      refine post_ite.mpr ⟨fun _ => h₂.bad, fun halign => ?_⟩
      refine (loaduvm_spec hr ph.off (not_not.mp halign) ?_ h₂).seq ?_
      · -- The segment does not wrap around.
        have := hmaking.lt
        simp only [KERNBASE] at this
        omega
      · rintro ok s₃ ⟨h₃, -⟩
        cases ok with
        | true => exact ih h₃ _
        | false => exact h₃.bad

/-- What is there when the file has been released. -/
inductive Loaded (L : Vm.Layout) (sb : Superblock) (H W : Set ℕ) (s₀ s : State) :
    Option Image → Prop
  | failed (pool : Pool s.vm (others s₀ H) W) (since : Since H W s₀ s) (file : FileClosed sb s₀ s) :
      Loaded L sb H W s₀ s none
  | loaded {img : Image} (making : Making L (others s₀ H) W img.pgdir img.sz s.vm)
      (since : Since H W s₀ s) (file : FileClosed sb s₀ s) : Loaded L sb H W s₀ s (some img)

/-- The file is released. -/
lemma release_spec (hopen : FileOpen sb k i s₀ s) (hs : Since H W s₀ s) :
    Post (do liftFs (iunlockput sb k); endOp) s
      (fun _ s' => s'.vm = s.vm ∧ Since H W s₀ s' ∧ FileClosed sb s₀ s') ExecStops := by
  have hmid : Midcall sb s₀.fs.inode (node s₀.fs) [(k, i)] (insert k ∅) s.fs := by
    rw [LawfulSingleton.insert_empty_eq]
    exact hopen.mid
  have hno : k ∉ (∅ : Set Ip) := Set.notMem_empty k
  have hput : Post (iunlockput sb k) s.fs _ (Err False) := iunlockput_spec hmid hno
  have hquiet : Quiet True (iunlockput sb k) s.fs := iunlockput_quiet hmid hno hopen.kept
  rw [post_bind, post_liftFs]
  refine (Post.and hquiet hput).mono (fun _ t ht => ?_) fun e t ht => .inl (ht.1.2 trivial)
  have hs' := hs.fs ht.1.files
  exact ⟨rfl, ⟨hs'.proc, hs'.frame, hs'.files, hs'.loads⟩, ht.2.1, by
    change s.ops - 1 = s₀.ops
    rw [hopen.ops, Nat.add_sub_cancel]⟩

/-- A failure while the file is open. -/
lemma badFile_spec (hr : Ready L sb cwd H W s₀) (hopen : FileOpen sb k i s₀ s) (hs : Since H W s₀ s)
    {pgdir : Option ℕ} (hpool : pgdir = none → Pool s.vm (others s₀ H) W)
    (hspace : ∀ d, pgdir = some d → Space s.vm d (others s₀ H) W) :
    Post (badFile L sb pgdir k) s (fun r s' => Loaded L sb H W s₀ s' r) ExecStops := by
  have hfile : ∀ {s}, FileOpen sb k i s₀ s → Since H W s₀ s → Pool s.vm (others s₀ H) W →
      Post (do liftFs (iunlockput sb k); endOp; return (none : Option Image)) s
        (fun r s' => Loaded L sb H W s₀ s' r) ExecStops := by
    intro s hopen hs hpool
    have hrel := release_spec hopen hs
    rw [post_bind] at hrel ⊢
    refine hrel.imp fun _ t ht => ?_
    rw [post_bind]
    refine ht.imp fun _ s' hs' => ?_
    exact .failed (hs'.1 ▸ hpool) hs'.2.1 hs'.2.2
  cases pgdir with
  | none => exact hfile hopen hs (hpool rfl)
  | some d =>
    refine (post_bind _).mpr ((post_liftVm _).mpr ?_)
    refine (freevm_spec hr.valid (hspace d rfl)).mono (fun _ vm' hvm' => ?_) fun _ _ => False.elim
    exact hfile (hopen.vm vm') (hs.vm hvm'.2) hvm'.1

/-- **The program is loaded**, whatever the file is, or all is given back. -/
lemma load_spec (hr : Ready L sb cwd H W s₀) (path : List ℕ) :
    Post (load L sb cwd path) s₀ (fun r s => Loaded L sb H W s₀ s r) ExecStops := by
  have hpool : Pool s₀.vm (others s₀ H) W := hr.space.hide Vm.Place
  have hmid : Midcall sb s₀.fs.inode (node s₀.fs) [] ∅ { s₀.fs with logged := [] } :=
    hr.fs.start.congr rfl rfl rfl rfl rfl
  have hstart : Files.Start s₀.fs.inode (node s₀.fs) (fun _ => True) False cwd := .weak hr.ref
  have hquiet : Quiet True (namei sb cwd path) { s₀.fs with logged := [] } := by
    rw [namei]
    exact (namex_quiet hr.fs.kept (fun _ => hr.tidy) hr.ref hmid (fun _ => hr.root)
      (fun _ => hr.cwd) path false).bind (namex_spec hstart hmid path false) fun _ _ _ => .pure _
  rw [load, post_bind, beginOp, post_modify, post_bind, post_liftFs]
  refine (Post.and hquiet (namei_spec hstart hmid path)).mono ?_ fun e t ht => .inl (ht.1.2 trivial)
  rintro r t ⟨hdisk, hres⟩
  have hfiles : SameFiles s₀.fs t := ⟨hdisk.dinode, hdisk.bitmap, hdisk.data⟩
  obtain ⟨rfl, h₁⟩ | ⟨k, i, rfl, hwalk, -, h₁⟩ := hres
  · -- There is no such file.
    exact .failed hpool ⟨rfl, .refl _, hfiles, fun x hx => .inl hx⟩ ⟨h₁, rfl⟩
  have hkept := hr.fs.kept.walk (hr.fs.kept.startOf hr.ref path) hwalk
  have hthere := Tidy.walk hr.tidy (hr.startOf path) hwalk
  have hmem : (k, i) ∈ [(k, i)] := List.mem_cons_self
  obtain ⟨t₂, hlock, hlocked, hdisk₂⟩ := ilock_total h₁ hmem (Set.notMem_empty k) hthere.1
    (by rw [(h₁.node i).resolve_right fun hl => hkept hl.1]; exact hthere.2)
  have hmid₂ := hlocked.mid
  rw [LawfulSingleton.insert_empty_eq] at hmid₂
  have hopen₂ : FileOpen sb k i s₀ { s₀ with ops := s₀.ops + 1, fs := t₂ } :=
    ⟨hmid₂, hthere.1, hkept, rfl⟩
  have hs₂ : Since H W s₀ { s₀ with ops := s₀.ops + 1, fs := t₂ } :=
    ⟨rfl, .refl _, hfiles.trans hdisk₂.files, fun x hx => .inl hx⟩
  dsimp only
  rw [post_bind, post_liftFs, Post.ok_iff hlock]
  refine (readExact_spec hopen₂ hs₂ 0 52).seq ?_
  rintro r s₃ ⟨hopen, hs, hvm⟩
  have hpool₃ : Pool s₃.vm (others s₀ H) W := hvm ▸ hpool
  have hbad : Post (badFile L sb none k) s₃ (fun r s => Loaded L sb H W s₀ s r) ExecStops :=
    badFile_spec hr hopen hs (fun _ => hpool₃) fun d hd => (by cases hd)
  cases r with
  | none => exact hbad
  | some bs =>
    refine post_ite.mpr ⟨fun _ => hbad, fun _ => ?_⟩
    rw [post_bind, post_liftVm]
    refine (setupkvm_spec hr.valid hpool₃).mono (fun r vm' hvm' => ?_) fun _ _ => False.elim
    cases hvm' with
    | failed pool frame =>
      exact badFile_spec hr (hopen.vm vm') (hs.vm frame) (fun _ => pool) fun d hd => (by cases hd)
    | @made _ d space frame mem kernel =>
      have hloading : Loading L sb H W k i d 0 s₀ { s₃ with vm := vm' } := by
        refine ⟨⟨space, kernel, fun v => ?_, by decide⟩, hs.vm frame, hopen.vm vm'⟩
        rw [mem v]
        exact iff_of_false (fun hne => hne rfl) (Nat.not_lt_zero _)
      refine (loadSegs_spec hr hloading _ _).seq fun r s₄ hs₄ => ?_
      cases hs₄ with
      | bad space since file =>
        exact badFile_spec hr file since (fun hd => (by cases hd)) fun d' hd => by
          cases hd
          exact space
      | loaded loading =>
        have hrel := release_spec loading.file loading.since
        rw [post_bind] at hrel ⊢
        refine hrel.imp fun _ t ht => ?_
        rw [post_bind]
        refine ht.imp fun _ s' hs' => ?_
        exact .loaded (hs'.1 ▸ loading.making) hs'.2.1 hs'.2.2

end Xv6.Exec
