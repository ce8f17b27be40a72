import Xv6.Fs.Contents

/-!
The commit protocol: what is on the disk at each point of `commit` and
`recover_from_log`.

`H` is what the home blocks hold once the committed operations are in place, and
`V` what they will hold when the open operations are committed too.

* `Quiet`: nothing is committed that is not in place, and what is logged is pinned
  in the cache.
* `Logging j`: moreover the first `j` logged blocks are in the log area.
* `Installing j`: the header on the disk lists the logged blocks, and the first `j`
  of them are in place.
* `StageAt`: which of these holds at which point; `Stage`: the point that the machine
  is at.
* `stage_of_trans`: every step keeps it, where the write of the header by the first
  `write_head` makes `V` the committed contents, and a crash makes `H` the
  contents again.
-/

namespace Xv6.Fs

open Transition RedoLog Function

variable {n : ℕ} {L : Layout} {H V : ℕ → Block} {d : Disk} {lh : List ℕ} {pin pin' : ℕ → Prop}

structure Quiet (L : Layout) (H V : ℕ → Block) (d : Disk) (lh : List ℕ) (pin : ℕ → Prop) :
    Prop where
  empty : L.redo.listed d = []
  disk : ∀ b, L.Home b → d b = H b
  home : ∀ b ∈ lh, L.Home b
  nodup : lh.Nodup
  pinned : ∀ b ∈ lh, pin b
  same : ∀ b ∉ lh, V b = H b

structure Logging (L : Layout) (H V : ℕ → Block) (d : Disk) (lh : List ℕ) (pin : ℕ → Prop)
    (j : ℕ) : Prop where
  quiet : Quiet L H V d lh pin
  slots : ∀ i < j, ∀ b, lh[i]? = some b → d (L.slot i) = V b

structure Installing (L : Layout) (H V : ℕ → Block) (d : Disk) (lh : List ℕ) (j : ℕ) : Prop where
  recoverable : Recoverable L.redo H d
  listed : L.redo.listed d = lh
  same : V = H
  placed : ∀ i < j, ∀ b, lh[i]? = some b → d b = H b

/-- The log is installed and about to be erased. -/
structure Installed (L : Layout) (H V : ℕ → Block) (d : Disk) (lh : List ℕ) : Prop where
  recoverable : Recoverable L.redo H d
  disk : ∀ b, L.Home b → d b = H b
  same : V = H
  lh : lh = []

/-- The stages of the protocol. -/
inductive Status where
  | recovering
  | logging (j : ℕ)
  | installing (j : ℕ)
  | installed
  | erased

/-- The stage a point of `commit` or `recover_from_log` belongs to, where `k` blocks
are logged. -/
def Phase.status (k : ℕ) : Phase → Status
  | .readHead | .gotHead _ => .recovering
  | .loop .writeLog j | .loopLog .writeLog j _ | .loopBoth .writeLog j _ _ => .logging j
  | .loopCopied .writeLog j _ _ | .loopLast .writeLog j _ => .logging (j + 1)
  | .writeHead true | .fillHead true _ => .logging k
  | .wroteHead true _ => .installing 0
  | .loop .installTrans j | .loopLog .installTrans j _ | .loopBoth .installTrans j _ _ =>
    .installing j
  | .loopCopied .installTrans j _ _ | .loopLast .installTrans j _ => .installing (j + 1)
  | .writeHead false | .fillHead false _ => .installed
  | .wroteHead false _ | .finish => .erased

def Status.Holds (L : Layout) (H V : ℕ → Block) (d : Disk) (lh : List ℕ) (pin : ℕ → Prop) :
    Status → Prop
  | .recovering => Recoverable L.redo H d ∧ V = H
  | .logging j => Logging L H V d lh pin j
  | .installing j => Installing L H V d lh j
  | .installed => Installed L H V d lh
  | .erased => Quiet L H V d lh pin ∧ lh = []

/-- The loops stay inside the list, and from the first log block on the list is known
to fit into the log area. -/
def Phase.Fits (lh : List ℕ) : Phase → Prop
  | .loop .writeLog tail => tail = 0 ∨ lh.length < LOGSIZE
  | .loopLog _ tail _ | .loopBoth _ tail _ _ => tail < lh.length ∧ lh.length < LOGSIZE
  | .loopCopied .writeLog _ _ _ | .loopLast .writeLog _ _ | .writeHead true | .fillHead true _ =>
    lh.length < LOGSIZE
  | _ => True

/-- What holds at a point of `commit` or `recover_from_log`. -/
structure StageAt (L : Layout) (H V : ℕ → Block) (d : Disk) (lh : List ℕ) (pin : ℕ → Prop)
    (p : Phase) : Prop where
  holds : (p.status lh.length).Holds L H V d lh pin
  fits : p.Fits lh

/-! ### Recovery is possible in every stage -/

lemma Quiet.recoverable (h : Quiet L H V d lh pin) : Recoverable L.redo H d :=
  .of_listed_nil h.empty h.disk

lemma Status.Holds.recoverable {st : Status} (h : st.Holds L H V d lh pin) :
    Recoverable L.redo H d := by
  cases st with
  | recovering => exact h.1
  | logging => exact h.quiet.recoverable
  | installing => exact Installing.recoverable h
  | installed => exact Installed.recoverable h
  | erased => exact h.1.recoverable

/-! ### Steps of other processes -/

lemma Quiet.mono (h : Quiet L H V d lh pin) (hp : ∀ b ∈ lh, pin b → pin' b) :
    Quiet L H V d lh pin' :=
  { h with pinned := fun b hb => hp b hb (h.pinned b hb) }

lemma Status.Holds.mono {st : Status} (h : st.Holds L H V d lh pin)
    (hp : ∀ b ∈ lh, pin b → pin' b) : st.Holds L H V d lh pin' := by
  cases st with
  | logging => exact ⟨h.quiet.mono hp, h.slots⟩
  | erased => exact ⟨h.1.mono hp, h.2⟩
  | recovering | installing | installed => exact h

/-! ### The writes of the protocol -/

variable {j b : ℕ}

/-- `write_log` puts the next block into its slot. -/
lemma Logging.write (h : Logging L H V d lh pin j) (hj : j < LOGSIZE - 1) (hb : lh[j]? = some b) :
    Logging L H V (update d (L.slot j) (V b)) lh pin (j + 1) := by
  have hrec := h.quiet.recoverable.write_slot h.quiet.empty hj (V b)
  have hempty : L.redo.listed (update d (L.slot j) (V b)) = [] :=
    (listed_update (L.redo.slot_ne_head j hj) (V b)).trans h.quiet.empty
  refine ⟨{ h.quiet with empty := hempty, disk := fun x hx => ?_ }, fun i hi x hx => ?_⟩
  · have hx' : x ∉ L.redo.listed (update d (L.slot j) (V b)) := by simp [hempty]
    exact hrec.rest x hx hx'
  · rcases Nat.lt_succ_iff_lt_or_eq.mp hi with hlt | rfl
    · have hne : L.slot i ≠ L.slot j := fun he =>
        hlt.ne (L.redo.slot_inj i (hlt.trans hj) j hj he)
      rw [update_of_ne hne]
      exact h.slots i hlt x hx
    · obtain rfl : b = x := Option.some.inj (hb.symm.trans hx)
      exact update_self ..

/-- `log_write` pins the block and adds it to the header. -/
lemma Quiet.logWrite (h : Quiet L H V d lh pin) (hb : L.Home b)
    (hpin : ∀ x, pin x → pin' x) (hpb : pin' b) (v : Block) :
    Quiet L H (update V b v) d (absorb lh b) pin' := by
  refine ⟨h.empty, h.disk, fun x hx => ?_, nodup_absorb h.nodup b, fun x hx => ?_, fun x hx => ?_⟩
  · rcases mem_absorb.mp hx with hx | rfl
    · exact h.home x hx
    · exact hb
  · rcases mem_absorb.mp hx with hx | rfl
    · exact hpin x (h.pinned x hx)
    · exact hpb
  · rw [mem_absorb, not_or] at hx
    rw [update_of_ne hx.2]
    exact h.same x hx.1

/-- `commit` starts with the log blocks to write, or has nothing to do. -/
lemma Quiet.commitStart (h : Quiet L H V d lh pin) : StageAt L H V d lh pin (commitStart lh) := by
  rw [Fs.commitStart]
  split
  · exact ⟨⟨h, fun i hi => absurd hi (Nat.not_lt_zero i)⟩, .inl rfl⟩
  · rename_i hlen
    exact ⟨⟨h, List.length_eq_zero_iff.mp (by omega)⟩, trivial⟩

/-- The first `write_head` commits. -/
lemma Logging.commit (h : Logging L H V d lh pin lh.length) (hfit : lh.length < LOGSIZE)
    (old : Block) :
    Installing L V V (update d L.logstart (writeHead lh old)) lh 0 := by
  have hread : L.redo.read (writeHead lh old) = lh :=
    readHead_writeHead hfit (fun b hb => (h.quiet.home b hb).1) old
  refine ⟨?_, ?_, rfl, fun i hi => absurd hi (Nat.not_lt_zero i)⟩
  · apply h.quiet.recoverable.commit h.quiet.empty <;> rw [hread]
    · exact Nat.le_sub_one_of_lt hfit
    · exact h.quiet.home
    · intro i b hi
      exact h.slots i (List.getElem?_eq_some_iff.mp hi).1 b hi
    · intro b _ hb
      exact h.quiet.same b hb
  · exact (listed_update_head _).trans hread

/-- `install_trans` puts the next block into place. -/
lemma Installing.write (h : Installing L H V d lh j) (hb : lh[j]? = some b) :
    Installing L H V (update d b (H b)) lh (j + 1) := by
  have hlist : (L.redo.listed d)[j]? = some b := by rw [h.listed, hb]
  have hhome : L.Home b := h.recoverable.home b (List.mem_of_getElem? hlist)
  have hne : b ≠ L.logstart := fun he => hhome.2 (he ▸ L.inLog_head)
  refine ⟨h.recoverable.install hlist, (listed_update hne _).trans h.listed, h.same, ?_⟩
  intro i hi x hx
  rcases eq_or_ne x b with rfl | hxb
  · exact update_self ..
  · rw [update_of_ne hxb]
    rcases Nat.lt_succ_iff_lt_or_eq.mp hi with hlt | rfl
    · exact h.placed i hlt x hx
    · exact absurd (Option.some.inj (hx.symm.trans hb)) hxb

/-- At the end of `install_trans` every block is in place. -/
lemma Installing.done (h : Installing L H V d lh j) (hj : lh.length ≤ j) :
    Installed L H V d [] := by
  refine ⟨h.recoverable, h.recoverable.installed fun b hb => ?_, h.same, rfl⟩
  rw [h.listed] at hb
  obtain ⟨i, hi, rfl⟩ := List.getElem_of_mem hb
  exact h.placed i (by omega) _ (List.getElem?_eq_getElem hi)

/-- The second `write_head` erases the log. -/
lemma Installed.erase (h : Installed L H V d lh) (old : Block) :
    Quiet L H V (update d L.logstart (writeHead lh old)) lh pin ∧ lh = [] := by
  obtain ⟨hrec, hdisk, rfl, rfl⟩ := h
  have hread : L.redo.read (writeHead [] old) = [] :=
    readHead_writeHead (by decide) (by simp) old
  have hempty : L.redo.listed (update d L.logstart (writeHead [] old)) = [] :=
    (listed_update_head _).trans hread
  refine ⟨⟨hempty, fun b hb => ?_, by simp, List.nodup_nil, by simp, by simp⟩, rfl⟩
  have hb' : b ∉ L.redo.listed (update d L.logstart (writeHead [] old)) := by simp [hempty]
  exact (Recoverable.erase hdisk hread).rest b hb hb'

/-! ### The points of `commit` and `recover_from_log` -/

/-- The blocks listed on the disk fit. -/
lemma Installing.length_lt (h : Installing L H V d lh j) : lh.length < LOGSIZE := by
  have hroom := h.recoverable.room
  rw [h.listed] at hroom
  exact Nat.lt_of_le_of_lt hroom (show LOGSIZE - 1 < LOGSIZE by decide)

variable {p : Phase} {i : BufId}

lemma StageAt.read {s : Machine n} {q : BufId → Phase}
    {c : Cache n} (h : StageAt L H V d lh (Pinned s.cache) p) (hr : Reads L lh p b q)
    (hb : BgetTo s.cache b i c) : StageAt L H V d lh (Pinned c) (q i) := by
  have hmono := h.holds.mono fun b _ hp => Pinned.bget hp hb
  cases hr with
  | readHead => exact ⟨hmono, trivial⟩
  | @slot k tail htail =>
    cases k with
    | writeLog =>
      refine ⟨hmono, htail, ?_⟩
      rcases h.fits with rfl | hfit
      · -- the buffer of the first log block is none of those of the logged blocks
        have hnot : L.slot 0 ∉ lh := fun hmem =>
          (hmono.quiet.home _ hmem).2 (L.inLog_slot (by decide))
        exact length_lt_of_pinned hmono.quiet.nodup hmono.quiet.pinned hb.blockno hnot
      · exact hfit
    | installTrans => exact ⟨hmono, htail, Installing.length_lt hmono⟩
  | @home k => cases k <;> exact ⟨hmono, h.fits⟩
  | @writeHead first =>
    cases first
    · exact ⟨hmono, trivial⟩
    · exact ⟨hmono, h.fits⟩

lemma StageAt.release {q : Phase} (h : StageAt L H V d lh pin p)
    (hr : Releases p i q) (hp : ∀ b ∈ lh, pin b → pin' b) : StageAt L H V d lh pin' q := by
  have hmono := h.holds.mono hp
  cases hr with
  | @copied k => cases k <;> exact ⟨hmono, h.fits⟩
  | @last k =>
    cases k
    · exact ⟨hmono, .inr h.fits⟩
    · exact ⟨hmono, trivial⟩
  | committed | erased => exact ⟨hmono, trivial⟩

/-- The first `write_head` is about to write the header. -/
def Phase.commits : Phase → Bool
  | .fillHead true _ => true
  | _ => false

variable {t : Tid n} {w : Caller}

/-- A `bwrite` of `commit` or `recover_from_log` carries the protocol on. -/
lemma StageAt.write {s : Machine n} {q : Phase}
    {data : Block} {x : ℕ} (h : StageAt L H V s.disk s.log.lh (Pinned s.cache) p)
    (hs : Sound L s) (hc : Contents L V s) (hcall : s.call t = .none)
    (hm : s.mode t = .busy w p) (hw : Writes s p i data q) (hx : (s.cache.buf i).blockno = some x) :
    StageAt L (if p.commits then V else H) V (update s.disk x data) s.log.lh
      (Pinned (s.cache.setBuf i
        { s.cache.buf i with data := data, valid := true, dirty := false })) q := by
  have huses : ∀ j b, Uses L s.log.lh p j b → (s.cache.buf j).blockno = some b ∧
      (s.cache.buf j).lock = some t := by
    intro j b hu
    obtain ⟨hb, hr⟩ := hs.owners.uses t w p j b hm hu
    exact ⟨hb, hr.resolve_right (by simp [hcall])⟩
  cases hw with
  | @copy k tail l e =>
    obtain ⟨y, hy⟩ : ∃ y, s.log.lh[tail]? = some y := ⟨_, List.getElem?_eq_getElem h.fits.1⟩
    obtain ⟨hlog, hlock⟩ := huses l _ .bothLog
    obtain ⟨hhome, -⟩ := huses e _ (.bothHome hy)
    have hslot : tail < LOGSIZE - 1 := by
      have h1 := h.fits.1
      have h2 := h.fits.2
      omega
    cases k with
    | writeLog =>
      have hst : Logging L H V s.disk s.log.lh (Pinned s.cache) tail := h.holds
      have hmem : y ∈ s.log.lh := List.mem_of_getElem? hy
      have hdata := hc.data_of_pinned hs hm (hst.quiet.pinned y hmem) hhome
      obtain rfl : L.slot tail = x := Option.some.inj (hlog.symm.trans hx)
      have hnext : (Status.logging (tail + 1)).Holds L H V _ _ _ := hst.write hslot hy
      rw [← hdata] at hnext
      refine ⟨hnext.mono fun b hb hp => ?_, h.fits.2⟩
      -- the buffer written is not that of a home block
      refine hp.setBuf rfl fun hlb => ?_
      have hbx : L.slot tail = b := Option.some.inj (hlog.symm.trans hlb)
      exact absurd (hbx ▸ L.inLog_slot hslot) (hst.quiet.home b hb).2
    | installTrans =>
      have hst : Installing L H V s.disk s.log.lh tail := h.holds
      have hdata : (s.cache.buf l).data = H y := by
        rw [hc.copies.mirror l _ hlog (L.inLog_slot hslot) (hs.cache.valid hcall hlock)]
        exact hst.recoverable.logged tail y (by rw [hst.listed, hy])
      have hnext := hst.write hy
      obtain rfl : y = x := Option.some.inj (hhome.symm.trans hx)
      rw [← hdata] at hnext
      exact ⟨hnext, trivial⟩
  | @head first =>
    obtain ⟨hb, -⟩ := huses i _ .fillHead
    obtain rfl : L.logstart = x := Option.some.inj (hb.symm.trans hx)
    cases first with
    | false => exact ⟨Installed.erase h.holds _, trivial⟩
    | true => exact ⟨Logging.commit h.holds h.fits _, trivial⟩

/-! ### The machine -/

/-- The stage that the machine is in. -/
structure Stage (L : Layout) (H V : ℕ → Block) (s : Machine n) : Prop where
  busy : ∀ t w p, s.mode t = .busy w p →
    StageAt L H V s.disk s.log.lh (Pinned s.cache) p
  quiet : (∀ t w p, s.mode t ≠ .busy w p) →
    Quiet L H V s.disk s.log.lh (Pinned s.cache)

namespace Stage

variable {s s' : Machine n}

/-- The stage is that of the one process in `commit` or `recover_from_log`. -/
lemma of_busy (ho : Ops s.log s.mode)
    (hm : s.mode t = .busy w p) (h : StageAt L H V s.disk s.log.lh (Pinned s.cache) p) :
    Stage L H V s := by
  refine ⟨fun u w' q hu => ?_, fun hn => absurd hm (hn t w p)⟩
  obtain rfl := ho.unique u t _ _ _ _ hu hm
  obtain ⟨rfl, rfl⟩ : w' = w ∧ q = p := by simpa using hu.symm.trans hm
  exact h

lemma of_quiet (hn : ∀ t w p, s.mode t ≠ .busy w p)
    (h : Quiet L H V s.disk s.log.lh (Pinned s.cache)) : Stage L H V s :=
  ⟨fun t w p hm => absurd hm (hn t w p), fun _ => h⟩

/-- Whatever the stage, the machine can crash. -/
lemma recoverable (h : Stage L H V s) : Recoverable L.redo H s.disk := by
  by_cases hn : ∀ t w p, s.mode t ≠ .busy w p
  · exact (h.quiet hn).recoverable
  · push Not at hn
    obtain ⟨t, w, p, hm⟩ := hn
    exact (h.busy t w p hm).holds.recoverable

lemma powerOn (h : Recoverable L.redo H d) : Stage L H H (powerOn d : Machine n) :=
  of_busy ops_powerOn (t := 0) (w := .recover) (p := .readHead) rfl ⟨⟨h, rfl⟩, trivial⟩

/-- A step of `commit` or `recover_from_log`. -/
lemma phaseTo (h : Stage L H V s) (hs : Sound L s)
    (hc : Contents L V s) (hcall : s.call t = .none) (hm : s.mode t = .busy w p)
    (hp : PhaseTo L s t w p s') : Stage L (if p.commits then V else H) V s' := by
  have hst := h.busy t w p hm
  have ho := ops_of_phaseTo hs.ops hm hp
  cases hp with
  | @read _ _ q b c i hr hb =>
    have hno : p.commits = false := by cases hr <;> rfl
    rw [hno]
    exact of_busy ho (update_self ..) (hst.read hr hb)
  | @release _ _ q i hr =>
    have hno : p.commits = false := by cases hr <;> rfl
    rw [hno]
    exact of_busy ho (update_self ..)
      (hst.release hr fun b _ hp => hp.setBuf rfl fun _ hd => hd)
  | @write _ _ q i data x hw _ _ hx =>
    exact of_busy ho (update_self ..) (hst.write hs hc hcall hm hw hx)
  | @decode _ i hl =>
    obtain ⟨hrec, hV⟩ : Recoverable L.redo H s.disk ∧ V = H := hst.holds
    have hhead : (s.cache.buf i).data = s.disk L.logstart :=
      hc.copies.mirror i _ (hs.owners.uses t w _ i _ hm .gotHead).1 L.inLog_head
        (hs.cache.valid hcall hl)
    have hlisted : L.redo.listed s.disk = readHead (s.cache.buf i).data := by
      rw [hhead]
      rfl
    exact of_busy ho (update_self ..)
      ⟨⟨hrec, hlisted, hV, fun j hj => absurd hj (Nat.not_lt_zero j)⟩, trivial⟩
  | @logged _ tail hlen =>
    have hlog : Logging L H V s.disk s.log.lh (Pinned s.cache) tail := hst.holds
    have hfit : s.log.lh.length < LOGSIZE := by
      rcases hst.fits with rfl | hfit
      · exact Nat.lt_of_le_of_lt hlen (by decide)
      · exact hfit
    exact of_busy ho (update_self ..)
      ⟨⟨hlog.quiet, fun j hj => hlog.slots j (lt_of_lt_of_le hj hlen)⟩, hfit⟩
  | installed hlen =>
    exact of_busy ho (update_self ..) ⟨Installing.done hst.holds hlen, trivial⟩
  | endCommit =>
    refine of_quiet (fun u w' q hu => ?_) hst.holds.1
    rcases eq_or_ne u t with rfl | hne
    · simp at hu
    · simp only [update_of_ne hne, wakeup_eq_busy] at hu
      exact hne (hs.ops.unique u t _ _ _ _ hu hm)
  | endRecover => exact of_quiet (by simp) hst.holds.1

/-- A step that writes nothing to the disk, keeps the header and moves nobody into or
out of `commit` keeps the stage. -/
lemma frame (h : Stage L H V s) (hd : s'.disk = s.disk) (hlh : s'.log.lh = s.log.lh)
    (hpin : ∀ b, Pinned s.cache b → Pinned s'.cache b)
    (hmode : ∀ u w p, s'.mode u = .busy w p ↔ s.mode u = .busy w p) : Stage L H V s' := by
  constructor
  · intro u w p hu
    have hst := h.busy u w p ((hmode u w p).mp hu)
    rw [hd, hlh]
    exact ⟨hst.holds.mono fun b _ => hpin b, hst.fits⟩
  · intro hn
    rw [hd, hlh]
    exact (h.quiet fun u w p hu => hn u w p ((hmode u w p).mpr hu)).mono fun b _ => hpin b

end Stage

/-- The step is the disk write of the first `write_head`. -/
def commits (s : Machine n) : Act n → Bool
  | .run t =>
    match s.mode t with
    | .busy _ p => p.commits
    | _ => false
  | _ => false

/-- The contents that recovery leads to after a step. -/
def nextCommitted (H V : ℕ → Block) (s : Machine n) (a : Act n) : ℕ → Block :=
  if commits s a then V else H

/-- The contents with the open operations after a step. -/
def nextContents (H V : ℕ → Block) (s : Machine n) : Act n → ℕ → Block
  | .crash => H
  | a => replay (logged s a) V

lemma contents_next {s s' : Machine n} {a : Act n} (h : Contents L V s) (hs : Sound L s)
    (ht : Trans L s a s') : Contents L (nextContents H V s a) s' := by
  cases a with
  | crash =>
    cases ht
    exact contents_powerOn s.disk
  | _ => exact contents_of_trans h hs ht

/-- **The commit protocol**: every step carries the stage on. -/
theorem stage_of_trans {s s' : Machine n} {a : Act n} (h : Stage L H V s) (hs : Sound L s)
    (hc : Contents L V s) (ht : Trans L s a s') :
    Stage L (nextCommitted H V s a) (nextContents H V s a) s' := by
  have hquiet := pinned_of_trans hs ht
  cases ht with
  | crash => exact .powerOn h.recoverable
  | phase hcall hm hp =>
    simp only [nextCommitted, commits, hm]
    exact h.phaseTo hs hc hcall hm hp
  | lock | cached | fill | unref | bread | modify | brelse =>
    obtain ⟨hd, hpin⟩ := hquiet (by simp [Act.actor]) (by simp)
    exact h.frame hd rfl hpin fun _ _ _ => Iff.rfl
  | sleep hm | beginOp hm =>
    exact h.frame rfl rfl (fun _ => id)
      (update_eq_busy (by rcases hm with hm | hm <;> simp [hm]) (by simp))
  | wake hm | logCheck _ hm =>
    exact h.frame rfl rfl (fun _ => id) (update_eq_busy (by simp [hm]) (by simp))
  | endOp _ hm =>
    refine h.frame rfl rfl (fun _ => id) fun u w p => ?_
    rw [← wakeup_eq_busy (m := s.mode)]
    exact update_eq_busy (by simp [hm]) (by simp) u w p
  | @logWrite t i b hm hb =>
    have hnot := hs.ops.not_busy (t := t) (by rw [hm]; trivial)
    obtain ⟨hd, hpin⟩ := hquiet (by simp [Act.actor]) (by simp)
    have hhome : L.Home b := by
      obtain ⟨x, hx, hhome⟩ := hs.owners.forHome (by simp [hm]) (.inl (hs.cache.checked t i hm).1)
      exact Option.some.inj (hx.symm.trans hb) ▸ hhome
    have heq : nextContents H V s (.logWrite t) = update V b (s.cache.buf i).data := by
      simp only [nextContents, logged, hm, hb]
      rfl
    rw [heq]
    refine .of_quiet (fun u w p => ?_) ((h.quiet hnot).logWrite hhome hpin ⟨i, ?_, ?_⟩ _)
    · exact fun hu => hnot u w p ((update_eq_busy (by simp [hm]) (by simp) u w p).mp hu)
    · simpa using hb
    · simp
  | @endLast t _ hm _ _ ho =>
    have hq := h.quiet (hs.ops.not_busy (t := t) (by rw [hm]; trivial))
    exact .of_busy (hs.ops.endLast hm ho _) (update_self ..) hq.commitStart

end Xv6.Fs
