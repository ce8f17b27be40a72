import Xv6.Files.SharedFile

/-!
One process writes to a file (`filewrite` in `file.c`).

`filewrite` cuts a write into chunks, with a transaction for each; `writei` alone would write
everything or nothing.

* `Writes`: a whole call of `filewrite`, with nobody else at work.
* `chunk_runs`: one round of its loop, `chunks_written` and `chunks_refused`: the loop.
* `SameOutcome`: the call does what one `writei` does.
* `filewrite_writei`: when that is so.
-/

namespace Xv6.Files

open Xv6.Fs Transition Function

variable {P : Type*} [DecidableEq P] (sb : Superblock) (k : Ip)

/-- Steps of one process. -/
abbrev Steps (p : P) : Shared P → Shared P → Prop :=
  Relation.ReflTransGen fun a b => shareStep sb k a (.run p) = some b

/-- A call of `filewrite`, from its beginning to its return. -/
def Writes (p : P) (src : List ℕ) (s : Shared P) (r : Option ℕ) (s' : Shared P) : Prop :=
  ∃ s₁, shareStep sb k s (.write p src) = some s₁ ∧ Steps sb k p s₁ s' ∧ s'.pc p = .done src r

/-- There are enough blocks for a write to the file `i`. -/
def EnoughBlocks (fs : Fs) (i off n : ℕ) : Prop :=
  (missing fs.data (fs.dinode i) off n).card ≤ freeBlocks sb fs.bitmap

variable {sb k} {s s' : Shared P} {p : P} {w : Writer}

lemma Steps.of_pc (hpc : s.pc p = w) (h : filewrite sb k s p w = some s') : Steps sb k p s s' :=
  .single (by rwa [shareStep, hpc])

lemma Shared.exec_of_ok {α : Type} {m : FsM α} {a : α} {fs : Fs} {f : α → Writer}
    (h : m s.fs = .ok a fs) : s.exec m p f = some (Shared.goto { s with fs := fs } p (f a)) :=
  Shared.exec_eq_some.mpr ⟨a, fs, h, rfl⟩

/-- A call has one outcome. -/
lemma Writes.unique {src : List ℕ} {r r' : Option ℕ} {s'' : Shared P} (h : Writes sb k p src s r s')
    (h' : Writes sb k p src s r' s'') : s' = s'' ∧ r = r' := by
  obtain ⟨s₁, hs₁, hsteps, hdone⟩ := h
  obtain ⟨s₂, hs₂, hsteps', hdone'⟩ := h'
  obtain rfl : s₁ = s₂ := Option.some.inj (hs₁.symm.trans hs₂)
  -- A call that has returned makes no step.
  have hend {a b : Shared P} {r : Option ℕ} (ha : a.pc p = .done src r) (hab : Steps sb k p a b) :
      a = b := by
    induction hab using Relation.ReflTransGen.head_induction_on with
    | refl => rfl
    | head hstep _ _ =>
      rw [shareStep, ha] at hstep
      cases hstep
  have hright : Relator.RightUnique fun a b : Shared P => shareStep sb k a (.run p) = some b :=
    fun a b c hb hc => Option.some.inj (hb.symm.trans hc)
  have heq : s' = s'' := by
    rcases Relation.ReflTransGen.total_of_right_unique hright hsteps hsteps' with hle | hle
    · exact hend hdone hle
    · exact (hend hdone' hle).symm
  rw [heq, hdone'] at hdone
  cases hdone
  exact ⟨heq, rfl⟩

lemma missing_mono {data : ℕ → Bytes} {d : Dinode} {off m n : ℕ} (h : m ≤ n) :
    missing data d off m ⊆ missing data d off n := by
  refine Finset.monotone_filter_right _ ?_
  rintro p - ⟨⟨j, hj, hplace⟩, hz⟩
  exact ⟨⟨j, hj.trans_le h, hplace⟩, hz⟩

/-- The files as they are now. -/
lemma Midcall.now {B : Ip → Inode} {N : ℕ → Node} {H : List (Ip × ℕ)} {L : Set Ip} {t : Fs}
    (h : Midcall sb B N H L t) : Midcall sb B (Files.node t) H L t :=
  { h with node := fun _ => .inl rfl }

/-! ### A round -/

variable {B : Ip → Inode} {i n : ℕ} {src : List ℕ}

/-- The file is open and regular, and the process is at the beginning of a round. -/
structure AtLoop (sb : Superblock) (k : Ip) (B : Ip → Inode) (i : ℕ) (p : P) (src : List ℕ) (n : ℕ)
    (s : Shared P) : Prop where
  mid : Midcall sb B (node s.fs) [(k, i)] ∅ s.fs
  lt : i < sb.ninodes
  type : (node s.fs i).type = .file
  pc : s.pc p = .loop src n
  le : n ≤ src.length
  enough : EnoughBlocks sb s.fs i s.off (src.length - n)

section

variable (h : AtLoop sb k B i p src n s)

include h

/-- **A round**: the chunk is passed to `writei`, between `ilock` and `iunlock`. -/
lemma AtLoop.chunk_runs (hn : n < src.length) :
    ∃ t r u s', Midcall sb B (node s.fs) [(k, i)] {k} t ∧ SameDisk s.fs t ∧
      WrittenFile sb B (node s.fs) [(k, i)] {k} k i (chunkFrom src n) s.off t r u ∧
        SameDisk u s'.fs ∧
      Midcall sb B (node s'.fs) [(k, i)] ∅ s'.fs ∧ Steps sb k p s s' ∧ s'.pc p = .next src n r ∧
      s'.off = advance s.off r := by
  have hk : (k, i) ∈ [(k, i)] := List.mem_singleton_self _
  have htype : (node s.fs i).type ≠ .free := by rw [h.type]; decide
  obtain ⟨t, hilock, hlocked, hdisk⟩ := ilock_total h.mid hk (Set.notMem_empty k) h.lt htype
  have hmid := hlocked.mid
  rw [insert_empty_eq] at hmid
  obtain ⟨-, -, hdin⟩ := hmid.node_of_locked hk rfl
  have henough : (missing t.data (t.inode k).din s.off (chunkFrom src n).length).card
      ≤ freeBlocks sb t.bitmap := by
    rw [hdin, hdisk.data, hdisk.dinode, hdisk.bitmap, length_chunkFrom]
    exact (Finset.card_le_card (missing_mono (min_le_right ..))).trans h.enough
  obtain ⟨r, u, hwritei, hr⟩ := writei_enough hmid hk rfl (by rw [h.type]; decide) henough
  have hmid' : Midcall sb B (node u) [(k, i)] (insert k ∅) u := by
    rw [insert_empty_eq]
    cases hr with
    | range _ => exact hmid.now
    | done _ hu => exact hu.1.now
  have hunlock := (iunlock_spec (E := fun _ _ => False) hmid' (Set.notMem_empty k)).and iunlock_disk
  obtain ⟨_, v, hiunlock, ⟨hv, -, -⟩, hdisk'⟩ := hunlock.total fun _ _ he => he.1
  -- The places that the process comes to.
  obtain ⟨s₁, hs₁⟩ : ∃ s₁, s₁ = s.goto p (.ilock src n) := ⟨_, rfl⟩
  obtain ⟨s₂, hs₂⟩ : ∃ s₂ : Shared P, s₂ = Shared.goto { s₁ with fs := t } p (.writei src n) :=
    ⟨_, rfl⟩
  obtain ⟨s₃, hs₃⟩ : ∃ s₃ : Shared P, s₃ = Shared.goto { s₂ with fs := u } p (.off src n r) :=
    ⟨_, rfl⟩
  obtain ⟨s₄, hs₄⟩ : ∃ s₄ : Shared P, s₄ = Shared.goto { s₃ with off := advance s₃.off r } p
    (.iunlock src n r) :=
    ⟨_, rfl⟩
  obtain ⟨s₅, hs₅⟩ : ∃ s₅ : Shared P, s₅ = Shared.goto { s₄ with fs := v } p (.endOp src n r) :=
    ⟨_, rfl⟩
  have h₁ : Steps sb k p s s₁ := .of_pc h.pc (by rw [filewrite, if_pos hn, hs₁])
  have h₂ : Steps sb k p s₁ s₂ := by
    refine .of_pc (by rw [hs₁, Shared.goto_pc_self]) ?_
    rw [filewrite, Shared.exec_of_ok (show ilock sb k s₁.fs = .ok () t by rw [hs₁]; exact hilock),
      hs₂]
  have h₃ : Steps sb k p s₂ s₃ := by
    refine .of_pc (by rw [hs₂, Shared.goto_pc_self]) ?_
    rw [filewrite, Shared.exec_of_ok (show writei sb k (chunkFrom src n) s₂.off s₂.fs = .ok r u by
      rw [hs₂, hs₁]; exact hwritei), hs₃]
  have h₄ : Steps sb k p s₃ s₄ := .of_pc (by rw [hs₃, Shared.goto_pc_self]) (by rw [filewrite, hs₄])
  have h₅ : Steps sb k p s₄ s₅ := by
    refine .of_pc (by rw [hs₄, Shared.goto_pc_self]) ?_
    rw [filewrite, Shared.exec_of_ok (show iunlock k s₄.fs = .ok () v by
      rw [hs₄, hs₃]; exact hiunlock), hs₅]
  have h₆ : Steps sb k p s₅ (s₅.goto p (.next src n r)) :=
    .of_pc (by rw [hs₅, Shared.goto_pc_self]) (by rw [filewrite])
  have hfs : s₅.fs = v := by rw [hs₅]; rfl
  refine ⟨t, r, u, _, hmid, hdisk, hr, ?_, ?_,
    ((((h₁.trans h₂).trans h₃).trans h₄).trans h₅).trans h₆, Shared.goto_pc_self .., ?_⟩
  · rw [Shared.goto_fs, hfs]
    exact hdisk'
  · rw [Shared.goto_fs, hfs]
    exact hv.now
  · rw [Shared.goto_off, hs₅, hs₄, hs₃, hs₂, hs₁]
    rfl

/-! ### The loop -/

/-- A chunk that is in range is written, and there are enough blocks for the rest. -/
lemma AtLoop.written (hn : n < src.length) {x : Node}
    (hx : (node s.fs i).write (chunkFrom src n) s.off = some x) :
    ∃ s', Steps sb k p s s' ∧ AtLoop sb k B i p src (n + (chunkFrom src n).length) s' ∧
      s'.off = s.off + (chunkFrom src n).length ∧ node s'.fs i = x ∧
        ∀ j ≠ i, node s'.fs j = node s.fs j := by
  have hk : (k, i) ∈ [(k, i)] := List.mem_singleton_self _
  have hlen : (chunkFrom src n).length = min maxChunk (src.length - n) := length_chunkFrom
  have hpos := maxChunk_pos
  obtain ⟨t, r, u, s', hmid, hdisk, hr, hdisk', hmid', hsteps, hpc, hoff⟩ := h.chunk_runs hn
  cases hr with
  | range hnone =>
    rw [hx] at hnone
    cases hnone
  | @done u y hy hu =>
    obtain rfl : x = y := Option.some.inj (hx.symm.trans hy)
    obtain ⟨hmidu, hother, hadded⟩ := hu
    obtain ⟨hsize, hmax, hval⟩ := Node.write_eq_some.mp hx
    obtain ⟨-, htype, hdin⟩ := hmid.node_of_locked hk rfl
    obtain ⟨hnodeu, -, hdinu⟩ := hmidu.node_of_locked hk rfl
    have hnode' (j : ℕ) : node s'.fs j = node u j := by
      rw [node, node, hdisk'.data, hdisk'.dinode]
    have hself : node u i = x := by
      rw [hnodeu, update_self]
    have hoff' : s'.off = s.off + (chunkFrom src n).length := by
      rw [hoff, advance, if_pos (by omega)]
      refine Nat.mod_eq_of_lt ?_
      have hlt : MAXFILE * BSIZE < 2 ^ 32 := by decide
      omega
    refine ⟨s', hsteps, ⟨hmid', h.lt, ?_, ?_, by omega, ?_⟩, hoff', ?_, fun j hj => ?_⟩
    · rw [hnode', hself, hval]
      exact h.type
    · rw [hpc, Writer.next, if_neg (not_not.mpr rfl)]
    · have hstart : (missing t.data (t.inode k).din s.off (src.length - n)).card
          ≤ freeBlocks sb t.bitmap := by
        rw [hdin, hdisk.data, hdisk.dinode, hdisk.bitmap]
        exact h.enough
      have hrest := hadded.enough (hmid.sound_of_locked rfl).2 (by rwa [hdin]) (by omega) hstart
      rw [hdinu, Nat.sub_sub] at hrest
      rwa [EnoughBlocks, hoff', hdisk'.data, hdisk'.dinode, hdisk'.bitmap]
    · rw [hnode', hself]
    · rw [hnode', hother j hj, node, node, hdisk.data, hdisk.dinode]

/-- A chunk that is out of range ends the call. -/
lemma AtLoop.refused (hn : n < src.length)
    (hx : (node s.fs i).write (chunkFrom src n) s.off = none) :
    ∃ s', Steps sb k p s s' ∧ s'.pc p = .done src none ∧ s'.off = s.off ∧
      ∀ j, node s'.fs j = node s.fs j := by
  obtain ⟨t, r, u, s', hmid, hdisk, hr, hdisk', hmid', hsteps, hpc, hoff⟩ := h.chunk_runs hn
  cases hr with
  | range _ =>
    refine ⟨s', hsteps, ?_, hoff, fun j => ?_⟩
    · rw [hpc, Writer.next, Writer.finish, if_neg hn.ne]
    · rw [node, node, hdisk'.data, hdisk'.dinode, hdisk.data, hdisk.dinode]
  | done hy _ =>
    rw [hx] at hy
    cases hy

/-- The call returns when everything has been written. -/
lemma AtLoop.finish (hn : n = src.length) :
    Steps sb k p s (s.goto p (.done src (some src.length))) := by
  refine .of_pc h.pc ?_
  rw [filewrite, if_neg hn.not_lt, Writer.finish, if_pos hn]

/-- **Everything is written** if it fits in a file. -/
lemma AtLoop.chunks_written (hoff : s.off ≤ (node s.fs i).size)
    (hmax : s.off + (src.length - n) ≤ MAXFILE * BSIZE) :
    ∃ s', Steps sb k p s s' ∧ s'.pc p = .done src (some src.length) ∧
      s'.off = s.off + (src.length - n) ∧
      (node s.fs i).write (src.drop n) s.off = some (node s'.fs i) ∧
      ∀ j ≠ i, node s'.fs j = node s.fs j := by
  -- By induction on what is left.
  obtain ⟨m, hm⟩ : ∃ m, m = src.length - n := ⟨_, rfl⟩
  induction m using Nat.strong_induction_on generalizing n s with
  | _ m ih =>
  rcases h.le.lt_or_eq with hlt | rfl
  · have hlen : (chunkFrom src n).length = min maxChunk (src.length - n) := length_chunkFrom
    have hpos := maxChunk_pos
    have hwrites : ∃ x, (node s.fs i).write (chunkFrom src n) s.off = some x :=
      ⟨_, Node.write_eq_some.mpr ⟨hoff, by omega, rfl⟩⟩
    obtain ⟨x, hx⟩ := hwrites
    obtain ⟨s₁, hsteps, hloop, hoff₁, hnode₁, hother₁⟩ := h.written hlt hx
    have hval := (Node.write_eq_some.mp hx).2.2
    have hoff' : s₁.off ≤ (node s₁.fs i).size := by
      rw [hnode₁, hoff₁, hval]
      exact le_max_right ..
    obtain ⟨s', hsteps', hdone, hoff₂, hnode₂, hother₂⟩ :=
      ih _ (by omega) hloop hoff' (by omega) rfl
    refine ⟨s', hsteps.trans hsteps', hdone, by
      omega, ?_, fun j hj => (hother₂ j hj).trans (hother₁ j hj)⟩
    rw [hnode₁, hoff₁] at hnode₂
    have hsplit : src.drop n = chunkFrom src n ++ src.drop (n + (chunkFrom src n).length) := by
      rw [← List.drop_drop]
      exact (List.prefix_iff_eq_append.mp (List.take_prefix maxChunk (src.drop n))).symm
    rw [hsplit]
    exact Node.write_append hx hnode₂
  · refine ⟨_, h.finish rfl, Shared.goto_pc_self .., by rw [Nat.sub_self]; rfl, ?_, fun _ _ => rfl⟩
    rw [List.drop_length]
    exact Node.write_nil hoff (size_le h.mid.wf (by rw [h.type]; decide))

/-- **A part is written** if only a part fits in a file. -/
lemma AtLoop.chunks_refused (hoff : s.off ≤ (node s.fs i).size)
    (hmax : MAXFILE * BSIZE < s.off + (src.length - n)) :
    ∃ s', Steps sb k p s s' ∧ s'.pc p = .done src none ∧ s.off ≤ s'.off := by
  have hsize : (node s.fs i).size ≤ MAXFILE * BSIZE := size_le h.mid.wf (by rw [h.type]; decide)
  obtain ⟨m, hm⟩ : ∃ m, m = src.length - n := ⟨_, rfl⟩
  induction m using Nat.strong_induction_on generalizing n s with
  | _ m ih =>
  have hlt : n < src.length := by omega
  have hlen : (chunkFrom src n).length = min maxChunk (src.length - n) := length_chunkFrom
  have hpos := maxChunk_pos
  cases hx : (node s.fs i).write (chunkFrom src n) s.off with
  | none =>
    obtain ⟨s', hsteps, hdone, hoff', -⟩ := h.refused hlt hx
    exact ⟨s', hsteps, hdone, hoff'.ge⟩
  | some x =>
    obtain ⟨s₁, hsteps, hloop, hoff₁, hnode₁, -⟩ := h.written hlt hx
    obtain ⟨-, hfits, hval⟩ := Node.write_eq_some.mp hx
    have hsize₁ :
        (node s₁.fs i).size = max (node s.fs i).size (s.off + (chunkFrom src n).length) := by
      rw [hnode₁, hval]
    obtain ⟨s', hsteps', hdone, hle⟩ :=
      ih _ (by omega) hloop (by rw [hsize₁, hoff₁]; exact le_max_right ..)
      (by omega) (by rw [hsize₁]; exact max_le hsize hfits) rfl
    exact ⟨s', hsteps.trans hsteps', hdone, by omega⟩

end

/-! ### One call of `writei` -/

/-- `filewrite` does what one `writei` does: it returns the same; either that is the length and the
files are the ones that `writei` leaves, or it is -1 and the files and the offset are as before. -/
def SameOutcome (sb : Superblock) (k : Ip) (p : P) (src : List ℕ) (s : Shared P) : Prop :=
  ∃ t r u s', ilock sb k s.fs = .ok () t ∧ writei sb k src s.off t = .ok r u ∧
    Writes sb k p src s r s' ∧ (∀ j, node s'.fs j = node u j) ∧
    (r = some src.length ∧ s'.off = s.off + src.length ∨
      r = none ∧ (∀ j, node s'.fs j = node s.fs j) ∧ s'.off = s.off)

/-- A regular file that is open, with nobody at work and enough blocks for a write. -/
structure Solo (sb : Superblock) (k : Ip) (i : ℕ) (p : P) (src : List ℕ) (s : Shared P) : Prop where
  wf : Wf sb s.fs
  unlocked : ∀ j, (s.fs.inode j).lock = false
  ref : 0 < (s.fs.inode k).ref
  inum : (s.fs.inode k).inum = i
  lt : i < sb.ninodes
  type : (node s.fs i).type = .file
  out : (s.pc p).Out
  enough : EnoughBlocks sb s.fs i s.off src.length

namespace Solo

variable (h : Solo sb k i p src s)

include h

omit [DecidableEq P] in
lemma size_le : (node s.fs i).size ≤ MAXFILE * BSIZE :=
  Files.size_le h.wf (by rw [h.type]; decide)

omit [DecidableEq P] in
lemma mid : Midcall sb (without k s.fs.inode) (node s.fs) [(k, i)] ∅ s.fs :=
  h.inum ▸ .hold h.wf h.unlocked h.ref

/-- The call begins. -/
lemma step : shareStep sb k s (.write p src) = some (s.goto p (.loop src 0)) := by
  rw [shareStep, if_pos h.out]

lemma loop : AtLoop sb k (without k s.fs.inode) i p src 0 (s.goto p (.loop src 0)) :=
  ⟨h.mid, h.lt, h.type, Shared.goto_pc_self .., Nat.zero_le _, h.enough⟩

omit [DecidableEq P] in
/-- The single call. -/
lemma single :
    ∃ t r u, ilock sb k s.fs = .ok () t ∧ (∀ j, node t j = node s.fs j) ∧
      writei sb k src s.off t = .ok r u ∧
      WrittenFile sb (without k s.fs.inode) (node s.fs) [(k, i)] {k} k i src s.off t r u := by
  have hk : (k, i) ∈ [(k, i)] := List.mem_singleton_self _
  obtain ⟨t, hilock, hlocked, hdisk⟩ :=
    ilock_total h.mid hk (Set.notMem_empty k) h.lt (by rw [h.type]; decide)
  have hmid := hlocked.mid
  rw [insert_empty_eq] at hmid
  obtain ⟨-, -, hdin⟩ := hmid.node_of_locked hk rfl
  have henough : (missing t.data (t.inode k).din s.off src.length).card
      ≤ freeBlocks sb t.bitmap := by
    rw [hdin, hdisk.data, hdisk.dinode, hdisk.bitmap]
    exact h.enough
  obtain ⟨r, u, hwritei, hr⟩ := writei_enough hmid hk rfl (by rw [h.type]; decide) henough
  exact ⟨t, r, u, hilock, hlocked.node, hwritei, hr⟩

omit [DecidableEq P] in
/-- What is out of range is refused by the single call. -/
lemma single_none (hout : ¬(s.off ≤ (node s.fs i).size ∧ s.off + src.length ≤ MAXFILE * BSIZE)) :
    ∃ t, ilock sb k s.fs = .ok () t ∧ (∀ j, node t j = node s.fs j) ∧
      writei sb k src s.off t = .ok none t := by
  obtain ⟨t, r, u, hilock, hnode, hwritei, hr⟩ := h.single
  cases hr with
  | range _ => exact ⟨t, hilock, hnode, hwritei⟩
  | done hx _ =>
    obtain ⟨hoff, hmax, -⟩ := Node.write_eq_some.mp hx
    exact absurd ⟨hoff, hmax⟩ hout

/-- Everything fits. -/
lemma sameOutcome_of_fits (hoff : s.off ≤ (node s.fs i).size)
    (hmax : s.off + src.length ≤ MAXFILE * BSIZE) : SameOutcome sb k p src s := by
  obtain ⟨t, r, u, hilock, hnode, hwritei, hr⟩ := h.single
  obtain ⟨s', hsteps, hdone, hoff', hwrite, hother'⟩ := h.loop.chunks_written hoff hmax
  cases hr with
  | range hnone =>
    rw [Node.write_eq_some.mpr ⟨hoff, hmax, rfl⟩] at hnone
    cases hnone
  | @done u x hx hu =>
    obtain ⟨hmid, hother, -⟩ := hu
    have hself : node s'.fs i = node u i := by
      rw [(hmid.node_of_locked (List.mem_singleton_self _) rfl).1, update_self]
      exact Option.some.inj (hwrite.symm.trans hx)
    refine ⟨t, _, u, s', hilock, hwritei, ⟨_, h.step, hsteps, hdone⟩, fun j => ?_,
      .inl ⟨rfl, hoff'⟩⟩
    by_cases hj : j = i
    · rw [hj, hself]
    · rw [hother' j hj, hother j hj, hnode]
      rfl

/-- The first chunk is refused. -/
lemma sameOutcome_of_refused (hpos : 0 < src.length)
    (hout : ¬(s.off ≤ (node s.fs i).size ∧ s.off + min src.length maxChunk ≤ MAXFILE * BSIZE)) :
    SameOutcome sb k p src s := by
  have hlen : (chunkFrom src 0).length = min maxChunk src.length := length_chunkFrom
  have hx : (node s.fs i).write (chunkFrom src 0) s.off = none := by
    by_contra hsome
    obtain ⟨x, hx⟩ := Option.ne_none_iff_exists'.mp hsome
    obtain ⟨hoff, hmax, -⟩ := Node.write_eq_some.mp hx
    exact hout ⟨hoff, by omega⟩
  obtain ⟨t, hilock, hnode, hwritei⟩ := h.single_none fun hin => hout ⟨hin.1, by omega⟩
  obtain ⟨s', hsteps, hdone, hoff, hnode'⟩ := h.loop.refused hpos hx
  refine ⟨t, none, t, s', hilock, hwritei, ⟨_, h.step, hsteps, hdone⟩, fun j => ?_,
    .inr ⟨rfl, hnode', hoff⟩⟩
  rw [hnode', hnode]
  rfl

/-- The single call is refused, and `filewrite` returns something else or has moved the offset. -/
lemma not_sameOutcome
    (hout : ¬(s.off ≤ (node s.fs i).size ∧ s.off + src.length ≤ MAXFILE * BSIZE)) {r : Option ℕ}
    (hsteps : Steps sb k p (s.goto p (.loop src 0)) s') (hdone : s'.pc p = .done src r)
    (hne : r ≠ none ∨ s'.off ≠ s.off) : ¬SameOutcome sb k p src s := by
  obtain ⟨t, hilock, -, hwritei⟩ := h.single_none hout
  rintro ⟨t', r', u, s'', hilock', hwritei', hwrites, -, hres⟩
  rw [hilock] at hilock'
  cases hilock'
  rw [hwritei] at hwritei'
  cases hwritei'
  obtain ⟨rfl, rfl⟩ := hwrites.unique ⟨_, h.step, hsteps, hdone⟩
  obtain ⟨hsome, -⟩ | ⟨-, -, hoff⟩ := hres
  · cases hsome
  · exact hne.elim (fun hr => hr rfl) fun hmoved => hmoved hoff

/-- There is nothing to write: the loop makes no round. -/
lemma not_sameOutcome_of_empty (hempty : src.length = 0) (hoff : (node s.fs i).size < s.off) :
    ¬SameOutcome sb k p src s :=
  h.not_sameOutcome (by omega) (h.loop.finish hempty.symm) (Shared.goto_pc_self ..)
    (.inl (Option.some_ne_none _))

/-- **The first chunk is written** and then the call fails. -/
lemma not_sameOutcome_of_part (hoff : s.off ≤ (node s.fs i).size)
    (hfirst : s.off + min src.length maxChunk ≤ MAXFILE * BSIZE)
    (hmax : MAXFILE * BSIZE < s.off + src.length) : ¬SameOutcome sb k p src s := by
  have hlen : (chunkFrom src 0).length = min maxChunk src.length := length_chunkFrom
  have hsize := h.size_le
  have hpos := maxChunk_pos
  have hwrites : ∃ x, (node s.fs i).write (chunkFrom src 0) s.off = some x :=
    ⟨_, Node.write_eq_some.mpr ⟨hoff, by omega, rfl⟩⟩
  obtain ⟨x, hx⟩ := hwrites
  obtain ⟨s₁, hsteps, hloop, hoff₁, hnode₁, -⟩ := h.loop.written (by omega) hx
  rw [Shared.goto_off] at hoff₁
  obtain ⟨s', hsteps', hdone, hle⟩ := hloop.chunks_refused
    (by rw [hnode₁, hoff₁, (Node.write_eq_some.mp hx).2.2]; exact le_max_right ..) (by omega)
  exact h.not_sameOutcome (by omega) (hsteps.trans hsteps') hdone (.inr (by omega))

end Solo

/-- Everything fits in a file, or the first chunk does not, or the offset is behind the end; and the
offset is not behind the end if there is nothing to write. -/
def Whole (off size n : ℕ) : Prop :=
  (n = 0 → off ≤ size) ∧
    (off + n ≤ MAXFILE * BSIZE ∨ MAXFILE * BSIZE < off + min n maxChunk ∨ size < off)

/-- **When `filewrite` does what one `writei` does.** -/
theorem filewrite_writei (h : Solo sb k i p src s) :
    SameOutcome sb k p src s ↔ Whole s.off (node s.fs i).size src.length := by
  have hsize := h.size_le
  by_cases hempty : src.length = 0
  · rcases le_or_gt s.off (node s.fs i).size with hoff | hoff
    · exact ⟨fun _ => ⟨fun _ => hoff, .inl (by omega)⟩,
        fun _ => h.sameOutcome_of_fits hoff (by omega)⟩
    · refine ⟨fun hsame => absurd hsame (h.not_sameOutcome_of_empty hempty hoff), fun hwhole => ?_⟩
      have := hwhole.1 hempty
      omega
  by_cases hfirst : s.off ≤ (node s.fs i).size ∧ s.off + min src.length maxChunk ≤ MAXFILE * BSIZE
  · rcases le_or_gt (s.off + src.length) (MAXFILE * BSIZE) with hmax | hmax
    · exact ⟨fun _ => ⟨fun h0 => absurd h0 hempty, .inl hmax⟩,
        fun _ => h.sameOutcome_of_fits hfirst.1 hmax⟩
    · refine ⟨fun hsame => absurd hsame (h.not_sameOutcome_of_part hfirst.1 hfirst.2 hmax),
        fun hwhole => ?_⟩
      have := hwhole.2
      omega
  · exact ⟨fun _ => ⟨fun h0 => absurd h0 hempty, .inr (by omega)⟩,
      fun _ => h.sameOutcome_of_refused (Nat.pos_of_ne_zero hempty) hfirst⟩

/-- A disk that has room for the largest file. -/
def bigDisk : Superblock where
  size := 400
  ninodes := 8
  inodestart := 2
  bmapstart := 4
  size_lt := by decide
  inodes := smallDisk.inodes
  room := by decide
  ninodes_le := smallDisk.ninodes_le
  root := smallDisk.root

/-- Two chunks for an empty file. -/
theorem filewrite_writei_twoChunks : maxChunk < 2000 ∧
    SameOutcome bigDisk (Fin.last 49) 0 (List.replicate 2000 1) emptyFile := by
  have h := openFile_emptyFile
  have hwf : Wf bigDisk emptyFile.fs := .one sound_emptyFile nofun nofun
  have hsolo : Solo bigDisk (Fin.last 49) 2 0 (List.replicate 2000 1) emptyFile :=
    ⟨hwf, h.unlocked, h.ref, h.inum, by decide, h.type, trivial,
      (Finset.card_le_univ _).trans (by decide +kernel)⟩
  refine ⟨by decide, (filewrite_writei hsolo).mpr ?_⟩
  rw [List.length_replicate]
  exact ⟨fun h0 => absurd h0 (by decide), .inl (by decide)⟩

/-- A file of 70144 bytes is made, and there are enough blocks for 1537 more. -/
lemma exists_longFile : ∃ u v,
    writei bigDisk (Fin.last 49) (List.replicate 70144 1) 0 lockedFile = .ok (some 70144) u ∧
      iunlock (Fin.last 49) u = .ok () v ∧ (node v 2).type = .file ∧ (node v 2).size = 70144 ∧
      EnoughBlocks bigDisk v 2 70144 1537 ∧
      ∃ B, Midcall bigDisk B (node v) [(Fin.last 49, 2)] ∅ v := by
  have hself : lockedFile.inode (Fin.last 49)
      = { inum := 2, ref := 1, lock := true, valid := true, din := .fresh .file } := by
    simp only [lockedFile, update_self]
  have hk : (Fin.last 49, 2) ∈ [((Fin.last 49 : Ip), 2)] := List.mem_singleton_self _
  have hlocked : {j | (lockedFile.inode j).lock = true} = insert (Fin.last 49) ∅ := by
    ext j
    rw [Set.mem_ofPred_eq, insert_empty_eq, Set.mem_singleton_iff]
    by_cases hj : j = Fin.last 49
    · simp only [hj, hself]
    · simp only [lockedFile, update_of_ne hj, hj, Bool.false_eq_true]
  have hmid :=
    Midcall.holding (k := Fin.last 49) (wf_lockedFile (rfl : bigDisk.nmeta = smallDisk.nmeta))
    (by rw [hself]; exact Nat.one_pos)
  rw [hself, hlocked] at hmid
  have hL : Fin.last 49 ∈ insert (Fin.last 49) (∅ : Set Ip) := Set.mem_insert ..
  have hall : (missing lockedFile.data (lockedFile.inode (Fin.last 49)).din 0 71681).card
      ≤ freeBlocks bigDisk lockedFile.bitmap :=
    (Finset.card_le_univ _).trans (by decide +kernel)
  have hlen : (List.replicate 70144 1).length = 70144 := List.length_replicate
  have hempty : node lockedFile 2 = .fresh .file := rfl
  have henough : (missing lockedFile.data (lockedFile.inode (Fin.last 49)).din 0
      (List.replicate 70144 1).length).card ≤ freeBlocks bigDisk lockedFile.bitmap :=
    (Finset.card_le_card (missing_mono (by rw [hlen]; decide))).trans hall
  obtain ⟨r, u, hwritei, hr⟩ := writei_enough hmid hk hL (by rw [hempty]; decide) henough
  have hin : 0 + (List.replicate 70144 1).length ≤ MAXFILE * BSIZE := by rw [hlen]; decide
  cases hr with
  | range hnone =>
    rw [Node.write_eq_some.mpr ⟨Nat.zero_le _, hin, rfl⟩] at hnone
    cases hnone
  | @done u x hx hu =>
    rw [hlen] at hwritei
    obtain ⟨hmidu, -, hadded⟩ := hu
    obtain ⟨-, -, hval⟩ := Node.write_eq_some.mp hx
    obtain ⟨hnode, -, hdin⟩ := hmidu.node_of_locked hk hL
    have hunlock :=
      (iunlock_spec (E := fun _ _ => False) hmidu (Set.notMem_empty _)).and iunlock_disk
    obtain ⟨_, v, hiunlock, ⟨hv, -, -⟩, hdisk⟩ := hunlock.total fun _ _ he => he.1
    have hnodev : node v 2 = x := by
      rw [node, hdisk.data, hdisk.dinode, ← node, hnode, update_self]
    have hrest := hadded.enough (n := 71681) (hmid.sound_of_locked hL).2 (by rw [hself]; decide)
      (by rw [hlen]; decide) hall
    rw [hlen, hdin] at hrest
    refine ⟨u, v, hwritei, hiunlock, ?_, ?_, ?_, _, hv.now⟩
    · rw [hnodev, hval, hempty]
      rfl
    · rw [hnodev, hval, hempty, hlen]
      rfl
    · rwa [EnoughBlocks, hdisk.data, hdisk.dinode, hdisk.bitmap]

/-- The file has 70144 bytes, and the offset is at its end: 1536 of the next 1537 bytes fit. -/
theorem filewrite_part : ∃ u v,
    writei bigDisk (Fin.last 49) (List.replicate 70144 1) 0 lockedFile = .ok (some 70144) u ∧
      iunlock (Fin.last 49) u = .ok () v ∧ Wf bigDisk v ∧ (node v 2).type = .file ∧
      (node v 2).size = 70144 ∧ EnoughBlocks bigDisk v 2 70144 1537 ∧
      ¬SameOutcome bigDisk (Fin.last 49) 0 (List.replicate 1537 2)
        { fs := v, off := 70144, pc := fun _ : ℕ => .idle } := by
  obtain ⟨u, v, hwritei, hiunlock, htype, hsize, henough, B, hv⟩ := exists_longFile
  have hk : (Fin.last 49, 2) ∈ [((Fin.last 49 : Ip), 2)] := List.mem_singleton_self _
  have hlen : (List.replicate 1537 2).length = 1537 := List.length_replicate
  have hsolo : Solo bigDisk (Fin.last 49) 2 0 (List.replicate 1537 2)
      { fs := v, off := 70144, pc := fun _ : ℕ => .idle } :=
    ⟨hv.wf, fun j => Bool.eq_false_of_not_eq_true fun hl => (hv.lock j).mp hl, hv.pos hk,
      hv.held _ hk, by decide, htype, trivial, by rw [hlen]; exact henough⟩
  refine ⟨u, v, hwritei, hiunlock, hv.wf, htype, hsize, henough,
    hsolo.not_sameOutcome_of_part hsize.ge ?_ ?_⟩
  · rw [hlen]
    show 70144 + min 1537 maxChunk ≤ MAXFILE * BSIZE
    decide
  · rw [hlen]
    show MAXFILE * BSIZE < 70144 + 1537
    decide

end Xv6.Files
