import Xv6.Files.ByteArray
import Xv6.Fs.Block
import Xv6.Transition.Run

/-!
Processes that write through one open file (`filewrite` in `file.c`).

The open file is writable and of type `FD_INODE`; its inode `k` is the one of a regular file and
its offset is shared.  A step of a process is one of the calls in the loop of `filewrite`, which
are made in any interleaving.  `begin_op` and `end_op` may keep a process waiting for as long as
they like.

* `Writer`, `filewrite`, `shareStep`: the loop of `filewrite` and the system.
* `chunks`, `requests`: what was passed to `writei` and to `filewrite`.
* `Sharing`: between any two steps the file is the one before with the chunks written to it, one
  behind the other.
* `Writer.todo`: what is left of a call; `spelled_of_run`.
-/

namespace Xv6.Files

open Xv6.Fs Transition Function

/-! ### The code -/

/-- How much `filewrite` writes in a transaction, `max`. -/
def maxChunk : ℕ := (MAXOPBLOCKS - 1 - 1 - 2) / 2 * 512

/-- The bytes from `addr + i` that are written next. -/
def chunkFrom (src : List ℕ) (i : ℕ) : List ℕ := (src.drop i).take maxChunk

/-- Where a process is in `filewrite`: it writes `src` and has written `i` bytes of it; `r` is what
`writei` has returned, with `none` for -1. -/
inductive Writer where
  | idle
  | loop (src : List ℕ) (i : ℕ)
  | ilock (src : List ℕ) (i : ℕ)
  | writei (src : List ℕ) (i : ℕ)
  | off (src : List ℕ) (i : ℕ) (r : Option ℕ)
  | iunlock (src : List ℕ) (i : ℕ) (r : Option ℕ)
  | endOp (src : List ℕ) (i : ℕ) (r : Option ℕ)
  /-- The panic `short filewrite`. -/
  | panic
  /-- The call has returned `r`. -/
  | done (src : List ℕ) (r : Option ℕ)
  deriving DecidableEq

namespace Writer

/-- `return i == n ? n : -1` -/
def finish (src : List ℕ) (i : ℕ) : Writer :=
  .done src (if i = src.length then some src.length else none)

/-- After `end_op`. -/
def next (src : List ℕ) (i : ℕ) : Option ℕ → Writer
  | none => finish src i
  | some r => if r ≠ (chunkFrom src i).length then .panic else .loop src (i + r)

/-- The process is not in a call. -/
def Out : Writer → Prop
  | .idle => True
  | .done .. => True
  | _ => False

instance : DecidablePred Out := fun w => by
  cases w <;> unfold Out <;> infer_instance

/-- The process has the lock of the inode. -/
def Inside : Writer → Prop
  | .writei .. => True
  | .off .. => True
  | .iunlock .. => True
  | _ => False

end Writer

/-- The file system, the offset of the open file, and the processes. -/
structure Shared (P : Type*) where
  fs : Fs
  off : ℕ
  pc : P → Writer

inductive ShareAct (P : Type*) where
  /-- A process calls `filewrite`. -/
  | write (p : P) (src : List ℕ)
  | run (p : P)

variable {P : Type*} [DecidableEq P]

namespace Shared

variable (s : Shared P)

def goto (p : P) (w : Writer) : Shared P := { s with pc := update s.pc p w }

/-- Code of the file system runs.  A process that has to sleep makes no step. -/
def exec {α : Type} (m : FsM α) (p : P) (w : α → Writer) : Option (Shared P) :=
  match m s.fs with
  | .ok a fs => some (goto { s with fs := fs } p (w a))
  | .error _ _ => none

lemma exec_eq_some {s s' : Shared P} {α : Type} {m : FsM α} {p : P} {w : α → Writer} :
    s.exec m p w = some s' ↔
      ∃ a fs, m s.fs = .ok a fs ∧ s' = goto { s with fs := fs } p (w a) := by
  unfold exec
  cases m s.fs with
  | ok a fs => simp [eq_comm]
  | error e fs => simp

@[simp] lemma goto_fs (p : P) (w : Writer) : (s.goto p w).fs = s.fs := rfl

@[simp] lemma goto_off (p : P) (w : Writer) : (s.goto p w).off = s.off := rfl

@[simp] lemma goto_pc_self (p : P) (w : Writer) : (s.goto p w).pc p = w := update_self ..

lemma goto_pc_of_ne {p q : P} (h : q ≠ p) (w : Writer) : (s.goto p w).pc q = s.pc q :=
  update_of_ne h ..

end Shared

/-- `if (r > 0) f->off += r` -/
def advance (off : ℕ) (r : Option ℕ) : ℕ :=
  match r with
  | some r => if 0 < r then (off + r) % 2 ^ 32 else off
  | none => off

variable (sb : Superblock) (k : Ip)

/-- The loop of `filewrite`. -/
def filewrite (s : Shared P) (p : P) : Writer → Option (Shared P)
  | .idle => none
  | .loop src i => some (s.goto p (if i < src.length then .ilock src i else .finish src i))
  | .ilock src i => s.exec (ilock sb k) p fun _ => .writei src i
  | .writei src i => s.exec (writei sb k (chunkFrom src i) s.off) p (.off src i)
  | .off src i r => some (Shared.goto { s with off := advance s.off r } p (.iunlock src i r))
  | .iunlock src i r => s.exec (iunlock k) p fun _ => .endOp src i r
  | .endOp src i r => some (s.goto p (.next src i r))
  | .panic => none
  | .done .. => none

def shareStep (s : Shared P) : ShareAct P → Option (Shared P)
  | .write p src => if (s.pc p).Out then some (s.goto p (.loop src 0)) else none
  | .run p => filewrite sb k s p (s.pc p)

/-! ### What is written -/

/-- The bytes that a step passes to `writei`. -/
def chunkAt : Shared P × ShareAct P → Option (P × List ℕ)
  | (s, .run p) =>
    match s.pc p with
    | .writei src i => some (p, chunkFrom src i)
    | _ => none
  | (_, .write ..) => none

/-- The bytes that a step passes to `filewrite`. -/
def requestAt : Shared P × ShareAct P → Option (P × List ℕ)
  | (_, .write p src) => some (p, src)
  | (_, .run _) => none

def chunks (tr : List (Shared P × ShareAct P)) : List (P × List ℕ) := tr.filterMap chunkAt

def requests (tr : List (Shared P × ShareAct P)) : List (P × List ℕ) := tr.filterMap requestAt

/-- What one process has in a list of chunks or requests. -/
def ofProc (p : P) (l : List (P × List ℕ)) : List (List ℕ) := (l.filter (·.1 = p)).map Prod.snd

/-- The bytes of a list of chunks or requests. -/
def bytes (l : List (P × List ℕ)) : List ℕ := l.flatMap Prod.snd

/-- The chunks of a call, in order. -/
def pieces (src : List ℕ) : List (List ℕ) :=
  (List.range ((src.length + (maxChunk - 1)) / maxChunk)).map fun m => chunkFrom src (m * maxChunk)

/-- A write does not exceed the size of the largest file. -/
def Fits (e : Shared P × ShareAct P) : Prop :=
  ∀ c, chunkAt e = some c → e.1.off + c.2.length ≤ MAXFILE * BSIZE

section Chunks

variable {tr : List (Shared P × ShareAct P)} {e : Shared P × ShareAct P} {c : P × List ℕ}
  {src : List ℕ} {i : ℕ}

lemma maxChunk_pos : 0 < maxChunk := by decide

omit [DecidableEq P] in
lemma chunks_snoc : chunks (tr ++ [e]) = chunks tr ++ (chunkAt e).toList := by
  rw [chunks, List.filterMap_append, List.filterMap_cons, List.filterMap_nil, chunks]
  cases chunkAt e <;> rfl

omit [DecidableEq P] in
lemma requests_snoc : requests (tr ++ [e]) = requests tr ++ (requestAt e).toList := by
  rw [requests, List.filterMap_append, List.filterMap_cons, List.filterMap_nil, requests]
  cases requestAt e <;> rfl

lemma ofProc_append (p : P) (l l' : List (P × List ℕ)) :
    ofProc p (l ++ l') = ofProc p l ++ ofProc p l' := by
  simp [ofProc]

omit [DecidableEq P] in
lemma bytes_append (l l' : List (P × List ℕ)) : bytes (l ++ l') = bytes l ++ bytes l' :=
  List.flatMap_append

lemma length_chunkFrom : (chunkFrom src i).length = min maxChunk (src.length - i) := by
  simp [chunkFrom]

/-- The rest of a call begins with the next chunk. -/
lemma pieces_drop (h : i < src.length) :
    pieces (src.drop i) = chunkFrom src i :: pieces (src.drop (i + maxChunk)) := by
  have hpos := maxChunk_pos
  unfold pieces chunkFrom
  generalize maxChunk = c at hpos ⊢
  have hcount : ((src.drop i).length + (c - 1)) / c
      = ((src.drop (i + c)).length + (c - 1)) / c + 1 := by
    rw [List.length_drop, List.length_drop, ← Nat.add_div_right _ hpos]
    rcases le_or_gt (i + c) src.length with hle | hlt
    · congr 1
      omega
    · rw [Nat.sub_eq_zero_of_le hlt.le, Nat.div_eq_of_lt_le (k := 1),
        Nat.div_eq_of_lt_le (k := 1)] <;> omega
  rw [hcount, List.range_succ_eq_map, List.map_cons, List.map_map, Nat.zero_mul, List.drop_zero]
  congr 1
  refine List.map_congr_left fun m _ => ?_
  rw [Function.comp_apply, List.drop_drop, List.drop_drop, Nat.succ_mul, Nat.add_assoc,
    Nat.add_comm c]

lemma pieces_drop_of_le (h : src.length ≤ i) : pieces (src.drop i) = [] := by
  rw [List.drop_eq_nil_of_le h]
  rfl

/-- The chunks of a call together are what it writes. -/
lemma flatten_pieces (src : List ℕ) : (pieces src).flatten = src := by
  -- By induction on what is left of the call.
  suffices h : ∀ n i, src.length - i ≤ n → (pieces (src.drop i)).flatten = src.drop i from
    h src.length 0 (Nat.sub_le ..)
  intro n
  induction n with
  | zero =>
    intro i hi
    rw [pieces_drop_of_le (by omega), List.drop_eq_nil_of_le (by omega), List.flatten_nil]
  | succ n ih =>
    intro i hi
    rcases lt_or_ge i src.length with hlt | hge
    · have hpos := maxChunk_pos
      rw [pieces_drop hlt, List.flatten_cons, ih _ (by omega), ← List.drop_drop, chunkFrom,
        List.take_append_drop]
    · rw [pieces_drop_of_le hge, List.drop_eq_nil_of_le hge, List.flatten_nil]

lemma flatten_flatMap_pieces (l : List (List ℕ)) : (l.flatMap pieces).flatten = l.flatten := by
  induction l with
  | nil => rfl
  | cons src l ih =>
    rw [List.flatMap_cons, List.flatten_append, flatten_pieces, ih, List.flatten_cons]

end Chunks

/-! ### The shared file -/

/-- An open file of a regular file, and nobody in `filewrite`.  An offset is never beyond the end:
it starts at 0, reading and writing move it no further than to the end, and a file that is in use
does not shrink. -/
structure OpenFile (i : ℕ) (s : Shared P) : Prop where
  wf : Wf sb s.fs
  unlocked : ∀ j, (s.fs.inode j).lock = false
  ref : 0 < (s.fs.inode k).ref
  inum : (s.fs.inode k).inum = i
  type : (node s.fs i).type = .file
  off : s.off ≤ (node s.fs i).size
  idle : ∀ p, s.pc p = .idle

/-- The bytes that are written but not yet counted in the offset. -/
def Writer.pending : Writer → ℕ
  | .off _ _ r => r.getD 0
  | _ => 0

/-- The inodes that the processes have locked. -/
def lockedBy (s : Shared P) : Set Ip := {j | j = k ∧ ∃ p, (s.pc p).Inside}

/-- **The file between two steps** is the one before with the chunks written to it, one behind the
other.  One process at a time has the lock, and the offset lags behind by what it has yet to
count. -/
structure Sharing (i : ℕ) (s₀ : Shared P) (cs : List (P × List ℕ)) (s : Shared P) : Prop where
  mid : ∃ N, Midcall sb (without k s₀.fs.inode) N [(k, i)] (lockedBy k s) s.fs
  node : (node s₀.fs i).write (bytes cs) s₀.off = some (node s.fs i)
  one : ∀ p q, (s.pc p).Inside → (s.pc q).Inside → p = q
  off : ∀ p, (s.pc p).Inside → s.off + (s.pc p).pending = s₀.off + (bytes cs).length
  offOut : (∀ p, ¬(s.pc p).Inside) → s.off = s₀.off + (bytes cs).length

variable {sb k} {i : ℕ} {s₀ s s' : Shared P} {cs : List (P × List ℕ)} {p : P}

omit [DecidableEq P] in
lemma OpenFile.sharing (h : OpenFile sb k i s) : Sharing sb k i s [] s := by
  have hout : ∀ p, ¬(s.pc p).Inside := fun p hp => by
    rw [h.idle p] at hp
    exact hp
  have hlocked : lockedBy k s = ∅ :=
    Set.eq_empty_of_forall_notMem fun j hj => hout _ hj.2.choose_spec
  have htype : (Files.node s.fs i).type ≠ .free := by
    rw [h.type]
    decide
  refine ⟨⟨Files.node s.fs, ?_⟩, Node.write_nil h.off (size_le h.wf htype),
    fun p _ hp => absurd hp (hout p), fun p hp => absurd hp (hout p), fun _ => rfl⟩
  rw [hlocked, ← h.inum]
  exact .hold h.wf h.unlocked h.ref

variable {r : Option ℕ} {n : ℕ}

namespace Sharing

variable {w : Writer}

omit [DecidableEq P] in
lemma lockedBy_of_inside (hp : (s.pc p).Inside) : lockedBy k s = {k} :=
  Set.ext fun _ => ⟨fun h => h.1, fun h => ⟨h, p, hp⟩⟩

omit [DecidableEq P] in
lemma lockedBy_of_out (hout : ∀ p, ¬(s.pc p).Inside) : lockedBy k s = ∅ :=
  Set.eq_empty_of_forall_notMem fun _ h => hout _ h.2.choose_spec

/-- Who else is inside after a process has moved. -/
lemma inside_goto {q : P} (h : ((s.goto p w).pc q).Inside) :
    q = p ∧ w.Inside ∨ q ≠ p ∧ (s.pc q).Inside := by
  by_cases hq : q = p
  · subst hq
    rw [Shared.goto_pc_self] at h
    exact .inl ⟨rfl, h⟩
  · rw [Shared.goto_pc_of_ne _ hq] at h
    exact .inr ⟨hq, h⟩

/-- A process moves and the lock stays where it is. -/
lemma move (h : Sharing sb k i s₀ cs s) {off : ℕ} (hw : w.Inside ↔ (s.pc p).Inside)
    (hoff : w.Inside → off + w.pending = s.off + (s.pc p).pending)
    (hout : ¬w.Inside → off = s.off) :
    Sharing sb k i s₀ cs (Shared.goto { s with off := off } p w) := by
  have hinside : ∀ q, ((Shared.goto { s with off := off } p w).pc q).Inside ↔ (s.pc q).Inside := by
    intro q
    by_cases hq : q = p
    · subst hq
      rw [Shared.goto_pc_self, hw]
    · rw [Shared.goto_pc_of_ne _ hq]
  have hlocked : lockedBy k (Shared.goto { s with off := off } p w) = lockedBy k s := by
    simp only [lockedBy, hinside]
  refine ⟨?_, h.node, fun q q' hq hq' => h.one q q' ((hinside q).mp hq) ((hinside q').mp hq'),
    fun q hq => ?_, fun hall => ?_⟩
  · rw [hlocked]
    exact h.mid
  · by_cases hqp : q = p
    · subst hqp
      rw [Shared.goto_pc_self] at hq ⊢
      exact (hoff hq).trans (h.off q (hw.mp hq))
    · -- Another process has the lock.
      have hw' : ¬w.Inside := fun hin => hqp (h.one q p ((hinside q).mp hq) (hw.mp hin))
      rw [Shared.goto_pc_of_ne _ hqp, Shared.goto_off, hout hw']
      exact h.off q ((hinside q).mp hq)
  · have hall' : ∀ q, ¬(s.pc q).Inside := fun q hq => hall q ((hinside q).mpr hq)
    rw [Shared.goto_off, hout fun hin => hall' p (hw.mp hin)]
    exact h.offOut hall'

/-- A process that stays out of the lock. -/
lemma outside (h : Sharing sb k i s₀ cs s) (hp : ¬(s.pc p).Inside) (hw : ¬w.Inside) :
    Sharing sb k i s₀ cs (s.goto p w) := by
  have hmove : Sharing sb k i s₀ cs (Shared.goto { s with off := s.off } p w) :=
    h.move ⟨fun hin => absurd hin hw, fun hin => absurd hin hp⟩ (fun hin => absurd hin hw)
      fun _ => rfl
  exact hmove

variable {src : List ℕ}

lemma ilock (h : Sharing sb k i s₀ cs s) {fs : Fs} {a : Unit}
    (hm : Files.ilock sb k s.fs = .ok a fs) :
    Sharing sb k i s₀ cs (Shared.goto { s with fs := fs } p (.writei src n)) := by
  obtain ⟨N, hmid⟩ := h.mid
  have hspec : Post (Files.ilock sb k) s.fs (fun _ t => Locked sb _ N _ _ k s.fs t) (Err False) :=
    ilock_spec hmid List.mem_cons_self False.elim
  have hlocked := hspec.ok hm
  have hout : ∀ q, ¬(s.pc q).Inside := fun q hq => hlocked.notMem ⟨rfl, q, hq⟩
  refine ⟨⟨N, ?_⟩, ?_, fun q q' hq hq' => ?_, fun q hq => ?_, fun hall => ?_⟩
  · rw [lockedBy_of_inside (p := p) (by rw [Shared.goto_pc_self]; trivial)]
    have hL := hlocked.mid
    rwa [lockedBy_of_out hout, insert_empty_eq] at hL
  · rw [Shared.goto_fs, hlocked.node]
    exact h.node
  · have hq₁ := (inside_goto hq).resolve_right fun hr => hout q hr.2
    have hq₂ := (inside_goto hq').resolve_right fun hr => hout q' hr.2
    rw [hq₁.1, hq₂.1]
  · obtain ⟨rfl, -⟩ := (inside_goto hq).resolve_right fun hr => hout q hr.2
    rw [Shared.goto_pc_self]
    exact h.offOut hout
  · have hp := hall p
    rw [Shared.goto_pc_self] at hp
    exact absurd trivial hp

lemma iunlock (h : Sharing sb k i s₀ cs s) {fs : Fs} {a : Unit} (hp : s.pc p = .iunlock src n r)
    (hm : Files.iunlock k s.fs = .ok a fs) :
    Sharing sb k i s₀ cs (Shared.goto { s with fs := fs } p (.endOp src n r)) := by
  obtain ⟨N, hmid⟩ := h.mid
  have hin : (s.pc p).Inside := by
    rw [hp]
    trivial
  rw [lockedBy_of_inside hin, ← insert_empty_eq] at hmid
  obtain ⟨hmid', hnode, -⟩ := (iunlock_spec (E := fun _ _ => True) hmid (Set.notMem_empty k)).ok hm
  -- Nobody else has the lock.
  have hout : ∀ q, ¬((Shared.goto { s with fs := fs } p (.endOp src n r)).pc q).Inside := by
    intro q hq
    rcases inside_goto hq with ⟨-, hw⟩ | ⟨hne, hq⟩
    · exact hw
    · exact hne (h.one q p hq hin)
  refine ⟨⟨N, ?_⟩, ?_, fun q _ hq => absurd hq (hout q),
    fun q hq => absurd hq (hout q), fun _ => ?_⟩
  · rwa [lockedBy_of_out hout]
  · rw [Shared.goto_fs, hnode]
    exact h.node
  · have hoff := h.off p hin
    rw [hp] at hoff
    exact hoff

/-- **A chunk is written**, at the place where the chunks before it end. -/
lemma writei (h : Sharing sb k i s₀ cs s) (htype : (Files.node s₀.fs i).type = .file) {fs : Fs}
    (hp : s.pc p = .writei src n) (hm : Files.writei sb k (chunkFrom src n) s.off s.fs = .ok r fs)
    (hfits : s.off + (chunkFrom src n).length ≤ MAXFILE * BSIZE) :
    r = some (chunkFrom src n).length ∧
      Sharing sb k i s₀ (cs ++ [(p, chunkFrom src n)])
        (Shared.goto { s with fs := fs } p (.off src n r)) := by
  obtain ⟨N, hmid⟩ := h.mid
  have hin : (s.pc p).Inside := by
    rw [hp]
    trivial
  have hoff : s.off = s₀.off + (bytes cs).length := by
    have hoff := h.off p hin
    rwa [hp] at hoff
  have hL : k ∈ lockedBy k s := ⟨rfl, p, hin⟩
  obtain ⟨hnode, -⟩ := hmid.node_of_locked List.mem_cons_self hL
  obtain ⟨hsize₀, -, hwritten⟩ := Node.write_eq_some.mp h.node
  have hN : N i = _ := hnode.symm.trans hwritten
  have hwrites : ∃ x, (N i).write (chunkFrom src n) s.off = some x := by
    refine ⟨_, Node.write_eq_some.mpr ⟨?_, hfits, rfl⟩⟩
    rw [hN, hoff]
    exact le_max_right ..
  obtain ⟨x, hx⟩ := hwrites
  have hspec : Post (Files.writei sb k (chunkFrom src n) s.off) s.fs
      (fun r t => Written sb _ N _ _ i (chunkFrom src n) s.off r t) (Err False) :=
    writei_spec hmid List.mem_cons_self hL _ _
  cases hspec.ok hm with
  | dev hdev _ =>
    rw [hN] at hdev
    exact absurd (htype.symm.trans hdev) (by decide)
  | range hnone _ => exact absurd (hx.symm.trans hnone) (Option.some_ne_none x)
  | @done u y hy hmid' =>
    have hL' : lockedBy k
          (Shared.goto { s with fs := fs } p (.off src n (some (chunkFrom src n).length)))
        = lockedBy k s := by
      rw [lockedBy_of_inside hin,
        lockedBy_of_inside (p := p) (by rw [Shared.goto_pc_self]; trivial)]
    have hbytes : bytes (cs ++ [(p, chunkFrom src n)]) = bytes cs ++ chunkFrom src n := by
      rw [bytes_append]
      exact congrArg _ (List.append_nil _)
    -- Only the process itself is inside.
    have hself : ∀ q, ((Shared.goto { s with fs := fs } p
        (.off src n (some (chunkFrom src n).length))).pc q).Inside → q = p := by
      intro q hq
      rcases inside_goto hq with ⟨heq, -⟩ | ⟨-, hq⟩
      · exact heq
      · exact h.one q p hq hin
    refine ⟨rfl, ⟨_, hL'.symm ▸ hmid'⟩, ?_,
      fun q q' hq hq' => (hself q hq).trans (hself q' hq').symm, fun q hq => ?_, fun hall => ?_⟩
    · obtain ⟨hnode', -⟩ := hmid'.node_of_locked List.mem_cons_self hL
      rw [update_self] at hnode'
      rw [hbytes, Shared.goto_fs, hnode']
      refine Node.write_append h.node ?_
      rw [← hoff, hnode]
      exact hy
    · obtain rfl := hself q hq
      rw [Shared.goto_pc_self, hbytes, List.length_append, ← Nat.add_assoc, ← hoff]
      rfl
    · have hp := hall p
      rw [Shared.goto_pc_self] at hp
      exact absurd trivial hp

/-- The offset is moved on. -/
lemma advance (h : Sharing sb k i s₀ cs s) (hp : s.pc p = .off src n r) :
    Sharing sb k i s₀ cs
      (Shared.goto { s with off := Files.advance s.off r } p (.iunlock src n r)) := by
  have hin : (s.pc p).Inside := by
    rw [hp]
    trivial
  have hoff := h.off p hin
  rw [hp] at hoff
  obtain ⟨-, hmax, -⟩ := Node.write_eq_some.mp h.node
  have hadvance : Files.advance s.off r = s.off + r.getD 0 := by
    cases r with
    | none => rfl
    | some m =>
      have hlt : MAXFILE * BSIZE < 2 ^ 32 := by decide
      change s.off + m = _ at hoff
      change (if 0 < m then (s.off + m) % 2 ^ 32 else s.off) = s.off + m
      split
      · exact Nat.mod_eq_of_lt (by omega)
      · omega
  rw [hadvance]
  refine h.move ?_ (fun _ => ?_) fun hw => absurd trivial hw
  · rw [hp]
    exact Iff.rfl
  · rw [hp]
    rfl

end Sharing

/-- What the code knows at its places: the transfer is not over, and `writei` has returned the
length of the chunk. -/
def Writer.Good : Writer → Prop
  | .idle => True
  | .loop src i => i ≤ src.length
  | .ilock src i => i < src.length
  | .writei src i => i < src.length
  | .off src i r => i < src.length ∧ r = some (chunkFrom src i).length
  | .iunlock src i r => i < src.length ∧ r = some (chunkFrom src i).length
  | .endOp src i r => i < src.length ∧ r = some (chunkFrom src i).length
  | .panic => False
  | .done src r => r = some src.length

/-- The chunks that a call has yet to write. -/
def Writer.todo : Writer → List (List ℕ)
  | .idle => []
  | .loop src i => pieces (src.drop i)
  | .ilock src i => pieces (src.drop i)
  | .writei src i => pieces (src.drop i)
  | .off src i _ => pieces (src.drop (i + maxChunk))
  | .iunlock src i _ => pieces (src.drop (i + maxChunk))
  | .endOp src i _ => pieces (src.drop (i + maxChunk))
  | .panic => []
  | .done .. => []

lemma Writer.next_of_good {src : List ℕ} (h : (Writer.endOp src n r).Good) :
    Writer.next src n r = .loop src (n + (chunkFrom src n).length) ∧ (Writer.next src n r).Good ∧
      (Writer.next src n r).todo = (Writer.endOp src n r).todo := by
  obtain ⟨hlt, rfl⟩ := h
  have hlen : (chunkFrom src n).length = min maxChunk (src.length - n) := length_chunkFrom
  have hnext : Writer.next src n (some (chunkFrom src n).length)
      = .loop src (n + (chunkFrom src n).length) :=
    if_neg (not_not.mpr rfl)
  rw [hnext]
  refine ⟨rfl, ?_, ?_⟩
  · change n + _ ≤ src.length
    omega
  · change pieces (src.drop (n + (chunkFrom src n).length)) = pieces (src.drop (n + maxChunk))
    rcases le_or_gt maxChunk (src.length - n) with hle | hgt
    · rw [hlen, min_eq_left hle]
    · rw [pieces_drop_of_le (by omega), pieces_drop_of_le (by omega)]

/-- **One step**: what it writes and requests, and where it leads the process. -/
structure Turn (sb : Superblock) (k : Ip) (i : ℕ) (s₀ : Shared P) (cs : List (P × List ℕ))
    (s : Shared P) (a : ShareAct P) (s' : Shared P) (p : P) (w : Writer) : Prop where
  sharing : Sharing sb k i s₀ (cs ++ (chunkAt (s, a)).toList) s'
  self : s'.pc p = w
  other : ∀ q ≠ p, s'.pc q = s.pc q
  good : w.Good
  chunk : ∀ c, chunkAt (s, a) = some c → c.1 = p
  request : ∀ c, requestAt (s, a) = some c → c.1 = p
  todo : ((chunkAt (s, a)).map Prod.snd).toList ++ w.todo
    = (s.pc p).todo ++ ((requestAt (s, a)).map Prod.snd).toList.flatMap pieces

namespace Turn

/-- A step that neither writes nor requests anything. -/
lemma silent {t : Shared P} {w : Writer} (hpc : t.pc = s.pc) (hchunk : chunkAt (s, .run p) = none)
    (hsharing : Sharing sb k i s₀ cs (t.goto p w)) (hgood : w.Good)
    (htodo : w.todo = (s.pc p).todo) : Turn sb k i s₀ cs s (.run p) (t.goto p w) p w := by
  refine ⟨?_, Shared.goto_pc_self .., fun q hq => ?_, hgood, ?_, nofun, ?_⟩
  · rw [hchunk]
    exact (List.append_nil cs).symm ▸ hsharing
  · rw [Shared.goto_pc_of_ne _ hq, hpc]
  · rw [hchunk]
    exact nofun
  · rw [hchunk]
    exact htodo.trans (List.append_nil _).symm

lemma of_run (h : Sharing sb k i s₀ cs s) (htype : (node s₀.fs i).type = .file)
    (hgood : (s.pc p).Good) (hfits : Fits (s, .run p))
    (hstep : filewrite sb k s p (s.pc p) = some s') : ∃ w, Turn sb k i s₀ cs s (.run p) s' p w := by
  cases hpc : s.pc p with
  | idle | panic | done src r =>
    rw [hpc] at hstep
    cases hstep
  | loop src n =>
    rw [hpc] at hstep hgood
    cases hstep
    have hchunk : chunkAt (s, .run p) = none := by simp [chunkAt, hpc]
    have hout : ¬(s.pc p).Inside := by
      rw [hpc]
      exact id
    refine ⟨_, silent rfl hchunk (h.outside hout ?_) ?_ ?_⟩
    · split <;> exact id
    · split
      · assumption
      · next hge =>
        obtain rfl : n = src.length := le_antisymm hgood (not_lt.mp hge)
        exact if_pos rfl
    · rw [hpc]
      split
      · rfl
      · next hge => exact (pieces_drop_of_le (not_lt.mp hge)).symm
  | ilock src n =>
    rw [hpc] at hstep hgood
    obtain ⟨a, fs, hm, rfl⟩ := Shared.exec_eq_some.mp hstep
    have hchunk : chunkAt (s, .run p) = none := by simp [chunkAt, hpc]
    exact ⟨_, silent rfl hchunk (h.ilock hm) hgood (by rw [hpc]; rfl)⟩
  | writei src n =>
    rw [hpc] at hstep hgood
    obtain ⟨r, fs, hm, rfl⟩ := Shared.exec_eq_some.mp hstep
    have hchunk : chunkAt (s, .run p) = some (p, chunkFrom src n) := by simp [chunkAt, hpc]
    obtain ⟨rfl, hsharing⟩ := h.writei htype hpc hm (hfits _ hchunk)
    refine ⟨_, ?_, Shared.goto_pc_self .., fun q hq => Shared.goto_pc_of_ne _ hq _, ⟨hgood, rfl⟩,
      ?_, nofun, ?_⟩
    · rw [hchunk]
      exact hsharing
    · rw [hchunk]
      rintro c ⟨⟩
      rfl
    · rw [hchunk, hpc]
      change _ = pieces (src.drop n) ++ []
      rw [List.append_nil, pieces_drop hgood]
      rfl
  | off src n r =>
    rw [hpc] at hstep hgood
    cases hstep
    have hchunk : chunkAt (s, .run p) = none := by simp [chunkAt, hpc]
    exact ⟨_, silent rfl hchunk (h.advance hpc) hgood (by rw [hpc]; rfl)⟩
  | iunlock src n r =>
    rw [hpc] at hstep hgood
    obtain ⟨a, fs, hm, rfl⟩ := Shared.exec_eq_some.mp hstep
    have hchunk : chunkAt (s, .run p) = none := by simp [chunkAt, hpc]
    exact ⟨_, silent rfl hchunk (h.iunlock hpc hm) hgood (by rw [hpc]; rfl)⟩
  | endOp src n r =>
    rw [hpc] at hstep hgood
    cases hstep
    have hchunk : chunkAt (s, .run p) = none := by simp [chunkAt, hpc]
    have hout : ¬(s.pc p).Inside := by
      rw [hpc]
      exact id
    obtain ⟨hnext, hgood', htodo⟩ := Writer.next_of_good hgood
    refine ⟨_, silent rfl hchunk (h.outside hout ?_) hgood' (by rw [hpc, htodo])⟩
    rw [hnext]
    exact id

lemma of_step {a : ShareAct P} (h : Sharing sb k i s₀ cs s) (htype : (node s₀.fs i).type = .file)
    (hgood : ∀ p, (s.pc p).Good) (hfits : Fits (s, a)) (hstep : shareStep sb k s a = some s') :
    ∃ p w, Turn sb k i s₀ cs s a s' p w := by
  cases a with
  | write p src =>
    simp only [shareStep] at hstep
    split at hstep
    · next hout =>
      cases hstep
      have hin : ¬(s.pc p).Inside ∧ (s.pc p).todo = [] := by
        cases hpc : s.pc p with
        | idle => exact ⟨id, rfl⟩
        | done => exact ⟨id, rfl⟩
        | _ =>
          rw [hpc] at hout
          exact hout.elim
      refine ⟨p, _, ?_, Shared.goto_pc_self .., fun q hq => Shared.goto_pc_of_ne _ hq _,
        Nat.zero_le _, nofun, ?_, ?_⟩
      · exact (List.append_nil cs).symm ▸ h.outside hin.1 id
      · rintro c ⟨⟩
        rfl
      · rw [hin.2]
        exact (List.append_nil _).symm
    · cases hstep
  | run p =>
    obtain ⟨w, hw⟩ := of_run h htype (hgood p) hfits hstep
    exact ⟨p, w, hw⟩

end Turn

/-! ### Whole runs -/

/-- What the processes have written and what they have yet to write is what they were asked to. -/
structure Spelled (tr : List (Shared P × ShareAct P)) (s : Shared P) : Prop where
  good : ∀ p, (s.pc p).Good
  todo : ∀ p, ofProc p (chunks tr) ++ (s.pc p).todo = (ofProc p (requests tr)).flatMap pieces

variable {tr : List (Shared P × ShareAct P)}

variable {o : Option (P × List ℕ)}

lemma ofProc_toList_of_ne {p q : P} (h : q ≠ p) (ho : ∀ c, o = some c → c.1 = p) :
    ofProc q o.toList = [] := by
  cases o with
  | none => rfl
  | some c => simp [ofProc, ho c rfl, h.symm]

lemma ofProc_toList_self {p : P} (ho : ∀ c, o = some c → c.1 = p) :
    ofProc p o.toList = (o.map Prod.snd).toList := by
  cases o with
  | none => rfl
  | some c => simp [ofProc, ho c rfl]

lemma Spelled.turn {a : ShareAct P} {w : Writer} (h : Spelled tr s)
    (ht : Turn sb k i s₀ (chunks tr) s a s' p w) : Spelled (tr ++ [(s, a)]) s' := by
  refine ⟨fun q => ?_, fun q => ?_⟩
  · by_cases hq : q = p
    · rw [hq, ht.self]
      exact ht.good
    · rw [ht.other q hq]
      exact h.good q
  · rw [chunks_snoc, requests_snoc, ofProc_append, ofProc_append, List.flatMap_append]
    by_cases hq : q = p
    · subst hq
      rw [ofProc_toList_self ht.chunk, ofProc_toList_self ht.request, ht.self, List.append_assoc,
        ht.todo, ← List.append_assoc, h.todo q]
    · rw [ofProc_toList_of_ne hq ht.chunk, ofProc_toList_of_ne hq ht.request, ht.other q hq,
        List.append_nil, List.flatMap_nil, List.append_nil, h.todo q]

theorem sharing_of_run (h₀ : OpenFile sb k i s₀) (hr : Run (shareStep sb k) s₀ tr s)
    (hfits : ∀ e ∈ tr, Fits e) : Sharing sb k i s₀ (chunks tr) s ∧ Spelled tr s := by
  revert hfits
  refine hr.snoc_induction (P := fun tr s => (∀ e ∈ tr, Fits e) →
    Sharing sb k i s₀ (chunks tr) s ∧ Spelled tr s)
      (fun _ => ⟨h₀.sharing, fun p => ?_, fun p => ?_⟩) ?_
  · rw [h₀.idle p]
    trivial
  · rw [h₀.idle p]
    rfl
  · intro tr s a s' _ ih hstep hfits
    obtain ⟨hsharing, hspelled⟩ := ih fun e he => hfits e (List.mem_append_left _ he)
    have hfit : Fits (s, a) := hfits _ (List.mem_append_right _ List.mem_cons_self)
    obtain ⟨p, w, ht⟩ := Turn.of_step hsharing h₀.type hspelled.good hfit hstep
    rw [chunks_snoc]
    exact ⟨ht.sharing, hspelled.turn ht⟩

/-- The bytes of a list are those of the processes in it. -/
lemma length_bytes {l : List (P × List ℕ)} {S : Finset P} (hS : ∀ c ∈ l, c.1 ∈ S) :
    (bytes l).length = ∑ p ∈ S, (ofProc p l).flatten.length := by
  induction l with
  | nil => exact (Finset.sum_const_zero).symm
  | cons c l ih =>
    have hp : ∀ p, (ofProc p (c :: l)).flatten.length
        = (if c.1 = p then c.2.length else 0) + (ofProc p l).flatten.length := by
      intro p
      by_cases h : c.1 = p <;> simp [ofProc, h]
    have hcons : (bytes (c :: l)).length = c.2.length + (bytes l).length := by simp [bytes]
    rw [hcons, Finset.sum_congr rfl fun p _ => hp p, Finset.sum_add_distrib, Finset.sum_ite_eq,
      if_pos (hS c List.mem_cons_self), ih fun c' hc' => hS c' (List.mem_cons_of_mem _ hc')]

lemma length_bytes_congr {l l' : List (P × List ℕ)}
    (h : ∀ p, (ofProc p l).flatten = (ofProc p l').flatten) :
    (bytes l).length = (bytes l').length := by
  rw [length_bytes (S := ((l ++ l').map Prod.fst).toFinset) fun c hc => by simp; grind,
    length_bytes (S := ((l ++ l').map Prod.fst).toFinset) fun c hc => by simp; grind]
  exact Finset.sum_congr rfl fun p _ => by rw [h p]

/-- Where the `m`th chunk begins. -/
def chunkStart (off : ℕ) (cs : List (P × List ℕ)) (m : ℕ) : ℕ := off + (bytes (cs.take m)).length

/-- **Nothing is lost**: each chunk has a range of the file for itself, with its bytes, and the
other bytes of the file are as before.  The chunks of a process are those of its calls, in order.  A
call that has returned has written everything, and when all calls have returned the offset has moved
on by as much as they were asked to write. -/
structure LosesNothing (i : ℕ) (s₀ : Shared P) (tr : List (Shared P × ShareAct P)) (s : Shared P) :
    Prop where
  range : ∀ m c, (chunks tr)[m]? = some c →
    chunkStart s₀.off (chunks tr) m + c.2.length ≤ (node s.fs i).size ∧
      ∀ j b, c.2[j]? = some b → (node s.fs i).byte (chunkStart s₀.off (chunks tr) m + j) = b
  apart : ∀ m n c, (chunks tr)[m]? = some c → m < n →
    chunkStart s₀.off (chunks tr) m + c.2.length ≤ chunkStart s₀.off (chunks tr) n
  kept : ∀ o, o < s₀.off ∨ s₀.off + (bytes (chunks tr)).length ≤ o →
    (node s.fs i).byte o = (node s₀.fs i).byte o
  order : ∀ p, ofProc p (chunks tr) <+: (ofProc p (requests tr)).flatMap pieces
  complete : ∀ p, (s.pc p).Out → (ofProc p (chunks tr)).flatten = (ofProc p (requests tr)).flatten
  result : ∀ p src r, s.pc p = .done src r → r = some src.length
  off : (∀ p, (s.pc p).Out) → s.off = s₀.off + (bytes (requests tr)).length

omit [DecidableEq P] in
lemma bytes_take_succ {cs : List (P × List ℕ)} {m : ℕ} {c : P × List ℕ} (h : cs[m]? = some c) :
    bytes (cs.take (m + 1)) = bytes (cs.take m) ++ c.2 := by
  rw [List.take_add_one, h, bytes_append]
  exact congrArg _ (List.append_nil _)

omit [DecidableEq P] in
lemma bytes_take_prefix (cs : List (P × List ℕ)) (m : ℕ) : bytes (cs.take m) <+: bytes cs := by
  refine ⟨bytes (cs.drop m), ?_⟩
  rw [← bytes_append, List.take_append_drop]

omit [DecidableEq P] in
lemma bytes_take_le (cs : List (P × List ℕ)) {m n : ℕ} (h : m ≤ n) :
    (bytes (cs.take m)).length ≤ (bytes (cs.take n)).length := by
  have hpre := bytes_take_prefix (cs.take n) m
  rw [List.take_take, min_eq_left h] at hpre
  exact hpre.length_le

lemma Writer.todo_of_out {w : Writer} : w.Out → w.todo = [] ∧ ¬w.Inside := by
  cases w with
  | idle | done => exact fun _ => ⟨rfl, id⟩
  | _ => exact False.elim

theorem shared_writers (h₀ : OpenFile sb k i s₀) (hr : Run (shareStep sb k) s₀ tr s)
    (hfits : ∀ e ∈ tr, Fits e) : LosesNothing i s₀ tr s := by
  obtain ⟨hsharing, hspelled⟩ := sharing_of_run h₀ hr hfits
  obtain ⟨-, -, hnode⟩ := Node.write_eq_some.mp hsharing.node
  have hcomplete : ∀ p, (s.pc p).Out →
      (ofProc p (chunks tr)).flatten = (ofProc p (requests tr)).flatten := by
    intro p hp
    have htodo := hspelled.todo p
    rw [(Writer.todo_of_out hp).1, List.append_nil] at htodo
    rw [htodo, flatten_flatMap_pieces]
  refine ⟨fun m c hc => ?_, fun m n c hc hmn => ?_, fun o ho => ?_, fun p => ⟨_, hspelled.todo p⟩,
    hcomplete, fun p src r hp => ?_, fun hout => ?_⟩
  · have htake := bytes_take_succ hc
    obtain ⟨rest, hrest⟩ := bytes_take_prefix (chunks tr) (m + 1)
    rw [htake, List.append_assoc] at hrest
    have hlen : (bytes (chunks tr)).length
        = (bytes ((chunks tr).take m)).length + (c.2.length + rest.length) := by
      rw [← hrest, List.length_append, List.length_append]
    rw [hnode, chunkStart]
    refine ⟨le_max_of_le_right (by omega), fun j b hb => ?_⟩
    have hj := (List.getElem?_eq_some_iff.mp hb).1
    refine (if_pos (by omega)).trans ?_
    rw [← hrest, Nat.add_assoc, Nat.add_sub_cancel_left, List.getD_append_right _ _ _ _ (by omega),
      Nat.add_sub_cancel_left, List.getD_append _ _ _ _ hj, List.getD_eq_getElem?_getD, hb,
      Option.getD_some]
  · have hle := bytes_take_le (chunks tr) (m := m + 1) (n := n) hmn
    rw [bytes_take_succ hc, List.length_append] at hle
    unfold chunkStart
    omega
  · rw [hnode]
    exact if_neg (by omega)
  · have hgood := hspelled.good p
    rwa [hp] at hgood
  · rw [hsharing.offOut fun p => (Writer.todo_of_out (hout p)).2,
      length_bytes_congr fun p => hcomplete p (hout p)]

/-- An empty file that is open. -/
def emptyFile : Shared ℕ where
  fs := {
    dinode := update (fun _ => .fresh .free) 2 (.fresh .file)
    bitmap := firstUsed smallDisk.nmeta
    data := fun _ _ => 0
    inode := update (fun _ => {}) (Fin.last 49) { inum := 2, ref := 1 } }
  off := 0
  pc _ := .idle

/-- Process 1 waits for the lock while process 0 writes its chunk. -/
def twoWriters : List (ShareAct ℕ) :=
  [[.write 0 [1, 2, 3], .write 1 [4, 5], .run 0, .run 0, .run 1], List.replicate 3 (.run 0),
    [.run 1, .run 0], List.replicate 5 (.run 1), [.run 0]].flatten

lemma openFile_emptyFile : OpenFile smallDisk (Fin.last 49) 2 emptyFile := by
  have hlast : emptyFile.fs.inode (Fin.last 49) = { inum := 2, ref := 1 } := by
    simp only [emptyFile, update_self]
  refine ⟨.one sound_emptyFile nofun nofun, fun j => ?_, ?_, ?_, rfl, Nat.zero_le _, fun _ => rfl⟩
  · by_cases hj : j = Fin.last 49
    · rw [hj, hlast]
    · simp only [emptyFile, update_of_ne hj]
  · rw [hlast]
    exact Nat.one_pos
  · rw [hlast]

theorem shared_writers_twoWriters :
    ∃ s tr, Run (shareStep smallDisk (Fin.last 49)) emptyFile tr s ∧
      chunks tr = [(0, [1, 2, 3]), (1, [4, 5])] ∧ ((s.pc 0).Out ∧ (s.pc 1).Out) ∧
      LosesNothing 2 emptyFile tr s := by
  obtain ⟨s, hs, hchunks, hout⟩ :
      ∃ s, exec (shareStep smallDisk (Fin.last 49)) emptyFile twoWriters = some s ∧
        chunks (traceOf (shareStep smallDisk (Fin.last 49)) emptyFile twoWriters)
          = [(0, [1, 2, 3]), (1, [4, 5])] ∧ (s.pc 0).Out ∧ (s.pc 1).Out := by
    decide +kernel
  have hfits : ∀ e ∈ traceOf (shareStep smallDisk (Fin.last 49)) emptyFile twoWriters,
      (chunkAt e).all (fun c => decide (e.1.off + c.2.length ≤ MAXFILE * BSIZE)) = true := by
    decide +kernel
  refine ⟨s, _, run_traceOf hs, hchunks, hout,
    shared_writers openFile_emptyFile (run_traceOf hs) fun e he c hc => ?_⟩
  have hfit := hfits e he
  rw [hc] at hfit
  exact of_decide_eq_true hfit

end Xv6.Files
