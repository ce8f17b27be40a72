import Xv6.Sync.Monitor
import Xv6.Transition.Ring

/-!
Pipes (`pipe.c`).

The code of `pipewrite`, `piperead` and `pipeclose`, cut where a process can be overtaken.  The
bytes that `pipewrite` is given are a list, and so are those that `piperead` has copied out.
`pipeclose` frees the page when both ends are closed; nobody has a descriptor for the pipe
then, so what becomes of the page is not followed.

* `pipe`: the code.
* `Fifo`: the pipe holds the bytes stored and not yet delivered.
* `pipe_fifo`: a pipe delivers the bytes that were stored, in order.
-/

namespace Xv6.Sync

open Transition

abbrev PIPESIZE : ℕ := 512

/-- `struct pipe`, without the lock. -/
structure Pipe where
  data : ℕ → UInt8
  nread : UInt32 := 0
  nwrite : UInt32 := 0
  readopen : Bool := true
  writeopen : Bool := true

namespace Pipe

/-- The address of `p->nread`. -/
def nreadChan : Chan := .obj 0

/-- The address of `p->nwrite`. -/
def nwriteChan : Chan := .obj 1

/-- Where a process is; outside, with the value that its last call has returned. -/
inductive Label where
  | out (r : ℤ)
  | writeAcquire (src : List UInt8)
  /-- The test of the `for` loop. -/
  | writeFor (src : List UInt8) (i : ℕ)
  /-- The test of the `while` loop, when `sleep` has returned. -/
  | writeFull (src : List UInt8) (i : ℕ)
  | writeSleep (src : List UInt8) (i : ℕ)
  | writeRelease (src : List UInt8)
  | readAcquire (n : ℕ)
  | readEmpty (n : ℕ)
  | readCopy (n : ℕ) (dst : List UInt8)
  | readRelease (n : ℕ) (dst : List UInt8)
  | closeAcquire (writable : Bool)
  | closeStore (writable : Bool)
  | closeWake (writable : Bool)
  | closeRelease
  deriving DecidableEq

variable (p : Pipe)

def Full : Prop := p.nwrite = p.nread + UInt32.ofNat PIPESIZE

def Empty : Prop := p.nread = p.nwrite

instance : Decidable p.Full := inferInstanceAs (Decidable (_ = _))

instance : Decidable p.Empty := inferInstanceAs (Decidable (_ = _))

/-- `p->data[p->nwrite++ % PIPESIZE] = c` -/
def push (c : UInt8) : Pipe :=
  { p with data := Function.update p.data (p.nwrite.toNat % PIPESIZE) c, nwrite := p.nwrite + 1 }

/-- `p->data[p->nread % PIPESIZE]` -/
def head : UInt8 := p.data (p.nread.toNat % PIPESIZE)

/-- `p->nread++` -/
def pop : Pipe := { p with nread := p.nread + 1 }

/-- The body of the `for` loop of `pipewrite`, from the test of the `while` loop on. -/
def writeByte (x : Proc) (src : List UInt8) (i : ℕ) : Instr Pipe Label :=
  if p.Full then
    if !p.readopen || x.killed then .release (.out (-1))
    else .wakeup nreadChan (.writeSleep src i)
  else .store (p.push (src.getD i 0)) (.writeFor src (i + 1))

/-- The `for` loop of `piperead`, from its test on. -/
def readByte (n : ℕ) (dst : List UInt8) : Instr Pipe Label :=
  if dst.length < n ∧ ¬p.Empty then .store p.pop (.readCopy n (dst ++ [p.head]))
  else .wakeup nwriteChan (.readRelease n dst)

def code (x : Proc) : Label → Pipe → Instr Pipe Label
  | .out _, _ => .stay
  | .writeAcquire src, _ => .acquire (.writeFor src 0)
  | .writeFor src i, p =>
    if i < src.length then p.writeByte x src i else .wakeup nreadChan (.writeRelease src)
  | .writeSleep src i, _ => .sleep nwriteChan (.writeFull src i)
  | .writeFull src i, p => p.writeByte x src i
  | .writeRelease src, _ => .release (.out src.length)
  | .readAcquire n, _ => .acquire (.readEmpty n)
  | .readEmpty n, p =>
    if p.Empty ∧ p.writeopen then
      if x.killed then .release (.out (-1)) else .sleep nreadChan (.readEmpty n)
    else p.readByte n []
  | .readCopy n dst, p => p.readByte n dst
  | .readRelease _ dst, _ => .release (.out dst.length)
  | .closeAcquire writable, _ => .acquire (.closeStore writable)
  | .closeStore true, p => .store { p with writeopen := false } (.closeWake true)
  | .closeStore false, p => .store { p with readopen := false } (.closeWake false)
  | .closeWake true, _ => .wakeup nreadChan .closeRelease
  | .closeWake false, _ => .wakeup nwriteChan .closeRelease
  | .closeRelease, _ => .release (.out 0)

def calls : Label → Label → Bool
  | .out _, .writeAcquire _ | .out _, .readAcquire _ | .out _, .closeAcquire _ => true
  | _, _ => false

/-- The places under `p->lock`. -/
def Held : Label → Prop
  | .out _ | .writeAcquire _ | .readAcquire _ | .closeAcquire _ => False
  | _ => True

end Pipe

open Pipe

variable {P : Type} [DecidableEq P] {s s' : Sys P Pipe Label} {a : Act P Label}

/-- The processes that use a pipe. -/
def pipe : Component Pipe Label where
  lk := .own
  code := Pipe.code
  calls := Pipe.calls

lemma pipe_disciplined : Disciplined pipe Held where
  call {l l'} h := by
    cases l <;> cases l' <;> first | exact ⟨id, id⟩ | cases h
  code x l p := by
    have hwrite : ∀ src i l, Held l → Follows .own Held l (p.writeByte x src i) := by
      intro src i l hl
      unfold writeByte
      split
      · split
        · exact ⟨hl, id⟩
        · exact ⟨iff_of_true hl trivial, nofun⟩
      · exact ⟨hl, trivial⟩
    have hread : ∀ n dst l, Held l → Follows .own Held l (p.readByte n dst) := by
      intro n dst l hl
      unfold readByte
      split
      · exact ⟨hl, trivial⟩
      · exact ⟨iff_of_true hl trivial, nofun⟩
    cases l with
    | out r => trivial
    | writeAcquire | readAcquire | closeAcquire => exact ⟨id, trivial⟩
    | writeFor src i =>
      simp only [pipe, Pipe.code]
      split
      · exact hwrite src i _ trivial
      · exact ⟨Iff.rfl, nofun⟩
    | writeFull src i => exact hwrite src i _ trivial
    | writeSleep => exact ⟨trivial, trivial⟩
    | writeRelease | readRelease | closeRelease => exact ⟨trivial, id⟩
    | readEmpty n =>
      simp only [pipe, Pipe.code]
      split
      · split
        · exact ⟨trivial, id⟩
        · exact ⟨trivial, trivial⟩
      · exact hread n [] _ trivial
    | readCopy n dst => exact hread n dst _ trivial
    | closeStore writable => cases writable <;> exact ⟨trivial, trivial⟩
    | closeWake writable => cases writable <;> exact ⟨Iff.rfl, nofun⟩

/-! ### The bytes that go through a pipe -/

namespace Pipe.Label

/-- The number of bytes that a call of `piperead` is asked for. -/
def asked : Label → Option ℕ
  | .readAcquire n | .readEmpty n | .readCopy n _ | .readRelease n _ => some n
  | _ => none

/-- What a call of `piperead` has copied to its caller. -/
def dst : Label → List UInt8
  | .readCopy _ dst | .readRelease _ dst => dst
  | _ => []

end Pipe.Label

/-- The byte of its caller that a store of `pipewrite` puts into the pipe. -/
def storedBy : Label → Label → List UInt8
  | .writeFor src i, _ | .writeFull src i, _ => [src.getD i 0]
  | _, _ => []

/-- The byte that `piperead` copies to its caller between two places. -/
def deliveredBy (l l' : Label) : List UInt8 := l'.dst.drop l.dst.length

/-- The bytes that calls of `pipewrite` have stored. -/
def stored (tr : List (Sys P Pipe Label × Act P Label)) : List UInt8 :=
  tr.flatMap (watch pipe storedBy)

/-- The bytes that calls of `piperead` have delivered. -/
def delivered (tr : List (Sys P Pipe Label × Act P Label)) : List UInt8 :=
  tr.flatMap (watch pipe deliveredBy)

/-- What a store does to the pipe, and the bytes that it stores and delivers. -/
inductive Stores (p : Pipe) : Pipe → List UInt8 → List UInt8 → Prop where
  | push {c} : ¬p.Full → Stores p (p.push c) [c] []
  | pop : ¬p.Empty → Stores p p.pop [] [p.head]
  | close {p'} : p'.data = p.data → p'.nread = p.nread → p'.nwrite = p.nwrite → Stores p p' [] []

lemma stores_of_code {x : Proc} {l l' : Label} {p p' : Pipe}
    (h : pipe.code x l p = .store p' l') : Stores p p' (storedBy l l') (deliveredBy l l') := by
  have hwrite : ∀ src i, p.writeByte x src i = .store p' l' →
      Stores p p' [src.getD i 0] (deliveredBy (.writeFor src i) l') := by
    intro src i hi
    unfold writeByte at hi
    split at hi
    · split at hi <;> cases hi
    · next hfull =>
      cases hi
      exact .push hfull
  have hread : ∀ n dst, p.readByte n dst = .store p' l' →
      Stores p p' [] (l'.dst.drop dst.length) := by
    intro n dst hi
    unfold readByte at hi
    split at hi
    · next hn =>
      cases hi
      rw [Label.dst, List.drop_left]
      exact .pop hn.2
    · cases hi
  cases l with
  | writeFor src i =>
    simp only [pipe, Pipe.code] at h
    split at h
    · exact hwrite src i h
    · cases h
  | writeFull src i => exact hwrite src i h
  | readEmpty n =>
    simp only [pipe, Pipe.code] at h
    split at h
    · split at h <;> cases h
    · exact hread n [] h
  | readCopy n dst => exact hread n dst h
  | closeStore writable =>
    cases writable <;> cases h <;> exact .close rfl rfl rfl
  | closeWake writable => cases writable <;> cases h
  | _ => cases h

/-- **A step of `piperead`**: it goes on, and has copied to its caller what is delivered in the
step; or it returns -1 to a process that is killed, or the number of bytes that it has copied. -/
lemma piperead_step {p : P} {l : Label} {n : ℕ} (hpc : s.pc p = .code l) (hl : l.asked = some n)
    (h : step pipe s (.run p) = some s') :
    (s'.label p).asked = some n ∧ (s'.label p).dst = l.dst ++ watch pipe deliveredBy (s, .run p) ∨
      ∃ r, s'.pc p = .code (.out r) ∧
        (r = -1 ∧ (s.proc p).killed = true ∨ r = l.dst.length ∧ l = .readRelease n l.dst) := by
  have hrun := (trans_of_step h).run_cases deliveredBy hpc
  have hread : pipe.code (s.proc p) l s.mem = s.mem.readByte n l.dst →
      (s'.label p).asked = some n ∧
        (s'.label p).dst = l.dst ++ watch pipe deliveredBy (s, .run p) := by
    intro hi
    rw [hi, readByte] at hrun
    by_cases hmore : l.dst.length < n ∧ ¬s.mem.Empty
    · rw [if_pos hmore] at hrun
      rw [Sys.label, hrun.1, hrun.2, deliveredBy, Pc.label, Label.dst, List.drop_left]
      exact ⟨rfl, rfl⟩
    · rw [if_neg hmore] at hrun
      rw [← Option.some.inj hrun.1, hrun.2, List.append_nil]
      exact ⟨rfl, rfl⟩
  cases l with
  | readAcquire m =>
    cases hl
    rw [← Option.some.inj hrun.1, hrun.2]
    exact .inl ⟨rfl, rfl⟩
  | readEmpty m =>
    cases hl
    by_cases hwait : s.mem.Empty ∧ s.mem.writeopen = true
    · by_cases hkilled : (s.proc p).killed = true
      · have hi : pipe.code (s.proc p) (.readEmpty n) s.mem = .release (.out (-1)) := by
          simp only [pipe, Pipe.code, if_pos hwait, if_pos hkilled]
        rw [hi] at hrun
        exact .inr ⟨-1, hrun.1, .inl ⟨rfl, hkilled⟩⟩
      · have hi : pipe.code (s.proc p) (.readEmpty n) s.mem = .sleep nreadChan (.readEmpty n) := by
          simp only [pipe, Pipe.code, if_pos hwait, if_neg hkilled]
        rw [hi] at hrun
        rw [← Option.some.inj hrun.1, hrun.2]
        exact .inl ⟨rfl, rfl⟩
    · exact .inl (hread (if_neg hwait))
  | readCopy m dst =>
    cases hl
    exact .inl (hread rfl)
  | readRelease m dst =>
    cases hl
    exact .inr ⟨_, hrun.1, .inr ⟨rfl, rfl⟩⟩
  | _ => cases hl

/-! ### First in, first out -/

lemma pipesize_lt : PIPESIZE < 2 ^ 32 := by norm_num

lemma pipesize_dvd : PIPESIZE ∣ 2 ^ 32 := by norm_num

/-- The pipe holds the bytes that have been stored and not yet delivered. -/
structure Fifo (W R : List UInt8) (p : Pipe) : Prop where
  nread : p.nread = count R.length
  nwrite : p.nwrite = count W.length
  pending : ∃ l, W = R ++ l ∧ l.length ≤ PIPESIZE ∧ Spells PIPESIZE p.data R.length l

namespace Fifo

variable {W R : List UInt8} {p : Pipe}

lemma length (h : Fifo W R p) : R.length ≤ W.length ∧ W.length ≤ R.length + PIPESIZE := by
  obtain ⟨l, rfl, hl, -⟩ := h.pending
  rw [List.length_append]
  omega

/-- The counters tell how many bytes there are. -/
lemma sub (h : Fifo W R p) : (p.nwrite - p.nread).toNat = W.length - R.length := by
  obtain ⟨hle, hge⟩ := h.length
  rw [h.nread, h.nwrite]
  have hsize := pipesize_lt
  exact count_sub hle (by omega)

lemma full_iff (h : Fifo W R p) : p.Full ↔ W.length = R.length + PIPESIZE := by
  obtain ⟨hle, hge⟩ := h.length
  have hcount : count R.length + UInt32.ofNat PIPESIZE = count (R.length + PIPESIZE) := by
    rw [count, count, UInt32.ofNat_add]
  rw [Pipe.Full, h.nread, h.nwrite, hcount]
  have hsize := pipesize_lt
  exact count_inj hge (by omega)

lemma empty_iff (h : Fifo W R p) : p.Empty ↔ R = W := by
  obtain ⟨l, rfl, hl, -⟩ := h.pending
  have hsize := pipesize_lt
  have hlen : (R ++ l).length = R.length + l.length := List.length_append
  rw [Pipe.Empty, h.nread, h.nwrite, count_inj (by omega) (by omega), hlen]
  simp

/-- A byte is stored in a pipe that is not full. -/
lemma push (h : Fifo W R p) (hfull : ¬p.Full) (c : UInt8) : Fifo (W ++ [c]) R (p.push c) where
  nread := h.nread
  nwrite := by
    rw [List.length_append, List.length_singleton, count_succ, ← h.nwrite]
    rfl
  pending := by
    rw [h.full_iff] at hfull
    obtain ⟨l, rfl, hl, hspells⟩ := h.pending
    rw [List.length_append] at hfull
    have hlt : l.length < PIPESIZE := by omega
    refine ⟨l ++ [c], List.append_assoc .., ?_, ?_⟩
    · rw [List.length_append, List.length_singleton]
      omega
    · have hpush := hspells.push hlt c
      have hplace : p.nwrite.toNat % PIPESIZE = (R.length + l.length) % PIPESIZE := by
        rw [h.nwrite, count_mod _ pipesize_dvd, List.length_append]
      rwa [← hplace] at hpush

/-- A byte is delivered from a pipe that is not empty. -/
lemma pop (h : Fifo W R p) (hempty : ¬p.Empty) : Fifo W (R ++ [p.head]) p.pop where
  nread := by
    rw [List.length_append, List.length_singleton, count_succ, ← h.nread]
    rfl
  nwrite := h.nwrite
  pending := by
    rw [h.empty_iff] at hempty
    obtain ⟨l, rfl, hl, hspells⟩ := h.pending
    cases l with
    | nil => exact absurd (List.append_nil R).symm hempty
    | cons c l =>
      have hhead : p.head = c := by
        rw [Pipe.head, h.nread, count_mod _ pipesize_dvd]
        exact hspells.head
      refine ⟨l, ?_, ?_, ?_⟩
      · rw [hhead, List.append_assoc, List.singleton_append]
      · rw [List.length_cons] at hl
        omega
      · rw [List.length_append, List.length_singleton]
        exact hspells.tail

end Fifo

/-- What a process knows under the lock: before it sleeps in `pipewrite` the pipe is full and can
be read; in `piperead` it has copied a byte, or it is at the end of a call that has found the pipe
empty and the write end closed. -/
def Known : Label → Pipe → Prop
  | .writeSleep _ _, p => p.Full ∧ p.readopen = true
  | .readCopy _ dst, _ => dst ≠ []
  | .readRelease n dst, p => 0 < n → dst = [] → p.Empty ∧ p.writeopen = false
  | _, _ => True

lemma knows_known : Knows pipe Held Known := by
  intro x l p
  have hwrite : ∀ src i l, Learns Held Known l p (p.writeByte x src i) := by
    intro src i l
    unfold writeByte
    split
    · rename_i hfull
      split
      · trivial
      · rename_i hopen
        simp only [Bool.or_eq_true, Bool.not_eq_true', not_or, Bool.not_eq_false] at hopen
        exact fun _ _ => ⟨hfull, hopen.1⟩
    · exact fun _ => trivial
  cases l with
  | writeFor src i =>
    simp only [pipe, Pipe.code]
    split
    · exact hwrite src i _
    · exact fun _ _ => trivial
  | writeFull src i => exact hwrite src i _
  | readEmpty n =>
    simp only [pipe, Pipe.code, readByte]
    split
    · split
      · trivial
      · exact fun _ => trivial
    · rename_i hwait
      split
      · exact fun _ => List.append_ne_nil_of_right_ne_nil _ (List.cons_ne_nil _ _)
      · rename_i hn
        intro _ _ hpos _
        have hempty : p.Empty := by
          by_contra hempty
          exact hn ⟨hpos, hempty⟩
        simpa [hempty] using hwait
  | readCopy n dst =>
    simp only [pipe, Pipe.code, readByte]
    split
    · exact fun _ => List.append_ne_nil_of_right_ne_nil _ (List.cons_ne_nil _ _)
    · exact fun _ hdst _ hnil => absurd hnil hdst
  | closeStore writable => cases writable <;> exact fun _ => trivial
  | closeWake writable => cases writable <;> exact fun _ _ => trivial
  | writeAcquire | readAcquire | closeAcquire => trivial
  | writeSleep => exact fun _ => trivial
  | _ => trivial

variable {tr : List (Sys P Pipe Label × Act P Label)}

/-- A step of the pipe. -/
lemma Fifo.step (h : Fifo (stored tr) (delivered tr) s.mem) (ht : Trans pipe s a s') :
    Fifo (stored (tr ++ [(s, a)])) (delivered (tr ++ [(s, a)])) s'.mem := by
  rw [stored, delivered, List.flatMap_append, List.flatMap_append, List.flatMap_singleton,
    List.flatMap_singleton]
  rcases ht.watch_cases UInt8 with ⟨p, l, m, l', -, -, hi, rfl, hw⟩ | ⟨hmem, hw, -⟩
  · rw [hw, hw]
    have hstores := stores_of_code hi
    generalize storedBy l l' = W at hstores ⊢
    generalize deliveredBy l l' = R at hstores ⊢
    cases hstores with
    | @push c hfull =>
      rw [List.append_nil]
      exact h.push hfull c
    | pop hempty =>
      rw [List.append_nil]
      exact h.pop hempty
    | close hdata hread hwrite =>
      obtain ⟨l₀, hl, hlen, hspells⟩ := h.pending
      rw [List.append_nil, List.append_nil]
      exact ⟨hread.trans h.nread, hwrite.trans h.nwrite, l₀, hl, hlen, hdata ▸ hspells⟩
  · rw [hw, hw, hmem, List.append_nil, List.append_nil]
    exact h

/-- What every run keeps. -/
lemma pipe_of_run {data : ℕ → UInt8} {proc : P → Proc}
    (h : Run (step pipe) (boot { data := data } (.out 0) proc) tr s) :
    Locked pipe Held s ∧ Owned pipe Held Known s ∧ Fifo (stored tr) (delivered tr) s.mem := by
  refine h.snoc_induction (P := fun tr s => Locked pipe Held s ∧ Owned pipe Held Known s ∧
    Fifo (stored tr) (delivered tr) s.mem) ?_ ?_
  · exact ⟨locked_boot id proc, fun _ _ => False.elim, rfl, rfl, [], rfl, Nat.zero_le _, spells_nil⟩
  · rintro tr s a s' - ⟨hl, hk, hf⟩ hstep
    have ht := trans_of_step hstep
    exact ⟨hl.step pipe_disciplined ht, hk.step pipe_disciplined hl knows_known ht, hf.step ht⟩

/-- **A pipe is a FIFO.** There are never more than `PIPESIZE` bytes in it; what has been stored is
what has been delivered followed by what the pipe holds.  In a call of `piperead` that is asked for
`n` bytes, what it has copied to its caller grows by what each of its steps delivers; it returns -1
to a process that is killed, or the number of bytes that it has copied, and returns 0 for a positive
`n` only when the pipe is empty and the write end closed. -/
theorem pipe_fifo {data : ℕ → UInt8} {proc : P → Proc} {tr : List (Sys P Pipe Label × Act P Label)}
    (h : Run (step pipe) (boot { data := data } (.out 0) proc) tr s) :
    (s.mem.nwrite - s.mem.nread).toNat ≤ PIPESIZE ∧
    (∃ l, stored tr = delivered tr ++ l ∧ l.length = (s.mem.nwrite - s.mem.nread).toNat ∧
      ∀ j c, l[j]? = some c → s.mem.data ((s.mem.nread.toNat + j) % PIPESIZE) = c) ∧
    (∀ p l n s', s.pc p = .code l → l.asked = some n → step pipe s (.run p) = some s' →
      (s'.label p).asked = some n ∧
        (s'.label p).dst = l.dst ++ watch pipe deliveredBy (s, .run p) ∨
      ∃ r, s'.pc p = .code (.out r) ∧ (r = -1 ∧ (s.proc p).killed = true ∨
        r = l.dst.length ∧
          (0 < n → r = 0 → s.mem.nread = s.mem.nwrite ∧ s.mem.writeopen = false))) := by
  obtain ⟨-, hk, hf⟩ := pipe_of_run h
  have hsub := hf.sub
  obtain ⟨l, hl, hlen, hspells⟩ := hf.pending
  have hlength : (s.mem.nwrite - s.mem.nread).toNat = l.length := by
    rw [hsub, hl, List.length_append, Nat.add_sub_cancel_left]
  refine ⟨hlength ▸ hlen, ⟨l, hl, hlength.symm, fun j c hj => ?_⟩, fun p l n s' hpc hasked hs => ?_⟩
  · rw [Nat.add_mod, hf.nread, count_mod _ pipesize_dvd, ← Nat.add_mod]
    exact hspells j c hj
  · refine (piperead_step hpc hasked hs).imp_right fun ⟨r, hout, hr⟩ => ⟨r, hout, hr.imp_right ?_⟩
    rintro ⟨rfl, hrel⟩
    refine ⟨rfl, fun hn hzero => ?_⟩
    rw [hrel] at hpc
    have hknown := hk p (hpc ▸ ⟨rfl, trivial⟩) (hpc ▸ trivial)
    rw [hpc] at hknown
    exact hknown hn (List.length_eq_zero_iff.mp (Int.natCast_eq_zero.mp hzero))

/-- A pipe that nobody has used. -/
def newPipe : Sys ℕ Pipe Label := boot { data := fun _ => 0 } (.out 0) fun _ => Proc.zero

/-- Process 0 writes two bytes, process 1 reads one of them. -/
def twoBytes : List (Act ℕ Label) :=
  [.call 0 (.writeAcquire [5, 6])] ++ List.replicate 8 (.run 0) ++
    [.call 1 (.readAcquire 1), .run 1, .run 1]

/-- Process 0 closes the write end of a pipe in which there is nothing, and process 1 reads. -/
def readEnd : List (Act ℕ Label) :=
  [.call 0 (.closeAcquire true)] ++ List.replicate 7 (.run 0) ++
    [.call 1 (.readAcquire 1)] ++ List.replicate 5 (.run 1)

theorem pipe_fifo_twoBytes :
    (∃ s, exec (step pipe) newPipe twoBytes = some s ∧ s.pc 1 = .code (.readCopy 1 [5]) ∧
      (s.mem.nwrite - s.mem.nread).toNat ≤ PIPESIZE ∧
      ∃ l : List UInt8, [5, 6] = [5] ++ l ∧ l.length = (s.mem.nwrite - s.mem.nread).toNat) ∧
    ∃ s s', exec (step pipe) newPipe readEnd = some s ∧
      step pipe s (.run 1) = some s' ∧ s'.pc 1 = .code (.out 0) ∧
      s.mem.nread = s.mem.nwrite ∧ s.mem.writeopen = false := by
  obtain ⟨s, hs, hpc, hstored, hread⟩ :
      ∃ s, exec (step pipe) newPipe twoBytes = some s ∧ s.pc 1 = .code (.readCopy 1 [5]) ∧
        stored (traceOf (step pipe) newPipe twoBytes) = [5, 6] ∧
        delivered (traceOf (step pipe) newPipe twoBytes) = [5] := by
    decide +kernel
  obtain ⟨t, ht, hrel, t', hstep, hzero⟩ :
      ∃ s, exec (step pipe) newPipe readEnd = some s ∧ s.pc 1 = .code (.readRelease 1 []) ∧
        ∃ s', step pipe s (.run 1) = some s' ∧ s'.pc 1 = .code (.out 0) := by
    decide +kernel
  obtain ⟨hle, ⟨l, hl, hlen, -⟩, -⟩ := pipe_fifo (run_traceOf hs)
  have hbytes := hstored.symm.trans (hl.trans (congrArg (· ++ l) hread))
  refine ⟨⟨s, hs, hpc, hle, l, hbytes, hlen⟩, t, t', ht, hstep, hzero, ?_⟩
  rcases (pipe_fifo (run_traceOf ht)).2.2 1 _ 1 t' hrel rfl hstep with ⟨hasked, -⟩ | ⟨r, hr, hret⟩
  · rw [Sys.label, hzero] at hasked
    cases hasked
  · cases hr.symm.trans hzero
    exact (hret.resolve_left fun h => absurd h.1 (by decide)).2 one_pos rfl

end Xv6.Sync
