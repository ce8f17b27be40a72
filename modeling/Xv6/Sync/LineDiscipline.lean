import Xv6.Sync.Console

/-!
The line discipline of the console, over whole runs.

The terminal after a run is the one that has seen the same keys and the same reads.

* `terminal`, `reads`: the terminal after a run, and what readers have got.
* `Serves`: readers have got the committed characters, in order.
* `Balanced`: each `^D` makes one read return 0.
* `console_discipline`: the console is a terminal.
-/

namespace Xv6.Sync

open Transition Console

variable {P : Type} [DecidableEq P] {s s' : Sys P Input Label} {a : Act P Label}

/-! ### What happens in a run -/

/-- What a reader gets for a committed character: a byte, or for a `^D` the end of the file. -/
def yield (c : UInt8) : Option UInt8 := if c = ctrl 'D' then none else some c

namespace Event

/-- What a reader gets. -/
def read? : Event → Option (Option UInt8)
  | typed _ => none
  | delivered c => some (some c)
  | ended => some none

end Event

namespace Console.Label

/-- The number of bytes that a call of `consoleread` is asked for. -/
def asked : Label → Option ℕ
  | .readAcquire n | .readLoop n _ | .readBreak n _ => some n
  | _ => none

/-- What a call of `consoleread` has copied to its caller. -/
def dst : Label → List UInt8
  | .readLoop _ dst | .readBreak _ dst => dst
  | _ => []

end Console.Label

/-- What happens between two places: a key is typed, a read is about to return nothing, or bytes are
copied to the caller. -/
def event : Label → Label → List Event
  | .intrLoop (c :: _), _ => [.typed c]
  | _, .readBreak _ [] => [.ended]
  | l, l' => (l'.dst.drop l.dst.length).map .delivered

def events (tr : List (Sys P Input Label × Act P Label)) : List Event :=
  tr.flatMap (watch console event)

/-- The terminal after a run. -/
def terminal (tr : List (Sys P Input Label × Act P Label)) : Terminal :=
  (events tr).foldl Terminal.step {}

/-- What readers have got: bytes, and `none` for each `^D` that was taken. -/
def reads (tr : List (Sys P Input Label × Act P Label)) : List (Option UInt8) :=
  (events tr).filterMap Event.read?

/-- A process at a place returns 0 from a call of `consoleread` with a positive `n`. -/
def returnsZero (x : Proc) (l : Label) (i : Input) : Bool :=
  match l with
  | .readLoop n _ | .readBreak n _ =>
    match console.code x l i with
    | .release (.out r) => 0 < n && r = 0
    | _ => false
  | _ => false

/-- A step is the end of a read of no bytes. -/
def zeroRead : Sys P Input Label × Act P Label → Bool
  | (s, .run p) =>
    match s.pc p with
    | .code l => returnsZero (s.proc p) l s.mem
    | _ => false
  | _ => false

/-- What a store does to the ring, and what happens at the terminal. -/
inductive Happens (i : Input) : Input → List Event → Prop where
  | typed (c) : Happens i (i.key c).1 [.typed c]
  | delivered : i.r ≠ i.w → i.head ≠ ctrl 'D' → Happens i i.pop [.delivered i.head]
  | ended : i.r ≠ i.w → i.head = ctrl 'D' → Happens i i.pop [.ended]
  /-- A `^D` is left for the next call. -/
  | saved : Happens i i []

variable {x : Proc} {l l' : Label} {i i' : Input}

variable {dst : List UInt8} {n : ℕ}

lemma event_saved (hdst : dst ≠ []) : event (.readLoop n dst) (.readBreak n dst) = [] := by
  cases dst with
  | nil => exact absurd rfl hdst
  | cons b bs =>
    change (List.drop (b :: bs).length (b :: bs)).map _ = []
    rw [List.drop_length, List.map_nil]

lemma event_delivered {b : UInt8}
    (hl : l' = .readBreak n (dst ++ [b]) ∨ l' = .readLoop n (dst ++ [b])) :
    event (.readLoop n dst) l' = [.delivered b] := by
  have hdrop : ((dst ++ [b]).drop dst.length).map Event.delivered = [.delivered b] := by
    rw [List.drop_left, List.map_singleton]
  obtain rfl | rfl := hl
  · cases dst <;> exact hdrop
  · exact hdrop

/-- A reader that finds a character stores. -/
lemma readChar_of_store (h : console.code x (.readLoop n dst) i = .store i' l') :
    dst.length < n ∧ i.r ≠ i.w ∧ readChar n dst i = .store i' l' := by
  simp only [console, Console.code] at h
  split_ifs at h with hn hr
  exact ⟨hn, hr, h⟩

lemma happens_of_code (h : console.code x l i = .store i' l') : Happens i i' (event l l') := by
  cases l with
  | intrLoop cs =>
    cases cs with
    | nil => cases h
    | cons c cs =>
      cases h
      exact .typed c
  | readLoop n dst =>
    obtain ⟨-, hr, h⟩ := readChar_of_store h
    obtain ⟨i₁, l₁, hi, hl⟩ := readChar_cases n dst i
    rw [hi] at h
    cases h
    rcases hl with ⟨hd, rfl, rfl, rfl⟩ | ⟨-, hdst, rfl, rfl⟩ | ⟨hd, rfl, hl⟩
    · exact .ended hr hd
    · rw [event_saved hdst]
      exact .saved
    · rw [event_delivered hl]
      exact .delivered hr hd
  | _ => cases h

omit [DecidableEq P] in
lemma terminal_snoc (tr : List (Sys P Input Label × Act P Label))
    (x : Sys P Input Label × Act P Label) :
    terminal (tr ++ [x]) = (watch console event x).foldl Terminal.step (terminal tr) := by
  rw [terminal, events, List.flatMap_append, List.flatMap_singleton, List.foldl_append]
  rfl

omit [DecidableEq P] in
lemma reads_snoc (tr : List (Sys P Input Label × Act P Label))
    (x : Sys P Input Label × Act P Label) :
    reads (tr ++ [x]) = reads tr ++ (watch console event x).filterMap Event.read? := by
  rw [reads, events, List.flatMap_append, List.flatMap_singleton, List.filterMap_append]
  rfl

lemma Terminal.taken_type (t : Terminal) (c : UInt8) : (t.type c).taken = t.taken := by
  unfold Terminal.type
  split_ifs <;> rfl

/-- What is committed stays committed. -/
lemma Terminal.committed_type (t : Terminal) (c : UInt8) :
    t.committed <+: (t.type c).committed := by
  unfold Terminal.type
  split_ifs
  all_goals first | exact List.prefix_rfl | exact List.prefix_append _ _

/-- Readers have got the committed characters, in order. -/
structure Serves (t : Terminal) (out : List (Option UInt8)) (i : Input) : Prop where
  typed : Typed t i
  out : out = (t.committed.take t.taken).map yield

namespace Serves

variable {t : Terminal} {out : List (Option UInt8)} {i : Input}

lemma key (h : Serves t out i) (c : UInt8) : Serves (t.type c) out (i.key c).1 where
  typed := h.typed.key c
  out := by
    obtain ⟨l, hl⟩ := t.committed_type c
    rw [h.out, t.taken_type, ← hl, List.take_append_of_le_length h.typed.taken]

lemma pop (h : Serves t out i) (hne : i.r ≠ i.w) :
    Serves { t with taken := t.taken + 1 } (out ++ [yield i.head]) i.pop := by
  obtain ⟨hhead, htyped⟩ := h.typed.pop hne
  refine ⟨htyped, ?_⟩
  rw [h.out, List.take_add_one, hhead, List.map_append]
  rfl

end Serves

variable {tr : List (Sys P Input Label × Act P Label)}

lemma Serves.step (h : Serves (terminal tr) (reads tr) s.mem) (ht : Trans console s a s') :
    Serves (terminal (tr ++ [(s, a)])) (reads (tr ++ [(s, a)])) s'.mem := by
  rw [terminal_snoc, reads_snoc]
  rcases ht.watch_cases Event with ⟨p, l, m, l', -, -, hi, rfl, hw⟩ | ⟨hmem, hw, -⟩
  · rw [hw]
    have hhappens := happens_of_code hi
    generalize event l l' = o at hhappens ⊢
    cases hhappens with
    | typed c =>
      change Serves _ (reads tr ++ []) _
      rw [List.append_nil]
      exact h.key c
    | delivered hne hd =>
      have hpop := h.pop hne
      rwa [yield, if_neg hd] at hpop
    | ended hne hd =>
      have hpop := h.pop hne
      rwa [yield, if_pos hd] at hpop
    | saved =>
      change Serves _ (reads tr ++ []) _
      rwa [List.append_nil]
  · rw [hw, hmem]
    change Serves _ (reads tr ++ []) _
    rwa [List.append_nil]

/-- **A step of `consoleread`**: it goes on, and has copied to its caller what is delivered in the
step; or it returns -1 to a process that is killed, or the number of bytes that it has copied. -/
lemma consoleread_step {p : P} (hpc : s.pc p = .code l) (hl : l.asked = some n)
    (h : step console s (.run p) = some s') :
    (s'.label p).asked = some n ∧ (s'.label p).dst = l.dst ++ (reads [(s, .run p)]).reduceOption ∨
      ∃ r, s'.pc p = .code (.out r) ∧
        (r = -1 ∧ (s.proc p).killed = true ∨ r = l.dst.length) := by
  have hrun := (trans_of_step h).run_cases event hpc
  rw [reads, events, List.flatMap_singleton]
  cases l with
  | readAcquire m =>
    cases hl
    rw [← Option.some.inj hrun.1, hrun.2]
    exact .inl ⟨rfl, rfl⟩
  | readBreak m dst =>
    cases hl
    exact .inr ⟨_, hrun.1, .inr rfl⟩
  | readLoop m dst =>
    cases hl
    by_cases hn : dst.length < n
    · by_cases hr : s.mem.r = s.mem.w
      · by_cases hkilled : (s.proc p).killed = true
        · have hi : console.code (s.proc p) (.readLoop n dst) s.mem = .release (.out (-1)) := by
            simp only [console, Console.code, if_pos hn, if_pos hr, if_pos hkilled]
          rw [hi] at hrun
          exact .inr ⟨-1, hrun.1, .inl ⟨rfl, hkilled⟩⟩
        · have hi : console.code (s.proc p) (.readLoop n dst) s.mem
              = .sleep chan (.readLoop n dst) := by
            simp only [console, Console.code, if_pos hn, if_pos hr, if_neg hkilled]
          rw [hi] at hrun
          rw [← Option.some.inj hrun.1, hrun.2]
          exact .inl ⟨rfl, (List.append_nil dst).symm⟩
      · obtain ⟨i', l', hi, hl'⟩ := readChar_cases n dst s.mem
        have hi' : console.code (s.proc p) (.readLoop n dst) s.mem = .store i' l' := by
          simp only [console, Console.code, if_pos hn, if_neg hr, hi]
        rw [hi'] at hrun
        rw [Sys.label, hrun.1, hrun.2]
        rcases hl' with ⟨-, rfl, -, rfl⟩ | ⟨-, hdst, -, rfl⟩ | ⟨-, -, hl'⟩
        · exact .inl ⟨rfl, rfl⟩
        · rw [event_saved hdst]
          exact .inl ⟨rfl, (List.append_nil dst).symm⟩
        · rw [event_delivered hl']
          obtain rfl | rfl := hl' <;> exact .inl ⟨rfl, rfl⟩
    · have hi : console.code (s.proc p) (.readLoop n dst) s.mem = .release (.out dst.length) := by
        simp only [console, Console.code, if_neg hn]
      rw [hi] at hrun
      exact .inr ⟨_, hrun.1, .inr rfl⟩
  | _ => cases hl

/-! ### Reads of no bytes -/

/-- What a process knows under the lock. -/
def Reading : Label → Input → Prop
  | .readBreak n _, _ => 0 < n
  | _, _ => True

lemma knows_reading : Knows console Held Reading := by
  intro x l i
  cases l with
  | intrLoop cs =>
    cases cs with
    | nil => trivial
    | cons c cs =>
      intro _
      split <;> trivial
  | readLoop n dst =>
    simp only [console, Console.code]
    split
    · rename_i hn
      split
      · split
        · trivial
        · exact fun _ => trivial
      · obtain ⟨i', l', hi, hl⟩ := readChar_cases n dst i
        rw [hi]
        intro _
        rcases hl with ⟨-, -, -, rfl⟩ | ⟨-, -, -, rfl⟩ | ⟨-, -, rfl | rfl⟩
        · exact Nat.zero_lt_of_lt hn
        · exact Nat.zero_lt_of_lt hn
        · exact Nat.zero_lt_of_lt hn
        · trivial
    · trivial
  | intrWake => exact fun _ _ => trivial
  | _ => trivial

/-- A reader has taken a `^D` and is about to return 0. -/
def Ending (c : Pc Label) : Prop := ∃ n, c = .code (.readBreak n [])

/-- Only a store ends in a `break`. -/
lemma next_ne_readBreak (x : Proc) (l : Label) (i : Input) (n : ℕ) (dst : List UInt8) :
    (console.code x l i).next ≠ some (.readBreak n dst) := by
  intro h
  cases l with
  | intrLoop cs => cases cs <;> cases h
  | readLoop n dst =>
    simp only [console, Console.code] at h
    split at h
    · split at h
      · split at h <;> cases h
      · obtain ⟨i', l', hi, -⟩ := readChar_cases n dst i
        rw [hi] at h
        cases h
    · cases h
  | _ => cases h

/-- The number of `^D`s that are taken in one step. -/
def ends (es : List Event) : ℕ := (es.filterMap Event.read?).count none

/-- A reader is about to return 0 after the store that takes a `^D`. -/
lemma ending_iff_of_code (h : console.code x l i = .store i' l') :
    Ending (.code l') ∧ ends (event l l') = 1 ∨ ¬Ending (.code l') ∧ ends (event l l') = 0 := by
  cases l with
  | intrLoop cs =>
    cases cs with
    | nil => cases h
    | cons c cs =>
      cases h
      refine .inr ⟨?_, rfl⟩
      rintro ⟨n, hn⟩
      split at hn <;> cases hn
  | readLoop n dst =>
    obtain ⟨-, -, h⟩ := readChar_of_store h
    obtain ⟨i₁, l₁, hi, hl⟩ := readChar_cases n dst i
    rw [hi] at h
    cases h
    rcases hl with ⟨-, rfl, -, rfl⟩ | ⟨-, hdst, -, rfl⟩ | ⟨-, -, hl⟩
    · exact .inl ⟨⟨n, rfl⟩, rfl⟩
    · rw [event_saved hdst]
      refine .inr ⟨?_, rfl⟩
      rintro ⟨n, hn⟩
      cases hn
      exact hdst rfl
    · rw [event_delivered hl]
      refine .inr ⟨?_, rfl⟩
      rintro ⟨n, hn⟩
      rcases hl with rfl | rfl
      · simp at hn
      · cases hn
  | _ => cases h

omit [DecidableEq P] in
lemma Ending.holds {c : Pc Label} (h : Ending c) : Holds console Held .own c := by
  obtain ⟨n, rfl⟩ := h
  exact ⟨rfl, trivial⟩

lemma returnsZero_iff (x : Proc) (l : Label) (i : Input) :
    returnsZero x l i = true ↔ ∃ n, 0 < n ∧ l = .readBreak n [] := by
  cases l with
  | readLoop n dst =>
    refine iff_of_false (fun h => ?_) (by simp)
    simp only [returnsZero, console, Console.code] at h
    split_ifs at h with hn hr hkill
    · simp at h
    · obtain ⟨i', l', hi, -⟩ := readChar_cases n dst i
      rw [hi] at h
      cases h
    · obtain ⟨hpos, hzero⟩ := Bool.and_eq_true_iff.mp h
      have hpos := of_decide_eq_true hpos
      have hzero := of_decide_eq_true hzero
      omega
  | readBreak n dst =>
    simp [returnsZero, console, Console.code, and_comm]
  | _ => simp [returnsZero]

omit [DecidableEq P] in
/-- A call returns 0 for a positive `n` where its reader has taken a `^D`. -/
lemma zeroRead_iff (hk : Owned console Held Reading s) :
    zeroRead (s, a) = true ↔ ∃ p, a = .run p ∧ Ending (s.pc p) := by
  cases a with
  | run p =>
    cases hpc : s.pc p with
    | code l =>
      simp only [zeroRead, hpc, returnsZero_iff]
      constructor
      · rintro ⟨n, -, rfl⟩
        exact ⟨p, rfl, n, hpc⟩
      · rintro ⟨q, hq, n, hn⟩
        cases hq
        rw [hpc] at hn
        cases hn
        have hread := hk p (hpc ▸ ⟨rfl, trivial⟩) (hpc ▸ trivial)
        rw [hpc] at hread
        exact ⟨n, hread, rfl⟩
    | _ =>
      refine iff_of_false (by simp [zeroRead, hpc]) ?_
      rintro ⟨q, hq, n, hn⟩
      cases hq
      rw [hpc] at hn
      cases hn
  | _ => exact iff_of_false nofun fun ⟨q, hq, _⟩ => nomatch hq

/-- Each `^D` that was taken has been returned, or its reader is about to. -/
def Balanced (tr : List (Sys P Input Label × Act P Label)) (s : Sys P Input Label) : Prop :=
  (reads tr).count none = tr.countP zeroRead ∧ (∀ p, ¬Ending (s.pc p)) ∨
    (reads tr).count none = tr.countP zeroRead + 1 ∧ ∃ p, Ending (s.pc p)

omit [DecidableEq P] in
/-- Nobody comes to the end of such a read without a store. -/
lemma Ending.of_flow (hl : Locked console Held s) {p : P} {c' : Pc Label}
    (h : Flow console (s.proc p) s.mem (s.pc p) c') : ¬Ending c' := by
  rintro ⟨n, rfl⟩
  have hresumes : ∀ ch, ¬Resumes console ch (.readBreak n []) := by
    rintro ch ⟨x, l, i, hi⟩
    exact next_ne_readBreak x l i n [] (hi ▸ rfl)
  have hsignalled : ∀ ch, ¬Signalled console ch (.readBreak n []) := by
    rintro ch ⟨x, l, i, hi⟩
    exact next_ne_readBreak x l i n [] (hi ▸ rfl)
  have hret := hl.returns p
  generalize s.pc p = c₀ at h hret
  generalize hc : Pc.code (Label.readBreak n []) = c' at h
  cases h with
  | call hi =>
    cases hc
    rename_i l
    cases l <;> cases hi
  | acquire hi | release hi | wakeup1 hi =>
    cases hc
    exact next_ne_readBreak _ _ _ n [] (congrArg Instr.next hi)
  | wokenPtable =>
    cases hc
    obtain ⟨ch, hret⟩ := hret
    exact hresumes ch hret
  | reacquire =>
    cases hc
    obtain ⟨-, ch, hret⟩ := hret
    exact hresumes ch hret
  | wakeRelease =>
    cases hc
    exact hsignalled _ hret
  | _ => cases hc

omit [DecidableEq P] in
/-- One more step, with what it shows. -/
lemma balanced_snoc :
    Balanced (tr ++ [(s, a)]) s' ↔
      (reads tr).count none + ends (watch console event (s, a))
          = tr.countP zeroRead + (if zeroRead (s, a) then 1 else 0) ∧ (∀ p, ¬Ending (s'.pc p)) ∨
        (reads tr).count none + ends (watch console event (s, a))
          = tr.countP zeroRead + (if zeroRead (s, a) then 1 else 0) + 1 ∧
        ∃ p, Ending (s'.pc p) := by
  rw [Balanced, reads_snoc, List.count_append, List.countP_append, List.countP_singleton]
  rfl

lemma Balanced.step (hl : Locked console Held s)
    (hk : Owned console Held Reading s) (h : Balanced tr s) (ht : Trans console s a s') :
    Balanced (tr ++ [(s, a)]) s' := by
  rw [balanced_snoc]
  have hzero := zeroRead_iff (a := a) hk
  rcases ht.watch_cases Event with ⟨p, l, m, l', rfl, hpc, hi, rfl, hw⟩ | ⟨-, hw, hflow⟩
  · -- The reader that stores has the lock, so that nobody is about to return.
    have hnone : ∀ q, ¬Ending (s.pc q) := by
      rintro q hq
      obtain rfl : q = p := hl.eq_of_store console_disciplined hpc hi hq.holds
      obtain ⟨n, hn⟩ := hq
      rw [hpc] at hn
      cases hn
      cases hi
    rw [if_neg (hzero.not.mpr fun ⟨q, _, hq⟩ => hnone q hq), hw]
    obtain ⟨hcount, -⟩ := h.resolve_right fun ⟨_, q, hq⟩ => hnone q hq
    obtain ⟨hend, hone⟩ | ⟨hend, hone⟩ := ending_iff_of_code hi
    · rw [hone]
      refine .inr ⟨congrArg (· + 1) hcount, p, ?_⟩
      rwa [Sys.goto_pc_self]
    · rw [hone]
      refine .inl ⟨hcount, fun q hq => ?_⟩
      rcases eq_or_ne q p with rfl | hne
      · rw [Sys.goto_pc_self] at hq
        exact hend hq
      · rw [Sys.goto_pc_of_ne _ _ hne] at hq
        exact hnone q hq
  · rw [hw]
    have hold : ∀ q, Ending (s'.pc q) → s'.pc q = s.pc q := fun q hq =>
      (hflow q).resolve_right fun hf => Ending.of_flow hl hf hq
    rcases h with ⟨hcount, hnone⟩ | ⟨hcount, p, hp⟩
    · rw [if_neg (hzero.not.mpr fun ⟨q, _, hq⟩ => hnone q hq)]
      exact .inl ⟨hcount, fun q hq => hnone q (hold q hq ▸ hq)⟩
    · by_cases hrun : a = .run p
      · -- The reader returns.
        rw [if_pos (hzero.mpr ⟨p, hrun, hp⟩)]
        refine .inl ⟨hcount, fun q hq => ?_⟩
        have hq' := hq
        rw [hold q hq] at hq'
        obtain rfl : q = p := hl.eq_of_holds hq'.holds hp.holds
        obtain ⟨n, hn⟩ := hp
        subst hrun
        have hnext := ht.run_eq
        simp only [run, hn, console, Console.code, Option.some.injEq] at hnext
        subst hnext
        obtain ⟨n', hn'⟩ := hq
        rw [Sys.goto_pc_self] at hn'
        cases hn'
      · have hnot : ¬∃ q, a = .run q ∧ Ending (s.pc q) := by
          rintro ⟨q, rfl, hq⟩
          obtain rfl : q = p := hl.eq_of_holds hq.holds hp.holds
          exact hrun rfl
        rw [if_neg (hzero.not.mpr hnot)]
        refine .inr ⟨hcount, p, ?_⟩
        obtain ⟨n, hn⟩ := hp
        refine ⟨n, ?_⟩
        rw [← hn]
        refine ht.pc_of_ne ?_ hrun ?_
        · rintro l rfl
          cases ht with
          | call hpc hcall =>
            rw [hn] at hpc
            cases hpc
            cases hcall
        · rintro rfl
          cases ht with
          | dispatch hpc =>
            rw [hn] at hpc
            cases hpc

/-- What every run keeps. -/
lemma console_of_run {buf : ℕ → UInt8} {proc : P → Proc}
    (h : Run (step console) (boot { buf := buf } (.out 0) proc) tr s) :
    Locked console Held s ∧ Owned console Held Reading s ∧
      Serves (terminal tr) (reads tr) s.mem ∧ Balanced tr s := by
  refine h.snoc_induction (P := fun tr s => Locked console Held s ∧ Owned console Held Reading s ∧
    Serves (terminal tr) (reads tr) s.mem ∧ Balanced tr s) ?_ ?_
  · refine ⟨locked_boot id proc, fun _ _ => False.elim, ⟨?_, rfl⟩, .inl ⟨rfl, fun p => ?_⟩⟩
    · exact ⟨rfl, rfl, rfl, le_rfl, Nat.zero_le _, spells_nil, List.not_mem_nil⟩
    · rintro ⟨n, hn⟩
      cases hn
  · rintro tr s a s' - ⟨hl, hk, hs, hb⟩ hstep
    have ht := trans_of_step hstep
    exact ⟨hl.step console_disciplined ht, hk.step console_disciplined hl knows_reading ht,
      hs.step ht, hb.step hl hk ht⟩

/-- What the line discipline promises after the steps `tr` have led to `s`. -/
structure LineDiscipline (tr : List (Sys P Input Label × Act P Label)) (s : Sys P Input Label) :
    Prop where
  w_le : (s.mem.w - s.mem.r).toNat ≤ (s.mem.e - s.mem.r).toNat
  e_le : (s.mem.e - s.mem.r).toNat ≤ INPUT_BUF
  /-- The ring holds what has been typed and nobody has taken. -/
  committed : (s.mem.w - s.mem.r).toNat = (terminal tr).committed.length - (terminal tr).taken
  line : (s.mem.e - s.mem.w).toNat = (terminal tr).line.length
  holds : ∀ j c, (terminal tr).pending[j]? = some c →
    s.mem.buf ((s.mem.r.toNat + j) % INPUT_BUF) = c
  /-- Editing takes characters only from behind the write index. -/
  edit : ∀ p c cs s', s.pc p = .code (.intrLoop (c :: cs)) → edits c →
    step console s (.run p) = some s' →
    ∃ e, s'.mem = { s.mem with e := e } ∧ (e - s.mem.w).toNat ≤ (s.mem.e - s.mem.w).toNat
  store : ∀ p c cs s', s.pc p = .code (.intrLoop (c :: cs)) → ¬edits c → c ≠ 0 → c ≠ ctrl 'P' →
    (s.mem.e - s.mem.r).toNat ≠ INPUT_BUF → step console s (.run p) = some s' →
    s'.mem.e = s.mem.e + 1 ∧
      s'.mem.buf = Function.update s.mem.buf (s.mem.e.toNat % INPUT_BUF) (keyChar c)
  /-- What a call of `consoleread` has copied to its caller grows by what is delivered in its step;
  it returns the number of bytes copied, or -1 to a process that is killed. -/
  copied : ∀ p l n s', s.pc p = .code l → l.asked = some n → step console s (.run p) = some s' →
    (s'.label p).asked = some n ∧ (s'.label p).dst = l.dst ++ (reads [(s, .run p)]).reduceOption ∨
      ∃ r, s'.pc p = .code (.out r) ∧
        (r = -1 ∧ (s.proc p).killed = true ∨ r = l.dst.length)
  /-- Readers get the committed characters in order. -/
  reads : reads tr = ((terminal tr).committed.take (terminal tr).taken).map yield
  /-- A read that meets a `^D` ends there, and takes it if it returns 0. -/
  meet : ∀ p n dst s', s.pc p = .code (.readLoop n dst) → dst.length < n → s.mem.r ≠ s.mem.w →
    s.mem.head = ctrl 'D' → step console s (.run p) = some s' →
    s'.pc p = .code (.readBreak n dst) ∧ s'.mem = if dst = [] then s.mem.pop else s.mem
  /-- Each `^D` that has been taken has made one read return 0, when nobody is in the code. -/
  zeros : s.lock .own = none →
    ((terminal tr).committed.take (terminal tr).taken).count (ctrl 'D') = tr.countP zeroRead

lemma count_yield (l : List UInt8) : (l.map yield).count none = l.count (ctrl 'D') := by
  induction l with
  | nil => rfl
  | cons c l ih =>
    rw [List.map_cons, List.count_cons, List.count_cons, ih]
    by_cases hc : c = ctrl 'D'
    · simp [yield, hc]
    · simp [yield, hc]

/-- **The console is a terminal.** -/
theorem console_discipline {buf : ℕ → UInt8} {proc : P → Proc}
    {tr : List (Sys P Input Label × Act P Label)}
    (h : Run (step console) (boot { buf := buf } (.out 0) proc) tr s) : LineDiscipline tr s := by
  obtain ⟨hl, -, ⟨ht, hreads⟩, hb⟩ := console_of_run h
  have hrun : ∀ {p s' l m l'}, s.pc p = .code l → console.code (s.proc p) l s.mem = .store m l' →
      step console s (.run p) = some s' → s' = { s with mem := m }.goto p (.code l') :=
    fun hpc hi hstep => (trans_of_step hstep).eq_of_store hpc hi
  refine ⟨?_, ?_, ht.w_sub_r, ht.sub_w, ?_, ?_, ?_, fun p l n s' => consoleread_step,
    hreads, ?_, ?_⟩
  · rw [ht.w_sub_r, ht.sub_r, Terminal.pending_length]
    exact Nat.le_add_right ..
  · rw [ht.sub_r]
    exact ht.room
  · intro j c hj
    rw [Nat.add_mod, ht.r, count_mod _ inputBuf_dvd, ← Nat.add_mod]
    exact ht.spells j c hj
  · intro p c cs s' hpc hc hstep
    rw [hrun hpc rfl hstep]
    exact ht.edit hc
  · intro p c cs s' hpc hc h0 hP hroom hstep
    rw [hrun hpc rfl hstep]
    refine Input.key_of_stores hc h0 hP (ht.lt_iff.mpr ?_)
    rwa [← ht.sub_r]
  · intro p n dst s' hpc hn hr hd hstep
    have hi : console.code (s.proc p) (.readLoop n dst) s.mem
        = .store (if dst = [] then s.mem.pop else s.mem) (.readBreak n dst) := by
      simp only [console, Console.code, if_pos hn, if_neg hr, readChar, if_pos hd]
    rw [hrun hpc hi hstep]
    exact ⟨Sys.goto_pc_self .., rfl⟩
  · intro hfree
    rw [← count_yield, ← hreads]
    rcases hb with ⟨hcount, -⟩ | ⟨-, p, hp⟩
    · exact hcount
    · exact absurd hp.holds (hl.not_holds_of_free hfree p)

/-- `a`, backspace, `b`, return and `^D` are typed, and process 1 reads twice. -/
def typedLine : List (Act ℕ Label) :=
  [.call 0 (.intrAcquire [97, 8, 98, 13, 4])] ++ List.replicate 15 (.run 0) ++
    [.call 1 (.readAcquire 9), .run 1, .run 1, .run 1, .run 1,
      .call 1 (.readAcquire 9), .run 1, .run 1, .run 1]

theorem console_discipline_typedLine :
    ∃ s tr, Run (step console) (boot { buf := fun _ => 0 } (.out 0) fun _ : ℕ => Proc.zero) tr s ∧
      reads tr = [some 98, some 10, none] ∧ tr.countP zeroRead = 1 ∧ LineDiscipline tr s := by
  let s₀ : Sys ℕ Input Label := boot { buf := fun _ => 0 } (.out 0) fun _ => Proc.zero
  obtain ⟨s, hs, hreads, hzero⟩ : ∃ s, exec (step console) s₀ typedLine = some s ∧
      reads (traceOf (step console) s₀ typedLine) = [some 98, some 10, none] ∧
      (traceOf (step console) s₀ typedLine).countP zeroRead = 1 := by
    decide +kernel
  exact ⟨s, _, run_traceOf hs, hreads, hzero, console_discipline (run_traceOf hs)⟩

end Xv6.Sync
