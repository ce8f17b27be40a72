import Xv6.Sync.Monitor
import Xv6.Transition.Ring

/-!
The input side of the console (`console.c`).

The code of `consoleintr` and `consoleread`, cut where a process can be overtaken.  The
characters that `getc` gives to one call of `consoleintr` are a list, and so are those that
`consoleread` has copied out.  What is shown on the screen is left out, and so is the inode of
the console, which `consoleread` unlocks for as long as it works.

* `console`: the code.
* `Terminal`: what the line discipline is for, in terms of lists.
* `Typed`: the ring of the console holds what the terminal has and readers have not taken.
* `Typed.key`, `Typed.pop`: a key is typed, and a character is taken.
-/

namespace Xv6.Sync

open Transition

abbrev INPUT_BUF : ℕ := 128

namespace Console

/-- `C(x)`: control-x. -/
def ctrl (x : Char) : UInt8 := UInt8.ofNat (x.toNat - '@'.toNat)

abbrev NEWLINE : UInt8 := 10
abbrev RETURN : UInt8 := 13
abbrev DEL : UInt8 := 0x7f

/-- `c = (c == '\r') ? '\n' : c` -/
def keyChar (c : UInt8) : UInt8 := if c = RETURN then NEWLINE else c

/-- `input` -/
structure Input where
  buf : ℕ → UInt8
  /-- Read index. -/
  r : UInt32 := 0
  /-- Write index. -/
  w : UInt32 := 0
  /-- Edit index. -/
  e : UInt32 := 0

/-- The address of `input.r`. -/
def chan : Chan := .obj 0

namespace Input

variable (i : Input)

/-- `input.e--` -/
def back : Input := { i with e := i.e - 1 }

/-- `input.buf[input.r % INPUT_BUF]` -/
def head : UInt8 := i.buf (i.r.toNat % INPUT_BUF)

/-- `input.r++` -/
def pop : Input := { i with r := i.r + 1 }

/-- `input.buf[input.e++ % INPUT_BUF] = c` -/
def push (c : UInt8) : Input :=
  { i with buf := Function.update i.buf (i.e.toNat % INPUT_BUF) c, e := i.e + 1 }

/-- The loop of `^U`; it makes at most `e - w` rounds. -/
def killLine : ℕ → Input → Input
  | 0, i => i
  | n + 1, i =>
    if i.e ≠ i.w ∧ i.buf ((i.e - 1).toNat % INPUT_BUF) ≠ NEWLINE then killLine n i.back else i

/-- The `switch` of `consoleintr`, and whether it ends with a call of `wakeup`. -/
def key (c : UInt8) : Input × Bool :=
  -- The processes are listed later.
  if c = ctrl 'P' then (i, false)
  else if c = ctrl 'U' then (killLine (i.e - i.w).toNat i, false)
  else if c = ctrl 'H' ∨ c = DEL then (if i.e ≠ i.w then i.back else i, false)
  else if c ≠ 0 ∧ i.e - i.r < UInt32.ofNat INPUT_BUF then
    let i := i.push (keyChar c)
    if keyChar c = NEWLINE ∨ keyChar c = ctrl 'D' ∨ i.e = i.r + UInt32.ofNat INPUT_BUF then
      ({ i with w := i.e }, true)
    else (i, false)
  else (i, false)

end Input

/-- Where a process is; outside, with the value that its last call has returned.  In
`consoleread` `n` is `target` and `dst` has the bytes copied so far. -/
inductive Label where
  | out (r : ℤ)
  | intrAcquire (cs : List UInt8)
  | intrLoop (cs : List UInt8)
  | intrWake (cs : List UInt8)
  | readAcquire (n : ℕ)
  /-- The tests of the two `while` loops; the first one holds whenever `sleep` returns. -/
  | readLoop (n : ℕ) (dst : List UInt8)
  /-- After a `break`. -/
  | readBreak (n : ℕ) (dst : List UInt8)
  deriving DecidableEq

/-- The body of the loop of `consoleread` when there is a character. -/
def readChar (n : ℕ) (dst : List UInt8) (i : Input) : Instr Input Label :=
  if i.head = ctrl 'D' then
    -- `^D` is saved for the next time if there is something to return.
    .store (if dst = [] then i.pop else i) (.readBreak n dst)
  else if i.head = NEWLINE then .store i.pop (.readBreak n (dst ++ [i.head]))
  else .store i.pop (.readLoop n (dst ++ [i.head]))

def code (x : Proc) : Label → Input → Instr Input Label
  | .out _, _ => .stay
  | .intrAcquire cs, _ => .acquire (.intrLoop cs)
  | .intrLoop [], _ => .release (.out 0)
  | .intrLoop (c :: cs), i =>
    .store (i.key c).1 (if (i.key c).2 then .intrWake cs else .intrLoop cs)
  | .intrWake cs, _ => .wakeup chan (.intrLoop cs)
  | .readAcquire n, _ => .acquire (.readLoop n [])
  | .readLoop n dst, i =>
    if dst.length < n then
      if i.r = i.w then
        if x.killed then .release (.out (-1)) else .sleep chan (.readLoop n dst)
      else readChar n dst i
    else .release (.out dst.length)
  | .readBreak _ dst, _ => .release (.out dst.length)

def calls : Label → Label → Bool
  | .out _, .intrAcquire _ | .out _, .readAcquire _ => true
  | _, _ => false

/-- The places under `cons.lock`. -/
def Held : Label → Prop
  | .out _ | .intrAcquire _ | .readAcquire _ => False
  | _ => True

end Console

open Console

variable {P : Type} [DecidableEq P] {s s' : Sys P Input Label} {a : Act P Label}

/-- The processes that read from the console, and the interrupts of its keyboard. -/
def console : Component Input Label where
  lk := .own
  code := Console.code
  calls := Console.calls

/-- All that a reader does with a character. -/
lemma readChar_cases (n : ℕ) (dst : List UInt8) (i : Input) :
    ∃ i' l', readChar n dst i = .store i' l' ∧
      ((i.head = ctrl 'D' ∧ dst = [] ∧ i' = i.pop ∧ l' = .readBreak n []) ∨
       (i.head = ctrl 'D' ∧ dst ≠ [] ∧ i' = i ∧ l' = .readBreak n dst) ∨
       (i.head ≠ ctrl 'D' ∧ i' = i.pop ∧
         (l' = .readBreak n (dst ++ [i.head]) ∨ l' = .readLoop n (dst ++ [i.head])))) := by
  unfold readChar
  split
  · rename_i hd
    rcases eq_or_ne dst [] with rfl | hdst
    · exact ⟨_, _, rfl, .inl ⟨hd, rfl, rfl, rfl⟩⟩
    · rw [if_neg hdst]
      exact ⟨_, _, rfl, .inr (.inl ⟨hd, hdst, rfl, rfl⟩)⟩
  · rename_i hd
    split
    · exact ⟨_, _, rfl, .inr (.inr ⟨hd, rfl, .inl rfl⟩)⟩
    · exact ⟨_, _, rfl, .inr (.inr ⟨hd, rfl, .inr rfl⟩)⟩

lemma console_disciplined : Disciplined console Held where
  call {l l'} h := by
    cases l <;> cases l' <;> first | exact ⟨id, id⟩ | cases h
  code x l i := by
    cases l with
    | out r => trivial
    | intrAcquire | readAcquire => exact ⟨id, trivial⟩
    | intrLoop cs =>
      cases cs with
      | nil => exact ⟨trivial, id⟩
      | cons c cs =>
        refine ⟨trivial, ?_⟩
        split <;> trivial
    | intrWake => exact ⟨Iff.rfl, nofun⟩
    | readLoop n dst =>
      simp only [console, Console.code]
      split
      · split
        · split
          · exact ⟨trivial, id⟩
          · exact ⟨trivial, trivial⟩
        · obtain ⟨i', l', hi, hl⟩ := readChar_cases n dst i
          rw [hi]
          refine ⟨trivial, ?_⟩
          rcases hl with ⟨-, -, -, rfl⟩ | ⟨-, -, -, rfl⟩ | ⟨-, -, rfl | rfl⟩ <;> trivial
      · exact ⟨trivial, id⟩
    | readBreak => exact ⟨trivial, id⟩

/-! ### The terminal -/

/-- A terminal: the characters that have been committed, how many of them readers have taken,
and the line that can still be edited. -/
structure Terminal where
  committed : List UInt8 := []
  taken : ℕ := 0
  line : List UInt8 := []

/-- What happens at a terminal: a key is typed, a byte is delivered to a reader, or a reader takes
a `^D`. -/
inductive Event where
  | typed (c : UInt8)
  | delivered (c : UInt8)
  | ended
  deriving DecidableEq

namespace Terminal

variable (t : Terminal)

/-- The characters that nobody has taken. -/
def pending : List UInt8 := t.committed.drop t.taken ++ t.line

/-- A key is typed: `^H`, `DEL` and `^U` edit the line, and any other key but `NUL` and `^P` goes
to its end unless there are `INPUT_BUF` characters.  A newline, a `^D` and the last character that
finds room commit the line. -/
def type (c : UInt8) : Terminal :=
  if c = 0 ∨ c = ctrl 'P' then t
  else if c = ctrl 'U' then { t with line := [] }
  else if c = ctrl 'H' ∨ c = DEL then { t with line := t.line.dropLast }
  else if t.pending.length = INPUT_BUF then t
  else if keyChar c = NEWLINE ∨ keyChar c = ctrl 'D' ∨ t.pending.length + 1 = INPUT_BUF then
    { t with committed := t.committed ++ (t.line ++ [keyChar c]), line := [] }
  else { t with line := t.line ++ [keyChar c] }

def step : Event → Terminal
  | .typed c => t.type c
  | .delivered _ | .ended => { t with taken := t.taken + 1 }

end Terminal

/-! ### The ring holds what is pending -/

lemma inputBuf_lt : INPUT_BUF < 2 ^ 32 := by norm_num

lemma inputBuf_dvd : INPUT_BUF ∣ 2 ^ 32 := by norm_num

/-- The ring holds the characters of the terminal that nobody has taken, and the line has no
newline. -/
structure Typed (t : Terminal) (i : Input) : Prop where
  r : i.r = count t.taken
  w : i.w = count t.committed.length
  e : i.e = count (t.committed.length + t.line.length)
  taken : t.taken ≤ t.committed.length
  room : t.pending.length ≤ INPUT_BUF
  spells : Spells INPUT_BUF i.buf t.taken t.pending
  line : NEWLINE ∉ t.line

lemma Terminal.pending_length (t : Terminal) :
    t.pending.length = t.committed.length - t.taken + t.line.length := by
  rw [Terminal.pending, List.length_append, List.length_drop]

namespace Typed

variable {t : Terminal} {i : Input}

section

variable (h : Typed t i)

include h

/-- The end of the line, as a position of the ring. -/
lemma edge : t.committed.length + t.line.length = t.taken + t.pending.length := by
  have htaken := h.taken
  rw [t.pending_length]
  omega

lemma eq_w_iff : i.e = i.w ↔ t.line = [] := by
  have hedge := h.edge
  have hroom := h.room
  have hsize := inputBuf_lt
  have htaken := h.taken
  rw [h.e, h.w, eq_comm, count_inj (by omega) (by omega), ← List.length_eq_zero_iff]
  omega

lemma r_eq_w_iff : i.r = i.w ↔ t.taken = t.committed.length := by
  have hedge := h.edge
  have hroom := h.room
  have hsize := inputBuf_lt
  rw [h.r, h.w, count_inj h.taken (by omega)]

lemma sub_r : (i.e - i.r).toNat = t.pending.length := by
  have hedge := h.edge
  have hroom := h.room
  have hsize := inputBuf_lt
  rw [h.e, h.r, hedge, count_sub (by omega) (by omega)]
  omega

lemma sub_w : (i.e - i.w).toNat = t.line.length := by
  have hedge := h.edge
  have hroom := h.room
  have hsize := inputBuf_lt
  have htaken := h.taken
  rw [h.e, h.w, count_sub (by omega) (by omega)]
  omega

lemma w_sub_r : (i.w - i.r).toNat = t.committed.length - t.taken := by
  have hedge := h.edge
  have hroom := h.room
  have hsize := inputBuf_lt
  rw [h.w, h.r, count_sub h.taken (by omega)]

/-- There is room for another character. -/
lemma lt_iff : i.e - i.r < UInt32.ofNat INPUT_BUF ↔ t.pending.length ≠ INPUT_BUF := by
  have hroom := h.room
  rw [UInt32.lt_iff_toNat_lt, h.sub_r]
  change t.pending.length < INPUT_BUF ↔ _
  omega

/-- The last character of the line is erased. -/
lemma back {x : UInt8} {l : List UInt8} (hl : t.line = l ++ [x]) :
    Typed { t with line := l } i.back where
  r := h.r
  w := h.w
  e := by
    have he := h.e
    rw [hl, List.length_append, List.length_singleton, ← Nat.add_assoc, count_succ] at he
    change i.e - 1 = _
    rw [he, UInt32.add_sub_cancel]
  taken := h.taken
  room := by
    refine le_trans ?_ h.room
    rw [Terminal.pending_length, Terminal.pending_length, hl, List.length_append]
    exact Nat.add_le_add_left (Nat.le_add_right ..) _
  spells := by
    have hspells := h.spells
    rw [Terminal.pending, hl, ← List.append_assoc] at hspells
    exact hspells.of_append
  line := fun hmem => h.line (hl ▸ List.mem_append_left _ hmem)

/-- The character before the edit index. -/
lemma buf_of_line {x : UInt8} {l : List UInt8} (hl : t.line = l ++ [x]) :
    i.buf ((i.e - 1).toNat % INPUT_BUF) = x := by
  have hback := (h.back hl).e
  change i.e - 1 = _ at hback
  have hpos : t.committed.length + l.length = t.taken + (t.committed.drop t.taken ++ l).length := by
    have htaken := h.taken
    rw [List.length_append, List.length_drop]
    omega
  rw [hback, count_mod _ inputBuf_dvd, hpos]
  refine h.spells _ x ?_
  rw [Terminal.pending, hl, ← List.append_assoc, List.getElem?_concat_length]

/-- `^U` erases the line: it meets no newline before the write index. -/
lemma killLine {n : ℕ} (hn : t.line.length ≤ n) : Typed { t with line := [] } (i.killLine n) := by
  induction n generalizing t i with
  | zero =>
    have hline := List.length_eq_zero_iff.mp (Nat.le_zero.mp hn)
    rw [← hline]
    exact h
  | succ n ih =>
    rcases List.eq_nil_or_concat' t.line with hline | ⟨l, x, hline⟩
    · rw [Input.killLine, if_neg fun hne => hne.1 (h.eq_w_iff.mpr hline), ← hline]
      exact h
    · have hne : i.e ≠ i.w := by
        rw [Ne, h.eq_w_iff, hline]
        exact List.append_ne_nil_of_right_ne_nil _ (List.cons_ne_nil _ _)
      have hx : x ≠ NEWLINE := by
        rintro rfl
        exact h.line (hline ▸ List.mem_append_right _ (List.mem_singleton_self _))
      rw [Input.killLine, if_pos ⟨hne, by rwa [h.buf_of_line hline]⟩]
      rw [hline, List.length_append, List.length_singleton] at hn
      exact ih (t := { t with line := l }) (h.back hline) (Nat.le_of_succ_le_succ hn)

lemma spells_push (hroom : t.pending.length ≠ INPUT_BUF) (c : UInt8) :
    Spells INPUT_BUF (i.push c).buf t.taken (t.pending ++ [c]) := by
  have hpush := h.spells.push (lt_of_le_of_ne h.room hroom) c
  rwa [← h.edge, ← count_mod _ inputBuf_dvd, ← h.e] at hpush

lemma e_push (c : UInt8) : (i.push c).e = count (t.committed.length + (t.line.length + 1)) := by
  rw [← Nat.add_assoc, count_succ, ← h.e]
  rfl

/-- The buffer is full after a character. -/
lemma full_iff (hroom : t.pending.length ≠ INPUT_BUF) (c : UInt8) :
    (i.push c).e = (i.push c).r + UInt32.ofNat INPUT_BUF ↔ t.pending.length + 1 = INPUT_BUF := by
  have hle := h.room
  have hedge := h.edge
  have hsize := inputBuf_lt
  have hr : (i.push c).r + UInt32.ofNat INPUT_BUF = count (t.taken + INPUT_BUF) := by
    change i.r + _ = _
    rw [h.r, count, count, UInt32.ofNat_add]
  rw [hr, h.e_push, count_inj (by omega) (by omega)]
  omega

/-- There is still no more than fits. -/
lemma room_push (hroom : t.pending.length ≠ INPUT_BUF) (c : UInt8) :
    (t.pending ++ [c]).length ≤ INPUT_BUF := by
  have hle := h.room
  rw [List.length_append, List.length_singleton]
  omega

/-- A character goes to the end of the line. -/
lemma append {c : UInt8} (hroom : t.pending.length ≠ INPUT_BUF) (hc : c ≠ NEWLINE) :
    Typed { t with line := t.line ++ [c] } (i.push c) := by
  have hpending : Terminal.pending { t with line := t.line ++ [c] } = t.pending ++ [c] := by
    rw [Terminal.pending, Terminal.pending, List.append_assoc]
  refine ⟨h.r, h.w, ?_, h.taken, ?_, ?_, ?_⟩
  · rw [h.e_push, List.length_append, List.length_singleton]
  · rw [hpending]
    exact h.room_push hroom c
  · rw [hpending]
    exact h.spells_push hroom c
  · rw [List.mem_append, List.mem_singleton, not_or]
    exact ⟨h.line, hc.symm⟩

end

/-- A character goes to the end of the line, and the line is committed. -/
lemma commit (h : Typed t i) (hroom : t.pending.length ≠ INPUT_BUF) (c : UInt8) :
    Typed { t with committed := t.committed ++ (t.line ++ [c]), line := [] }
      { i.push c with w := (i.push c).e } := by
  have hpending : Terminal.pending { t with
      committed := t.committed ++ (t.line ++ [c]), line := [] } = t.pending ++ [c] := by
    rw [Terminal.pending, Terminal.pending, List.append_nil, List.drop_append_of_le_length h.taken,
      List.append_assoc]
  have hlen : (t.committed ++ (t.line ++ [c])).length
      = t.committed.length + (t.line.length + 1) := by
    rw [List.length_append, List.length_append, List.length_singleton]
  refine ⟨h.r, ?_, ?_, ?_, ?_, ?_, List.not_mem_nil⟩
  · rw [h.e_push, hlen]
  · rw [h.e_push, hlen]
    rfl
  · rw [hlen]
    exact le_trans h.taken (Nat.le_add_right ..)
  · rw [hpending]
    exact h.room_push hroom c
  · rw [hpending]
    exact h.spells_push hroom c

/-- **A key is typed.** -/
theorem key (h : Typed t i) (c : UInt8) : Typed (t.type c) (i.key c).1 := by
  by_cases hP : c = ctrl 'P'
  · simp only [Input.key, Terminal.type, hP, or_true, if_true]
    exact h
  by_cases hU : c = ctrl 'U'
  · have h0 : ¬(c = 0 ∨ c = ctrl 'P') := by
      subst hU
      decide
    simp only [Input.key, Terminal.type, hU, if_true, if_neg (hU ▸ h0)]
    exact h.killLine h.sub_w.ge
  by_cases hH : c = ctrl 'H' ∨ c = DEL
  · have h0 : ¬(c = 0 ∨ c = ctrl 'P') := by
      rcases hH with rfl | rfl <;> decide
    rw [Terminal.type, if_neg h0]
    simp only [Input.key, hP, hU, hH, if_false, if_true]
    rcases List.eq_nil_or_concat' t.line with hline | ⟨l, x, hline⟩
    · rw [if_neg (not_not.mpr (h.eq_w_iff.mpr hline)), hline, List.dropLast_nil, ← hline]
      exact h
    · rw [if_pos, hline, List.dropLast_concat]
      · exact h.back hline
      · rw [Ne, h.eq_w_iff, hline]
        exact List.append_ne_nil_of_right_ne_nil _ (List.cons_ne_nil _ _)
  by_cases h0 : c = 0
  · simp only [Input.key, Terminal.type, h0, ne_eq, not_true_eq_false, false_and, true_or, if_true]
    exact h
  by_cases hroom : t.pending.length = INPUT_BUF
  · have hlt : ¬(i.e - i.r < UInt32.ofNat INPUT_BUF) := fun hlt => h.lt_iff.mp hlt hroom
    simp only [Input.key, Terminal.type, hP, hU, hH, h0, hlt, and_false, or_self, if_false, hroom,
      if_true]
    exact h
  simp only [Input.key, Terminal.type, hP, hU, hH, h0, or_self, ne_eq, not_false_eq_true, true_and,
    h.lt_iff.mpr hroom, hroom, if_false, if_true]
  simp only [h.full_iff hroom]
  split
  · exact h.commit hroom (keyChar c)
  · rename_i hends
    exact h.append hroom fun heq => hends (.inl heq)

/-- **A character is taken.**  It is the first committed one that nobody has taken. -/
theorem pop (h : Typed t i) (hne : i.r ≠ i.w) :
    t.committed[t.taken]? = some i.head ∧ Typed { t with taken := t.taken + 1 } i.pop := by
  rw [Ne, h.r_eq_w_iff] at hne
  have hlt : t.taken < t.committed.length := lt_of_le_of_ne h.taken hne
  have hpending : t.pending = t.committed[t.taken] ::
      Terminal.pending { t with taken := t.taken + 1 } := by
    rw [Terminal.pending, List.drop_eq_getElem_cons hlt]
    rfl
  have hspells := h.spells
  have hroom := h.room
  rw [hpending] at hspells hroom
  refine ⟨?_, ?_, h.w, h.e, hlt, ?_, hspells.tail, h.line⟩
  · rw [List.getElem?_eq_getElem hlt, ← hspells.head, Input.head, h.r, count_mod _ inputBuf_dvd]
  · rw [count_succ, ← h.r]
    rfl
  · rw [List.length_cons] at hroom
    omega

end Typed

/-- The keys that edit the line. -/
def edits (c : UInt8) : Prop := c = ctrl 'U' ∨ c = ctrl 'H' ∨ c = DEL

/-- `^U` moves only the edit index. -/
lemma Console.Input.killLine_eq (n : ℕ) (i : Input) :
    i.killLine n = { i with e := (i.killLine n).e } := by
  induction n generalizing i with
  | zero => rfl
  | succ n ih =>
    rw [Input.killLine]
    split
    · rw [ih i.back]
      rfl
    · rfl

/-- An edit changes only the edit index, and does not move it behind the write index. -/
lemma Typed.edit {t : Terminal} {i : Input} {c : UInt8} (h : Typed t i) (hc : edits c) :
    ∃ e, (i.key c).1 = { i with e := e } ∧ (e - i.w).toNat ≤ (i.e - i.w).toNat := by
  have hkey := h.key c
  have hle : (t.type c).line.length ≤ t.line.length ∧ (t.type c).committed = t.committed := by
    have h0 : ¬(c = 0 ∨ c = ctrl 'P') := by
      rcases hc with rfl | rfl | rfl <;> decide
    by_cases hU : c = ctrl 'U'
    · rw [Terminal.type, if_neg h0, if_pos hU]
      exact ⟨Nat.zero_le _, rfl⟩
    · have hH := hc.resolve_left hU
      rw [Terminal.type, if_neg h0, if_neg hU, if_pos hH, List.length_dropLast]
      exact ⟨Nat.sub_le _ _, rfl⟩
  have heq : (i.key c).1 = { i with e := (i.key c).1.e } := by
    have hP : c ≠ ctrl 'P' := by
      rcases hc with rfl | rfl | rfl <;> decide
    by_cases hU : c = ctrl 'U'
    · rw [Input.key, if_neg hP, if_pos hU]
      exact Input.killLine_eq _ i
    · have hH := hc.resolve_left hU
      rw [Input.key, if_neg hP, if_neg hU, if_pos hH]
      dsimp only
      split <;> rfl
  refine ⟨(i.key c).1.e, heq, ?_⟩
  have hsub := hkey.sub_w
  rw [hkey.w, hle.2, ← h.w] at hsub
  rw [hsub, h.sub_w]
  exact hle.1

/-- Any other key but `NUL` and `^P` is stored unless the buffer is full. -/
lemma Console.Input.key_of_stores {i : Input} {c : UInt8} (hc : ¬edits c) (h0 : c ≠ 0)
    (hP : c ≠ ctrl 'P') (hlt : i.e - i.r < UInt32.ofNat INPUT_BUF) :
    (i.key c).1.e = i.e + 1 ∧
      (i.key c).1.buf = Function.update i.buf (i.e.toNat % INPUT_BUF) (keyChar c) := by
  obtain ⟨hU, hH⟩ := not_or.mp hc
  rw [Input.key, if_neg hP, if_neg hU, if_neg hH, if_pos ⟨h0, hlt⟩]
  dsimp only
  split <;> exact ⟨rfl, rfl⟩

end Xv6.Sync
