import Xv6.User.Memmove
import Xv6.User.Regexp

/-!
`grep` (`grep.c`): a buffer that carries an unfinished line from one `read` to the next.

Addresses are positions in `buf`.

* `Grep`, `grepStep`: the buffer, and a round of the loop of `grep` on what `read` returned.
* `lines`, `unfinished`: the lines of a text that end in a newline, and what comes after them.
* `lineLoop_spec`, `grepStep_spec`: a round writes the lines that match and keeps the rest;
  without a newline in the buffer it drops everything.
* `grep_iff`: what `grep` writes is what it should exactly if no piece lacks a newline.
-/

namespace Xv6.User

open Function

/-- `sizeof(buf)` -/
def bufSize : ℕ := 1024

/-- The character `\n`. -/
abbrev newline : ℕ := 10

/-! ### The program -/

/-- `strchr`, on a string that ends before `fuel` characters. -/
def strchr (mem : Memory) (c : ℕ) : ℕ → ℕ → Option ℕ
  | 0, _ => none
  | fuel + 1, p =>
    if mem p = 0 then none
    else if mem p = c then some p
    else strchr mem c fuel (p + 1)

/-- The characters of the string at `p`. -/
def str (mem : Memory) : ℕ → ℕ → List ℕ
  | 0, _ => []
  | fuel + 1, p => if mem p = 0 then [] else mem p :: str mem fuel (p + 1)

/-- `n` bytes from `p` on. -/
def bytes (mem : Memory) : ℕ → ℕ → List ℕ
  | _, 0 => []
  | p, n + 1 => mem p :: bytes mem (p + 1) n

/-- The memory after `read` has put `piece` at `p`. -/
def filled (mem : Memory) (p : ℕ) : List ℕ → Memory
  | [] => mem
  | c :: piece => filled (update mem p c) (p + 1) piece

/-- `buf`, `p` and what was written to descriptor 1. -/
structure Lines where
  buf : Memory
  p : ℕ
  out : List ℕ

/-- `while((q = strchr(p, '\n')) != 0)` -/
def lineLoop (pattern : List ℕ) : ℕ → Lines → Lines
  | 0, s => s
  | fuel + 1, s =>
    match strchr s.buf newline bufSize s.p with
    | none => s
    | some q =>
      let cut := update s.buf q 0
      if matchText pattern (str cut bufSize s.p) then
        let back := update cut q newline
        lineLoop pattern fuel ⟨back, q + 1, s.out ++ bytes back s.p (q + 1 - s.p)⟩
      else
        -- the newline stays overwritten
        lineLoop pattern fuel ⟨cut, q + 1, s.out⟩

/-- `buf`, `m` and what was written to descriptor 1. -/
structure Grep where
  buf : Memory
  m : ℕ
  out : List ℕ

/-- The loop of `grep` after `read` has returned `piece`. -/
def grepStep (pattern : List ℕ) (s : Grep) (piece : List ℕ) : Grep :=
  let m := s.m + piece.length
  let buf := update (filled s.buf s.m piece) m 0
  let t := lineLoop pattern bufSize ⟨buf, 0, s.out⟩
  let m := if t.p = 0 then 0 else m
  if m > 0 then ⟨memmove t.buf 0 t.p (m - t.p : ℕ), m - t.p, t.out⟩
  else ⟨t.buf, m, t.out⟩

/-- What `grep` writes if `read` returns `pieces` and then 0. -/
def grep (pattern : List ℕ) (buf : Memory) (pieces : List (List ℕ)) : List ℕ :=
  (pieces.foldl (grepStep pattern) ⟨buf, 0, []⟩).out

/-- What `read` may return: a piece that is not empty and not larger than requested. -/
def Reads (pattern : List ℕ) : Grep → List (List ℕ) → Prop
  | _, [] => True
  | s, piece :: pieces =>
    piece ≠ [] ∧ piece.length ≤ bufSize - s.m - 1 ∧ Reads pattern (grepStep pattern s piece) pieces

/-! ### The lines of a text -/

/-- The lines of a text, without their newlines. -/
def lines (text : List ℕ) : List (List ℕ) := (text.splitOn newline).dropLast

/-- What comes after the last newline. -/
def unfinished (text : List ℕ) : List ℕ := (text.splitOn newline).getLastD []

/-- The lines that match. -/
def matching (pattern text : List ℕ) : List ℕ :=
  ((lines text).filter (matchText pattern)).flatMap (· ++ [newline])

section Lines

variable {l t u pattern : List ℕ}

lemma splitOn_of_notMem (h : newline ∉ l) : l.splitOn newline = [l] :=
  List.splitOnP_eq_singleton fun _ hx => beq_false_of_ne (ne_of_mem_of_not_mem hx h)

lemma splitOn_line (h : newline ∉ l) :
    (l ++ newline :: t).splitOn newline = l :: t.splitOn newline := by
  have hsplit : (l ++ newline :: t).splitOn newline = l.splitOn newline ++ t.splitOn newline :=
    List.splitOnP_append_cons l t (beq_self_eq_true newline)
  rw [hsplit, splitOn_of_notMem h, List.singleton_append]

lemma splitOn_ne_nil : t.splitOn newline ≠ [] := List.splitOnP_ne_nil _ _

lemma lines_of_notMem (h : newline ∉ l) : lines l = [] := by
  rw [lines, splitOn_of_notMem h, List.dropLast_singleton]

lemma unfinished_of_notMem (h : newline ∉ l) : unfinished l = l := by
  rw [unfinished, splitOn_of_notMem h, List.getLastD_cons, List.getLastD_nil]

lemma lines_line (h : newline ∉ l) : lines (l ++ newline :: t) = l :: lines t := by
  rw [lines, splitOn_line h, List.dropLast_cons_of_ne_nil splitOn_ne_nil, lines]

lemma unfinished_line (h : newline ∉ l) : unfinished (l ++ newline :: t) = unfinished t := by
  rw [unfinished, splitOn_line h, List.getLastD_cons, unfinished, List.getLastD_eq_getLast?,
    List.getLastD_eq_getLast?, List.getLast?_eq_getLast_of_ne_nil splitOn_ne_nil]
  rfl

/-- A text is unfinished, or it is a line and another text. -/
lemma line_induction {motive : List ℕ → Prop} (hunf : ∀ l, newline ∉ l → motive l)
    (hline : ∀ l t, newline ∉ l → motive t → motive (l ++ newline :: t)) (t : List ℕ) :
    motive t := by
  induction hn : t.length using Nat.strong_induction_on generalizing t with
  | _ n ih =>
    by_cases h : newline ∈ t
    · obtain ⟨l, u, rfl, hl⟩ := List.eq_append_cons_of_mem h
      refine hline l u hl (ih u.length ?_ u rfl)
      rw [← hn, List.length_append, List.length_cons]
      omega
    · exact hunf t h

lemma newline_notMem_unfinished (t : List ℕ) : newline ∉ unfinished t := by
  induction t using line_induction with
  | hunf l h => rwa [unfinished_of_notMem h]
  | hline l t h ih => rwa [unfinished_line h]

/-- A text that goes on: the unfinished line comes before what is new. -/
lemma lines_append (t u : List ℕ) : lines (t ++ u) = lines t ++ lines (unfinished t ++ u) := by
  induction t using line_induction with
  | hunf l h => rw [lines_of_notMem h, unfinished_of_notMem h, List.nil_append]
  | hline l t h ih =>
    rw [List.append_assoc, List.cons_append, lines_line h, lines_line h, unfinished_line h, ih,
      List.cons_append]

lemma unfinished_append (t u : List ℕ) : unfinished (t ++ u) = unfinished (unfinished t ++ u) := by
  induction t using line_induction with
  | hunf l h => rw [unfinished_of_notMem h]
  | hline l t h ih =>
    rw [List.append_assoc, List.cons_append, unfinished_line h, unfinished_line h, ih]

lemma matching_append (t u : List ℕ) :
    matching pattern (t ++ u) = matching pattern t ++ matching pattern (unfinished t ++ u) := by
  rw [matching, lines_append, List.filter_append, List.flatMap_append, matching, matching]

/-- The end of a text is what is unfinished. -/
lemma exists_append_unfinished (t : List ℕ) : ∃ done, t = done ++ unfinished t ∧
    (newline ∈ t → done ≠ []) := by
  induction t using line_induction with
  | hunf l h => exact ⟨[], (unfinished_of_notMem h).symm, fun hmem => absurd hmem h⟩
  | hline l t h ih =>
    obtain ⟨done, hdone, -⟩ := ih
    refine ⟨l ++ newline :: done, ?_, fun _ => by simp⟩
    rw [unfinished_line h, List.append_assoc, List.cons_append, ← hdone]

end Lines

/-! ### Text in memory -/

/-- The text `w` is at `p`. -/
def Holds (mem : Memory) : ℕ → List ℕ → Prop
  | _, [] => True
  | p, c :: w => mem p = c ∧ Holds mem (p + 1) w

section Holds

variable {mem mem' : Memory} {p n : ℕ} {w v : List ℕ}

lemma holds_append :
    Holds mem p (w ++ v) ↔ Holds mem p w ∧ Holds mem (p + w.length) v := by
  induction w generalizing p with
  | nil => exact (and_iff_right trivial).symm
  | cons c w ih =>
    rw [List.cons_append, Holds, Holds, ih, and_assoc, List.length_cons, Nat.add_assoc,
      Nat.add_comm 1]

lemma Holds.congr (h : Holds mem p w)
    (heq : ∀ a, p ≤ a → a < p + w.length → mem' a = mem a) : Holds mem' p w := by
  induction w generalizing p with
  | nil => trivial
  | cons c w ih =>
    rw [List.length_cons] at heq
    exact ⟨(heq p le_rfl (by omega)).trans h.1,
      ih h.2 fun a hle hlt => heq a (by omega) (by omega)⟩

lemma Holds.bytes_eq (h : Holds mem p w) : bytes mem p w.length = w := by
  induction w generalizing p with
  | nil => rfl
  | cons c w ih => rw [List.length_cons, bytes, h.1, ih h.2]

/-- A byte after the text may change. -/
lemma Holds.update_of_le (h : Holds mem p w) {a c : ℕ} (ha : p + w.length ≤ a) :
    Holds (update mem a c) p w :=
  h.congr fun _ _ _ => update_of_ne (by omega) ..

/-- A byte before the text may change. -/
lemma Holds.update_of_lt (h : Holds mem p w) {a c : ℕ} (ha : a < p) :
    Holds (update mem a c) p w :=
  h.congr fun _ _ _ => update_of_ne (by omega) ..

lemma filled_of_lt {a : ℕ} (ha : a < p) : filled mem p w a = mem a := by
  induction w generalizing mem p with
  | nil => rfl
  | cons c w ih => rw [filled, ih (by omega), update_of_ne (by omega)]

lemma holds_filled : Holds (filled mem p w) p w := by
  induction w generalizing mem p with
  | nil => trivial
  | cons c w ih =>
    rw [filled]
    exact ⟨(filled_of_lt (by omega)).trans (update_self ..), ih⟩

/-- A text is moved with `memmove`. -/
lemma Holds.moved {d : ℕ} (h : Holds mem p w) : Holds (moved mem d p w.length) d w := by
  have hget : ∀ (v : List ℕ) (i : ℕ), i + v.length = w.length → Holds mem (p + i) v →
      Holds (User.moved mem d p w.length) (d + i) v := by
    intro v
    induction v with
    | nil => exact fun _ _ _ => trivial
    | cons c v ih =>
      intro i hi hv
      rw [List.length_cons] at hi
      exact ⟨(moved_add (by omega)).trans hv.1, ih (i + 1) (by omega) hv.2⟩
  exact hget w 0 (Nat.zero_add _) h

/-- The string up to the NUL. -/
lemma Holds.str_eq (h : Holds mem p w) (hnul : 0 ∉ w) (hend : mem (p + w.length) = 0)
    (hn : w.length < n) : str mem n p = w := by
  induction w generalizing p n with
  | nil =>
    obtain ⟨n, rfl⟩ := Nat.exists_eq_add_one.mpr hn
    exact if_pos hend
  | cons c w ih =>
    obtain ⟨hc, hnul⟩ := not_or.mp <| List.mem_cons.not.mp hnul
    rw [List.length_cons, Nat.add_comm _ 1, ← Nat.add_assoc] at hend
    obtain ⟨n, rfl⟩ := Nat.exists_eq_add_one.mpr (Nat.zero_lt_of_lt hn)
    rw [str, h.1, if_neg (Ne.symm hc), ih h.2 hnul hend (by simpa using hn)]

/-- `strchr` finds the first newline, or the end of the string. -/
lemma Holds.strchr_eq (h : Holds mem p w) (hnul : 0 ∉ w) (hnl : newline ∉ w)
    (hend : mem (p + w.length) = 0 ∨ mem (p + w.length) = newline) (hn : w.length < n) :
    strchr mem newline n p = if mem (p + w.length) = 0 then none else some (p + w.length) := by
  induction w generalizing p n with
  | nil =>
    obtain ⟨n, rfl⟩ := Nat.exists_eq_add_one.mpr hn
    rw [strchr]
    rcases hend with hend | hend <;> simp_all
  | cons c w ih =>
    obtain ⟨hc, hnul⟩ := not_or.mp <| List.mem_cons.not.mp hnul
    obtain ⟨hc', hnl⟩ := not_or.mp <| List.mem_cons.not.mp hnl
    rw [List.length_cons, Nat.add_comm _ 1, ← Nat.add_assoc] at hend ⊢
    obtain ⟨n, rfl⟩ := Nat.exists_eq_add_one.mpr (Nat.zero_lt_of_lt hn)
    rw [strchr, h.1, if_neg (Ne.symm hc), if_neg (Ne.symm hc')]
    exact ih h.2 hnul hnl hend (by simpa using hn)

end Holds

/-! ### The loops -/

section Loops

variable {pattern w : List ℕ}

lemma matching_of_notMem (h : newline ∉ w) : matching pattern w = [] := by
  rw [matching, lines_of_notMem h, List.filter_nil, List.flatMap_nil]

lemma matching_line {l : List ℕ} (h : newline ∉ l) :
    matching pattern (l ++ newline :: w) =
      (if matchText pattern l then l ++ [newline] else []) ++ matching pattern w := by
  rw [matching, lines_line h, List.filter_cons, matching]
  split_ifs
  · rw [List.flatMap_cons]
  · rw [List.nil_append]

/-- What the inner loop has done: the lines that match are written, and the rest is at `p`. -/
structure Scanned (pattern w : List ℕ) (s t : Lines) : Prop where
  p_add : t.p + (unfinished w).length = s.p + w.length
  holds : Holds t.buf t.p (unfinished w)
  out_eq : t.out = s.out ++ matching pattern w

lemma Scanned.line {l t : List ℕ} {s s' u : Lines} (h : newline ∉ l)
    (hp : s'.p = s.p + l.length + 1)
    (hout : s'.out = s.out ++ if matchText pattern l then l ++ [newline] else [])
    (ht : Scanned pattern t s' u) : Scanned pattern (l ++ newline :: t) s u where
  p_add := by
    rw [unfinished_line h, ht.p_add, hp, List.length_append, List.length_cons]
    omega
  holds := by
    rw [unfinished_line h]
    exact ht.holds
  out_eq := by rw [ht.out_eq, hout, matching_line h, List.append_assoc]

/-- By induction on the lines in the buffer. -/
lemma lineLoop_spec {fuel : ℕ} {s : Lines} (hw : Holds s.buf s.p w) (hnul : 0 ∉ w)
    (hend : s.buf (s.p + w.length) = 0) (hsize : s.p + w.length < bufSize)
    (hfuel : w.length ≤ fuel) : Scanned pattern w s (lineLoop pattern fuel s) := by
  induction w using line_induction generalizing fuel s with
  | hunf l h =>
    have hloop : lineLoop pattern fuel s = s := by
      cases fuel with
      | zero => rfl
      | succ fuel =>
        rw [lineLoop, hw.strchr_eq hnul h (.inl hend) (by omega), if_pos hend]
    rw [hloop]
    exact ⟨by rw [unfinished_of_notMem h], by rwa [unfinished_of_notMem h],
      by rw [matching_of_notMem h, List.append_nil]⟩
  | hline l t h ih =>
    rw [List.length_append, List.length_cons] at hend hsize hfuel
    rw [show s.p + (l.length + (t.length + 1)) = s.p + l.length + 1 + t.length by omega]
      at hend hsize
    obtain ⟨hl, hnl, ht⟩ := holds_append.mp hw
    have hnul_l : 0 ∉ l := fun h0 => hnul (List.mem_append_left _ h0)
    have hnul_t : 0 ∉ t := fun h0 => hnul (List.mem_append_right _ (List.mem_cons_of_mem _ h0))
    obtain ⟨fuel, rfl⟩ := Nat.exists_eq_add_one.mpr (show 0 < fuel by omega)
    have hq : strchr s.buf newline bufSize s.p = some (s.p + l.length) := by
      rw [hl.strchr_eq hnul_l h (.inr hnl) (by omega), if_neg (by rw [hnl]; decide)]
    have hstr : str (update s.buf (s.p + l.length) 0) bufSize s.p = l :=
      (hl.update_of_le le_rfl).str_eq hnul_l (update_self ..) (by omega)
    have hbytes : bytes s.buf s.p (s.p + l.length + 1 - s.p) = l ++ [newline] := by
      have hline : Holds s.buf s.p (l ++ [newline]) := holds_append.mpr ⟨hl, hnl, trivial⟩
      rw [Nat.add_assoc, Nat.add_sub_cancel_left, ← hline.bytes_eq, List.length_append,
        List.length_singleton]
    rw [lineLoop, hq]
    dsimp only
    rw [hstr]
    split_ifs with hmatch
    · rw [update_idem, ← hnl, update_eq_self, hnl, hbytes]
      exact .line h rfl (by rw [if_pos hmatch]) (ih ht hnul_t hend hsize (by omega))
    · refine .line h rfl (by rw [if_neg hmatch, List.append_nil])
        (ih (ht.update_of_lt (Nat.lt_succ_self _)) hnul_t ?_ hsize (by omega))
      exact (update_of_ne (show s.p + l.length + 1 + t.length ≠ s.p + l.length by omega) ..).trans
        hend

/-- The bytes in the buffer between two rounds. -/
structure Kept (s : Grep) (w : List ℕ) : Prop where
  m_eq : s.m = w.length
  holds : Holds s.buf 0 w
  unfinished : newline ∉ w
  noNul : 0 ∉ w

variable {s : Grep} {piece : List ℕ}

/-- The buffer after `read`, with a NUL at its end. -/
lemma Kept.read (h : Kept s w) :
    Holds (update (filled s.buf s.m piece) (s.m + piece.length) 0) 0 (w ++ piece) := by
  refine Holds.update_of_le (holds_append.mpr ⟨?_, ?_⟩) ?_
  · exact h.holds.congr fun a _ ha => filled_of_lt (by rw [h.m_eq]; omega)
  · rw [Nat.zero_add, ← h.m_eq]
    exact holds_filled
  · rw [List.length_append, h.m_eq, Nat.zero_add]

/-- What the inner loop leaves for the end of the round. -/
lemma Kept.scanned (h : Kept s w) (hnul : 0 ∉ piece) (hlen : s.m + piece.length < bufSize) :
    Scanned pattern (w ++ piece) ⟨update (filled s.buf s.m piece) (s.m + piece.length) 0, 0, s.out⟩
      (lineLoop pattern bufSize
        ⟨update (filled s.buf s.m piece) (s.m + piece.length) 0, 0, s.out⟩) := by
  have hm : (w ++ piece).length = s.m + piece.length := by rw [List.length_append, h.m_eq]
  refine lineLoop_spec h.read (fun h0 => ?_) ?_ ?_ ?_
  · exact (List.mem_append.mp h0).elim h.noNul hnul
  · rw [hm, Nat.zero_add]
    exact update_self ..
  · rwa [hm, Nat.zero_add]
  · exact (hm.trans_lt hlen).le

/-- **A round**: with a newline in the piece, the lines that match are written and the
unfinished line is kept. -/
lemma grepStep_newline (pattern : List ℕ) (h : Kept s w) (hnul : 0 ∉ piece)
    (hlen : s.m + piece.length < bufSize) (hnl : newline ∈ piece) :
    Kept (grepStep pattern s piece) (unfinished (w ++ piece)) ∧
      (grepStep pattern s piece).out = s.out ++ matching pattern (w ++ piece) := by
  have hs : Scanned pattern (w ++ piece) _ _ := h.scanned hnul hlen
  obtain ⟨done, hdone, hne⟩ := exists_append_unfinished (w ++ piece)
  have hpos : 0 < done.length := List.length_pos_iff.mpr (hne (List.mem_append_right _ hnl))
  have hlength := congrArg List.length hdone
  have hp := hs.p_add
  have hnoNul : 0 ∉ unfinished (w ++ piece) := fun h0 =>
    (List.mem_append.mp (hdone ▸ List.mem_append_right done h0)).elim h.noNul hnul
  rw [List.length_append, List.length_append, ← h.m_eq] at hlength
  rw [List.length_append, ← h.m_eq] at hp
  unfold grepStep
  dsimp only at hp ⊢
  generalize lineLoop pattern bufSize _ = t at hs hp ⊢
  have hp0 : ¬ t.p = 0 := by omega
  have hm : s.m + piece.length - t.p = (unfinished (w ++ piece)).length := by omega
  have hbuf : Holds (memmove t.buf 0 t.p ((unfinished (w ++ piece)).length : ℕ)) 0
      (unfinished (w ++ piece)) := by
    rw [memmove, Int.toNat_natCast, copyUp_eq_moved fun h0 => absurd h0 (Nat.not_lt_zero _)]
    exact hs.holds.moved
  simp only [if_neg hp0]
  rw [if_pos (by omega), hm]
  exact ⟨⟨rfl, hbuf, newline_notMem_unfinished _, hnoNul⟩, hs.out_eq⟩

/-- Without a newline, everything in the buffer is dropped. -/
lemma grepStep_dropped (pattern : List ℕ) (h : Kept s w) (hnul : 0 ∉ piece)
    (hlen : s.m + piece.length < bufSize) (hnl : newline ∉ piece) :
    Kept (grepStep pattern s piece) [] ∧ (grepStep pattern s piece).out = s.out := by
  have hs : Scanned pattern (w ++ piece) _ _ := h.scanned hnul hlen
  have hno : newline ∉ w ++ piece := fun hmem =>
    (List.mem_append.mp hmem).elim h.unfinished hnl
  have hp := hs.p_add
  have hout := hs.out_eq
  rw [unfinished_of_notMem hno] at hp
  rw [matching_of_notMem hno, List.append_nil] at hout
  unfold grepStep
  dsimp only at hp ⊢
  generalize lineLoop pattern bufSize _ = t at hs hp hout ⊢
  have hp0 : t.p = 0 := by omega
  simp only [if_pos hp0, gt_iff_lt, lt_irrefl, if_false]
  exact ⟨⟨rfl, trivial, List.not_mem_nil, List.not_mem_nil⟩, hout⟩

variable {pieces : List (List ℕ)}

/-- A run on pieces that all have a newline: by induction on them, `text` is what was read
before. -/
lemma out_of_newlines {text : List ℕ} (h : Kept s (unfinished text))
    (hout : s.out = matching pattern text) (hread : Reads pattern s pieces)
    (hnul : 0 ∉ pieces.flatten) (hnl : ∀ piece ∈ pieces, newline ∈ piece) :
    (pieces.foldl (grepStep pattern) s).out = matching pattern (text ++ pieces.flatten) := by
  induction pieces generalizing s text with
  | nil => rw [List.foldl_nil, List.flatten_nil, List.append_nil, hout]
  | cons piece pieces ih =>
    obtain ⟨hne, hle, hread⟩ := hread
    rw [List.flatten_cons, List.mem_append, not_or] at hnul
    obtain ⟨hkept, hstep⟩ := grepStep_newline pattern h hnul.1
      (by have := List.length_pos_iff.mpr hne; omega) (hnl piece List.mem_cons_self)
    rw [← unfinished_append] at hkept
    rw [hout, ← matching_append] at hstep
    rw [List.foldl_cons, List.flatten_cons, ← List.append_assoc]
    exact ih hkept hstep hread hnul.2 fun q hq => hnl q (List.mem_cons_of_mem _ hq)

/-- The empty pattern matches every line. -/
lemma matchText_nil (l : List ℕ) : matchText [] l = true := by
  cases l <;> simp [matchText, matchLoop, matchhere]

lemma length_matching_nil (t : List ℕ) :
    (matching [] t).length + (unfinished t).length = t.length := by
  induction t using line_induction with
  | hunf l h => rw [matching_of_notMem h, unfinished_of_notMem h, List.length_nil, Nat.zero_add]
  | hline l t h ih =>
    rw [matching_line h, unfinished_line h, if_pos (matchText_nil l)]
    simp only [List.length_append, List.length_cons, List.length_nil]
    omega

/-- With the empty pattern, no byte is written twice, and one is lost in every piece without a
newline. -/
lemma length_out_lt (h : Kept s w) (hread : Reads [] s pieces) (hnul : 0 ∉ pieces.flatten) :
    (pieces.foldl (grepStep []) s).out.length ≤ s.out.length + s.m + pieces.flatten.length ∧
      ((∃ piece ∈ pieces, newline ∉ piece) → (pieces.foldl (grepStep []) s).out.length <
        s.out.length + s.m + pieces.flatten.length) := by
  induction pieces generalizing s w with
  | nil => exact ⟨by rw [List.foldl_nil]; omega, by rintro ⟨_, h, -⟩; cases h⟩
  | cons piece pieces ih =>
    obtain ⟨hne, hle, hread⟩ := hread
    have hpos := List.length_pos_iff.mpr hne
    have hlen : s.m + piece.length < bufSize := by omega
    rw [List.flatten_cons, List.mem_append, not_or] at hnul
    rw [List.flatten_cons, List.length_append, List.foldl_cons]
    by_cases hnl : newline ∈ piece
    · obtain ⟨hkept, hout⟩ := grepStep_newline [] h hnul.1 hlen hnl
      obtain ⟨hle, hlt⟩ := ih hkept hread hnul.2
      have hlength := length_matching_nil (w ++ piece)
      rw [hout, List.length_append, hkept.m_eq] at hle hlt
      rw [List.length_append, ← h.m_eq] at hlength
      refine ⟨by omega, fun hex => ?_⟩
      have hex' : ∃ piece ∈ pieces, newline ∉ piece := by
        obtain ⟨q, hq, hqnl⟩ := hex
        rcases List.mem_cons.mp hq with rfl | hq
        · exact absurd hnl hqnl
        · exact ⟨q, hq, hqnl⟩
      have := hlt hex'
      omega
    · obtain ⟨hkept, hout⟩ := grepStep_dropped [] h hnul.1 hlen hnl
      obtain ⟨hle, -⟩ := ih hkept hread hnul.2
      rw [hout, hkept.m_eq, List.length_nil] at hle
      exact ⟨by omega, fun _ => by omega⟩

end Loops

lemma kept_start (buf : Memory) : Kept ⟨buf, 0, []⟩ [] :=
  ⟨rfl, trivial, List.not_mem_nil, List.not_mem_nil⟩

lemma unfinished_of_getLast {text : List ℕ} (h : text.getLast? = some newline) :
    unfinished text = [] := by
  obtain ⟨done, hdone, -⟩ := exists_append_unfinished text
  by_contra hne
  rw [hdone, List.getLast?_append_of_ne_nil _ hne] at h
  exact newline_notMem_unfinished text (List.mem_of_getLast? h)

/-- **What `grep` writes**: the lines that match, whatever the pattern, exactly if every piece
that `read` returns has a newline. -/
theorem grep_iff (buf : Memory) {text : List ℕ} {pieces : List (List ℕ)} (hnul : 0 ∉ text)
    (hend : text.getLast? = some newline) (htext : pieces.flatten = text)
    (hread : ∀ pattern, Reads pattern ⟨buf, 0, []⟩ pieces) :
    (∀ pattern, grep pattern buf pieces = matching pattern text) ↔
      ∀ piece ∈ pieces, newline ∈ piece := by
  subst htext
  constructor
  · intro h
    by_contra hno
    push Not at hno
    have hlt := (length_out_lt (kept_start buf) (hread []) hnul).2 hno
    have hlength := length_matching_nil pieces.flatten
    rw [unfinished_of_getLast hend, ← h []] at hlength
    rw [grep] at hlength
    simp only [List.length_nil] at hlt hlength
    omega
  · intro hnl pattern
    have hnil : newline ∉ ([] : List ℕ) := List.not_mem_nil
    have hkept : Kept ⟨buf, 0, []⟩ (unfinished []) := by
      rw [unfinished_of_notMem hnil]
      exact kept_start buf
    exact out_of_newlines hkept (matching_of_notMem hnil).symm (hread pattern) hnul hnl

/-- The pattern `c` and the text `a\nbc\n`, of which the first piece has `b` and the second `c`. -/
theorem grep_iff_pieces : unfinished [97, 10, 98] = [98] ∧
    grep [99] (fun _ => 0) [[97, 10, 98], [99, 10]] = matching [99] [97, 10, 98, 99, 10] := by
  have hrest : unfinished [97, 10, 98] = [98] := by decide
  have hread : ∀ pattern, Reads pattern ⟨fun _ => 0, 0, []⟩ [[97, 10, 98], [99, 10]] := by
    intro pattern
    have hkept := (grepStep_newline pattern (kept_start fun _ => 0) (by decide : 0 ∉ [97, 10, 98])
      (by decide) (by decide)).1
    rw [List.nil_append, hrest] at hkept
    refine ⟨by decide, by decide, by decide, ?_, trivial⟩
    rw [hkept.m_eq]
    decide
  exact ⟨hrest, (grep_iff _ (by decide) rfl rfl hread).mpr (by decide) [99]⟩

/-- The line `ab`, of which `read` returns `a` first: its beginning is lost. -/
theorem grep_cut_line : Reads [] ⟨fun _ => 0, 0, []⟩ [[97], [98, 10]] ∧
    grep [] (fun _ => 0) [[97], [98, 10]] = [98, 10] ∧
    matching [] [97, 98, 10] = [97, 98, 10] := by
  have hline : ∀ l, newline ∉ l → matching [] (l ++ [newline]) = l ++ [newline] := by
    intro l h
    rw [matching_line h, if_pos (matchText_nil l), matching_of_notMem List.not_mem_nil,
      List.append_nil]
  obtain ⟨hkept, hout⟩ := grepStep_dropped [] (kept_start fun _ => 0)
    (by decide : 0 ∉ [97]) (by decide) (by decide)
  have hlen : (grepStep [] ⟨fun _ => 0, 0, []⟩ [97]).m + [98, 10].length < bufSize := by
    rw [hkept.m_eq]
    decide
  have hout' := (grepStep_newline [] hkept (by decide : 0 ∉ [98, 10]) hlen (by decide)).2
  refine ⟨⟨by decide, by decide, by decide, ?_, trivial⟩, ?_, hline [97, 98] (by decide)⟩
  · rw [hkept.m_eq]
    decide
  · rw [hout, List.nil_append, List.nil_append] at hout'
    exact hout'.trans (hline [98] (by decide))

end Xv6.User
