import Mathlib.Computability.Language

/-!
The regular expressions of `grep` (`grep.c`).

A pattern and a text are the lists of their characters before the NUL.

* `matchhere`, `matchstar`, `matchText`: the matcher.
* `Pattern`: what a pattern says, as a language; `parse` reads it.
* `matchText_iff`: the matcher finds what the pattern says.
-/

namespace Xv6.User

open Computability

/-- The character `*`. -/
abbrev starChar : ℕ := 42
/-- The character `.`. -/
abbrev dotChar : ℕ := 46
/-- The character `$`. -/
abbrev dollarChar : ℕ := 36
/-- The character `^`. -/
abbrev caretChar : ℕ := 94

/-! ### The matcher -/

mutual

/-- Search for `re` at beginning of text. -/
def matchhere (re text : List ℕ) : Bool :=
  match re with
  | [] => true
  | c :: re =>
    if re.head? = some starChar then matchstar c re.tail text
    else if c = dollarChar ∧ re = [] then text.isEmpty
    else
      match text with
      | [] => false
      | t :: text => if c = dotChar ∨ c = t then matchhere re text else false
  termination_by (re.length, text.length, 0)
  decreasing_by
  · simp only [Prod.lex_def, List.length_tail, List.length_cons]
    omega
  · simp only [Prod.lex_def, List.length_cons]
    omega

/-- Search for `c*re` at beginning of text. -/
def matchstar (c : ℕ) (re text : List ℕ) : Bool :=
  -- a * matches zero or more instances
  if matchhere re text then true
  else
    match text with
    | [] => false
    | t :: text => if t = c ∨ c = dotChar then matchstar c re text else false
  termination_by (re.length, text.length, 1)
  decreasing_by
  · simp [Prod.lex_def]
  · simp [Prod.lex_def]

end

/-- The loop of `match`. -/
def matchLoop (re : List ℕ) : List ℕ → Bool
  | [] => matchhere re []
  | t :: text => if matchhere re (t :: text) then true else matchLoop re text

/-- `match` -/
def matchText (re text : List ℕ) : Bool :=
  if re.head? = some caretChar then matchhere re.tail text else matchLoop re text

/-! ### What a pattern says -/

/-- A character, or `.` for any, which may be repeated. -/
structure Item where
  char : ℕ
  star : Bool
  deriving DecidableEq, Repr

/-- One character that `c` stands for. -/
def oneOf (c : ℕ) : Language ℕ := {w | ∃ x, w = [x] ∧ (c = dotChar ∨ c = x)}

def Item.lang (it : Item) : Language ℕ := if it.star then (oneOf it.char)∗ else oneOf it.char

/-- Items, with an anchor at the beginning and at the end. -/
structure Pattern where
  start : Bool
  items : List Item
  stop : Bool
  deriving DecidableEq, Repr

namespace Pattern

/-- The words that the items match. -/
def lang (items : List Item) : Language ℕ := (items.map Item.lang).prod

/-- **A match**: a part of the text, at its beginning and its end as the anchors say. -/
def Matches (p : Pattern) (text : List ℕ) : Prop :=
  ∃ before word after, text = before ++ word ++ after ∧ word ∈ lang p.items ∧
    (p.start = true → before = []) ∧ (p.stop = true → after = [])

end Pattern

/-- The items of a pattern, and whether there is a `$` after them. -/
def parseItems : List ℕ → List Item × Bool
  | [] => ([], false)
  | [c] => if c = dollarChar then ([], true) else ([⟨c, false⟩], false)
  | c :: d :: re =>
    if d = starChar then (⟨c, true⟩ :: (parseItems re).1, (parseItems re).2)
    else (⟨c, false⟩ :: (parseItems (d :: re)).1, (parseItems (d :: re)).2)

def parse (re : List ℕ) : Pattern :=
  if re.head? = some caretChar then ⟨true, (parseItems re.tail).1, (parseItems re.tail).2⟩
  else ⟨false, (parseItems re).1, (parseItems re).2⟩

/-- The items match at the beginning of the text, and there its end if `stop`. -/
def Starts (p : List Item × Bool) (text : List ℕ) : Prop :=
  ∃ word after, text = word ++ after ∧ word ∈ Pattern.lang p.1 ∧ (p.2 = true → after = [])

section Starts

variable {c : ℕ} {items : List Item} {stop : Bool} {text : List ℕ}

lemma starts_nil : Starts ([], stop) text ↔ (stop = true → text = []) := by
  constructor
  · rintro ⟨word, after, rfl, hword, hstop⟩ h
    obtain rfl : word = [] := hword
    exact hstop h
  · exact fun h => ⟨[], text, rfl, rfl, h⟩

/-- A word of a language and then a match of the items. -/
lemma starts_cons (it : Item) (items : List Item) (stop : Bool) (text : List ℕ) :
    Starts (it :: items, stop) text ↔
      ∃ word rest, text = word ++ rest ∧ word ∈ it.lang ∧ Starts (items, stop) rest := by
  constructor
  · rintro ⟨word, after, rfl, hword, hstop⟩
    obtain ⟨u, hu, v, hv, rfl⟩ := Language.mem_mul.mp hword
    exact ⟨u, v ++ after, List.append_assoc .., hu, v, after, rfl, hv, hstop⟩
  · rintro ⟨u, _, rfl, hu, v, after, rfl, hv, hstop⟩
    exact ⟨u ++ v, after, (List.append_assoc ..).symm,
      Language.mem_mul.mpr ⟨u, hu, v, hv, rfl⟩, hstop⟩

lemma starts_one : Starts (⟨c, false⟩ :: items, stop) text ↔
    ∃ t rest, text = t :: rest ∧ (c = dotChar ∨ c = t) ∧ Starts (items, stop) rest := by
  rw [starts_cons]
  constructor
  · rintro ⟨_, rest, rfl, ⟨x, rfl, hx⟩, hrest⟩
    exact ⟨x, rest, rfl, hx, hrest⟩
  · rintro ⟨t, rest, rfl, ht, hrest⟩
    exact ⟨[t], rest, rfl, ⟨t, rfl, ht⟩, hrest⟩

/-- A repeated item is left out, or matches a character and is repeated. -/
lemma mem_lang_star {word : List ℕ} : word ∈ (⟨c, true⟩ : Item).lang ↔
    word = [] ∨ ∃ t rest, word = t :: rest ∧ (c = dotChar ∨ c = t) ∧
      rest ∈ (⟨c, true⟩ : Item).lang := by
  change word ∈ (oneOf c)∗ ↔ _ ∨ ∃ t rest, word = t :: rest ∧ _ ∧ rest ∈ (oneOf c)∗
  conv_lhs => rw [← Language.one_add_self_mul_kstar_eq_kstar]
  rw [Language.mem_add, Language.mem_one, Language.mem_mul]
  refine or_congr Iff.rfl ⟨?_, ?_⟩
  · rintro ⟨_, ⟨t, rfl, ht⟩, rest, hrest, rfl⟩
    exact ⟨t, rest, rfl, ht, hrest⟩
  · rintro ⟨t, rest, rfl, ht, hrest⟩
    exact ⟨[t], ⟨t, rfl, ht⟩, rest, hrest, rfl⟩

lemma starts_star : Starts (⟨c, true⟩ :: items, stop) text ↔ Starts (items, stop) text ∨
    ∃ t rest, text = t :: rest ∧ (c = dotChar ∨ c = t) ∧
      Starts (⟨c, true⟩ :: items, stop) rest := by
  simp only [starts_cons ⟨c, true⟩ items stop]
  constructor
  · rintro ⟨word, rest, rfl, hword, hrest⟩
    rcases mem_lang_star.mp hword with rfl | ⟨t, w, rfl, ht, hw⟩
    · exact .inl hrest
    · exact .inr ⟨t, w ++ rest, rfl, ht, w, rest, rfl, hw, hrest⟩
  · rintro (h | ⟨t, _, rfl, ht, w, rest, rfl, hw, hrest⟩)
    · exact ⟨[], text, rfl, mem_lang_star.mpr (.inl rfl), h⟩
    · exact ⟨t :: w, rest, rfl, mem_lang_star.mpr (.inr ⟨t, w, rfl, ht, hw⟩), hrest⟩

end Starts

/-! ### The matcher finds what the pattern says -/

section Match

variable {c : ℕ} {re text : List ℕ}

/-- `matchstar` is right if `matchhere` is on the rest of the pattern. -/
lemma matchstar_iff (h : ∀ text, matchhere re text = true ↔ Starts (parseItems re) text) :
    matchstar c re text = true ↔
      Starts (⟨c, true⟩ :: (parseItems re).1, (parseItems re).2) text := by
  induction text with
  | nil =>
    rw [matchstar, starts_star, ← h]
    simp
  | cons t text ih =>
    rw [matchstar, starts_star, ← h]
    by_cases hhere : matchhere re (t :: text) = true
    · simp [hhere]
    · by_cases ht : t = c ∨ c = dotChar
      · have ht' : c = dotChar ∨ c = t := ht.symm.imp_right Eq.symm
        simp [hhere, ht, ht', ih]
      · have ht' : ¬ (c = dotChar ∨ c = t) := fun h => ht (h.symm.imp_left Eq.symm)
        simp [hhere, ht, ht']

/-- By induction on the pattern, as `matchhere` reads it. -/
lemma matchhere_iff : ∀ (re text : List ℕ),
    matchhere re text = true ↔ Starts (parseItems re) text
  | [], text => by simp [matchhere, parseItems, starts_nil]
  | [c], text => by
    by_cases hc : c = dollarChar
    · rw [parseItems, if_pos hc, starts_nil]
      cases text <;> simp [matchhere, hc]
    · rw [parseItems, if_neg hc, starts_one]
      cases text with
      | nil => simp [matchhere, hc]
      | cons t text => simp [matchhere, hc, starts_nil]
  | c :: d :: re, text => by
    by_cases hd : d = starChar
    · rw [parseItems, if_pos hd, ← matchstar_iff (matchhere_iff re)]
      cases text <;> simp [matchhere, hd]
    · rw [parseItems, if_neg hd, starts_one]
      cases text with
      | nil => simp [matchhere, hd]
      | cons t text => simp [matchhere, hd, matchhere_iff (d :: re) text]

/-- The loop tries every place of the text. -/
lemma matchLoop_iff : matchLoop re text = true ↔
    ∃ before rest, text = before ++ rest ∧ matchhere re rest = true := by
  induction text with
  | nil => simp [matchLoop]
  | cons t text ih =>
    rw [matchLoop]
    by_cases h : matchhere re (t :: text) = true
    · simp only [h, if_true, true_iff]
      exact ⟨[], t :: text, rfl, h⟩
    · rw [if_neg h, ih]
      constructor
      · rintro ⟨before, rest, rfl, hrest⟩
        exact ⟨t :: before, rest, rfl, hrest⟩
      · rintro ⟨_ | ⟨b, before⟩, rest, heq, hrest⟩
        · exact absurd (heq ▸ hrest) h
        · obtain ⟨rfl, rfl⟩ := List.cons.inj heq
          exact ⟨before, rest, rfl, hrest⟩

/-- **The matcher is correct.** -/
theorem matchText_iff (re text : List ℕ) :
    matchText re text = true ↔ (parse re).Matches text := by
  unfold matchText parse
  split_ifs with h
  · rw [matchhere_iff]
    constructor
    · rintro ⟨word, after, rfl, hword, hstop⟩
      exact ⟨[], word, after, rfl, hword, fun _ => rfl, hstop⟩
    · rintro ⟨before, word, after, rfl, hword, hstart, hstop⟩
      obtain rfl : before = [] := hstart rfl
      exact ⟨word, after, rfl, hword, hstop⟩
  · rw [matchLoop_iff]
    constructor
    · rintro ⟨before, rest, rfl, hrest⟩
      obtain ⟨word, after, rfl, hword, hstop⟩ := (matchhere_iff ..).mp hrest
      exact ⟨before, word, after, (List.append_assoc ..).symm, hword, by simp, hstop⟩
    · rintro ⟨before, word, after, rfl, hword, -, hstop⟩
      exact ⟨before, word ++ after, List.append_assoc .., (matchhere_iff ..).mpr
        ⟨word, after, rfl, hword, hstop⟩⟩

end Match

end Xv6.User
