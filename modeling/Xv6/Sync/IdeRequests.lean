import Xv6.Sync.IdeQueue

/-!
The calls of `iderw`, over whole runs.

For each call that is under way the trace tells how it began, and which commands for its buffer
have been carried out since: none until the controller has done it, and from then on that one.

* `Progress`: what has become of a call.
* `Requests`: every call that is under way, and its progress.
* `ide_queue`: the queue, the controller and what a caller of `iderw` gets.
-/

namespace Xv6.Sync

open Transition Xv6.Fs Ide Function

variable {P B : Type} [DecidableEq B] [DecidableEq P]
variable {m m' : Mem P B} {lab lab' : P → Label B} {q : List B} {a : IdeAct P B}
  {e : Option (QueueEvent B)}

/-! ### The calls of `iderw` -/

/-- The interrupt is raised, or somebody is about to handle it. -/
def Interrupt (m : Mem P B) (lab : P → Label B) : Prop := m.irq = true ∨ ∃ p, Handler (lab p)

/-- The command of a buffer has been carried out, and the buffer is still in the queue. -/
def Finished (m : Mem P B) (lab : P → Label B) (b : B) : Prop :=
  m.idequeue = some b ∧ Interrupt m lab

/-- A caller that waits for its buffer no longer finds it in the queue. -/
def Served (q : List B) (b : B) (l : Label B) : Prop := l = .rwWait b ∧ b ∉ q

/-- What has become of a call of `iderw` with a buffer `b` that was `r` when it began; `es` are
the commands for `b` that have been carried out since, each with what the sector then held. -/
structure Progress (m : Mem P B) (lab : P → Label B) (b : B) (r : Buf)
    (es : List (Command × Block)) (served : Prop) : Prop where
  pending : ¬served → m.buf b = r
  unfinished : ¬served → ¬Finished m lab b → es = []
  finished : ¬served → Finished m lab b → ∃ x, es = [(r.command, x)] ∧
    (r.dirty = true → x = r.data) ∧ (r.dirty = false → x = m.latch)
  served : served → ∃ x, es = [(r.command, x)] ∧ (r.dirty = true → x = r.data) ∧
    m.buf b = { r with valid := true, dirty := false, data := x }

namespace Progress

variable {b : B} {r : Buf} {es : List (Command × Block)} {served served' : Prop}

omit [DecidableEq B] [DecidableEq P] in
/-- Nothing changes for a buffer. -/
lemma congr (h : Progress m lab b r es served) (hbuf : m'.buf b = m.buf b)
    (hlatch : Finished m lab b → m'.latch = m.latch)
    (hfinished : Finished m' lab' b ↔ Finished m lab b) (hserved : served' ↔ served) :
    Progress m' lab' b r es served' := by
  obtain ⟨hpending, hun, hfin, hser⟩ := h
  rw [← hserved] at hpending hun hfin hser
  rw [← hbuf] at hpending hser
  refine ⟨hpending, fun hs hn => hun hs (hfinished.not.mp hn), fun hs hf => ?_, hser⟩
  have hf := hfinished.mp hf
  rw [hlatch hf]
  exact hfin hs hf

omit [DecidableEq P] in
/-- The buffer is taken off the queue. -/
lemma pop (h : Progress m lab b r es served) (hserved : ¬served) (hfin : Finished m lab b) :
    Progress (m.pop b) lab' b r es True := by
  obtain ⟨x, hes, hdirty, hclean⟩ := h.finished hserved hfin
  refine ⟨fun h => absurd trivial h, fun h => absurd trivial h,
    fun h => absurd trivial h, fun _ => ?_⟩
  refine ⟨x, hes, hdirty, ?_⟩
  have hbuf := h.pending hserved
  change update m.buf b _ b = _
  rw [update_self, hbuf]
  cases hd : r.dirty with
  | true => rw [if_pos rfl, hdirty hd]
  | false => rw [if_neg Bool.false_ne_true, hclean hd]

omit [DecidableEq B] [DecidableEq P] in
/-- The command of the buffer is carried out. -/
lemma complete (h : Progress m lab b r es served) (hserved : ¬served)
    (hfin : ¬Finished m lab b) (hb : m.idequeue = some b) :
    Progress (m.complete (m.buf b).command) lab b r
      (es ++ [((m.buf b).command, (m.complete (m.buf b).command).sector (m.buf b).command)])
      served := by
  have hbuf := h.pending hserved
  have hfin' : Finished (m.complete (m.buf b).command) lab b := by
    rw [Buf.command]
    split <;> exact ⟨hb, .inl rfl⟩
  refine ⟨fun _ => ?_, fun _ hn => absurd hfin' hn, fun _ _ => ?_, fun hs => absurd hs hserved⟩
  · rw [← hbuf, Buf.command]
    split <;> rfl
  · rw [h.unfinished hserved hfin, List.nil_append, hbuf]
    refine ⟨_, rfl, fun hd => ?_, fun hd => ?_⟩
    · rw [Buf.command, if_pos hd]
      change update m.disk _ (update _ _ _) _ _ = _
      rw [update_self, update_self]
    · rw [Buf.command, if_neg (hd ▸ Bool.false_ne_true)]
      rfl

end Progress

variable {l' : Label B}

omit [DecidableEq B] in
lemma interrupt_update {p : P} (h : Handler l' ↔ Handler (lab p)) :
    Interrupt m (update lab p l') ↔ Interrupt m lab := by
  refine or_congr Iff.rfl (exists_congr fun r => ?_)
  rcases eq_or_ne r p with rfl | hne
  · rwa [update_self]
  · rw [update_of_ne hne]

omit [DecidableEq B] [DecidableEq P] in
lemma Idle.not_interrupt (h : Idle m lab) : ¬Interrupt m lab := by
  rintro (hirq | ⟨p, hp⟩)
  · exact Bool.false_ne_true (h.irq.symm.trans hirq)
  · exact h.handler p hp

/-- Only `ideintr` ends the time between the end of a command and the next one. -/
lemma finished_move {p : P} {b : B} (hd : Driven m lab) (hm : Move m (lab p) m' l')
    (hp : lab p ≠ .intrPop) :
    Finished m' (update lab p l') b ↔ Finished m lab b := by
  generalize hl : lab p = l at hm hp
  have hkeep : ∀ {l'}, (Handler l' ↔ Handler l) →
      (Finished m (update lab p l') b ↔ Finished m lab b) := fun h =>
    and_congr Iff.rfl (interrupt_update (hl ▸ h))
  cases hm with
  | @link b' pp hend =>
    cases pp with
    | none =>
      have hno := (hd.empty hend).not_interrupt
      refine iff_of_false (fun hf => hno ?_) fun hf => hno hf.2
      exact (interrupt_update (hl ▸ Iff.rfl)).mp hf.2
    | some x => exact hkeep Iff.rfl
  | spurious | pop => exact absurd rfl hp
  | _ => exact hkeep Iff.rfl

omit [DecidableEq P] in
lemma keeps_of_move {l : Label B} (hm : Move m l m' l') (hl : l ≠ .intrPop) :
    m'.buf = m.buf ∧ m'.latch = m.latch := by
  cases hm with
  | @link b pp => cases pp <;> exact ⟨rfl, rfl⟩
  | pop => exact absurd rfl hl
  | _ => exact ⟨rfl, rfl⟩

/-- Only `ideintr` takes a buffer off. -/
lemma served_move {p p₀ : P} {b : B} {q' : List B} (hq : Queued m lab q)
    (hm : Move m (lab p₀) m' l') (hp₀ : lab p₀ ≠ .intrPop)
    (hshift : Shift (change (lab p₀) m) q q') (hb : (lab p).buf? = some b)
    (hb' : (update lab p₀ l' p).buf? = some b) :
    Served q' b (update lab p₀ l' p) ↔ Served q b (lab p) := by
  have hown := hq.own p₀
  have hplace := hq.place p₀
  rcases eq_or_ne p p₀ with rfl | hne
  · rw [update_self] at hb' ⊢
    generalize lab p = l at hm hp₀ hshift hb hplace
    cases hm with
    | start | wait =>
      have hshift : q' = q := hshift
      cases hb
      exact iff_of_false (fun hs => hs.2 (hshift ▸ hplace)) (by simp [Served])
    | done | spurious | last | release | wake | restart => cases hb'
    | pop => exact absurd rfl hp₀
    | rwAcquire | check | scan | link | intrAcquire =>
      simp only [Served, reduceCtorEq, false_and]
  · rw [update_of_ne hne]
    refine and_congr Iff.rfl ?_
    have hother : ∀ b', (lab p₀).buf? = some b' → b ≠ b' := by
      rintro b' hb₀ rfl
      have hp := hq.own p b hb
      rw [hown b hb₀] at hp
      exact hne (Option.some.inj hp).symm
    generalize lab p₀ = l at hm hp₀ hshift hother
    have hsame : change l m = none → (b ∉ q' ↔ b ∉ q) := by
      intro hnone
      rw [hnone] at hshift
      rw [show q' = q from hshift]
    cases hm with
    | @link b₀ pp hend =>
      rw [change, if_pos hend] at hshift
      rw [show q' = q ++ [b₀] from hshift, List.mem_append, List.mem_singleton, not_or]
      exact and_iff_left (hother b₀ rfl)
    | @scan _ _ x hx => exact hsame (if_neg (hx ▸ Option.some_ne_none x))
    | spurious | pop => exact absurd rfl hp₀
    | _ => exact hsame rfl

/-- The commands for a buffer that a step carries out. -/
def doneOf (b : B) : Option (QueueEvent B) → List (Command × Block)
  | some (.done b' c x) => if b' = some b then [(c, x)] else []
  | _ => []

lemma doneOf_none (b : B) : doneOf b none = [] := rfl

namespace Progress

variable {b : B} {r : Buf} {es : List (Command × Block)} {p : P} {q' : List B}

lemma move {p₀ : P} (hq : Queued m lab q) (hd : Driven m lab) (hd' : Driven m' (update lab p₀ l'))
    (hex : ∀ r, Critical (lab p₀) → r ≠ p₀ → ¬Critical (lab r)) (hm : Move m (lab p₀) m' l')
    (hshift : Shift (change (lab p₀) m) q q') (hb : (lab p).buf? = some b)
    (hb' : (update lab p₀ l' p).buf? = some b) (h : Progress m lab b r es (Served q b (lab p))) :
    Progress m' (update lab p₀ l') b r es
      (Served q' b (update lab p₀ l' p)) := by
  by_cases hp₀ : lab p₀ = .intrPop
  · have hne : p ≠ p₀ := by
      rintro rfl
      rw [hp₀] at hb
      cases hb
    rw [update_of_ne hne]
    have hcritical := hex p (hp₀ ▸ trivial) hne
    rw [hp₀] at hm hshift
    cases hm with
    | spurious hempty => exact absurd (hp₀ ▸ trivial) ((hd.empty hempty).handler p₀)
    | @pop b₀ hb₀ =>
      rw [change, hb₀] at hshift
      have hshift : q = b₀ :: q' := hshift
      have hidle : Idle (m.pop b₀) (update lab p₀ (.intrWake b₀)) := by
        refine hd'.starter p₀ ?_
        rw [update_self]
        trivial
      rcases eq_or_ne b b₀ with rfl | hbne
      · have hbq : b ∈ q := hshift ▸ List.mem_cons_self
        have hwait : lab p = .rwWait b := by
          have hwaits := hq.waiter hbq (hq.own p b hb)
          generalize lab p = l at hwaits hcritical
          cases l <;> cases hwaits
          · exact absurd trivial hcritical
          · rfl
        have hserved : Served q' b (lab p) := by
          refine ⟨hwait, ?_⟩
          have hnodup := hq.nodup
          rw [hshift] at hnodup
          exact (List.nodup_cons.mp hnodup).1
        have hfin : Finished m lab b := ⟨hb₀, .inr ⟨p₀, hp₀ ▸ trivial⟩⟩
        rw [eq_true hserved]
        exact h.pop (fun hs => hs.2 hbq) hfin
      · refine h.congr (update_of_ne hbne ..) (fun _ => rfl) ?_ ?_
        · refine iff_of_false (fun hf => hidle.not_interrupt hf.2) fun hf => ?_
          exact hbne (Option.some.inj (hf.1.symm.trans hb₀))
        · refine and_congr Iff.rfl ?_
          rw [hshift, List.mem_cons, not_or]
          exact (and_iff_right hbne).symm
  · have hkeep := keeps_of_move hm hp₀
    refine h.congr (congrFun hkeep.1 b) (fun _ => hkeep.2) (finished_move hd hm hp₀) ?_
    exact served_move hq hm hp₀ hshift hb hb'

theorem way (hq : Queued m lab q) (hd : Driven m lab) (hd' : Driven m' lab')
    (hex : ∀ p r, Critical (lab p) → r ≠ p → ¬Critical (lab r)) (hw : Way m lab a e m' lab')
    (hshift : Shift e q q') (hb : (lab p).buf? = some b) (hb' : (lab' p).buf? = some b)
    (h : Progress m lab b r es (Served q b (lab p))) :
    Progress m' lab' b r (es ++ doneOf b e) (Served q' b (lab' p)) := by
  cases hw with
  | @move p₀ _ l' hm =>
    have hnone : doneOf b (change (lab p₀) m) = [] := by
      generalize lab p₀ = l at hm
      cases hm with
      | @scan _ _ x hx =>
        rw [change, if_neg (hx ▸ Option.some_ne_none x)]
        rfl
      | link hend =>
        rw [change, if_pos hend]
        rfl
      | spurious hq | pop hq =>
        rw [change, hq]
        rfl
      | _ => rfl
    rw [hnone, List.append_nil]
    exact h.move hq hd hd' (hex p₀) hm hshift hb hb'
  | @request p₀ b₀ hp₀ hb₀ =>
    have hne : p ≠ p₀ := by
      rintro rfl
      rw [hp₀] at hb
      cases hb
    rw [show q' = q from hshift, update_of_ne hne, doneOf_none, List.append_nil]
    exact h.congr rfl (fun _ => rfl)
      (and_congr Iff.rfl (interrupt_update (hp₀ ▸ Iff.rfl))) Iff.rfl
  | @interrupt p₀ hp₀ hirq =>
    have hne : p ≠ p₀ := by
      rintro rfl
      rw [hp₀] at hb
      cases hb
    rw [show q' = q from hshift, update_of_ne hne, doneOf_none, List.append_nil]
    refine h.congr rfl (fun _ => rfl) (and_congr Iff.rfl (iff_of_true (.inr ⟨p₀, ?_⟩) (.inl hirq)))
      Iff.rfl
    rw [update_self]
    trivial
  | lock | unlock =>
    rw [show q' = q from hshift, doneOf_none, List.append_nil]
    exact h.congr rfl (fun _ => rfl) Iff.rfl Iff.rfl
  | @edit p₀ b₀ x hp₀ hb₀ =>
    rw [show q' = q from hshift, doneOf_none, List.append_nil]
    refine h.congr (update_of_ne ?_ ..) (fun _ => rfl) Iff.rfl Iff.rfl
    rintro rfl
    have hown := hq.own p b hb
    rw [hb₀] at hown
    cases hown
    rw [hp₀] at hb
    cases hb
  | @complete c hc =>
    obtain ⟨b₀, hb₀, rfl⟩ := hd.exec c hc
    obtain ⟨hirq, hno⟩ := hd.cmd_only (hc ▸ Option.some_ne_none _)
    have hfin : ∀ b, ¬Finished m lab b := by
      rintro b ⟨-, hi | ⟨r, hr⟩⟩
      · exact Bool.false_ne_true (hirq.symm.trans hi)
      · exact hno r hr
    rw [show q' = q from hshift, doneOf, hb₀]
    rcases eq_or_ne b b₀ with rfl | hbne
    · rw [if_pos rfl]
      have hbq : b ∈ q := by
        have hhead := hq.chain.head_eq
        rw [hb₀] at hhead
        exact List.mem_of_mem_head? hhead.symm
      exact h.complete (fun hs => hs.2 hbq) (hfin b) hb₀
    · rw [if_neg fun heq => hbne (Option.some.inj heq).symm, List.append_nil]
      have hqueue : (m.complete (m.buf b₀).command).idequeue = m.idequeue ∧
          (m.complete (m.buf b₀).command).buf = m.buf := by
        rw [Buf.command]
        split <;> exact ⟨rfl, rfl⟩
      refine h.congr (congrFun hqueue.2 b) (fun hf => absurd hf (hfin b)) ?_ Iff.rfl
      refine iff_of_false (fun hf => ?_) (hfin b)
      have hf := hf.1
      rw [hqueue.1, hb₀] at hf
      exact hbne (Option.some.inj hf).symm
  | quiet =>
    rw [show q' = q from hshift, doneOf_none, List.append_nil]
    exact h

end Progress

/-! ### Runs -/

variable {s s' : Sys P (Mem P B) (Label B)} {chan : B → Chan} {havedisk1 : Bool}
  {tr tr' : List (Sys P (Mem P B) (Label B) × IdeAct P B)}

/-- The commands for a buffer that were carried out, each with what the sector then held. -/
def doneFor (b : B) (tr : List (Sys P (Mem P B) (Label B) × IdeAct P B)) :
    List (Command × Block) := tr.flatMap fun x => doneOf b (queueEvent x)

def append? : QueueEvent B → Option B
  | .append b => some b
  | _ => none

def pop? : QueueEvent B → Option B
  | .pop b => some b
  | _ => none

/-- The buffers that were appended to the queue. -/
def appended (tr : List (Sys P (Mem P B) (Label B) × IdeAct P B)) : List B :=
  tr.filterMap fun x => (queueEvent x).bind append?

/-- The buffers that were taken off the queue. -/
def popped (tr : List (Sys P (Mem P B) (Label B) × IdeAct P B)) : List B :=
  tr.filterMap fun x => (queueEvent x).bind pop?

/-- The last call of a process was `iderw(b)`, in the state `s₀`, and `tr'` has happened since. -/
def Called (tr : List (Sys P (Mem P B) (Label B) × IdeAct P B)) (p : P) (b : B)
    (s₀ : Sys P (Mem P B) (Label B)) (tr' : List (Sys P (Mem P B) (Label B) × IdeAct P B)) : Prop :=
  (∃ tr₁, tr = tr₁ ++ (s₀, .sync (.call p (.rwAcquire b))) :: tr') ∧
    ∀ x ∈ tr', ∀ l, x.2 ≠ .sync (.call p l)

omit [DecidableEq B] [DecidableEq P] in
lemma Called.snoc {p : P} {b : B} {s₀ : Sys P (Mem P B) (Label B)} (h : Called tr p b s₀ tr')
    (ha : ∀ l, a ≠ .sync (.call p l)) : Called (tr ++ [(s, a)]) p b s₀ (tr' ++ [(s, a)]) := by
  obtain ⟨⟨tr₁, rfl⟩, hno⟩ := h
  refine ⟨⟨tr₁, List.append_assoc ..⟩, fun x hx => ?_⟩
  rcases List.mem_append.mp hx with hx | hx
  · exact hno x hx
  · rw [List.mem_singleton.mp hx]
    exact ha

/-- The calls of `iderw` that are under way. -/
def Requests (tr : List (Sys P (Mem P B) (Label B) × IdeAct P B)) (s : Sys P (Mem P B) (Label B))
    (q : List B) : Prop :=
  ∀ p b, (s.label p).buf? = some b → ∃ s₀ tr', Called tr p b s₀ tr' ∧
    Progress s.mem s.label b (s₀.mem.buf b) (doneFor b tr') (Served q b (s.label p))

omit [DecidableEq P] in
lemma doneFor_snoc (b : B) (x : Sys P (Mem P B) (Label B) × IdeAct P B) :
    doneFor b (tr ++ [x]) = doneFor b tr ++ doneOf b (queueEvent x) := by
  rw [doneFor, List.flatMap_append, List.flatMap_singleton, doneFor]

omit [DecidableEq B] [DecidableEq P] in
lemma Shift.order {q' : List B} {x : Sys P (Mem P B) (Label B) × IdeAct P B}
    (h : Shift (queueEvent x) q q') (hq : appended tr = popped tr ++ q) :
    appended (tr ++ [x]) = popped (tr ++ [x]) ++ q' := by
  rw [appended, popped, List.filterMap_append, List.filterMap_append]
  change appended tr ++ _ = (popped tr ++ _) ++ _
  rw [hq]
  cases he : queueEvent x with
  | none =>
    rw [he] at h
    rw [show q' = q from h]
    simp [he]
  | some y =>
    rw [he] at h
    cases y with
    | append b =>
      rw [show q' = q ++ [b] from h]
      simp [he, append?, pop?]
    | pop b =>
      rw [show q = b :: q' from h]
      simp [he, append?, pop?]
    | done b c x =>
      rw [show q' = q from h]
      simp [he, append?, pop?]

/-- A process that is in a call of `iderw` after a step was in it before, or has begun it. -/
lemma Way.buf? {p : P} {b : B} (hw : Way m lab a e m' lab') (hb : (lab' p).buf? = some b) :
    (a = .sync (.call p (.rwAcquire b)) ∧ m' = m ∧ lab p = .out ∧ m.owner b = some p ∧
        lab' p = .rwAcquire b) ∨
      (lab p).buf? = some b ∧ ∀ l, a ≠ .sync (.call p l) := by
  cases hw with
  | @move p₀ _ l' hm =>
    refine .inr ⟨?_, nofun⟩
    rcases eq_or_ne p p₀ with rfl | hne
    · rw [update_self] at hb
      generalize lab p = l at hm
      cases hm <;> cases hb <;> rfl
    · rwa [update_of_ne hne] at hb
  | @request p₀ b₀ hp₀ hb₀ =>
    rcases eq_or_ne p p₀ with rfl | hne
    · rw [update_self] at hb
      cases hb
      exact .inl ⟨rfl, rfl, hp₀, hb₀, update_self ..⟩
    · rw [update_of_ne hne] at hb
      refine .inr ⟨hb, fun l heq => ?_⟩
      cases heq
      exact hne rfl
  | @interrupt p₀ hp₀ hirq =>
    rcases eq_or_ne p p₀ with rfl | hne
    · rw [update_self] at hb
      cases hb
    · rw [update_of_ne hne] at hb
      refine .inr ⟨hb, fun l heq => ?_⟩
      cases heq
      exact hne rfl
  | quiet ha =>
    refine .inr ⟨hb, fun l heq => ?_⟩
    cases heq
    exact ha p l rfl
  | lock | unlock | edit | complete => exact .inr ⟨hb, nofun⟩

theorem Requests.step {q' : List B} (h : Requests tr s q) (hq : Queued s.mem s.label q)
    (hd : Driven s.mem s.label) (hd' : Driven s'.mem s'.label)
    (hex : ∀ p r, Critical (s.label p) → r ≠ p → ¬Critical (s.label r))
    (hw : Way s.mem s.label a (queueEvent (s, a)) s'.mem s'.label)
    (hshift : Shift (queueEvent (s, a)) q q') : Requests (tr ++ [(s, a)]) s' q' := by
  intro p b hb'
  rcases hw.buf? hb' with ⟨ha, hm, hout, hown, hlab⟩ | ⟨hb, ha⟩
  · -- The call begins, and its buffer is not in the queue.
    have hbq : b ∉ q := hq.not_mem hown (hout ▸ rfl)
    have hfin : ¬Finished s'.mem s'.label b := by
      rintro ⟨hhead, -⟩
      have hchain := hq.chain.head_eq
      rw [hm] at hhead
      rw [hhead] at hchain
      exact hbq (List.mem_of_mem_head? hchain.symm)
    have hserved : ¬Served q' b (s'.label p) := by
      rw [hlab]
      simp [Served]
    refine ⟨s, [], ⟨⟨tr, by rw [ha]⟩, nofun⟩, ?_⟩
    exact ⟨fun _ => by rw [hm], fun _ _ => rfl, fun _ hf => absurd hf hfin,
      fun hs => absurd hs hserved⟩
  · obtain ⟨s₀, tr', hcalled, hprogress⟩ := h p b hb
    refine ⟨s₀, tr' ++ [(s, a)], hcalled.snoc ha, ?_⟩
    rw [doneFor_snoc]
    exact hprogress.way hq hd hd' hex hw hshift hb hb'

/-- What every run keeps. -/
lemma ide_of_run {buf : B → Buf} {qnext : B → Option B} {owner : B → Option P}
    {disk : ℕ → ℕ → Block} {latch : Block} {proc : P → Proc} (h : Run (ideStep chan havedisk1)
      (boot { buf := buf, qnext := qnext, owner := owner, disk := disk, latch := latch } .out proc)
      tr s) :
    Locked (ide P chan havedisk1) Held s ∧ ∃ q, Queued s.mem s.label q ∧ Driven s.mem s.label ∧
      appended tr = popped tr ++ q ∧ Requests tr s q := by
  refine h.snoc_induction (P := fun tr s => Locked (ide P chan havedisk1) Held s ∧ ∃ q,
    Queued s.mem s.label q ∧ Driven s.mem s.label ∧ appended tr = popped tr ++ q ∧
      Requests tr s q) ?_ ?_
  · refine ⟨locked_boot id proc, [], ?_, ?_, rfl, nofun⟩
    · exact ⟨rfl, List.nodup_nil, nofun, nofun, nofun, fun _ => trivial⟩
    · exact ⟨fun _ => ⟨rfl, rfl, fun _ => id⟩, fun _ h => h.elim, fun hq => absurd rfl hq, nofun,
        fun hc => absurd rfl hc, nofun, fun _ _ h => h.elim⟩
  · rintro tr s a s' - ⟨hl, q, hq, hd, horder, hreq⟩ hstep
    have hw := way_of_step hstep
    have hex : ∀ p r, Critical (s.label p) → r ≠ p → ¬Critical (s.label r) :=
      fun p r hp hne hr => hne (hl.eq_of_critical hr hp)
    obtain ⟨q', hq', hshift⟩ := hq.way hex hw
    have hd' := hd.way hq hex hw
    exact ⟨locked_ideStep hl hstep, q', hq', hd', hshift.order horder,
      hreq.step hq hd hd' hex hw hshift⟩

/-- What holds of the disk queue `q` after the steps `tr` have led to `s`. -/
structure DiskQueue (chan : B → Chan) (havedisk1 : Bool)
    (tr : List (Sys P (Mem P B) (Label B) × IdeAct P B)) (s : Sys P (Mem P B) (Label B))
    (q : List B) : Prop where
  chain : Chain s.mem.qnext s.mem.idequeue q
  nodup : q.Nodup
  /-- The buffers are taken off in the order in which they were appended. -/
  order : appended tr = popped tr ++ q
  /-- The controller has no command but that of the first buffer. -/
  cmd : ∀ c, s.mem.cmd = some c → ∃ b, q.head? = some b ∧ c = (s.mem.buf b).command
  /-- It is carrying out this command, or has done so and its interrupt is to be handled. -/
  busy : s.lock .own = none → ∀ b, q.head? = some b → s.mem.cmd = some (s.mem.buf b).command ∨
    Interrupt s.mem s.label ∧ ∃ p s₀ tr' x, Called tr p b s₀ tr' ∧
      doneFor b tr' = [((s.mem.buf b).command, x)]
  /-- A call of `iderw` returns when its command, and no other for the buffer, has been carried
  out.  A write has put the data on the disk, and a read has got what was there. -/
  returns : ∀ p b s', s.pc p = .code (.rwWait b) →
    ideStep chan havedisk1 s (.sync (.run p)) = some s' → s'.pc p = .code .out →
    ∃ s₀ tr' x, Called tr p b s₀ tr' ∧ doneFor b tr' = [((s₀.mem.buf b).command, x)] ∧
      ((s₀.mem.buf b).dirty = true → x = (s₀.mem.buf b).data) ∧
      s'.mem.buf b = { s₀.mem.buf b with valid := true, dirty := false, data := x }

/-- **The disk queue.** -/
theorem ide_queue {buf : B → Buf} {qnext : B → Option B} {owner : B → Option P}
    {disk : ℕ → ℕ → Block} {latch : Block} {proc : P → Proc} (h : Run (ideStep chan havedisk1)
      (boot { buf := buf, qnext := qnext, owner := owner, disk := disk, latch := latch } .out proc)
      tr s) : ∃ q, DiskQueue chan havedisk1 tr s q := by
  obtain ⟨hl, q, hq, hd, horder, hreq⟩ := ide_of_run h
  have hhead := hq.chain.head_eq
  refine ⟨q, hq.chain, hq.nodup, horder, ?_, ?_, ?_⟩
  · intro c hc
    obtain ⟨b, hb, hcmd⟩ := hd.exec c hc
    exact ⟨b, hhead ▸ hb, hcmd⟩
  · intro hfree b hb
    have hbq : b ∈ q := List.mem_of_mem_head? hb
    rw [← hhead] at hb
    have hstarter : ∀ p, ¬Starter s.mem (s.label p) := fun p hp =>
      hl.not_holds_of_free hfree p (hl.holds_of_critical (.of_starter hp))
    have hbusy := hd.busy (hb ▸ nofun) hstarter
    cases hcmd : s.mem.cmd with
    | some c =>
      obtain ⟨b', hb', rfl⟩ := hd.exec c hcmd
      rw [hb] at hb'
      cases hb'
      exact .inl rfl
    | none =>
      have hint : Interrupt s.mem s.label := by
        by_contra hno
        obtain ⟨hirq, hhandler⟩ := not_or.mp hno
        exact hbusy ⟨hcmd, Bool.eq_false_of_not_eq_true hirq, not_exists.mp hhandler⟩
      obtain ⟨p, hp⟩ := hq.waits b hbq
      obtain ⟨s₀, tr', hcalled, hprogress⟩ := hreq p b (buf?_of_waitsFor hp)
      have hserved : ¬Served q b (s.label p) := fun hs => hs.2 hbq
      obtain ⟨x, hx, -⟩ := hprogress.finished hserved ⟨hb, hint⟩
      rw [← hprogress.pending hserved] at hx
      exact .inr ⟨hint, p, s₀, tr', x, hcalled, hx⟩
  · intro p b s' hpc hstep hout
    have hlab : s.label p = .rwWait b := congrArg Pc.label hpc
    have hdone : (s.mem.buf b).Done ∧ s'.mem = s.mem := by
      simp only [ideStep] at hstep
      have hrun := (trans_of_step hstep).run_eq
      by_cases hd : (s.mem.buf b).Done
      · simp only [run, hpc, ide, Ide.code, if_pos hd, Option.some.injEq] at hrun
        subst hrun
        exact ⟨hd, rfl⟩
      · simp only [run, hpc, ide, Ide.code, if_neg hd, reduceCtorEq, if_false,
          Option.some.injEq] at hrun
        subst hrun
        rw [Sys.goto_pc_self] at hout
        cases hout
    have hserved : Served q b (s.label p) := ⟨hlab, fun hb => hq.todo b hb hdone.1⟩
    obtain ⟨s₀, tr', hcalled, hprogress⟩ := hreq p b (hlab ▸ rfl)
    obtain ⟨x, hx, hdirty, hbuf⟩ := hprogress.served hserved
    rw [hdone.2]
    exact ⟨s₀, tr', x, hcalled, hx, hdirty, hbuf⟩

/-- A process makes some steps. -/
def runs (p : ℕ) (n : ℕ) : List (IdeAct ℕ Bool) := List.replicate n (.sync (.run p))

/-- Process 0 reads the block of buffer `false` and process 1 writes that of buffer `true`; process
2 handles both interrupts. -/
def twoRequests : List (IdeAct ℕ Bool) :=
  [[.lock 0 false, .lock 1 true, .edit 1 true ⟨true, true, 0, 7, fun _ => 5⟩,
      .sync (.call 0 (.rwAcquire false)), .sync (.call 1 (.rwAcquire true))],
    runs 0 8, [.sync .ret], runs 1 9, [.sync .ret, .complete, .sync (.call 2 .intrAcquire)],
    runs 2 8, [.complete, .sync (.call 2 .intrAcquire)], runs 2 7,
    [.sync (.dispatch 0)], runs 0 2].flatten

/-- A disk whose sectors are numbered. -/
def numbered : Mem ℕ Bool where
  buf _ := ⟨false, false, 0, 3, fun _ => 0⟩
  qnext _ := none
  owner _ := none
  disk _ n _ := Int32.ofNat n
  latch _ := 0

theorem ide_queue_twoRequests :
    ∃ s tr q, Run (ideStep (fun b => .obj b.toNat) false)
        (boot numbered .out fun _ : ℕ => Proc.zero) tr s ∧
      appended tr = [false, true] ∧ popped tr = [false, true] ∧
      s.pc 0 = .code (.rwWait false) ∧ DiskQueue (fun b => .obj b.toNat) false tr s q := by
  let step := ideStep (P := ℕ) (fun b : Bool => .obj b.toNat) false
  let tr := traceOf step (boot numbered .out fun _ => Proc.zero) twoRequests
  obtain ⟨s, hs, hpushed, hpopped, hpc⟩ :
      ∃ s, exec step (boot numbered .out fun _ => Proc.zero) twoRequests = some s ∧
        appended tr = [false, true] ∧ popped tr = [false, true] ∧
          s.pc 0 = .code (.rwWait false) := by
    decide +kernel
  obtain ⟨q, hq⟩ := ide_queue (run_traceOf hs)
  exact ⟨s, tr, q, run_traceOf hs, hpushed, hpopped, hpc, hq⟩

end Xv6.Sync
