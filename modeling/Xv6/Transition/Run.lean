import Mathlib.Tactic

/-!
Runs of a partial step function.

A system is a function `step : σ → α → Option σ`: in state `s` the action `a`
is either impossible (`none`) or leads to one state.  All choices, of the
interleaving and of the environment, are in the action, so a run is determined
by its start and its actions, and it can be evaluated.

* `Run step s tr t`: the run from `s` to `t`; its trace `tr` lists, oldest
  first, every action together with the state it was taken in, so that
  counting steps is `List.countP` and a condition on every step of a segment
  is a condition on the members of `tr`.
* `Run.snoc_induction`: a property of the trace and the state reached that
  holds at the start and is kept by one more step holds of every run;
  `Run.invariant` is its special case for properties of the state alone, and
  `Run.relation` its form for a reflexive transitive relation between the two
  ends of a run.
* `Run.simulate`: a run seen through an abstraction function is a run of the
  abstract system.
* `exec`, `traceOf`: the evaluation of a list of actions, with `run_traceOf` linking it to `Run` and
  `decidableExistsEqSome` deciding what it leads to; `exec_append`: one evaluation after another;
  `exec_related`: two evaluations by related actions.
* `last`: the value read off the last event of a trace that has one, described by
  its value on a trace that is one event longer.
-/

namespace Transition

variable {σ α : Type*} {step : σ → α → Option σ}

/-- **A run of `step`** from one state to another, with its trace: the actions,
oldest first, each with the state it was taken in. -/
inductive Run (step : σ → α → Option σ) : σ → List (σ × α) → σ → Prop where
  | nil (s : σ) : Run step s [] s
  | cons {s s' t : σ} {a : α} {tr : List (σ × α)} :
      step s a = some s' → Run step s' tr t → Run step s ((s, a) :: tr) t

/-- The states some run leads to. -/
def Reachable (step : σ → α → Option σ) (s₀ s : σ) : Prop := ∃ tr, Run step s₀ tr s

variable {tr : List (σ × α)} {I : σ → Prop} {s t u : σ}

namespace Run

/-- Two runs compose. -/
lemma append {tr tr' : List (σ × α)} (h : Run step s tr t) (h' : Run step t tr' u) :
    Run step s (tr ++ tr') u := by
  induction h with
  | nil => exact h'
  | cons hs _ ih => exact cons hs (ih h')

/-- A run is extended by one step at its end. -/
lemma snoc {a : α} (h : Run step s tr t) (ha : step t a = some u) : Run step s (tr ++ [(t, a)]) u :=
  h.append (cons ha (nil u))

/-- A run is cut at any point of its trace. -/
lemma split {s u : σ} {tr tr' : List (σ × α)} (h : Run step s (tr ++ tr') u) :
    ∃ t, Run step s tr t ∧ Run step t tr' u := by
  induction tr generalizing s with
  | nil => exact ⟨s, nil s, h⟩
  | cons e tr ih =>
    cases h with
    | cons hs h =>
      obtain ⟨t, h1, h2⟩ := ih h
      exact ⟨t, cons hs h1, h2⟩

/-- The entry at a cut is the step taken there. -/
lemma split_cons {s u : σ} {e : σ × α} {tr tr' : List (σ × α)} (h : Run step s (tr ++ e :: tr') u) :
    ∃ t, Run step s tr e.1 ∧ step e.1 e.2 = some t ∧ Run step t tr' u := by
  obtain ⟨t, h1, h2⟩ := h.split
  cases h2 with
  | cons hs h2 => exact ⟨_, h1, hs, h2⟩

/-- **Induction on a run from its end**: what holds of the empty run and is
kept by one more step holds of every run. -/
theorem snoc_induction {s₀ : σ} {P : List (σ × α) → σ → Prop} (h0 : P [] s₀)
    (hs : ∀ tr s a s', Run step s₀ tr s → P tr s → step s a = some s' → P (tr ++ [(s, a)]) s')
    {s : σ} (h : Run step s₀ tr s) : P tr s := by
  induction tr using List.reverseRecOn generalizing s with
  | nil => cases h; exact h0
  | append_singleton tr e ih =>
    obtain ⟨t, h1, h2⟩ := h.split
    cases h2 with
    | cons ha h2 =>
      cases h2
      exact hs tr t _ s h1 (ih h1) ha

/-- **Invariants**: a property of the start that every step keeps holds in
every state a run leads to. -/
theorem invariant {s₀ s : σ} (h0 : I s₀) (hs : ∀ s a s', I s → step s a = some s' → I s')
    (h : Run step s₀ tr s) : I s :=
  h.snoc_induction (P := fun _ s => I s) h0 fun _ s a s' _ hI ha => hs s a s' hI ha

/-- A reflexive transitive relation kept by every step that starts in an
invariant state relates the two ends of a run. -/
theorem relation {s₀ s : σ} {R : σ → σ → Prop} (hI0 : I s₀)
    (hI : ∀ s a s', I s → step s a = some s' → I s') (hrefl : ∀ s, R s s)
    (htrans : ∀ s t u, R s t → R t u → R s u)
    (hstep : ∀ s a s', I s → step s a = some s' → R s s') (h : Run step s₀ tr s) : R s₀ s := by
  refine h.snoc_induction (P := fun _ s => R s₀ s) (hrefl s₀) ?_
  intro tr t a u hr hR ha
  exact htrans s₀ t u hR (hstep t a u (hr.invariant hI0 hI) ha)

/-- **Simulation**: when every step of a run, seen through `abs`, is the step of
another system that `obs` names, or no step where `obs` names none, the run is
seen as a run of that system. -/
theorem simulate {τ β : Type*} {step' : τ → β → Option τ} {abs : σ → τ} {obs : σ → α → Option β}
    (hI : ∀ s a s', I s → step s a = some s' → I s') {s t : σ} (hs : I s) (h : Run step s tr t)
    (hsim : ∀ s a s', (s, a) ∈ tr → I s → step s a = some s' → (obs s a = none ∧ abs s' = abs s) ∨
      ∃ b, obs s a = some b ∧ step' (abs s) b = some (abs s')) :
    Run step' (abs s) (tr.filterMap fun e => (obs e.1 e.2).map fun b => (abs e.1, b)) (abs t) := by
  induction h with
  | nil s => exact nil (abs s)
  | @cons s s' t a tr ha _ ih =>
    have h' := ih (hI s a s' hs ha) fun u b u' hu => hsim u b u' (List.mem_cons_of_mem _ hu)
    rcases hsim s a s' List.mem_cons_self hs ha with ⟨ho, he⟩ | ⟨b, ho, he⟩
    · rw [he] at h'
      simpa only [List.filterMap_cons, ho, Option.map_none] using h'
    · simpa only [List.filterMap_cons, ho, Option.map_some] using cons he h'

end Run

/-- What is reached from a reachable state is reachable. -/
lemma Reachable.trans_run {s₀ s t : σ} (h : Reachable step s₀ s) (h' : Run step s tr t) :
    Reachable step s₀ t := by
  obtain ⟨tr₀, h0⟩ := h
  exact ⟨tr₀ ++ tr, h0.append h'⟩

/-- The invariant rule for reachable states. -/
theorem Reachable.invariant {s₀ s : σ} (h : Reachable step s₀ s) (h0 : I s₀)
    (hs : ∀ s a s', I s → step s a = some s' → I s') : I s := by
  obtain ⟨tr, hr⟩ := h
  exact hr.invariant h0 hs

/-! ### Evaluation -/

/-- The state a list of actions leads to, if every one of them is possible. -/
def exec (step : σ → α → Option σ) : σ → List α → Option σ
  | s, [] => some s
  | s, a :: as =>
    match step s a with
    | none => none
    | some s' => exec step s' as

/-- Whether there is a state that an evaluation leads to and that has a property is decided by
looking at that state. -/
instance decidableExistsEqSome {o : Option σ} {P : σ → Prop} [DecidablePred P] :
    Decidable (∃ t, o = some t ∧ P t) :=
  match o with
  | none => isFalse (by simp)
  | some t => decidable_of_iff (P t) (by simp)

/-- The trace of a list of actions, up to the first impossible one. -/
def traceOf (step : σ → α → Option σ) : σ → List α → List (σ × α)
  | _, [] => []
  | s, a :: as =>
    match step s a with
    | none => []
    | some s' => (s, a) :: traceOf step s' as

/-- A list of actions that can be evaluated is a run. -/
lemma run_traceOf {s t : σ} {as : List α} (h : exec step s as = some t) :
    Run step s (traceOf step s as) t := by
  induction as generalizing s with
  | nil =>
    simp only [exec, Option.some.injEq] at h
    subst h
    exact .nil s
  | cons a as ih =>
    cases ha : step s a with
    | none => simp [exec, ha] at h
    | some s' =>
      simp only [exec, ha] at h
      simp only [traceOf, ha]
      exact .cons ha (ih h)

/-- Two evaluations compose. -/
lemma exec_append {as bs : List α} (h : exec step s as = some t) (h' : exec step t bs = some u) :
    exec step s (as ++ bs) = some u := by
  induction as generalizing s with
  | nil =>
    cases h
    exact h'
  | cons a as ih =>
    cases ha : step s a with
    | none => simp [exec, ha] at h
    | some s' =>
      simp only [exec, ha] at h
      simp only [List.cons_append, exec, ha]
      exact ih h

/-- **Simulation of an evaluation**: related states and actions lead to related states, so related
lists of actions have traces that are related entry by entry. -/
theorem exec_related {R : σ → σ → Prop} {A : α → α → Prop}
    (hI : ∀ s a s', I s → step s a = some s' → I s')
    (hstep : ∀ s u a a' s', I s → R s u → A a a' → step s a = some s' →
      ∃ u', step u a' = some u' ∧ R s' u') {as as' : List α} (hs : I s) (hR : R s u)
    (hA : List.Forall₂ A as as') (h : exec step s as = some t) :
    ∃ t', exec step u as' = some t' ∧ R t t' ∧
      List.Forall₂ (fun e e' => I e.1 ∧ R e.1 e'.1 ∧ A e.2 e'.2) (traceOf step s as)
        (traceOf step u as') := by
  induction hA generalizing s u with
  | nil =>
    cases h
    exact ⟨u, rfl, hR, .nil⟩
  | @cons a a' as as' ha _ ih =>
    cases hsa : step s a with
    | none => simp [exec, hsa] at h
    | some s' =>
      obtain ⟨u', hu', hR'⟩ := hstep s u a a' s' hs hR ha hsa
      simp only [exec, hsa] at h
      obtain ⟨t', ht', hRt, hall⟩ := ih (hI s a s' hs hsa) hR' h
      simp only [exec, traceOf, hsa, hu']
      exact ⟨t', ht', hRt, .cons ⟨hs, hR, ha⟩ hall⟩

/-- A trace has no more entries than there are actions. -/
lemma length_traceOf_le (s : σ) (as : List α) : (traceOf step s as).length ≤ as.length := by
  induction as generalizing s with
  | nil => simp [traceOf]
  | cons a as ih =>
    cases ha : step s a with
    | none => simp [traceOf, ha]
    | some s' =>
      have h := ih s'
      simp only [traceOf, ha, List.length_cons]
      omega

/-! ### The past -/

variable {ε β : Type*}

/-- The value that `f` reads off the last event of `tr` that has one. -/
def last (f : ε → Option β) (tr : List ε) : Option β :=
  (tr.filterMap f).getLast?

@[simp] lemma last_nil (f : ε → Option β) : last f [] = none := rfl

@[simp] lemma last_snoc (f : ε → Option β) (tr : List ε) (e : ε) :
    last f (tr ++ [e]) = (f e).or (last f tr) := by
  cases h : f e <;> simp [last, List.filterMap_append, h]

end Transition
