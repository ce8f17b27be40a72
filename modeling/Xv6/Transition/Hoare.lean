import Mathlib.Tactic

/-!
Postconditions of code that runs in a state and may stop with an error.

`Post m s Q E` says of the code `m`, started in the state `s`: if it returns, its result and
the state satisfy `Q`; if it stops, the error and the state satisfy `E`.  The lemmas marked
`simp` take a program apart into its steps; `Post.bind` and `Post.mono` use the specification
of a function that is called.
-/

namespace Transition

variable {ε σ α β : Type} {m : EStateM ε σ α} {s : σ} {Q Q' : α → σ → Prop} {E E' : ε → σ → Prop}

def Post (m : EStateM ε σ α) (s : σ) (Q : α → σ → Prop) (E : ε → σ → Prop) : Prop :=
  match m s with
  | .ok a s' => Q a s'
  | .error e s' => E e s'

/-- The state in which code returns or stops. -/
def finalState : EStateM.Result ε σ α → σ
  | .ok _ s => s
  | .error _ s => s

/-! How code ends is decided by running it. -/

variable {a : α}

instance decidableExistsOk [DecidableEq α] : Decidable (∃ s', m s = .ok a s') :=
  match m s with
  | .ok b _ => decidable_of_iff (b = a) (by simp)
  | .error _ _ => isFalse (by simp)

instance decidableExistsOkAnd [DecidableEq α] {P : σ → Prop} [DecidablePred P] :
    Decidable (∃ s', m s = .ok a s' ∧ P s') :=
  match m s with
  | .ok b s' => decidable_of_iff (b = a ∧ P s') (by simp [and_assoc])
  | .error _ _ => isFalse (by simp)

instance decidableExistsError [DecidableEq ε] {e : ε} : Decidable (∃ s', m s = .error e s') :=
  match m s with
  | .ok _ _ => isFalse (by simp)
  | .error e' _ => decidable_of_iff (e' = e) (by simp)

/-- What holds however the code ends. -/
lemma Post.final {I : σ → Prop} (h : Post m s (fun _ => I) fun _ => I) : I (finalState (m s)) := by
  unfold Post at h
  cases hm : m s with
  | ok a s' => rwa [hm] at h
  | error e s' => rwa [hm] at h

@[simp] lemma post_pure (a : α) : Post (pure a) s Q E ↔ Q a s := Iff.rfl

@[simp] lemma post_bind (f : α → EStateM ε σ β) {Q : β → σ → Prop} :
    Post (m >>= f) s Q E ↔ Post m s (fun a s' => Post (f a) s' Q E) E := by
  change (match EStateM.bind m f s with | .ok a s' => Q a s' | .error e s' => E e s') ↔ _
  unfold Post EStateM.bind
  cases m s <;> rfl

@[simp] lemma post_map (f : α → β) {Q : β → σ → Prop} :
    Post (f <$> m) s Q E ↔ Post m s (fun a s' => Q (f a) s') E := by
  change (match EStateM.map f m s with | .ok a s' => Q a s' | .error e s' => E e s') ↔ _
  unfold Post EStateM.map
  cases m s <;> rfl

@[simp] lemma post_discard {Q : PUnit → σ → Prop} :
    Post (discard m) s Q E ↔ Post m s (fun _ => Q ⟨⟩) E :=
  post_map (fun _ => PUnit.unit)

@[simp] lemma post_throw (e : ε) : Post (throw e : EStateM ε σ α) s Q E ↔ E e s := Iff.rfl

@[simp] lemma post_get {Q : σ → σ → Prop} : Post (get : EStateM ε σ σ) s Q E ↔ Q s s := Iff.rfl

@[simp] lemma post_set (s' : σ) {Q : PUnit → σ → Prop} :
    Post (set s' : EStateM ε σ PUnit) s Q E ↔ Q ⟨⟩ s' := Iff.rfl

@[simp] lemma post_modify (f : σ → σ) {Q : PUnit → σ → Prop} :
    Post (modify f : EStateM ε σ PUnit) s Q E ↔ Q ⟨⟩ (f s) := Iff.rfl

/-- Two branches. -/
lemma post_ite {c : Prop} [Decidable c] {m' : EStateM ε σ α} :
    Post (if c then m else m') s Q E ↔ (c → Post m s Q E) ∧ (¬c → Post m' s Q E) := by
  by_cases h : c <;> simp [h]

/-- **The rule of consequence.** -/
lemma Post.mono (h : Post m s Q E) (hQ : ∀ a s', Q a s' → Q' a s')
    (hE : ∀ e s', E e s' → E' e s') : Post m s Q' E' := by
  unfold Post at h ⊢
  cases hm : m s with
  | ok a s' =>
    rw [hm] at h
    exact hQ a s' h
  | error e s' =>
    rw [hm] at h
    exact hE e s' h

lemma Post.imp (h : Post m s Q E) (hQ : ∀ a s', Q a s' → Q' a s') : Post m s Q' E :=
  h.mono hQ fun _ _ => id

/-- **The rule for a call.** -/
lemma Post.bind {f : α → EStateM ε σ β} {R : β → σ → Prop} (h : Post m s Q E)
    (hE : ∀ e s', E e s' → E' e s') (hf : ∀ a s', Q a s' → Post (f a) s' R E') :
    Post (m >>= f) s R E' :=
  (post_bind f).mpr (h.mono hf hE)

lemma Post.seq {f : α → EStateM ε σ β} {R : β → σ → Prop} (h : Post m s Q E)
    (hf : ∀ a s', Q a s' → Post (f a) s' R E) : Post (m >>= f) s R E :=
  h.bind (fun _ _ => id) hf

variable {s' : σ}

/-- What a run that returns gives. -/
lemma Post.ok (h : Post m s Q E) (hm : m s = .ok a s') : Q a s' := by
  unfold Post at h
  rwa [hm] at h

/-- What a run that stops gives. -/
lemma Post.error {e : ε} (h : Post m s Q E) (hm : m s = .error e s') : E e s' := by
  unfold Post at h
  rwa [hm] at h

/-- Two postconditions hold together. -/
lemma Post.and (h : Post m s Q E) (h' : Post m s Q' E') :
    Post m s (fun a s' => Q a s' ∧ Q' a s') fun e s' => E e s' ∧ E' e s' := by
  unfold Post at h h' ⊢
  cases hm : m s with
  | ok a s' | error e s' =>
    rw [hm] at h h'
    exact ⟨h, h'⟩

/-- The run itself. -/
lemma post_self (m : EStateM ε σ α) (s : σ) :
    Post m s (fun a s' => m s = .ok a s') fun e s' => m s = .error e s' := by
  unfold Post
  cases m s <;> rfl

/-- What holds in every case. -/
lemma Post.of_forall (hQ : ∀ a s', Q a s') (hE : ∀ e s', E e s') : Post m s Q E := by
  unfold Post
  cases m s with
  | ok a s' => exact hQ a s'
  | error e s' => exact hE e s'

/-- Code that cannot stop returns. -/
lemma Post.total (h : Post m s Q E) (hE : ∀ e s', ¬E e s') : ∃ a s', m s = .ok a s' ∧ Q a s' := by
  cases hm : m s with
  | ok a s' => exact ⟨a, s', rfl, h.ok hm⟩
  | error e s' => exact absurd (h.error hm) (hE e s')

/-- What is known of code that returns. -/
lemma Post.ok_iff (hm : m s = .ok a s') : Post m s Q E ↔ Q a s' := by
  unfold Post
  rw [hm]

lemma Post.of_ok (hm : m s = .ok a s') (hQ : Q a s') : Post m s Q E :=
  (Post.ok_iff hm).mpr hQ

/-- **The rule for a loop over a list**: what holds before the first round and is kept by each
holds after the last. -/
lemma Post.forM {γ : Type} {f : γ → EStateM ε σ PUnit} {l : List γ} {I : List γ → σ → Prop}
    (h : I l s) (hstep : ∀ x xs s, I (x :: xs) s → Post (f x) s (fun _ s' => I xs s') E) :
    Post (l.forM f) s (fun _ s' => I [] s') E := by
  induction l generalizing s with
  | nil => exact h
  | cons x xs ih =>
    change Post (f x >>= fun _ => xs.forM f) s _ E
    exact (hstep x xs s h).bind (fun _ _ => id) fun _ s' hs' => ih hs'

end Transition
