import Xv6.Transition.Run

/-!
The books of a stride scheduler.

Clients are served by a number of servers.  A client's pass grows by a fixed
stride when a server that worked for it comes back, so between the two events the
client is served on a pass that does not count the service yet.  The books keep,
for each client, its pass and how many servers work for it.

* `pass_of_run`, `flight_of_run`: what the books say after a run, by the numbers of
  dispatches and returns in it.
* `lag_of_run`: when a client is only dispatched while its pass is at most that of
  another one, it cannot run ahead of that one by more than the number of servers
  and the distance the two had at the start.
-/

namespace Stride

open Transition Function

variable {ι : Type*} [DecidableEq ι] {S k : ℕ}

/-- The pass of each client and the number of servers that work for it. -/
structure Books (ι : Type*) where
  pass : ι → ℕ
  flight : ι → ℕ

/-- A server starts to work for a client, or comes back from it. -/
inductive Event (ι : Type*) where
  | dispatch (i : ι)
  | ret (i : ι)
  deriving DecidableEq

/-- The books with stride `S` and `k` servers. -/
def step (S k : ℕ) (b : Books ι) : Event ι → Option (Books ι)
  | .dispatch i =>
    if b.flight i < k then
      some { b with flight := update b.flight i (b.flight i + 1) }
    else none
  | .ret i =>
    if 0 < b.flight i then
      some { pass := update b.pass i (b.pass i + S)
             flight := update b.flight i (b.flight i - 1) }
    else none

/-- How often a client was dispatched. -/
def dispatches (tr : List (Books ι × Event ι)) (i : ι) : ℕ :=
  tr.countP fun e => e.2 = .dispatch i

/-- How often a server came back from a client. -/
def rets (tr : List (Books ι × Event ι)) (i : ι) : ℕ :=
  tr.countP fun e => e.2 = .ret i

variable {b b' : Books ι} {tr : List (Books ι × Event ι)}

lemma dispatches_snoc (i : ι) (e : Books ι × Event ι) :
    dispatches (tr ++ [e]) i = dispatches tr i + if e.2 = .dispatch i then 1 else 0 := by
  simp [dispatches, List.countP_append, List.countP_singleton]

lemma rets_snoc (i : ι) (e : Books ι × Event ι) :
    rets (tr ++ [e]) i = rets tr i + if e.2 = .ret i then 1 else 0 := by
  simp [rets, List.countP_append, List.countP_singleton]

/-- What one event does to the books of one client. -/
lemma step_apply {e : Event ι} (h : step S k b e = some b') (i : ι) :
    (e = .dispatch i ∧ b.flight i < k ∧ b'.flight i = b.flight i + 1 ∧ b'.pass i = b.pass i)
      ∨ (e = .ret i ∧ b'.flight i + 1 = b.flight i ∧ b'.pass i = b.pass i + S)
      ∨ (e ≠ .dispatch i ∧ e ≠ .ret i ∧ b'.flight i = b.flight i ∧ b'.pass i = b.pass i) := by
  cases e with
  | dispatch j =>
    simp only [step, Option.ite_none_right_eq_some, Option.some.injEq] at h
    obtain ⟨hf, rfl⟩ := h
    by_cases hij : i = j
    · subst hij
      simp [hf]
    · simp [update_of_ne hij, Ne.symm hij]
  | ret j =>
    simp only [step, Option.ite_none_right_eq_some, Option.some.injEq] at h
    obtain ⟨hf, rfl⟩ := h
    by_cases hij : i = j
    · subst hij
      simp
      omega
    · simp [update_of_ne hij, Ne.symm hij]

/-- The pass of a client is charged for every return. -/
lemma pass_of_run (h : Run (step S k) b tr b') (i : ι) : b'.pass i = b.pass i + S * rets tr i := by
  refine h.snoc_induction (P := fun tr b' => b'.pass i = b.pass i + S * rets tr i)
    (by simp [rets]) ?_
  intro tr c e c' _ ih hs
  rw [rets_snoc]
  rcases step_apply hs i with ⟨rfl, _, _, hp⟩ | ⟨rfl, _, hp⟩ | ⟨_, hr, _, hp⟩
  · rw [hp, ih]; simp
  · rw [hp, ih]; simp [Nat.mul_add, Nat.add_assoc]
  · rw [hp, ih]; simp [hr]

/-- A server works for a client from a dispatch to a return. -/
lemma flight_of_run (h : Run (step S k) b tr b') (i : ι) :
    b'.flight i + rets tr i = b.flight i + dispatches tr i := by
  refine h.snoc_induction
    (P := fun tr b' => b'.flight i + rets tr i = b.flight i + dispatches tr i)
    (by simp [rets, dispatches]) ?_
  intro tr c e c' _ ih hs
  rw [rets_snoc, dispatches_snoc]
  rcases step_apply hs i with ⟨rfl, _, hf, _⟩ | ⟨rfl, hf, _⟩ | ⟨hd, hr, hf, _⟩
  · simp only [reduceCtorEq, if_false, if_true]
    omega
  · simp only [reduceCtorEq, if_false, if_true]
    omega
  · simp only [hd, hr, if_false]
    omega

/-- Two passes that were charged `m` and `n` times, compared in strides. -/
lemma le_add_div {m n p q : ℕ} (hS : 0 < S) (h : p + S * m ≤ q + S * n) :
    m ≤ n + (q - p) / S := by
  rcases Nat.le_total m n with hmn | hnm
  · exact hmn.trans (Nat.le_add_right _ _)
  · obtain ⟨d, rfl⟩ := Nat.exists_eq_add_of_le hnm
    refine Nat.add_le_add_left ((Nat.le_div_iff_mul_le hS).mpr ?_) n
    rw [Nat.mul_add, Nat.mul_comm S d] at h
    omega

/-- **The lag between two clients.**  If `i` is only dispatched while its pass is at
most that of `j`, then the services of `i`, those under way included, exceed the
finished ones of `j` by at most the number of servers and the strides by which `i`
was behind at the start. -/
theorem lag_of_run (hS : 0 < S) (h : Run (step S k) b tr b') (i j : ι) (hk : b.flight i ≤ k)
    (hle : ∀ e ∈ tr, e.2 = .dispatch i → e.1.pass i ≤ e.1.pass j) :
    rets tr i + b'.flight i ≤ rets tr j + k + (b.pass j - b.pass i) / S := by
  refine h.snoc_induction
    (P := fun tr b' => (∀ e ∈ tr, e.2 = .dispatch i → e.1.pass i ≤ e.1.pass j) →
      rets tr i + b'.flight i ≤ rets tr j + k + (b.pass j - b.pass i) / S)
    (fun _ => ?_) ?_ hle
  · simp only [rets, List.countP_nil]
    exact le_add_right (by omega)
  · intro tr c e c' hr ih hs hle
    have hprev := ih fun e he => hle e (List.mem_append_left _ he)
    have hj : rets tr j ≤ rets (tr ++ [(c, e)]) j := by rw [rets_snoc]; omega
    rw [rets_snoc]
    rcases step_apply hs i with ⟨rfl, hfk, hf, _⟩ | ⟨rfl, hf, _⟩ | ⟨_, hret, hf, _⟩
    · -- at a dispatch the finished services of `i` are within the distance of the passes, and
      -- at most `k` are under way
      have hp := hle (c, .dispatch i) (by simp) rfl
      rw [pass_of_run hr i, pass_of_run hr j] at hp
      have hfin := le_add_div hS hp
      simp only [reduceCtorEq, if_false]
      omega
    · simp only [if_true]
      omega
    · simp only [hret, if_false]
      omega

end Stride
