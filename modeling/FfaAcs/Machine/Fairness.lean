import Mathlib.Order.Nat
import Mathlib.Tactic.Push
import Mathlib.Tactic.ByContra
import FfaAcs.Machine.Runs

/-!
# Endless executions and weak fairness

An execution goes on for ever. It is fair to an actor that could take a step at every moment from
some time on if that actor takes one. What an actor brings about under fairness follows from a rank:
its own steps lower the rank, and no step of the others raises it.
-/

namespace FfaAcs.Machine

variable {S L A : Type*}

/-- An endless execution of `Step` from `s₀`. -/
structure Execution (Step : S → L → S → Prop) (s₀ : S) where
  state : ℕ → S
  label : ℕ → L
  start : state 0 = s₀
  step : ∀ n, Step (state n) (label n) (state (n + 1))

namespace Execution

variable {Step : S → L → S → Prop} {s₀ : S}

/-- Every state of an execution is reached by a run. -/
theorem run (e : Execution Step s₀) (n : ℕ) : ∃ ls, Run Step s₀ ls (e.state n) := by
  induction n with
  | zero =>
    rw [e.start]
    exact ⟨[], .nil⟩
  | succ n ih =>
    obtain ⟨ls, hrun⟩ := ih
    exact ⟨ls ++ [e.label n], hrun.snoc (e.step n)⟩

/-- The execution of a deterministic system under a schedule. -/
def ofSchedule (step : L → S → S) (label : ℕ → L) (s₀ : S) :
    Execution (fun s l t => step l s = t) s₀ where
  state := Nat.rec s₀ fun n s => step (label n) s
  label := label
  start := rfl
  step _ := rfl

/-- Weak fairness: an actor that is enabled from some time on takes a step. -/
def Fair (e : Execution Step s₀) (enabled : A → S → Prop) (actor : L → Option A) : Prop :=
  ∀ a n, (∀ m, n ≤ m → enabled a (e.state m)) → ∃ m, n ≤ m ∧ actor (e.label m) = some a

/-- What a fair execution reaches: `P` stays until `Q` is reached, the actor is enabled while `P`
holds, its steps lower the rank and no step raises it. -/
theorem Fair.leads {e : Execution Step s₀} {enabled : A → S → Prop} {actor : L → Option A}
    (hfair : e.Fair enabled actor) (a : A) (P Q : S → Prop) (rank : S → ℕ)
    (henabled : ∀ n, P (e.state n) → enabled a (e.state n))
    (hstep : ∀ n, P (e.state n) → Q (e.state (n + 1)) ∨
      (P (e.state (n + 1)) ∧ rank (e.state (n + 1)) ≤ rank (e.state n) ∧
        (actor (e.label n) = some a → rank (e.state (n + 1)) < rank (e.state n))))
    (n : ℕ) (hstart : P (e.state n)) : ∃ m, n ≤ m ∧ Q (e.state m) := by
  induction hrank : rank (e.state n) using Nat.strongRecOn generalizing n with
  | ind r ih =>
    by_contra hnever
    push Not at hnever
    -- without `Q` the predicate stays and the rank does not rise
    have hstays : ∀ k, P (e.state (n + k)) ∧ rank (e.state (n + k)) ≤ rank (e.state n) := by
      intro k
      induction k with
      | zero => exact ⟨hstart, le_rfl⟩
      | succ k hk =>
        obtain hreached | ⟨hkept, hle, -⟩ := hstep (n + k) hk.1
        · exact absurd hreached (hnever (n + k + 1) (by omega))
        · exact ⟨hkept, hle.trans hk.2⟩
    obtain ⟨m, hm, hacts⟩ := hfair a n fun m hm => by
      obtain ⟨k, rfl⟩ := Nat.exists_eq_add_of_le hm
      exact henabled _ (hstays k).1
    obtain ⟨k, rfl⟩ := Nat.exists_eq_add_of_le hm
    obtain hreached | ⟨hkept, -, hlower⟩ := hstep (n + k) (hstays k).1
    · exact hnever (n + k + 1) (by omega) hreached
    · have hless := (hlower hacts).trans_le (hstays k).2
      obtain ⟨m, hle, hQ⟩ := ih _ (hrank ▸ hless) (n + k + 1) hkept rfl
      exact hnever m (by omega) hQ

end Execution

end FfaAcs.Machine
