import Mathlib.Logic.Function.Basic
import Mathlib.Tactic

/-!
# Arrays with checked accesses

An array of `n` elements is a function on `Fin n`. Reads and writes take any index and fail if the
array does not have it, so a computation over them that succeeds has stayed inside its arrays.
-/

namespace FfaAcs.Machine

variable {α : Type*} {n : ℕ}

/-- The element at an index, if the array has it. -/
def readAt (a : Fin n → α) (i : ℕ) : Option α := if h : i < n then some (a ⟨i, h⟩) else none

/-- The array with one element replaced, if it has it. -/
def writeAt (a : Fin n → α) (i : ℕ) (v : α) : Option (Fin n → α) :=
  if h : i < n then some (Function.update a ⟨i, h⟩ v) else none

/-- Assign the elements from `i` on, one after the other, from a source whose reads can fail too. -/
def fillFrom (src : ℕ → Option α) (a : Fin n → α) (i : ℕ) : ℕ → Option (Fin n → α)
  | 0 => some a
  | count + 1 => do
    let v ← src i
    let a ← writeAt a i v
    fillFrom src a (i + 1) count

/-- A read inside the array. -/
theorem readAt_of_lt (a : Fin n → α) {i : ℕ} (h : i < n) : readAt a i = some (a ⟨i, h⟩) := dif_pos h

/-- A write inside the array. -/
theorem writeAt_of_lt (a : Fin n → α) {i : ℕ} (v : α) (h : i < n) :
    writeAt a i v = some (Function.update a ⟨i, h⟩ v) := dif_pos h

/-- A loop that stays inside the array and inside its source succeeds and assigns its range. -/
theorem fillFrom_eq {src : ℕ → Option α} (f : ℕ → α) (a : Fin n → α) (i count : ℕ)
    (hsrc : ∀ k, i ≤ k → k < i + count → src k = some (f k)) (hbound : i + count ≤ n) :
    fillFrom src a i count = some fun j : Fin n => if i ≤ j.val ∧ j.val < i + count then f j else a j := by
  induction count generalizing a i with
  | zero =>
    rw [fillFrom, Option.some_inj]
    funext j
    exact (if_neg (by omega)).symm
  | succ count ih =>
    have hin : i < n := by omega
    rw [fillFrom, hsrc i le_rfl (by omega), Option.bind_eq_bind, Option.bind_some,
      writeAt_of_lt a (f i) hin, Option.bind_eq_bind, Option.bind_some,
      ih _ (i + 1) (fun k hlow hhigh => hsrc k (by omega) (by omega)) (by omega), Option.some_inj]
    funext j
    -- the first element is assigned here, the others by the rest of the loop
    by_cases hj : j.val = i
    · rw [if_neg (by omega), if_pos (by omega), show j = ⟨i, hin⟩ from Fin.ext hj,
        Function.update_self]
    · rw [Function.update_of_ne (fun h => hj (congrArg Fin.val h))]
      exact if_congr (by omega) rfl rfl

end FfaAcs.Machine
