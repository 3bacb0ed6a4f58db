import Mathlib.Data.Nat.Notation
import Mathlib.Logic.Function.Basic
import Mathlib.Algebra.Order.Ring.Nat

/-!
# Rings with free-running counters

A writer puts the values of a sequence into the slots of a ring, and a reader takes them out. Both
count the positions they have passed. A counter is kept modulo a power of two, and its remainder by
the size of the ring is the slot of the position, so the counters may start anywhere.

The slots of the positions between the reader and the writer hold the values of the sequence. A
write keeps this as long as the position it overwrites has been read, or held the same value.
-/

namespace FfaAcs.Machine.Ring

variable {α : Type*} {size start r n : ℕ} {slots f : ℕ → α}

/-- The slots hold the values of the positions from `r` up to `n`, for counters that began at
`start`. -/
def Window (size start : ℕ) (slots f : ℕ → α) (r n : ℕ) : Prop :=
  ∀ i, r ≤ i → i < n → slots ((start + i) % size) = f i

namespace Window

/-- A window without elements says nothing of the slots. -/
theorem empty (size start : ℕ) (slots f : ℕ → α) (n : ℕ) : Window size start slots f n n :=
  fun _ hr hn => absurd hn (Nat.not_lt.mpr hr)

/-- The oldest element of a window is in its slot. -/
theorem front (h : Window size start slots f r n) (hlt : r < n) : slots ((start + r) % size) = f r :=
  h r le_rfl hlt

/-- The reader goes on, and the writer has not come as far. -/
theorem narrow (h : Window size start slots f r n) {r' n' : ℕ} (hr : r ≤ r') (hn : n' ≤ n) :
    Window size start slots f r' n' :=
  fun i hi hlt => h i (hr.trans hi) (hlt.trans_le hn)

/-- The writer goes on. The slot it takes belonged to positions with the same value only. -/
theorem push (h : Window size start slots f r n)
    (hkeep : ∀ i, r ≤ i → i < n → (start + i) % size = (start + n) % size → f i = f n) :
    Window size start (Function.update slots ((start + n) % size) (f n)) f r (n + 1) := by
  intro i hi hlt
  by_cases hslot : (start + i) % size = (start + n) % size
  · rw [hslot, Function.update_self]
    rcases Nat.lt_succ_iff_lt_or_eq.mp hlt with hlt | rfl
    · exact (hkeep i hi hlt hslot).symm
    · rfl
  · rw [Function.update_of_ne hslot]
    refine h i hi ?_
    rcases Nat.lt_succ_iff_lt_or_eq.mp hlt with hlt | rfl
    · exact hlt
    · exact absurd rfl hslot

end Window

/-- Positions of one slot are a multiple of the size apart. -/
theorem dvd_of_slot_eq {m i d : ℕ} (h : (start + i) % m = (start + (i + d)) % m) : m ∣ d := by
  have hsub := Nat.sub_mod_eq_zero_of_mod_eq h.symm
  rw [← Nat.add_assoc, Nat.add_sub_cancel_left] at hsub
  exact Nat.dvd_of_mod_eq_zero hsub

/-- Two counters that are not a whole period apart agree if the positions do. -/
theorem counter_eq_iff {m k : ℕ} (hle : k ≤ n) (hlt : n < k + m) :
    (start + k) % m = (start + n) % m ↔ k = n := by
  constructor
  · intro h
    obtain ⟨d, rfl⟩ := Nat.exists_eq_add_of_le hle
    have hd : d = 0 := Nat.eq_zero_of_dvd_of_lt (dvd_of_slot_eq h) (by omega)
    rw [hd, Nat.add_zero]
  · rintro rfl
    rfl

/-- The next value of a counter. -/
theorem counter_succ (m n : ℕ) : ((start + n) % m + 1) % m = (start + (n + 1)) % m := by
  rw [Nat.mod_add_mod, Nat.add_assoc]

/-- A sequence that repeats itself from `r` on has equal values at positions of one slot. -/
theorem eq_of_repeats (hrepeat : ∀ j, r ≤ j → j + size ≤ n → f j = f (j + size)) {i : ℕ} (hi : r ≤ i)
    (hle : i ≤ n) (hslot : (start + i) % size = (start + n) % size) : f i = f n := by
  obtain ⟨d, rfl⟩ := Nat.exists_eq_add_of_le hle
  obtain ⟨q, rfl⟩ := dvd_of_slot_eq hslot
  have hstep : ∀ p ≤ q, f i = f (i + size * p) := by
    intro p hp
    induction p with
    | zero => rfl
    | succ p ih =>
      have hbound : i + size * p + size ≤ i + size * q := by
        have := Nat.mul_le_mul_left size hp
        rw [Nat.mul_succ] at this
        omega
      rw [ih (by omega), hrepeat _ (by omega) hbound, Nat.mul_succ, Nat.add_assoc]
  exact hstep q le_rfl

end FfaAcs.Machine.Ring
