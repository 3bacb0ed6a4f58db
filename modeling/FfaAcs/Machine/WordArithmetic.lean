import Mathlib.Data.Nat.Bitwise
import Mathlib.Tactic

/-!
# Unsigned machine words as natural numbers

A 32-bit or 64-bit unsigned value is a natural number below `2 ^ 32` or `2 ^ 64`. Sums and
products that may overflow are wrapped explicitly, a difference is taken modulo `2 ^ 64`, and
the complement is the one of a 64-bit register.

Masking with the complement of `2 ^ k - 1` rounds down to a multiple of `2 ^ k`. The results
below replace masks by quotients and remainders, which linear arithmetic can handle.
-/

namespace FfaAcs.Machine

/-- A sum or product as a 64-bit register holds it. -/
def wrap64 (x : ℕ) : ℕ := x % 2 ^ 64

/-- A value converted to 32 bits. -/
def wrap32 (x : ℕ) : ℕ := x % 2 ^ 32

/-- The difference of two 64-bit values. -/
def sub64 (x y : ℕ) : ℕ := (x + (2 ^ 64 - y)) % 2 ^ 64

/-- The bitwise complement of a 64-bit value. -/
def not64 (x : ℕ) : ℕ := 2 ^ 64 - 1 - x

/-- The bitwise complement of a 32-bit value. -/
def not32 (x : ℕ) : ℕ := 2 ^ 32 - 1 - x

/-- A value that fits is not changed by wrapping. -/
theorem wrap64_of_lt {x : ℕ} (h : x < 2 ^ 64) : wrap64 x = x := Nat.mod_eq_of_lt h

/-- A value that fits is not changed by the 32-bit conversion. -/
theorem wrap32_of_lt {x : ℕ} (h : x < 2 ^ 32) : wrap32 x = x := Nat.mod_eq_of_lt h

/-- A wrapped value fits. -/
theorem wrap64_lt (x : ℕ) : wrap64 x < 2 ^ 64 := Nat.mod_lt _ (by norm_num)

/-- A difference that does not borrow is the natural one. -/
theorem sub64_of_le {x y : ℕ} (h : y ≤ x) (hx : x < 2 ^ 64) : sub64 x y = x - y := by
  unfold sub64
  omega

/-- The bits of a run of ones. -/
private theorem testBit_two_pow_sub (w k i : ℕ) (h : k ≤ w) :
    (2 ^ w - 2 ^ k).testBit i = (decide (k ≤ i) && decide (i < w)) := by
  obtain ⟨d, rfl⟩ := Nat.exists_eq_add_of_le h
  have hshift : 2 ^ (k + d) - 2 ^ k = (2 ^ d - 1) <<< k := by
    rw [Nat.shiftLeft_eq, Nat.sub_mul, one_mul, ← pow_add, Nat.add_comm d k]
  rw [hshift, Nat.testBit_shiftLeft, Nat.testBit_two_pow_sub_one]
  by_cases hk : k ≤ i
  · simp only [hk, decide_true, Bool.true_and]
    congr 1
    rw [eq_iff_iff]
    omega
  · simp [hk]

/-- Masking off the low `k` bits rounds down to a multiple of `2 ^ k`. -/
theorem land_two_pow_sub {w k x : ℕ} (hk : k ≤ w) (hx : x < 2 ^ w) :
    x &&& (2 ^ w - 2 ^ k) = x / 2 ^ k * 2 ^ k := by
  rw [← Nat.shiftRight_eq_div_pow, ← Nat.shiftLeft_eq]
  apply Nat.eq_of_testBit_eq
  intro i
  rw [Nat.testBit_and, testBit_two_pow_sub w k i hk, Nat.testBit_shiftLeft, Nat.testBit_shiftRight]
  by_cases hki : k ≤ i
  · rw [Nat.add_sub_cancel' hki]
    by_cases hiw : i < w
    · simp [hki, hiw]
    · have hbit : x.testBit i = false :=
        Nat.testBit_lt_two_pow (hx.trans_le (Nat.pow_le_pow_right (by norm_num) (by omega)))
      simp [hbit]
  · simp [hki]

/-- Rounding a 64-bit value down to a multiple of `2 ^ k`, as the mask expresses it. -/
theorem land_not64 {k x : ℕ} (hk : k ≤ 64) (hx : x < 2 ^ 64) :
    x &&& not64 (2 ^ k - 1) = x / 2 ^ k * 2 ^ k := by
  have hpos : 0 < 2 ^ k := by positivity
  have hmask : not64 (2 ^ k - 1) = 2 ^ 64 - 2 ^ k := by unfold not64; omega
  rw [hmask, land_two_pow_sub hk hx]

/-- The sum of two numbers without a common bit is their bitwise or. -/
theorem lor_eq_add {x y : ℕ} (h : x &&& y = 0) : x ||| y = x + y := by
  induction x using Nat.strongRecOn generalizing y with
  | ind x ih =>
    rcases Nat.eq_zero_or_pos x with rfl | hpos
    · simp
    · -- halve both numbers; the low bits are not both set
      have hhalf : x / 2 &&& y / 2 = 0 := by rw [← Nat.and_div_two, h]
      have hrec := ih (x / 2) (by omega) hhalf
      have hlow : ¬(x % 2 = 1 ∧ y % 2 = 1) := by
        rw [← Nat.and_mod_two_eq_one, h]
        decide
      have hdiv : (x ||| y) / 2 = x / 2 + y / 2 := by rw [Nat.or_div_two, hrec]
      have hmod : (x ||| y) % 2 = 1 ↔ x % 2 = 1 ∨ y % 2 = 1 := Nat.or_mod_two_eq_one
      omega

/-- A field above the bits of another one. -/
theorem shiftLeft_lor (x k : ℕ) {y : ℕ} (hy : y < 2 ^ k) : x <<< k ||| y = x * 2 ^ k + y := by
  rw [← Nat.shiftLeft_add_eq_or_of_lt hy, Nat.shiftLeft_eq]

/-- Masking with a run of `n` ones from bit `k` upwards reads those bits in place. -/
theorem land_shiftLeft_two_pow_sub_one (x k n : ℕ) :
    x &&& ((2 ^ n - 1) <<< k) = x / 2 ^ k % 2 ^ n * 2 ^ k := by
  rw [← Nat.shiftRight_eq_div_pow, ← Nat.shiftLeft_eq, ← Nat.and_two_pow_sub_one_eq_mod]
  apply Nat.eq_of_testBit_eq
  intro i
  simp only [Nat.testBit_and, Nat.testBit_shiftLeft, Nat.testBit_shiftRight]
  by_cases hki : k ≤ i
  · simp [hki, Nat.add_sub_cancel' hki]
  · simp [hki]

/-- Masking with the complement of a value leaves the bits outside it. -/
theorem land_compl_add_land {w x y : ℕ} (hx : x < 2 ^ w) (hy : y < 2 ^ w) :
    (x &&& (2 ^ w - 1 - y)) + (x &&& y) = x := by
  have hmask : 2 ^ w - 1 - y = 2 ^ w - (y + 1) := by omega
  rw [← lor_eq_add]
  · apply Nat.eq_of_testBit_eq
    intro i
    rw [hmask, Nat.testBit_or, Nat.testBit_and, Nat.testBit_and, Nat.testBit_two_pow_sub_succ hy]
    by_cases hi : i < w
    · cases x.testBit i <;> cases y.testBit i <;> simp [hi]
    · have hbit : x.testBit i = false :=
        Nat.testBit_lt_two_pow (hx.trans_le (Nat.pow_le_pow_right (by norm_num) (by omega)))
      simp [hbit]
  · apply Nat.eq_of_testBit_eq
    intro i
    rw [hmask, Nat.testBit_and, Nat.testBit_and, Nat.testBit_and, Nat.testBit_two_pow_sub_succ hy,
      Nat.zero_testBit]
    cases x.testBit i <;> cases y.testBit i <;> simp

/-- Bit 1 is clear. -/
theorem land_two_eq_zero {x : ℕ} : x &&& 2 = 0 ↔ x / 2 % 2 = 0 := by
  have hland : x &&& 2 = x / 2 % 2 * 2 := land_shiftLeft_two_pow_sub_one x 1 1
  omega

/-- A number with no bit in common with its predecessor is a power of two. -/
theorem exists_two_pow_of_land_pred {x : ℕ} (hpos : 0 < x) (h : x &&& (x - 1) = 0) :
    ∃ k, x = 2 ^ k := by
  induction x using Nat.strongRecOn with
  | ind x ih =>
    -- the low bit is the only one, or both numbers are halved
    have hhalf : x / 2 &&& (x - 1) / 2 = 0 := by rw [← Nat.and_div_two, h]
    rcases Nat.even_or_odd' x with ⟨y, rfl | rfl⟩
    · have hpred : (2 * y - 1) / 2 = y - 1 := by omega
      rw [Nat.mul_div_cancel_left y (by norm_num), hpred] at hhalf
      obtain ⟨k, rfl⟩ := ih y (by omega) (by omega) hhalf
      exact ⟨k + 1, (pow_succ' 2 k).symm⟩
    · have hsame : (2 * y + 1) / 2 = y ∧ (2 * y + 1 - 1) / 2 = y := by omega
      rw [hsame.1, hsame.2, Nat.and_self] at hhalf
      exact ⟨0, by rw [hhalf]; rfl⟩

end FfaAcs.Machine
