import Mathlib.Data.Nat.Digits.Lemmas
import FfaAcs.Machine.WordArithmetic

/-!
# Printing a number

`pal_printf` puts the digits of a number into a buffer, lowest first, and prints the buffer from its end.
The buffer has room for the 16 digits of a 64-bit number in base 16. In base 10 such a number may have 20.
-/

namespace FfaAcs.Platform

open Machine

/-- The bases of the two conversions. -/
inductive Radix
  | decimal
  | hexadecimal
deriving DecidableEq, Repr

namespace Radix

/-- The base. -/
def base : Radix → ℕ
  | decimal => 10
  | hexadecimal => 16

/-- The lowest digit of a number and the number without it, as the two loops compute them. -/
def split : Radix → ℕ → ℕ × ℕ
  | decimal, data => (data % 10, data / 10)
  | hexadecimal, data => (data &&& 0xf, data >>> 4)

/-- The character of a digit. -/
def character : Radix → ℕ → UInt8
  | decimal, j => UInt8.ofNat (j + '0'.toNat)
  | hexadecimal, j => UInt8.ofNat (j + if j > 9 then 'A'.toNat - 10 else '0'.toNat)

/-- Both loops divide by the base. -/
theorem split_eq (r : Radix) (data : ℕ) : r.split data = (data % r.base, data / r.base) := by
  cases r with
  | decimal => rfl
  | hexadecimal =>
    rw [split, base, Nat.and_two_pow_sub_one_eq_mod data 4, Nat.shiftRight_eq_div_pow]

/-- Every radix is more than one. -/
theorem one_lt_base (r : Radix) : 1 < r.base := by cases r <;> decide

end Radix

/-- The size of `buffer`. -/
def bufferSize : ℕ := 16

/-- The digit buffer. -/
abbrev Buffer := ℕ → UInt8

/-- The loop that fills the buffer, with the number of entries that are left. It fails when it writes
behind the last one. -/
def fill (r : Radix) : ℕ → ℕ → ℕ → Buffer → Option (Buffer × ℕ)
  | left, data, i, buffer =>
    if data = 0 then some (buffer, i)
    else
      match left with
      | 0 => none
      | left + 1 =>
        let (j, rest) := r.split data
        fill r left rest (i + 1) (Function.update buffer i (r.character j))

/-- The loop that prints the buffer from its end. -/
def flush (buffer : Buffer) : ℕ → List UInt8
  | 0 => []
  | i + 1 => buffer i :: flush buffer i

/-- Printing one number: what is printed and the buffer that is left. -/
def printNumber (r : Radix) (data : ℕ) (buffer : Buffer) : Option (List UInt8 × Buffer) :=
  if data = 0 then some (['0'.toUInt8], buffer)
  else do
    -- the index is zero at the start, and again after the buffer has been printed
    let (buffer, i) ← fill r bufferSize data 0 buffer
    some (flush buffer i, buffer)

/-- The numeral of a number: its digits, highest first, without a leading zero. -/
def numeral (r : Radix) (data : ℕ) : List UInt8 :=
  if data = 0 then ['0'.toUInt8] else ((Nat.digits r.base data).map r.character).reverse

/-! ## The loops -/

section

variable {r : Radix} {data i left : ℕ} {buffer : Buffer}

/-- An entry is not printed before it is reached. -/
theorem flush_congr {buffer' : Buffer} (h : ∀ k < i, buffer' k = buffer k) :
    flush buffer' i = flush buffer i := by
  induction i with
  | zero => rfl
  | succ i ih => rw [flush, flush, h i (Nat.lt_succ_self i), ih fun k hk => h k (Nat.lt_succ_of_lt hk)]

/-- A new entry is printed first. -/
theorem flush_update (buffer : Buffer) (i : ℕ) (c : UInt8) :
    flush (Function.update buffer i c) (i + 1) = c :: flush buffer i := by
  rw [flush, Function.update_self, flush_congr fun k hk => Function.update_of_ne hk.ne c buffer]

/-- One round of the loop. -/
theorem fill_succ (hdata : data ≠ 0) :
    fill r (left + 1) data i buffer =
      fill r left (data / r.base) (i + 1) (Function.update buffer i (r.character (data % r.base))) := by
  rw [fill, if_neg hdata, Radix.split_eq]

/-- The digits of a number that is not zero. -/
theorem digits_base (r : Radix) (hdata : data ≠ 0) :
    Nat.digits r.base data = data % r.base :: Nat.digits r.base (data / r.base) :=
  Nat.digits_def' r.one_lt_base (Nat.pos_of_ne_zero hdata)

/-- Digits for which there is room are printed in front of what was in the buffer. -/
theorem fill_of_le (h : (Nat.digits r.base data).length ≤ left) (i : ℕ) (buffer : Buffer) :
    ∃ buffer' k, fill r left data i buffer = some (buffer', k) ∧
      flush buffer' k = ((Nat.digits r.base data).map r.character).reverse ++ flush buffer i := by
  induction left generalizing data i buffer with
  | zero =>
    obtain rfl : data = 0 :=
      Nat.digits_eq_nil_iff_eq_zero.mp (List.eq_nil_of_length_eq_zero (Nat.le_zero.mp h))
    exact ⟨buffer, i, rfl, by simp⟩
  | succ left ih =>
    by_cases hdata : data = 0
    · exact ⟨buffer, i, by rw [fill, if_pos hdata], by simp [hdata]⟩
    · rw [digits_base r hdata] at h ⊢
      obtain ⟨buffer', k, hfill, hflush⟩ := ih (Nat.le_of_succ_le_succ h) (i + 1)
        (Function.update buffer i (r.character (data % r.base)))
      refine ⟨buffer', k, (fill_succ hdata).trans hfill, ?_⟩
      rw [hflush, flush_update, List.map_cons, List.reverse_cons, List.append_assoc, List.singleton_append]

/-- With more digits than there is room for, the loop writes behind the buffer. -/
theorem fill_of_lt (h : left < (Nat.digits r.base data).length) : fill r left data i buffer = none := by
  have hdata : data ≠ 0 := by
    rintro rfl
    simp at h
  induction left generalizing data i buffer with
  | zero => rw [fill, if_neg hdata]
  | succ left ih =>
    rw [digits_base r hdata, List.length_cons] at h
    have hrest : left < (Nat.digits r.base (data / r.base)).length := Nat.lt_of_succ_lt_succ h
    rw [fill_succ hdata]
    refine ih hrest ?_
    intro hzero
    simp [hzero] at hrest

/-- A number of up to 16 digits is printed as its numeral. -/
theorem printNumber_of_lt (h : data < r.base ^ bufferSize) (buffer : Buffer) :
    ∃ buffer', printNumber r data buffer = some (numeral r data, buffer') := by
  unfold printNumber numeral
  split
  · exact ⟨buffer, rfl⟩
  · obtain ⟨buffer', k, hfill, hflush⟩ :=
      fill_of_le ((Nat.digits_length_le_iff r.one_lt_base data).mpr h) 0 buffer
    refine ⟨buffer', ?_⟩
    rw [hfill, ← List.append_nil (List.reverse _)]
    exact congrArg (fun out => some (out, buffer')) hflush

/-- A number of more than 16 digits does not fit. -/
theorem printNumber_of_le (h : r.base ^ bufferSize ≤ data) (buffer : Buffer) :
    printNumber r data buffer = none := by
  have hdata : data ≠ 0 := by
    have := Nat.pow_pos (n := bufferSize) (Nat.zero_lt_of_lt r.one_lt_base)
    omega
  have hlong : bufferSize < (Nat.digits r.base data).length :=
    Nat.lt_of_not_le fun hle => Nat.not_lt.mpr h ((Nat.digits_length_le_iff r.one_lt_base data).mp hle)
  rw [printNumber, if_neg hdata, fill_of_lt hlong]
  rfl

end

end FfaAcs.Platform
