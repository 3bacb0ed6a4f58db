import FfaAcs.Machine.ByteMemory
import Mathlib.Tactic

/-!
# Byte copies of the platform library

The platform supplies its own `memcpy` and `memset` as byte loops, and the validation layer
adds `val_memmove`, which picks the direction of its loop from the order of the two buffers.
Each loop is the recursion it is in the source, one byte per step, so that overlapping
buffers behave here as they do there.
-/

namespace FfaAcs.Platform

open Machine

/-- Copy `len` bytes upwards, one at a time. -/
def memcpy (m : ByteMemory) (dst src : ℕ) : ℕ → ByteMemory
  | 0 => m
  | len + 1 => memcpy (m.poke dst (m src)) (dst + 1) (src + 1) len

/-- Fill `count` bytes with one value. -/
def memset (m : ByteMemory) (dst : ℕ) (val : UInt8) : ℕ → ByteMemory
  | 0 => m
  | count + 1 => memset (m.poke dst val) (dst + 1) val count

/-- Compare `len` bytes: the difference of the first two that differ, or 0. -/
def memcmp (m : ByteMemory) (s₁ s₂ : ℕ) : ℕ → ℤ
  | 0 => 0
  | len + 1 =>
    let diff : ℤ := (m s₁).toNat - (m s₂).toNat
    if diff ≠ 0 then diff else memcmp m (s₁ + 1) (s₂ + 1) len

/-- The addresses that a comparison reads. It ends at the first two bytes that differ. -/
def memcmpReads (m : ByteMemory) (s₁ s₂ : ℕ) : ℕ → List ℕ
  | 0 => []
  | len + 1 => s₁ :: s₂ :: if m s₁ ≠ m s₂ then [] else memcmpReads m (s₁ + 1) (s₂ + 1) len

/-- The downward loop of `val_memmove`: the last byte is copied first. -/
def memmoveDown (m : ByteMemory) (d s : ℕ) : ℕ → ByteMemory
  | 0 => m
  | i + 1 => memmoveDown (m.poke (d + i) (m (s + i))) d s i

/-- Copy `n` bytes, upwards when the destination starts below the source. -/
def valMemmove (m : ByteMemory) (dest src n : ℕ) : ByteMemory :=
  if dest = src ∨ n = 0 then m
  else if dest < src then memcpy m dest src n
  else memmoveDown m dest src n

/-- An upward copy writes only its destination. -/
theorem memcpy_outside (m : ByteMemory) {dst src len x : ℕ} (h : x < dst ∨ dst + len ≤ x) :
    memcpy m dst src len x = m x := by
  induction len generalizing m dst src with
  | zero => rfl
  | succ len ih => rw [memcpy, ih _ (by omega), ByteMemory.poke_of_ne m (by omega)]

/-- An upward copy is faithful when it never overwrites a byte before it is read. -/
theorem memcpy_inside (m : ByteMemory) {dst src len i : ℕ} (h : dst ≤ src ∨ src + len ≤ dst)
    (hi : i < len) : memcpy m dst src len (dst + i) = m (src + i) := by
  induction len generalizing m dst src i with
  | zero => omega
  | succ len ih =>
    cases i with
    | zero =>
      rw [memcpy, memcpy_outside _ (by omega)]
      exact ByteMemory.poke_self _ _ _
    | succ i =>
      have hdst : dst + (i + 1) = dst + 1 + i := by omega
      have hsrc : src + (i + 1) = src + 1 + i := by omega
      rw [memcpy, hdst, ih _ (by omega) (by omega), ByteMemory.poke_of_ne _ (by omega), hsrc]

/-- A fill writes only its destination. -/
theorem memset_outside (m : ByteMemory) {dst count x : ℕ} {val : UInt8}
    (h : x < dst ∨ dst + count ≤ x) : memset m dst val count x = m x := by
  induction count generalizing m dst with
  | zero => rfl
  | succ count ih => rw [memset, ih _ (by omega), ByteMemory.poke_of_ne m (by omega)]

/-- A fill sets every byte of its destination. -/
theorem memset_inside (m : ByteMemory) {dst count i : ℕ} {val : UInt8} (hi : i < count) :
    memset m dst val count (dst + i) = val := by
  induction count generalizing m dst i with
  | zero => omega
  | succ count ih =>
    cases i with
    | zero =>
      rw [memset, memset_outside _ (by omega)]
      exact ByteMemory.poke_self _ _ _
    | succ i =>
      have hdst : dst + (i + 1) = dst + 1 + i := by omega
      rw [memset, hdst, ih _ (by omega)]

/-- A comparison finds no difference exactly when there is none. -/
theorem memcmp_eq_zero_iff (m : ByteMemory) {s₁ s₂ len : ℕ} :
    memcmp m s₁ s₂ len = 0 ↔ ∀ i < len, m (s₁ + i) = m (s₂ + i) := by
  induction len generalizing s₁ s₂ with
  | zero => exact iff_of_true rfl fun i hi => absurd hi (Nat.not_lt_zero i)
  | succ len ih =>
    have hbyte : ((m s₁).toNat : ℤ) - (m s₂).toNat = 0 ↔ m s₁ = m s₂ := by
      rw [← UInt8.toNat_inj]
      omega
    rw [memcmp, Nat.forall_lt_succ_left]
    simp only [Nat.add_zero, ← Nat.add_assoc, Nat.add_right_comm _ _ 1]
    split
    case isTrue hdiff => exact iff_of_false hdiff fun hall => hdiff (hbyte.mpr hall.1)
    case isFalse hsame => rw [ih, and_iff_right (hbyte.mp (not_not.mp hsame))]

/-- A comparison reads nothing outside its operands. -/
theorem memcmpReads_within (m : ByteMemory) {s₁ s₂ len x : ℕ} (h : x ∈ memcmpReads m s₁ s₂ len) :
    (s₁ ≤ x ∧ x < s₁ + len) ∨ (s₂ ≤ x ∧ x < s₂ + len) := by
  induction len generalizing s₁ s₂ with
  | zero => cases h
  | succ len ih =>
    rw [memcmpReads, List.mem_cons, List.mem_cons] at h
    rcases h with rfl | rfl | h
    · omega
    · omega
    · split at h
      · cases h
      · have hrest := ih h
        omega

/-- A downward copy writes only its destination. -/
theorem memmoveDown_outside (m : ByteMemory) {d s n x : ℕ} (h : x < d ∨ d + n ≤ x) :
    memmoveDown m d s n x = m x := by
  induction n generalizing m with
  | zero => rfl
  | succ n ih => rw [memmoveDown, ih _ (by omega), ByteMemory.poke_of_ne m (by omega)]

/-- A move writes only its destination, in either direction. -/
theorem valMemmove_outside (m : ByteMemory) {dest src n x : ℕ} (h : x < dest ∨ dest + n ≤ x) :
    valMemmove m dest src n x = m x := by
  unfold valMemmove
  split
  · rfl
  · split
    · exact memcpy_outside m h
    · exact memmoveDown_outside m h

/-- A downward copy is faithful when it never overwrites a byte before it is read. -/
theorem memmoveDown_inside (m : ByteMemory) {d s n i : ℕ} (h : s ≤ d ∨ d + n ≤ s) (hi : i < n) :
    memmoveDown m d s n (d + i) = m (s + i) := by
  induction n generalizing m with
  | zero => omega
  | succ n ih =>
    rw [memmoveDown]
    rcases Nat.lt_succ_iff_lt_or_eq.mp hi with hlt | rfl
    · rw [ih _ (by omega) hlt, ByteMemory.poke_of_ne _ (by omega)]
    · rw [memmoveDown_outside _ (by omega), ByteMemory.poke_self]

/-- A move is faithful, however the buffers overlap. -/
theorem valMemmove_inside (m : ByteMemory) {dest src n i : ℕ} (hi : i < n) :
    valMemmove m dest src n (dest + i) = m (src + i) := by
  unfold valMemmove
  split
  case isTrue hsame => rw [hsame.resolve_right (by omega)]
  case isFalse =>
    split
    case isTrue hbelow => exact memcpy_inside m (Or.inl hbelow.le) hi
    case isFalse habove => exact memmoveDown_inside m (Or.inl (Nat.le_of_not_lt habove)) hi

/-- An upward copy to a higher address reads the first bytes as they were, and then its own output. -/
theorem memcpy_upward (m : ByteMemory) {dst src len i : ℕ} (h : src < dst) (hi : i < len) :
    memcpy m dst src len (dst + i) =
      if src + i < dst then m (src + i) else memcpy m dst src len (src + i) := by
  induction len generalizing m dst src i with
  | zero => omega
  | succ len ih =>
    -- the first byte is written once, before the rest is copied
    have hfirst : memcpy m dst src (len + 1) dst = m src := by
      rw [memcpy, memcpy_outside _ (by omega), ByteMemory.poke_self]
    cases i with
    | zero => simpa [h] using hfirst
    | succ i =>
      have hdst : dst + (i + 1) = dst + 1 + i := by omega
      have hsrc : src + (i + 1) = src + 1 + i := by omega
      rw [hdst, hsrc, memcpy, ih _ (by omega) (by omega)]
      rcases Nat.lt_trichotomy (src + 1 + i) dst with hbelow | heq | habove
      · rw [if_pos (by omega), if_pos hbelow, ByteMemory.poke_of_ne _ (by omega)]
      · rw [if_pos (by omega), if_neg (by omega), heq, ByteMemory.poke_self, ← memcpy, hfirst]
      · rw [if_neg (by omega), if_neg (by omega)]

end FfaAcs.Platform
