import FfaAcs.Platform.Libc

/-!
# The memory functions of the TPM library

The TPM library is linked against two copy functions of the platform: `CopyMem`, which calls
`memcpy`, and a `memmove` of its own. The second picks the direction of its loop and the first does
not, so they differ when the destination starts inside the source.
-/

namespace FfaAcs.Platform

open Machine

/-- `CopyMem` -/
def copyMem (m : ByteMemory) (destination source length : ℕ) : ByteMemory :=
  memcpy m destination source length

/-- `memmove`. Its body is the one of `val_memmove`. -/
def memmove (m : ByteMemory) (destination source length : ℕ) : ByteMemory :=
  valMemmove m destination source length

/-- Every byte of the destination holds what its byte of the source held before, and nothing else
was written. -/
structure Moves (m m' : ByteMemory) (destination source length : ℕ) : Prop where
  inside : ∀ i < length, m' (destination + i) = m (source + i)
  outside : ∀ x, x < destination ∨ destination + length ≤ x → m' x = m x

/-- A move is determined by the memory before it. -/
theorem Moves.unique {m m' m'' : ByteMemory} {destination source length : ℕ}
    (h' : Moves m m' destination source length) (h'' : Moves m m'' destination source length) :
    m' = m'' := by
  funext x
  by_cases hx : x < destination ∨ destination + length ≤ x
  · rw [h'.outside x hx, h''.outside x hx]
  · obtain ⟨i, rfl⟩ := Nat.exists_eq_add_of_le (Nat.le_of_not_lt fun hlt => hx (Or.inl hlt))
    have hi : i < length := by omega
    rw [h'.inside i hi, h''.inside i hi]

/-- `val_memmove` moves, however the buffers overlap. -/
theorem valMemmove_moves (m : ByteMemory) (destination source length : ℕ) :
    Moves m (valMemmove m destination source length) destination source length :=
  ⟨fun _ hi => valMemmove_inside m hi, fun _ hx => valMemmove_outside m hx⟩

/-- `memmove` moves, however the buffers overlap. -/
theorem memmove_moves (m : ByteMemory) (destination source length : ℕ) :
    Moves m (memmove m destination source length) destination source length :=
  valMemmove_moves m destination source length

/-- **Both functions move: each byte of the destination is the old byte of the source, and every other
byte is as it was.** -/
theorem memmoves_move (m : ByteMemory) (destination source length : ℕ) :
    Moves m (valMemmove m destination source length) destination source length ∧
      Moves m (memmove m destination source length) destination source length :=
  ⟨valMemmove_moves m destination source length, memmove_moves m destination source length⟩

/-- The bytes of the source repeat with the distance from it to the destination. -/
def Repeats (m : ByteMemory) (destination source length : ℕ) : Prop :=
  ∀ i, destination - source + i < length → m (destination + i) = m (source + i)

/-- A copy into its own source moves exactly the bytes that repeat: from the distance on it reads
what it has written. -/
theorem copyMem_inside_iff {m : ByteMemory} {destination source length : ℕ}
    (hinto : source < destination) :
    (∀ i < length, copyMem m destination source length (destination + i) = m (source + i)) ↔
      Repeats m destination source length := by
  have hread (i : ℕ) (hi : destination - source + i < length) :
      copyMem m destination source length (destination + (destination - source + i)) =
        copyMem m destination source length (destination + i) := by
    have hsource : source + (destination - source + i) = destination + i := by omega
    rw [copyMem, memcpy_upward m hinto hi, hsource, if_neg (by omega)]
  constructor
  · intro hmoves i hi
    have hlater := hmoves _ hi
    rw [hread i hi, hmoves i (by omega)] at hlater
    rw [hlater]
    congr 1
    omega
  · intro hrepeats i
    -- byte `i` is read from the source as it was, or is the byte one distance before it
    induction i using Nat.strongRecOn with
    | ind i ih =>
      intro hi
      by_cases hnear : i < destination - source
      · rw [copyMem, memcpy_upward m hinto hi, if_pos (by omega)]
      · obtain ⟨k, rfl⟩ := Nat.exists_eq_add_of_le (Nat.le_of_not_lt hnear)
        have hsource : source + (destination - source + k) = destination + k := by omega
        rw [hread k hi, ih k (by omega) (by omega), hsource, hrepeats k hi]

/-- **`CopyMem` leaves the memory as `memmove` does, with the source moved byte by byte, exactly when
the destination does not start inside the source or the bytes of the source repeat with the
distance between the two.** -/
theorem copyMem_moves_iff (m : ByteMemory) (destination source length : ℕ) :
    (copyMem m destination source length = memmove m destination source length ∧
        ∀ i < length, copyMem m destination source length (destination + i) = m (source + i)) ↔
      destination ≤ source ∨ source + length ≤ destination ∨
        Repeats m destination source length := by
  have hmove := memmove_moves m destination source length
  have hequal : copyMem m destination source length = memmove m destination source length ↔
      ∀ i < length, copyMem m destination source length (destination + i) = m (source + i) := by
    refine ⟨fun heq => heq ▸ hmove.inside, fun hinside => ?_⟩
    exact Moves.unique ⟨hinside, fun x hx => memcpy_outside m hx⟩ hmove
  rw [hequal, and_self]
  rcases Nat.lt_or_ge source destination with hinto | hbelow
  · rw [copyMem_inside_iff hinto, or_iff_right (Nat.not_le.mpr hinto), iff_or_self]
    intro hapart i hi
    omega
  · exact iff_of_true (fun i hi => memcpy_inside m (Or.inl hbelow) hi) (Or.inl hbelow)

/-- Two bytes copied one byte upwards: both become the first one. -/
theorem copyMem_smears :
    copyMem (fun x => UInt8.ofNat x) 11 10 2 12 = 10 ∧ memmove (fun x => UInt8.ofNat x) 11 10 2 12 = 11 := by
  constructor <;> decide

end FfaAcs.Platform
