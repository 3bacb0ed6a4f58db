import FfaAcs.Platform.Libc

/-!
# Partition descriptors

The relayer returns partition descriptors of 8, 24 or 48 bytes, and
`val_ffa_partition_descriptor_info_parser` copies them into an array of the largest ones. It
clears an element before it copies a descriptor over it, so the fields that an older descriptor
does not have are 0. A descriptor that is larger than an element runs into the next one, which is
then cleared and overwritten in turn; only the last one stays behind the array.
-/

namespace FfaAcs.Sync

open Machine Platform

/-- `sizeof(ffa_partition_info_t)` -/
def sizeofPartitionInfo : ℕ := 48

/-- The loop of the parser, with `out` at the element and `src` at the descriptor that come next. The
counter of the source has 32 bits, and `count` is below `2 ^ 32`. -/
def valFfaPartitionDescriptorInfoParser (m : ByteMemory) (out src descSize : ℕ) : ℕ → ByteMemory
  | 0 => m
  | count + 1 =>
    let m := memset m out 0 sizeofPartitionInfo
    let m := memcpy m out src descSize
    valFfaPartitionDescriptorInfoParser m (out + sizeofPartitionInfo) (src + descSize) descSize count

/-- The destinations of the parser, each a start and a length. -/
def parserWrites (out descSize : ℕ) : ℕ → List (ℕ × ℕ)
  | 0 => []
  | count + 1 => (out, sizeofPartitionInfo) :: (out, descSize) ::
      parserWrites (out + sizeofPartitionInfo) descSize count

/-- Only the array was written. Every element holds the start of its descriptor, followed by zeros. -/
structure ParsesDescriptors (m m' : ByteMemory) (out rx descSize count : ℕ) : Prop where
  frame : ∀ y, y < out ∨ out + 48 * count ≤ y → m' y = m y
  element : ∀ i < count, ∀ k < 48,
    m' (out + 48 * i + k) = if k < descSize then m (rx + descSize * i + k) else 0

section

variable {m : ByteMemory} {out src descSize count y : ℕ}

/-- A byte outside the destinations is left alone. -/
theorem parser_of_not_written
    (h : ∀ w ∈ parserWrites out descSize count, y < w.1 ∨ w.1 + w.2 ≤ y) :
    valFfaPartitionDescriptorInfoParser m out src descSize count y = m y := by
  induction count generalizing m out src with
  | zero => rfl
  | succ count ih =>
    simp only [parserWrites, List.mem_cons, forall_eq_or_imp] at h
    obtain ⟨hclear, hcopy, hrest⟩ := h
    rw [valFfaPartitionDescriptorInfoParser, ih hrest, memcpy_outside _ hcopy, memset_outside _ hclear]

/-- The destinations start in the array. -/
theorem le_of_mem_parserWrites {w : ℕ × ℕ} (hw : w ∈ parserWrites out descSize count) : out ≤ w.1 := by
  induction count generalizing out with
  | zero => exact nomatch hw
  | succ count ih =>
    simp only [parserWrites, List.mem_cons] at hw
    rcases hw with rfl | rfl | hw
    · exact le_rfl
    · exact le_rfl
    · exact (Nat.le_add_right _ _).trans (ih hw)

/-- They end there when a descriptor is no larger than an element. -/
theorem parserWrites_end (hsize : descSize ≤ 48) {w : ℕ × ℕ}
    (hw : w ∈ parserWrites out descSize count) : w.1 + w.2 ≤ out + 48 * count := by
  have helement : sizeofPartitionInfo = 48 := rfl
  induction count generalizing out with
  | zero => exact nomatch hw
  | succ count ih =>
    simp only [parserWrites, List.mem_cons] at hw
    rcases hw with rfl | rfl | hw
    · simp only
      omega
    · simp only
      omega
    · have hend := ih hw
      omega

/-- The last descriptor is copied to the last element. -/
theorem last_mem_parserWrites (out descSize count : ℕ) :
    (out + 48 * count, descSize) ∈ parserWrites out descSize (count + 1) := by
  induction count generalizing out with
  | zero => simp [parserWrites]
  | succ count ih =>
    have hnext : out + 48 * (count + 1) = out + sizeofPartitionInfo + 48 * count := by
      rw [sizeofPartitionInfo]
      omega
    rw [hnext, parserWrites]
    exact List.mem_cons_of_mem _ (List.mem_cons_of_mem _ (ih _))

/-- The destinations lie in the array exactly when there are none or the descriptors fit. -/
theorem parserWrites_within_iff (out descSize count : ℕ) :
    (∀ w ∈ parserWrites out descSize count, out ≤ w.1 ∧ w.1 + w.2 ≤ out + 48 * count) ↔
      count = 0 ∨ descSize ≤ 48 := by
  constructor
  · intro hwithin
    cases count with
    | zero => exact Or.inl rfl
    | succ count =>
      have hlast := (hwithin _ (last_mem_parserWrites out descSize count)).2
      simp only at hlast
      exact Or.inr (by omega)
  · rintro (rfl | hsize) w hw
    · exact nomatch hw
    · exact ⟨le_of_mem_parserWrites hw, parserWrites_end hsize hw⟩

/-- An element holds its descriptor and zeros, when the descriptors fit and lie apart. -/
theorem parser_element {i k : ℕ} (hsize : descSize ≤ 48)
    (hapart : out + 48 * count ≤ src ∨ src + descSize * count ≤ out) (hi : i < count) (hk : k < 48) :
    valFfaPartitionDescriptorInfoParser m out src descSize count (out + 48 * i + k) =
      if k < descSize then m (src + descSize * i + k) else 0 := by
  have helement : sizeofPartitionInfo = 48 := rfl
  induction count generalizing m out src i with
  | zero => omega
  | succ count ih =>
    have hsucc : descSize * (count + 1) = descSize * count + descSize := Nat.mul_succ _ _
    rw [valFfaPartitionDescriptorInfoParser]
    cases i with
    | zero =>
      -- the later rounds write behind this element
      rw [parser_of_not_written fun w hw => Or.inl (by have := le_of_mem_parserWrites hw; omega)]
      simp only [Nat.mul_zero, Nat.add_zero]
      split
      case isTrue hin => rw [memcpy_inside _ (by omega) hin, memset_outside _ (by omega)]
      case isFalse hout => rw [memcpy_outside _ (by omega), memset_inside _ (by omega)]
    | succ i =>
      have hdst : out + 48 * (i + 1) + k = out + sizeofPartitionInfo + 48 * i + k := by omega
      have hsrc : src + descSize + descSize * i + k = src + descSize * (i + 1) + k := by
        rw [Nat.mul_succ]
        omega
      rw [hdst, ih (by omega) (by omega), hsrc]
      split
      case isTrue hin =>
        have hbound : descSize * (i + 1) ≤ descSize * count := Nat.mul_le_mul_left _ (by omega)
        rw [memcpy_outside _ (by omega), memset_outside _ (by omega)]
      case isFalse => rfl

/-- The byte behind the array is the one behind the first 48 of the last descriptor, when the
descriptors are larger than that. -/
theorem parser_behind (hsize : 48 < descSize)
    (hapart : out + 48 * (count + 1) ≤ src ∨ src + descSize * (count + 1) ≤ out) :
    valFfaPartitionDescriptorInfoParser m out src descSize (count + 1) (out + 48 * (count + 1)) =
      m (src + descSize * count + 48) := by
  have helement : sizeofPartitionInfo = 48 := rfl
  induction count generalizing m out src with
  | zero =>
    simp only [valFfaPartitionDescriptorInfoParser, Nat.mul_zero, Nat.add_zero]
    rw [Nat.zero_add, Nat.mul_one, memcpy_inside _ (by omega) hsize, memset_outside _ (by omega)]
  | succ count ih =>
    have hsucc : descSize * (count + 1 + 1) = descSize * (count + 1) + descSize := Nat.mul_succ _ _
    have hsucc' : descSize * (count + 1) = descSize * count + descSize := Nat.mul_succ _ _
    have hdst : out + 48 * (count + 1 + 1) = out + sizeofPartitionInfo + 48 * (count + 1) := by omega
    rw [valFfaPartitionDescriptorInfoParser, hdst, ih (by omega), memcpy_outside _ (by omega),
      memset_outside _ (by omega), hsucc']
    congr 1
    omega

/-- Whatever the memory holds, the parser does its work exactly when there is nothing to do or a
descriptor is no larger than an element. -/
theorem parsesDescriptors_iff (rx : ℕ) (hapart : Apart rx (descSize * count) out (48 * count)) :
    (∀ m, ParsesDescriptors m (valFfaPartitionDescriptorInfoParser m out rx descSize count) out rx
        descSize count) ↔ count = 0 ∨ descSize ≤ 48 := by
  constructor
  · intro hparses
    by_contra hlarge
    rw [not_or] at hlarge
    obtain ⟨count, rfl⟩ := Nat.exists_eq_succ_of_ne_zero hlarge.1
    have hsucc : descSize * (count + 1) = descSize * count + descSize := Nat.mul_succ _ _
    rw [Nat.succ_eq_add_one] at hparses hapart
    -- one byte of the last descriptor is set, and it ends up behind the array
    let m : ByteMemory := fun x => if x = rx + descSize * count + 48 then 1 else 0
    have hframe := (hparses m).frame (out + 48 * (count + 1)) (by omega)
    rw [parser_behind (by omega) (by omega)] at hframe
    simp only [m, if_true] at hframe
    rw [if_neg (by omega)] at hframe
    exact absurd hframe (by decide)
  · intro hcond m
    refine ⟨fun y hy => ?_, fun i hi k hk => ?_⟩
    · refine parser_of_not_written fun w hw => ?_
      have hwithin := (parserWrites_within_iff out descSize count).mpr hcond w hw
      omega
    · exact parser_element (hcond.resolve_left (by omega)) (by omega) hi hk

end

end FfaAcs.Sync
