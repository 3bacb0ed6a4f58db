import FfaAcs.Heap.Malloc
import FfaAcs.Tpm.Crb

/-!
# Copies between a client and the CRB window

The test clients copy commands into the CRB memory and responses out of it with two functions that
check their range first. Addresses are 64-bit and sizes 32-bit values here, because the check
compares a size with a difference of addresses. Each function is described by the accesses it
makes, in order.
-/

namespace FfaAcs.Tpm

open Heap (Status)

/-- What a copy does: its status, the bytes it writes to or reads from the CRB memory with their
addresses, and the bytes it writes to the client's buffer with their indices. -/
structure Transfer where
  status : Status
  mmio : List (BitVec 64 × UInt8)
  buffer : List (ℕ × UInt8)
deriving DecidableEq

/-- A refused copy. -/
def Transfer.refused : Transfer := ⟨.error, [], []⟩

/-- The check of a range against the window of the localities. -/
def valTpmCrbMmioRangeValid (addr : BitVec 64) (size : BitVec 32) : Status :=
  if size = 0 then .success
  else
    let base := BitVec.ofNat 64 crbBase
    let window := (BitVec.ofNat 64 crbLocalityMax + 1) * BitVec.ofNat 64 crbLocalitySize
    let windowEnd := base + window
    if windowEnd < base ∨ addr < base ∨ addr ≥ windowEnd then .error
    else if size.setWidth 64 > windowEnd - addr then .error
    else .success

/-- The accesses of a copy loop from byte `i` on. -/
def copyLoop (addr : BitVec 64) (byte : ℕ → UInt8) (i : ℕ) : ℕ → List (BitVec 64 × UInt8)
  | 0 => []
  | count + 1 => (addr + BitVec.ofNat 64 i, byte i) :: copyLoop addr byte (i + 1) count

/-- The stores of a loop that reads into a buffer, from byte `i` on. -/
def storeLoop (byte : ℕ → UInt8) (i : ℕ) : ℕ → List (ℕ × UInt8)
  | 0 => []
  | count + 1 => (i, byte i) :: storeLoop byte (i + 1) count

/-- Copy `size` bytes into the CRB memory. The source is `none` when it is NULL. -/
def valTpmCrbCopyToMmio (dst : BitVec 64) (src : Option (ℕ → UInt8)) (size : BitVec 32) : Transfer :=
  match src with
  | none => .refused
  | some bytes =>
    if valTpmCrbMmioRangeValid dst size ≠ .success then .refused
    else ⟨.success, copyLoop dst bytes 0 size.toNat, []⟩

/-- Copy `size` bytes out of the CRB memory, which holds `mmio`, into a buffer of `dstSize` bytes that
may be NULL. -/
def valTpmCrbCopyFromMmio (mmio : BitVec 64 → UInt8) (null : Bool) (dstSize : BitVec 32)
    (src : BitVec 64) (size : BitVec 32) : Transfer :=
  if null ∨ size > dstSize ∨ valTpmCrbMmioRangeValid src size ≠ .success then .refused
  else
    let byte := fun i => mmio (src + BitVec.ofNat 64 i)
    ⟨.success, copyLoop src byte 0 size.toNat, storeLoop byte 0 size.toNat⟩

/-- The range is empty or lies in the window of the five localities. -/
def InWindow (addr size : ℕ) : Prop :=
  size = 0 ∨ crbBase ≤ addr ∧ addr + size ≤ crbBase + 5 * crbLocalitySize

/-- The bytes 0 to `size - 1` in order, at consecutive addresses of the window. -/
structure InOrder (accesses : List (BitVec 64 × UInt8)) (addr size : ℕ) (byte : ℕ → UInt8) : Prop where
  transferred : accesses.map (fun a => (a.1.toNat, a.2)) = (List.range size).map fun i => (addr + i, byte i)
  window : ∀ a ∈ accesses, crbBase ≤ a.1.toNat ∧ a.1.toNat < crbBase + 5 * crbLocalitySize

section

variable {addr : BitVec 64} {size : BitVec 32}

/-- The check accepts exactly the ranges in the window. -/
theorem valTpmCrbMmioRangeValid_iff :
    valTpmCrbMmioRangeValid addr size = .success ↔ InWindow addr.toNat size.toNat := by
  have hbase : crbBase = 0x88f00000 := rfl
  have hpage : crbLocalitySize = 4096 := rfl
  have hcheck : valTpmCrbMmioRangeValid addr size =
      if size = 0 then .success
      else if 0x88f05000#64 < 0x88f00000#64 ∨ addr < 0x88f00000#64 ∨ addr ≥ 0x88f05000#64 then .error
      else if size.setWidth 64 > 0x88f05000#64 - addr then .error
      else .success := rfl
  have hsize : (size.setWidth 64).toNat = size.toNat :=
    BitVec.toNat_setWidth_of_le (by decide)
  have hzero : size = 0 ↔ size.toNat = 0 := by
    rw [← BitVec.toNat_inj]
    rfl
  rw [hcheck]
  unfold InWindow
  split_ifs with hnone houtside hlong
  · exact iff_of_true rfl (Or.inl (hzero.mp hnone))
  all_goals have hpos := mt hzero.mpr hnone
  · refine iff_of_false nofun fun hin => ?_
    simp only [BitVec.lt_def, ge_iff_le, BitVec.le_def, BitVec.toNat_ofNat] at houtside
    omega
  all_goals
    simp only [BitVec.lt_def, ge_iff_le, BitVec.le_def, BitVec.toNat_ofNat] at houtside
    rw [gt_iff_lt, BitVec.lt_def, hsize,
      BitVec.toNat_sub_of_le (by rw [BitVec.le_def, BitVec.toNat_ofNat]; omega),
      BitVec.toNat_ofNat] at hlong
  · exact iff_of_false nofun fun hin => by omega
  · exact iff_of_true rfl (Or.inr (by omega))

/-- A copy loop makes one access per byte, in order. -/
theorem copyLoop_eq (addr : BitVec 64) (byte : ℕ → UInt8) (i count : ℕ) :
    copyLoop addr byte i count =
      (List.range' i count).map fun k => (addr + BitVec.ofNat 64 k, byte k) := by
  induction count generalizing i with
  | zero => rfl
  | succ count ih => rw [copyLoop, ih, List.range'_succ, List.map_cons]

/-- So does a loop of stores. -/
theorem storeLoop_eq (byte : ℕ → UInt8) (i count : ℕ) :
    storeLoop byte i count = (List.range' i count).map fun k => (k, byte k) := by
  induction count generalizing i with
  | zero => rfl
  | succ count ih => rw [storeLoop, ih, List.range'_succ, List.map_cons]

/-- No address of a copy in the window wraps. -/
theorem copyLoop_inOrder (byte : ℕ → UInt8) (hwindow : InWindow addr.toNat size.toNat) :
    InOrder (copyLoop addr byte 0 size.toNat) addr.toNat size.toNat byte := by
  have hbase : crbBase = 0x88f00000 := rfl
  have hpage : crbLocalitySize = 4096 := rfl
  have haddr (k : ℕ) (hk : k < size.toNat) :
      (addr + BitVec.ofNat 64 k).toNat = addr.toNat + k := by
    have hrange := hwindow.resolve_left (by omega)
    rw [BitVec.toNat_add, BitVec.toNat_ofNat, Nat.mod_eq_of_lt (a := k) (by omega)]
    exact Nat.mod_eq_of_lt (by omega)
  rw [copyLoop_eq, ← List.range_eq_range']
  constructor
  · rw [List.map_map]
    refine List.map_congr_left fun k hk => ?_
    rw [Function.comp_apply, haddr k (List.mem_range.mp hk)]
  · intro a ha
    obtain ⟨k, hk, rfl⟩ := List.mem_map.mp ha
    have hlt := List.mem_range.mp hk
    have hrange := hwindow.resolve_left (by omega)
    rw [haddr k hlt]
    omega

end

/-- **The two copies are exact.** Each is refused without any access, or it transfers the bytes 0 to
`size - 1` in order, inside the window and the client's buffer; and it succeeds exactly when the
pointer is not NULL, the size fits the buffer and the range lies in the window. -/
theorem crb_copies_exact (addr : BitVec 64) (size dstSize : BitVec 32) (src : Option (ℕ → UInt8))
    (mmio : BitVec 64 → UInt8) (null : Bool) :
    (valTpmCrbCopyToMmio addr src size = .refused ∨
        ∃ bytes accesses, src = some bytes ∧
          valTpmCrbCopyToMmio addr src size = ⟨.success, accesses, []⟩ ∧
          InOrder accesses addr.toNat size.toNat bytes) ∧
      ((valTpmCrbCopyToMmio addr src size).status = .success ↔
        src ≠ none ∧ InWindow addr.toNat size.toNat) ∧
      (valTpmCrbCopyFromMmio mmio null dstSize addr size = .refused ∨
        ∃ accesses, valTpmCrbCopyFromMmio mmio null dstSize addr size =
            ⟨.success, accesses, (List.range size.toNat).map fun i => (i, mmio (addr + BitVec.ofNat 64 i))⟩ ∧
          InOrder accesses addr.toNat size.toNat (fun i => mmio (addr + BitVec.ofNat 64 i)) ∧
          size.toNat ≤ dstSize.toNat) ∧
      ((valTpmCrbCopyFromMmio mmio null dstSize addr size).status = .success ↔
        null = false ∧ size.toNat ≤ dstSize.toNat ∧ InWindow addr.toNat size.toNat) := by
  have hto (bytes : ℕ → UInt8) : valTpmCrbCopyToMmio addr (some bytes) size =
      if valTpmCrbMmioRangeValid addr size ≠ .success then .refused
      else ⟨.success, copyLoop addr bytes 0 size.toNat, []⟩ := rfl
  refine ⟨?_, ?_, ?_, ?_⟩
  · cases src with
    | none => exact Or.inl rfl
    | some bytes =>
      rw [hto]
      split
      case isTrue => exact Or.inl rfl
      case isFalse hvalid =>
        rw [not_not, valTpmCrbMmioRangeValid_iff] at hvalid
        exact Or.inr ⟨bytes, _, rfl, rfl, copyLoop_inOrder bytes hvalid⟩
  · cases src with
    | none => exact iff_of_false nofun fun h => h.1 rfl
    | some bytes =>
      rw [hto, ← valTpmCrbMmioRangeValid_iff]
      split
      case isTrue hinvalid => exact iff_of_false nofun fun h => hinvalid h.2
      case isFalse hvalid => exact iff_of_true rfl ⟨nofun, not_not.mp hvalid⟩
  · unfold valTpmCrbCopyFromMmio
    split
    case isTrue => exact Or.inl rfl
    case isFalse hvalid =>
      rw [not_or, not_or, not_not, valTpmCrbMmioRangeValid_iff, gt_iff_lt, BitVec.lt_def, not_lt] at hvalid
      refine Or.inr ⟨_, ?_, copyLoop_inOrder _ hvalid.2.2, hvalid.2.1⟩
      simp only [storeLoop_eq, ← List.range_eq_range']
  · unfold valTpmCrbCopyFromMmio
    rw [← valTpmCrbMmioRangeValid_iff]
    split
    case isTrue hinvalid =>
      refine iff_of_false nofun ?_
      rintro ⟨hnull, hfits, hvalid⟩
      rw [hnull, gt_iff_lt, BitVec.lt_def] at hinvalid
      simp only [Bool.false_eq_true, hvalid, ne_eq, not_true_eq_false, or_false, false_or] at hinvalid
      omega
    case isFalse hvalid =>
      rw [not_or, not_or, not_not, gt_iff_lt, BitVec.lt_def, not_lt] at hvalid
      exact iff_of_true rfl ⟨by simpa using hvalid.1, hvalid.2⟩

/-- A copy of one byte from the last address of the window, and one that would run past it. -/
example : (valTpmCrbCopyFromMmio (fun _ => 7) false 4 0x88f04fff 1).buffer = [(0, 7)] ∧
    valTpmCrbCopyFromMmio (fun _ => 7) false 4 0x88f04fff 2 = .refused := by decide

end FfaAcs.Tpm
