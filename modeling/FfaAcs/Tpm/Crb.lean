import FfaAcs.Machine.ByteMemory
import Mathlib.Tactic

/-!
# The command response buffer

The registers of the five localities and their data buffers, as addresses in one byte memory.
Each locality has a page of its own. The registers and the data buffer inside a page do not
overlap, so a write to one of them leaves all the others alone.
-/

namespace FfaAcs.Tpm

open Machine

/-- The MMIO base address, `VAL_TPM_CRB_BASE`. -/
def crbBase : ℕ := 0x88f00000

/-- The size of the pages of the localities, `VAL_TPM_CRB_LOCALITY_SIZE`. -/
def crbLocalitySize : ℕ := 0x1000

/-- The size of a data buffer, `VAL_TPM_CRB_DATA_BUFFER_SIZE`. -/
def crbDataBufferSize : ℕ := 0x400

/-- The largest locality, `CRB_LOCALITY_MAX`. -/
def crbLocalityMax : ℕ := 4

/-- The localities. -/
abbrev Locality := Fin (crbLocalityMax + 1)

/-- Localities are written as numerals. -/
instance (priority := 1100) neZero_localities : NeZero (crbLocalityMax + 1) := ⟨Nat.succ_ne_zero _⟩

/-- `TPM_LOC_CTRL_REQUEST_ACCESS`. -/
def locCtrlRequestAccess : ℕ := 0x1

/-- `TPM_LOC_CTRL_RELINQUISH`. -/
def locCtrlRelinquish : ℕ := 0x2

/-- `TPM_LOC_CTRL_VALID_MASK`. -/
def locCtrlValidMask : ℕ := 0x3

/-- `TPM_LOC_STS_GRANTED`. -/
def locStsGranted : ℕ := 0x1

/-- `TPM_CRB_CTRL_START`. -/
def crbCtrlStart : ℕ := 0x1

/-- The page of a locality. -/
def valTpmCrbLocalityBase (locality : ℕ) : ℕ := crbBase + locality * crbLocalitySize

/-- The address of LOC_CTRL. -/
def valTpmCrbLocCtrl (locality : ℕ) : ℕ := valTpmCrbLocalityBase locality + 0x008

/-- The address of LOC_STS. -/
def valTpmCrbLocSts (locality : ℕ) : ℕ := valTpmCrbLocalityBase locality + 0x00c

/-- The address of CTRL_START. -/
def valTpmCrbCtrlStart (locality : ℕ) : ℕ := valTpmCrbLocalityBase locality + 0x04c

/-- The address of the data buffer. -/
def valTpmCrbDataBuffer (locality : ℕ) : ℕ := valTpmCrbLocalityBase locality + 0x080

/-- A big-endian 32-bit number in a byte array. -/
def valTpmBe32Read (p : ℕ → UInt8) (offset : ℕ) : ℕ :=
  (p offset).toNat * 2 ^ 24 + (p (offset + 1)).toNat * 2 ^ 16 + (p (offset + 2)).toNat * 2 ^ 8 +
    (p (offset + 3)).toNat

/-- LOC_STS of the locality has Granted set. -/
def granted (m : ByteMemory) (locality : ℕ) : Bool :=
  m.load (valTpmCrbLocSts locality) 4 &&& locStsGranted ≠ 0

/-- CTRL_START of the locality is set. -/
def started (m : ByteMemory) (locality : ℕ) : Bool :=
  m.load (valTpmCrbCtrlStart locality) 4 &&& crbCtrlStart ≠ 0

section

variable (m : ByteMemory) (k l v : ℕ)

/-- Addresses in terms of the base, for arithmetic. -/
theorem crb_addresses : valTpmCrbLocCtrl l = crbBase + l * 4096 + 8 ∧
    valTpmCrbLocSts l = crbBase + l * 4096 + 12 ∧ valTpmCrbCtrlStart l = crbBase + l * 4096 + 76 ∧
    valTpmCrbDataBuffer l = crbBase + l * 4096 + 128 :=
  ⟨rfl, rfl, rfl, rfl⟩

/-- Granted of the written locality is the low bit of the written value. -/
theorem granted_store_locSts_same (hv : v ≤ 1) :
    granted (m.store (valTpmCrbLocSts l) 4 v) l = decide (v = 1) := by
  rw [granted, ByteMemory.load_store_same, locStsGranted, Nat.and_one_is_mod]
  interval_cases v <;> rfl

/-- Granted is not changed by a write to LOC_STS of another locality. -/
theorem granted_store_locSts_of_ne (h : k ≠ l) :
    granted (m.store (valTpmCrbLocSts k) 4 v) l = granted m l := by
  have hk := crb_addresses k
  have hl := crb_addresses l
  rw [granted, granted, ByteMemory.load_store_apart m (by omega)]

/-- Granted is not changed by a write to LOC_CTRL. -/
@[simp] theorem granted_store_locCtrl :
    granted (m.store (valTpmCrbLocCtrl k) 4 v) l = granted m l := by
  have hk := crb_addresses k
  have hl := crb_addresses l
  rw [granted, granted, ByteMemory.load_store_apart m (by omega)]

/-- Granted is not changed by a write to CTRL_START. -/
@[simp] theorem granted_store_ctrlStart :
    granted (m.store (valTpmCrbCtrlStart k) 4 v) l = granted m l := by
  have hk := crb_addresses k
  have hl := crb_addresses l
  rw [granted, granted, ByteMemory.load_store_apart m (by omega)]

/-- Granted is not changed by a write to a data buffer. -/
theorem granted_blit {n : ℕ} {f : ℕ → UInt8} (hn : n ≤ crbDataBufferSize) :
    granted (m.blit (valTpmCrbDataBuffer k) n f) l = granted m l := by
  have hk := crb_addresses k
  have hl := crb_addresses l
  have hsize : crbDataBufferSize = 1024 := rfl
  rw [granted, granted, ByteMemory.load_blit_apart m (by omega)]

/-- Granted is not changed by a write to a byte of a data buffer. -/
theorem granted_poke {i : ℕ} {b : UInt8} (hi : i < crbDataBufferSize) :
    granted (m.poke (valTpmCrbDataBuffer k + i) b) l = granted m l := by
  have hk := crb_addresses k
  have hl := crb_addresses l
  have hsize : crbDataBufferSize = 1024 := rfl
  rw [granted, granted, ByteMemory.load_poke_apart m (by omega)]

/-- CTRL_START of the written locality is the low bit of the written value. -/
@[simp] theorem started_store_ctrlStart_same :
    started (m.store (valTpmCrbCtrlStart l) 4 v) l = decide (v % 2 = 1) := by
  rw [started, ByteMemory.load_store_same, crbCtrlStart, Nat.and_one_is_mod]
  rw [Nat.mod_mod_of_dvd v (by norm_num)]
  rcases Nat.mod_two_eq_zero_or_one v with h | h <;> rw [h] <;> rfl

/-- CTRL_START is not changed by a write to CTRL_START of another locality. -/
theorem started_store_ctrlStart_of_ne (h : k ≠ l) :
    started (m.store (valTpmCrbCtrlStart k) 4 v) l = started m l := by
  have hk := crb_addresses k
  have hl := crb_addresses l
  rw [started, started, ByteMemory.load_store_apart m (by omega)]

/-- CTRL_START is not changed by a write to LOC_CTRL. -/
@[simp] theorem started_store_locCtrl :
    started (m.store (valTpmCrbLocCtrl k) 4 v) l = started m l := by
  have hk := crb_addresses k
  have hl := crb_addresses l
  rw [started, started, ByteMemory.load_store_apart m (by omega)]

/-- CTRL_START is not changed by a write to LOC_STS. -/
@[simp] theorem started_store_locSts :
    started (m.store (valTpmCrbLocSts k) 4 v) l = started m l := by
  have hk := crb_addresses k
  have hl := crb_addresses l
  rw [started, started, ByteMemory.load_store_apart m (by omega)]

/-- CTRL_START is not changed by a write to a data buffer. -/
theorem started_blit {n : ℕ} {f : ℕ → UInt8} (hn : n ≤ crbDataBufferSize) :
    started (m.blit (valTpmCrbDataBuffer k) n f) l = started m l := by
  have hk := crb_addresses k
  have hl := crb_addresses l
  have hsize : crbDataBufferSize = 1024 := rfl
  rw [started, started, ByteMemory.load_blit_apart m (by omega)]

/-- CTRL_START is not changed by a write to a byte of a data buffer. -/
theorem started_poke {i : ℕ} {b : UInt8} (hi : i < crbDataBufferSize) :
    started (m.poke (valTpmCrbDataBuffer k + i) b) l = started m l := by
  have hk := crb_addresses k
  have hl := crb_addresses l
  have hsize : crbDataBufferSize = 1024 := rfl
  rw [started, started, ByteMemory.load_poke_apart m (by omega)]

end

end FfaAcs.Tpm
