import FfaAcs.Machine.ByteMemory
import FfaAcs.Machine.WordArithmetic

/-!
# The test framework and its non-volatile memory

The framework keeps the current test, the progress of the test and the four totals of the report in
a small array that stands in for non-volatile memory. Every access is one word and is checked
against the size of the array; an access that fails ends the dispatcher or stops the machine.

The repository does not contain the library that lays out the words, decides whether a run follows a
reboot, resets and updates the report and reads the status of a test. `Env` has them as functions,
next to the test list and the tests themselves. A test may do anything to the memory.
-/

namespace FfaAcs.Dispatch

open Machine

/-- The words kept in non-volatile memory. -/
inductive NvmField
  | curSuiteNum
  | curTestNum
  | endTestNum
  | testProgress
  | totalPass
  | totalFail
  | totalSkip
  | totalError
deriving DecidableEq, Repr

/-- `regre_report_t`. -/
structure Report where
  totalPass : ℕ
  totalFail : ℕ
  totalSkip : ℕ
  totalError : ℕ
deriving DecidableEq, Repr

/-- `test_info_t`. -/
structure TestInfo where
  suiteNum : ℕ
  testNum : ℕ
  endTestNum : ℕ
  testProgress : ℕ
deriving DecidableEq, Repr

/-- The fields of `test_db_t` that the dispatcher reads. -/
structure TestEntry where
  suiteNum : ℕ
  testentryFn : ℕ
  testFid : ℕ
deriving DecidableEq, Repr

/-- What the dispatcher finds around it. `σ` is everything else that the tests work on. -/
structure Env (σ : Type) where
  testList : ℕ → TestEntry
  totalTests : ℕ
  /-- `VAL_NVM_OFFSET` of the index of a word. -/
  offset : NvmField → ℕ
  invalidTestNum : ℕ
  testStart : ℕ
  testEnd : ℕ
  isRebootRun : ℕ → Bool
  resetTestInfoFields : TestInfo → TestInfo
  resetRegressionReport : Report → Report
  updateRegressionReport : ℕ → Report → Report
  /-- `val_is_ffa_feature_supported`, as it answers while a test is checked. -/
  isFfaFeatureSupported : ℕ → ℕ → ℕ
  sendSyncEpInfo : σ → σ
  clearStatus : σ → σ
  testentry : ℕ → σ × ByteMemory → σ × ByteMemory
  handleRebootResult : ℕ → σ → σ
  reportStatus : σ → ℕ × σ

/-- The state of a run, with the indices at which the test list was read, the entry functions that
were called and the reports that were printed, in order. -/
structure Sys (σ : Type) where
  nvm : ByteMemory
  world : σ
  currentTestNum : ℕ
  reads : List ℕ
  called : List ℕ
  printed : List Report

/-- How a run can end early: with a `return`, in `VAL_PANIC`, or not at all. -/
inductive Stop (σ : Type)
  | returned (s : Sys σ)
  | panicked (s : Sys σ)
  | diverged

variable {σ : Type}

/-! ## Accesses -/

/-- `NVM_SIZE`. -/
def nvmSize : ℕ := 1024

/-- `nvm_check_bounds` for a buffer that is not NULL. -/
def nvmCheckBounds (offset size : ℕ) : Bool :=
  !decide (offset > nvmSize) && !decide (offset + size > nvmSize) && decide (size = 4)

/-- `val_nvmem_write`. -/
def valNvmemWrite (nvm : ByteMemory) (offset data size : ℕ) : Option ByteMemory :=
  if nvmCheckBounds offset size then some (nvm.store offset size data) else none

/-- `val_nvmem_read`. -/
def valNvmemRead (nvm : ByteMemory) (offset size : ℕ) : Option ℕ :=
  if nvmCheckBounds offset size then some (nvm.load offset size) else none

namespace Sys

/-- A write whose failure ends the dispatcher. -/
def write (env : Env σ) (f : NvmField) (v : ℕ) (s : Sys σ) : Except (Stop σ) (Sys σ) :=
  match valNvmemWrite s.nvm (env.offset f) v 4 with
  | some nvm => .ok { s with nvm := nvm }
  | none => .error (.returned s)

/-- A write whose failure stops the machine. -/
def writeOrPanic (env : Env σ) (f : NvmField) (v : ℕ) (s : Sys σ) : Except (Stop σ) (Sys σ) :=
  match valNvmemWrite s.nvm (env.offset f) v 4 with
  | some nvm => .ok { s with nvm := nvm }
  | none => .error (.panicked s)

/-- A read whose failure ends the dispatcher. -/
def read (env : Env σ) (f : NvmField) (s : Sys σ) : Except (Stop σ) ℕ :=
  match valNvmemRead s.nvm (env.offset f) 4 with
  | some v => .ok v
  | none => .error (.returned s)

/-- The totals are read one after the other. -/
def readReport (env : Env σ) (s : Sys σ) : Except (Stop σ) Report := do
  let totalPass ← s.read env .totalPass
  let totalFail ← s.read env .totalFail
  let totalSkip ← s.read env .totalSkip
  let totalError ← s.read env .totalError
  return ⟨totalPass, totalFail, totalSkip, totalError⟩

/-- The totals are written one after the other. -/
def writeReport (env : Env σ) (r : Report) (s : Sys σ) : Except (Stop σ) (Sys σ) := do
  let s ← s.write env .totalPass r.totalPass
  let s ← s.write env .totalFail r.totalFail
  let s ← s.write env .totalSkip r.totalSkip
  s.write env .totalError r.totalError

/-- An access to an entry of the test list. -/
def noteRead (s : Sys σ) (i : ℕ) : Sys σ := { s with reads := s.reads ++ [i] }

end Sys

/-! ## The functions of the framework -/

/-- `val_get_last_run_test_info`. -/
def valGetLastRunTestInfo (env : Env σ) (s : Sys σ) : Except (Stop σ) (TestInfo × Sys σ) := do
  let suiteNum ← s.read env .curSuiteNum
  let testNum ← s.read env .curTestNum
  let endTestNum ← s.read env .endTestNum
  let testProgress ← s.read env .testProgress
  let info : TestInfo := ⟨suiteNum, testNum, endTestNum, testProgress⟩
  if env.isRebootRun testProgress then return (info, s)
  else
    let info := env.resetTestInfoFields info
    let s ← s.write env .curSuiteNum info.suiteNum
    let s ← s.write env .curTestNum info.testNum
    let s ← s.write env .endTestNum info.endTestNum
    let s ← s.write env .testProgress info.testProgress
    let s ← s.writeReport env (env.resetRegressionReport ⟨0, 0, 0, 0⟩)
    return (info, s)

/-- `val_test_init`. The watchdog is not programmed in this configuration. -/
def valTestInit (env : Env σ) (i : ℕ) (s : Sys σ) : Except (Stop σ) (Sys σ) :=
  { s.noteRead i with world := env.clearStatus s.world }.writeOrPanic env .testProgress env.testStart

/-- `val_test_exit`. -/
def valTestExit (env : Env σ) (s : Sys σ) : Except (Stop σ) (Sys σ) :=
  s.writeOrPanic env .testProgress env.testEnd

/-- The call of a test's entry function. -/
def Sys.callTest (env : Env σ) (i : ℕ) (s : Sys σ) : Sys σ :=
  let (world, nvm) := env.testentry i (s.world, s.nvm)
  { s with world := world, nvm := nvm, called := s.called ++ [i] }

/-- `FFA_FID_SKIP_CHECK`, `FFA_FID_UPPER_MASK` and the prefixes of the two ABIs. -/
def ffaFidSkipCheck : ℕ := 0xABCDEFFF
def ffaFidUpperMask : ℕ := 0xFFFF0000
def ffaFidAbi32Prefix : ℕ := 0x84000000
def ffaFidAbi64Prefix : ℕ := 0xC4000000

/-- `val_check_test_abi_support`. The feature query returns zero for a supported feature. -/
def valCheckTestAbiSupport (env : Env σ) (i : ℕ) : Bool :=
  let fid := (env.testList i).testFid
  if fid = ffaFidSkipCheck then true
  else if fid &&& ffaFidUpperMask ≠ 0 then decide (env.isFfaFeatureSupported i fid = 0)
  else
    decide (env.isFfaFeatureSupported i (fid ||| ffaFidAbi32Prefix) = 0) ||
      decide (env.isFfaFeatureSupported i (fid ||| ffaFidAbi64Prefix) = 0)

end FfaAcs.Dispatch
