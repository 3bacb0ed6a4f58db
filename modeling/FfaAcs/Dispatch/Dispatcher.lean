import FfaAcs.Dispatch.Framework

/-!
# The dispatcher

`val_test_dispatch` walks over the test list. It skips the tests whose ABI is not there, runs the
others and counts their results in non-volatile memory, where the totals are read again and written
back after every test. The walk ends at the first entry without a function.
-/

namespace FfaAcs.Dispatch

open Machine

variable {σ : Type}

/-- The end of an iteration: the status of the test is added to the totals. -/
def recordResult (env : Env σ) (s : Sys σ) : Except (Stop σ) (Report × Sys σ) := do
  let (testResult, world) := env.reportStatus s.world
  let s := { s with world := world }
  let report ← s.readReport env
  let report := env.updateRegressionReport testResult report
  let s ← s.writeReport env report
  return (report, s)

/-- The walk over the test list from index `i`, with the report that will be printed. -/
def dispatchLoop (env : Env σ) (info : TestInfo) (testNumEnd : ℕ) :
    ℕ → ℕ → ℕ → Bool → Report → Sys σ → Except (Stop σ) (Report × Sys σ)
  | 0, _, _, _, _, _ => .error .diverged
  | fuel + 1, i, suiteNum, rebootRun, report, s => do
    if i > testNumEnd then return (report, s)
    else
      let s := s.noteRead i
      if (env.testList i).testentryFn = 0 then return (report, s)
      else if rebootRun then
        let s := { s with world := env.handleRebootResult info.testProgress s.world }
        let (report, s) ← recordResult env s
        dispatchLoop env info testNumEnd fuel (wrap32 (i + 1)) suiteNum false report s
      else
        let suiteNum :=
          if suiteNum ≠ (env.testList i).suiteNum then (env.testList i).suiteNum else suiteNum
        let s ← s.write env .curSuiteNum suiteNum
        let s ← s.write env .curTestNum i
        let s := { s.noteRead i with currentTestNum := i }
        if valCheckTestAbiSupport env i then
          let s ← valTestInit env i s
          let s ← valTestExit env (s.callTest env i)
          let (report, s) ← recordResult env s
          dispatchLoop env info testNumEnd fuel (wrap32 (i + 1)) suiteNum false report s
        else dispatchLoop env info testNumEnd fuel (wrap32 (i + 1)) suiteNum false report s

/-- `val_test_dispatch` in a build without a range of tests. -/
def valTestDispatch (env : Env σ) (fuel : ℕ) (s : Sys σ) : Except (Stop σ) (Sys σ) := do
  let s := { s with world := env.sendSyncEpInfo s.world }
  let (info, s) ← valGetLastRunTestInfo env s
  if info.testNum = env.invalidTestNum then
    let s ← s.write env .endTestNum env.totalTests
    let (report, s) ←
      dispatchLoop env info env.totalTests fuel 1 info.suiteNum false ⟨0, 0, 0, 0⟩ s
    return { s with printed := s.printed ++ [report] }
  else
    let (report, s) ←
      dispatchLoop env info info.endTestNum fuel info.testNum info.suiteNum true ⟨0, 0, 0, 0⟩ s
    return { s with printed := s.printed ++ [report] }

/-! ## The totals -/

namespace NvmField

/-- The words that hold the report. -/
def isTotal : NvmField → Bool
  | .totalPass | .totalFail | .totalSkip | .totalError => true
  | _ => false

end NvmField

/-- The totals in non-volatile memory. -/
def totals (env : Env σ) (nvm : ByteMemory) : Report :=
  ⟨nvm.load (env.offset .totalPass) 4, nvm.load (env.offset .totalFail) 4,
    nvm.load (env.offset .totalSkip) 4, nvm.load (env.offset .totalError) 4⟩

/-- The number of results in a report. -/
def Report.sum (r : Report) : ℕ := r.totalPass + r.totalFail + r.totalSkip + r.totalError

/-- One of the totals has gone up by one, as a 32-bit word, and the others are as they were. -/
def Report.Increments (r r' : Report) : Prop :=
  r' = { r with totalPass := wrap32 (r.totalPass + 1) } ∨
    r' = { r with totalFail := wrap32 (r.totalFail + 1) } ∨
    r' = { r with totalSkip := wrap32 (r.totalSkip + 1) } ∨
    r' = { r with totalError := wrap32 (r.totalError + 1) }

/-- What the parts outside the repository do: the words lie in the array and apart from each other,
a reset leaves no test number and zero totals, a result adds to one total, and tests leave the
totals alone. -/
structure Env.Proper (env : Env σ) : Prop where
  inBounds : ∀ f, env.offset f + 4 ≤ nvmSize
  apart : ∀ f g, f ≠ g → Apart (env.offset f) 4 (env.offset g) 4
  resetsInfo : ∀ t, (env.resetTestInfoFields t).testNum = env.invalidTestNum
  resets : ∀ r, env.resetRegressionReport r = ⟨0, 0, 0, 0⟩
  updates : ∀ result (r : Report), r.Increments (env.updateRegressionReport result r)
  keepsTotals : ∀ i w m f, f.isTotal = true →
    (env.testentry i (w, m)).2.load (env.offset f) 4 = m.load (env.offset f) 4

/-- A report that counts one more test has a sum that is one more, as long as it does not wrap. -/
theorem Report.Increments.sum_eq {r r' : Report} (h : r.Increments r') (hroom : r.sum + 1 < 2 ^ 32) :
    r'.sum = r.sum + 1 := by
  unfold Report.sum at hroom ⊢
  rcases h with rfl | rfl | rfl | rfl <;> simp only [wrap32] <;> omega

/-- The totals depend on their own words only. -/
theorem totals_congr {env : Env σ} {m m' : ByteMemory}
    (h : ∀ f, f.isTotal = true → m'.load (env.offset f) 4 = m.load (env.offset f) 4) :
    totals env m' = totals env m := by
  rw [totals, totals, h .totalPass rfl, h .totalFail rfl, h .totalSkip rfl, h .totalError rfl]

/-! ## Accesses that succeed -/

section

variable {env : Env σ} {s : Sys σ}

/-- The state after a write of one word. -/
def Sys.stored (env : Env σ) (f : NvmField) (v : ℕ) (s : Sys σ) : Sys σ :=
  { s with nvm := s.nvm.store (env.offset f) 4 v }

/-- Every field is inside the non-volatile memory. -/
theorem Env.Proper.checkBounds (henv : env.Proper) (f : NvmField) :
    nvmCheckBounds (env.offset f) 4 = true := by
  have hbound := henv.inBounds f
  simp [nvmCheckBounds]
  omega

/-- A write to the non-volatile memory succeeds. -/
theorem Env.Proper.write (henv : env.Proper) (f : NvmField) (v : ℕ) (s : Sys σ) :
    s.write env f v = .ok (s.stored env f v) := by
  simp only [Sys.write, valNvmemWrite, henv.checkBounds f, if_true]
  rfl

/-- A write that must not fail does not. -/
theorem Env.Proper.writeOrPanic (henv : env.Proper) (f : NvmField) (v : ℕ) (s : Sys σ) :
    s.writeOrPanic env f v = .ok (s.stored env f v) := by
  simp only [Sys.writeOrPanic, valNvmemWrite, henv.checkBounds f, if_true]
  rfl

/-- A read of the non-volatile memory succeeds. -/
theorem Env.Proper.read (henv : env.Proper) (f : NvmField) (s : Sys σ) :
    s.read env f = .ok (s.nvm.load (env.offset f) 4) := by
  simp only [Sys.read, valNvmemRead, henv.checkBounds f, if_true]

/-- The state after the totals are written. -/
def Sys.reported (env : Env σ) (r : Report) (s : Sys σ) : Sys σ :=
  (((s.stored env .totalPass r.totalPass).stored env .totalFail r.totalFail).stored env .totalSkip
    r.totalSkip).stored env .totalError r.totalError

/-- The totals are written to their fields. -/
theorem Env.Proper.writeReport (henv : env.Proper) (r : Report) (s : Sys σ) :
    s.writeReport env r = .ok (s.reported env r) := by
  simp only [Sys.writeReport, henv.write, bind, Except.bind, Sys.reported]

/-- The totals are read from their fields. -/
theorem Env.Proper.readReport (henv : env.Proper) (s : Sys σ) :
    s.readReport env = .ok (totals env s.nvm) := by
  simp only [Sys.readReport, henv.read, bind, Except.bind, pure, Except.pure, totals]

/-- A write to another field leaves the totals alone. -/
theorem Env.Proper.totals_stored (henv : env.Proper) {f : NvmField} (hf : f.isTotal = false) (v : ℕ)
    (s : Sys σ) : totals env (s.stored env f v).nvm = totals env s.nvm := by
  refine totals_congr fun g hg => ByteMemory.load_store_apart _ (henv.apart f g ?_)
  rintro rfl
  rw [hf] at hg
  cases hg

/-- A write to one field leaves the others alone. -/
theorem Env.Proper.load_stored (henv : env.Proper) {f g : NvmField} (hne : f ≠ g) (v : ℕ) (s : Sys σ) :
    (s.stored env f v).nvm.load (env.offset g) 4 = s.nvm.load (env.offset g) 4 :=
  ByteMemory.load_store_apart _ (henv.apart f g hne)

/-- A report of 32-bit words is read back. -/
theorem Env.Proper.totals_reported (henv : env.Proper) {r : Report} (hr : r.sum < 2 ^ 32)
    (s : Sys σ) : totals env (s.reported env r).nvm = r := by
  have hsame (f : NvmField) (v : ℕ) (s : Sys σ) :
      (s.stored env f v).nvm.load (env.offset f) 4 = v % 2 ^ 32 :=
    ByteMemory.load_store_same s.nvm (env.offset f) 4 v
  unfold Report.sum at hr
  simp only [totals, Sys.reported, hsame, ne_eq, reduceCtorEq, not_false_eq_true, henv.load_stored]
  rw [Nat.mod_eq_of_lt (by omega), Nat.mod_eq_of_lt (by omega), Nat.mod_eq_of_lt (by omega),
    Nat.mod_eq_of_lt (by omega)]

/-! ## What a part of a run does -/

/-- From `s` to `s'` the entry functions `calls` are called, `results` results are counted, and the
test list is read up to `limit` only. -/
structure Walked (env : Env σ) (limit : ℕ) (calls : List ℕ) (results : ℕ) (s s' : Sys σ) : Prop where
  called : s'.called = s.called ++ calls
  sum : (totals env s'.nvm).sum = (totals env s.nvm).sum + results
  reads : ∀ j ∈ s'.reads, j ∈ s.reads ∨ j ≤ limit
  printed : s'.printed = s.printed

/-- One walk over tests after another. -/
theorem Walked.trans {limit r₁ r₂ : ℕ} {c₁ c₂ : List ℕ} {s₁ s₂ s₃ : Sys σ}
    (h₁ : Walked env limit c₁ r₁ s₁ s₂) (h₂ : Walked env limit c₂ r₂ s₂ s₃) :
    Walked env limit (c₁ ++ c₂) (r₁ + r₂) s₁ s₃ where
  called := by rw [h₂.called, h₁.called, List.append_assoc]
  sum := by rw [h₂.sum, h₁.sum, Nat.add_assoc]
  reads j hj := (h₂.reads j hj).elim (h₁.reads j) Or.inr
  printed := h₂.printed.trans h₁.printed

/-- A part of a run that calls nothing and keeps the totals. -/
theorem Walked.quiet {limit : ℕ} {s s' : Sys σ} (htotals : totals env s'.nvm = totals env s.nvm)
    (hcalled : s'.called = s.called) (hreads : ∀ j ∈ s'.reads, j ∈ s.reads ∨ j ≤ limit)
    (hprinted : s'.printed = s.printed) : Walked env limit [] 0 s s' where
  called := by rw [hcalled, List.append_nil]
  sum := by rw [htotals, Nat.add_zero]
  reads := hreads
  printed := hprinted

/-- An entry that is read within the limit is the only new one. -/
theorem Sys.reads_noteRead {limit i : ℕ} (hi : i ≤ limit) :
    ∀ j ∈ (s.noteRead i).reads, j ∈ s.reads ∨ j ≤ limit := by
  intro j hj
  rcases List.mem_append.mp hj with hold | hnew
  · exact Or.inl hold
  · exact Or.inr (List.mem_singleton.mp hnew ▸ hi)

/-- `val_test_init`, the test and `val_test_exit` call the entry function and keep the totals. -/
theorem Env.Proper.runs (henv : env.Proper) {limit i : ℕ} (hi : i ≤ limit) (s : Sys σ) :
    ∃ s₁ s₂, valTestInit env i s = .ok s₁ ∧ valTestExit env (s₁.callTest env i) = .ok s₂ ∧
      Walked env limit [i] 0 s s₂ := by
  refine ⟨_, _, henv.writeOrPanic _ _ _, henv.writeOrPanic _ _ _, rfl, ?_, ?_, rfl⟩
  · have hkeeps (m : ByteMemory) (w : σ) : totals env (env.testentry i (w, m)).2 = totals env m :=
      totals_congr fun f hf => henv.keepsTotals i w m f hf
    rw [henv.totals_stored rfl, Nat.add_zero]
    simp only [Sys.callTest, hkeeps]
    rw [henv.totals_stored rfl]
    rfl
  · exact Sys.reads_noteRead hi

/-- The result of a test is counted once, and the report is what the memory now holds. -/
theorem Env.Proper.records (henv : env.Proper) (limit : ℕ) {s : Sys σ}
    (hroom : (totals env s.nvm).sum + 1 < 2 ^ 32) :
    ∃ s', recordResult env s = .ok (totals env s'.nvm, s') ∧ Walked env limit [] 1 s s' := by
  set report := env.updateRegressionReport (env.reportStatus s.world).1 (totals env s.nvm)
    with hreport
  have hsum : report.sum = (totals env s.nvm).sum + 1 := (henv.updates _ _).sum_eq hroom
  set s' := ({ s with world := (env.reportStatus s.world).2 } : Sys σ).reported env report with hs'
  have htotals : totals env s'.nvm = report := henv.totals_reported (by omega) _
  refine ⟨s', ?_, (List.append_nil _).symm, by rw [htotals, hsum], fun j hj => Or.inl hj, rfl⟩
  simp only [recordResult, henv.readReport, henv.writeReport, bind, Except.bind, pure, Except.pure,
    htotals]
  rfl

/-! ## The walk -/

/-- The tests among the `k` indices from `i` on whose ABI is there. -/
def Env.supported (env : Env σ) (i k : ℕ) : List ℕ :=
  (List.range' i k).filter (valCheckTestAbiSupport env)

variable {limit stop fuel i : ℕ} {report : Report}

/-- One iteration of a run that does not follow a reboot: the test is called and counted if its ABI
is there, and the report stays the one in memory. -/
theorem dispatchLoop_step (henv : env.Proper) (info : TestInfo) (fuel suiteNum : ℕ) (hi : i < limit)
    (hlimit : limit ≤ stop) (hstop : stop < 2 ^ 32) (hentry : (env.testList i).testentryFn ≠ 0)
    (hreport : report = totals env s.nvm) (hroom : report.sum + 1 < 2 ^ 32) :
    ∃ suiteNum' s', Walked env limit (env.supported i 1) (env.supported i 1).length s s' ∧
      dispatchLoop env info stop (fuel + 1) i suiteNum false report s =
        dispatchLoop env info stop fuel (i + 1) suiteNum' false (totals env s'.nvm) s' := by
  have hnext : wrap32 (i + 1) = i + 1 := wrap32_of_lt (by omega)
  set number := if suiteNum ≠ (env.testList i).suiteNum then (env.testList i).suiteNum else suiteNum
    with hnumber
  set s₁ : Sys σ :=
    { (((s.noteRead i).stored env .curSuiteNum number).stored env .curTestNum i).noteRead i with
      currentTestNum := i } with hs₁
  have htotals : totals env s₁.nvm = totals env s.nvm := by
    change totals env (((s.noteRead i).stored env .curSuiteNum number).stored env .curTestNum i).nvm = _
    rw [henv.totals_stored rfl, henv.totals_stored rfl]
    rfl
  have hwalked : Walked env limit [] 0 s s₁ := by
    refine Walked.quiet htotals rfl (fun j hj => ?_) rfl
    exact (Sys.reads_noteRead hi.le j hj).elim (Sys.reads_noteRead hi.le j) Or.inr
  have hloop : dispatchLoop env info stop (fuel + 1) i suiteNum false report s =
      if valCheckTestAbiSupport env i then do
        let s ← valTestInit env i s₁
        let s ← valTestExit env (s.callTest env i)
        let (report, s) ← recordResult env s
        dispatchLoop env info stop fuel (i + 1) number false report s
      else dispatchLoop env info stop fuel (i + 1) number false report s₁ := by
    rw [dispatchLoop, if_neg (by omega), if_neg hentry, hnext]
    simp only [Bool.false_eq_true, if_false, henv.write, bind, Except.bind]
    rfl
  refine ⟨number, ?_⟩
  by_cases hcheck : valCheckTestAbiSupport env i = true
  · have hone : env.supported i 1 = [i] := by simp [Env.supported, hcheck]
    obtain ⟨s₂, s₃, hinit, hexit, hruns⟩ := henv.runs hi.le s₁
    have hkept : (totals env s₃.nvm).sum + 1 < 2 ^ 32 := by
      rw [hruns.sum, htotals, ← hreport]
      exact hroom
    obtain ⟨s₄, hrecord, hrecords⟩ := henv.records limit hkept
    rw [hloop, if_pos hcheck, hone]
    refine ⟨s₄, (hwalked.trans hruns).trans hrecords, ?_⟩
    simp only [hinit, hexit, hrecord, bind, Except.bind]
  · have hnone : env.supported i 1 = [] := by simp [Env.supported, hcheck]
    rw [hloop, if_neg hcheck, hnone]
    exact ⟨s₁, hwalked, by rw [htotals, hreport]⟩

/-- The supported tests of a range: those of its first test, and those of the others. -/
theorem Env.supported_succ (env : Env σ) (i k : ℕ) :
    env.supported i (k + 1) = env.supported i 1 ++ env.supported (i + 1) k := by
  rw [Env.supported, Env.supported, Env.supported, ← List.filter_append]
  rfl

/-- A range has no more supported tests than tests. -/
theorem Env.length_supported_le (env : Env σ) (i k : ℕ) : (env.supported i k).length ≤ k :=
  (List.length_filter_le _ _).trans List.length_range'.le

/-- The walk up to the entry without a function. The induction is on the number of entries before
it. -/
theorem dispatchLoop_walks (henv : env.Proper) (info : TestInfo) (k suiteNum : ℕ) (hlimit : i + k = limit)
    (hstop : limit ≤ stop) (hword : stop < 2 ^ 32)
    (hentries : ∀ j, i ≤ j → j < limit → (env.testList j).testentryFn ≠ 0)
    (hend : (env.testList limit).testentryFn = 0) (hfuel : k < fuel)
    (hreport : report = totals env s.nvm) (hroom : report.sum + k < 2 ^ 32) :
    ∃ s', dispatchLoop env info stop fuel i suiteNum false report s = .ok (totals env s'.nvm, s') ∧
      Walked env limit (env.supported i k) (env.supported i k).length s s' := by
  induction k generalizing i suiteNum report s fuel with
  | zero =>
    obtain ⟨fuel, rfl⟩ := Nat.exists_eq_add_of_lt hfuel
    obtain rfl : i = limit := by omega
    refine ⟨s.noteRead i, ?_, Walked.quiet rfl rfl (Sys.reads_noteRead le_rfl) rfl⟩
    rw [dispatchLoop, if_neg (by omega), if_pos hend, hreport]
    rfl
  | succ k ih =>
    obtain ⟨fuel, rfl⟩ := Nat.exists_eq_add_of_lt hfuel
    obtain ⟨number, s₁, hwalked, hstep⟩ := dispatchLoop_step henv info (k + 1 + fuel)
      suiteNum (by omega : i < limit) hstop hword (hentries i le_rfl (by omega)) hreport (by omega)
    have hsum := hwalked.sum
    have hone := env.length_supported_le i 1
    obtain ⟨s', hrest, hwalks⟩ := ih number (by omega : i + 1 + k = limit)
      (fun j hj => hentries j (by omega)) (by omega : k < k + 1 + fuel) rfl
      (by rw [hsum, ← hreport]; omega)
    refine ⟨s', hstep.trans hrest, ?_⟩
    rw [Env.supported_succ, List.length_append]
    exact hwalked.trans hwalks

/-! ## Whole runs -/

/-- The state in which the dispatcher is entered. -/
def Sys.start (nvm : ByteMemory) (world : σ) (currentTestNum : ℕ) : Sys σ :=
  ⟨nvm, world, currentTestNum, [], [], []⟩

/-- After power-on the information about the last test and the totals are reset. -/
theorem Env.Proper.powersOn (henv : env.Proper) (s : Sys σ)
    (hpower : env.isRebootRun (s.nvm.load (env.offset .testProgress) 4) = false) :
    ∃ info s', valGetLastRunTestInfo env s = .ok (info, s') ∧ info.testNum = env.invalidTestNum ∧
      totals env s'.nvm = ⟨0, 0, 0, 0⟩ ∧ s'.called = s.called ∧ s'.reads = s.reads ∧
      s'.printed = s.printed := by
  set info := env.resetTestInfoFields
    ⟨s.nvm.load (env.offset .curSuiteNum) 4, s.nvm.load (env.offset .curTestNum) 4,
      s.nvm.load (env.offset .endTestNum) 4, s.nvm.load (env.offset .testProgress) 4⟩
  set s₁ := (((s.stored env .curSuiteNum info.suiteNum).stored env .curTestNum info.testNum).stored
    env .endTestNum info.endTestNum).stored env .testProgress info.testProgress
  refine ⟨info, s₁.reported env ⟨0, 0, 0, 0⟩, ?_, henv.resetsInfo _,
    henv.totals_reported (by decide) s₁, rfl, rfl, rfl⟩
  simp only [valGetLastRunTestInfo, henv.read, bind, Except.bind, hpower, Bool.false_eq_true,
    if_false, henv.write, henv.writeReport, henv.resets, pure, Except.pure]
  rfl

end

/-- A run after power-on calls the tests before the end of the list whose ABI is there, once each and
in order, reads the list no further than its end, and prints the totals, which count the calls. -/
theorem test_dispatch_counts_tests {σ : Type} (env : Env σ) (henv : env.Proper) (nvm : ByteMemory)
    (world : σ) (currentTestNum T fuel : ℕ) (hpos : 1 ≤ T) (hle : T ≤ env.totalTests)
    (hword : env.totalTests < 2 ^ 32)
    (hentries : ∀ j, 1 ≤ j → j < T → (env.testList j).testentryFn ≠ 0)
    (hend : (env.testList T).testentryFn = 0)
    (hpower : env.isRebootRun (nvm.load (env.offset .testProgress) 4) = false) (hfuel : T ≤ fuel) :
    ∃ s', valTestDispatch env fuel (Sys.start nvm world currentTestNum) = .ok s' ∧
      s'.called = (List.range' 1 (T - 1)).filter (valCheckTestAbiSupport env) ∧
      (∀ j ∈ s'.reads, j ≤ T) ∧
      (totals env s'.nvm).sum = s'.called.length ∧
      s'.printed = [totals env s'.nvm] := by
  set s₀ : Sys σ := { Sys.start nvm world currentTestNum with world := env.sendSyncEpInfo world }
  obtain ⟨info, s₁, hinfo, hnumber, hzero, hcalled, hreads, hprinted⟩ := henv.powersOn s₀ hpower
  set s₂ := s₁.stored env .endTestNum env.totalTests
  have hreset : totals env s₂.nvm = ⟨0, 0, 0, 0⟩ := (henv.totals_stored rfl _ _).trans hzero
  obtain ⟨s₃, hloop, hwalked⟩ := dispatchLoop_walks henv info (T - 1) info.suiteNum
    (by omega : 1 + (T - 1) = T) hle hword hentries hend (by omega : T - 1 < fuel) hreset.symm
    (by simp only [Report.sum]; omega)
  have hcalls : s₃.called = env.supported 1 (T - 1) := by
    rw [hwalked.called]
    change s₁.called ++ _ = _
    rw [hcalled]
    rfl
  refine ⟨{ s₃ with printed := s₃.printed ++ [totals env s₃.nvm] }, ?_, hcalls, ?_, ?_, ?_⟩
  · simp only [valTestDispatch, bind, Except.bind, pure, Except.pure]
    rw [show ({ Sys.start nvm world currentTestNum with
      world := env.sendSyncEpInfo (Sys.start nvm world currentTestNum).world } : Sys σ) = s₀ from rfl,
      hinfo]
    simp only [hnumber, if_true, henv.write]
    rw [hloop]
  · intro j hj
    rcases hwalked.reads j hj with hbefore | hle
    · have hnone : j ∈ s₁.reads := hbefore
      rw [hreads] at hnone
      cases hnone
    · exact hle
  · change (totals env s₃.nvm).sum = s₃.called.length
    rw [hwalked.sum, hreset, hcalls]
    exact Nat.zero_add _
  · change s₃.printed ++ _ = _
    rw [hwalked.printed]
    change s₁.printed ++ _ = _
    rw [hprinted]
    rfl

/-- Three tests, of which the second needs a feature that is not there. -/
def threeTests : Env Unit where
  testList i := ⟨1, if i ≤ 3 then 0x1000 else 0, 0x84000070 + i⟩
  totalTests := 4
  offset
    | .curSuiteNum => 0
    | .curTestNum => 4
    | .endTestNum => 8
    | .testProgress => 12
    | .totalPass => 16
    | .totalFail => 20
    | .totalSkip => 24
    | .totalError => 28
  invalidTestNum := 0xDEADBEEF
  testStart := 1
  testEnd := 2
  isRebootRun progress := decide (progress = 1)
  resetTestInfoFields _ := ⟨0, 0xDEADBEEF, 0, 0⟩
  resetRegressionReport _ := ⟨0, 0, 0, 0⟩
  updateRegressionReport result r :=
    if result = 0 then { r with totalPass := wrap32 (r.totalPass + 1) }
    else { r with totalFail := wrap32 (r.totalFail + 1) }
  isFfaFeatureSupported _ fid := if fid = 0x84000072 then 1 else 0
  sendSyncEpInfo := id
  clearStatus := id
  testentry _ := id
  handleRebootResult _ := id
  reportStatus _ := (0, ())

/-- The fields of this environment are in bounds and apart. -/
theorem threeTests_proper : threeTests.Proper where
  inBounds f := by cases f <;> decide
  apart f g hne := by
    cases f <;> cases g <;> first | exact absurd rfl hne | (simp only [threeTests, Apart]; omega)
  resetsInfo _ := rfl
  resets _ := rfl
  updates result r := by
    simp only [threeTests]
    split
    · exact Or.inl rfl
    · exact Or.inr (Or.inl rfl)
  keepsTotals _ _ _ _ _ := rfl

/-- The first and the third of these tests are called and counted. -/
theorem test_dispatch_counts_three_tests :
    ∃ s', valTestDispatch threeTests 4 (Sys.start (fun _ => 0) () 0) = .ok s' ∧ s'.called = [1, 3] ∧
      (∀ j ∈ s'.reads, j ≤ 4) ∧ (totals threeTests s'.nvm).sum = 2 ∧
      s'.printed = [totals threeTests s'.nvm] := by
  obtain ⟨s', hrun, hcalled, hreads, hsum, hprinted⟩ :=
    test_dispatch_counts_tests threeTests threeTests_proper (fun _ => 0) () 0 4 4 (by decide)
      (by decide) (by decide) (fun j _ hj => by simp only [threeTests]; rw [if_pos (by omega)]; decide)
      (by decide) (by decide) le_rfl
  have hcalls : s'.called = [1, 3] := hcalled.trans (by decide)
  rw [hcalls] at hsum
  exact ⟨s', hrun, hcalls, hreads, hsum, hprinted⟩

end FfaAcs.Dispatch
