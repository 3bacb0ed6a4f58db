import Mathlib.Data.Nat.Nth
import FfaAcs.Machine.Fairness
import FfaAcs.Machine.WordArithmetic

/-!
# Waiting for the test of a secondary CPU

A secondary CPU stores the result of its test and then the state `COMPLETE`. The primary CPU waits
for that in `val_get_multi_pe_test_status`: it polls the state, sleeps for a millisecond and counts
down from five. Both work on one structure in memory that each of them sees at once.

The loop ends when the count equals five, which it does when the loop is entered. So there is one
look at the state in the loop and one after it, and no time between them for the secondary CPU.
-/

namespace FfaAcs.Dispatch

open Machine

/-- `VAL_MP_STATE_INPROGRESS`, `VAL_MP_STATE_COMPLETE` and `VAL_MP_STATE_WAIT`. -/
def valMpStateInprogress : ℕ := 105
def valMpStateComplete : ℕ := 106
def valMpStateWait : ℕ := 107

/-- `g_mp_state`. -/
structure MpState where
  currentTestNum : ℕ
  otherPeTestState : ℕ → ℕ
  otherPeTestResult : ℕ → ℕ

/-- The place of the primary CPU in `val_get_multi_pe_test_status`. The last two are its panics. -/
inductive Primary
  | readTestNum
  | poll (count : ℕ)
  | sleep (count wake : ℕ)
  | readState
  | readResult
  | resetState (status : ℕ)
  | resetResult (status : ℕ)
  | returned (status : ℕ)
  | inconsistent
  | incomplete
deriving DecidableEq, Repr

/-- The place of the secondary CPU in `val_secondary_cpu_test_entry`, from its test on. -/
inductive Secondary
  | running
  | storeResult
  | storeState
  | off
deriving DecidableEq, Repr

/-- The two CPUs, the memory they share and the milliseconds since the call. -/
structure Pes where
  mem : MpState
  primary : Primary
  secondary : Secondary
  clock : ℕ

/-- What happens next: a step of one of the CPUs, or a millisecond has passed. -/
inductive Turn
  | primary
  | secondary
  | tick
deriving DecidableEq, Repr

section

variable (cpuId testNum invalid result : ℕ)

/-- One access of the primary CPU; `invalid` is `VAL_STATUS_INVALID`. -/
def primaryStep (s : Pes) : Pes :=
  match s.primary with
  | .readTestNum =>
    if s.mem.currentTestNum ≠ testNum then { s with primary := .inconsistent }
    else { s with primary := .poll 5 }
  | .poll count =>
    if s.mem.otherPeTestState cpuId ≠ valMpStateInprogress ∨ count = 5 then
      { s with primary := .readState }
    else { s with primary := .sleep count (s.clock + 1) }
  | .sleep count wake =>
    if wake ≤ s.clock then { s with primary := .poll (wrap32 (count + (2 ^ 32 - 1))) } else s
  | .readState =>
    if s.mem.otherPeTestState cpuId = valMpStateComplete then { s with primary := .readResult }
    else { s with primary := .incomplete }
  | .readResult => { s with primary := .resetState (s.mem.otherPeTestResult cpuId) }
  | .resetState status =>
    { s with
      mem.otherPeTestState := Function.update s.mem.otherPeTestState cpuId valMpStateWait
      primary := .resetResult status }
  | .resetResult status =>
    { s with
      mem.otherPeTestResult := Function.update s.mem.otherPeTestResult cpuId invalid
      primary := .returned status }
  | .returned _ => s
  | .inconsistent => s
  | .incomplete => s

/-- One step of the secondary CPU, whose test ends with `result`. -/
def secondaryStep (s : Pes) : Pes :=
  match s.secondary with
  | .running => { s with secondary := .storeResult }
  | .storeResult =>
    { s with
      mem.otherPeTestResult := Function.update s.mem.otherPeTestResult cpuId result
      secondary := .storeState }
  | .storeState =>
    { s with
      mem.otherPeTestState := Function.update s.mem.otherPeTestState cpuId valMpStateComplete
      secondary := .off }
  | .off => s

/-- One turn. -/
def turn : Turn → Pes → Pes
  | .primary, s => primaryStep cpuId testNum invalid s
  | .secondary, s => secondaryStep cpuId result s
  | .tick, s => { s with clock := s.clock + 1 }

/-- The call is made while the secondary CPU is in its test or has not yet stored `COMPLETE`. -/
structure Pes.Called (s : Pes) : Prop where
  primary : s.primary = .readTestNum
  state : s.mem.otherPeTestState cpuId = valMpStateInprogress
  secondary : s.secondary ≠ .off
  result : s.secondary = .storeState → s.mem.otherPeTestResult cpuId = result
  clock : s.clock = 0

/-- The executions of the two CPUs. -/
abbrev Schedule (s₀ : Pes) :=
  Execution (fun s l t => turn cpuId testNum invalid result l s = t) s₀

end

variable {cpuId testNum invalid result : ℕ} {s₀ : Pes}

namespace Schedule

/-- The test is complete before the five rounds of a millisecond are over. -/
def InTime (e : Schedule cpuId testNum invalid result s₀) : Prop :=
  ∃ n, (e.state n).mem.otherPeTestState cpuId = valMpStateComplete ∧ (e.state n).clock < 5

/-- The call returns the result and leaves the state and the result reset. -/
def Returns (e : Schedule cpuId testNum invalid result s₀) : Prop :=
  ∃ n, (e.state n).primary = .returned result ∧
    (e.state n).mem.otherPeTestState cpuId = valMpStateWait ∧
    (e.state n).mem.otherPeTestResult cpuId = invalid

/-- The call reports that the test is incomplete. -/
def Reports (e : Schedule cpuId testNum invalid result s₀) : Prop :=
  ∃ n, (e.state n).primary = .incomplete

/-- The number of the primary CPU's accesses before a moment. -/
def accesses (e : Schedule cpuId testNum invalid result s₀) (n : ℕ) : ℕ :=
  Nat.count (fun k => e.label k = .primary) n

/-- The number of the secondary CPU's steps before a moment. -/
def progress (e : Schedule cpuId testNum invalid result s₀) (n : ℕ) : ℕ :=
  Nat.count (fun k => e.label k = .secondary) n

end Schedule

/-- The steps that the secondary CPU has to take until the test is complete. -/
def Secondary.remaining : Secondary → ℕ
  | .running => 3
  | .storeResult => 2
  | .storeState => 1
  | .off => 0

/-- The secondary CPU has stored `COMPLETE` when the primary makes its third access. -/
def Schedule.CompleteAtThird (e : Schedule cpuId testNum invalid result s₀) : Prop :=
  ∃ n, e.label n = .primary ∧ e.accesses n = 2 ∧ s₀.secondary.remaining ≤ e.progress n

/-! ## Before the third access -/

/-- What the memory says while the primary CPU has only read it. -/
structure Pes.Pending (cpuId result : ℕ) (s : Pes) : Prop where
  state : s.mem.otherPeTestState cpuId =
    if s.secondary = .off then valMpStateComplete else valMpStateInprogress
  result : s.secondary.remaining ≤ 1 → s.mem.otherPeTestResult cpuId = result

/-- The memory says the same of the secondary CPU after each of its steps. -/
theorem Pes.Pending.secondaryStep {s : Pes} (h : s.Pending cpuId result) :
    (secondaryStep cpuId result s).Pending cpuId result := by
  obtain ⟨hstate, hresult⟩ := h
  unfold Dispatch.secondaryStep
  cases hplace : s.secondary with
  | running => exact ⟨by simpa [hplace] using hstate, fun hle => absurd hle (by simp [Secondary.remaining])⟩
  | storeResult => exact ⟨by simpa [hplace] using hstate, fun _ => Function.update_self ..⟩
  | storeState => exact ⟨Function.update_self .., fun _ => hresult (by rw [hplace]; decide)⟩
  | off => exact ⟨hstate, hresult⟩

/-- A step of the secondary CPU leaves the primary one where it is. -/
theorem primary_secondaryStep (s : Pes) : (secondaryStep cpuId result s).primary = s.primary := by
  unfold secondaryStep
  cases s.secondary <;> rfl

/-- The secondary CPU does not write the number of the test. -/
theorem currentTestNum_secondaryStep (s : Pes) :
    (secondaryStep cpuId result s).mem.currentTestNum = s.mem.currentTestNum := by
  unfold secondaryStep
  cases s.secondary <;> rfl

/-- A step of the secondary CPU leaves it one step less to go. -/
theorem remaining_secondaryStep (s : Pes) :
    (secondaryStep cpuId result s).secondary.remaining = s.secondary.remaining - 1 := by
  unfold secondaryStep
  cases hplace : s.secondary <;> simp [hplace, Secondary.remaining]

/-- A step of the primary CPU leaves the secondary one where it is. -/
theorem secondary_primaryStep (s : Pes) :
    (primaryStep cpuId testNum invalid s).secondary = s.secondary := by
  unfold primaryStep
  split <;> first | rfl | (split <;> rfl)

/-- The places that the primary CPU does not leave. -/
def Primary.halted : Primary → Bool
  | .returned _ | .inconsistent | .incomplete => true
  | _ => false

/-- The place of the primary CPU after `k` accesses, for `k` up to two. -/
def Primary.after (current testNum : ℕ) : ℕ → Primary
  | 0 => .readTestNum
  | 1 => if current ≠ testNum then .inconsistent else .poll 5
  | _ + 2 => if current ≠ testNum then .inconsistent else .readState

/-- The first accesses of the primary CPU do not end its call, unless the number is wrong. -/
theorem Primary.after_ne_of_halted {p : Primary} (hhalted : p.halted = true) (hne : p ≠ .inconsistent)
    (current testNum k : ℕ) : Primary.after current testNum k ≠ p := by
  rintro rfl
  rcases k with _ | _ | k
  · cases hhalted
  all_goals
    simp only [Primary.after] at hhalted hne
    by_cases hnumber : current = testNum
    · simp only [hnumber, ne_eq, not_true_eq_false, if_false] at hhalted
      cases hhalted
    · exact hne (if_pos hnumber)

/-- The state before the third access. -/
structure Pes.Early (cpuId testNum result current k : ℕ) (s : Pes) : Prop where
  pending : s.Pending cpuId result
  number : s.mem.currentTestNum = current
  primary : s.primary = Primary.after current testNum k

/-- The first two accesses only read: the count equals five, and the loop is left at once. -/
theorem Pes.Early.primaryStep {current k : ℕ} {s : Pes} (h : s.Early cpuId testNum result current k)
    (hk : k < 2) :
    (primaryStep cpuId testNum invalid s).Early cpuId testNum result current (k + 1) := by
  obtain ⟨hpending, hcurrent, hprimary⟩ := h
  unfold Dispatch.primaryStep
  interval_cases k
  · simp only [hprimary, Primary.after, hcurrent]
    by_cases hne : current = testNum
    · rw [if_neg (by simpa using hne)]
      exact ⟨⟨hpending.state, hpending.result⟩, hcurrent, (if_neg (by simpa using hne)).symm⟩
    · rw [if_pos hne]
      exact ⟨⟨hpending.state, hpending.result⟩, hcurrent, (if_pos hne).symm⟩
  · by_cases hne : current = testNum
    · rw [Primary.after, if_neg (by simpa using hne)] at hprimary
      simp only [hprimary, or_true, if_true]
      exact ⟨⟨hpending.state, hpending.result⟩, hcurrent, (if_neg (by simpa using hne)).symm⟩
    · rw [Primary.after, if_pos hne] at hprimary
      simp only [hprimary]
      exact ⟨⟨hpending.state, hpending.result⟩, hcurrent, hprimary.trans (if_pos hne).symm⟩

/-- The call has made no access yet. -/
theorem Pes.Called.early {s : Pes} (h : s.Called cpuId result) :
    s.Early cpuId testNum result s.mem.currentTestNum 0 where
  pending :=
    { state := by rw [h.state, if_neg h.secondary]
      result := fun hle => by
        cases hplace : s.secondary with
        | running => rw [hplace] at hle; exact absurd hle (by decide)
        | storeResult => rw [hplace] at hle; exact absurd hle (by decide)
        | storeState => exact h.result hplace
        | off => exact absurd hplace h.secondary }
  number := rfl
  primary := h.primary

namespace Schedule

variable (e : Schedule cpuId testNum invalid result s₀)

/-- The accesses of one more turn. -/
theorem accesses_succ (n : ℕ) :
    e.accesses (n + 1) = e.accesses n + if e.label n = .primary then 1 else 0 :=
  Nat.count_succ ..

/-- The secondary CPU moves on with its own steps only. -/
theorem remaining_eq (n : ℕ) :
    (e.state n).secondary.remaining = s₀.secondary.remaining - e.progress n := by
  induction n with
  | zero => rw [e.start]; rfl
  | succ n ih =>
    have hcount : e.progress (n + 1) = e.progress n + if e.label n = .secondary then 1 else 0 :=
      Nat.count_succ ..
    rw [← e.step n, hcount]
    cases e.label n with
    | primary =>
      simp only [turn, secondary_primaryStep, reduceCtorEq, if_false, Nat.add_zero]
      exact ih
    | secondary =>
      simp only [turn, remaining_secondaryStep, if_true, ih]
      omega
    | tick =>
      simp only [turn, reduceCtorEq, if_false, Nat.add_zero]
      exact ih

/-- Up to the third access. The induction is on the moment. -/
theorem early (hcalled : s₀.Called cpuId result) (n : ℕ) (hn : e.accesses n ≤ 2) :
    (e.state n).Early cpuId testNum result s₀.mem.currentTestNum (e.accesses n) := by
  induction n with
  | zero =>
    rw [e.start]
    exact hcalled.early
  | succ n ih =>
    rw [accesses_succ] at hn ⊢
    have hearly := ih (by omega)
    rw [← e.step n]
    cases hlabel : e.label n with
    | primary =>
      rw [hlabel, if_pos rfl] at hn
      exact hearly.primaryStep (by omega)
    | secondary =>
      exact ⟨hearly.pending.secondaryStep, (currentTestNum_secondaryStep _).trans hearly.number,
        (primary_secondaryStep _).trans hearly.primary⟩
    | tick => exact ⟨⟨hearly.pending.state, hearly.pending.result⟩, hearly.number, hearly.primary⟩

end Schedule

/-! ## From the third access on -/

/-- No turn moves a call that has ended. -/
theorem primary_turn_of_halted {s : Pes} (h : s.primary.halted = true) (l : Turn) :
    (turn cpuId testNum invalid result l s).primary = s.primary := by
  cases l with
  | primary =>
    cases hplace : s.primary <;> rw [hplace] at h <;> first
      | cases h; done
      | simp only [turn, primaryStep, hplace]
  | secondary => exact primary_secondaryStep s
  | tick => rfl

/-- After the state was found `COMPLETE`: the secondary CPU is off, and the primary returns its result
and resets its state and result on the way. -/
def Pes.Finishing (cpuId invalid result : ℕ) (s : Pes) : Prop :=
  s.secondary = .off ∧
    match s.primary with
    | .readResult => s.mem.otherPeTestResult cpuId = result
    | .resetState status => status = result
    | .resetResult status => status = result ∧ s.mem.otherPeTestState cpuId = valMpStateWait
    | .returned status => status = result ∧ s.mem.otherPeTestState cpuId = valMpStateWait ∧
        s.mem.otherPeTestResult cpuId = invalid
    | _ => False

/-- The accesses that are left after the state was found `COMPLETE`. -/
def Primary.left : Primary → ℕ
  | .readResult => 3
  | .resetState _ => 2
  | .resetResult _ => 1
  | _ => 0

/-- The secondary CPU does nothing once it is off. -/
theorem secondaryStep_of_off {s : Pes} (h : s.secondary = .off) : secondaryStep cpuId result s = s := by
  rw [secondaryStep, h]

/-- Each access of the primary CPU brings a call that has seen `COMPLETE` nearer to its end. -/
theorem Pes.Finishing.turn {s : Pes} (h : s.Finishing cpuId invalid result) (testNum : ℕ) (l : Turn) :
    (turn cpuId testNum invalid result l s).Finishing cpuId invalid result ∧
      (Dispatch.turn cpuId testNum invalid result l s).primary.left =
        s.primary.left - if l = .primary then 1 else 0 := by
  cases l with
  | primary =>
    obtain ⟨hoff, hplace⟩ := h
    simp only [Dispatch.turn, primaryStep, if_true]
    cases hprimary : s.primary <;> rw [hprimary] at hplace <;> simp only at hplace
    case readResult => exact ⟨⟨hoff, hplace⟩, rfl⟩
    case resetState => exact ⟨⟨hoff, hplace, Function.update_self ..⟩, rfl⟩
    case resetResult => exact ⟨⟨hoff, hplace.1, hplace.2, Function.update_self ..⟩, rfl⟩
    case returned => exact ⟨⟨hoff, by rw [hprimary]; exact hplace⟩, by rw [hprimary]; rfl⟩
  | secondary =>
    simp only [Dispatch.turn, secondaryStep_of_off h.1]
    exact ⟨h, rfl⟩
  | tick => exact ⟨h, rfl⟩

/-- The third access finds `COMPLETE` exactly if the secondary CPU is done. -/
theorem Pes.Early.third {s : Pes} (h : s.Early cpuId testNum result testNum 2) (invalid : ℕ) :
    if s.secondary.remaining = 0 then
      (Dispatch.primaryStep cpuId testNum invalid s).Finishing cpuId invalid result
    else (Dispatch.primaryStep cpuId testNum invalid s).primary = .incomplete := by
  have hplace : s.primary = .readState := h.primary.trans (if_neg (by simp))
  have hstate := h.pending.state
  by_cases hoff : s.secondary = .off
  · rw [if_pos hoff] at hstate
    simp only [hoff, Secondary.remaining, if_true, Dispatch.primaryStep, hplace, hstate]
    exact ⟨rfl, h.pending.result (by rw [hoff]; decide)⟩
  · have hleft : s.secondary.remaining ≠ 0 := by
      cases hsecondary : s.secondary <;> first | exact absurd hsecondary hoff | decide
    rw [if_neg hoff] at hstate
    rw [if_neg hleft]
    simp only [Dispatch.primaryStep, hplace, hstate]
    rw [if_neg (by decide)]

namespace Schedule

variable (e : Schedule cpuId testNum invalid result s₀)

/-- A call that has ended stays so for ever. -/
theorem halted_stays {n : ℕ} (h : (e.state n).primary.halted = true) (k : ℕ) :
    (e.state (n + k)).primary = (e.state n).primary := by
  induction k with
  | zero => rfl
  | succ k ih =>
    rw [← Nat.add_assoc, ← e.step (n + k), primary_turn_of_halted (by rw [ih]; exact h), ih]

/-- A call that has seen `COMPLETE` goes on to return the result. -/
theorem finishing_stays {n : ℕ} (h : (e.state n).Finishing cpuId invalid result) (k : ℕ) :
    (e.state (n + k)).Finishing cpuId invalid result := by
  induction k with
  | zero => exact h
  | succ k ih =>
    rw [← Nat.add_assoc, ← e.step (n + k)]
    exact (ih.turn testNum _).1

variable {e}

/-- The primary CPU finishes if it gets its turns. -/
theorem returns_of_finishing (hfair : ∀ n, ∃ m, n ≤ m ∧ e.label m = .primary) {n : ℕ}
    (h : (e.state n).Finishing cpuId invalid result) : e.Returns := by
  have hwf : e.Fair (fun (_ : Unit) _ => True) (fun l => if l = .primary then some () else none) := by
    intro _ n _
    obtain ⟨m, hle, hlabel⟩ := hfair n
    exact ⟨m, hle, if_pos hlabel⟩
  obtain ⟨m, -, hfinishing, hdone⟩ := hwf.leads ()
    (fun s => s.Finishing cpuId invalid result)
    (fun s => s.Finishing cpuId invalid result ∧ s.primary.left = 0)
    (fun s => s.primary.left) (fun _ _ => trivial)
    (fun k hk => by
      have hnext := hk.turn testNum (e.label k)
      rw [e.step k] at hnext
      by_cases hzero : (e.state (k + 1)).primary.left = 0
      · exact Or.inl ⟨hnext.1, hzero⟩
      · refine Or.inr ⟨hnext.1, by rw [hnext.2]; omega, fun hlabel => ?_⟩
        have hprimary : e.label k = .primary := by
          by_contra hne
          rw [if_neg hne] at hlabel
          cases hlabel
        rw [hnext.2, if_pos hprimary] at hzero ⊢
        omega) n h
  have hplace := hfinishing.2
  cases hprimary : (e.state m).primary <;> rw [hprimary] at hplace hdone <;>
    simp only [Primary.left, reduceCtorEq] at hplace hdone
  case returned status => exact ⟨m, hplace.1 ▸ hprimary, hplace.2⟩

/-- The moment of the third access. -/
theorem exists_third (hfair : ∀ n, ∃ m, n ≤ m ∧ e.label m = .primary) :
    ∃ n, e.label n = .primary ∧ e.accesses n = 2 := by
  have hinfinite : (Set.ofPred fun k => e.label k = .primary).Infinite :=
    Nat.frequently_atTop_iff_infinite.mp (Filter.frequently_atTop.mpr hfair)
  exact ⟨_, Nat.nth_mem_of_infinite hinfinite 2, Nat.count_nth_of_infinite hinfinite 2⟩

/-- The number of accesses does not go down. -/
theorem accesses_le (e : Schedule cpuId testNum invalid result s₀) {m n : ℕ} (h : m ≤ n) :
    e.accesses m ≤ e.accesses n := Nat.count_monotone _ h

/-- Up to the third access the call has neither returned nor reported anything. -/
theorem primary_before_third (hcalled : s₀.Called cpuId result) {n : ℕ} (hn : e.accesses n ≤ 2) :
    (∀ v, (e.state n).primary ≠ .returned v) ∧ (e.state n).primary ≠ .incomplete := by
  rw [(e.early hcalled n hn).primary]
  exact ⟨fun v => Primary.after_ne_of_halted rfl (by simp) _ _ _,
    Primary.after_ne_of_halted rfl (by simp) _ _ _⟩

/-- A call that has halted elsewhere does not return. -/
theorem not_returns_of_halted (hcalled : s₀.Called cpuId result) {n : ℕ}
    (hbefore : ∀ m < n, e.accesses m ≤ 2) (hhalted : (e.state n).primary.halted = true)
    (hne : ∀ v, (e.state n).primary ≠ .returned v) : ¬ e.Returns := by
  rintro ⟨m, hreturned, -⟩
  rcases Nat.lt_or_ge m n with hlt | hge
  · exact (primary_before_third hcalled (hbefore m hlt)).1 _ hreturned
  · obtain ⟨k, rfl⟩ := Nat.exists_eq_add_of_le hge
    rw [e.halted_stays hhalted k] at hreturned
    exact hne _ hreturned

section Third

variable {n : ℕ} (hcalled : s₀.Called cpuId result) (hlabel : e.label n = .primary)
  (hthird : e.accesses n = 2)

include hcalled hthird

/-- With a wrong test number the call ends in its first panic. -/
theorem not_returns_of_number (hnumber : s₀.mem.currentTestNum ≠ testNum) : ¬ e.Returns := by
  have hplace : (e.state n).primary = .inconsistent := by
    rw [(e.early hcalled n hthird.le).primary, hthird]
    exact if_pos hnumber
  apply not_returns_of_halted hcalled (n := n)
  · exact fun m hm => (e.accesses_le hm.le).trans hthird.le
  · rw [hplace]; rfl
  · simp [hplace]

include hlabel

/-- The third access decides: the call sees `COMPLETE`, or reports that the test is incomplete. -/
theorem third_turn (hnumber : s₀.mem.currentTestNum = testNum) :
    if s₀.secondary.remaining ≤ e.progress n then
      (e.state (n + 1)).Finishing cpuId invalid result
    else (e.state (n + 1)).primary = .incomplete := by
  have hearly := e.early hcalled n hthird.le
  rw [hthird, hnumber] at hearly
  have houtcome := hearly.third invalid
  simp only [e.remaining_eq n, Nat.sub_eq_zero_iff_le] at houtcome
  rw [← e.step n, hlabel]
  exact houtcome

/-- A call that has not seen `COMPLETE` at its third access does not return the result. -/
theorem not_returns_of_late (hnumber : s₀.mem.currentTestNum = testNum)
    (hlate : ¬ s₀.secondary.remaining ≤ e.progress n) : ¬ e.Returns := by
  have hplace := third_turn hcalled hlabel hthird hnumber
  rw [if_neg hlate] at hplace
  apply not_returns_of_halted hcalled (n := n + 1)
  · exact fun m hm => (e.accesses_le (Nat.le_of_lt_succ hm)).trans hthird.le
  · rw [hplace]; rfl
  · simp [hplace]

/-- A call that has seen `COMPLETE` at its third access does not report an incomplete test. -/
theorem not_reports_of_complete (hnumber : s₀.mem.currentTestNum = testNum)
    (hcomplete : s₀.secondary.remaining ≤ e.progress n) : ¬ e.Reports := by
  rintro ⟨m, hincomplete⟩
  rcases Nat.lt_or_ge n m with hlt | hge
  · obtain ⟨k, rfl⟩ := Nat.exists_eq_add_of_le (Nat.succ_le_of_lt hlt)
    have hfinishing := third_turn hcalled hlabel hthird hnumber
    rw [if_pos hcomplete] at hfinishing
    have hplace := (e.finishing_stays hfinishing k).2
    rw [hincomplete] at hplace
    exact hplace
  · exact (primary_before_third hcalled ((e.accesses_le hge).trans hthird.le)).2 hincomplete

end Third

end Schedule

/-- Under every schedule that gives the primary CPU its turns, the call waits for the test as it should
exactly if the test is not complete in time, or the test number is the current one and the test is
complete when the call makes its third access. -/
theorem multi_pe_status_iff_complete_at_third (cpuId testNum invalid result : ℕ) (s₀ : Pes)
    (hcalled : s₀.Called cpuId result) (e : Schedule cpuId testNum invalid result s₀)
    (hfair : ∀ n, ∃ m, n ≤ m ∧ e.label m = .primary) :
    ((e.InTime → e.Returns) ∧ (e.Reports → ¬ e.InTime)) ↔
      ¬ e.InTime ∨ (s₀.mem.currentTestNum = testNum ∧ e.CompleteAtThird) := by
  obtain ⟨n, hlabel, hthird⟩ := Schedule.exists_third hfair
  constructor
  · rintro ⟨hreturns, -⟩
    by_cases htime : e.InTime
    · have hreturn := hreturns htime
      have hnumber : s₀.mem.currentTestNum = testNum := by
        by_contra hne
        exact Schedule.not_returns_of_number hcalled hthird hne hreturn
      refine Or.inr ⟨hnumber, n, hlabel, hthird, ?_⟩
      by_contra hlate
      exact Schedule.not_returns_of_late hcalled hlabel hthird hnumber hlate hreturn
    · exact Or.inl htime
  · rintro (htime | ⟨hnumber, m, hm, hcount, hcomplete⟩)
    · exact ⟨fun h => absurd h htime, fun _ => htime⟩
    · have hfinishing := Schedule.third_turn hcalled hm hcount hnumber
      rw [if_pos hcomplete] at hfinishing
      refine ⟨fun _ => Schedule.returns_of_finishing hfair hfinishing, fun hreports => ?_⟩
      exact absurd hreports (Schedule.not_reports_of_complete hcalled hm hcount hnumber hcomplete)

/-- A call for the current test of CPU 1 while the test is running. -/
def calledWhileRunning : Pes :=
  ⟨⟨7, fun _ => valMpStateInprogress, fun _ => 0⟩, .readTestNum, .running, 0⟩

/-- The call starts while the secondary CPU runs its test. -/
theorem calledWhileRunning_called : calledWhileRunning.Called 1 4 where
  primary := rfl
  state := rfl
  secondary := by decide
  result := by decide
  clock := rfl

/-- The test is complete as soon as the primary CPU has made its first accesses. -/
def oneMillisecond : Schedule 1 7 0xFF 4 calledWhileRunning :=
  .ofSchedule _ (fun n => if n < 3 then .primary else if n = 3 then .tick
    else if n < 7 then .secondary else .primary) _

/-- One millisecond after the call the test is complete, but the call has reported it incomplete. -/
theorem multi_pe_status_not_waited :
    ¬ ((oneMillisecond.InTime → oneMillisecond.Returns) ∧
      (oneMillisecond.Reports → ¬ oneMillisecond.InTime)) := by
  rintro ⟨-, hreports⟩
  exact hreports ⟨3, rfl⟩ ⟨7, rfl, by decide⟩

/-- The test is complete when the primary CPU reads the state for the second time. -/
def betweenReads : Schedule 1 7 0xFF 4 calledWhileRunning :=
  .ofSchedule _ (fun n => if n < 2 then .primary else if n < 5 then .secondary else .primary) _

/-- With this schedule the call returns the result. -/
theorem multi_pe_status_waited :
    (betweenReads.InTime → betweenReads.Returns) ∧ (betweenReads.Reports → ¬ betweenReads.InTime) := by
  refine (multi_pe_status_iff_complete_at_third 1 7 0xFF 4 calledWhileRunning
    calledWhileRunning_called betweenReads fun n => ⟨n + 5, by omega, ?_⟩).mpr
    (Or.inr ⟨rfl, 5, rfl, by decide, by decide⟩)
  change (if n + 5 < 2 then Turn.primary else if n + 5 < 5 then .secondary else .primary) = .primary
  rw [if_neg (by omega), if_neg (by omega)]

end FfaAcs.Dispatch
