import FfaAcs.Machine.Fields
import FfaAcs.Machine.WordArithmetic

/-!
# The generic timer of the application processor

The driver programs the physical and the virtual timer of one frame of registers in the same way. It
reads the counter, adds the ticks of the timeout and writes the sum to the compare register. The counter
is read as 32 bits, and the ticks are a 32-bit product, so both are cut before they are added in 64 bits.

The registers are bytes of memory. The counter is read once in a call, and the bytes of the counter are
those it has at that time.
-/

namespace FfaAcs.Driver

open Machine

namespace RefclkTimer

/-- `AP_REFCLK_BASE`. -/
def apRefclkBase : ℕ := 0x2A830000

/-- `AP_REFCLK_CNT_CTL_ENABLE`. -/
def cntCtlEnable : ℕ := 1 <<< 0

/-- `AP_REFCLK_CNT_CTL_IMASK`. -/
def cntCtlImask : ℕ := 1 <<< 1

/-- The two timers of the frame. -/
inductive Timer
  | physical
  | virtual
deriving DecidableEq, Repr

namespace Timer

/-- `AP_REFCLK_CNTPCT_OFF` and `AP_REFCLK_CNTVCT_0FF`. -/
def countOff : Timer → ℕ
  | physical => 0x000
  | virtual => 0x008

/-- `AP_REFCLK_CNTP_CVAL_OFF` and `AP_REFCLK_CNTV_CVAL_OFF`. -/
def cvalOff : Timer → ℕ
  | physical => 0x020
  | virtual => 0x030

/-- `AP_REFCLK_CNTP_CTL_OFF` and `AP_REFCLK_CNTV_CTL_OFF`. -/
def ctlOff : Timer → ℕ
  | physical => 0x02c
  | virtual => 0x03c

/-- The counter, a register of 64 bits. -/
def count (t : Timer) : Field := ⟨apRefclkBase + t.countOff, 8⟩

/-- The part of the counter that a 32-bit read returns. -/
def countLow (t : Timer) : Field := ⟨apRefclkBase + t.countOff, 4⟩

/-- The compare register. -/
def cval (t : Timer) : Field := ⟨apRefclkBase + t.cvalOff, 8⟩

/-- The control register. -/
def ctl (t : Timer) : Field := ⟨apRefclkBase + t.ctlOff, 4⟩

end Timer

/-- The frequency register, at `AP_REFCLK_CNTFRQ_OFF`. -/
def cntfrq : Field := ⟨apRefclkBase + 0x010, 4⟩

/-- `driver_ap_refclk_p_disable` and `driver_ap_refclk_v_disable`. -/
def disable (t : Timer) (m : ByteMemory) (intMask : Bool) : ByteMemory :=
  let ctl := t.ctl.get m
  t.ctl.set m <|
    if intMask then (ctl ||| cntCtlImask) &&& not32 cntCtlEnable
    else ctl &&& not32 (cntCtlEnable ||| cntCtlImask)

/-- `driver_ap_refclk_p_disable`. -/
def driverApRefclkPDisable : ByteMemory → Bool → ByteMemory := disable .physical

/-- `driver_ap_refclk_v_disable`. -/
def driverApRefclkVDisable : ByteMemory → Bool → ByteMemory := disable .virtual

/-- The two functions that set a timer. A failed `assert` does not return. -/
def set (t : Timer) (m : ByteMemory) (usTimeout : ℕ) (irqEnable : Bool) : Option ByteMemory :=
  let m := disable t m false
  let freq := cntfrq.get m / 1000000
  if freq = 0 then none
  else
    let cval := wrap64 (t.countLow.get m + wrap32 (freq * usTimeout))
    let m := t.cval.set m cval
    let ctl := t.ctl.get m
    let ctl := if irqEnable then ctl &&& not32 cntCtlImask else ctl ||| cntCtlImask
    some (t.ctl.set m (ctl ||| cntCtlEnable))

/-- `driver_ap_refclk_p_set`. -/
def driverApRefclkPSet : ByteMemory → ℕ → Bool → Option ByteMemory := set .physical

/-- `driver_ap_refclk_v_set`. -/
def driverApRefclkVSet : ByteMemory → ℕ → Bool → Option ByteMemory := set .virtual

/-! ## What a call programs -/

section

variable (t : Timer)

/-- The control and the compare register lie apart. -/
theorem ctl_disjoint_cval : t.ctl.Disjoint t.cval := by cases t <;> decide

/-- The control and the frequency register lie apart. -/
theorem ctl_disjoint_cntfrq : t.ctl.Disjoint cntfrq := by cases t <;> decide

/-- The control register and the counter lie apart. -/
theorem ctl_disjoint_countLow : t.ctl.Disjoint t.countLow := by cases t <;> decide

/-- The ticks of a timeout, as a product without a width. -/
def ticks (m : ByteMemory) (usTimeout : ℕ) : ℕ := cntfrq.get m / 1000000 * usTimeout

variable {t} {m m' : ByteMemory} {usTimeout : ℕ}

/-- Disabling a timer changes neither the frequency nor the counter. -/
theorem disable_get (intMask : Bool) :
    cntfrq.get (disable t m intMask) = cntfrq.get m ∧
      t.countLow.get (disable t m intMask) = t.countLow.get m :=
  ⟨Field.get_set_disjoint (ctl_disjoint_cntfrq t) m _,
    Field.get_set_disjoint (ctl_disjoint_countLow t) m _⟩

/-- Two words that are cut to 32 bits have a sum that fits in 64. -/
theorem sum_of_words (x y : ℕ) :
    wrap64 (x % 2 ^ 32 + wrap32 y) % 256 ^ 8 = x % 2 ^ 32 + y % 2 ^ 32 := by
  rw [wrap64, wrap32]
  omega

/-- From 1 MHz on the call returns, and the compare register has the sum of the low word of the counter
and the low word of the ticks. -/
theorem set_eq (hfreq : 1000000 ≤ cntfrq.get m) (usTimeout : ℕ) (irqEnable : Bool) :
    ∃ m', set t m usTimeout irqEnable = some m' ∧
      t.cval.get m' = t.count.get m % 2 ^ 32 + ticks m usTimeout % 2 ^ 32 := by
  obtain ⟨hfrq, hcount⟩ := disable_get (t := t) (m := m) false
  have hlow : t.countLow.get m = t.count.get m % 2 ^ 32 := (m.load_mod _ 4 4).symm
  have hpositive : cntfrq.get m / 1000000 ≠ 0 := by omega
  simp only [set, hfrq, if_neg hpositive]
  refine ⟨_, rfl, ?_⟩
  rw [Field.get_set_disjoint (ctl_disjoint_cval t), Field.get_set_same, hcount, hlow]
  -- the sum of two 32-bit words fits
  exact sum_of_words _ _

/-- The timer fires when it is enabled and the counter has reached the compare value. -/
def Fires (t : Timer) (m : ByteMemory) (now : ℕ) : Prop :=
  t.ctl.get m &&& cntCtlEnable ≠ 0 ∧ t.cval.get m ≤ now

instance (t : Timer) (m : ByteMemory) (now : ℕ) : Decidable (Fires t m now) :=
  inferInstanceAs (Decidable (_ ∧ _))

/-- A value without these bits does not have one of them. -/
theorem land_not32_land {x bits bit : ℕ} (hbit : not32 bits &&& bit = 0) : x &&& not32 bits &&& bit = 0 := by
  rw [Nat.and_assoc, hbit, Nat.and_zero]

/-- A timer that has been disabled does not fire. -/
theorem disable_stops (t : Timer) (m : ByteMemory) (intMask : Bool) (now : ℕ) :
    ¬Fires t (disable t m intMask) now := by
  rintro ⟨henabled, -⟩
  have hwidth (x bits : ℕ) : x &&& not32 bits < 256 ^ t.ctl.width := by
    refine lt_of_le_of_lt Nat.and_le_right ?_
    change 2 ^ 32 - 1 - bits < 256 ^ 4
    omega
  refine henabled ?_
  rw [disable, Field.get_set_same]
  cases intMask with
  | false =>
    rw [if_neg Bool.false_ne_true, Nat.mod_eq_of_lt (hwidth _ _)]
    exact land_not32_land (by decide)
  | true =>
    rw [if_pos rfl, Nat.mod_eq_of_lt (hwidth _ _)]
    exact land_not32_land (by decide)

/-- Both functions that disable a timer stop it, with its interrupt masked or not. -/
theorem driverApRefclkDisable_stops (m : ByteMemory) (intMask : Bool) (now : ℕ) :
    ¬Fires .physical (driverApRefclkPDisable m intMask) now ∧
      ¬Fires .virtual (driverApRefclkVDisable m intMask) now :=
  ⟨disable_stops .physical m intMask now, disable_stops .virtual m intMask now⟩

/-- The registers are programmed for a timeout: the compare value is the counter and the ticks together,
and, unless the counter itself wraps on the way, the timer does not fire before it has counted them. -/
structure Programmed (t : Timer) (m m' : ByteMemory) (usTimeout : ℕ) : Prop where
  cval : t.cval.get m' = (t.count.get m + ticks m usTimeout) % 2 ^ 64
  fires : t.count.get m + ticks m usTimeout < 2 ^ 64 → ∀ now, Fires t m' now →
    t.count.get m + ticks m usTimeout ≤ now

/-- The high words that the call drops from the counter and from the ticks add up to nothing. -/
def HighWordsCancel (t : Timer) (m : ByteMemory) (usTimeout : ℕ) : Prop :=
  (t.count.get m / 2 ^ 32 + ticks m usTimeout / 2 ^ 32) % 2 ^ 32 = 0

instance (t : Timer) (m : ByteMemory) (usTimeout : ℕ) : Decidable (HighWordsCancel t m usTimeout) :=
  inferInstanceAs (Decidable (_ = _))

/-- The compare value decides when the timer fires. -/
theorem programmed_iff :
    Programmed t m m' usTimeout ↔ t.cval.get m' = (t.count.get m + ticks m usTimeout) % 2 ^ 64 := by
  refine ⟨Programmed.cval, fun hcval => ⟨hcval, fun hfits now hfires => ?_⟩⟩
  rw [← Nat.mod_eq_of_lt hfits, ← hcval]
  exact hfires.2

/-- A call programs the timeout exactly when the dropped words cancel. -/
theorem set_programmed_iff (hfreq : 1000000 ≤ cntfrq.get m) (irqEnable : Bool) :
    (∃ m', set t m usTimeout irqEnable = some m' ∧ Programmed t m m' usTimeout) ↔
      HighWordsCancel t m usTimeout := by
  obtain ⟨m', hset, hcval⟩ := set_eq (t := t) hfreq usTimeout irqEnable
  simp only [hset, Option.some.injEq, exists_eq_left', programmed_iff, hcval, HighWordsCancel]
  omega

end

/-- **From 1 MHz on, both functions program the counter and the ticks of the timeout exactly when the high
words of the two, which they drop, cancel.** -/
theorem driverApRefclkSet_iff {m : ByteMemory} (hfreq : 1000000 ≤ cntfrq.get m) (usTimeout : ℕ)
    (irqEnable : Bool) :
    ((∃ m', driverApRefclkPSet m usTimeout irqEnable = some m' ∧ Programmed .physical m m' usTimeout) ↔
        HighWordsCancel .physical m usTimeout) ∧
      ((∃ m', driverApRefclkVSet m usTimeout irqEnable = some m' ∧ Programmed .virtual m m' usTimeout) ↔
        HighWordsCancel .virtual m usTimeout) :=
  ⟨set_programmed_iff hfreq irqEnable, set_programmed_iff hfreq irqEnable⟩

/-- The registers at 1 MHz, with a value of the physical counter. -/
def oneMegahertz (count : ℕ) : ByteMemory :=
  Timer.physical.count.set (cntfrq.set (fun _ => 0) 1000000) count

/-- Five microseconds from the start of the counters. -/
theorem driverApRefclkSet_five :
    (∃ m', driverApRefclkPSet (oneMegahertz 0) 5 true = some m' ∧
        Programmed .physical (oneMegahertz 0) m' 5) ∧
      ∃ m', driverApRefclkVSet (oneMegahertz 0) 5 true = some m' ∧
        Programmed .virtual (oneMegahertz 0) m' 5 :=
  have hprogrammed := driverApRefclkSet_iff (m := oneMegahertz 0) (by decide) 5 true
  ⟨hprogrammed.1.mpr (by decide), hprogrammed.2.mpr (by decide)⟩

/-- With the counter at `2 ^ 32` the compare value for one microsecond is `1`, and the timer fires at
once. -/
theorem driverApRefclkPSet_fires_early :
    ∃ m', driverApRefclkPSet (oneMegahertz (2 ^ 32)) 1 true = some m' ∧
      ticks (oneMegahertz (2 ^ 32)) 1 = 1 ∧ Timer.physical.count.get (oneMegahertz (2 ^ 32)) = 2 ^ 32 ∧
      Timer.physical.cval.get m' = 1 ∧ Fires .physical m' (2 ^ 32) :=
  ⟨_, rfl, by decide, by decide, by decide, by decide⟩

end RefclkTimer

end FfaAcs.Driver
