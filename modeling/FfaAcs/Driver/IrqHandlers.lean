import FfaAcs.Driver.GicRouting

/-!
# The tables of interrupt handlers

A handler is registered for an interrupt number. The handlers of the shared interrupts are in one table,
and those of the private ones in a table for each core. Together they are a partial map: from the number
for a shared interrupt, and from the core and the number for a private one.

An update asserts that the entry is in the expected state before it tests it. A failed assertion does
not return, so the error that the test leads to is never returned. An update of a shared entry holds a
lock, and a private entry belongs to one core, so that a call is one step.
-/

namespace FfaAcs.Driver

open Machine

namespace Irq

/-- `IS_PLAT_SPI`. -/
def IsPlatSpi (irqNum : ℕ) : Prop := 32 ≤ irqNum ∧ irqNum ≤ 32 + 107

/-- `IS_PPI`. -/
def IsPpi (irqNum : ℕ) : Prop := 16 ≤ irqNum ∧ irqNum ≤ 31

/-- `GIC_SPURIOUS_INTERRUPT`. -/
def gicSpuriousInterrupt : ℕ := 1023

instance (irqNum : ℕ) : Decidable (IsPlatSpi irqNum) := inferInstanceAs (Decidable (_ ∧ _))

instance (irqNum : ℕ) : Decidable (IsPpi irqNum) := inferInstanceAs (Decidable (_ ∧ _))

/-- The entries of `spi_desc_table`, `ppi_desc_table` and `sgi_desc_table`, and `spurious_desc_handler`. -/
inductive Entry
  | spi (i : ℕ)
  | ppi (core i : ℕ)
  | sgi (core i : ℕ)
  | spurious
deriving DecidableEq, Repr

/-- The handlers in the tables. An entry that is `NULL` is `none`. -/
abbrev Tables (H : Type) := Entry → Option H

/-- `get_irq_handler`. It fails when the assertion does or when the core has no table. -/
def getIrqHandler (mpidr irqNum : ℕ) : Option Entry :=
  if IsPlatSpi irqNum then some (.spi (irqNum - 32))
  else
    let linearId := platformGetCorePos (wrap32 mpidr)
    if IsPpi irqNum then
      if linearId < platformNoOfCpus then some (.ppi linearId (irqNum - 16)) else none
    else if IsSgi irqNum then
      if linearId < platformNoOfCpus then some (.sgi linearId (irqNum - 0)) else none
    else if irqNum = gicSpuriousInterrupt then some .spurious
    else none

section

variable {H : Type}

/-- `HANDLER_VALID`. -/
def handlerValid (handler : Option H) (expectHandler : Bool) : Bool :=
  if expectHandler then handler.isSome else handler.isNone

/-- `pal_irq_update_handler` on the core with the identifier. -/
def palIrqUpdateHandler (mpidr : ℕ) (t : Tables H) (irqNum : ℕ) (irqHandler : Option H)
    (expectHandler : Bool) : Option (ℤ × Tables H) := do
  let curHandler ← getIrqHandler mpidr irqNum
  if !handlerValid (t curHandler) expectHandler then none
  else if handlerValid (t curHandler) expectHandler then
    some (0, Function.update t curHandler irqHandler)
  else some (-1, t)

/-- `pal_irq_register_handler`. -/
def palIrqRegisterHandler (mpidr : ℕ) (t : Tables H) (irqNum : ℕ) (irqHandler : Option H) :
    Option (ℤ × Tables H) :=
  palIrqUpdateHandler mpidr t irqNum irqHandler false

/-- `pal_irq_unregister_handler`. -/
def palIrqUnregisterHandler (mpidr : ℕ) (t : Tables H) (irqNum : ℕ) : Option (ℤ × Tables H) :=
  palIrqUpdateHandler mpidr t irqNum none true

/-- The tables after `pal_irq_setup`. -/
def palIrqSetup : Tables H := fun _ => none

end

/-! ## The partial map -/

/-- An interrupt that may have a handler: an SGI, a PPI or an SPI of the platform. -/
def Managed (irqNum : ℕ) : Prop := IsSgi irqNum ∨ IsPpi irqNum ∨ IsPlatSpi irqNum

instance (irqNum : ℕ) : Decidable (Managed irqNum) := inferInstanceAs (Decidable (_ ∨ _))

/-- What a handler is registered for. -/
inductive Key
  | everyCore (irqNum : ℕ)
  | oneCore (core : Fin platformNoOfCpus) (irqNum : ℕ)
deriving DecidableEq

/-- The key of an interrupt on a core. -/
def key (p : Fin platformNoOfCpus) (irqNum : ℕ) : Key :=
  if IsPlatSpi irqNum then .everyCore irqNum else .oneCore p irqNum

/-- A call on a core: a handler is registered, or the one there is unregistered. -/
structure Call (H : Type) where
  core : Fin platformNoOfCpus
  irqNum : ℕ
  managed : Managed irqNum
  handler : Option H

section

variable {H : Type}

/-- What a call is to return and to leave in the map. A handler is registered for a key without one, and
unregistered from a key with one. -/
def update (map : Key → Option H) (c : Call H) : ℤ × (Key → Option H) :=
  if c.handler.isSome = (map (key c.core c.irqNum)).isNone then
    (0, Function.update map (key c.core c.irqNum) c.handler)
  else (-1, map)

/-- What calls are to return, in order, and to leave in the map. -/
def updates : (Key → Option H) → List (Call H) → List ℤ × (Key → Option H)
  | map, [] => ([], map)
  | map, c :: cs =>
    let rest := updates (update map c).2 cs
    ((update map c).1 :: rest.1, rest.2)

variable (cores : Cores)

/-- A call of one of the two functions. -/
def call (t : Tables H) (c : Call H) : Option (ℤ × Tables H) :=
  match c.handler with
  | some handler => palIrqRegisterHandler (cores.mpidr c.core) t c.irqNum (some handler)
  | none => palIrqUnregisterHandler (cores.mpidr c.core) t c.irqNum

/-- Calls in order, with what they return. -/
def calls : Tables H → List (Call H) → Option (List ℤ × Tables H)
  | t, [] => some ([], t)
  | t, c :: cs => do
    let (r, t) ← call cores t c
    let (rs, t) ← calls t cs
    some (r :: rs, t)

end

/-! ## The entry of a key -/

/-- The entry of an interrupt on a core. -/
def entry (p : Fin platformNoOfCpus) (irqNum : ℕ) : Entry :=
  if IsPlatSpi irqNum then .spi (irqNum - 32)
  else if IsPpi irqNum then .ppi p (irqNum - 16)
  else .sgi p irqNum

/-- The position of a core is found from the low word of its identifier. -/
theorem platformGetCorePos_wrap32 (x : ℕ) : platformGetCorePos (wrap32 x) = platformGetCorePos x := by
  have hthreads : wrap32 x &&& (1 <<< 24) = x &&& (1 <<< 24) := by
    rw [wrap32, ← Nat.and_two_pow_sub_one_eq_mod, Nat.and_assoc]
    congr 1
  rw [platformGetCorePos, platformGetCorePos, hthreads]
  -- the three levels are bytes below bit 24
  split_ifs <;> simp only [V3.mpidrAffId_eq, wrap32, wrap64, Nat.shiftLeft_eq] <;> omega

/-- Every core finds the entry of an interrupt that may have a handler. -/
theorem getIrqHandler_eq (cores : Cores) (p : Fin platformNoOfCpus) {irqNum : ℕ} (h : Managed irqNum) :
    getIrqHandler (cores.mpidr p) irqNum = some (entry p irqNum) := by
  have hpos : platformGetCorePos (wrap32 (cores.mpidr p)) = p :=
    (platformGetCorePos_wrap32 _).trans (cores.pos p)
  simp only [getIrqHandler, entry, hpos, p.isLt, if_true, Nat.sub_zero]
  split_ifs with hspi hppi hsgi hspurious
  · rfl
  · rfl
  · rfl
  · exact absurd h (by simp [Managed, hspi, hppi, hsgi])
  · exact absurd h (by simp [Managed, hspi, hppi, hsgi])

/-- Two interrupts have one entry when they have one key. -/
theorem entry_eq_iff {p q : Fin platformNoOfCpus} {i j : ℕ} :
    entry p i = entry q j ↔ key p i = key q j := by
  -- with the kinds of both interrupts known, equal offsets are equal numbers
  rw [entry, entry, key, key]
  split_ifs <;> simp only [Entry.spi.injEq, Entry.ppi.injEq, Entry.sgi.injEq, Key.everyCore.injEq,
    Key.oneCore.injEq, Fin.ext_iff, false_iff, IsPlatSpi, IsPpi] at * <;> omega

/-! ## Calls against the map -/

section

variable {H : Type} {t : Tables H} {map : Key → Option H}

/-- The tables hold the map. -/
def Holds (t : Tables H) (map : Key → Option H) : Prop :=
  ∀ p irqNum, Managed irqNum → t (entry p irqNum) = map (key p irqNum)

/-- A call that is to succeed does, and a call that is to fail does not return. -/
theorem Holds.call (h : Holds t map) (cores : Cores) (c : Call H) :
    (Irq.call cores t c = none ∧ (update map c).1 = -1) ∨
      ∃ t', Irq.call cores t c = some (0, t') ∧ (update map c).1 = 0 ∧ Holds t' (update map c).2 := by
  have hentry := getIrqHandler_eq cores c.core c.managed
  have hstate := h c.core c.irqNum c.managed
  have hset (handler : Option H) :
      Holds (Function.update t (entry c.core c.irqNum) handler)
        (Function.update map (key c.core c.irqNum) handler) := by
    intro p irqNum hmanaged
    by_cases hsame : entry p irqNum = entry c.core c.irqNum
    · rw [hsame, entry_eq_iff.mp hsame, Function.update_self, Function.update_self]
    · rw [Function.update_of_ne hsame, Function.update_of_ne (mt entry_eq_iff.mpr hsame),
        h p irqNum hmanaged]
  cases hhandler : c.handler <;> cases hcur : map (key c.core c.irqNum) <;>
    simp [Irq.call, palIrqRegisterHandler, palIrqUnregisterHandler, palIrqUpdateHandler, handlerValid,
      update, hhandler, hentry, hstate, hcur, hset]

/-- Calls return and leave what they are to, exactly when none of them is to fail. -/
theorem Holds.calls_iff (h : Holds t map) (cores : Cores) (cs : List (Call H)) :
    (∃ t', Irq.calls cores t cs = some ((updates map cs).1, t') ∧ Holds t' (updates map cs).2) ↔
      ∀ r ∈ (updates map cs).1, r = 0 := by
  induction cs generalizing t map with
  | nil => simpa [Irq.calls, updates] using h
  | cons c cs ih =>
    rw [updates, List.forall_mem_cons]
    rcases h.call cores c with ⟨hcall, hresult⟩ | ⟨next, hcall, hresult, hnext⟩
    · simp [Irq.calls, hcall, hresult]
    · rw [← ih hnext, hresult]
      simp only [Irq.calls, hcall, Option.bind_eq_bind, Option.bind_some, true_and]
      cases Irq.calls cores next cs with
      | none => simp
      | some out => simp [Prod.ext_iff]

end

/-- **From the setup on, calls return what the partial map says and leave what it says, exactly when the
map says of none of them that it fails.** -/
theorem handlers_partial_map_iff {H : Type} (cores : Cores) (cs : List (Call H)) :
    (∃ t', calls cores palIrqSetup cs = some ((updates (fun _ => none) cs).1, t') ∧
        Holds t' (updates (fun _ => none) cs).2) ↔
      ∀ r ∈ (updates (fun _ => none) cs).1, r = 0 :=
  Holds.calls_iff (fun _ _ _ => rfl) cores cs

/-- A handler for the first shared interrupt of the platform. -/
def registerFirst : Call Unit := ⟨firstCore, 32, by decide, some ()⟩

/-- The second of two registrations for one interrupt is to return an error and does not return. -/
theorem handlers_registered_twice :
    (updates (fun _ => none) [registerFirst, registerFirst]).1 = [0, -1] ∧
      calls eightCores palIrqSetup [registerFirst] ≠ none ∧
      calls eightCores palIrqSetup [registerFirst, registerFirst] = none := by
  decide

end Irq

end FfaAcs.Driver
