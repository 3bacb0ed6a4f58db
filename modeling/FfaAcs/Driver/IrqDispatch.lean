import FfaAcs.Driver.IrqHandlers
import FfaAcs.Driver.TestEngine

/-!
# Serving an interrupt

`pal_irq_handler_dispatcher` acknowledges an interrupt, calls the handler that is registered for it and
writes the end of the interrupt. Without a handler it returns an error before that write.

A handler may register and unregister handlers, and may do something else each time it is called, so what
handlers do is given with each interrupt as any function of the tables. For a PPI or an SPI a handler has a
pointer to the variable with the interrupt number, which the dispatcher reads again afterwards, so it may
change that number as well. The writes below are those of the dispatcher.
-/

namespace FfaAcs.Driver.Irq

open Machine

/-- What handlers do, from the interrupt number and the tables: the tables and the number that they
leave. -/
abbrev Effect (H : Type) := H → ℕ → Tables H → Tables H × ℕ

/-- `IAR1_EL1_INTID_MASK`. -/
def iar1El1IntidMask : ℕ := 0xffffff

/-- `GICC_IAR_INTID_MASK`. -/
def giccIarIntidMask : ℕ := 0x3ff

/-- The value that `arm_gic_intr_ack` stores, from what the register reads. -/
def ackRawIar (gicv3Detected : Bool) (iar : ℕ) : ℕ :=
  if gicv3Detected then iar &&& iar1El1IntidMask else iar

/-- The interrupt number that `arm_gic_intr_ack` returns. -/
def ackIrqNum (gicv3Detected : Bool) (iar : ℕ) : ℕ :=
  if gicv3Detected then ackRawIar gicv3Detected iar
  else (ackRawIar gicv3Detected iar >>> 0) &&& giccIarIntidMask

section

variable {H : Type} (gicv3Detected : Bool)

/-- `pal_irq_handler_dispatcher` of the VM1 build: the tables it leaves, the values it writes to end an
interrupt, and what it returns. -/
def palIrqHandlerDispatcher (effect : Effect H) (mpidr iar : ℕ) (t : Tables H) :
    Option (Tables H × List ℕ × PalStatus) := do
  let rawIar := ackRawIar gicv3Detected iar
  let irqNum := ackIrqNum gicv3Detected iar
  let handler ← getIrqHandler mpidr irqNum
  match t handler with
  | none => some (t, [], .error)
  | some h =>
    let (t', written) := effect h irqNum t
    -- an SGI has a structure of its own, and a spurious interrupt no data
    let irqNum := if IsPlatSpi irqNum ∨ IsPpi irqNum then written else irqNum
    some (t', if irqNum ≠ gicSpuriousInterrupt then [rawIar] else [], .success)

variable (cores : Cores)

/-- An interrupt: the core that takes it, what its acknowledge register reads, and what handlers do this
time. -/
structure Interrupt (H : Type) where
  core : Fin platformNoOfCpus
  iar : ℕ
  effect : Effect H

/-- A call of the dispatcher that has returned. -/
structure Served (H : Type) where
  interrupt : Interrupt H
  before : Tables H
  eois : List ℕ
  status : PalStatus

/-- The calls for interrupts in order, up to one that does not return. -/
def serve : Tables H → List (Interrupt H) → List (Served H)
  | _, [] => []
  | t, i :: is =>
    match palIrqHandlerDispatcher gicv3Detected i.effect (cores.mpidr i.core) i.iar t with
    | none => []
    | some (t', eois, status) => ⟨i, t, eois, status⟩ :: serve t' is

/-- A handler is called for the interrupt, and leaves the number of a PPI or an SPI other than the spurious
one. -/
def Completed (v : Served H) : Prop :=
  let irqNum := ackIrqNum gicv3Detected v.interrupt.iar
  ∃ h, v.before (entry v.interrupt.core irqNum) = some h ∧
    (IsSgi irqNum ∨ (v.interrupt.effect h irqNum v.before).2 ≠ gicSpuriousInterrupt)

/-! ## One call and all calls -/

variable {gicv3Detected cores}

/-- What has been served is what the dispatcher returned. -/
theorem dispatcher_of_mem_serve {t : Tables H} {is : List (Interrupt H)} {v : Served H}
    (hv : v ∈ serve gicv3Detected cores t is) :
    ∃ t', palIrqHandlerDispatcher gicv3Detected v.interrupt.effect (cores.mpidr v.interrupt.core)
      v.interrupt.iar v.before = some (t', v.eois, v.status) := by
  induction is generalizing t with
  | nil => cases hv
  | cons i is ih =>
    rw [serve] at hv
    split at hv
    · cases hv
    · rename_i t' eois status hreturned
      rcases List.mem_cons.mp hv with rfl | hv
      · exact ⟨t', hreturned⟩
      · exact ih hv

/-- An interrupt that may have a handler is not spurious, and is of one kind. -/
theorem Managed.kind {irqNum : ℕ} (h : Managed irqNum) :
    irqNum ≠ gicSpuriousInterrupt ∧ (¬(IsPlatSpi irqNum ∨ IsPpi irqNum) ↔ IsSgi irqNum) := by
  unfold Managed IsPlatSpi IsPpi IsSgi at *
  rw [gicSpuriousInterrupt]
  omega

/-- A call for an interrupt that may have a handler returns. It ends the interrupt if there is a handler
and the interrupt is an SGI or its number is not made spurious. -/
theorem dispatcher_eq {effect : Effect H} {p : Fin platformNoOfCpus} {iar : ℕ} (t : Tables H)
    (hmanaged : Managed (ackIrqNum gicv3Detected iar)) :
    palIrqHandlerDispatcher gicv3Detected effect (cores.mpidr p) iar t =
      match t (entry p (ackIrqNum gicv3Detected iar)) with
      | none => some (t, [], .error)
      | some h => some ((effect h (ackIrqNum gicv3Detected iar) t).1,
          if IsSgi (ackIrqNum gicv3Detected iar) ∨
            (effect h (ackIrqNum gicv3Detected iar) t).2 ≠ gicSpuriousInterrupt
          then [ackRawIar gicv3Detected iar] else [], .success) := by
  obtain ⟨hspurious, hkind⟩ := hmanaged.kind
  simp only [palIrqHandlerDispatcher, getIrqHandler_eq cores p hmanaged, Option.bind_eq_bind,
    Option.bind_some]
  cases t (entry p (ackIrqNum gicv3Detected iar)) with
  | none => rfl
  | some h =>
    by_cases hsgi : IsSgi (ackIrqNum gicv3Detected iar)
    · simp [hsgi, hspurious, hkind.mpr hsgi]
    · simp [hsgi, not_not.mp (mt hkind.mp hsgi)]

/-- A call for an interrupt that may have a handler ends it once exactly when its handler completes. -/
theorem eois_iff_completed {t : Tables H} {is : List (Interrupt H)} {v : Served H}
    (hv : v ∈ serve gicv3Detected cores t is)
    (hmanaged : Managed (ackIrqNum gicv3Detected v.interrupt.iar)) :
    v.eois = [ackRawIar gicv3Detected v.interrupt.iar] ↔ Completed gicv3Detected v := by
  obtain ⟨t', hreturned⟩ := dispatcher_of_mem_serve hv
  rw [dispatcher_eq _ hmanaged] at hreturned
  simp only [Completed]
  cases hfound : v.before (entry v.interrupt.core (ackIrqNum gicv3Detected v.interrupt.iar)) with
  | none =>
    simp only [hfound, Option.some.injEq, Prod.mk.injEq] at hreturned
    simp [← hreturned.2.1]
  | some h =>
    simp only [hfound, Option.some.injEq, Prod.mk.injEq] at hreturned
    rw [← hreturned.2.1]
    simp only [Option.some.injEq, exists_eq_left']
    split_ifs with hends
    · exact iff_of_true rfl hends
    · exact iff_of_false not_false hends

end

/-- An interrupt that may have a handler has been acknowledged and has not been ended. -/
def LeftActive {H : Type} (gicv3Detected : Bool) (v : Served H) : Prop :=
  Managed (ackIrqNum gicv3Detected v.interrupt.iar) ∧
    ackRawIar gicv3Detected v.interrupt.iar ∉ v.eois

/-- **A call for an interrupt that may have a handler returns. Whatever the handlers do, all such calls end
their interrupt once, with the value that was read, and leave none active, exactly when each of them finds
a handler that leaves the number of a PPI or an SPI other than the spurious one.** -/
theorem dispatcher_ends_iff {H : Type} (gicv3Detected : Bool) (cores : Cores) (t : Tables H)
    (is : List (Interrupt H)) :
    (∀ (i : Interrupt H) (t : Tables H), Managed (ackIrqNum gicv3Detected i.iar) →
        palIrqHandlerDispatcher gicv3Detected i.effect (cores.mpidr i.core) i.iar t ≠ none) ∧
      ((∀ v ∈ serve gicv3Detected cores t is,
          (Managed (ackIrqNum gicv3Detected v.interrupt.iar) →
            v.eois = [ackRawIar gicv3Detected v.interrupt.iar]) ∧ ¬LeftActive gicv3Detected v) ↔
        ∀ v ∈ serve gicv3Detected cores t is,
          Managed (ackIrqNum gicv3Detected v.interrupt.iar) → Completed gicv3Detected v) := by
  refine ⟨fun i t hmanaged => ?_, ⟨fun h v hv hmanaged => ?_, fun h v hv => ?_⟩⟩
  · rw [dispatcher_eq t hmanaged]
    split <;> simp
  · exact (eois_iff_completed hv hmanaged).mp ((h v hv).1 hmanaged)
  · have hends (hmanaged : Managed (ackIrqNum gicv3Detected v.interrupt.iar)) :
        v.eois = [ackRawIar gicv3Detected v.interrupt.iar] :=
      (eois_iff_completed hv hmanaged).mpr (h v hv hmanaged)
    refine ⟨hends, fun hactive => hactive.2 ?_⟩
    rw [hends hactive.1]
    exact List.mem_singleton_self _

/-- A PPI without a handler is acknowledged and not ended. -/
theorem dispatcher_without_handler :
    palIrqHandlerDispatcher true (fun (_ : Unit) irqNum t => (t, irqNum)) (eightCores.mpidr firstCore) 27
        palIrqSetup = some (palIrqSetup, [], .error) ∧
      Managed (ackIrqNum true 27) :=
  ⟨rfl, by decide⟩

end FfaAcs.Driver.Irq
