import Mathlib.Data.List.Basic

/-!
# Runs of a labelled transition system

A run is the list of the labels of its steps, in order, and the state it ends in. Properties of
whole runs follow by induction: from the start, and from what one step does at the end of a run.
A step is often a computation that may fail; what its parts do is read off its result.
-/

namespace FfaAcs.Machine

variable {S L : Type*}

/-- Finite runs of `Step` from `s₀`. -/
inductive Run (Step : S → L → S → Prop) (s₀ : S) : List L → S → Prop
  | nil : Run Step s₀ [] s₀
  | snoc {ls : List L} {s t : S} {l : L} :
    Run Step s₀ ls s → Step s l t → Run Step s₀ (ls ++ [l]) t

namespace Run

variable {Step : S → L → S → Prop} {s₀ s : S} {ls : List L}

/-- What holds at the start and is kept by every step holds after every run. -/
theorem invariant {P : S → Prop} (hrun : Run Step s₀ ls s) (hstart : P s₀)
    (hstep : ∀ s l t, P s → Step s l t → P t) : P s := by
  induction hrun with
  | nil => exact hstart
  | snoc _ hlast ih => exact hstep _ _ _ ih hlast

/-- A run that goes on where another one ends. -/
theorem append {ms : List L} {t : S} (hrun : Run Step s₀ ls s) (hrest : Run Step s ms t) :
    Run Step s₀ (ls ++ ms) t := by
  induction hrest with
  | nil => exact (List.append_nil ls).symm ▸ hrun
  | snoc _ hlast ih => exact List.append_assoc ls _ _ ▸ ih.snoc hlast

/-- What every step guarantees of its label holds of all labels of a run. -/
theorem forall_mem {P : L → Prop} (hrun : Run Step s₀ ls s) (hstep : ∀ s l t, Step s l t → P l) :
    ∀ l ∈ ls, P l := by
  induction hrun with
  | nil => exact fun l hl => absurd hl List.not_mem_nil
  | snoc _ hlast ih =>
    intro l hl
    rcases List.mem_append.mp hl with hl | hl
    · exact ih l hl
    · exact List.mem_singleton.mp hl ▸ hstep _ _ _ hlast

end Run

/-- Steps that may fail simulate steps of an abstract state, as far as they go. -/
theorem simulates_of_foldlM {T : Type*} {step : S → L → Option S} {abstractStep : T → L → T}
    {R : S → T → Prop} (hstep : ∀ s t l s', R s t → step s l = some s' → R s' (abstractStep t l))
    {ls : List L} {s s' : S} {t : T} (h : R s t) (hrun : ls.foldlM step s = some s') :
    R s' (ls.foldl abstractStep t) := by
  induction ls generalizing s t with
  | nil =>
    cases hrun
    exact h
  | cons l ls ih =>
    rw [List.foldlM_cons, Option.bind_eq_bind, Option.bind_eq_some_iff] at hrun
    obtain ⟨next, hnext, hrest⟩ := hrun
    exact ih (hstep _ _ _ _ h hnext) hrest

section Failing

variable {ε α β : Type}

/-- A computation whose mapped result is known has returned. -/
theorem exists_ok_of_map {x : Except ε α} {f : α → β} {b : β} (h : x.map f = .ok b) :
    ∃ a, x = .ok a ∧ f a = b := by
  cases x with
  | error e => exact nomatch h
  | ok a => exact ⟨a, rfl, Except.ok.inj h⟩

/-- A sequence that returned has two parts that returned. -/
theorem exists_ok_of_bind {x : Except ε α} {f : α → Except ε β} {b : β} (h : x.bind f = .ok b) :
    ∃ a, x = .ok a ∧ f a = .ok b := by
  cases x with
  | error e => exact nomatch h
  | ok a => exact ⟨a, rfl, h⟩

/-- A computation whose mapped result is a fault has failed with it. -/
theorem eq_error_of_map {x : Except ε α} {f : α → β} {e : ε} (h : x.map f = .error e) :
    x = .error e := by
  cases x with
  | error e' => exact congrArg Except.error (Except.error.inj h)
  | ok a => exact nomatch h

/-- A sequence does not fail with a fault that neither part fails with. -/
theorem bind_ne_error {x : Except ε α} {f : α → Except ε β} {e : ε} (hx : x ≠ .error e)
    (hf : ∀ a, f a ≠ .error e) : x >>= f ≠ .error e := by
  cases x with
  | error e' => exact fun h => hx (congrArg Except.error (Except.error.inj h))
  | ok a => exact hf a

/-- A sequence whose second part does not fail with a fault fails with it when the first does. -/
theorem bind_eq_error_iff {x : Except ε α} {f : α → Except ε β} {e : ε}
    (hf : ∀ a, f a ≠ .error e) : x >>= f = .error e ↔ x = .error e := by
  refine ⟨fun h => ?_, fun h => by rw [h]; rfl⟩
  by_contra hx
  exact bind_ne_error hx hf h

end Failing

end FfaAcs.Machine
