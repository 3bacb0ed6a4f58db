import FfaAcs.Machine.ByteMemory

/-!
# Strings in memory

A string is a list of nonzero characters with a zero behind it. What a string is depends on its own
bytes and the zero only.
-/

namespace FfaAcs.Machine

/-- The memory holds a string at an address. -/
def HoldsString (m : ByteMemory) (a : ℕ) : List UInt8 → Prop
  | [] => m a = 0
  | c :: cs => m a = c ∧ c ≠ 0 ∧ HoldsString m (a + 1) cs

instance decidableHoldsString (m : ByteMemory) :
    (a : ℕ) → (cs : List UInt8) → Decidable (HoldsString m a cs)
  | a, [] => inferInstanceAs (Decidable (m a = 0))
  | a, c :: cs =>
    have := decidableHoldsString m (a + 1) cs
    inferInstanceAs (Decidable (m a = c ∧ c ≠ 0 ∧ HoldsString m (a + 1) cs))

/-- The empty string is a zero. -/
theorem holdsString_nil {m : ByteMemory} {a : ℕ} : HoldsString m a [] ↔ m a = 0 := Iff.rfl

/-- A string is a character that is not zero and the rest. -/
theorem holdsString_cons {m : ByteMemory} {a : ℕ} {c : UInt8} {cs : List UInt8} :
    HoldsString m a (c :: cs) ↔ m a = c ∧ c ≠ 0 ∧ HoldsString m (a + 1) cs := Iff.rfl

namespace HoldsString

variable {m m' : ByteMemory} {a : ℕ} {cs ds : List UInt8}

/-- A string is read from its characters and the zero behind them. -/
theorem congr (h : HoldsString m a cs) (hsame : ∀ i ≤ cs.length, m' (a + i) = m (a + i)) :
    HoldsString m' a cs := by
  induction cs generalizing a with
  | nil => exact (hsame 0 le_rfl).trans h
  | cons c cs ih =>
    obtain ⟨hfirst, hnonzero, hrest⟩ := h
    refine ⟨(hsame 0 (Nat.zero_le _)).trans hfirst, hnonzero, ih hrest fun i hi => ?_⟩
    rw [Nat.add_assoc, Nat.add_comm 1 i]
    exact hsame (i + 1) (Nat.succ_le_succ hi)

/-- The characters of a string with another string in the place of the zero. -/
theorem append (h : HoldsString m a cs) (hsame : ∀ i < cs.length, m' (a + i) = m (a + i))
    (hrest : HoldsString m' (a + cs.length) ds) : HoldsString m' a (cs ++ ds) := by
  induction cs generalizing a with
  | nil => exact hrest
  | cons c cs ih =>
    obtain ⟨hfirst, hnonzero, htail⟩ := h
    refine ⟨(hsame 0 (Nat.succ_pos _)).trans hfirst, hnonzero, ih htail (fun i hi => ?_) ?_⟩
    · rw [Nat.add_assoc, Nat.add_comm 1 i]
      exact hsame (i + 1) (Nat.succ_lt_succ hi)
    · rw [Nat.add_assoc, Nat.add_comm 1]
      exact hrest

end HoldsString

end FfaAcs.Machine
