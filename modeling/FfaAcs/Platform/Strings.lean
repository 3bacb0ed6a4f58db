import FfaAcs.Machine.CString
import FfaAcs.Machine.WordArithmetic

/-!
# Appending a string

`val_strcat` looks for the end of its first argument and then copies the second one behind it, both
loops up to the last byte of the buffer. That byte is computed as the size of the buffer less one, which
for an empty buffer is the largest number there is.

Beside the memory, the model has the indices of the first argument that are read or written.
-/

namespace FfaAcs.Platform

open Machine

/-- The loop that looks for the end of `str1`, with the number of bytes that are left before the bound.
The character is read before the bound is tested. -/
def strcatEnd (m : ByteMemory) (str1 : ℕ) : ℕ → ℕ → ℕ × List ℕ
  | 0, len => (len, [len])
  | left + 1, len =>
    if m (str1 + len) = 0 then (len, [len])
    else
      let rest := strcatEnd m str1 left (len + 1)
      (rest.1, len :: rest.2)

/-- The loop that copies `str2`. -/
def strcatCopy (str1 str2 : ℕ) : ℕ → ℕ → ℕ → ByteMemory → ByteMemory × ℕ × List ℕ
  | 0, len, _, m => (m, len, [])
  | left + 1, len, i, m =>
    if m (str2 + i) = 0 then (m, len, [])
    else
      let rest := strcatCopy str1 str2 left (len + 1) (i + 1) (m.poke (str1 + len) (m (str2 + i)))
      (rest.1, rest.2.1, len :: rest.2.2)

/-- The body of `val_strcat`, with `output_buff_size - 1` as a parameter. -/
def strcatUpTo (m : ByteMemory) (str1 str2 bound : ℕ) : ByteMemory × List ℕ :=
  let found := strcatEnd m str1 bound 0
  if bound ≤ found.1 then (m, found.2)
  else
    let copied := strcatCopy str1 str2 (bound - found.1) found.1 0 m
    (copied.1.poke (str1 + copied.2.1) 0, found.2 ++ copied.2.2 ++ [copied.2.1])

/-- `val_strcat`: the memory it leaves and the indices of `str1` that it accesses. -/
def valStrcat (m : ByteMemory) (str1 str2 outputBuffSize : ℕ) : ByteMemory × List ℕ :=
  strcatUpTo m str1 str2 (sub64 outputBuffSize 1)

/-! ## The two loops -/

section

variable {m : ByteMemory} {str1 str2 : ℕ}

/-- Where the search ends, and what it accesses. -/
theorem strcatEnd_bounds (m : ByteMemory) (str1 left len : ℕ) :
    (strcatEnd m str1 left len).1 ≤ len + left ∧
      ∀ i ∈ (strcatEnd m str1 left len).2, i ≤ len + left := by
  induction left generalizing len with
  | zero => simp [strcatEnd]
  | succ left ih =>
    rw [strcatEnd]
    split
    · simp
    · obtain ⟨hlast, haccesses⟩ := ih (len + 1)
      refine ⟨hlast.trans (by omega), fun i hi => ?_⟩
      rcases List.mem_cons.mp hi with rfl | hi
      · omega
      · exact (haccesses i hi).trans (by omega)

/-- The search always reads a character. -/
theorem mem_strcatEnd (m : ByteMemory) (str1 left len : ℕ) : len ∈ (strcatEnd m str1 left len).2 := by
  cases left with
  | zero => simp [strcatEnd]
  | succ left =>
    rw [strcatEnd]
    split <;> simp

/-- The search finds the end of a string that ends before the bound. -/
theorem strcatEnd_of_string {cs : List UInt8} {left len : ℕ} (h : HoldsString m (str1 + len) cs)
    (hfits : cs.length ≤ left) : (strcatEnd m str1 left len).1 = len + cs.length := by
  induction left generalizing len cs with
  | zero =>
    obtain rfl := List.eq_nil_of_length_eq_zero (Nat.le_zero.mp hfits)
    rfl
  | succ left ih =>
    cases cs with
    | nil =>
      rw [strcatEnd, if_pos (holdsString_nil.mp h), List.length_nil, Nat.add_zero]
    | cons c cs =>
      obtain ⟨hfirst, hnonzero, hrest⟩ := h
      rw [strcatEnd, if_neg (hfirst ▸ hnonzero)]
      refine (ih hrest (Nat.le_of_succ_le_succ hfits)).trans ?_
      rw [List.length_cons]
      omega

/-- Where the copy ends, what it writes, and that it leaves everything below alone. -/
theorem strcatCopy_bounds (str1 str2 left len i : ℕ) (m : ByteMemory) :
    (len ≤ (strcatCopy str1 str2 left len i m).2.1 ∧
        (strcatCopy str1 str2 left len i m).2.1 ≤ len + left) ∧
      (∀ k ∈ (strcatCopy str1 str2 left len i m).2.2, k < len + left) ∧
      ∀ x < str1 + len, (strcatCopy str1 str2 left len i m).1 x = m x := by
  induction left generalizing len i m with
  | zero => simp [strcatCopy]
  | succ left ih =>
    rw [strcatCopy]
    split
    · simp
    · obtain ⟨hlast, haccesses, hframe⟩ := ih (len + 1) (i + 1) (m.poke (str1 + len) (m (str2 + i)))
      refine ⟨⟨Nat.le_of_succ_le hlast.1, hlast.2.trans (by omega)⟩, fun k hk => ?_, fun x hx => ?_⟩
      · rcases List.mem_cons.mp hk with rfl | hk
        · omega
        · exact (haccesses k hk).trans_le (by omega)
      · exact (hframe x (by omega)).trans (ByteMemory.poke_of_ne m (by omega))

/-- The copy leaves as much of the string as there is room for, once the zero is written behind it. -/
theorem strcatCopy_holds {cs : List UInt8} {left len i : ℕ} (h : HoldsString m (str2 + i) cs)
    (hapart : Apart (str1 + len) (left + 1) (str2 + i) (cs.length + 1)) :
    HoldsString ((strcatCopy str1 str2 left len i m).1.poke
      (str1 + (strcatCopy str1 str2 left len i m).2.1) 0) (str1 + len) (cs.take left) := by
  induction left generalizing len i m cs with
  | zero => exact ByteMemory.poke_self _ _ _
  | succ left ih =>
    cases cs with
    | nil =>
      rw [strcatCopy, if_pos (holdsString_nil.mp h)]
      exact ByteMemory.poke_self _ _ _
    | cons c cs =>
      obtain ⟨hfirst, hnonzero, hrest⟩ := h
      rw [List.length_cons] at hapart
      -- the string to be copied is still there after its first character has been written
      have hkept : HoldsString (m.poke (str1 + len) c) (str2 + (i + 1)) cs :=
        hrest.congr fun k hk => ByteMemory.poke_of_ne m (by omega)
      rw [strcatCopy, if_neg (hfirst ▸ hnonzero), hfirst, List.take_succ_cons]
      dsimp only
      refine ⟨?_, hnonzero, ih hkept (by omega)⟩
      -- nothing behind it writes over that character
      obtain ⟨hlast, -, hframe⟩ :=
        strcatCopy_bounds str1 str2 left (len + 1) (i + 1) (m.poke (str1 + len) c)
      exact (ByteMemory.poke_of_ne _ (by omega)).trans
        ((hframe _ (by omega)).trans (ByteMemory.poke_self _ _ _))

/-! ## The whole function -/

/-- The first character is read whatever the bound. -/
theorem zero_mem_strcatUpTo (m : ByteMemory) (str1 str2 bound : ℕ) :
    0 ∈ (strcatUpTo m str1 str2 bound).2 := by
  have hread := mem_strcatEnd m str1 bound 0
  simp only [strcatUpTo]
  split_ifs
  · exact hread
  · exact List.mem_append_left _ (List.mem_append_left _ hread)

/-- Nothing is accessed behind the bound. -/
theorem le_of_mem_strcatUpTo {bound i : ℕ} (hi : i ∈ (strcatUpTo m str1 str2 bound).2) : i ≤ bound := by
  obtain ⟨hend, hreads⟩ := strcatEnd_bounds m str1 bound 0
  simp only [strcatUpTo] at hi
  split_ifs at hi with hfull
  · exact (hreads i hi).trans_eq (Nat.zero_add _)
  · obtain ⟨⟨-, hlast⟩, hwrites, -⟩ := strcatCopy_bounds str1 str2
      (bound - (strcatEnd m str1 bound 0).1) (strcatEnd m str1 bound 0).1 0 m
    rcases List.mem_append.mp hi with hi | hi
    · rcases List.mem_append.mp hi with hi | hi
      · exact (hreads i hi).trans_eq (Nat.zero_add _)
      · exact (hwrites i hi).le.trans (by omega)
    · rw [List.mem_singleton] at hi
      omega

/-- A string that ends before the bound is followed by as much of the second one as there is room for. -/
theorem strcatUpTo_holds {bound : ℕ} {s1 s2 : List UInt8} (h1 : HoldsString m str1 s1)
    (hfits : s1.length ≤ bound) (h2 : HoldsString m str2 s2)
    (hapart : Apart str1 (bound + 1) str2 (s2.length + 1)) :
    HoldsString (strcatUpTo m str1 str2 bound).1 str1 ((s1 ++ s2).take bound) := by
  have hend : (strcatEnd m str1 bound 0).1 = s1.length :=
    (strcatEnd_of_string h1 hfits).trans (Nat.zero_add _)
  simp only [strcatUpTo, hend]
  split_ifs with hfull
  · -- the first string is all that fits
    rw [List.take_append_of_le_length hfull, List.take_of_length_le hfits]
    exact h1
  · obtain ⟨hlast, -, hframe⟩ := strcatCopy_bounds str1 str2 (bound - s1.length) s1.length 0 m
    rw [List.take_append, List.take_of_length_le hfits]
    refine h1.append (fun i hi => ?_) (strcatCopy_holds h2 (by omega))
    exact (ByteMemory.poke_of_ne _ (by omega)).trans (hframe _ (by omega))

end

/-- The accesses stay inside the buffer, and a string in it is followed by the second one up to the last
byte, exactly when the buffer is not empty. -/
theorem valStrcat_safe_iff {m : ByteMemory} {str1 str2 outputBuffSize : ℕ} {s2 : List UInt8}
    (hsize : outputBuffSize < 2 ^ 64) (h2 : HoldsString m str2 s2)
    (hapart : Apart str1 outputBuffSize str2 (s2.length + 1)) :
    ((∀ i ∈ (valStrcat m str1 str2 outputBuffSize).2, i < outputBuffSize) ∧
      ∀ s1, HoldsString m str1 s1 → s1.length < outputBuffSize →
        HoldsString (valStrcat m str1 str2 outputBuffSize).1 str1 ((s1 ++ s2).take (outputBuffSize - 1))) ↔
      outputBuffSize ≠ 0 := by
  constructor
  · rintro ⟨hinside, -⟩
    exact Nat.ne_of_gt (Nat.zero_lt_of_lt (hinside 0 (zero_mem_strcatUpTo m str1 str2 _)))
  · intro hpos
    have hbound : valStrcat m str1 str2 outputBuffSize = strcatUpTo m str1 str2 (outputBuffSize - 1) := by
      rw [valStrcat, sub64_of_le (Nat.one_le_iff_ne_zero.mpr hpos) hsize]
    rw [hbound]
    refine ⟨fun i hi => ?_, fun s1 h1 hfits => ?_⟩
    · have := le_of_mem_strcatUpTo hi
      omega
    · exact strcatUpTo_holds h1 (Nat.le_sub_one_of_lt hfits) h2 (by omega)

/-- A memory of zeros with the string "a" at `8`. -/
def letterAtEight : ByteMemory := fun x => if x = 8 then 97 else 0

/-- The string "a" goes into an empty buffer of two bytes. -/
theorem valStrcat_safe_two_bytes :
    (∀ i ∈ (valStrcat letterAtEight 0 8 2).2, i < 2) ∧
      ∀ s1, HoldsString letterAtEight 0 s1 → s1.length < 2 →
        HoldsString (valStrcat letterAtEight 0 8 2).1 0 ((s1 ++ [97]).take 1) := by
  have hletter : HoldsString letterAtEight 8 [97] := by simp [HoldsString, letterAtEight]
  exact (valStrcat_safe_iff (by decide) hletter (by decide)).mpr (by decide)

/-- With a buffer of no bytes the bound wraps, and the string is copied as if there were room. -/
theorem valStrcat_no_bytes :
    valStrcat letterAtEight 0 8 0 = ((letterAtEight.poke 0 97).poke 1 0, [0, 0, 1]) := by
  obtain ⟨n, hbound⟩ : ∃ n, sub64 0 1 = n + 1 + 1 := ⟨2 ^ 64 - 3, by simp [sub64]⟩
  rw [valStrcat, hbound]
  rfl

end FfaAcs.Platform
