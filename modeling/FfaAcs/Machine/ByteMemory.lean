import Mathlib.Data.Nat.Notation
import Mathlib.Algebra.Order.Ring.Nat
import Mathlib.Tactic.Ring

/-!
# Byte memory with little-endian words

A memory gives every address a byte. Addresses are natural numbers: a program whose pointer
arithmetic wraps reduces the address before it gets here, so the accessors below never wrap.
A word of `n` bytes is read and written least significant byte first.

The lemmas say what a later read sees of an earlier write. The same word reads back modulo
its width, and a read of any range apart from the written one is unchanged.
-/

namespace FfaAcs.Machine

/-- A byte for every address. -/
abbrev ByteMemory := ℕ → UInt8

/-- The ranges `[a, a + n)` and `[b, b + k)` have no address in common. -/
abbrev Apart (a n b k : ℕ) : Prop := a + n ≤ b ∨ b + k ≤ a

namespace ByteMemory

/-- The little-endian number held by the `n` bytes at `a`. -/
def load (m : ByteMemory) (a : ℕ) : ℕ → ℕ
  | 0 => 0
  | n + 1 => (m a).toNat + 256 * load m (a + 1) n

/-- Write the low `n` bytes of `v` at `a`, least significant first. -/
def store (m : ByteMemory) (a n v : ℕ) : ByteMemory := fun x =>
  if a ≤ x ∧ x < a + n then UInt8.ofNat (v / 256 ^ (x - a)) else m x

/-- Write one byte. -/
def poke (m : ByteMemory) (a : ℕ) (b : UInt8) : ByteMemory := fun x => if x = a then b else m x

/-- A word of one byte. -/
theorem load_one (m : ByteMemory) (a : ℕ) : m.load a 1 = (m a).toNat := rfl

/-- Equal bytes, wherever they lie, make equal words. -/
theorem load_eq_of_bytes {m m' : ByteMemory} {a b n : ℕ} (h : ∀ i < n, m (a + i) = m' (b + i)) :
    m.load a n = m'.load b n := by
  induction n generalizing a b with
  | zero => rfl
  | succ n ih =>
    have hfirst : m a = m' b := h 0 (Nat.succ_pos n)
    have hrest : ∀ i < n, m (a + 1 + i) = m' (b + 1 + i) := fun i hi => by
      rw [Nat.add_assoc, Nat.add_assoc, Nat.add_comm 1 i]
      exact h (i + 1) (by omega)
    rw [load, load, hfirst, ih hrest]

/-- A load depends only on the bytes of its own range. -/
theorem load_congr {m m' : ByteMemory} {a n : ℕ} (h : ∀ x, a ≤ x → x < a + n → m x = m' x) :
    m.load a n = m'.load a n :=
  load_eq_of_bytes fun i hi => h (a + i) (by omega) (by omega)

/-- Equal words have equal bytes. -/
theorem bytes_eq_of_load {m m' : ByteMemory} {a n : ℕ} (h : m.load a n = m'.load a n) :
    ∀ x, a ≤ x → x < a + n → m x = m' x := by
  induction n generalizing a with
  | zero => exact fun x hlow hhigh => absurd hhigh (by omega)
  | succ n ih =>
    intro x hlow hhigh
    have hbyte := (m a).toNat_lt
    have hbyte' := (m' a).toNat_lt
    rw [load, load] at h
    rcases Nat.eq_or_lt_of_le hlow with rfl | hlt
    · exact UInt8.toNat.inj (by omega)
    · exact ih (a := a + 1) (by omega) x hlt (by omega)

/-- A word is below its width. -/
theorem load_lt (m : ByteMemory) (a n : ℕ) : m.load a n < 256 ^ n := by
  induction n generalizing a with
  | zero => exact Nat.one_pos
  | succ n ih =>
    have hbyte := (m a).toNat_lt
    have hrest := ih (a + 1)
    rw [load, pow_succ']
    omega

/-- A word is its low bytes and, behind them, its high bytes. -/
theorem load_add (m : ByteMemory) (a n k : ℕ) :
    m.load a (n + k) = m.load a n + 256 ^ n * m.load (a + n) k := by
  induction n generalizing a with
  | zero => simp [load]
  | succ n ih =>
    rw [Nat.add_right_comm, load, ih (a + 1), load, Nat.add_assoc a 1 n, Nat.add_comm 1 n]
    ring

/-- A narrow read of a word gives its low part. -/
theorem load_mod (m : ByteMemory) (a n k : ℕ) : m.load a (n + k) % 256 ^ n = m.load a n := by
  rw [load_add, Nat.add_mul_mod_self_left, Nat.mod_eq_of_lt (m.load_lt a n)]

/-- A store leaves the bytes outside its range alone. -/
theorem store_outside (m : ByteMemory) {a n v x : ℕ} (h : x < a ∨ a + n ≤ x) :
    m.store a n v x = m x := by
  rw [store, if_neg (by omega)]

/-- A store puts each byte of the value at its own offset. -/
theorem store_inside (m : ByteMemory) {a n v i : ℕ} (h : i < n) :
    m.store a n v (a + i) = UInt8.ofNat (v / 256 ^ i) := by
  rw [store, if_pos (by omega), Nat.add_sub_cancel_left]

/-- A poke leaves every other byte alone. -/
theorem poke_of_ne (m : ByteMemory) {a x : ℕ} {b : UInt8} (h : x ≠ a) : m.poke a b x = m x :=
  if_neg h

/-- A poke is read back. -/
@[simp] theorem poke_self (m : ByteMemory) (a : ℕ) (b : UInt8) : m.poke a b a = b := if_pos rfl

/-- Reading part of a stored word gives the matching part of its value. -/
private theorem load_store_part (m : ByteMemory) (a n v i k : ℕ) (h : i + k ≤ n) :
    (m.store a n v).load (a + i) k = v / 256 ^ i % 256 ^ k := by
  induction k generalizing i with
  | zero => simp [load, Nat.mod_one]
  | succ k ih =>
    have hquotient : v / 256 ^ (i + 1) = v / 256 ^ i / 256 := by
      rw [pow_succ, ← Nat.div_div_eq_div_mul]
    have hpower : 256 ^ (k + 1) = 256 * 256 ^ k := pow_succ' 256 k
    rw [load, store_inside m (by omega), Nat.add_assoc, ih (i + 1) (by omega), hquotient, hpower,
      Nat.mod_mul, UInt8.toNat_ofNat']

/-- A stored word reads back modulo its width. -/
@[simp] theorem load_store_same (m : ByteMemory) (a n v : ℕ) :
    (m.store a n v).load a n = v % 256 ^ n := by
  simpa using load_store_part m a n v 0 n (by omega)

/-- A store keeps the low bytes of its range exactly if they are those of the value. -/
theorem store_low_eq_iff (m : ByteMemory) {a n v k : ℕ} (hk : k ≤ n) :
    (∀ x, a ≤ x → x < a + k → m.store a n v x = m x) ↔ v % 256 ^ k = m.load a k := by
  have hlow : (m.store a n v).load a k = v % 256 ^ k := by
    simpa using load_store_part m a n v 0 k (by omega)
  rw [← hlow]
  exact ⟨load_congr, bytes_eq_of_load⟩

/-- A load of a range apart from a store does not see it. -/
theorem load_store_apart (m : ByteMemory) {a n v b k : ℕ} (h : Apart a n b k) :
    (m.store a n v).load b k = m.load b k :=
  load_congr fun x hlow hhigh => store_outside m (by omega)

/-- A load of a range without the poked address does not see the poke. -/
theorem load_poke_apart (m : ByteMemory) {a b k : ℕ} {v : UInt8} (h : a < b ∨ b + k ≤ a) :
    (m.poke a v).load b k = m.load b k :=
  load_congr fun x hlow hhigh => poke_of_ne m (by omega)

/-- Replace the `n` bytes at `a` by those of an array. -/
def blit (m : ByteMemory) (a n : ℕ) (f : ℕ → UInt8) : ByteMemory :=
  fun x => if a ≤ x ∧ x < a + n then f (x - a) else m x

/-- A replacement leaves the bytes outside its range alone. -/
theorem blit_outside (m : ByteMemory) {a n x : ℕ} {f : ℕ → UInt8} (h : x < a ∨ a + n ≤ x) :
    m.blit a n f x = m x := if_neg (by omega)

/-- A load of a range apart from a replacement does not see it. -/
theorem load_blit_apart (m : ByteMemory) {a n b k : ℕ} {f : ℕ → UInt8} (h : Apart a n b k) :
    (m.blit a n f).load b k = m.load b k :=
  load_congr fun x hlow hhigh => blit_outside m (by omega)

end ByteMemory

end FfaAcs.Machine
