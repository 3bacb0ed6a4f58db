import Mathlib.Data.Fin.Tuple.Basic
import Mathlib.Data.Fin.VecNotation
import Mathlib.Tactic

/-!
# Endpoint information as it is sent

An entry of the endpoint table takes 32 bytes and no padding. It is sent as eight words, four in
each of two messages, in the layout the compiler gives the structure on a little-endian target:
the first name byte is the lowest byte of the first word, and the two status fields share a byte
with `is_valid` in its lower half.
-/

namespace FfaAcs.Sync

/-- The four words of a UUID and of a message are indexed by numerals. -/
instance neZero_words : NeZero 4 := ⟨four_ne_zero⟩

/-- `val_endpoint_info_t`. -/
@[ext]
structure EndpointInfo where
  name : Fin 5 → BitVec 8
  isValid : BitVec 4
  isSecure : BitVec 4
  id : BitVec 16
  tg0 : BitVec 8
  elInfo : BitVec 8
  ecCount : BitVec 16
  epProperties : BitVec 32
  uuid : Fin 4 → BitVec 32
deriving DecidableEq

/-- `endpoint_info_table`. -/
abbrev Table := ℕ → EndpointInfo

namespace EndpointInfo

/-- The first sixteen bytes as words: the name, the status byte and the identifier, the
translation granule, the exception level and the context count, and the properties. -/
def firstHalf (e : EndpointInfo) : Fin 4 → BitVec 32 :=
  ![e.name 3 ++ e.name 2 ++ e.name 1 ++ e.name 0,
    e.id ++ e.isSecure ++ e.isValid ++ e.name 4,
    e.ecCount ++ e.elInfo ++ e.tg0,
    e.epProperties]

/-- The last sixteen bytes as words: the UUID. -/
def secondHalf (e : EndpointInfo) : Fin 4 → BitVec 32 := e.uuid

/-- The structure whose eight words are given. -/
def ofHalves (first second : Fin 4 → BitVec 32) : EndpointInfo where
  name := ![(first 0).extractLsb' 0 8, (first 0).extractLsb' 8 8, (first 0).extractLsb' 16 8,
    (first 0).extractLsb' 24 8, (first 1).extractLsb' 0 8]
  isValid := (first 1).extractLsb' 8 4
  isSecure := (first 1).extractLsb' 12 4
  id := (first 1).extractLsb' 16 16
  tg0 := (first 2).extractLsb' 0 8
  elInfo := (first 2).extractLsb' 8 8
  ecCount := (first 2).extractLsb' 16 16
  epProperties := first 3
  uuid := second

/-- The bytes of the first word are the first four characters of the name, the last one on top. -/
theorem firstHalf_zero (e : EndpointInfo) :
    e.firstHalf 0 = e.name 3 ++ e.name 2 ++ e.name 1 ++ e.name 0 := rfl

/-- The second word holds the last character, the two status fields and the identifier. -/
theorem firstHalf_one (e : EndpointInfo) :
    e.firstHalf 1 = e.id ++ e.isSecure ++ e.isValid ++ e.name 4 := rfl

/-- The third word holds the granule, the exception level and the context count. -/
theorem firstHalf_two (e : EndpointInfo) : e.firstHalf 2 = e.ecCount ++ e.elInfo ++ e.tg0 := rfl

/-- Reading the words of an entry as an entry gives it back. -/
theorem ofHalves_halves (e : EndpointInfo) : ofHalves e.firstHalf e.secondHalf = e := by
  have hname : (ofHalves e.firstHalf e.secondHalf).name = e.name := by
    rw [ofHalves, firstHalf_zero, firstHalf_one]
    funext k
    fin_cases k
    · change (e.name 3 ++ e.name 2 ++ e.name 1 ++ e.name 0).extractLsb' 0 8 = e.name 0
      grind
    · change (e.name 3 ++ e.name 2 ++ e.name 1 ++ e.name 0).extractLsb' 8 8 = e.name 1
      grind
    · change (e.name 3 ++ e.name 2 ++ e.name 1 ++ e.name 0).extractLsb' 16 8 = e.name 2
      grind
    · change (e.name 3 ++ e.name 2 ++ e.name 1 ++ e.name 0).extractLsb' 24 8 = e.name 3
      grind
    · change (e.id ++ e.isSecure ++ e.isValid ++ e.name 4).extractLsb' 0 8 = e.name 4
      grind
  have hvalid : (e.firstHalf 1).extractLsb' 8 4 = e.isValid := by
    rw [firstHalf_one]
    grind
  have hsecure : (e.firstHalf 1).extractLsb' 12 4 = e.isSecure := by
    rw [firstHalf_one]
    grind
  have hid : (e.firstHalf 1).extractLsb' 16 16 = e.id := by
    rw [firstHalf_one]
    grind
  have htg0 : (e.firstHalf 2).extractLsb' 0 8 = e.tg0 := by
    rw [firstHalf_two]
    grind
  have helInfo : (e.firstHalf 2).extractLsb' 8 8 = e.elInfo := by
    rw [firstHalf_two]
    grind
  have hecCount : (e.firstHalf 2).extractLsb' 16 16 = e.ecCount := by
    rw [firstHalf_two]
    grind
  exact EndpointInfo.ext hname hvalid hsecure hid htg0 helInfo hecCount rfl rfl

/-- The name is made of printable characters, up to its terminator. -/
def Printable (e : EndpointInfo) : Prop :=
  ∀ k, e.name k = 0 ∨ 0x20 ≤ (e.name k).toNat ∧ (e.name k).toNat ≤ 0x7e

instance (e : EndpointInfo) : Decidable e.Printable := inferInstanceAs (Decidable (∀ _, _))

/-- The fourth character of the name is the highest byte of the first word. -/
theorem firstHalf_zero_div (e : EndpointInfo) : (e.firstHalf 0).toNat / 2 ^ 24 = (e.name 3).toNat := by
  have hbyte : (e.firstHalf 0).extractLsb' 24 8 = e.name 3 := by
    rw [firstHalf_zero]
    grind
  have hnat := congrArg BitVec.toNat hbyte
  rw [BitVec.extractLsb'_toNat, Nat.shiftRight_eq_div_pow] at hnat
  have hlt := (e.firstHalf 0).isLt
  omega

end EndpointInfo

end FfaAcs.Sync
