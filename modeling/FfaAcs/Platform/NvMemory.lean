import FfaAcs.Machine.Runs
import FfaAcs.Platform.AbiShim

/-!
# The NV memory of the TPM

The platform keeps the NV memory of the TPM in an array, with a second array for the bytes that were
ever written, and the TPM library reads, writes, clears, compares and moves ranges of it. The
arrays and the buffers of the client lie in one byte memory, and every copy is the loop that the
platform library has for it.

The NV memory is meant to be an array of bytes. `NvArray` is that array and `NvCall.next` what a call
does to it; `NvSystem` runs the two side by side.
-/

namespace FfaAcs.Platform

open Machine

/-- `NV_MEMORY_SIZE` and the addresses of `g_tpm_nv` and `g_tpm_nv_written`. -/
structure NvLayout where
  size : ℕ
  nv : ℕ
  written : ℕ
  apart : Apart nv size written size

/-- The memory and `g_tpm_nv_needs_manufacture`. -/
structure NvStore where
  mem : ByteMemory
  needsManufacture : Bool

/-- The test of an offset and a size. -/
def palTpmNvRangeValid (L : NvLayout) (offset size : ℕ) : Bool :=
  if size = 0 then true
  else if offset ≥ L.size then false
  else size ≤ L.size - offset

/-- `_plat__NvMemoryRead` -/
def platNvMemoryRead (L : NvLayout) (s : NvStore) (startOffset size data : ℕ) : ℤ × NvStore :=
  if data = 0 ∨ palTpmNvRangeValid L startOffset size = false then (0, s)
  else if size = 0 then (1, s)
  else (1, { s with mem := memcpy s.mem data (L.nv + startOffset) size })

/-- `_plat__NvGetChangedStatus` -/
def platNvGetChangedStatus (L : NvLayout) (s : NvStore) (startOffset size data : ℕ) : ℤ × NvStore :=
  if data = 0 ∨ palTpmNvRangeValid L startOffset size = false then (-1, s)
  else if size = 0 then (0, s)
  else (if memcmp s.mem (L.nv + startOffset) data size = 0 then 0 else 1, s)

/-- `_plat__NvMemoryWrite` -/
def platNvMemoryWrite (L : NvLayout) (s : NvStore) (startOffset size data : ℕ) : ℤ × NvStore :=
  if data = 0 ∨ palTpmNvRangeValid L startOffset size = false then (0, s)
  else if size = 0 then (1, s)
  else
    let m := memcpy s.mem (L.nv + startOffset) data size
    let m := memset m (L.written + startOffset) 1 size
    (1, ⟨m, false⟩)

/-- `_plat__NvMemoryClear` -/
def platNvMemoryClear (L : NvLayout) (s : NvStore) (startOffset size : ℕ) : ℤ × NvStore :=
  if palTpmNvRangeValid L startOffset size = false then (0, s)
  else if size = 0 then (1, s)
  else
    let m := memset s.mem (L.nv + startOffset) 0xff size
    let m := memset m (L.written + startOffset) 1 size
    (1, ⟨m, true⟩)

/-- `_plat__NvMemoryMove` -/
def platNvMemoryMove (L : NvLayout) (s : NvStore) (sourceOffset destOffset size : ℕ) : ℤ × NvStore :=
  if palTpmNvRangeValid L sourceOffset size = false ∨ palTpmNvRangeValid L destOffset size = false then
    (0, s)
  else if size = 0 then (1, s)
  else
    let m := memmove s.mem (L.nv + destOffset) (L.nv + sourceOffset) size
    let m := memset m (L.written + destOffset) 1 size
    (1, ⟨m, false⟩)

/-- The calls, with the address of the client's buffer where they take one. -/
inductive NvCall
  | read (startOffset size data : ℕ)
  | getChangedStatus (startOffset size data : ℕ)
  | write (startOffset size data : ℕ)
  | clear (startOffset size : ℕ)
  | move (sourceOffset destOffset size : ℕ)
deriving DecidableEq, Repr

/-- Carry out a call: what it returns and the store after it. -/
def NvCall.exec (L : NvLayout) (s : NvStore) : NvCall → ℤ × NvStore
  | .read startOffset size data => platNvMemoryRead L s startOffset size data
  | .getChangedStatus startOffset size data => platNvGetChangedStatus L s startOffset size data
  | .write startOffset size data => platNvMemoryWrite L s startOffset size data
  | .clear startOffset size => platNvMemoryClear L s startOffset size
  | .move sourceOffset destOffset size => platNvMemoryMove L s sourceOffset destOffset size

/-! ## The array that the store stands for -/

/-- An array of `n` bytes. -/
abbrev NvArray (n : ℕ) := Fin n → UInt8

section Array

variable {n : ℕ}

/-- The byte at an index, 0 behind the end. -/
def NvArray.byteAt (a : NvArray n) (i : ℕ) : UInt8 := if h : i < n then a ⟨i, h⟩ else 0

/-- The array with the range of `size` bytes at `offset` replaced. -/
def NvArray.overwrite (a : NvArray n) (offset size : ℕ) (f : ℕ → UInt8) : NvArray n :=
  fun i => if offset ≤ i ∧ i < offset + size then f (i - offset) else a i

/-- The range is empty or lies in the array. -/
def Fits (n offset size : ℕ) : Prop := size = 0 ∨ offset + size ≤ n

instance (offset size : ℕ) : Decidable (Fits n offset size) := inferInstanceAs (Decidable (_ ∨ _))

/-- The calls that an array of `n` bytes allows. -/
def NvCall.Valid (n : ℕ) : NvCall → Prop
  | .read startOffset size data => Fits n startOffset size ∧ data ≠ 0
  | .getChangedStatus startOffset size data => Fits n startOffset size ∧ data ≠ 0
  | .write startOffset size data => Fits n startOffset size ∧ data ≠ 0
  | .clear startOffset size => Fits n startOffset size
  | .move sourceOffset destOffset size => Fits n sourceOffset size ∧ Fits n destOffset size

instance (c : NvCall) : Decidable (c.Valid n) :=
  match c with
  | .read .. => inferInstanceAs (Decidable (_ ∧ _))
  | .getChangedStatus .. => inferInstanceAs (Decidable (_ ∧ _))
  | .write .. => inferInstanceAs (Decidable (_ ∧ _))
  | .clear .. => inferInstanceAs (Decidable (Fits ..))
  | .move .. => inferInstanceAs (Decidable (_ ∧ _))

/-- What a call returned says that it succeeded. -/
def NvCall.Succeeds (ret : ℤ) : NvCall → Prop
  | .getChangedStatus .. => ret ≠ -1
  | _ => ret = 1

/-- The array after a valid call with the bytes `data` in the client's buffer. -/
def NvCall.next (a : NvArray n) (data : ℕ → UInt8) : NvCall → NvArray n
  | .write startOffset size _ => a.overwrite startOffset size data
  | .clear startOffset size => a.overwrite startOffset size fun _ => 0xff
  | .move sourceOffset destOffset size => a.overwrite destOffset size fun k => a.byteAt (sourceOffset + k)
  | _ => a

/-- The address and the size of the client's buffer. -/
def NvCall.buffer : NvCall → ℕ × ℕ
  | .read _ size data => (data, size)
  | .getChangedStatus _ size data => (data, size)
  | .write _ size data => (data, size)
  | _ => (0, 0)

end Array

/-- The array in the memory. -/
def NvLayout.contents (L : NvLayout) (m : ByteMemory) : NvArray L.size := fun i => m (L.nv + i)

/-- The address is no byte of the two arrays. -/
def NvLayout.Outside (L : NvLayout) (x : ℕ) : Prop :=
  (x < L.nv ∨ L.nv + L.size ≤ x) ∧ (x < L.written ∨ L.written + L.size ≤ x)

/-- The client's buffer does not overlap the arrays. A call that is refused does not touch it. -/
def NvCall.OwnBuffer (L : NvLayout) (c : NvCall) : Prop :=
  c.Valid L.size → Apart c.buffer.1 c.buffer.2 L.nv L.size ∧
    Apart c.buffer.1 c.buffer.2 L.written L.size

/-- A call behaves as one on the array `a`: it succeeds when it is valid, a refused call changes
nothing at all, a valid one leaves the next array, and outside the arrays only a read writes, the
bytes of its range into the client's buffer. -/
structure NvCall.Behaves (c : NvCall) (L : NvLayout) (a : NvArray L.size) (s : NvStore) (ret : ℤ)
    (t : NvStore) : Prop where
  succeeds : c.Succeeds ret ↔ c.Valid L.size
  refused : ¬c.Valid L.size → t = s
  contents : c.Valid L.size → L.contents t.mem = c.next a fun i => s.mem (c.buffer.1 + i)
  read : ∀ startOffset size data, c = .read startOffset size data → c.Valid L.size →
    ∀ i < size, t.mem (data + i) = a.byteAt (startOffset + i)
  changed : ∀ startOffset size data, c = .getChangedStatus startOffset size data → c.Valid L.size →
    (ret = 1 ↔ ∃ i < size, a.byteAt (startOffset + i) ≠ s.mem (data + i)) ∧ (ret = 1 ∨ ret = 0)
  client : ∀ x, L.Outside x → (∀ startOffset size data, c = .read startOffset size data →
    x < data ∨ data + size ≤ x) → t.mem x = s.mem x

section Calls

variable {L : NvLayout} {s : NvStore}

/-- The test of an offset and a size does not wrap. -/
theorem palTpmNvRangeValid_iff {offset size : ℕ} :
    palTpmNvRangeValid L offset size = true ↔ Fits L.size offset size := by
  unfold palTpmNvRangeValid Fits
  split_ifs with hzero hoffset
  · simp [hzero]
  · simp only [false_iff]
    omega
  · rw [decide_eq_true_iff]
    omega

/-- A byte of a range in the array. -/
theorem byteAt_contents {m : ByteMemory} {offset size i : ℕ} (hfits : Fits L.size offset size)
    (hi : i < size) : (L.contents m).byteAt (offset + i) = m (L.nv + offset + i) := by
  have hrange := hfits.resolve_left (by omega)
  rw [NvArray.byteAt, dif_pos (by omega), NvLayout.contents, Nat.add_assoc]

/-- Writes outside the array leave its contents. -/
theorem contents_congr {m m' : ByteMemory} (h : ∀ x, L.nv ≤ x → x < L.nv + L.size → m' x = m x) :
    L.contents m' = L.contents m :=
  funext fun i => h _ (Nat.le_add_right _ _) (Nat.add_lt_add_left i.isLt _)

/-- Replacing the bytes of a range replaces them in the array. -/
theorem contents_overwrite {m m' : ByteMemory} {offset size : ℕ} {f : ℕ → UInt8}
    (hinside : ∀ i < size, m' (L.nv + offset + i) = f i)
    (houtside : ∀ x, x < L.nv + offset ∨ L.nv + offset + size ≤ x → L.nv ≤ x → x < L.nv + L.size →
      m' x = m x) : L.contents m' = (L.contents m).overwrite offset size f := by
  funext i
  rw [NvArray.overwrite]
  split
  case isTrue hin =>
    have hbyte := hinside (i - offset) (by omega)
    rwa [Nat.add_assoc, Nat.add_sub_cancel' hin.1] at hbyte
  case isFalse hout => exact houtside _ (by omega) (Nat.le_add_right _ _) (by omega)

/-- A range of the second array is apart from the first. -/
theorem memset_written_nv {m : ByteMemory} {offset size x : ℕ} (hfits : Fits L.size offset size)
    (hlow : L.nv ≤ x) (hhigh : x < L.nv + L.size) :
    memset m (L.written + offset) 1 size x = m x := by
  have hapart := L.apart
  refine memset_outside m ?_
  rcases hfits with rfl | hrange <;> omega

/-- A range of the second array is apart from what lies outside both. -/
theorem memset_written_outside {m : ByteMemory} {offset size x : ℕ} (hfits : Fits L.size offset size)
    (hx : L.Outside x) : memset m (L.written + offset) 1 size x = m x := by
  have hwritten := hx.2
  refine memset_outside m ?_
  rcases hfits with rfl | hrange <;> omega

/-- A refused call. -/
theorem refused_behaves {c : NvCall} {ret : ℤ} (a : NvArray L.size) (hvalid : ¬c.Valid L.size)
    (hret : ¬c.Succeeds ret) : c.Behaves L a s ret s where
  succeeds := iff_of_false hret hvalid
  refused _ := rfl
  contents h := absurd h hvalid
  read _ _ _ _ h := absurd h hvalid
  changed _ _ _ _ h := absurd h hvalid
  client _ _ _ := rfl

/-- A call that replaces a range of the array and marks it as written. -/
theorem overwrite_behaves {c : NvCall} {ret : ℤ} {t : NvStore} {m : ByteMemory} {offset size : ℕ}
    {f : ℕ → UInt8} (hvalid : c.Valid L.size) (hret : c.Succeeds ret)
    (hnext : c.next (L.contents s.mem) (fun i => s.mem (c.buffer.1 + i)) =
      (L.contents s.mem).overwrite offset size f)
    (hread : ∀ startOffset size data, c ≠ .read startOffset size data)
    (hchanged : ∀ startOffset size data, c ≠ .getChangedStatus startOffset size data)
    (hfits : Fits L.size offset size) (ht : t.mem = memset m (L.written + offset) 1 size)
    (hinside : ∀ i < size, m (L.nv + offset + i) = f i)
    (houtside : ∀ x, x < L.nv + offset ∨ L.nv + offset + size ≤ x → m x = s.mem x) :
    c.Behaves L (L.contents s.mem) s ret t where
  succeeds := iff_of_true hret hvalid
  refused h := absurd hvalid h
  contents _ := by
    rw [ht, hnext, contents_congr fun x hlow hhigh => memset_written_nv hfits hlow hhigh]
    exact contents_overwrite hinside fun x hx _ _ => houtside x hx
  read startOffset size data hc := absurd hc (hread startOffset size data)
  changed startOffset size data hc := absurd hc (hchanged startOffset size data)
  client x hx _ := by
    rw [ht, memset_written_outside hfits hx, houtside x]
    have hnv := hx.1
    rcases hfits with rfl | hrange <;> omega

/-- `_plat__NvMemoryRead` reads the array. -/
theorem read_behaves {startOffset size data : ℕ} (hown : (NvCall.read startOffset size data).OwnBuffer L) :
    (NvCall.read startOffset size data).Behaves L (L.contents s.mem) s
      (platNvMemoryRead L s startOffset size data).1 (platNvMemoryRead L s startOffset size data).2 := by
  unfold platNvMemoryRead
  split
  case isTrue hrefused =>
    refine refused_behaves _ ?_ nofun
    rw [← Bool.not_eq_true, palTpmNvRangeValid_iff] at hrefused
    exact fun hvalid => hrefused.elim hvalid.2 (absurd hvalid.1)
  case isFalse haccepted =>
    rw [not_or, Bool.not_eq_false, palTpmNvRangeValid_iff] at haccepted
    have hvalid : (NvCall.read startOffset size data).Valid L.size := haccepted.symm
    have hnv : Apart data size L.nv L.size := (hown hvalid).1
    have hcopy (t : NvStore) (ht : t.mem = memcpy s.mem data (L.nv + startOffset) size) :
        (NvCall.read startOffset size data).Behaves L (L.contents s.mem) s 1 t := by
      refine ⟨iff_of_true rfl hvalid, fun h => absurd hvalid h, fun _ => ?_, ?_, nofun, ?_⟩
      · rw [ht]
        exact contents_congr fun x hlow hhigh => memcpy_outside _ (by omega)
      · rintro _ _ _ ⟨⟩ - i hi
        have hrange := hvalid.1.resolve_left (by omega)
        rw [ht, memcpy_inside _ (by omega) hi, byteAt_contents hvalid.1 hi]
      · intro x _ hx
        rw [ht, memcpy_outside _ (hx _ _ _ rfl)]
    split
    case isTrue hzero => exact hcopy s (by rw [hzero, memcpy])
    case isFalse => exact hcopy _ rfl

/-- `_plat__NvGetChangedStatus` compares with the array. -/
theorem getChangedStatus_behaves {startOffset size data : ℕ} :
    (NvCall.getChangedStatus startOffset size data).Behaves L (L.contents s.mem) s
      (platNvGetChangedStatus L s startOffset size data).1
      (platNvGetChangedStatus L s startOffset size data).2 := by
  unfold platNvGetChangedStatus
  split
  case isTrue hrefused =>
    refine refused_behaves _ ?_ fun h => h rfl
    rw [← Bool.not_eq_true, palTpmNvRangeValid_iff] at hrefused
    exact fun hvalid => hrefused.elim hvalid.2 (absurd hvalid.1)
  case isFalse haccepted =>
    rw [not_or, Bool.not_eq_false, palTpmNvRangeValid_iff] at haccepted
    have hvalid : (NvCall.getChangedStatus startOffset size data).Valid L.size := haccepted.symm
    have hsame : memcmp s.mem (L.nv + startOffset) data size = 0 ↔
        ¬∃ i < size, (L.contents s.mem).byteAt (startOffset + i) ≠ s.mem (data + i) := by
      rw [memcmp_eq_zero_iff]
      push Not
      exact forall₂_congr fun i hi => by rw [byteAt_contents hvalid.1 hi]
    have hcompare (ret : ℤ)
        (hret : ret = if memcmp s.mem (L.nv + startOffset) data size = 0 then 0 else 1) :
        (NvCall.getChangedStatus startOffset size data).Behaves L (L.contents s.mem) s ret s := by
      have hstatus : (ret = 1 ↔ ∃ i < size,
          (L.contents s.mem).byteAt (startOffset + i) ≠ s.mem (data + i)) ∧ (ret = 1 ∨ ret = 0) := by
        rw [hret]
        split
        case isTrue hequal => exact ⟨iff_of_false (by decide) (hsame.mp hequal), Or.inr rfl⟩
        case isFalse hdiff => exact ⟨iff_of_true rfl (not_not.mp (hdiff ∘ hsame.mpr)), Or.inl rfl⟩
      refine ⟨iff_of_true ?_ hvalid, fun _ => rfl, fun _ => rfl, nofun, ?_, fun _ _ _ => rfl⟩
      · rcases hstatus.2 with h | h <;> rw [h] <;> exact nofun
      · rintro _ _ _ ⟨⟩ -
        exact hstatus
    split
    case isTrue hzero => exact hcompare 0 (by rw [hzero, memcmp, if_pos rfl])
    case isFalse => exact hcompare _ rfl

/-- `_plat__NvMemoryWrite` replaces a range by the client's bytes. -/
theorem write_behaves {startOffset size data : ℕ} (hown : (NvCall.write startOffset size data).OwnBuffer L) :
    (NvCall.write startOffset size data).Behaves L (L.contents s.mem) s
      (platNvMemoryWrite L s startOffset size data).1 (platNvMemoryWrite L s startOffset size data).2 := by
  unfold platNvMemoryWrite
  split
  case isTrue hrefused =>
    refine refused_behaves _ ?_ nofun
    rw [← Bool.not_eq_true, palTpmNvRangeValid_iff] at hrefused
    exact fun hvalid => hrefused.elim hvalid.2 (absurd hvalid.1)
  case isFalse haccepted =>
    rw [not_or, Bool.not_eq_false, palTpmNvRangeValid_iff] at haccepted
    have hvalid : (NvCall.write startOffset size data).Valid L.size := haccepted.symm
    have hnv : Apart data size L.nv L.size := (hown hvalid).1
    have hcopy (t : NvStore) (ht : t.mem = memset (memcpy s.mem (L.nv + startOffset) data size)
        (L.written + startOffset) 1 size) :
        (NvCall.write startOffset size data).Behaves L (L.contents s.mem) s 1 t := by
      refine overwrite_behaves (f := fun i => s.mem (data + i)) hvalid rfl rfl nofun nofun hvalid.1 ht
        ?_ fun x hx => memcpy_outside _ hx
      intro i hi
      have hrange := hvalid.1.resolve_left (by omega)
      exact memcpy_inside _ (by omega) hi
    split
    case isTrue hzero => exact hcopy s (by rw [hzero, memset, memcpy])
    case isFalse => exact hcopy _ rfl

/-- `_plat__NvMemoryClear` fills a range. -/
theorem clear_behaves {startOffset size : ℕ} :
    (NvCall.clear startOffset size).Behaves L (L.contents s.mem) s
      (platNvMemoryClear L s startOffset size).1 (platNvMemoryClear L s startOffset size).2 := by
  unfold platNvMemoryClear
  split
  case isTrue hrefused =>
    refine refused_behaves _ ?_ nofun
    rwa [← Bool.not_eq_true, palTpmNvRangeValid_iff] at hrefused
  case isFalse haccepted =>
    rw [Bool.not_eq_false, palTpmNvRangeValid_iff] at haccepted
    have hfill (t : NvStore) (ht : t.mem = memset (memset s.mem (L.nv + startOffset) 0xff size)
        (L.written + startOffset) 1 size) :
        (NvCall.clear startOffset size).Behaves L (L.contents s.mem) s 1 t :=
      overwrite_behaves haccepted rfl rfl nofun nofun haccepted ht (fun i hi => memset_inside _ hi)
        fun x hx => memset_outside _ hx
    split
    case isTrue hzero => exact hfill s (by rw [hzero, memset, memset])
    case isFalse => exact hfill _ rfl

/-- `_plat__NvMemoryMove` replaces a range by another one, as it was before. -/
theorem move_behaves {sourceOffset destOffset size : ℕ} :
    (NvCall.move sourceOffset destOffset size).Behaves L (L.contents s.mem) s
      (platNvMemoryMove L s sourceOffset destOffset size).1
      (platNvMemoryMove L s sourceOffset destOffset size).2 := by
  unfold platNvMemoryMove
  split
  case isTrue hrefused =>
    refine refused_behaves _ ?_ nofun
    rw [← Bool.not_eq_true, ← Bool.not_eq_true, palTpmNvRangeValid_iff, palTpmNvRangeValid_iff]
      at hrefused
    exact fun hvalid => hrefused.elim (absurd hvalid.1) (absurd hvalid.2)
  case isFalse haccepted =>
    rw [not_or, Bool.not_eq_false, Bool.not_eq_false, palTpmNvRangeValid_iff,
      palTpmNvRangeValid_iff] at haccepted
    have hmoves := memmove_moves s.mem (L.nv + destOffset) (L.nv + sourceOffset) size
    have hmove (t : NvStore)
        (ht : t.mem = memset (memmove s.mem (L.nv + destOffset) (L.nv + sourceOffset) size)
          (L.written + destOffset) 1 size) :
        (NvCall.move sourceOffset destOffset size).Behaves L (L.contents s.mem) s 1 t := by
      refine overwrite_behaves (f := fun k => (L.contents s.mem).byteAt (sourceOffset + k)) haccepted
        rfl rfl nofun nofun haccepted.2 ht ?_ hmoves.outside
      intro i hi
      rw [hmoves.inside i hi, byteAt_contents haccepted.1 hi]
    split
    case isTrue hzero => exact hmove s (by rw [hzero, memset]; exact (if_pos (Or.inr rfl)).symm)
    case isFalse => exact hmove _ rfl

/-- Every call behaves as one on the array in the memory. -/
theorem NvCall.behaves (c : NvCall) (hown : c.OwnBuffer L) :
    c.Behaves L (L.contents s.mem) s (c.exec L s).1 (c.exec L s).2 := by
  cases c with
  | read startOffset size data => exact read_behaves hown
  | getChangedStatus startOffset size data => exact getChangedStatus_behaves
  | write startOffset size data => exact write_behaves hown
  | clear startOffset size => exact clear_behaves
  | move sourceOffset destOffset size => exact move_behaves

end Calls

/-! ## Runs of calls -/

/-- The store, and the array that the same calls leave. -/
structure NvSystem (L : NvLayout) where
  store : NvStore
  array : NvArray L.size

/-- A call, or a write of a client to its own memory. -/
inductive NvInput
  | call (c : NvCall)
  | client (addr : ℕ) (byte : UInt8)
deriving DecidableEq, Repr

section Runs

variable {L : NvLayout}

/-- Carry out an input. The array follows the calls alone and never looks at the store's own bytes. -/
def NvSystem.step (s : NvSystem L) : NvInput → NvSystem L
  | .call c => ⟨(c.exec L s.store).2,
      if c.Valid L.size then c.next s.array fun i => s.store.mem (c.buffer.1 + i) else s.array⟩
  | .client addr byte => { s with store := { s.store with mem := s.store.mem.poke addr byte } }

/-- Clients pass buffers of their own, and write outside the arrays. -/
def NvInput.Allowed (L : NvLayout) : NvInput → Prop
  | .call c => c.OwnBuffer L
  | .client addr _ => L.Outside addr

/-- One allowed input. -/
def NvStep (s : NvSystem L) (i : NvInput) (t : NvSystem L) : Prop := i.Allowed L ∧ t = s.step i

/-- An input keeps the array equal to the one in the memory. -/
theorem NvStep.contents_eq {s t : NvSystem L} {i : NvInput} (hstep : NvStep s i t)
    (h : L.contents s.store.mem = s.array) : L.contents t.store.mem = t.array := by
  obtain ⟨hallowed, rfl⟩ := hstep
  cases i with
  | call c =>
    have hbehaves := c.behaves (s := s.store) hallowed
    simp only [NvSystem.step]
    split
    case isTrue hvalid => rw [hbehaves.contents hvalid, h]
    case isFalse hrefused => rw [hbehaves.refused hrefused, h]
  | client addr byte =>
    have hnv := hallowed.1
    have hsame : L.contents (s.store.mem.poke addr byte) = L.contents s.store.mem :=
      contents_congr fun x hlow hhigh => ByteMemory.poke_of_ne _ (by omega)
    exact hsame.trans h

/-- **After every run of calls the NV store behaves as the array that the calls describe.** -/
theorem nv_store_behaves_of_run (s₀ s : NvSystem L) (inputs : List NvInput)
    (hstart : L.contents s₀.store.mem = s₀.array) (hrun : Run NvStep s₀ inputs s) :
    L.contents s.store.mem = s.array ∧
      ∀ c : NvCall, c.OwnBuffer L → c.Behaves L s.array s.store (c.exec L s.store).1 (c.exec L s.store).2 := by
  have harray : L.contents s.store.mem = s.array :=
    hrun.invariant (P := fun s => L.contents s.store.mem = s.array) hstart
      fun _ _ _ h hstep => hstep.contents_eq h
  exact ⟨harray, fun c hown => harray ▸ c.behaves hown⟩

end Runs

/-- The arrays of eight bytes at 64 and 128. -/
def smallNv : NvLayout := ⟨8, 64, 128, by decide⟩

/-- Clearing four bytes of an empty store, moving them two bytes up and reading five of them. -/
theorem nv_store_behaves_of_move :
    ∃ s : NvSystem smallNv, Run NvStep ⟨⟨fun _ => 0, true⟩, fun _ => 0⟩
        [.call (.clear 0 4), .call (.move 0 2 4)] s ∧
      s.array.byteAt 5 = 0xff ∧ (NvCall.exec smallNv s.store (.read 3 5 200)).1 = 1 ∧
      (NvCall.exec smallNv s.store (.read 3 5 200)).2.mem 202 = 0xff := by
  have hrun : Run NvStep (⟨⟨fun _ => 0, true⟩, fun _ => 0⟩ : NvSystem smallNv)
      (([] ++ [.call (.clear 0 4)]) ++ [.call (.move 0 2 4)]) _ :=
    .snoc (.snoc .nil ⟨fun _ => by decide, rfl⟩) ⟨fun _ => by decide, rfl⟩
  have hread := (nv_store_behaves_of_run _ _ _ rfl hrun).2 (.read 3 5 200) fun _ => by decide
  have hvalid : (NvCall.read 3 5 200).Valid smallNv.size := by decide
  refine ⟨_, hrun, by decide, hread.succeeds.mpr hvalid, ?_⟩
  rw [hread.read 3 5 200 rfl hvalid 2 (by decide)]
  decide

end FfaAcs.Platform
