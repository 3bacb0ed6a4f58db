import FfaAcs.Heap.Guarantees

/-!
# Cleared arrays

`val_calloc` multiplies its two arguments modulo `2 ^ 64`, and `val_malloc` rounds the product up,
modulo `2 ^ 64` again. When neither wraps, the array is inside its block and all of it is cleared.
When the product wraps, the block is smaller than the array; when the rounding wraps, the block
has next to no payload and the clear runs over everything behind it.
-/

namespace FfaAcs.Heap

open Machine Tiling Platform

/-- The byte belongs to the header of a block of the list. -/
def HeaderByte (buf : HeapBuffer) (h : HeapState) (y : ℕ) : Prop :=
  ∃ xs, TilesHeap buf h xs ∧ ∃ x ∈ xs, x ≤ y ∧ y < x + blockSize

/-- The result of asking for an array: NULL or a block in use that holds it and is cleared that far.
Apart from headers no byte outside the payload was written. -/
structure ClearedArray (buf : HeapBuffer) (h h' : HeapState) (q bytes : ℕ) : Prop where
  inUse : q ≠ 0 → InUse buf h' q
  size : q ≠ 0 → bytes ≤ payloadSize h'.mem q
  zero : q ≠ 0 → ∀ i < bytes, h'.mem (q + i) = 0
  frame : ∀ y, h'.mem y ≠ h.mem y →
    (q ≠ 0 ∧ q ≤ y ∧ y < q + payloadSize h'.mem q) ∨ HeaderByte buf h' y

section

variable {buf : HeapBuffer} {h h' : HeapState} {s : Client} {cs : List Cell} {n q y : ℕ}

/-- Initialisation writes the first header only. -/
theorem ensureInit_outside (hy : y < buf.base ∨ buf.base + blockSize ≤ y) :
    (ensureInit buf h).mem y = h.mem y := by
  rw [ensureInit]
  split
  · rfl
  · simp only [valInitHeap]
    rw [setPrev, store_offHeader hy (by decide), setNext, store_offHeader hy (by decide), setSize,
      store_offHeader hy (by decide), setFree, store_offHeader hy (by decide), setMagic,
      ByteMemory.store_outside _ (by
        have hheader : blockSize = 32 := rfl
        omega)]

/-- A byte that is not outside the headers of the cells is one of a header of the list. -/
theorem headerByte_of_not_offHeaders (hw : WellFormed buf h cs) (hy : ¬OffHeaders buf.base cs y) :
    HeaderByte buf h y := by
  simp only [OffHeaders, not_forall, not_or, not_lt, not_le] at hy
  obtain ⟨x, c, hx, hlow, hhigh⟩ := hy
  exact ⟨_, hw.tilesHeap, x, List.mem_map.mpr ⟨_, hx, rfl⟩, hlow, hhigh⟩

/-- The first header is one of the list. -/
theorem headerByte_first (hw : WellFormed buf h cs) (hlow : buf.base ≤ y)
    (hhigh : y < buf.base + blockSize) : HeaderByte buf h y := by
  obtain ⟨c, rest, rfl⟩ := hw.exists_cons
  refine headerByte_of_not_offHeaders hw fun hoff => ?_
  have hfirst := hoff buf.base c (by simp [place])
  omega

/-- NULL, with at most the initialisation done, is a result as promised. -/
theorem clearedArray_null (hw : WellFormed buf (ensureInit buf h) cs) :
    ClearedArray buf h (ensureInit buf h) 0 n := by
  refine ⟨fun hq => absurd rfl hq, fun hq => absurd rfl hq, fun hq => absurd rfl hq, fun y hy => ?_⟩
  by_contra hheader
  rw [not_or] at hheader
  refine hy (ensureInit_outside ?_)
  by_contra hfirst
  exact hheader.2 (headerByte_first hw (by omega) (by omega))

/-- The block of a call whose byte count does not wrap when it is rounded. It holds the array exactly
when the product of the arguments did not wrap either. -/
theorem clearedArray_iff {pre post : List Cell} {c : Cell} {bytes : ℕ}
    (hle : wrap64 bytes ≤ 2 ^ 64 - 8) (hfit : align (wrap64 bytes) ≤ c.size)
    (hw : WellFormed buf h' (pre ++ splitCells { c with free := false } (align (wrap64 bytes)) ++ post))
    (hzero : ∀ i < wrap64 bytes, h'.mem (buf.base + extent blockSize pre + blockSize + i) = 0)
    (hsame : ∀ y, OffHeaders buf.base (pre ++ splitCells { c with free := false }
        (align (wrap64 bytes)) ++ post) y →
      (y < buf.base + extent blockSize pre + blockSize ∨
        buf.base + extent blockSize pre + blockSize + wrap64 bytes ≤ y) →
      h'.mem y = (ensureInit buf h).mem y) :
    ClearedArray buf h h' (buf.base + extent blockSize pre + blockSize) bytes ↔ bytes ≤ 2 ^ 64 - 8 := by
  have hround := le_align hle
  obtain ⟨k, rest, hcut, hk, -⟩ := exists_splitCells (c := { c with free := false }) hfit
  rw [hcut, List.append_assoc] at hw hsame
  have hx := mem_place_middle blockSize buf.base pre ⟨k, false⟩ (rest ++ post)
  have hsize := hw.payloadSize_eq hx
  constructor
  · intro harray
    have hbytes := harray.size (by have := buf.notNull; omega)
    have haddr := hw.addr_lt
    rw [hsize] at hbytes
    simp only at hbytes haddr
    -- the block is inside the address space, so the product did not wrap
    rwa [wrap64_of_lt (by omega)] at hle
  · intro hbytes
    have hwrap : wrap64 bytes = bytes := wrap64_of_lt (by omega)
    rw [hwrap] at hzero hsame hround hk
    refine ⟨fun _ => hw.inUse hx rfl, fun _ => ?_, fun _ => hzero, fun y hy => ?_⟩
    · rw [hsize]
      exact hround.trans hk
    · rw [hsize]
      by_contra hheader
      rw [not_or] at hheader
      have hoff : OffHeaders buf.base (pre ++ (⟨k, false⟩ :: rest ++ post)) y := by
        by_contra hon
        exact hheader.2 (headerByte_of_not_offHeaders hw hon)
      have hout : y < buf.base + extent blockSize pre + blockSize ∨
          buf.base + extent blockSize pre + blockSize + bytes ≤ y := by
        by_contra hin
        refine hheader.1 ⟨by have := buf.notNull; omega, by omega, ?_⟩
        simp only
        omega
      refine hy ((hsame y hoff hout).trans (ensureInit_outside ?_))
      by_contra hfirst
      exact hheader.2 (headerByte_first hw (by omega) (by omega))

/-- Both factors of a product that does not wrap to zero are positive. -/
theorem pos_of_wrap64_mul {a b : ℕ} (h : 0 < wrap64 (a * b)) : 0 < a ∧ 0 < b := by
  have hprod : 0 < a * b := h.trans_le (Nat.mod_le _ _)
  exact ⟨Nat.pos_of_mul_pos_right hprod, Nat.pos_of_mul_pos_left hprod⟩

/-- `val_calloc` of a nonzero byte count works on the initialised heap. -/
theorem Sound.valCalloc_eq {nmemb size : ℕ} (hs : Sound buf s) (hpos : 0 < wrap64 (nmemb * size)) :
    valCalloc buf s.heap nmemb size = valCalloc buf (ensureInit buf s.heap) nmemb size := by
  have hmalloc := hs.valMalloc_eq hpos
  have hargs : ¬(size = 0 ∨ nmemb = 0) := by
    have := pos_of_wrap64_mul hpos
    omega
  simp only [valCalloc, if_neg hargs, hmalloc]

/-- Clearing behind a header leaves the size in it. -/
theorem payloadSize_memset {m : ByteMemory} {count : ℕ} (hq : blockSize ≤ q) :
    payloadSize (memset m q 0 count) q = payloadSize m q := by
  rw [payloadSize, payloadSize, loadBlock_congr fun x _ hx => memset_outside m (Or.inl (by omega))]

/-- A byte count whose rounding does not wrap. -/
theorem Sound.calloc_of_le {nmemb size : ℕ} (hs : Sound buf s) (hpos : 0 < wrap64 (nmemb * size))
    (hle : wrap64 (nmemb * size) ≤ 2 ^ 64 - 8) :
    ∃ q h', valCalloc buf s.heap nmemb size = .ok (q, h') ∧
      (ClearedArray buf s.heap h' q (nmemb * size) ↔
        nmemb * size ≤ 2 ^ 64 - 8 ∨ NoRoom buf s.heap (wrap64 (nmemb * size))) := by
  obtain ⟨cs, hw⟩ := hs.ensureInit_wellFormed
  obtain ⟨hnmemb, hsize⟩ := pos_of_wrap64_mul hpos
  rw [hs.valCalloc_eq hpos, noRoom_iff hw hpos]
  rcases valCalloc_wellFormed hw hsize hnmemb hpos hle with
    ⟨hnone, hsmall⟩ | ⟨pre, c, post, h', rfl, hfree, hfit, hsome, hw', hzero, hsame⟩
  · exact ⟨0, _, hnone, iff_of_true (clearedArray_null hw) (Or.inr hsmall)⟩
  · refine ⟨_, h', hsome, ?_⟩
    rw [clearedArray_iff hle hfit hw' hzero hsame]
    refine (or_iff_left fun hsmall => ?_).symm
    exact absurd (hsmall c (by simp) hfree) (by omega)

/-- A byte count whose rounding wraps gets NULL or a block that is too small. -/
theorem Sound.calloc_of_gt {nmemb size : ℕ} (hs : Sound buf s)
    (hgt : 2 ^ 64 - 8 < wrap64 (nmemb * size)) :
    ∃ q h', valCalloc buf s.heap nmemb size = .ok (q, h') ∧
      (ClearedArray buf s.heap h' q (nmemb * size) ↔
        nmemb * size ≤ 2 ^ 64 - 8 ∨ NoRoom buf s.heap (wrap64 (nmemb * size))) := by
  have hpos : 0 < wrap64 (nmemb * size) := by omega
  have hlarge : wrap64 (nmemb * size) ≤ nmemb * size := Nat.mod_le _ _
  have hargs : ¬(size = 0 ∨ nmemb = 0) := by
    have := pos_of_wrap64_mul hpos
    omega
  obtain ⟨cs, hw⟩ := hs.ensureInit_wellFormed
  rw [noRoom_iff hw hpos, or_iff_right (by omega), valCalloc, if_neg hargs]
  obtain ⟨q, h₁, hcall, -, hblock⟩ := hs.malloc_block (n := wrap64 (nmemb * size))
  have hnull := valMalloc_wellFormed hw hpos
  rw [← hs.valMalloc_eq hpos, hcall] at hnull
  simp only [hcall, bind, Except.bind]
  rcases hnull with ⟨hnone, hsmall⟩ | ⟨pre, c, post, h', rfl, hfree, hfit, -, hsome, -⟩
  · obtain ⟨rfl, rfl⟩ := Prod.mk.inj (Except.ok.inj hnone)
    exact ⟨0, _, rfl, iff_of_true (clearedArray_null hw) hsmall⟩
  · obtain ⟨rfl, rfl⟩ := Prod.mk.inj (Except.ok.inj hsome)
    have hbase := buf.notNull
    have hq : buf.base + extent blockSize pre + blockSize ≠ 0 := by omega
    rw [if_pos hq]
    refine ⟨_, _, rfl, iff_of_false (fun harray => ?_) fun hsmall => ?_⟩
    · -- the clear starts behind the header, which still has the small size
      have hheader : blockSize + alignment = 40 := rfl
      have hsmall := (hblock hq).2.2 (align_eq_zero hgt (wrap64_lt _))
      have hbytes := harray.size hq
      rw [payloadSize_memset (by omega)] at hbytes
      omega
    · exact absurd (hsmall c (by simp) hfree) (by omega)

end

/-- After every run, `val_calloc` returns a cleared array of the requested size, or NULL, and writes
nothing else but headers, exactly when the product of its arguments can be rounded up below
`2 ^ 64` or there is no room for what is left of it. -/
theorem calloc_cleared_iff (buf : HeapBuffer) (m : ByteMemory) (ops : List HeapOp) (s : Client)
    (hrun : Run (Step (Callable buf) buf) (Client.start m) ops s) (nmemb size : ℕ) :
    ∃ q h', valCalloc buf s.heap nmemb size = .ok (q, h') ∧
      (ClearedArray buf s.heap h' q (nmemb * size) ↔
        nmemb * size ≤ 2 ^ 64 - 8 ∨ NoRoom buf s.heap (wrap64 (nmemb * size))) := by
  have hs := run_sound hrun
  rcases Nat.eq_zero_or_pos (wrap64 (nmemb * size)) with hzero | hpos
  · -- nothing is left of the product, and nothing is allocated
    have hcall : valCalloc buf s.heap nmemb size = .ok (0, s.heap) := by
      rw [valCalloc, hzero]
      split <;> rfl
    refine ⟨0, s.heap, hcall, iff_of_true ?_ (Or.inr (Or.inl hzero))⟩
    exact ⟨fun hq => absurd rfl hq, fun hq => absurd rfl hq, fun hq => absurd rfl hq,
      fun y hy => absurd rfl hy⟩
  · rcases Nat.lt_or_ge (2 ^ 64 - 8) (wrap64 (nmemb * size)) with hgt | hle
    · exact hs.calloc_of_gt hgt
    · exact hs.calloc_of_le hpos hle

/-- A first array of three elements of ten bytes is cleared. -/
theorem calloc_cleared_first :
    ∃ q h', valCalloc firstPage (Client.start fun _ => 7).heap 3 10 = .ok (q, h') ∧
      ClearedArray firstPage (Client.start fun _ => 7).heap h' q 30 := by
  obtain ⟨q, h', hcall, hcleared⟩ := calloc_cleared_iff firstPage (fun _ => 7) [] _ .nil 3 10
  exact ⟨q, h', hcall, hcleared.mpr (Or.inl (by norm_num))⟩

/-- A first array of `2 ^ 61 + 1` elements of eight bytes gets a block of eight bytes. -/
theorem calloc_wraps_first :
    ∃ q h', valCalloc firstPage (Client.start fun _ => 7).heap (2 ^ 61 + 1) 8 = .ok (q, h') ∧ q ≠ 0 ∧
      payloadSize h'.mem q = 8 ∧
      ¬ClearedArray firstPage (Client.start fun _ => 7).heap h' q ((2 ^ 61 + 1) * 8) := by
  have heval : (valCalloc firstPage (Client.start fun _ => 7).heap (2 ^ 61 + 1) 8).map
      (fun r => (r.1, payloadSize r.2.mem r.1)) = .ok (4128, 8) := by
    decide +kernel
  obtain ⟨⟨q, h'⟩, hcall, hresult⟩ := exists_ok_of_map heval
  simp only [Prod.mk.injEq] at hresult
  obtain ⟨rfl, hsize⟩ := hresult
  refine ⟨_, h', hcall, by norm_num, hsize, fun harray => ?_⟩
  have hbytes := harray.size (by norm_num)
  rw [hsize] at hbytes
  omega

end FfaAcs.Heap
