import FfaAcs.Heap.Operations

/-!
# Allocation at an aligned address

`val_aligned_alloc` takes the first free block that passes its test, cuts the gap before the
aligned header off as a block of its own, cuts the tail off, and overwrites the size of what is
left. The gap becomes a block only when it has room for a header, and the tail only when more
than 40 bytes are left; the tests themselves wrap at the end of the address space.

`Placed` says that the header of the block that is marked lands right before the payload, and
`KeepsTail` that no tail is given up. Under both the blocks still tile the heap.
-/

namespace FfaAcs.Heap

open Machine Tiling Platform

/-- The payload address that `val_aligned_alloc` computes for the block at `x`. -/
def alignedPayload (alignment x : ℕ) : ℕ := alignTo (wrap64 (x + blockSize)) alignment

/-- The test of the aligned search on the block at `x`. -/
def HoldsAligned (alignment n x : ℕ) (c : Cell) : Prop :=
  sub64 (wrap64 (alignedPayload alignment x + n)) x ≤ wrap64 (c.size + blockSize)

instance (alignment n x : ℕ) (c : Cell) : Decidable (HoldsAligned alignment n x c) :=
  inferInstanceAs (Decidable (_ ≤ _))

/-- The block that `val_aligned_alloc` chooses, with the payload address it computes. -/
def chosenAligned (buf : HeapBuffer) (h : HeapState) (alignment n : ℕ) : Option (ℕ × ℕ) :=
  match findAligned blockLimit (ensureInit buf h).mem (ensureInit buf h).freeList alignment
      (align n) with
  | .ok choice => choice
  | .error _ => none

/-- The payload lies in the block, and the gap before its header is empty or has room for a header
of its own, with bytes left behind it. -/
def Placed (m : ByteMemory) (block aligned n : ℕ) : Prop :=
  block + blockSize ≤ aligned ∧ aligned + n ≤ block + blockSize + (loadBlock m block).size ∧
    (aligned = block + blockSize ∨ (block + 2 * blockSize ≤ aligned ∧
      aligned < block + blockSize + (loadBlock m block).size))

instance (m : ByteMemory) (block aligned n : ℕ) : Decidable (Placed m block aligned n) :=
  inferInstanceAs (Decidable (_ ∧ _ ∧ _))

/-- The tail behind the payload is empty or becomes a block. -/
def KeepsTail (m : ByteMemory) (block aligned n : ℕ) : Prop :=
  aligned + n = block + blockSize + (loadBlock m block).size ∨
    aligned + n + blockSize + alignment < block + blockSize + (loadBlock m block).size

instance (m : ByteMemory) (block aligned n : ℕ) : Decidable (KeepsTail m block aligned n) :=
  inferInstanceAs (Decidable (_ ∨ _))

/-- An aligned allocation that gives up no byte of the heap: neither a gap nor a tail is left that
no block covers. -/
def Tidy (buf : HeapBuffer) (h : HeapState) (alignment n : ℕ) : Prop :=
  ∀ choice ∈ chosenAligned buf h alignment n,
    Placed (ensureInit buf h).mem choice.1 choice.2 n ∧
      KeepsTail (ensureInit buf h).mem choice.1 choice.2 n

instance (buf : HeapBuffer) (h : HeapState) (alignment n : ℕ) :
    Decidable (Tidy buf h alignment n) :=
  inferInstanceAs (Decidable (∀ choice ∈ chosenAligned buf h alignment n, _))

/-! ## The search -/

section Search

variable {post : List Cell}

/-- The search of `val_aligned_alloc` finds the first free cell that passes its test. -/
theorem findAligned_linked {m : ByteMemory} {e p a : ℕ} (pre : List Cell) (fuel alignment n : ℕ)
    (hfuel : post.length < fuel) (ht : Tiled a e (pre ++ post)) (h : Linked m e p a (pre ++ post)) :
    findAligned fuel m (link e (a + extent blockSize pre)) alignment n = .ok none ∨
      ∃ mid c rest, post = mid ++ c :: rest ∧ c.free = true ∧
        HoldsAligned alignment n (a + extent blockSize (pre ++ mid)) c ∧
        findAligned fuel m (link e (a + extent blockSize pre)) alignment n =
          .ok (some (a + extent blockSize (pre ++ mid),
            alignedPayload alignment (a + extent blockSize (pre ++ mid)))) := by
  induction post generalizing pre fuel with
  | nil =>
    obtain ⟨fuel, rfl⟩ : ∃ k, fuel = k + 1 := ⟨fuel - 1, by omega⟩
    have hend : link e (a + extent blockSize pre) = 0 := if_pos (by simpa using ht.total)
    exact Or.inl (by rw [hend]; rfl)
  | cons c post ih =>
    obtain ⟨fuel, rfl⟩ : ∃ k, fuel = k + 1 := ⟨fuel - 1, by omega⟩
    have hpos := ht.notNull
    have hhere : link e (a + extent blockSize pre) = a + extent blockSize pre := by
      have htotal := ht.total
      have hheader : blockSize = 32 := rfl
      simp only [extent_append, extent] at htotal
      exact if_neg (by omega)
    have hstep : findAligned (fuel + 1) m (a + extent blockSize pre) alignment n =
        if c.free = true ∧ HoldsAligned alignment n (a + extent blockSize pre) c then
          .ok (some (a + extent blockSize pre, alignedPayload alignment (a + extent blockSize pre)))
        else findAligned fuel m (link e (a + extent blockSize (pre ++ [c]))) alignment n := by
      have hnext : a + extent blockSize (pre ++ [c]) =
          a + extent blockSize pre + blockSize + c.size := by
        simp only [extent_append, extent]
        omega
      rw [findAligned, if_neg (by omega), h.header, hnext]
      simp only [headerOf, Bool.toNat_eq_zero]
      cases hfree : c.free with
      | false => simp
      | true =>
        simp only [Bool.true_eq_false, if_false, true_and]
        rfl
    rw [hhere, hstep]
    split
    case isTrue hfit => exact Or.inr ⟨[], c, post, rfl, hfit.1, by simpa using hfit.2, by simp⟩
    case isFalse hfit =>
      rcases ih (pre ++ [c]) fuel (by simpa using hfuel) (by simpa using ht) (by simpa using h) with
        hnone | ⟨mid, d, rest, rfl, hfree, hholds, hsome⟩
      · exact Or.inl hnone
      · exact Or.inr ⟨c :: mid, d, rest, rfl, hfree, by simpa using hholds, by simpa using hsome⟩

/-- On a well-formed heap the choice is a free cell that passes the test, or there is none. -/
theorem WellFormed.chosenAligned_cases {buf : HeapBuffer} {h : HeapState} {cs : List Cell}
    (hw : WellFormed buf h cs) (alignment n : ℕ) :
    (findAligned blockLimit h.mem h.freeList alignment (align n) = .ok none ∧
        chosenAligned buf h alignment n = none) ∨
      ∃ pre c post, cs = pre ++ c :: post ∧ c.free = true ∧
        HoldsAligned alignment (align n) (buf.base + extent blockSize pre) c ∧
        findAligned blockLimit h.mem h.freeList alignment (align n) =
          .ok (some (buf.base + extent blockSize pre,
            alignedPayload alignment (buf.base + extent blockSize pre))) ∧
        chosenAligned buf h alignment n = some (buf.base + extent blockSize pre,
          alignedPayload alignment (buf.base + extent blockSize pre)) := by
  have hstart : link buf.limit (buf.base + extent blockSize []) = h.freeList := by
    rw [hw.head]
    exact if_neg (by simp [extent, HeapBuffer.limit, platformHeapBufSize])
  have hsearch := findAligned_linked [] blockLimit alignment (align n) hw.tiled.length_lt hw.tiled
    hw.linked
  rw [hstart] at hsearch
  rw [chosenAligned, hw.ensureInit_eq]
  rcases hsearch with hnone | ⟨pre, c, post, hcs, hfree, hholds, hsome⟩
  · exact Or.inl ⟨hnone, by rw [hnone]⟩
  · exact Or.inr ⟨pre, c, post, hcs, hfree, hholds, hsome, by rw [hsome]; rfl⟩

/-- `val_aligned_alloc` rejects an alignment that is small or no power of two, and a size that is not
a multiple of it. -/
theorem valAlignedAlloc_rejected {buf : HeapBuffer} {h : HeapState} {a n : ℕ}
    (hrejected : a < 8 ∨ a &&& (a - 1) ≠ 0 ∨ n % a ≠ 0) : valAlignedAlloc buf h a n = .ok (0, h) := by
  rw [valAlignedAlloc]
  split
  · rfl
  · rw [if_pos (by tauto)]

/-- `val_aligned_alloc` with an alignment and a size that it accepts. -/
theorem valAlignedAlloc_eq (buf : HeapBuffer) (h : HeapState) {alignment n : ℕ}
    (hlow : 8 ≤ alignment) (hpow : alignment &&& (alignment - 1) = 0) (hn : n % alignment = 0) :
    valAlignedAlloc buf h alignment n =
      (findAligned blockLimit (ensureInit buf h).mem (ensureInit buf h).freeList alignment
        (align n)).bind fun
        | none => .ok (0, ensureInit buf h)
        | some (block, aligned) => placeAligned (ensureInit buf h) block aligned (align n) := by
  rw [valAlignedAlloc, if_neg (by omega), if_neg (by omega)]
  rfl

end Search

/-- The alignments that `val_aligned_alloc` accepts. -/
theorem exists_alignment {a : ℕ} (hlow : 8 ≤ a) (hhigh : a < 2 ^ 64) (hpow : a &&& (a - 1) = 0) :
    ∃ k, a = 2 ^ k ∧ 3 ≤ k ∧ k < 64 := by
  obtain ⟨k, rfl⟩ := exists_two_pow_of_land_pred (by omega) hpow
  refine ⟨k, rfl, ?_, (Nat.pow_lt_pow_iff_right (by norm_num)).mp hhigh⟩
  exact (Nat.pow_le_pow_iff_right (a := 2) (by norm_num)).mp hlow

/-- The payload address as a quotient. -/
theorem alignedPayload_eq {k : ℕ} (hk : k ≤ 64) (x : ℕ) :
    alignedPayload (2 ^ k) x = wrap64 (wrap64 (x + blockSize) + (2 ^ k - 1)) / 2 ^ k * 2 ^ k :=
  land_not64 hk (wrap64_lt _)

/-- A multiple of an accepted alignment is a multiple of eight. -/
theorem mod_eight_of_mod {k n : ℕ} (hk : 3 ≤ k) (hn : n % 2 ^ k = 0) : n % 8 = 0 :=
  Nat.mod_eq_zero_of_dvd ((pow_dvd_pow 2 hk).trans (Nat.dvd_of_mod_eq_zero hn))

/-- Rounding leaves an accepted size alone. -/
theorem align_of_mod {n : ℕ} (hn : n % 8 = 0) (hlt : n < 2 ^ 64) : align n = n := by
  rw [align_eq (by omega)]
  omega

/-! ## The two cuts -/

/-- The last steps of `val_aligned_alloc` on a block of `k` bytes: the second cut and the marks. -/
def takeTail (m : ByteMemory) (block k n : ℕ) : ByteMemory :=
  setFree (setSize (if wrap64 (n + blockSize + alignment) < k then valSplit m block n else m)
    block n) block 0

section Place

variable {buf : HeapBuffer} {h : HeapState} {pre post : List Cell} {c : Cell}

/-- Taking the first bytes of a free cell when the tail is empty or long enough for the code's
test, which asks for one byte more than `val_split`. -/
theorem takeTail_linked {m : ByteMemory} {e p a k n : ℕ} (ht : Tiled a e (pre ++ ⟨k, true⟩ :: post))
    (h : Linked m e p a (pre ++ ⟨k, true⟩ :: post))
    (htail : n = k ∨ n + blockSize + alignment < k) :
    Linked (takeTail m (a + extent blockSize pre) k n) e p a
      (pre ++ splitCells ⟨k, false⟩ n ++ post) := by
  have hheader : blockSize = 32 := rfl
  have halign : alignment = 8 := rfl
  have hroom : k + blockSize ≤ 512 * 1024 := ht.size_le
  have hnowrap : wrap64 (n + blockSize + alignment) = n + blockSize + alignment :=
    wrap64_of_lt (by omega)
  have hcut : Linked (if wrap64 (n + blockSize + alignment) < k then
      valSplit m (a + extent blockSize pre) n else m) e p a
        (pre ++ splitCells ⟨k, true⟩ n ++ post) := by
    rw [hnowrap]
    rcases htail with rfl | hlong
    · rw [if_neg (by omega), splitCells, if_neg (by simp only; omega)]
      simpa using h
    · rw [if_pos hlong]
      exact valSplit_linked (by simp only; omega) ht h
  obtain ⟨rest, hrest⟩ : ∃ rest, splitCells ⟨k, true⟩ n = ⟨n, true⟩ :: rest := by
    rcases htail with rfl | hlong
    · exact ⟨[], if_neg (by simp only; omega)⟩
    · exact ⟨_, if_pos (by simp only; omega)⟩
  refine Linked.markUsed (c := ⟨k, true⟩) (by simp only; omega) ?_
  rw [hrest, List.append_assoc] at hcut ⊢
  refine hcut.replace _ rfl ?_ fun y hy => loadBlock_setSize_apart _ _ _ hy
  rw [loadBlock_setSize_same, hcut.header, headerOf, Nat.mod_eq_of_lt (by omega)]

/-- A header address that is not below the block and not half the address space away. -/
theorem leadingSpace_eq {x z : ℕ} (hlow : x ≤ z) (hhigh : z < 2 ^ 64) (hnear : z < x + 2 ^ 63) :
    leadingSpace z x = z - x := by
  rw [leadingSpace, sub64_of_le hlow hhigh]
  exact if_pos (by omega)

/-- Without a leading cut the block keeps its place. -/
theorem placeAligned_inPlace {x y k n : ℕ} (hleading : leadingSpace (sub64 y blockSize) x < blockSize)
    (hsize : (loadBlock h.mem x).size = k) (hpos : x ≠ 0) :
    placeAligned h x y n =
      .ok (wrap64 (sub64 y blockSize + blockSize), { h with mem := takeTail h.mem x k n }) := by
  simp only [placeAligned, if_neg (Nat.not_le.mpr hleading), if_neg hpos, hsize, takeTail]

/-- With a leading cut the block is the one behind the gap. -/
theorem placeAligned_cut {x y z g k n : ℕ}
    (hleading : leadingSpace (sub64 y blockSize) x = g + blockSize)
    (hnext : (loadBlock (valSplit h.mem x g) x).next = z) (hpos : z ≠ 0)
    (hsize : (loadBlock (valSplit h.mem x g) z).size = k) :
    placeAligned h x y n = .ok (wrap64 (sub64 y blockSize + blockSize),
      { h with mem := takeTail (valSplit h.mem x g) z k n }) := by
  have hleads : blockSize ≤ g + blockSize := Nat.le_add_left _ _
  simp only [placeAligned, hleading, Nat.add_sub_cancel, if_pos hleads, hnext, hsize, if_neg hpos,
    takeTail]

/-- Blocks start at multiples of eight. -/
theorem WellFormed.addr_mod (hw : WellFormed buf h (pre ++ post)) :
    (buf.base + extent blockSize pre) % alignment = 0 := by
  have hpre := aligned_extent fun d hd => hw.aligned d (List.mem_append_left post hd)
  have hpage := buf.pageAligned
  simp only [alignment] at *
  omega

/-- The cells of the leading cut: the gap and the rest of the free cell. -/
theorem leadingCut_linked {g : ℕ} (hw : WellFormed buf h (pre ++ c :: post))
    (hfree : c.free = true) (hroom : g + blockSize + alignment ≤ c.size) :
    Linked (valSplit h.mem (buf.base + extent blockSize pre) g) buf.limit 0 buf.base
        ((pre ++ [⟨g, true⟩]) ++ ⟨c.size - g - blockSize, true⟩ :: post) ∧
      (loadBlock (valSplit h.mem (buf.base + extent blockSize pre) g)
        (buf.base + extent blockSize pre)).next = buf.base + extent blockSize (pre ++ [⟨g, true⟩]) := by
  have hheader : blockSize = 32 := rfl
  have hcells : pre ++ splitCells c g ++ post =
      pre ++ ⟨g, true⟩ :: ⟨c.size - g - blockSize, true⟩ :: post := by
    rw [splitCells, if_pos hroom, hfree, List.append_assoc]
    rfl
  have hlinked := valSplit_linked (n := g) (by omega) hw.tiled hw.linked
  have htiled : Tiled buf.base buf.limit (pre ++ splitCells c g ++ post) := by
    refine hw.tiled.of_extent_eq ?_
    simp only [extent_append, extent_splitCells, extent]
    omega
  rw [hcells] at hlinked htiled
  refine ⟨by simpa using hlinked, ?_⟩
  rw [hlinked.header, headerOf, link_of_cons htiled]
  simp only [extent_append, extent]
  omega

/-- The steps before the marks: the cells up to the marked one, its size, and the memory. -/
theorem placeAligned_linked {y n : ℕ} (hw : WellFormed buf h (pre ++ c :: post))
    (hfree : c.free = true) (hy : y % alignment = 0)
    (hplaced : Placed h.mem (buf.base + extent blockSize pre) y n) :
    ∃ pre₁ k m, (pre₁ = pre ∨ ∃ g, pre₁ = pre ++ [⟨g, true⟩] ∧ g % alignment = 0) ∧
      y = buf.base + extent blockSize pre₁ + blockSize ∧
      y + k = buf.base + extent blockSize pre + blockSize + c.size ∧
      Linked m buf.limit 0 buf.base (pre₁ ++ ⟨k, true⟩ :: post) ∧
      placeAligned h (buf.base + extent blockSize pre) y n =
        .ok (y, { h with mem := takeTail m (buf.base + extent blockSize pre₁) k n }) := by
  have hheader : blockSize = 32 := rfl
  have halign : alignment = 8 := rfl
  have hbase := buf.notNull
  have haddr := hw.addr_lt
  have hstart := hw.addr_mod
  have hmultiple := hw.aligned c (by simp)
  have hroom : c.size + blockSize ≤ 512 * 1024 := hw.tiled.size_le
  have hsize : (loadBlock h.mem (buf.base + extent blockSize pre)).size = c.size := by
    rw [hw.linked.header, headerOf]
  have hcell : c = ⟨c.size, true⟩ := by rw [← hfree]
  rw [Placed, hsize] at hplaced
  obtain ⟨hlow, hfit, hgap⟩ := hplaced
  have hsub : sub64 y blockSize = y - blockSize := sub64_of_le (by omega) (by omega)
  have hptr : wrap64 (y - blockSize + blockSize) = y := by
    rw [wrap64_of_lt (by omega)]
    omega
  have hleading : leadingSpace (sub64 y blockSize) (buf.base + extent blockSize pre) =
      y - blockSize - (buf.base + extent blockSize pre) := by
    rw [hsub]
    exact leadingSpace_eq (by omega) (by omega) (by omega)
  rcases hgap with rfl | ⟨hgap, hleft⟩
  · refine ⟨pre, c.size, h.mem, Or.inl rfl, rfl, rfl, by rw [← hcell]; exact hw.linked, ?_⟩
    rw [placeAligned_inPlace (by omega) hsize (by omega), hsub, hptr]
  · -- the sizes are multiples of eight, so a nonempty rest is large enough for the first cut
    obtain ⟨g, rfl⟩ := Nat.exists_eq_add_of_le hgap
    rw [halign] at hy hstart hmultiple
    obtain ⟨hlinked, hnext⟩ := leadingCut_linked hw hfree (g := g) (by omega)
    have hend : buf.base + extent blockSize (pre ++ [⟨g, true⟩]) =
        buf.base + extent blockSize pre + blockSize + g := by
      simp only [extent_append, extent]
      omega
    refine ⟨pre ++ [⟨g, true⟩], c.size - g - blockSize, _,
      Or.inr ⟨g, rfl, by rw [halign]; omega⟩, by omega, by omega, hlinked, ?_⟩
    rw [placeAligned_cut (g := g) (by omega) hnext (by omega) (by rw [hlinked.header, headerOf]),
      hsub, hptr]

/-- A cell of another size with the same flag keeps the tiling coalesced. -/
theorem coalesced_resize {d : Cell} (h : Coalesced (pre ++ c :: post)) (hflag : d.free = c.free) :
    Coalesced (pre ++ d :: post) := by
  obtain ⟨hpre, hc, hjoin⟩ := List.isChain_append.mp h
  obtain ⟨hhead, hpost⟩ := List.isChain_cons.mp hc
  refine coalesced_join hpre hpost ?_ ?_
  · intro b hb
    rw [hflag]
    exact hjoin b hb c rfl
  · intro b hb
    rw [hflag]
    exact hhead b hb

/-- A free cell cut off before the taken one keeps the tiling coalesced. -/
theorem coalesced_gap {g k n : ℕ} (h : Coalesced (pre ++ ⟨k, true⟩ :: post)) (hn : n ≤ k) :
    Coalesced ((pre ++ [⟨g, true⟩]) ++ splitCells ⟨k, false⟩ n ++ post) := by
  have htaken : Coalesced (pre ++ splitCells ⟨k, false⟩ n ++ post) := coalesced_take h rfl
  have hgap : Coalesced (pre ++ [⟨g, true⟩]) := by
    have hresized := coalesced_resize (d := ⟨g, true⟩) h rfl
    rw [← List.singleton_append, ← List.append_assoc] at hresized
    exact hresized.left
  obtain ⟨k', rest, -, -, -, hk⟩ := splitCells_eq_cons (c := ⟨k, true⟩) hn
  rw [hk false, List.append_assoc] at htaken ⊢
  exact coalesced_join hgap htaken.right.tail (by simp) (by simp)

/-- A tidy placement leaves the gap, the marked cell and the tail in the place of the free cell. -/
theorem placeAligned_wellFormed {y n : ℕ} (hw : WellFormed buf h (pre ++ c :: post))
    (hfree : c.free = true) (hy : y % alignment = 0) (hn : n % alignment = 0)
    (hplaced : Placed h.mem (buf.base + extent blockSize pre) y n)
    (htail : KeepsTail h.mem (buf.base + extent blockSize pre) y n) :
    ∃ pre₁ k h', (pre₁ = pre ∨ ∃ g, pre₁ = pre ++ [⟨g, true⟩]) ∧ n ≤ k ∧
      y = buf.base + extent blockSize pre₁ + blockSize ∧
      y + k = buf.base + extent blockSize pre + blockSize + c.size ∧
      placeAligned h (buf.base + extent blockSize pre) y n = .ok (y, h') ∧
      WellFormed buf h' (pre₁ ++ splitCells ⟨k, false⟩ n ++ post) := by
  have hheader : blockSize = 32 := rfl
  have halign : alignment = 8 := rfl
  have hsize : (loadBlock h.mem (buf.base + extent blockSize pre)).size = c.size := by
    rw [hw.linked.header, headerOf]
  obtain ⟨pre₁, k, m, hpre₁, hptr, hend, hlinked, hrun⟩ := placeAligned_linked hw hfree hy hplaced
  rw [KeepsTail, hsize] at htail
  have hextent : extent blockSize (pre₁ ++ ⟨k, true⟩ :: post) =
      extent blockSize (pre ++ c :: post) := by
    simp only [extent_append, extent]
    omega
  have htaken := takeTail_linked (hw.tiled.of_extent_eq hextent) hlinked (n := n) (by omega)
  have hcells : Coalesced (pre ++ ⟨k, true⟩ :: post) := coalesced_resize hw.coalesced hfree.symm
  have hsizes : ∀ d ∈ pre₁ ++ ⟨k, true⟩ :: post, d.size % alignment = 0 := by
    have hall := hw.aligned
    have hc := hall c (by simp)
    have hstart := hw.addr_mod
    have hk : k % alignment = 0 := by
      rw [halign] at hy hc hstart ⊢
      omega
    rcases hpre₁ with rfl | ⟨g, rfl, hg⟩
    · simp only [List.mem_append, List.mem_cons] at hall ⊢
      rintro d (hd | rfl | hd)
      exacts [hall d (Or.inl hd), hk, hall d (Or.inr (Or.inr hd))]
    · simp only [List.mem_append, List.mem_cons, List.not_mem_nil, or_false] at hall ⊢
      rintro d ((hd | rfl) | rfl | hd)
      exacts [hall d (Or.inl hd), hg, hk, hall d (Or.inr (Or.inr hd))]
  refine ⟨pre₁, k, _, hpre₁.imp_right (Exists.imp fun _ => And.left), by omega, hptr, hend, hrun,
    hw.edit ?_ (aligned_take hsizes hn) ?_ htaken⟩
  · rw [← hextent]
    simp only [extent_append, extent_splitCells, extent]
    omega
  · rcases hpre₁ with rfl | ⟨g, rfl, -⟩
    · exact coalesced_take hcells rfl
    · exact coalesced_gap hcells (by omega)

/-- `val_aligned_alloc` on a well-formed heap, when it gives up no byte. -/
theorem valAlignedAlloc_wellFormed {cs : List Cell} {a n : ℕ} (hw : WellFormed buf h cs)
    (ha : a < 2 ^ 64) (hn : n < 2 ^ 64) (htidy : Tidy buf h a n) :
    valAlignedAlloc buf h a n = .ok (0, h) ∨
      ∃ pre c post pre₁ k h', cs = pre ++ c :: post ∧ c.free = true ∧
        (pre₁ = pre ∨ ∃ g, pre₁ = pre ++ [⟨g, true⟩]) ∧ n ≤ k ∧
        extent blockSize pre₁ + k = extent blockSize pre + c.size ∧
        valAlignedAlloc buf h a n = .ok (buf.base + extent blockSize pre₁ + blockSize, h') ∧
        WellFormed buf h' (pre₁ ++ splitCells ⟨k, false⟩ n ++ post) := by
  by_cases hrejected : a < 8 ∨ a &&& (a - 1) ≠ 0 ∨ n % a ≠ 0
  · exact Or.inl (valAlignedAlloc_rejected hrejected)
  · simp only [ne_eq, not_or, Nat.not_lt, not_not] at hrejected
    obtain ⟨hlow, hpow, hmod⟩ := hrejected
    have henter := valAlignedAlloc_eq buf h hlow hpow hmod
    obtain ⟨k, rfl, hk, hk'⟩ := exists_alignment hlow ha hpow
    have hround := align_of_mod (mod_eight_of_mod hk hmod) hn
    rw [hw.ensureInit_eq] at henter
    rcases hw.chosenAligned_cases (2 ^ k) n with
      ⟨hnone, -⟩ | ⟨pre, c, post, rfl, hfree, -, hsome, hchosen⟩
    · left
      rw [henter, hnone, Except.bind]
    · right
      obtain ⟨hplaced, htail⟩ := htidy _ hchosen
      rw [hw.ensureInit_eq] at hplaced htail
      have hy : alignedPayload (2 ^ k) (buf.base + extent blockSize pre) % alignment = 0 := by
        refine mod_eight_of_mod hk ?_
        rw [alignedPayload_eq (by omega)]
        exact Nat.mul_mod_left _ _
      obtain ⟨pre₁, k₁, h', hpre₁, hle, hptr, hend, hrun, hw'⟩ :=
        placeAligned_wellFormed hw hfree hy (mod_eight_of_mod hk hmod) hplaced htail
      refine ⟨pre, c, post, pre₁, k₁, h', rfl, hfree, hpre₁, hle, by omega, ?_, hw'⟩
      rw [henter, hsome, Except.bind, hround]
      simp only
      rw [hrun, hptr]

end Place

end FfaAcs.Heap
