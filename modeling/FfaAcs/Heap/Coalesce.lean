import FfaAcs.Heap.BlockList

/-!
# Splitting, merging and searching the block list

Each internal function of the allocator, run on a memory that holds a tiled list, is one
operation on the list of cells. The merging loops absorb whole runs of free cells on both
sides, and they start from a block in use as well as from a free one.
-/

namespace FfaAcs.Heap

open Machine Tiling

section

variable {m : ByteMemory} {e p a : ℕ} {pre post : List Cell} {c : Cell}

/-- One step of the forward loop merges the free block behind a block into it. -/
theorem coalesceForward_merge {block toRemove : ℕ} (fuel : ℕ)
    (hnext : (loadBlock m block).next = toRemove) (hpos : toRemove ≠ 0)
    (hfree : (loadBlock m toRemove).free ≠ 0) (hbelow : block + blockSize ≤ toRemove)
    (hlt : (loadBlock m toRemove).next < 2 ^ 64) :
    coalesceForward (fuel + 1) m block =
      coalesceForward fuel (mergeMem m block toRemove
        ((loadBlock m block).size + (blockSize + (loadBlock m toRemove).size))
        (loadBlock m toRemove).next) block := by
  have hheader : blockSize = 32 := rfl
  rw [coalesceForward, hnext, if_pos ⟨hpos, hfree⟩]
  simp (disch := omega) only [mergeMem, relinkNext, loadBlock_setSize_apart, loadBlock_setNext_same,
    loadBlock_setMagic_apart, Nat.mod_eq_of_lt]

/-- In a tiled list that is the merge of two neighbouring cells. -/
private theorem forward_step (d : Cell) (ht : Tiled a e (pre ++ c :: d :: post))
    (h : Linked m e p a (pre ++ c :: d :: post)) (hd : d.free = true) (fuel : ℕ) :
    coalesceForward (fuel + 1) m (a + extent blockSize pre) =
      coalesceForward fuel (mergeMem m (a + extent blockSize pre)
        (a + extent blockSize pre + blockSize + c.size) (c.size + (blockSize + d.size))
        (link e (a + extent blockSize pre + blockSize + c.size + blockSize + d.size)))
        (a + extent blockSize pre) := by
  have htotal := ht.total
  have hbound := ht.bound
  have hpos := ht.notNull
  have hlink := link_of_cons ht
  obtain ⟨-, hc, hd', -⟩ := (linked_append ..).mp h
  simp only [extent_append, extent] at htotal
  generalize hy : a + extent blockSize pre = y at *
  have hlast : link e (y + blockSize + c.size + blockSize + d.size) < 2 ^ 64 := by
    unfold link; split <;> omega
  have hnext : (loadBlock m y).next = y + blockSize + c.size := by rw [hc, headerOf, hlink]
  rw [coalesceForward_merge fuel hnext (by omega) (by simp [hd', headerOf, hd]) (by omega)
    (by rw [hd']; exact hlast), hc, hd', headerOf, headerOf]

/-- Forward merging absorbs the free cells behind the block, and writes only headers. From a free
block it keeps released headers. -/
theorem coalesceForward_linked (fuel : ℕ) (hfuel : post.length < fuel)
    (ht : Tiled a e (pre ++ c :: post)) (h : Linked m e p a (pre ++ c :: post)) :
    ∃ m', coalesceForward fuel m (a + extent blockSize pre) = .ok m' ∧
      Linked m' e p a (pre ++ ⟨c.size + extent blockSize (post.takeWhile (·.free)), c.free⟩ ::
        post.dropWhile (·.free)) ∧
      (∀ y, OffHeaders a (pre ++ c :: post) y → m' y = m y) ∧
      ∀ x, c.free = true → Released m a (pre ++ c :: post) x →
        Released m' a (pre ++ ⟨c.size + extent blockSize (post.takeWhile (·.free)), c.free⟩ ::
          post.dropWhile (·.free)) x := by
  -- the invariant is the linked list itself; each step shortens the cells behind the block
  induction post generalizing m c fuel with
  | nil =>
    obtain ⟨fuel, rfl⟩ : ∃ k, fuel = k + 1 := ⟨fuel - 1, by omega⟩
    refine ⟨m, ?_, by simpa [extent] using h, fun y _ => rfl, fun x _ hx => by simpa [extent] using hx⟩
    rw [coalesceForward, h.header, headerOf, (link_eq_zero_iff ht).mpr rfl]
    rfl
  | cons d post ih =>
    obtain ⟨fuel, rfl⟩ : ∃ k, fuel = k + 1 := ⟨fuel - 1, by omega⟩
    cases hd : d.free with
    | false =>
      refine ⟨m, ?_, by simpa [hd, extent] using h, fun y _ => rfl,
        fun x _ hx => by simpa [hd, extent] using hx⟩
      have hnext : loadBlock m (a + extent blockSize pre + blockSize + c.size) =
          headerOf e (a + extent blockSize pre) _ d := ((linked_append ..).mp h).2.2.1
      rw [coalesceForward, h.header, headerOf, link_of_cons ht]
      simp only [hnext, headerOf, hd, Bool.toNat_false, ne_eq, not_true_eq_false, and_false, if_false]
    | true =>
      have ht' : Tiled a e (pre ++ ⟨c.size + (blockSize + d.size), c.free⟩ :: post) :=
        ht.of_extent_eq (by simp only [extent_append, extent]; omega)
      obtain ⟨m', hrun, hlinked, hsame, hreleased⟩ := ih fuel (by simpa using hfuel) ht' (h.merge ht)
      refine ⟨m', by rw [forward_step d ht h hd, hrun], ?_, fun y hy => ?_, fun x hc hx => ?_⟩
      · simpa [hd, extent, Nat.add_assoc] using hlinked
      · rw [hsame y hy.join, mergeMem_offHeaders ht hy]
      · simpa [hd, extent, Nat.add_assoc] using hreleased x hc (hx.merge ht hc)

/-- One step of the backward loop merges a block into the free block before it. -/
theorem coalesceBackward_merge {block prev z : ℕ} (fuel : ℕ) (hprev : (loadBlock m block).prev = prev)
    (hpos : prev ≠ 0) (hfree : (loadBlock m prev).free ≠ 0) (hbelow : prev + blockSize ≤ block)
    (hnext : (loadBlock m block).next = link e z) (habove : block + blockSize ≤ z) :
    coalesceBackward (fuel + 1) m block =
      coalesceBackward fuel (mergeMem m prev block
        ((loadBlock m prev).size + (blockSize + (loadBlock m block).size)) (link e z)) prev := by
  have hheader : blockSize = 32 := rfl
  have hrelink (m' : ByteMemory) : loadBlock (relinkNext m' (link e z) prev) block =
      loadBlock m' block := loadBlock_relinkNext_below habove
  unfold relinkNext at hrelink
  rw [coalesceBackward, hprev, if_pos ⟨hpos, hfree⟩]
  simp (disch := omega) only [mergeMem, relinkNext, loadBlock_setSize_apart,
    loadBlock_setNext_apart, loadBlock_setMagic_same, hrelink, hprev, hnext]

/-- In a tiled list that is the merge of two neighbouring cells, seen from the second block. -/
private theorem backward_step (b : Cell) (ht : Tiled a e (pre ++ b :: c :: post))
    (h : Linked m e p a (pre ++ b :: c :: post)) (hb : b.free = true) (fuel : ℕ) :
    coalesceBackward (fuel + 1) m (a + extent blockSize pre + blockSize + b.size) =
      coalesceBackward fuel (mergeMem m (a + extent blockSize pre)
        (a + extent blockSize pre + blockSize + b.size) (b.size + (blockSize + c.size))
        (link e (a + extent blockSize pre + blockSize + b.size + blockSize + c.size)))
        (a + extent blockSize pre) := by
  have hpos := ht.notNull
  obtain ⟨-, hb', hc, -⟩ := (linked_append ..).mp h
  have hprev : (loadBlock m (a + extent blockSize pre + blockSize + b.size)).prev =
      a + extent blockSize pre := by rw [hc, headerOf]
  rw [coalesceBackward_merge fuel hprev (by omega) (by simp [hb', headerOf, hb]) (by omega)
    (by rw [hc, headerOf]) (by omega), hb', hc, headerOf, headerOf]

/-- Backward merging absorbs the block into the free cells before it, writes only headers and keeps
released ones. -/
theorem coalesceBackward_linked (fuel : ℕ) (hfuel : pre.length < fuel)
    (ht : Tiled a e (pre ++ c :: post)) (h : Linked m e 0 a (pre ++ c :: post)) :
    ∃ m', coalesceBackward fuel m (a + extent blockSize pre) =
        .ok (m', a + extent blockSize (pre.rdropWhile (·.free))) ∧
      Linked m' e 0 a (pre.rdropWhile (·.free) ++
        ⟨extent blockSize (pre.rtakeWhile (·.free)) + c.size,
          c.free || !(pre.rtakeWhile (·.free)).isEmpty⟩ :: post) ∧
      (∀ y, OffHeaders a (pre ++ c :: post) y → m' y = m y) ∧
      ∀ x, Released m a (pre ++ c :: post) x →
        Released m' a (pre.rdropWhile (·.free) ++
          ⟨extent blockSize (pre.rtakeWhile (·.free)) + c.size,
            c.free || !(pre.rtakeWhile (·.free)).isEmpty⟩ :: post) x := by
  -- induction from the end of the cells before the block, where the loop looks first
  induction pre using List.reverseRecOn generalizing m c fuel with
  | nil =>
    obtain ⟨fuel, rfl⟩ : ∃ k, fuel = k + 1 := ⟨fuel - 1, by omega⟩
    refine ⟨m, ?_, by simpa [extent] using h, fun y _ => rfl, fun x hx => by simpa [extent] using hx⟩
    rw [coalesceBackward, h.header]
    simp [headerOf, lastAddr]
  | append_singleton pre b ih =>
    obtain ⟨fuel, rfl⟩ : ∃ k, fuel = k + 1 := ⟨fuel - 1, by omega⟩
    have hat : a + extent blockSize (pre ++ [b]) = a + extent blockSize pre + blockSize + b.size := by
      simp only [extent_append, extent]; omega
    have ht₂ : Tiled a e (pre ++ b :: c :: post) := by simpa using ht
    have h₂ : Linked m e 0 a (pre ++ b :: c :: post) := by simpa using h
    cases hb : b.free with
    | false =>
      have hprev : (loadBlock m (a + extent blockSize (pre ++ [b]))).prev =
          a + extent blockSize pre := by
        rw [h.header]
        simp [headerOf, lastAddr]
      refine ⟨m, ?_, by simpa [hb, extent] using h, fun y _ => rfl,
        fun x hx => by simpa [hb, extent] using hx⟩
      rw [coalesceBackward, hprev, h₂.header, List.rdropWhile_concat_neg _ _ _ (by simp [hb])]
      simp [headerOf, hb]
    | true =>
      have ht' : Tiled a e (pre ++ ⟨b.size + (blockSize + c.size), b.free⟩ :: post) :=
        ht₂.of_extent_eq (by simp only [extent_append, extent]; omega)
      have hlen : pre.length < fuel := by
        simp only [List.length_append, List.length_singleton] at hfuel
        omega
      obtain ⟨m', hrun, hlinked, hsame, hreleased⟩ := ih fuel hlen ht' (h₂.merge ht₂)
      have hsize : extent blockSize (pre.rtakeWhile (·.free) ++ [b]) + c.size =
          extent blockSize (pre.rtakeWhile (·.free)) + (b.size + (blockSize + c.size)) := by
        simp only [extent_append, extent]; omega
      have hflag : (c.free || !(pre.rtakeWhile (·.free) ++ [b]).isEmpty) = true := by simp
      refine ⟨m', ?_, ?_, fun y hy => ?_, fun x hx => ?_⟩
      · rw [hat, backward_step b ht₂ h₂ hb, hrun, List.rdropWhile_concat_pos _ _ _ hb]
      · rw [List.rdropWhile_concat_pos _ _ _ hb, List.rtakeWhile_concat_pos _ _ _ hb, hsize, hflag]
        simpa only [hb, Bool.true_or] using hlinked
      · have hy₂ : OffHeaders a (pre ++ b :: c :: post) y := by simpa using hy
        rw [hsame y hy₂.join, mergeMem_offHeaders ht₂ hy₂]
      · have hx₂ : Released m a (pre ++ b :: c :: post) x := by simpa using hx
        rw [List.rdropWhile_concat_pos _ _ _ hb, List.rtakeWhile_concat_pos _ _ _ hb, hsize, hflag]
        simpa only [hb, Bool.true_or] using hreleased x (hx₂.merge ht₂ hb)

/-- The cells that absorb their free neighbours keep only headers that were there. -/
theorem OffHeaders.absorbNext {y : ℕ} (h : OffHeaders a (pre ++ c :: post) y) :
    OffHeaders a (pre ++ ⟨c.size + extent blockSize (post.takeWhile (·.free)), c.free⟩ ::
      post.dropWhile (·.free)) y := by
  rw [← post.takeWhile_append_dropWhile (p := (·.free))] at h
  simp only [offHeaders_append, offHeaders_cons] at h ⊢
  obtain ⟨hpre, hc, -, hpost⟩ := h
  refine ⟨hpre, hc, ?_⟩
  simpa only [Nat.add_assoc] using hpost

/-- Merging a block with its neighbours is `coalesceAt` on the cells, and writes only headers. From
a free block it keeps released headers. -/
theorem valCoalesce_linked (ht : Tiled a e (pre ++ c :: post))
    (h : Linked m e 0 a (pre ++ c :: post)) :
    ∃ m', valCoalesce m (a + extent blockSize pre) =
        .ok (m', a + extent blockSize (pre.rdropWhile (·.free))) ∧
      Linked m' e 0 a (coalesceAt blockSize pre c post) ∧
      (∀ y, OffHeaders a (pre ++ c :: post) y → m' y = m y) ∧
      ∀ x, c.free = true → Released m a (pre ++ c :: post) x →
        Released m' a (coalesceAt blockSize pre c post) x := by
  have hlength := ht.length_lt
  simp only [List.length_append, List.length_cons] at hlength
  obtain ⟨m₁, hforward, h₁, hsame₁, hreleased₁⟩ := coalesceForward_linked blockLimit (by omega) ht h
  have ht₁ : Tiled a e (pre ++ ⟨c.size + extent blockSize (post.takeWhile (·.free)), c.free⟩ ::
      post.dropWhile (·.free)) := ht.of_extent_eq (by
    have hpost := extent_takeWhile_add blockSize post
    simp only [extent_append, extent]
    omega)
  obtain ⟨m₂, hbackward, h₂, hsame₂, hreleased₂⟩ :=
    coalesceBackward_linked blockLimit (by omega) ht₁ h₁
  refine ⟨m₂, ?_, ?_, fun y hy => ?_, fun x hc hx => ?_⟩
  · have hpos := ht.notNull
    rw [valCoalesce, if_neg (by omega)]
    simp only [hforward, bind, Except.bind, hbackward]
  · simpa only [coalesceAt, absorb, Nat.add_assoc] using h₂
  · rw [hsame₂ y hy.absorbNext, hsame₁ y hy]
  · simpa only [coalesceAt, absorb, Nat.add_assoc] using hreleased₂ x (hreleased₁ x hc hx)

/-- The cells that replace `c` when `n` bytes are cut from its start. -/
def splitCells (c : Cell) (n : ℕ) : List Cell :=
  if n + blockSize + alignment ≤ c.size then [⟨n, c.free⟩, ⟨c.size - n - blockSize, true⟩] else [c]

/-- Cutting a cell covers the same bytes. -/
@[simp] theorem extent_splitCells (c : Cell) (n : ℕ) :
    extent blockSize (splitCells c n) = blockSize + c.size := by
  unfold splitCells
  split
  · simp only [extent]; omega
  · simp only [extent]; omega

/-- The memory that `val_split` leaves when it cuts a block with the given header. -/
theorem valSplit_of_header {y n size next prev free : ℕ}
    (hc : loadBlock m y = ⟨blockValidMagic, free, size, next, prev⟩)
    (hn : n + blockSize + alignment ≤ size) (hend : y + blockSize + size < 2 ^ 64)
    (hnext : next < 2 ^ 64) :
    valSplit m y n = splitMem m y (y + blockSize + n) n (size - n - blockSize) next := by
  have hheader : blockSize = 32 := rfl
  have halign : alignment = 8 := rfl
  have hnowrap : wrap64 (n + blockSize + alignment) = n + blockSize + alignment :=
    wrap64_of_lt (by omega)
  have hnew : wrap64 (y + blockSize + n) = y + blockSize + n := wrap64_of_lt (by omega)
  have hrest : sub64 (sub64 size n) blockSize = size - n - blockSize := by
    rw [sub64_of_le (show n ≤ size by omega) (by omega), sub64_of_le (by omega) (by omega)]
  rw [valSplit, hnowrap, hc, if_pos hn]
  simp (disch := omega) only [splitMem, writeFree, relinkNext, hnew, hc, hrest,
    loadBlock_setMagic_apart, loadBlock_setFree_apart, loadBlock_setSize_apart,
    loadBlock_setPrev_same, loadBlock_setNext_same, Nat.mod_eq_of_lt]

/-- `val_split` leaves a block alone that is too short. -/
theorem valSplit_of_short {y n : ℕ} (hn : (loadBlock m y).size < n + blockSize + alignment)
    (hlt : n + blockSize + alignment < 2 ^ 64) : valSplit m y n = m := by
  rw [valSplit, wrap64_of_lt hlt, if_neg (by omega)]

/-- The memory that `val_split` leaves in a tiled list, cut or not. -/
theorem valSplit_eq {n : ℕ} (hn : n ≤ c.size) (ht : Tiled a e (pre ++ c :: post))
    (h : Linked m e p a (pre ++ c :: post)) :
    valSplit m (a + extent blockSize pre) n =
      if n + blockSize + alignment ≤ c.size then
        splitMem m (a + extent blockSize pre) (a + extent blockSize pre + blockSize + n) n
          (c.size - n - blockSize) (link e (a + extent blockSize pre + blockSize + c.size))
      else m := by
  have hheader : blockSize = 32 := rfl
  have halign : alignment = 8 := rfl
  have hroom : c.size + blockSize ≤ 512 * 1024 := ht.size_le
  have htotal := ht.total
  have hbound := ht.bound
  simp only [extent_append, extent] at htotal
  split
  case isTrue hyes =>
    have hnext : link e (a + extent blockSize pre + blockSize + c.size) < 2 ^ 64 := by
      unfold link; split <;> omega
    exact valSplit_of_header h.header hyes (by omega) hnext
  case isFalse hno =>
    exact valSplit_of_short (by rw [h.header, headerOf]; simpa using hno) (by omega)

/-- Cutting a block is `splitCells` on its cell. -/
theorem valSplit_linked {n : ℕ} (hn : n ≤ c.size) (ht : Tiled a e (pre ++ c :: post))
    (h : Linked m e p a (pre ++ c :: post)) :
    Linked (valSplit m (a + extent blockSize pre) n) e p a (pre ++ splitCells c n ++ post) := by
  rw [valSplit_eq hn ht h, splitCells]
  split
  case isFalse hno => simpa using h
  case isTrue hyes =>
    have hsplit := h.split ht (n := n) (by omega)
    simpa only [List.append_assoc, List.cons_append, List.nil_append] using hsplit

/-- Cutting keeps the headers of the old list. -/
theorem OffHeaders.uncut {n y : ℕ} (h : OffHeaders a (pre ++ splitCells c n ++ post) y) :
    OffHeaders a (pre ++ c :: post) y := by
  have hextent := extent_splitCells c n
  simp only [offHeaders_append, extent_append, hextent, ← Nat.add_assoc] at h
  obtain ⟨⟨hpre, hcut⟩, hpost⟩ := h
  refine offHeaders_append.mpr ⟨hpre, offHeaders_cons.mpr ⟨?_, hpost⟩⟩
  unfold splitCells at hcut
  split at hcut <;> exact (offHeaders_cons.mp hcut).1

/-- Cutting a block writes only headers of the new list. -/
theorem valSplit_offHeaders {n y : ℕ} (hn : n ≤ c.size) (ht : Tiled a e (pre ++ c :: post))
    (h : Linked m e p a (pre ++ c :: post))
    (hy : OffHeaders a (pre ++ splitCells c n ++ post) y) :
    valSplit m (a + extent blockSize pre) n y = m y := by
  have hold := hy.uncut
  rw [valSplit_eq hn ht h]
  split
  case isFalse => rfl
  case isTrue hyes =>
    rw [splitCells, if_pos hyes] at hy
    simp only [List.append_assoc, List.cons_append, List.nil_append, offHeaders_append,
      offHeaders_cons] at hy
    exact splitMem_offHeaders ht hold hy.2.2.1

/-- The search of `val_malloc` finds the first free cell that is large enough, if there is one. -/
theorem findFit_linked (pre : List Cell) (fuel n : ℕ) (hfuel : post.length < fuel) (ht : Tiled a e (pre ++ post))
    (h : Linked m e p a (pre ++ post)) :
    (findFit fuel m (link e (a + extent blockSize pre)) n = .ok 0 ∧
        ∀ c ∈ post, c.free = true → c.size < n) ∨
      ∃ mid c rest, post = mid ++ c :: rest ∧ c.free = true ∧ n ≤ c.size ∧
        (∀ d ∈ mid, d.free = true → d.size < n) ∧
        findFit fuel m (link e (a + extent blockSize pre)) n =
          .ok (a + extent blockSize (pre ++ mid)) := by
  induction post generalizing pre fuel with
  | nil =>
    obtain ⟨fuel, rfl⟩ : ∃ k, fuel = k + 1 := ⟨fuel - 1, by omega⟩
    have hend : link e (a + extent blockSize pre) = 0 := if_pos (by simpa using ht.total)
    exact Or.inl ⟨by rw [hend]; rfl, by simp⟩
  | cons c post ih =>
    obtain ⟨fuel, rfl⟩ : ∃ k, fuel = k + 1 := ⟨fuel - 1, by omega⟩
    have hpos := ht.notNull
    have hhere : link e (a + extent blockSize pre) = a + extent blockSize pre := by
      have htotal := ht.total
      have hheader : blockSize = 32 := rfl
      simp only [extent_append, extent] at htotal
      exact if_neg (by omega)
    have hstep : findFit (fuel + 1) m (a + extent blockSize pre) n =
        if c.free = true ∧ n ≤ c.size then .ok (a + extent blockSize pre)
        else findFit fuel m (link e (a + extent blockSize (pre ++ [c]))) n := by
      rw [findFit, if_neg (by omega), h.header, headerOf]
      simp only [ne_eq, Bool.toNat_eq_zero, Bool.not_eq_false]
      simp only [extent_append, extent, Nat.add_zero, Nat.add_assoc]
    rw [hhere, hstep]
    split
    case isTrue hfit =>
      exact Or.inr ⟨[], c, post, rfl, hfit.1, hfit.2, by simp, by simp⟩
    case isFalse hfit =>
      have hskip : c.free = true → c.size < n := fun hfree => by
        by_contra hsize
        exact hfit ⟨hfree, by omega⟩
      rcases ih (pre ++ [c]) fuel (by simpa using hfuel) (by simpa using ht)
        (by simpa using h) with ⟨hnone, hsmall⟩ | ⟨mid, d, rest, rfl, hfree, hsize, hsmall, hsome⟩
      · refine Or.inl ⟨hnone, ?_⟩
        rintro d (_ | ⟨_, hd⟩) hfree
        exacts [hskip hfree, hsmall d hd hfree]
      · refine Or.inr ⟨c :: mid, d, rest, rfl, hfree, hsize, ?_, by simpa using hsome⟩
        rintro d' (_ | ⟨_, hd⟩) hfree
        exacts [hskip hfree, hsmall d' hd hfree]

end

end FfaAcs.Heap
