import FfaAcs.Heap.Guarantees

/-!
# What an aligned allocation promises

`val_aligned_alloc` promises a block that is aligned, on the list, large enough and free of other
headers, so that the returned pointer can be released. It keeps the promise exactly when the chosen
block is `Placed`: a gap of 8, 16 or 24 bytes before the aligned header is not cut off, and the
returned pointer then belongs to no block. A tail that is too short to cut is given up. The block
is fine then, but its bytes are lost until the end of the run.
-/

namespace FfaAcs.Heap

open Machine Tiling Platform

/-! ## Following links -/

/-- Reaching blocks reads only their links. -/
theorem Reaches.congr {m m' : ByteMemory} {a : ℕ} {xs : List ℕ} (h : Reaches m a xs)
    (hnext : ∀ x ∈ xs, (loadBlock m' x).next = (loadBlock m x).next) : Reaches m' a xs := by
  induction xs generalizing a with
  | nil => exact h
  | cons x xs ih =>
    refine ⟨h.1, h.2.1, ?_⟩
    rw [hnext x (by simp)]
    exact ih h.2.2 fun y hy => hnext y (by simp [hy])

section

variable {m : ByteMemory} {e p a : ℕ} {cs pre post : List Cell} {c : Cell}

/-- Writing the size and the flag of a block of the list changes no link. -/
theorem reaches_mark {z n flag : ℕ} {u : Cell} (h : Linked m e p a cs)
    (hend : a + extent blockSize cs = e) (hpos : 0 < a) (hz : (z, u) ∈ place blockSize a cs) :
    Reaches (setFree (setSize m z n) z flag) (link e a) (addresses a cs) := by
  refine (h.reaches hend hpos).congr fun x hx => ?_
  obtain ⟨⟨x, d⟩, hd, rfl⟩ := List.mem_map.mp hx
  by_cases heq : z = x
  · subst heq
    simp
  · have hapart : Apart z blockSize x blockSize := by
      have := place_apart hz hd heq
      omega
    rw [loadBlock_setFree_apart _ _ _ hapart, loadBlock_setSize_apart _ _ _ hapart]

/-- The size that an aligned allocation leaves in the header. -/
theorem size_takeTail (m : ByteMemory) (block k n : ℕ) :
    (loadBlock (takeTail m block k n) block).size = n % 2 ^ 64 := by
  simp [takeTail]

/-- The blocks after the last steps of an aligned allocation: those of the list, and the tail when
it is cut off. -/
theorem takeTail_reaches {k n : ℕ} {flag : Bool} (ht : Tiled a e (pre ++ ⟨k, flag⟩ :: post))
    (h : Linked m e p a (pre ++ ⟨k, flag⟩ :: post)) (hn : n ≤ k) :
    ∃ u rest, n ≤ u.size ∧
      Reaches (takeTail m (a + extent blockSize pre) k n) (link e a)
        (addresses a (pre ++ u :: rest ++ post)) ∧
      (loadBlock (takeTail m (a + extent blockSize pre) k n) (a + extent blockSize pre)).magic =
        blockValidMagic := by
  have hheader : blockSize = 32 := rfl
  have halign : alignment = 8 := rfl
  have hroom : k + blockSize ≤ 512 * 1024 := ht.size_le
  have hnowrap : wrap64 (n + blockSize + alignment) = n + blockSize + alignment :=
    wrap64_of_lt (by omega)
  -- the list before the size and the flag are written
  obtain ⟨m₁, u, rest, hu, heq, ht₁, h₁⟩ : ∃ m₁ u rest, n ≤ u.size ∧
      takeTail m (a + extent blockSize pre) k n =
        setFree (setSize m₁ (a + extent blockSize pre) n) (a + extent blockSize pre) 0 ∧
      Tiled a e (pre ++ u :: rest ++ post) ∧ Linked m₁ e p a (pre ++ u :: rest ++ post) := by
    rw [takeTail, hnowrap]
    split
    case isTrue hlong =>
      have hcut := valSplit_linked (n := n) hn ht h
      have htiled : Tiled a e (pre ++ splitCells ⟨k, flag⟩ n ++ post) := ht.of_extent_eq (by
        simp only [extent_append, extent_splitCells, extent]
        omega)
      rw [splitCells, if_pos (by simp only; omega)] at hcut htiled
      exact ⟨_, ⟨n, flag⟩, _, le_rfl, rfl, htiled, hcut⟩
    case isFalse =>
      refine ⟨m, ⟨k, flag⟩, [], hn, rfl, ?_, ?_⟩
      · rw [List.append_assoc]
        exact ht
      · rw [List.append_assoc]
        exact h
  have hu' : (a + extent blockSize pre, u) ∈ place blockSize a (pre ++ u :: rest ++ post) := by
    rw [List.append_assoc]
    exact mem_place_middle _ _ _ _ _
  refine ⟨u, rest, hu, ?_, ?_⟩
  · rw [heq]
    exact reaches_mark h₁ ht₁.total ht₁.notNull hu'
  · rw [List.append_assoc] at h₁
    rw [heq, loadBlock_setFree_same, loadBlock_setSize_same, h₁.header, headerOf]

end

/-! ## Releasing a block whose tail was given up -/

section Release

variable {m : ByteMemory} {e p a : ℕ} {pre post : List Cell} {c : Cell}

/-- The block is the first one, or a block in use comes right before it. -/
def BehindUsed (m : ByteMemory) (block : ℕ) : Prop :=
  (loadBlock m block).prev = 0 ∨ ((loadBlock m block).prev + blockSize ≤ block ∧
    (loadBlock m (loadBlock m block).prev).free = 0)

/-- The forward loop stops at once before a block in use. -/
theorem coalesceForward_stop {block : ℕ} (fuel : ℕ)
    (hnext : (loadBlock m block).next = 0 ∨ (loadBlock m (loadBlock m block).next).free = 0) :
    coalesceForward (fuel + 1) m block = .ok m := by
  rw [coalesceForward]
  split
  case isTrue hfree => exact absurd hnext (not_or.mpr hfree)
  case isFalse => rfl

/-- The backward loop stops at once behind a block in use. -/
theorem coalesceBackward_stop {block : ℕ} (fuel : ℕ)
    (hprev : BehindUsed m block) : coalesceBackward (fuel + 1) m block = .ok (m, block) := by
  rw [coalesceBackward]
  split
  case isTrue hfree => exact absurd (hprev.imp_right And.right) (not_or.mpr hfree)
  case isFalse => rfl

/-- A free cell of a coalesced list has a used cell before it, if any. -/
theorem Linked.behindUsed (h : Linked m e 0 a (pre ++ c :: post))
    (hused : pre.rtakeWhile (·.free) = []) : BehindUsed m (a + extent blockSize pre) := by
  rw [BehindUsed, h.header]
  induction pre using List.reverseRecOn with
  | nil => exact Or.inl rfl
  | append_singleton pre b =>
    have hb : b.free = false := by
      cases hb : b.free with
      | false => rfl
      | true => simp [List.rtakeWhile_concat_pos _ _ _ hb] at hused
    have h₂ : Linked m e 0 a (pre ++ b :: c :: post) := by simpa using h
    have hprev : lastAddr blockSize 0 a (pre ++ [b]) = a + extent blockSize pre := by simp [lastAddr]
    right
    simp only [headerOf, hprev, h₂.header, hb, Bool.toNat_false, and_true, extent_append, extent]
    omega

/-- Merging the block at `block` into the one at `gap` changes no header below, and only the size and
the forward link of the merged one. -/
theorem BehindUsed.mergeMem {block gap z size : ℕ} (hgap : BehindUsed m gap)
    (hbelow : gap + blockSize ≤ block) (habove : block + blockSize ≤ z) :
    BehindUsed (mergeMem m gap block size (link e z)) gap := by
  have hheader : blockSize = 32 := rfl
  have hprev : (loadBlock (Heap.mergeMem m gap block size (link e z)) gap).prev =
      (loadBlock m gap).prev := by
    simp (disch := omega) only [Heap.mergeMem, loadBlock_relinkNext_below, loadBlock_setMagic_apart,
      loadBlock_setNext_same, loadBlock_setSize_same]
  rw [BehindUsed, hprev]
  rcases hgap with hnone | ⟨hlow, hused⟩
  · exact Or.inl hnone
  · refine Or.inr ⟨hlow, ?_⟩
    simpa (disch := omega) only [Heap.mergeMem, loadBlock_relinkNext_below,
      loadBlock_setMagic_apart, loadBlock_setNext_apart, loadBlock_setSize_apart] using hused

/-- The memories have the same headers, but for the size and the flag of the block. -/
structure SameLinks (m m₁ : ByteMemory) (block : ℕ) : Prop where
  next : (loadBlock m₁ block).next = (loadBlock m block).next
  prev : (loadBlock m₁ block).prev = (loadBlock m block).prev
  others : ∀ x, Apart block blockSize x blockSize → loadBlock m₁ x = loadBlock m x

/-- Writing the size and the flag of a block keeps the links. -/
theorem sameLinks_mark (m : ByteMemory) (block n flag : ℕ) :
    SameLinks m (setFree (setFree (setSize m block n) block flag) block 1) block where
  next := by simp
  prev := by simp
  others x hx := by
    simp only [loadBlock_setFree_apart _ _ _ hx, loadBlock_setSize_apart _ _ _ hx]

/-- Forward merging stops before a cell in use, whatever the size and the flag of the block. -/
theorem SameLinks.coalesceForward {m₁ : ByteMemory}
    (hs : SameLinks m m₁ (a + extent blockSize pre)) (fuel : ℕ) (ht : Tiled a e (pre ++ c :: post))
    (h : Linked m e p a (pre ++ c :: post)) (hpost : post.takeWhile (·.free) = []) :
    coalesceForward (fuel + 1) m₁ (a + extent blockSize pre) = .ok m₁ := by
  have hnext : (loadBlock m₁ (a + extent blockSize pre)).next =
      link e (a + extent blockSize pre + blockSize + c.size) := by rw [hs.next, h.header, headerOf]
  refine coalesceForward_stop fuel ?_
  rw [hnext]
  cases post with
  | nil => exact Or.inl ((link_eq_zero_iff ht).mpr rfl)
  | cons d post =>
    have hd : d.free = false := by
      cases hd : d.free with
      | false => rfl
      | true => simp [hd] at hpost
    right
    rw [link_of_cons ht, hs.others _ (Or.inl (by omega)), ((linked_append ..).mp h).2.2.1, headerOf,
      hd, Bool.toNat_false]

/-- Backward merging ends when at most one cell before the block is free, whatever the size and the
flag of the block. -/
theorem SameLinks.coalesceBackward {m₁ : ByteMemory}
    (hs : SameLinks m m₁ (a + extent blockSize pre)) (fuel : ℕ) (ht : Tiled a e (pre ++ c :: post))
    (h : Linked m e 0 a (pre ++ c :: post))
    (hpre : pre.rtakeWhile (·.free) = [] ∨
      ∃ front g, pre = front ++ [⟨g, true⟩] ∧ front.rtakeWhile (·.free) = []) :
    ∃ r, coalesceBackward (fuel + 2) m₁ (a + extent blockSize pre) = .ok r := by
  have hpos := ht.notNull
  rcases hpre with hfirst | ⟨front, g, rfl, hfront⟩
  · refine ⟨_, coalesceBackward_stop _ ?_⟩
    rw [BehindUsed, hs.prev]
    refine (h.behindUsed hfirst).imp_right fun ⟨hlow, hused⟩ => ⟨hlow, ?_⟩
    rw [hs.others _ (Or.inr hlow), hused]
  · have hgap : Linked m e 0 a (front ++ ⟨g, true⟩ :: c :: post) := by simpa using h
    have hat : a + extent blockSize (front ++ [⟨g, true⟩]) =
        a + extent blockSize front + blockSize + g := by
      simp only [extent_append, extent]
      omega
    have hbehind : BehindUsed m₁ (a + extent blockSize front) := by
      rw [BehindUsed, hs.others _ (Or.inr (by omega))]
      refine (hgap.behindUsed hfront).imp_right fun ⟨hlow, hused⟩ => ⟨hlow, ?_⟩
      rw [hs.others _ (Or.inr (by omega)), hused]
    have hprev : (loadBlock m₁ (a + extent blockSize (front ++ [⟨g, true⟩]))).prev =
        a + extent blockSize front := by
      rw [hs.prev, h.header]
      simp [headerOf, lastAddr]
    have hfree : (loadBlock m₁ (a + extent blockSize front)).free ≠ 0 := by
      rw [hs.others _ (Or.inr (by omega)), hgap.header, headerOf]
      exact Nat.one_ne_zero
    rw [coalesceBackward_merge _ hprev (by omega) hfree (by omega)
      (by rw [hs.next, h.header, headerOf]) (by omega)]
    exact ⟨_, coalesceBackward_stop _ (hbehind.mergeMem (by omega) (by omega))⟩

/-- A block with used or no blocks after it, and at most one free block before it, is released, also
when its size is not the distance to the next one. -/
theorem valFree_clipped {n : ℕ} (h : HeapState) (ht : Tiled a e (pre ++ c :: post))
    (hl : Linked m e 0 a (pre ++ c :: post)) (hpost : post.takeWhile (·.free) = [])
    (hpre : pre.rtakeWhile (·.free) = [] ∨
      ∃ front g, pre = front ++ [⟨g, true⟩] ∧ front.rtakeWhile (·.free) = [])
    (hmem : h.mem = setFree (setSize m (a + extent blockSize pre) n) (a + extent blockSize pre) 0) :
    ∃ h', valFree h (a + extent blockSize pre + blockSize) = .ok (.success, h') := by
  have hheader : blockSize = 32 := rfl
  have hlimit : blockLimit = blockLimit - 2 + 2 := by decide
  have hpos := ht.notNull
  have hbound := ht.bound
  have htotal := ht.total
  simp only [extent_append, extent] at htotal
  have hblock : sub64 (a + extent blockSize pre + blockSize) blockSize = a + extent blockSize pre := by
    rw [sub64_of_le (by omega) (by omega), Nat.add_sub_cancel]
  have hlinks := sameLinks_mark m (a + extent blockSize pre) n 0
  have hforward := hlinks.coalesceForward (blockLimit - 2 + 1) ht hl hpost
  obtain ⟨r, hbackward⟩ := hlinks.coalesceBackward (blockLimit - 2) ht hl hpre
  refine ⟨{ h with mem := r.1 }, ?_⟩
  rw [valFree, if_neg (by omega), hblock, hmem]
  simp only [loadBlock_setFree_same, loadBlock_setSize_same, hl.header, headerOf]
  rw [if_neg (by simp), if_neg (by decide), valCoalesce, if_neg (by omega), hlimit]
  simp only [hforward, hbackward, bind, Except.bind]

end Release

/-! ## The promise -/

/-- The block at `p` that an aligned allocation of `n` bytes made from the free block at `x`. -/
structure AlignedBlock (buf : HeapBuffer) (h h' : HeapState) (a n x p : ℕ) : Prop where
  aligned : p % a = 0
  onList : ∃ xs, Reaches h'.mem h'.freeList xs ∧ p - blockSize ∈ xs ∧
    ∀ y ∈ xs, Apart p n y blockSize
  magic : (loadBlock h'.mem (p - blockSize)).magic = blockValidMagic
  used : (loadBlock h'.mem (p - blockSize)).free = 0
  large : n ≤ (loadBlock h'.mem (p - blockSize)).size
  free : (loadBlock (ensureInit buf h).mem x).free ≠ 0
  inside : x + blockSize ≤ p ∧ p + n ≤ x + blockSize + (loadBlock (ensureInit buf h).mem x).size
  released : ∃ h'', valFree h' p = .ok (.success, h'')

/-- `val_aligned_alloc` returns NULL and leaves the heap alone, or it returns such a block. -/
def AlignedCall (buf : HeapBuffer) (h : HeapState) (a n : ℕ) : Prop :=
  ∃ p h', valAlignedAlloc buf h a n = .ok (p, h') ∧
    ((p = 0 ∧ h' = h) ∨
      ∃ choice ∈ chosenAligned buf h a n, AlignedBlock buf h h' a n choice.1 p)

section Promise

variable {buf : HeapBuffer} {h h' : HeapState} {pre post : List Cell} {c : Cell} {y n p : ℕ}

/-- `val_aligned_alloc` returns the payload address that it computed, and edits only the memory. -/
theorem placeAligned_ok {x : ℕ} (hy : y < 2 ^ 64) (hrun : placeAligned h x y n = .ok (p, h')) :
    p = y ∧ h'.initialized = h.initialized := by
  have hptr : wrap64 (sub64 y blockSize + blockSize) = y := by
    unfold wrap64 sub64 blockSize
    omega
  obtain ⟨block, m, hresult⟩ : ∃ block m, placeAligned h x y n =
      if block = 0 then .error .nullDeref
      else .ok (wrap64 (sub64 y blockSize + blockSize), { h with mem := m }) := ⟨_, _, rfl⟩
  rw [hresult, hptr] at hrun
  by_cases hnull : block = 0
  · rw [if_pos hnull] at hrun
    exact nomatch hrun
  · rw [if_neg hnull] at hrun
    simp only [Except.ok.injEq, Prod.mk.injEq] at hrun
    exact ⟨hrun.1.symm, by rw [← hrun.2]⟩

/-- When the first cut is asked for but does not fit, the block behind the chosen one is marked. -/
theorem placeAligned_uncut {g : ℕ} (hw : WellFormed buf h (pre ++ c :: post))
    (hleading : leadingSpace (sub64 y blockSize) (buf.base + extent blockSize pre) = g + blockSize)
    (hroom : c.size < g + blockSize + alignment) (hsmall : g + blockSize + alignment < 2 ^ 64)
    (hrun : placeAligned h (buf.base + extent blockSize pre) y n = .ok (p, h')) :
    ∃ d rest, post = d :: rest ∧
      h'.mem = takeTail h.mem (buf.base + extent blockSize (pre ++ [c])) d.size n ∧
      h'.freeList = h.freeList := by
  have hkeep : valSplit h.mem (buf.base + extent blockSize pre) g = h.mem := by
    rw [valSplit, wrap64_of_lt hsmall, hw.linked.header, headerOf, if_neg (by simp only; omega)]
  have hnext : (loadBlock (valSplit h.mem (buf.base + extent blockSize pre) g)
      (buf.base + extent blockSize pre)).next =
        link buf.limit (buf.base + extent blockSize pre + blockSize + c.size) := by
    rw [hkeep, hw.linked.header, headerOf]
  cases post with
  | nil =>
    have hnull : placeAligned h (buf.base + extent blockSize pre) y n = .error .nullDeref := by
      have hleads : blockSize ≤ g + blockSize := Nat.le_add_left _ _
      simp only [placeAligned, hleading, Nat.add_sub_cancel, if_pos hleads, hnext,
        (link_eq_zero_iff hw.tiled).mpr, if_true]
    rw [hnull] at hrun
    cases hrun
  | cons d rest =>
    have hpos := buf.notNull
    have hat : buf.base + extent blockSize (pre ++ [c]) =
        buf.base + extent blockSize pre + blockSize + c.size := by
      simp only [extent_append, extent]
      omega
    have hd : loadBlock h.mem (buf.base + extent blockSize (pre ++ [c])) =
        headerOf buf.limit (buf.base + extent blockSize pre)
          (buf.base + extent blockSize (pre ++ [c])) d := by
      rw [hat]
      exact ((linked_append ..).mp hw.linked).2.2.1
    rw [link_of_cons hw.tiled, ← hat] at hnext
    have hplace := placeAligned_cut (n := n) hleading hnext (by omega) (by rw [hkeep, hd, headerOf])
    rw [hkeep, hrun] at hplace
    simp only [Except.ok.injEq, Prod.mk.injEq] at hplace
    exact ⟨d, rest, rfl, by rw [hplace.2], by rw [hplace.2]⟩

/-- The list starts at the first block. -/
theorem WellFormed.link_base {cs : List Cell} (hw : WellFormed buf h cs) :
    link buf.limit buf.base = h.freeList := by
  rw [hw.head]
  exact if_neg (by simp [HeapBuffer.limit, platformHeapBufSize])

/-- No header starts inside a block. -/
theorem notMem_addresses {a x z : ℕ} {u : Cell} {cs : List Cell} (hx : (x, u) ∈ place blockSize a cs)
    (hlow : x < z) (hhigh : z < x + blockSize + u.size) : z ∉ addresses a cs := by
  intro hz
  obtain ⟨⟨z, d⟩, hd, rfl⟩ := List.mem_map.mp hz
  have := place_apart hx hd (by simp only at hlow; omega)
  simp only at hlow hhigh
  omega

/-- A returned pointer with its header on the list, inside the chosen block, was placed. -/
theorem placed_of_onList {xs : List ℕ} (hw : WellFormed buf h (pre ++ c :: post))
    (hrun : placeAligned h (buf.base + extent blockSize pre) y n = .ok (y, h'))
    (hlist : Reaches h'.mem h'.freeList xs) (hmem : y - blockSize ∈ xs)
    (hlow : buf.base + extent blockSize pre + blockSize ≤ y)
    (hhigh : y + n ≤ buf.base + extent blockSize pre + blockSize + c.size) :
    Placed h.mem (buf.base + extent blockSize pre) y n := by
  have hheader : blockSize = 32 := rfl
  have halign : alignment = 8 := rfl
  have hbase := buf.notNull
  have haddr := hw.addr_lt
  have hroom : c.size + blockSize ≤ 512 * 1024 := hw.tiled.size_le
  have hsize : (loadBlock h.mem (buf.base + extent blockSize pre)).size = c.size := by
    rw [hw.linked.header, headerOf]
  have hleading : leadingSpace (sub64 y blockSize) (buf.base + extent blockSize pre) =
      y - blockSize - (buf.base + extent blockSize pre) := by
    rw [sub64_of_le (by omega) (by omega)]
    exact leadingSpace_eq (by omega) (by omega) (by omega)
  rw [Placed, hsize]
  refine ⟨hlow, hhigh, ?_⟩
  by_contra hgap
  rcases Nat.lt_or_ge y (buf.base + extent blockSize pre + 2 * blockSize) with hshort | hlong
  · -- the gap has no room for a header, and the chosen block itself was marked
    have hplace := placeAligned_inPlace (y := y) (n := n) (by omega) hsize (by omega)
    rw [hrun] at hplace
    simp only [Except.ok.injEq, Prod.mk.injEq] at hplace
    have hcell : Linked h.mem buf.limit 0 buf.base (pre ++ ⟨c.size, c.free⟩ :: post) := hw.linked
    obtain ⟨u, rest, -, hreached, -⟩ := takeTail_reaches (n := n) hw.tiled hcell (by omega)
    rw [hplace.2, ← hw.link_base] at hlist
    rw [hlist.unique hreached, List.append_assoc] at hmem
    exact notMem_addresses (mem_place_middle _ _ _ _ _) (by omega) (by omega) hmem
  · -- nothing is left behind the gap, which is not cut off, and the next block was marked
    obtain ⟨g, hg⟩ := Nat.exists_eq_add_of_le hlong
    obtain ⟨d, rest, rfl, hmem', hhead⟩ := placeAligned_uncut (g := g) hw (by omega) (by omega)
      (by omega) hrun
    have hcell : Linked h.mem buf.limit 0 buf.base ((pre ++ [c]) ++ ⟨d.size, d.free⟩ :: rest) := by
      simpa using hw.linked
    have htiled : Tiled buf.base buf.limit ((pre ++ [c]) ++ ⟨d.size, d.free⟩ :: rest) := by
      simpa using hw.tiled
    obtain ⟨u, rest', -, hreached, -⟩ := takeTail_reaches (n := n) htiled hcell (by omega)
    rw [hmem', hhead, ← hw.link_base] at hlist
    rw [hlist.unique hreached, List.append_assoc, List.append_assoc] at hmem
    exact notMem_addresses (mem_place_middle _ _ _ _ _) (by omega) (by omega) hmem

/-- A payload address of zero changes the heap. -/
theorem placeAligned_zero_changes (hw : WellFormed buf h (pre ++ c :: post)) (hfree : c.free = true)
    (hfar : 2 ^ 63 < buf.base + extent blockSize pre + blockSize) (hn : n < 2 ^ 64)
    (hholds : buf.base + extent blockSize pre ≤ n) :
    placeAligned h (buf.base + extent blockSize pre) 0 n ≠ .ok (p, h) := by
  intro hrun
  have hheader : blockSize = 32 := rfl
  have halign : alignment = 8 := rfl
  have haddr := hw.addr_lt
  have hbase := buf.notNull
  have hleading : leadingSpace (sub64 0 blockSize) (buf.base + extent blockSize pre) =
      2 ^ 64 - blockSize - (buf.base + extent blockSize pre) := by
    rw [show sub64 0 blockSize = 2 ^ 64 - blockSize from rfl]
    exact leadingSpace_eq (by omega) (by omega) (by omega)
  rcases Nat.lt_or_ge (2 ^ 64 - blockSize - (buf.base + extent blockSize pre)) blockSize with
    hshort | hlong
  · have hsize : (loadBlock h.mem (buf.base + extent blockSize pre)).size = c.size := by
      rw [hw.linked.header, headerOf]
    have hplace := placeAligned_inPlace (y := 0) (n := n) (by omega) hsize (by omega)
    rw [hrun] at hplace
    simp only [Except.ok.injEq, Prod.mk.injEq] at hplace
    -- the chosen block was free and is marked in use
    have hmarked : (loadBlock h.mem (buf.base + extent blockSize pre)).free = 0 := by
      rw [hplace.2]
      simp [takeTail]
    rw [hw.linked.header, headerOf, hfree] at hmarked
    exact absurd hmarked Nat.one_ne_zero
  · obtain ⟨g, hg⟩ := Nat.exists_eq_add_of_le hlong
    obtain ⟨d, rest, rfl, hmem, -⟩ := placeAligned_uncut (g := g) hw (by omega) (by omega)
      (by omega) hrun
    -- the size that was written is larger than the heap
    have hwritten := size_takeTail h.mem (buf.base + extent blockSize (pre ++ [c])) d.size n
    have hcell : Linked h.mem buf.limit 0 buf.base ((pre ++ [c]) ++ d :: rest) := by
      simpa using hw.linked
    have htiled : Tiled buf.base buf.limit ((pre ++ [c]) ++ d :: rest) := by simpa using hw.tiled
    have hroom : d.size + blockSize ≤ 512 * 1024 := htiled.size_le
    rw [← hmem, hcell.header, headerOf, Nat.mod_eq_of_lt hn] at hwritten
    simp only at hwritten
    omega

/-- The marked block is released, whether or not its tail was given up. -/
theorem release_placed (hw : WellFormed buf h (pre ++ c :: post)) (hfree : c.free = true)
    (hy : y % alignment = 0) (hn : n % alignment = 0)
    (hplaced : Placed h.mem (buf.base + extent blockSize pre) y n)
    (hrun : placeAligned h (buf.base + extent blockSize pre) y n = .ok (y, h')) :
    ∃ h'', valFree h' y = .ok (.success, h'') := by
  have hheader : blockSize = 32 := rfl
  have halign : alignment = 8 := rfl
  have hroom : c.size + blockSize ≤ 512 * 1024 := hw.tiled.size_le
  by_cases htail : KeepsTail h.mem (buf.base + extent blockSize pre) y n
  · obtain ⟨pre₁, k, t, -, hle, rfl, -, hplace, hw'⟩ :=
      placeAligned_wellFormed hw hfree hy hn hplaced htail
    obtain ⟨k', rest, -, -, -, hk⟩ := splitCells_eq_cons (c := ⟨k, true⟩) hle
    rw [hrun] at hplace
    obtain rfl := congrArg Prod.snd (Except.ok.inj hplace)
    rw [hk false, List.append_assoc] at hw'
    obtain ⟨t, hreleased, -⟩ := valFree_wellFormed hw' rfl
    exact ⟨t, hreleased⟩
  · have hsize : (loadBlock h.mem (buf.base + extent blockSize pre)).size = c.size := by
      rw [hw.linked.header, headerOf]
    obtain ⟨pre₁, k, m, hpre₁, rfl, hend, hlinked, hplace⟩ := placeAligned_linked hw hfree hy hplaced
    rw [KeepsTail, hsize] at htail
    rw [Placed, hsize] at hplaced
    have htiled : Tiled buf.base buf.limit (pre₁ ++ ⟨k, true⟩ :: post) := hw.tiled.of_extent_eq (by
      simp only [extent_append, extent]
      omega)
    have hshort : ¬wrap64 (n + blockSize + alignment) < k := by
      rw [wrap64_of_lt (by omega)]
      omega
    rw [hrun] at hplace
    simp only [Except.ok.injEq, Prod.mk.injEq, true_and] at hplace
    refine valFree_clipped h' htiled hlinked (hw.coalesced.takeWhile_eq_nil hfree) ?_
      (by rw [hplace, takeTail, if_neg hshort])
    have hpre := hw.coalesced.rtakeWhile_eq_nil hfree
    rcases hpre₁ with rfl | ⟨g, rfl, -⟩
    · exact Or.inl hpre
    · exact Or.inr ⟨pre, g, rfl, hpre⟩

/-- A placed block keeps the whole promise. -/
theorem alignedBlock_of_placed {a : ℕ} {t : HeapState} (hw : WellFormed buf h (pre ++ c :: post))
    (hinit : ensureInit buf t = h) (hfree : c.free = true) (ha : y % a = 0)
    (hy : y % alignment = 0) (hn : n % alignment = 0)
    (hplaced : Placed h.mem (buf.base + extent blockSize pre) y n) :
    ∃ h', placeAligned h (buf.base + extent blockSize pre) y n = .ok (y, h') ∧
      AlignedBlock buf t h' a n (buf.base + extent blockSize pre) y := by
  have hheader : blockSize = 32 := rfl
  have hroom : c.size + blockSize ≤ 512 * 1024 := hw.tiled.size_le
  have hsize : (loadBlock h.mem (buf.base + extent blockSize pre)).size = c.size := by
    rw [hw.linked.header, headerOf]
  obtain ⟨pre₁, k, m, -, hptr, hend, hlinked, hplace⟩ := placeAligned_linked hw hfree hy hplaced
  have hstart := hplaced.1
  have hfits := hplaced.2.1
  rw [hsize] at hfits
  have htiled : Tiled buf.base buf.limit (pre₁ ++ ⟨k, true⟩ :: post) := hw.tiled.of_extent_eq (by
    simp only [extent_append, extent]
    omega)
  obtain ⟨u, rest, hu, hreached, hmagic⟩ := takeTail_reaches (n := n) htiled hlinked (by omega)
  have hmarked : (buf.base + extent blockSize pre₁, u) ∈
      place blockSize buf.base (pre₁ ++ u :: rest ++ post) := by
    rw [List.append_assoc]
    exact mem_place_middle _ _ _ _ _
  have hheaderAt : y - blockSize = buf.base + extent blockSize pre₁ := by omega
  have hapart : ∀ z ∈ addresses buf.base (pre₁ ++ u :: rest ++ post), Apart y n z blockSize := by
    intro z hz
    obtain ⟨⟨z, d⟩, hd, rfl⟩ := List.mem_map.mp hz
    by_cases hzx : buf.base + extent blockSize pre₁ = z
    · simp only
      omega
    · have := place_apart hmarked hd hzx
      simp only
      omega
  have hreleased := release_placed hw hfree hy hn hplaced hplace
  refine ⟨_, hplace, ha, ⟨_, hw.link_base ▸ hreached, ?_, hapart⟩, ?_, ?_, ?_, ?_, ?_, hreleased⟩
  · rw [hheaderAt]
    exact List.mem_map.mpr ⟨_, hmarked, rfl⟩
  · rw [hheaderAt]
    exact hmagic
  · rw [hheaderAt]
    simp [takeTail]
  · rw [hheaderAt, size_takeTail, Nat.mod_eq_of_lt (by omega)]
  · rw [hinit, hw.linked.header, headerOf, hfree]
    exact Nat.one_ne_zero
  · rw [hinit]
    exact ⟨hplaced.1, hplaced.2.1⟩

end Promise

/-! ## The promise after every run -/

section Runs

variable {buf : HeapBuffer}

/-- The choice is made on the initialised heap. -/
theorem chosenAligned_ensureInit {h : HeapState} {cs : List Cell} (a n : ℕ)
    (hw : WellFormed buf (ensureInit buf h) cs) :
    chosenAligned buf (ensureInit buf h) a n = chosenAligned buf h a n := by
  rw [chosenAligned, hw.ensureInit_eq, chosenAligned]

/-- An initialised heap is not changed by initialisation. -/
theorem ensureInit_of_init {h : HeapState} (hinit : h.initialized = true) : ensureInit buf h = h := by
  rw [ensureInit, hinit, if_pos rfl]

/-- A payload address of zero comes from rounding up past the end of the address space. -/
theorem lt_of_alignedPayload_eq_zero {k x : ℕ} (hk : k < 64) (hx : x + blockSize < 2 ^ 64)
    (hzero : alignedPayload (2 ^ k) x = 0) : 2 ^ 63 < x + blockSize := by
  have hheader : blockSize = 32 := rfl
  have hpos : 0 < 2 ^ k := by positivity
  have hle : 2 ^ k ≤ 2 ^ 63 := Nat.pow_le_pow_right (by norm_num) (by omega)
  rw [alignedPayload_eq (by omega), wrap64_of_lt hx] at hzero
  have hsmall : wrap64 (x + blockSize + (2 ^ k - 1)) < 2 ^ k := by
    by_contra hlarge
    have := Nat.div_pos (Nat.le_of_not_lt hlarge) hpos
    rcases Nat.mul_eq_zero.mp hzero with h | h <;> omega
  by_contra hnear
  rw [wrap64_of_lt (by omega)] at hsmall
  omega

/-- The search accepts a payload at NULL only when its end is behind the block address. -/
theorem le_of_holdsAligned_zero {a n x : ℕ} {c : Cell} (hx : x + blockSize + c.size < 2 ^ 64)
    (hn : n < 2 ^ 64) (hzero : alignedPayload a x = 0) (hholds : HoldsAligned a n x c) : x ≤ n := by
  have hheader : blockSize = 32 := rfl
  rw [HoldsAligned, hzero, Nat.zero_add, wrap64_of_lt hn, wrap64_of_lt (by omega)] at hholds
  by_contra hlt
  unfold sub64 at hholds
  omega

end Runs

/-- After every run that gave up no byte before, `val_aligned_alloc` with an alignment and a size that
it accepts keeps its promise exactly when the chosen block, if there is one, is placed, and when a
call that finds none is not the first one, which initialises the heap. -/
theorem aligned_alloc_iff (buf : HeapBuffer) (m : ByteMemory) (ops : List HeapOp) (s : Client)
    (hrun : Run (Step (Callable buf) buf) (Client.start m) ops s) (a n : ℕ) (hlow : 8 ≤ a)
    (hhigh : a < 2 ^ 64) (hpow : a &&& (a - 1) = 0) (hmod : n % a = 0) (hn : n < 2 ^ 64) :
    AlignedCall buf s.heap a n ↔
      (chosenAligned buf s.heap a n = none → s.heap.initialized = true) ∧
        ∀ choice ∈ chosenAligned buf s.heap a n,
          Placed (ensureInit buf s.heap).mem choice.1 choice.2 n := by
  obtain ⟨cs, hw⟩ := (run_sound hrun).ensureInit_wellFormed
  have henter := valAlignedAlloc_eq buf s.heap hlow hpow hmod
  obtain ⟨k, rfl, hk, hk'⟩ := exists_alignment hlow hhigh hpow
  have height : n % alignment = 0 := mod_eight_of_mod hk hmod
  rw [align_of_mod height hn] at henter
  have hcases := hw.chosenAligned_cases (2 ^ k) n
  rw [chosenAligned_ensureInit _ _ hw, align_of_mod height hn] at hcases
  rcases hcases with ⟨hnone, hchosen⟩ | ⟨pre, c, post, rfl, hfree, hholds, hsome, hchosen⟩
  · rw [hnone, Except.bind] at henter
    rw [hchosen]
    simp only [Option.mem_def, reduceCtorEq, false_implies, implies_true, and_true, forall_const]
    constructor
    · rintro ⟨p, h', hcall, ⟨-, hsame⟩ | ⟨choice, hmem, -⟩⟩
      · rw [henter, hsame] at hcall
        have hsnd : ensureInit buf s.heap = s.heap := congrArg Prod.snd (Except.ok.inj hcall)
        rw [← hsnd]
        exact hw.initialized
      · rw [hchosen] at hmem
        exact nomatch hmem
    · intro hinit
      rw [ensureInit_of_init hinit] at henter
      exact ⟨0, s.heap, henter, Or.inl ⟨rfl, rfl⟩⟩
  · have haddr := hw.addr_lt
    have hmultiple : alignedPayload (2 ^ k) (buf.base + extent blockSize pre) % 2 ^ k = 0 := by
      rw [alignedPayload_eq (by omega)]
      exact Nat.mul_mod_left _ _
    have hlt : alignedPayload (2 ^ k) (buf.base + extent blockSize pre) < 2 ^ 64 := by
      rw [alignedPayload_eq (by omega)]
      exact (Nat.div_mul_le_self _ _).trans_lt (wrap64_lt _)
    rw [hsome, Except.bind] at henter
    simp only at henter
    rw [hchosen]
    simp only [reduceCtorEq, false_implies, true_and, Option.mem_def, Option.some.injEq, forall_eq']
    constructor
    · rintro ⟨p, h', hcall, hresult⟩
      rw [henter] at hcall
      obtain ⟨hp, hflag⟩ := placeAligned_ok hlt hcall
      rcases hresult with ⟨hnull, rfl⟩ | ⟨choice, hmem, hblock⟩
      · rw [hw.initialized] at hflag
        rw [ensureInit_of_init hflag] at hw hcall
        rw [← hp, hnull] at hcall
        have hzero := hp.symm.trans hnull
        exact absurd hcall (placeAligned_zero_changes hw hfree
          (lt_of_alignedPayload_eq_zero hk' (by omega) hzero) hn
          (le_of_holdsAligned_zero haddr hn hzero hholds))
      · rw [hchosen, Option.mem_some_iff] at hmem
        rw [← hmem] at hblock
        subst hp
        obtain ⟨xs, hlist, hon, -⟩ := hblock.onList
        have hinside := hblock.inside
        simp only [hw.linked.header, headerOf] at hinside
        exact placed_of_onList hw hcall hlist hon hinside.1 hinside.2
    · intro hplaced
      obtain ⟨h', hcall, hblock⟩ := alignedBlock_of_placed (t := s.heap) hw rfl hfree hmultiple
        (mod_eight_of_mod hk hmultiple) height hplaced
      exact ⟨_, h', henter.trans hcall, Or.inr ⟨_, hchosen, hblock⟩⟩

/-- A first allocation of a page at a page boundary: the gap before it becomes a block. -/
theorem aligned_alloc_first_page : AlignedCall firstPage (Client.start fun _ => 0).heap 4096 4096 := by
  have hchosen : chosenAligned firstPage (Client.start fun _ => 0).heap 4096 4096 = some (4096, 8192) := by
    decide +kernel
  have hplaced : Placed (ensureInit firstPage (Client.start fun _ => 0).heap).mem 4096 8192 4096 := by
    decide +kernel
  refine (aligned_alloc_iff firstPage (fun _ => 0) [] _ .nil 4096 4096 (by decide) (by decide)
    (by decide) (by decide) (by decide)).mpr ⟨fun hnone => ?_, fun choice hchoice => ?_⟩
  · rw [hchosen] at hnone
    exact nomatch hnone
  · rw [hchosen, Option.mem_some_iff] at hchoice
    rw [← hchoice]
    exact hplaced

/-- After eight bytes at the start of the heap, sixteen bytes at a multiple of sixteen leave a gap of
eight bytes. The returned pointer belongs to no block, and `val_free` rejects it. -/
theorem aligned_alloc_not_released :
    ∃ s p h', Run (Step (Callable firstPage) firstPage) (Client.start fun _ => 0) [.malloc 8] s ∧
      valAlignedAlloc firstPage s.heap 16 16 = .ok (p, h') ∧ p ≠ 0 ∧
      valFree h' p = .ok (.error, h') ∧ ¬AlignedCall firstPage s.heap 16 16 := by
  have heval : ((exec firstPage (Client.start fun _ => 0) (.malloc 8)).bind fun s =>
      (valAlignedAlloc firstPage s.heap 16 16).map fun r =>
        (r.1, decide ((loadBlock r.2.mem (sub64 r.1 blockSize)).magic = blockValidMagic))) =
      .ok (4176, false) := by
    decide +kernel
  obtain ⟨s, hexec, heval⟩ := exists_ok_of_bind heval
  obtain ⟨⟨p, h'⟩, hcall, hresult⟩ := exists_ok_of_map heval
  simp only [Prod.mk.injEq, decide_eq_false_iff_not] at hresult
  obtain ⟨rfl, hmagic⟩ := hresult
  have hreject : valFree h' 4176 = .ok (.error, h') := by
    rw [valFree, if_neg (by norm_num)]
    exact if_pos hmagic
  refine ⟨s, 4176, h', .snoc .nil ⟨by simp [Callable], hexec⟩, hcall, by norm_num, hreject, ?_⟩
  rintro ⟨q, t, hcall', hpromise⟩
  rw [hcall] at hcall'
  obtain ⟨rfl, rfl⟩ := Prod.mk.inj (Except.ok.inj hcall')
  rcases hpromise with ⟨hnull, -⟩ | ⟨choice, -, hblock⟩
  · cases hnull
  · obtain ⟨u, hreleased⟩ := hblock.released
    rw [hreject] at hreleased
    cases hreleased

/-! ## Bytes that are never recovered -/

/-- The calls of clients that allocate with `val_malloc`, `val_calloc` and `val_aligned_alloc`, and
release what is live. -/
def Mixed (s : Client) : HeapOp → Prop
  | .malloc size => size < 2 ^ 64
  | .calloc nmemb size => nmemb < 2 ^ 64 ∧ size < 2 ^ 64
  | .alignedAlloc a size => 8 ≤ a ∧ a &&& (a - 1) = 0 ∧ size % a = 0 ∧ 0 < size ∧
      size ≤ platformHeapBufSize
  | .free ptr => ptr ∈ s.live
  | .realloc _ _ => False
  | .write _ _ => False

/-- After every run whose aligned allocations give up no byte, once nothing is live the initialised
heap is one free block. -/
theorem released_of_run (buf : HeapBuffer) (m : ByteMemory) (ops : List HeapOp) (s : Client)
    (hrun : Run (Step (Callable buf) buf) (Client.start m) ops s) (hinit : s.heap.initialized = true)
    (hlive : s.live = []) :
    TilesHeap buf s.heap [buf.base] ∧ (loadBlock s.heap.mem buf.base).free ≠ 0 ∧
      (loadBlock s.heap.mem buf.base).size = platformHeapBufSize - blockSize := by
  rcases run_sound hrun with huntouched | ⟨cs, htracked⟩
  · rw [huntouched.1] at hinit
    contradiction
  · obtain ⟨hone, hfree, hsize⟩ := htracked.liveLayout.released hlive
    have htiles := htracked.1.tilesHeap
    rw [hone] at htiles
    exact ⟨htiles, hfree, hsize⟩

/-- A page allocated at a page boundary and released. -/
theorem released_of_first_page :
    ∃ s, Run (Step (Callable firstPage) firstPage) (Client.start fun _ => 0)
        [.alignedAlloc 4096 4096, .free 8192] s ∧ TilesHeap firstPage s.heap [4096] := by
  have heval : ((exec firstPage (Client.start fun _ => 0) (.alignedAlloc 4096 4096)).bind fun s =>
      (exec firstPage s (.free 8192)).map fun t => (s.live, t.live, t.heap.initialized)) =
      .ok ([8192], [], true) := by
    decide +kernel
  have htidy : Tidy firstPage (Client.start fun _ => 0).heap 4096 4096 := by decide +kernel
  obtain ⟨s, hfirst, heval⟩ := exists_ok_of_bind heval
  obtain ⟨t, hsecond, hresult⟩ := exists_ok_of_map heval
  simp only [Prod.mk.injEq] at hresult
  obtain ⟨hlive, hnone, hinit⟩ := hresult
  have hrun : Run (Step (Callable firstPage) firstPage) (Client.start fun _ => 0)
      (([] ++ [.alignedAlloc 4096 4096]) ++ [.free 8192]) t :=
    .snoc (.snoc .nil ⟨⟨by norm_num, by norm_num, htidy⟩, hfirst⟩) ⟨by simp [Callable, hlive], hsecond⟩
  exact ⟨t, hrun, (released_of_run firstPage _ _ t hrun hinit hnone).1⟩

/-- An aligned allocation of all but eight bytes of the fresh heap gives the eight bytes up, and
releasing it does not bring them back. -/
theorem aligned_alloc_leaks :
    ∃ s, Run (Step Mixed firstPage) (Client.start fun _ => 0)
        [.alignedAlloc 8 524248, .free 4128] s ∧ s.live = [] ∧ s.heap.initialized = true ∧
      (loadBlock s.heap.mem 4096).next = 0 ∧ (loadBlock s.heap.mem 4096).size = 524248 ∧
      platformHeapBufSize - blockSize = 524256 := by
  have heval : ((exec firstPage (Client.start fun _ => 0) (.alignedAlloc 8 524248)).bind fun s =>
      (exec firstPage s (.free 4128)).map fun t => (s.live, t.live, t.heap.initialized,
        (loadBlock t.heap.mem 4096).next, (loadBlock t.heap.mem 4096).size)) =
      .ok ([4128], [], true, 0, 524248) := by
    decide +kernel
  obtain ⟨s, hfirst, heval⟩ := exists_ok_of_bind heval
  obtain ⟨t, hsecond, hresult⟩ := exists_ok_of_map heval
  simp only [Prod.mk.injEq] at hresult
  obtain ⟨hlive, hnone, hinit, hnext, hsize⟩ := hresult
  have hrun : Run (Step Mixed firstPage) (Client.start fun _ => 0)
      (([] ++ [.alignedAlloc 8 524248]) ++ [.free 4128]) t :=
    .snoc (.snoc .nil ⟨⟨by decide, by decide, by decide, by decide, by decide⟩, hfirst⟩)
      ⟨by simp [Mixed, hlive], hsecond⟩
  exact ⟨t, hrun, hnone, hinit, hnext, hsize, rfl⟩

end FfaAcs.Heap
