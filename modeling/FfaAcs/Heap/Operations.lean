import FfaAcs.Heap.Coalesce

/-!
# The public calls on a well-formed heap

`WellFormed buf h cs` is the representation invariant: the heap of state `h` holds the list of
the cells `cs`, which tile the buffer. Each call has one lemma that says which cells it leaves.
A call on a live pointer is stated for the cell in use that the pointer belongs to.
-/

namespace FfaAcs.Heap

open Machine Tiling Platform

/-- The first address behind the heap buffer. -/
def HeapBuffer.limit (buf : HeapBuffer) : ℕ := buf.base + platformHeapBufSize

/-- The heap of `h` is initialised and holds the coalesced list of the cells `cs`. -/
structure WellFormed (buf : HeapBuffer) (h : HeapState) (cs : List Cell) : Prop where
  initialized : h.initialized = true
  head : h.freeList = buf.base
  tiled : Tiled buf.base buf.limit cs
  linked : Linked h.mem buf.limit 0 buf.base cs
  aligned : ∀ c ∈ cs, c.size % alignment = 0
  coalesced : Coalesced cs

section

variable {buf : HeapBuffer} {h : HeapState} {pre post cs : List Cell} {c : Cell}

/-- An edit of the list that covers the same bytes keeps the heap well formed. -/
theorem WellFormed.edit (hw : WellFormed buf h cs) {m : ByteMemory} {ds : List Cell}
    (hextent : extent blockSize ds = extent blockSize cs)
    (haligned : ∀ d ∈ ds, d.size % alignment = 0) (hcoalesced : Coalesced ds)
    (hm : Linked m buf.limit 0 buf.base ds) : WellFormed buf { h with mem := m } ds :=
  ⟨hw.initialized, hw.head, hw.tiled.of_extent_eq hextent, hm, haligned, hcoalesced⟩

/-- The address of a block is in the address space. -/
theorem WellFormed.addr_lt (hw : WellFormed buf h (pre ++ c :: post)) :
    buf.base + extent blockSize pre + blockSize + c.size < 2 ^ 64 := by
  have htotal := hw.tiled.total
  have hbound := hw.tiled.bound
  simp only [extent_append, extent] at htotal
  omega

/-- Writes inside the payload of a cell do not touch the list. -/
theorem Linked.payload {m m' : ByteMemory} {e p a : ℕ} (h : Linked m e p a (pre ++ c :: post))
    (hsame : ∀ x, x < a + extent blockSize pre + blockSize ∨
      a + extent blockSize pre + blockSize + c.size ≤ x → m' x = m x) :
    Linked m' e p a (pre ++ c :: post) := by
  have hheader : blockSize = 32 := rfl
  obtain ⟨hpre, hc, hpost⟩ := (linked_append ..).mp h
  have hblock {y : ℕ} (hy : y + blockSize ≤ a + extent blockSize pre + blockSize ∨
      a + extent blockSize pre + blockSize + c.size ≤ y) : loadBlock m' y = loadBlock m y :=
    loadBlock_congr fun x hlow hhigh => hsame x (by omega)
  refine (linked_append ..).mpr ⟨hpre.congr_outside fun x _ hx => hblock (by omega), ?_,
    hpost.congr_outside fun x hx _ => hblock (by omega)⟩
  rw [hblock (by omega), hc]

/-! ## Initialisation and rounding -/

/-- The fresh heap is one free cell. -/
theorem valInitHeap_wellFormed (buf : HeapBuffer) (h : HeapState) :
    WellFormed buf (valInitHeap buf h) [⟨platformHeapBufSize - blockSize, true⟩] where
  initialized := rfl
  head := rfl
  tiled := ⟨by simp [extent, HeapBuffer.limit, blockSize, platformHeapBufSize], buf.notNull,
    Nat.le_refl _, buf.fits⟩
  linked := by
    have hroom : blockSize ≤ platformHeapBufSize := by decide
    have hlast : link buf.limit (buf.base + blockSize + (platformHeapBufSize - blockSize)) = 0 :=
      if_pos (by rw [HeapBuffer.limit]; omega)
    refine ⟨?_, trivial⟩
    simp only [valInitHeap, loadBlock_setPrev_same, loadBlock_setNext_same, loadBlock_setSize_same,
      loadBlock_setFree_same, loadBlock_setMagic_same, headerOf, hlast]
    rfl
  aligned := by simp [alignment, platformHeapBufSize, blockSize]
  coalesced := List.isChain_singleton _

/-- Initialisation does nothing to a well-formed heap. -/
theorem WellFormed.ensureInit_eq (hw : WellFormed buf h cs) : ensureInit buf h = h := by
  rw [ensureInit, hw.initialized, if_pos rfl]

/-- The first use initialises the heap. -/
theorem ensureInit_of_uninit (buf : HeapBuffer) (hinit : h.initialized = false) :
    ensureInit buf h = valInitHeap buf h := by
  simp [ensureInit, hinit]

/-- Rounding as a quotient: the sum wraps, and the mask drops the remainder. -/
theorem align_eq_wrap (n : ℕ) : align n = wrap64 (n + 7) / 8 * 8 :=
  land_not64 (k := 3) (by norm_num) (wrap64_lt _)

/-- Rounding goes up to the next multiple of eight unless it wraps. -/
theorem align_eq {n : ℕ} (hn : n ≤ 2 ^ 64 - 8) : align n = (n + 7) / 8 * 8 := by
  rw [align_eq_wrap, wrap64_of_lt (by omega)]

/-- A rounded size is a multiple of eight, also when the sum wraps. -/
theorem align_mod (n : ℕ) : align n % alignment = 0 := by
  rw [align_eq_wrap]
  exact Nat.mul_mod_left _ 8

/-- A rounded size is at most the last multiple of eight. -/
theorem align_le (n : ℕ) : align n ≤ 2 ^ 64 - 8 := by
  have hwrap := wrap64_lt (n + 7)
  rw [align_eq_wrap]
  omega

/-! ## Allocation -/

/-- The first cell left by a cut has the flag of the old one, and the rest does not depend on it. -/
theorem splitCells_eq_cons {n : ℕ} (hn : n ≤ c.size) :
    ∃ k rest, n ≤ k ∧ k ≤ c.size ∧ (∀ d ∈ rest, d.free = true) ∧
      ∀ flag, splitCells { c with free := flag } n = ⟨k, flag⟩ :: rest := by
  by_cases hroom : n + blockSize + alignment ≤ c.size
  · exact ⟨n, [⟨c.size - n - blockSize, true⟩], le_rfl, hn, by simp, fun flag => if_pos hroom⟩
  · exact ⟨c.size, [], hn, le_rfl, by simp, fun flag => if_neg hroom⟩

/-- Taking the first `n` bytes of a free cell keeps the tiling coalesced. -/
theorem coalesced_take {n : ℕ} (h : Coalesced (pre ++ c :: post)) (hfree : c.free = true) :
    Coalesced (pre ++ splitCells { c with free := false } n ++ post) := by
  obtain ⟨hpre, hc, -⟩ := List.isChain_append.mp h
  obtain ⟨hhead, hpost⟩ := List.isChain_cons.mp hc
  have husedHead (d : Cell) : ¬(d.free = true ∧ false = true) := by simp
  unfold splitCells
  split
  · rw [List.append_assoc]
    refine coalesced_join hpre ?_ (fun d _ => husedHead d) (by simp)
    refine List.isChain_cons.mpr ⟨fun d hd hboth => hhead d hd ⟨hfree, hboth.2⟩, hpost⟩
  · rw [List.append_assoc]
    exact coalesced_join hpre hpost (fun d _ => husedHead d) (by simp)

/-- The cells left by a cut have aligned sizes. -/
theorem aligned_splitCells {n : ℕ} (hc : c.size % alignment = 0) (hn : n % alignment = 0) :
    ∀ d ∈ splitCells c n, d.size % alignment = 0 := by
  have hheader : blockSize = 32 := rfl
  have halign : alignment = 8 := rfl
  intro d hd
  unfold splitCells at hd
  split at hd
  · simp only [List.mem_cons, List.not_mem_nil, or_false] at hd
    rcases hd with rfl | rfl
    · exact hn
    · simp only [halign] at *
      omega
  · rw [List.mem_singleton.mp hd, hc]

/-- Marking the first part of a cut block as used. -/
theorem Linked.markUsed {m : ByteMemory} {e p a n : ℕ} (hn : n ≤ c.size)
    (h : Linked m e p a (pre ++ splitCells c n ++ post)) :
    Linked (Heap.setFree m (a + extent blockSize pre) 0) e p a
      (pre ++ splitCells { c with free := false } n ++ post) := by
  obtain ⟨k, rest, -, -, -, hk⟩ := splitCells_eq_cons hn
  rw [hk c.free, List.append_assoc] at h
  rw [hk false, List.append_assoc]
  exact h.setFree false

/-- The valid magic number of a cut block is already there. -/
theorem Linked.markValid {m : ByteMemory} {e p a n : ℕ} (hn : n ≤ c.size)
    (h : Linked m e p a (pre ++ splitCells c n ++ post)) :
    Linked (Heap.setMagic m (a + extent blockSize pre) blockValidMagic) e p a
      (pre ++ splitCells c n ++ post) := by
  obtain ⟨k, rest, -, -, -, hk⟩ := splitCells_eq_cons hn
  rw [hk c.free, List.append_assoc] at h ⊢
  exact h.setMagic

/-- Sizes stay aligned when an aligned number of bytes is cut off. -/
theorem aligned_take {n : ℕ} (h : ∀ d ∈ pre ++ c :: post, d.size % alignment = 0)
    (hn : n % alignment = 0) :
    ∀ d ∈ pre ++ splitCells { c with free := false } n ++ post, d.size % alignment = 0 := by
  simp only [List.mem_append, List.mem_cons] at h ⊢
  rintro d ((hd | hd) | hd)
  · exact h d (Or.inl hd)
  · exact aligned_splitCells (c := { c with free := false }) (h c (Or.inr (Or.inl rfl))) hn d hd
  · exact h d (Or.inr (Or.inr hd))

/-- The payloads in use after a cut are those before it and that of the first part. -/
theorem used_take {a n : ℕ} (hn : n ≤ c.size) :
    used blockSize a (pre ++ splitCells { c with free := false } n ++ post) =
      used blockSize a pre ++ (a + extent blockSize pre + blockSize) ::
        used blockSize (a + extent blockSize pre + blockSize + c.size) post := by
  have hextent : extent blockSize (splitCells { c with free := false } n) = blockSize + c.size :=
    extent_splitCells _ _
  obtain ⟨k, rest, -, -, hrest, hk⟩ := splitCells_eq_cons hn
  rw [hk false] at hextent ⊢
  have hend : a + extent blockSize (pre ++ ⟨k, false⟩ :: rest) =
      a + extent blockSize pre + blockSize + c.size := by
    rw [extent_append, hextent]
    omega
  rw [used_append, hend, used_append, used, if_neg (by simp), used_eq_nil_of_free hrest]
  simp

/-- Marking the first part of a cut block writes only headers. -/
theorem markTaken_offHeaders {n y : ℕ} (hn : n ≤ c.size) (hw : WellFormed buf h (pre ++ c :: post))
    (hy : OffHeaders buf.base (pre ++ splitCells { c with free := false } n ++ post) y) :
    setFree (setMagic (valSplit h.mem (buf.base + extent blockSize pre) n)
        (buf.base + extent blockSize pre) blockValidMagic) (buf.base + extent blockSize pre) 0 y =
      h.mem y := by
  obtain ⟨k, rest, -, -, -, hk⟩ := splitCells_eq_cons hn
  have hcut : OffHeaders buf.base (pre ++ splitCells c n ++ post) y := by
    have hflag := hk c.free
    rw [hk false, List.append_assoc] at hy
    rw [hflag, List.append_assoc]
    exact hy.flag
  have hc := (offHeaders_cons.mp (offHeaders_append.mp hcut.uncut).2).1
  rw [setFree, store_offHeader hc (by decide), setMagic, ByteMemory.store_outside _ (by
    have hheader : blockSize = 32 := rfl
    omega), valSplit_offHeaders hn hw.tiled hw.linked hcut]

/-- `val_malloc` takes the first free cell that is large enough, or returns NULL. -/
theorem valMalloc_wellFormed {n : ℕ} (hw : WellFormed buf h cs) (hpos : 0 < n) :
    (valMalloc buf h n = .ok (0, h) ∧ ∀ c ∈ cs, c.free = true → c.size < align n) ∨
      ∃ pre c post h', cs = pre ++ c :: post ∧ c.free = true ∧ align n ≤ c.size ∧
        (∀ d ∈ pre, d.free = true → d.size < align n) ∧
        valMalloc buf h n = .ok (buf.base + extent blockSize pre + blockSize, h') ∧
        WellFormed buf h' (pre ++ splitCells { c with free := false } (align n) ++ post) ∧
        ∀ y, OffHeaders buf.base (pre ++ splitCells { c with free := false } (align n) ++ post) y →
          h'.mem y = h.mem y := by
  have hbase := buf.notNull
  have hstart : link buf.limit (buf.base + extent blockSize []) = h.freeList := by
    rw [hw.head]
    exact if_neg (by simp [extent, HeapBuffer.limit, platformHeapBufSize])
  rcases findFit_linked [] blockLimit (align n) hw.tiled.length_lt hw.tiled hw.linked with
    ⟨hnone, hsmall⟩ | ⟨pre, c, post, rfl, hfree, hfit, hsmall, hsome⟩
  · refine Or.inl ⟨?_, hsmall⟩
    rw [hstart] at hnone
    rw [valMalloc, if_neg hpos.ne', hw.ensureInit_eq]
    simp only [hnone, bind, Except.bind, if_true]
  · have hlinked := ((valSplit_linked hfit hw.tiled hw.linked).markValid hfit).markUsed hfit
    have hextent : extent blockSize (pre ++ splitCells { c with free := false } (align n) ++ post) =
        extent blockSize (pre ++ c :: post) := by
      simp only [extent_append, extent_splitCells, extent]
      omega
    refine Or.inr ⟨pre, c, post, { h with mem := _ }, rfl, hfree, hfit, hsmall, ?_,
      hw.edit hextent (aligned_take hw.aligned (align_mod n)) (coalesced_take hw.coalesced hfree) hlinked,
      fun y hy => markTaken_offHeaders hfit hw hy⟩
    rw [hstart, List.nil_append] at hsome
    rw [valMalloc, if_neg hpos.ne', hw.ensureInit_eq]
    simp only [hsome, bind, Except.bind]
    rw [if_neg (by omega)]

/-- The bytes a call returned lie in the first part of the cut. -/
theorem linked_payload_take {m m' : ByteMemory} {e p a n : ℕ} (hn : n ≤ c.size)
    (h : Linked m e p a (pre ++ splitCells c n ++ post))
    (hsame : ∀ x, x < a + extent blockSize pre + blockSize ∨
      a + extent blockSize pre + blockSize + n ≤ x → m' x = m x) :
    Linked m' e p a (pre ++ splitCells c n ++ post) := by
  obtain ⟨k, rest, hle, -, -, hk⟩ := splitCells_eq_cons hn
  rw [hk c.free, List.append_assoc] at h ⊢
  exact h.payload fun x hx => hsame x (hx.imp_right (by simp only; omega))

/-- `val_calloc` takes the same cell as `val_malloc` of the wrapped product, and clears as many of
its bytes. -/
theorem valCalloc_wellFormed {nmemb size : ℕ} (hw : WellFormed buf h cs) (hsize : 0 < size)
    (hnmemb : 0 < nmemb) (hpos : 0 < wrap64 (nmemb * size))
    (hn : wrap64 (nmemb * size) ≤ 2 ^ 64 - 8) :
    (valCalloc buf h nmemb size = .ok (0, h) ∧
        ∀ c ∈ cs, c.free = true → c.size < align (wrap64 (nmemb * size))) ∨
      ∃ pre c post h', cs = pre ++ c :: post ∧ c.free = true ∧
        align (wrap64 (nmemb * size)) ≤ c.size ∧
        valCalloc buf h nmemb size = .ok (buf.base + extent blockSize pre + blockSize, h') ∧
        WellFormed buf h' (pre ++ splitCells { c with free := false } (align (wrap64 (nmemb * size)))
          ++ post) ∧
        (∀ i < wrap64 (nmemb * size), h'.mem (buf.base + extent blockSize pre + blockSize + i) = 0) ∧
        ∀ y, OffHeaders buf.base (pre ++ splitCells { c with free := false }
            (align (wrap64 (nmemb * size))) ++ post) y →
          (y < buf.base + extent blockSize pre + blockSize ∨
            buf.base + extent blockSize pre + blockSize + wrap64 (nmemb * size) ≤ y) →
          h'.mem y = h.mem y := by
  rw [valCalloc, if_neg (by omega)]
  generalize wrap64 (nmemb * size) = total at *
  rcases valMalloc_wellFormed hw hpos with
    ⟨hnone, hsmall⟩ | ⟨pre, c, post, h', rfl, hfree, hfit, -, hsome, hw', hsame⟩
  · refine Or.inl ⟨?_, hsmall⟩
    simp only [hnone, bind, Except.bind, ne_eq, not_true_eq_false, if_false]
  · have hcleared : Linked (memset h'.mem (buf.base + extent blockSize pre + blockSize) 0 total)
        buf.limit 0 buf.base
        (pre ++ splitCells { c with free := false } (align total) ++ post) :=
      linked_payload_take hfit hw'.linked fun x hx => memset_outside _ (by
        rw [align_eq hn] at hx
        omega)
    refine Or.inr ⟨pre, c, post, { h' with mem := _ }, rfl, hfree, hfit, ?_, hw'.edit rfl hw'.aligned
      hw'.coalesced hcleared, fun i hi => memset_inside _ hi, fun y hy hout => ?_⟩
    case refine_2 => exact (memset_outside _ hout).trans (hsame y hy)
    have hbase := buf.notNull
    simp only [hsome, bind, Except.bind]
    rw [if_pos (by omega)]

/-! ## Release -/

/-- The extent of cells with aligned sizes is aligned. -/
theorem aligned_extent (h : ∀ d ∈ cs, d.size % alignment = 0) :
    extent blockSize cs % alignment = 0 := by
  induction cs with
  | nil => rfl
  | cons c cs ih =>
    have hc := h c (by simp)
    have hcs := ih fun d hd => h d (by simp [hd])
    simp only [alignment, extent, blockSize] at *
    omega

/-- Merging keeps sizes aligned. -/
theorem aligned_coalesceAt (h : ∀ d ∈ pre ++ c :: post, d.size % alignment = 0) :
    ∀ d ∈ coalesceAt blockSize pre c post, d.size % alignment = 0 := by
  simp only [List.mem_append, List.mem_cons] at h
  have hbefore : extent blockSize (pre.rtakeWhile (·.free)) % alignment = 0 :=
    aligned_extent fun d hd => h d (Or.inl ((List.rtakeWhile_suffix _ _).subset hd))
  have hafter : extent blockSize (post.takeWhile (·.free)) % alignment = 0 :=
    aligned_extent fun d hd => h d (Or.inr (Or.inr ((List.takeWhile_prefix _).subset hd)))
  have hc := h c (Or.inr (Or.inl rfl))
  simp only [coalesceAt, List.mem_append, List.mem_cons]
  rintro d (hd | rfl | hd)
  · exact h d (Or.inl ((List.rdropWhile_prefix _ _).subset hd))
  · simp only [absorb, alignment] at *
    omega
  · exact h d (Or.inr (Or.inr ((List.dropWhile_suffix _).subset hd)))

/-- Merging around any cell of a coalesced list leaves a coalesced list. -/
theorem coalesced_coalesceAt (h : Coalesced (pre ++ c :: post)) (d : Cell) :
    Coalesced (pre.rdropWhile (·.free) ++ d :: post.dropWhile (·.free)) := by
  have hjoined : Coalesced ((pre ++ [c]) ++ post) := by simpa using h
  exact coalesced_around d h.left hjoined.right

/-- `val_free` of a block in use succeeds, merges it with its free neighbours and writes only
headers. Its own header is released, and those released before stay so. -/
theorem valFree_wellFormed (hw : WellFormed buf h (pre ++ c :: post)) (hused : c.free = false) :
    ∃ h', valFree h (buf.base + extent blockSize pre + blockSize) = .ok (.success, h') ∧
      WellFormed buf h' (coalesceAt blockSize pre { c with free := true } post) ∧
      (∀ y, OffHeaders buf.base (pre ++ c :: post) y → h'.mem y = h.mem y) ∧
      ∀ x, x = buf.base + extent blockSize pre ∨ Released h.mem buf.base (pre ++ c :: post) x →
        Released h'.mem buf.base (coalesceAt blockSize pre { c with free := true } post) x := by
  have haddr := hw.addr_lt
  have hbase := buf.notNull
  have hblock : sub64 (buf.base + extent blockSize pre + blockSize) blockSize =
      buf.base + extent blockSize pre := by
    rw [sub64_of_le (by omega) (by omega), Nat.add_sub_cancel]
  have hmarked := hw.linked.setFree true
  have htiled : Tiled buf.base buf.limit (pre ++ { c with free := true } :: post) :=
    hw.tiled.of_extent_eq (by simp only [extent_append, extent])
  have haligned : ∀ d ∈ pre ++ { c with free := true } :: post, d.size % alignment = 0 := by
    have hall := hw.aligned
    simp only [List.mem_append, List.mem_cons] at hall ⊢
    rintro d (hd | rfl | hd)
    exacts [hall d (Or.inl hd), hall c (Or.inr (Or.inl rfl)), hall d (Or.inr (Or.inr hd))]
  obtain ⟨m, hrun, hlinked, hsame, hreleased⟩ := valCoalesce_linked htiled hmarked
  refine ⟨{ h with mem := m }, ?_, hw.edit ?_ (aligned_coalesceAt haligned)
    (coalesced_coalesceAt hw.coalesced _) hlinked, fun y hy => ?_, fun x hx => hreleased x rfl ?_⟩
  · rw [Bool.toNat_true] at hrun
    rw [valFree, if_neg (by omega)]
    simp only [hblock, hw.linked.header, headerOf, hused, ne_eq, not_true_eq_false, if_false,
      Bool.toNat_false, hrun]
    rfl
  · rw [extent_coalesceAt]
    simp only [extent_append, extent]
  · have hc := (offHeaders_cons.mp (offHeaders_append.mp hy).2).1
    change m y = h.mem y
    rw [hsame y hy.flag, setFree, store_offHeader hc (by decide)]
  · rcases hx with rfl | hx
    · exact Or.inl ⟨{ c with free := true }, mem_place_middle _ _ _ _ _, rfl⟩
    · exact hx.setFree

/-- Releasing a block removes its payload and no other. -/
theorem used_release {a : ℕ} :
    used blockSize a (coalesceAt blockSize pre { c with free := true } post) =
      used blockSize a pre ++ used blockSize (a + extent blockSize pre + blockSize + c.size) post := by
  rw [used_coalesceAt, if_pos (by simp [absorb]), List.append_nil]

end

end FfaAcs.Heap
