import FfaAcs.Heap.Resize

/-!
# What a call promises about blocks

Five promises of the allocator, each with the exact condition under which it is kept. Resizing
reads no NULL link unless the resized block ends the list and is not cut. Resizing keeps the data
and the other payloads. It changes no other block unless it starts merging from a block in use. A
returned block has the requested size unless the rounding wraps. Allocating and releasing at once
restores the block list.
-/

namespace FfaAcs.Heap

open Machine Tiling Platform

/-! ## NULL links -/

/-- After `val_split` had the chance to cut the block, no block follows it: it was not cut and is
the last one, or the address behind the cut wraps to NULL. -/
def EndsList (m : ByteMemory) (block size : ℕ) : Prop :=
  if wrap64 (size + blockSize + alignment) ≤ (loadBlock m block).size
    then wrap64 (block + blockSize + size) = 0
    else (loadBlock m block).next = 0

instance (m : ByteMemory) (block size : ℕ) : Decidable (EndsList m block size) :=
  inferInstanceAs (Decidable (ite _ _ _))

/-- The forward loop tests every link before it follows it. -/
theorem coalesceForward_ne_nullDeref (fuel : ℕ) (m : ByteMemory) (block : ℕ) :
    coalesceForward fuel m block ≠ .error .nullDeref := by
  induction fuel generalizing m with
  | zero => simp [coalesceForward]
  | succ fuel ih =>
    rw [coalesceForward]
    split
    · exact ih _
    · simp

/-- The backward loop tests every link before it follows it. -/
theorem coalesceBackward_ne_nullDeref (fuel : ℕ) (m : ByteMemory) (block : ℕ) :
    coalesceBackward fuel m block ≠ .error .nullDeref := by
  induction fuel generalizing m block with
  | zero => simp [coalesceBackward]
  | succ fuel ih =>
    rw [coalesceBackward]
    split
    · exact ih _ _
    · simp

/-- Merging reads a NULL link only when it is given one. -/
theorem valCoalesce_nullDeref_iff (m : ByteMemory) (block : ℕ) :
    valCoalesce m block = .error .nullDeref ↔ block = 0 := by
  rw [valCoalesce]
  split
  case isTrue hnull => simp [hnull]
  case isFalse hblock =>
    simp only [hblock, iff_false]
    exact bind_ne_error (coalesceForward_ne_nullDeref _ _ _)
      fun m₁ => coalesceBackward_ne_nullDeref _ _ _

/-- The search of `val_malloc` tests every link before it follows it. -/
theorem findFit_ne_nullDeref (fuel : ℕ) (m : ByteMemory) (block size : ℕ) :
    findFit fuel m block size ≠ .error .nullDeref := by
  induction fuel generalizing block with
  | zero => simp [findFit]
  | succ fuel ih =>
    rw [findFit]
    split
    · simp
    · split
      · simp
      · exact ih _

/-- `val_malloc` reads no NULL link. -/
theorem valMalloc_ne_nullDeref (buf : HeapBuffer) (h : HeapState) (n : ℕ) :
    valMalloc buf h n ≠ .error .nullDeref := by
  rw [valMalloc]
  split
  · simp
  · refine bind_ne_error (findFit_ne_nullDeref _ _ _ _) fun block => ?_
    split <;> simp

/-- `val_free` reads no NULL link when the header is not at NULL. -/
theorem valFree_ne_nullDeref {p : ℕ} (h : HeapState) (hblock : sub64 p blockSize ≠ 0) :
    valFree h p ≠ .error .nullDeref := by
  have hmerge : valCoalesce (setFree h.mem (sub64 p blockSize) 1) (sub64 p blockSize) ≠
      .error .nullDeref := fun hfault => hblock ((valCoalesce_nullDeref_iff _ _).mp hfault)
  rw [valFree]
  dsimp only
  split
  · simp
  · split
    · simp
    · split
      · simp
      · exact bind_ne_error hmerge (by simp)

/-- The first path of `val_realloc` reads a NULL link exactly when the block ends the list. -/
theorem reallocShrink_nullDeref_iff (h : HeapState) (block size : ℕ) :
    reallocShrink h block size = .error .nullDeref ↔ EndsList h.mem block size := by
  have hnext : (loadBlock (valSplit h.mem block size) block).next = 0 ↔ EndsList h.mem block size := by
    rw [valSplit, EndsList]
    split
    · simp only [loadBlock_setSize_same, loadBlock_setNext_same]
      rw [Nat.mod_eq_of_lt (wrap64_lt _)]
    · rfl
  rw [← hnext, ← valCoalesce_nullDeref_iff (valSplit h.mem block size)]
  exact bind_eq_error_iff fun r => by simp [pure, Except.pure]

/-- The second path of `val_realloc` starts merging at the block itself. -/
theorem reallocGrow_ne_nullDeref {block : ℕ} (h : HeapState) (size : ℕ) (hblock : block ≠ 0) :
    reallocGrow h block size ≠ .error .nullDeref :=
  bind_ne_error (fun hfault => hblock ((valCoalesce_nullDeref_iff _ _).mp hfault))
    fun r => by simp [pure, Except.pure]

/-- The third path of `val_realloc` is made of calls that read no NULL link. -/
theorem reallocMove_ne_nullDeref {block : ℕ} (buf : HeapBuffer) (h : HeapState) (size : ℕ)
    (hblock : sub64 (block + blockSize) blockSize ≠ 0) :
    reallocMove buf h block size ≠ .error .nullDeref := by
  refine bind_ne_error (valMalloc_ne_nullDeref _ _ _) fun r => ?_
  dsimp only
  split
  · simp [pure, Except.pure]
  · exact bind_ne_error (valFree_ne_nullDeref _ hblock) fun r => by simp [pure, Except.pure]

/-- Resizing a valid block reads a NULL link exactly when the block is large enough for the new size
and followed by no block once it had the chance to be cut. -/
theorem valRealloc_nullDeref_iff {p n : ℕ} (buf : HeapBuffer) (h : HeapState) (hlow : blockSize < p)
    (hhigh : p < 2 ^ 64) (hn : n ≠ 0) (hmagic : (loadBlock h.mem (p - blockSize)).magic = blockValidMagic) :
    valRealloc buf h p n = .error .nullDeref ↔
      align n ≤ (loadBlock h.mem (p - blockSize)).size ∧ EndsList h.mem (p - blockSize) (align n) := by
  have hsub : sub64 p blockSize = p - blockSize := sub64_of_le (by omega) hhigh
  have hptr : p - blockSize + blockSize = p := by omega
  have hblock : p - blockSize ≠ 0 := by omega
  rw [valRealloc, if_neg (by omega), if_neg hn]
  simp only [hsub]
  by_cases hfit : align n ≤ (loadBlock h.mem (p - blockSize)).size
  · simp only [hmagic, ne_eq, not_true_eq_false, if_false, hfit, if_true, reallocShrink_nullDeref_iff,
      true_and]
  · simp only [hmagic, ne_eq, not_true_eq_false, if_false, hfit, false_and, iff_false]
    split
    · exact reallocGrow_ne_nullDeref _ _ hblock
    · exact reallocMove_ne_nullDeref _ _ _ (by rw [hptr, hsub]; exact hblock)

/-- Whatever the heap looks like, resizing a block reads a NULL link exactly when the block is
valid, large enough for the new size, and followed by no block once it had the chance to be
cut. -/
theorem realloc_null_deref_iff (buf : HeapBuffer) (h : HeapState) (p n : ℕ) (hlow : blockSize < p)
    (hhigh : p < 2 ^ 64) :
    valRealloc buf h p n = .error .nullDeref ↔
      n ≠ 0 ∧ (loadBlock h.mem (p - blockSize)).magic = blockValidMagic ∧
        align n ≤ (loadBlock h.mem (p - blockSize)).size ∧ EndsList h.mem (p - blockSize) (align n) := by
  have hsub : sub64 p blockSize = p - blockSize := sub64_of_le (by omega) hhigh
  have hblock : p - blockSize ≠ 0 := by omega
  by_cases hn : n = 0
  · rw [valRealloc, if_neg (by omega), if_pos hn]
    simp only [hn, ne_eq, not_true_eq_false, false_and, iff_false]
    exact bind_ne_error (valFree_ne_nullDeref _ (by rw [hsub]; exact hblock))
      fun r => by simp [pure, Except.pure]
  · by_cases hmagic : (loadBlock h.mem (p - blockSize)).magic = blockValidMagic
    · rw [valRealloc_nullDeref_iff buf h hlow hhigh hn hmagic]
      simp only [ne_eq, hn, not_false_eq_true, hmagic, true_and]
    · rw [valRealloc, if_neg (by omega), if_neg hn]
      simp [hsub, hmagic]

/-- The first ten bytes of a fresh heap: their block is followed by the rest of the heap, can grow to a
hundred bytes where it is, and another ten bytes are found behind it. -/
theorem first_ten_bytes :
    ∃ s, exec firstPage (Client.start fun _ => 0) (.malloc 10) = .ok s ∧
      Run (Step (Callable firstPage) firstPage) (Client.start fun _ => 0) [.malloc 10] s ∧
      s.live = [4128] ∧ s.heap.initialized = true ∧ ¬EndsList s.heap.mem 4096 (align 10) ∧
      (∃ h', valRealloc firstPage s.heap 4128 100 = .ok (4128, h')) ∧
      ∃ h', valMalloc firstPage s.heap 10 = .ok (4176, h') := by
  have heval : (exec firstPage (Client.start fun _ => 0) (.malloc 10)).map
      (fun s => (s.live, s.heap.initialized, decide (EndsList s.heap.mem 4096 (align 10)),
        (valRealloc firstPage s.heap 4128 100).map Prod.fst,
        (valMalloc firstPage s.heap 10).map Prod.fst)) =
      .ok ([4128], true, false, .ok 4128, .ok 4176) := by
    decide +kernel
  obtain ⟨s, hexec, hresult⟩ := exists_ok_of_map heval
  simp only [Prod.mk.injEq, decide_eq_false_iff_not] at hresult
  obtain ⟨hlive, hinit, hfollowed, hgrow, hnext⟩ := hresult
  have hrun : Run (Step (Callable firstPage) firstPage) (Client.start fun _ => 0)
      ([] ++ [.malloc 10]) s := .snoc .nil ⟨by simp [Callable], hexec⟩
  obtain ⟨⟨_, h₁⟩, hgrow, rfl⟩ := exists_ok_of_map hgrow
  obtain ⟨⟨_, h₂⟩, hnext, rfl⟩ := exists_ok_of_map hnext
  exact ⟨s, hexec, hrun, hlive, hinit, hfollowed, ⟨h₁, hgrow⟩, h₂, hnext⟩

/-- A block that is followed by the rest of the heap is resized without a fault. -/
theorem realloc_same_size_returns :
    ∃ s, exec firstPage (Client.start fun _ => 0) (.malloc 10) = .ok s ∧ s.live = [4128] ∧
      valRealloc firstPage s.heap 4128 10 ≠ .error .nullDeref := by
  obtain ⟨s, hexec, -, hlive, -, hfollowed, -⟩ := first_ten_bytes
  refine ⟨s, hexec, hlive, fun hfault => ?_⟩
  have hcond := (realloc_null_deref_iff firstPage s.heap 4128 10 (by decide) (by decide)).mp hfault
  have hblock : 4128 - blockSize = 4096 := rfl
  rw [hblock] at hcond
  simp only [hfollowed, and_false] at hcond

/-- A block that fills the heap ends the list, and resizing it to its own size reads NULL. -/
theorem realloc_whole_heap_null_deref :
    ∃ s, Run (Step Allowed firstPage) (Client.start fun _ => 0) [.malloc 524256] s ∧
      s.live = [4128] ∧ valRealloc firstPage s.heap 4128 524256 = .error .nullDeref := by
  have heval : (exec firstPage (Client.start fun _ => 0) (.malloc 524256)).map
      (fun s => (s.live, (valRealloc firstPage s.heap 4128 524256).map Prod.fst)) =
        .ok ([4128], .error .nullDeref) := by
    decide +kernel
  obtain ⟨s, hexec, hresult⟩ := exists_ok_of_map heval
  obtain ⟨hlive, hfault⟩ := Prod.mk.inj hresult
  have hrun : Run (Step Allowed firstPage) (Client.start fun _ => 0) ([] ++ [.malloc 524256]) s :=
    .snoc .nil ⟨by decide, hexec⟩
  have hfault' := eq_error_of_map hfault
  exact ⟨s, hrun, hlive, hfault'⟩

/-! ## Data -/

/-- The pointer is the payload of a block in use of the list. -/
def InUse (buf : HeapBuffer) (h : HeapState) (q : ℕ) : Prop :=
  ∃ xs x, TilesHeap buf h xs ∧ x ∈ xs ∧ q = x + blockSize ∧ (loadBlock h.mem x).free = 0

section

variable {buf : HeapBuffer} {h : HeapState} {s : Client} {cs pre post : List Cell} {c : Cell}

/-- The payload of a placed cell in use. -/
theorem WellFormed.inUse {x : ℕ} (hw : WellFormed buf h cs) (hx : (x, c) ∈ place blockSize buf.base cs)
    (hused : c.free = false) : InUse buf h (x + blockSize) := by
  obtain ⟨q, hheader⟩ := hw.linked.exists_header hx
  refine ⟨_, x, hw.tilesHeap, List.mem_map.mpr ⟨_, hx, rfl⟩, rfl, ?_⟩
  rw [hheader, headerOf, hused, Bool.toNat_false]

/-- The size of a placed cell. -/
theorem WellFormed.payloadSize_eq {x : ℕ} (hw : WellFormed buf h cs)
    (hx : (x, c) ∈ place blockSize buf.base cs) : payloadSize h.mem (x + blockSize) = c.size := by
  obtain ⟨q, hheader⟩ := hw.linked.exists_header hx
  rw [payloadSize, Nat.add_sub_cancel, hheader, headerOf]

/-- A live pointer is the payload of a placed cell in use. -/
theorem Tracked.exists_place {p : ℕ} (h : Tracked buf s cs) (hp : p ∈ s.live) :
    ∃ x u, p = x + blockSize ∧ (x, u) ∈ place blockSize buf.base cs ∧ u.free = false := by
  obtain ⟨x, u, hx, hused, rfl⟩ := mem_used_iff.mp (h.2.mem_iff.mp hp)
  exact ⟨x, u, rfl, hx, hused⟩

/-- Rounding up does not make a size smaller. -/
theorem le_align {n : ℕ} (hn : n ≤ 2 ^ 64 - 8) : n ≤ align n := by
  rw [align_eq hn]
  omega

end

/-- After every run, resizing a live block to `n` bytes and getting a pointer moves the data along:
the first bytes are those that were there, the returned block is in use and large enough, and the
bytes of the other live payloads are unchanged. Getting NULL leaves the whole heap as it was. -/
theorem realloc_data_of_run (buf : HeapBuffer) (m : ByteMemory) (ops : List HeapOp) (s : Client)
    (hrun : Run (Step (Callable buf) buf) (Client.start m) ops s) (p n q : ℕ) (h' : HeapState)
    (hp : p ∈ s.live) (hlow : 1 ≤ n) (hhigh : n ≤ 2 ^ 64 - 8)
    (hcall : valRealloc buf s.heap p n = .ok (q, h')) :
    (q ≠ 0 → (∀ i, i < min (payloadSize s.heap.mem p) n → h'.mem (q + i) = s.heap.mem (p + i)) ∧
        InUse buf h' q ∧ n ≤ payloadSize h'.mem q ∧
        ∀ p' ∈ s.live, p' ≠ p → ∀ i, i < payloadSize s.heap.mem p' →
          h'.mem (p' + i) = s.heap.mem (p' + i)) ∧
      (q = 0 → h' = s.heap) := by
  obtain ⟨cs, hs⟩ := (run_sound hrun).tracked_of_mem hp
  obtain ⟨pre, c, post, rfl, hc, rfl⟩ := hs.exists_split hp
  have hresized := valRealloc_resized hs.1 hc hlow
  rw [hcall] at hresized
  refine ⟨fun hq => ?_, fun hq => ?_⟩
  · obtain ⟨ds, hafter⟩ := hresized.afterResize hc hq
    obtain ⟨x, k, rfl, hx, hk, -⟩ := hafter.block
    have hle := le_align hhigh
    rw [hs.1.payloadSize_eq (mem_place_middle _ _ _ _ _), hafter.wellFormed.payloadSize_eq hx]
    refine ⟨fun i hi => hafter.data i (by omega) (by omega), hafter.wellFormed.inUse hx rfl,
      by simp only; omega, fun p' hp' hne i hi => ?_⟩
    obtain ⟨y, u, rfl, hy, hu⟩ := hs.exists_place hp'
    rw [hs.1.payloadSize_eq hy] at hi
    exact (hafter.others y u hy hu (by omega)).bytes _ (by omega) (by omega)
  · exact hresized.eq_of_null hq

/-- The data of ten bytes stays when they grow to a hundred. -/
theorem realloc_data_of_grow :
    ∃ s h', exec firstPage (Client.start fun _ => 0) (.malloc 10) = .ok s ∧ s.live = [4128] ∧
      valRealloc firstPage s.heap 4128 100 = .ok (4128, h') ∧ 100 ≤ payloadSize h'.mem 4128 := by
  obtain ⟨s, hexec, hrun, hlive, -, -, ⟨h', hcall⟩, -⟩ := first_ten_bytes
  have hdata := realloc_data_of_run firstPage _ _ s hrun 4128 100 4128 h' (by simp [hlive]) (by norm_num)
    (by norm_num) hcall
  exact ⟨s, h', hexec, hlive, hcall, (hdata.1 (by decide)).2.2.1⟩

/-! ## Sizes -/

/-- The call has returned NULL or a block in use with at least `n` bytes of payload. -/
def GivesAtLeast (buf : HeapBuffer) (n : ℕ) (result : Except Fault (ℕ × HeapState)) : Prop :=
  ∃ q h', result = .ok (q, h') ∧ (q = 0 ∨ InUse buf h' q ∧ n ≤ payloadSize h'.mem q)

/-- Nothing is asked for, or every free block of the list is too small for `n` bytes. The first call
finds the list of the fresh heap. -/
def NoRoom (buf : HeapBuffer) (h : HeapState) (n : ℕ) : Prop :=
  n = 0 ∨ ∀ xs, TilesHeap buf (ensureInit buf h) xs → ∀ x ∈ xs,
    (loadBlock (ensureInit buf h).mem x).free ≠ 0 →
      (loadBlock (ensureInit buf h).mem x).size < align n

section

variable {buf : HeapBuffer} {s : Client}

/-- There is no room when every free cell is too small. -/
theorem noRoom_iff {h : HeapState} {cs : List Cell} {n : ℕ} (hw : WellFormed buf (ensureInit buf h) cs)
    (hpos : 0 < n) : NoRoom buf h n ↔ ∀ c ∈ cs, c.free = true → c.size < align n := by
  rw [NoRoom, or_iff_right hpos.ne']
  constructor
  · intro hsmall c hc hfree
    obtain ⟨pre, post, rfl⟩ := List.append_of_mem hc
    have hx := mem_place_middle blockSize buf.base pre c post
    obtain ⟨q, hheader⟩ := hw.linked.exists_header hx
    have hcell := hsmall _ hw.tilesHeap _ (List.mem_map.mpr ⟨_, hx, rfl⟩)
    rw [hheader, headerOf, hfree] at hcell
    exact hcell Nat.one_ne_zero
  · intro hsmall xs hxs x hx hfree
    rw [hxs.reached.unique hw.tilesHeap.reached] at hx
    obtain ⟨⟨x, c⟩, hplace, rfl⟩ := List.mem_map.mp hx
    obtain ⟨q, hheader⟩ := hw.linked.exists_header hplace
    obtain ⟨pre, post, rfl, -⟩ := exists_split_of_mem_place hplace
    rw [hheader, headerOf] at hfree ⊢
    exact hsmall c (by simp) (by simpa using hfree)

/-- Rounding wraps to zero for the last seven sizes. -/
theorem align_eq_zero {n : ℕ} (hlow : 2 ^ 64 - 8 < n) (hhigh : n < 2 ^ 64) : align n = 0 := by
  rw [align_eq_wrap, wrap64]
  omega

/-- The returned block has the requested size exactly when the rounding does not wrap. -/
theorem le_iff_of_align {n k : ℕ} (hn : n < 2 ^ 64) (hk : align n ≤ k)
    (hzero : align n = 0 → k < blockSize + alignment) : n ≤ k ↔ n ≤ 2 ^ 64 - 8 := by
  have hheader : blockSize = 32 := rfl
  have halign : alignment = 8 := rfl
  refine ⟨fun hle => ?_, fun hle => (le_align hle).trans hk⟩
  by_contra hlarge
  have := hzero (align_eq_zero (by omega) hn)
  omega

/-- The first part of a cut is short when nothing was asked for. -/
theorem exists_splitCells {c : Cell} {n : ℕ} (hn : n ≤ c.size) :
    ∃ k rest, splitCells c n = ⟨k, c.free⟩ :: rest ∧ n ≤ k ∧ k < n + blockSize + alignment := by
  have hheader : blockSize = 32 := rfl
  unfold splitCells
  split
  · exact ⟨n, _, rfl, le_rfl, by omega⟩
  · exact ⟨c.size, [], rfl, hn, by omega⟩

/-- `val_malloc` on any sound heap returns NULL exactly if there is no room, and otherwise a block in
use. -/
theorem Sound.malloc_block {n : ℕ} (hs : Sound buf s) :
    ∃ q h', valMalloc buf s.heap n = .ok (q, h') ∧ (q = 0 ↔ NoRoom buf s.heap n) ∧
      (q ≠ 0 → InUse buf h' q ∧ align n ≤ payloadSize h'.mem q ∧
        (align n = 0 → payloadSize h'.mem q < blockSize + alignment)) := by
  rcases Nat.eq_zero_or_pos n with rfl | hpos
  · exact ⟨0, s.heap, rfl, iff_of_true rfl (Or.inl rfl), fun hq => absurd rfl hq⟩
  · obtain ⟨cs, hw⟩ := hs.ensureInit_wellFormed
    rw [hs.valMalloc_eq hpos, noRoom_iff hw hpos]
    rcases valMalloc_wellFormed hw hpos with
      ⟨hnone, hsmall⟩ | ⟨pre, c, post, h', rfl, hfree, hfit, -, hsome, hw', -⟩
    · exact ⟨0, _, hnone, iff_of_true rfl hsmall, fun hq => absurd rfl hq⟩
    · have hbase := buf.notNull
      obtain ⟨k, rest, hcut, hle, hlt⟩ := exists_splitCells (c := { c with free := false }) hfit
      have hx : (buf.base + extent blockSize pre, ⟨k, false⟩) ∈
          place blockSize buf.base (pre ++ splitCells { c with free := false } (align n) ++ post) := by
        rw [hcut, List.append_assoc]
        exact mem_place_middle _ _ _ _ _
      refine ⟨_, h', hsome, iff_of_false (by omega) fun hsmall => ?_, fun _ => ⟨hw'.inUse hx rfl, ?_⟩⟩
      · exact absurd (hsmall c (by simp) hfree) (by omega)
      · rw [hw'.payloadSize_eq hx]
        exact ⟨hle, fun hzero => by simp only; omega⟩

/-- `val_malloc` gives the bytes that it was asked for. -/
theorem Sound.malloc_givesAtLeast_iff {n : ℕ} (hs : Sound buf s) (hn : n < 2 ^ 64) :
    GivesAtLeast buf n (valMalloc buf s.heap n) ↔ n ≤ 2 ^ 64 - 8 ∨ NoRoom buf s.heap n := by
  obtain ⟨q, h', hcall, hnull, hblock⟩ := hs.malloc_block (n := n)
  rw [hcall]
  by_cases hq : q = 0
  · exact iff_of_true ⟨q, h', rfl, Or.inl hq⟩ (Or.inr (hnull.mp hq))
  · obtain ⟨huse, hle, hzero⟩ := hblock hq
    have hsize := le_iff_of_align hn hle hzero
    rw [or_iff_left fun hroom => hq (hnull.mpr hroom), ← hsize]
    constructor
    · rintro ⟨_, _, hresult, hgiven⟩
      obtain ⟨rfl, rfl⟩ := Prod.mk.inj (Except.ok.inj hresult)
      exact (hgiven.resolve_left hq).2
    · exact fun hbytes => ⟨q, h', rfl, Or.inr ⟨huse, hbytes⟩⟩

/-- The outcome of a resize gives the bytes that were asked for exactly if it is no fault and the size
could be rounded up. -/
theorem Resized.givesAtLeast_iff {h : HeapState} {pre post : List Cell} {c : Cell} {n : ℕ}
    {result : Except Fault (ℕ × HeapState)} (hc : c.free = false) (hn : n < 2 ^ 64)
    (hresized : Resized buf h pre c post n result) :
    GivesAtLeast buf n result ↔ n ≤ 2 ^ 64 - 8 ∧ result ≠ .error .nullDeref := by
  cases result with
  | error fault =>
    cases hresized with
    | ends => simp [GivesAtLeast]
  | ok r =>
    obtain ⟨q, h'⟩ := r
    rw [and_iff_left (by simp)]
    by_cases hq : q = 0
    · -- NULL is returned only if the block is too small, and no block is too small for zero bytes
      have hlarge := hresized.lt_of_null hq
      have hsize : n ≤ 2 ^ 64 - 8 := by
        by_contra hgt
        rw [align_eq_zero (by omega) hn] at hlarge
        exact absurd hlarge (Nat.not_lt_zero _)
      exact iff_of_true ⟨q, h', rfl, Or.inl hq⟩ hsize
    · obtain ⟨ds, hafter⟩ := hresized.afterResize hc hq
      obtain ⟨x, k, hx, hplace, hle, hzero⟩ := hafter.block
      have hpayload := hafter.wellFormed.payloadSize_eq hplace
      rw [← hx] at hpayload
      rw [← le_iff_of_align hn hle hzero]
      constructor
      · rintro ⟨_, _, hresult, hgiven⟩
        obtain ⟨rfl, rfl⟩ := Prod.mk.inj (Except.ok.inj hresult)
        have hbytes := (hgiven.resolve_left hq).2
        rwa [hpayload] at hbytes
      · intro hbytes
        refine ⟨q, h', rfl, Or.inr ⟨?_, by rwa [hpayload]⟩⟩
        rw [hx]
        exact hafter.wellFormed.inUse hplace rfl

end

/-- After every run, `val_malloc` returns NULL or a block in use of at least the requested size exactly
when the size is at most `2 ^ 64 - 8` or there is no room; a larger size is rounded to zero, and there is
no room for it only if no block is free. `val_realloc` of a live block does so exactly when the size is
at most `2 ^ 64 - 8` and no NULL link is read, that is, when a block that is large enough is followed by
another one once it had the chance to be cut. -/
theorem sizes_of_run (buf : HeapBuffer) (m : ByteMemory) (ops : List HeapOp) (s : Client)
    (hrun : Run (Step (Callable buf) buf) (Client.start m) ops s) (n : ℕ) (hn : n < 2 ^ 64) :
    (GivesAtLeast buf n (valMalloc buf s.heap n) ↔ n ≤ 2 ^ 64 - 8 ∨ NoRoom buf s.heap n) ∧
      ∀ p ∈ s.live, 1 ≤ n → (GivesAtLeast buf n (valRealloc buf s.heap p n) ↔
        n ≤ 2 ^ 64 - 8 ∧ (align n ≤ (loadBlock s.heap.mem (p - blockSize)).size →
          ¬EndsList s.heap.mem (p - blockSize) (align n))) := by
  have hsound := run_sound hrun
  refine ⟨hsound.malloc_givesAtLeast_iff hn, fun p hp hpos => ?_⟩
  obtain ⟨cs, hs⟩ := hsound.tracked_of_mem hp
  obtain ⟨pre, c, post, rfl, hc, rfl⟩ := hs.exists_split hp
  have hbase := buf.notNull
  have haddr := hs.1.addr_lt
  have hmagic := congrArg Block.magic hs.1.linked.header
  have hnull := valRealloc_nullDeref_iff (p := buf.base + extent blockSize pre + blockSize) buf s.heap
    (by omega) (by omega) (Nat.one_le_iff_ne_zero.mp hpos) (by rw [Nat.add_sub_cancel]; exact hmagic)
  rw [(valRealloc_resized hs.1 hc hpos).givesAtLeast_iff hc hn, ne_eq, hnull, not_and]

/-- After a first allocation of ten bytes, another ten bytes can be had, and the first block can be
resized to ten bytes. -/
theorem sizes_of_first_malloc :
    ∃ s, exec firstPage (Client.start fun _ => 0) (.malloc 10) = .ok s ∧ s.live = [4128] ∧
      GivesAtLeast firstPage 10 (valMalloc firstPage s.heap 10) ∧
      GivesAtLeast firstPage 10 (valRealloc firstPage s.heap 4128 10) := by
  obtain ⟨s, hexec, hrun, hlive, -, hfollowed, -⟩ := first_ten_bytes
  obtain ⟨hmalloc, hrealloc⟩ := sizes_of_run firstPage (fun _ => 0) _ s hrun 10 (by norm_num)
  refine ⟨s, hexec, hlive, hmalloc.mpr (Or.inl (by norm_num)), ?_⟩
  exact (hrealloc 4128 (by simp [hlive]) (by norm_num)).mpr ⟨by norm_num, fun _ => hfollowed⟩

/-- A first allocation of the largest size gets a block without payload. -/
theorem malloc_max_returns_empty_block :
    ∃ q h', valMalloc firstPage (Client.start fun _ => 0).heap (2 ^ 64 - 1) = .ok (q, h') ∧ q ≠ 0 ∧
      payloadSize h'.mem q = 0 := by
  have heval : (valMalloc firstPage (Client.start fun _ => 0).heap (2 ^ 64 - 1)).map
      (fun r => (r.1, payloadSize r.2.mem r.1)) = .ok (4128, 0) := by
    decide +kernel
  obtain ⟨⟨q, h'⟩, hcall, hresult⟩ := exists_ok_of_map heval
  obtain ⟨hq, hsize⟩ := Prod.mk.inj hresult
  refine ⟨q, h', hcall, ?_, hsize⟩
  simp only at hq
  omega

/-! ## The other blocks -/

/-- The block of `q` is still on the list, with the size and the flag it had. -/
def KeepsBlock (buf : HeapBuffer) (h h' : HeapState) (q : ℕ) : Prop :=
  (∃ xs, TilesHeap buf h' xs ∧ q - blockSize ∈ xs) ∧
    (loadBlock h'.mem (q - blockSize)).size = (loadBlock h.mem (q - blockSize)).size ∧
    (loadBlock h'.mem (q - blockSize)).free = (loadBlock h.mem (q - blockSize)).free

/-- The block is not cut, the block behind it is in use, and the one behind that is free. -/
def MergesBehindUsed (m : ByteMemory) (block size : ℕ) : Prop :=
  size ≤ (loadBlock m block).size ∧ (loadBlock m block).size < size + blockSize + alignment ∧
    (loadBlock m block).next ≠ 0 ∧ (loadBlock m (loadBlock m block).next).free = 0 ∧
    (loadBlock m (loadBlock m block).next).next ≠ 0 ∧
    (loadBlock m (loadBlock m (loadBlock m block).next).next).free ≠ 0

section

variable {buf : HeapBuffer} {h h' : HeapState} {s : Client} {cs ds pre post : List Cell} {c : Cell}
  {n : ℕ}

/-- The condition on the memory is the one on the cells. -/
theorem WellFormed.mergesBehindUsed_iff (hw : WellFormed buf h (pre ++ c :: post)) :
    MergesBehindUsed h.mem (buf.base + extent blockSize pre) (align n) ↔ AbsorbsBehind c post n := by
  have hc := hw.linked.header
  rw [headerOf] at hc
  rw [MergesBehindUsed, AbsorbsBehind, hc]
  simp only
  refine and_congr_right fun _ => and_congr_right fun _ => ?_
  rcases post with _ | ⟨d, _ | ⟨e, rest⟩⟩
  · simp [(link_eq_zero_iff hw.tiled).mpr rfl]
  · have hw₁ : WellFormed buf h ((pre ++ [c]) ++ [d]) := by simpa using hw
    have hlast := hw₁.linked.header
    have hend : buf.base + extent blockSize (pre ++ [c]) =
        buf.base + extent blockSize pre + blockSize + c.size := by
      simp only [extent_append, extent]
      omega
    rw [hend, headerOf, ← hend, (link_eq_zero_iff hw₁.tiled).mpr rfl, hend] at hlast
    simp [link_of_cons hw.tiled, hlast]
  · have hw₁ : WellFormed buf h ((pre ++ [c]) ++ d :: e :: rest) := by simpa using hw
    have hw₂ : WellFormed buf h ((pre ++ [c, d]) ++ e :: rest) := by simpa using hw
    have hd := hw₁.linked.header
    have he := hw₂.linked.header
    have hpos := buf.notNull
    have hend₁ : buf.base + extent blockSize (pre ++ [c]) =
        buf.base + extent blockSize pre + blockSize + c.size := by
      simp only [extent_append, extent]
      omega
    have hend₂ : buf.base + extent blockSize (pre ++ [c, d]) =
        buf.base + extent blockSize pre + blockSize + c.size + blockSize + d.size := by
      simp only [extent_append, extent]
      omega
    have hlink := link_of_cons hw₁.tiled
    rw [hend₁] at hd hlink
    rw [hend₂, headerOf] at he
    rw [headerOf, hlink] at hd
    rw [link_of_cons hw.tiled, hd]
    simp only [he, Bool.toNat_eq_zero, List.cons.injEq]
    constructor
    · rintro ⟨-, hdused, -, hefree⟩
      exact ⟨d, e, rest, ⟨rfl, rfl, rfl⟩, hdused, by simpa using hefree⟩
    · rintro ⟨d', e', rest', ⟨rfl, rfl, rfl⟩, hdused, hefree⟩
      exact ⟨by omega, hdused, by omega, by simp [hefree]⟩

/-- A cell that is placed before and after keeps its block. -/
theorem keepsBlock_of_place {x : ℕ} {u : Cell} (hw : WellFormed buf h cs) (hw' : WellFormed buf h' ds)
    (hx : (x, u) ∈ place blockSize buf.base cs) (hx' : (x, u) ∈ place blockSize buf.base ds) :
    KeepsBlock buf h h' (x + blockSize) := by
  obtain ⟨q, hheader⟩ := hw.linked.exists_header hx
  obtain ⟨q', hheader'⟩ := hw'.linked.exists_header hx'
  rw [KeepsBlock, Nat.add_sub_cancel, hheader, hheader']
  exact ⟨⟨_, hw'.tilesHeap, List.mem_map.mpr ⟨_, hx', rfl⟩⟩, rfl, rfl⟩

/-- A block in use that a free block follows grows when the shrinking path merges from it. -/
theorem Tracked.grows_behind (hs : Tracked buf s (pre ++ c :: post)) (hc : c.free = false)
    (hpos : 0 < n) (habsorbs : AbsorbsBehind c post n) :
    ∃ r h', valRealloc buf s.heap (buf.base + extent blockSize pre + blockSize) n = .ok (r, h') ∧
      ∃ q ∈ s.live, q ≠ buf.base + extent blockSize pre + blockSize ∧ ¬KeepsBlock buf s.heap h' q := by
  obtain ⟨hfit, hroom, d, e, rest, rfl, hd, he⟩ := habsorbs
  have hheader : blockSize = 32 := rfl
  have hresized := valRealloc_resized hs.1 hc hpos
  generalize hcall : valRealloc buf s.heap _ n = r at hresized
  cases hresized with
  | ends hpost => exact nomatch hpost
  | grown hsize => omega
  | full hsize => omega
  | moved hsize => omega
  | @shrunk c' d' rest' h' _ hcells hw' =>
    rw [splitCells, if_neg (by omega), List.singleton_append, List.cons.injEq, List.cons.injEq] at hcells
    obtain ⟨rfl, rfl, rfl⟩ := hcells
    have hend : buf.base + extent blockSize (pre ++ [c]) =
        buf.base + extent blockSize pre + blockSize + c.size := by
      simp only [extent_append, extent]
      omega
    have hx : (buf.base + extent blockSize (pre ++ [c]), d) ∈
        place blockSize buf.base (pre ++ c :: d :: e :: rest) := by
      have hmiddle := mem_place_middle blockSize buf.base (pre ++ [c]) d (e :: rest)
      simpa using hmiddle
    have hstop : (pre ++ [c]).rdropWhile (·.free) = pre ++ [c] :=
      List.rdropWhile_concat_neg _ _ _ (by simp [hc])
    have hx' : (buf.base + extent blockSize (pre ++ [c]), absorb blockSize (pre ++ [c]) d (e :: rest)) ∈
        place blockSize buf.base (coalesceAt blockSize (pre ++ [c]) d (e :: rest)) := by
      rw [coalesceAt, hstop]
      exact mem_place_middle _ _ _ _ _
    have hgrown : d.size < (absorb blockSize (pre ++ [c]) d (e :: rest)).size := by
      simp only [absorb, List.takeWhile_cons_of_pos he, extent]
      omega
    refine ⟨_, h', rfl, buf.base + extent blockSize (pre ++ [c]) + blockSize, ?_, by omega, ?_⟩
    · exact hs.2.mem_iff.mpr (mem_used_iff.mpr ⟨_, d, hx, hd, rfl⟩)
    · rintro ⟨-, hsize, -⟩
      obtain ⟨q, hq⟩ := hs.1.linked.exists_header hx
      obtain ⟨q', hq'⟩ := hw'.linked.exists_header hx'
      rw [Nat.add_sub_cancel, hq, hq'] at hsize
      simp only [headerOf] at hsize
      omega

/-- Every other live block is kept unless the shrinking path merges from a block in use. -/
theorem Tracked.keeps_others {r q : ℕ} (hs : Tracked buf s (pre ++ c :: post)) (hc : c.free = false)
    (hkeep : ¬(n ≠ 0 ∧ AbsorbsBehind c post n))
    (hcall : valRealloc buf s.heap (buf.base + extent blockSize pre + blockSize) n = .ok (r, h'))
    (hq : q ∈ s.live) (hne : q ≠ buf.base + extent blockSize pre + blockSize) :
    KeepsBlock buf s.heap h' q := by
  obtain ⟨x, u, rfl, hx, hu⟩ := hs.exists_place hq
  have hother : x ≠ buf.base + extent blockSize pre := by omega
  have hbase := buf.notNull
  rcases Nat.eq_zero_or_pos n with rfl | hpos
  · obtain ⟨h₁, hrun, hw', -⟩ := valFree_wellFormed hs.1 hc
    rw [valRealloc, if_neg (by omega), if_pos rfl, hrun] at hcall
    obtain rfl : h₁ = h' := congrArg Prod.snd (Except.ok.inj hcall)
    have hothers := mem_place_of_ne hx hother
    exact keepsBlock_of_place hs.1 hw' hx (mem_place_coalesceAt hu hothers)
  · have hresized := valRealloc_resized hs.1 hc hpos
    rw [hcall] at hresized
    by_cases hr : r = 0
    · rw [hresized.eq_of_null hr]
      exact keepsBlock_of_place hs.1 hs.1 hx hx
    · obtain ⟨ds, hafter⟩ := hresized.afterResize hc hr
      obtain ⟨u', hx', -, -, hsame⟩ := (hafter.others x u hx hu hother).cell
      obtain rfl := hsame fun habsorbs => hkeep ⟨by omega, habsorbs⟩
      exact keepsBlock_of_place hs.1 hafter.wellFormed hx hx'

end

/-- After every run, resizing a live block keeps every other live block exactly when it does not
merge from a block in use that a free block follows. -/
theorem realloc_keeps_others_iff (buf : HeapBuffer) (m : ByteMemory) (ops : List HeapOp) (s : Client)
    (hrun : Run (Step (Callable buf) buf) (Client.start m) ops s) (p n : ℕ) (hp : p ∈ s.live) :
    (∀ r h', valRealloc buf s.heap p n = .ok (r, h') →
        ∀ q ∈ s.live, q ≠ p → KeepsBlock buf s.heap h' q) ↔
      ¬(n ≠ 0 ∧ MergesBehindUsed s.heap.mem (p - blockSize) (align n)) := by
  obtain ⟨cs, hs⟩ := (run_sound hrun).tracked_of_mem hp
  obtain ⟨pre, c, post, rfl, hc, rfl⟩ := hs.exists_split hp
  rw [Nat.add_sub_cancel, hs.1.mergesBehindUsed_iff]
  constructor
  · rintro hkeep ⟨hn, habsorbs⟩
    obtain ⟨r, h', hcall, q, hq, hne, hgrown⟩ :=
      hs.grows_behind hc (Nat.pos_of_ne_zero hn) habsorbs
    exact hgrown (hkeep r h' hcall q hq hne)
  · intro hkeep r h' hcall q hq hne
    exact hs.keeps_others hc hkeep hcall hq hne

/-- Two blocks of eight bytes of a fresh heap: the first one is too small for sixteen bytes, and when it is
resized to its own size, the second one is as large as all of the heap behind it. -/
theorem two_blocks_of_eight :
    ∃ s₁ s t, exec firstPage (Client.start fun _ => 0) (.malloc 8) = .ok s₁ ∧
      exec firstPage s₁ (.malloc 8) = .ok s ∧ exec firstPage s (.realloc 4128 8) = .ok t ∧
      s.live = [4168, 4128] ∧ ¬align 16 ≤ (loadBlock s.heap.mem 4096).size ∧
      payloadSize s.heap.mem 4168 = 8 ∧ payloadSize t.heap.mem 4168 = 524216 := by
  have heval : ((exec firstPage (Client.start fun _ => 0) (.malloc 8)).bind fun s₁ =>
      (exec firstPage s₁ (.malloc 8)).bind fun s => (exec firstPage s (.realloc 4128 8)).map fun t =>
        (s.live, decide (align 16 ≤ (loadBlock s.heap.mem 4096).size), payloadSize s.heap.mem 4168,
          payloadSize t.heap.mem 4168)) =
      .ok ([4168, 4128], false, 8, 524216) := by
    decide +kernel
  obtain ⟨s₁, hfirst, heval⟩ := exists_ok_of_bind heval
  obtain ⟨s, hsecond, heval⟩ := exists_ok_of_bind heval
  obtain ⟨t, hthird, hresult⟩ := exists_ok_of_map heval
  simp only [Prod.mk.injEq, decide_eq_false_iff_not] at hresult
  exact ⟨s₁, s, t, hfirst, hsecond, hthird, hresult⟩

/-- Two blocks of eight bytes and the first resized to sixteen: it moves, and the second block
stays. -/
theorem realloc_keeps_second_block :
    ∃ s, Run (Step (Callable firstPage) firstPage) (Client.start fun _ => 0)
        [.malloc 8, .malloc 8] s ∧ s.live = [4168, 4128] ∧
      ∀ r h', valRealloc firstPage s.heap 4128 16 = .ok (r, h') →
        ∀ q ∈ s.live, q ≠ 4128 → KeepsBlock firstPage s.heap h' q := by
  obtain ⟨s₁, s, -, hfirst, hsecond, -, hlive, hsmall, -⟩ := two_blocks_of_eight
  have hrun : Run (Step (Callable firstPage) firstPage) (Client.start fun _ => 0)
      (([] ++ [.malloc 8]) ++ [.malloc 8]) s :=
    .snoc (.snoc .nil ⟨by simp [Callable], hfirst⟩) ⟨by simp [Callable], hsecond⟩
  refine ⟨s, hrun, hlive, ?_⟩
  refine (realloc_keeps_others_iff firstPage _ _ s hrun 4128 16 (by simp [hlive])).mpr ?_
  rintro ⟨-, hfit, -⟩
  exact hsmall hfit

/-- Two blocks of eight bytes and the first resized to its own size: the second block takes in all
of the free heap behind it. -/
theorem realloc_grows_second_block :
    ∃ s t, Run (Step Allowed firstPage) (Client.start fun _ => 0) [.malloc 8, .malloc 8] s ∧
      s.live = [4168, 4128] ∧ Step Allowed firstPage s (.realloc 4128 8) t ∧
      payloadSize s.heap.mem 4168 = 8 ∧ payloadSize t.heap.mem 4168 = 524216 := by
  obtain ⟨s₁, s, t, hfirst, hsecond, hthird, hlive, -, hbefore, hafter⟩ := two_blocks_of_eight
  have hrun : Run (Step Allowed firstPage) (Client.start fun _ => 0)
      (([] ++ [.malloc 8]) ++ [.malloc 8]) s :=
    .snoc (.snoc .nil ⟨by simp [Allowed], hfirst⟩) ⟨by simp [Allowed], hsecond⟩
  exact ⟨s, t, hrun, hlive, ⟨by simp [Allowed, hlive], hthird⟩, hbefore, hafter⟩

/-! ## Allocating and releasing -/

/-- Releasing a cell that was just taken restores the free cell it was taken from. -/
theorem coalesceAt_taken {pre post rest : List Cell} {c : Cell} {n k : ℕ}
    (h : Coalesced (pre ++ c :: post)) (hfree : c.free = true)
    (hcut : splitCells { c with free := false } n = ⟨k, false⟩ :: rest)
    (hrest : ∀ d ∈ rest, d.free = true) :
    coalesceAt blockSize pre ⟨k, true⟩ (rest ++ post) = pre ++ c :: post := by
  have hextent : extent blockSize (splitCells { c with free := false } n) = blockSize + c.size :=
    extent_splitCells _ _
  rw [hcut, extent] at hextent
  simp only at hextent
  have hpost : post.dropWhile (·.free) = post := by
    have hjoin := post.takeWhile_append_dropWhile (p := (·.free))
    rwa [h.takeWhile_eq_nil hfree, List.nil_append] at hjoin
  have hcell : (⟨extent blockSize [] + k + extent blockSize rest, true⟩ : Cell) = c := by
    have hsize : extent blockSize [] + k + extent blockSize rest = c.size := by
      simp only [extent]
      omega
    rw [hsize, ← hfree]
  rw [coalesceAt, absorb, h.rdropWhile_eq hfree, h.rtakeWhile_eq_nil hfree,
    List.takeWhile_append_of_pos hrest, List.dropWhile_append_of_pos hrest, h.takeWhile_eq_nil hfree,
    hpost, List.append_nil]
  simp only [Bool.true_or, hcell]

/-- After every run on an initialised heap, releasing a block right after it was allocated succeeds
and restores the block list: the same blocks in the same order, with the same headers. -/
theorem malloc_free_restores (buf : HeapBuffer) (m : ByteMemory) (ops : List HeapOp) (s : Client)
    (hrun : Run (Step (Callable buf) buf) (Client.start m) ops s) (hinit : s.heap.initialized = true)
    (n p : ℕ) (h' : HeapState) (hcall : valMalloc buf s.heap n = .ok (p, h')) (hp : p ≠ 0) :
    ∃ h'', valFree h' p = .ok (.success, h'') ∧ h''.freeList = s.heap.freeList ∧
      ∃ xs, Reaches s.heap.mem s.heap.freeList xs ∧ Reaches h''.mem h''.freeList xs ∧
        ∀ x ∈ xs, loadBlock h''.mem x = loadBlock s.heap.mem x := by
  rcases run_sound hrun with hs | ⟨cs, hs⟩
  · rw [hs.1] at hinit
    contradiction
  have hpos : 0 < n := by
    by_contra hzero
    obtain rfl : n = 0 := by omega
    exact hp (congrArg Prod.fst (Except.ok.inj hcall)).symm
  rcases valMalloc_wellFormed hs.1 hpos with
    ⟨hnone, -⟩ | ⟨pre, c, post, h₁, rfl, hfree, hfit, -, hsome, hw₁, -⟩
  · rw [hnone] at hcall
    exact absurd (congrArg Prod.fst (Except.ok.inj hcall)).symm hp
  · rw [hsome] at hcall
    obtain ⟨rfl, rfl⟩ := Prod.mk.inj (Except.ok.inj hcall)
    obtain ⟨k, rest, -, -, hrest, hk⟩ := splitCells_eq_cons hfit
    rw [hk false, List.append_assoc, List.cons_append] at hw₁
    obtain ⟨h₂, hrelease, hw₂, -⟩ := valFree_wellFormed hw₁ rfl
    rw [coalesceAt_taken hs.1.coalesced hfree (hk false) hrest] at hw₂
    refine ⟨h₂, hrelease, by rw [hw₂.head, hs.1.head], addresses buf.base (pre ++ c :: post),
      hs.1.tilesHeap.reached, hw₂.tilesHeap.reached, fun x hx => ?_⟩
    -- equal cells have equal headers
    obtain ⟨⟨x, u⟩, hplaced, rfl⟩ := List.mem_map.mp hx
    obtain ⟨xs, ys, hsplit, rfl⟩ := exists_split_of_mem_place hplaced
    have hbefore := hs.1.linked
    have hafter := hw₂.linked
    rw [hsplit] at hbefore hafter
    rw [hbefore.header, hafter.header]

/-- Allocating ten bytes twice and releasing the second block restores the list. -/
theorem malloc_free_restores_second :
    ∃ s, Run (Step (Callable firstPage) firstPage) (Client.start fun _ => 0) [.malloc 10] s ∧
      ∃ p h' h'', valMalloc firstPage s.heap 10 = .ok (p, h') ∧ valFree h' p = .ok (.success, h'') ∧
        h''.freeList = s.heap.freeList := by
  obtain ⟨s, -, hrun, -, hinit, -, -, h', hcall⟩ := first_ten_bytes
  obtain ⟨h'', hrelease, hlist, -⟩ := malloc_free_restores firstPage _ _ s hrun hinit 10 4176 h' hcall
    (by norm_num)
  exact ⟨s, hrun, 4176, h', h'', hcall, hrelease, hlist⟩

/-- Before the first call the list is empty; allocating and releasing leaves the fresh heap. -/
theorem malloc_free_not_restored_first :
    Reaches (fun _ => 0) (Client.start fun _ => 0).heap.freeList [] ∧
      ∃ p h' h'', valMalloc firstPage (Client.start fun _ => 0).heap 10 = .ok (p, h') ∧ p ≠ 0 ∧
        valFree h' p = .ok (.success, h'') ∧ ¬Reaches h''.mem h''.freeList [] := by
  have heval : (valMalloc firstPage (Client.start fun _ => 0).heap 10).bind
      (fun r => (valFree r.2 r.1).map fun t => (r.1, t.1, t.2.freeList)) =
        .ok (4128, .success, 4096) := by
    decide +kernel
  obtain ⟨⟨p, h'⟩, hcall, heval⟩ := exists_ok_of_bind heval
  obtain ⟨⟨status, h''⟩, hrelease, hresult⟩ := exists_ok_of_map heval
  simp only [Prod.mk.injEq] at hresult
  obtain ⟨rfl, rfl, hlist⟩ := hresult
  refine ⟨rfl, _, h', h'', hcall, by norm_num, hrelease, ?_⟩
  rw [Reaches, hlist]
  norm_num

end FfaAcs.Heap
