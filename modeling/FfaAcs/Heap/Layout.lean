import FfaAcs.Heap.Client

/-!
# The layout of the heap after every call

The statements here are about the memory alone: the blocks that are reached from `free_list` by
following `next`, and the payloads of the live pointers. They are read off the cells of
`Tracked`, whose headers are the blocks in address order.
-/

namespace FfaAcs.Heap

open Machine Tiling Platform

/-- The blocks reached from `a` by following `next` until NULL are `xs`, in order. -/
def Reaches (m : ByteMemory) : ℕ → List ℕ → Prop
  | a, [] => a = 0
  | a, x :: xs => a = x ∧ x ≠ 0 ∧ Reaches m (loadBlock m x).next xs

/-- The blocks that are reached are determined by the memory. -/
theorem Reaches.unique {m : ByteMemory} {a : ℕ} {xs ys : List ℕ} (hx : Reaches m a xs)
    (hy : Reaches m a ys) : xs = ys := by
  induction xs generalizing a ys with
  | nil =>
    cases ys with
    | nil => rfl
    | cons y ys => exact absurd (hy.1.symm.trans hx) hy.2.1
  | cons x xs ih =>
    cases ys with
    | nil => exact absurd (hx.1.symm.trans hy) hx.2.1
    | cons y ys =>
      obtain rfl : x = y := hx.1.symm.trans hy.1
      rw [ih hx.2.2 hy.2.2]

/-- The blocks `xs` are the list from `free_list`, and they tile the heap buffer. -/
structure TilesHeap (buf : HeapBuffer) (h : HeapState) (xs : List ℕ) : Prop where
  reached : Reaches h.mem h.freeList xs
  first : xs.head? = some buf.base
  firstPrev : (loadBlock h.mem buf.base).prev = 0
  adjacent : xs.IsChain fun x y => y = x + blockSize + (loadBlock h.mem x).size ∧
    (loadBlock h.mem x).next = y ∧ (loadBlock h.mem y).prev = x
  last : ∀ x ∈ xs.getLast?, x + blockSize + (loadBlock h.mem x).size = buf.base + platformHeapBufSize
  aligned : ∀ x ∈ xs, (loadBlock h.mem x).size % 8 = 0
  magic : ∀ x ∈ xs, (loadBlock h.mem x).magic = blockValidMagic
  coalesced : xs.IsChain fun x y => ¬((loadBlock h.mem x).free ≠ 0 ∧ (loadBlock h.mem y).free ≠ 0)

/-- Where the payloads of the live pointers lie among the blocks `xs`. -/
structure LiveLayout (buf : HeapBuffer) (s : Client) (xs : List ℕ) : Prop where
  blocks : ∀ p ∈ s.live, ∃ x ∈ xs, p = x + blockSize ∧ (loadBlock s.heap.mem x).free = 0
  disjoint : s.live.Pairwise fun p q =>
    Apart p (payloadSize s.heap.mem p) q (payloadSize s.heap.mem q)
  inside : ∀ p ∈ s.live, buf.base ≤ p ∧
    p + payloadSize s.heap.mem p ≤ buf.base + platformHeapBufSize
  headers : ∀ p ∈ s.live, ∀ x ∈ xs, Apart p (payloadSize s.heap.mem p) x blockSize
  released : s.live = [] → xs = [buf.base] ∧ (loadBlock s.heap.mem buf.base).free ≠ 0 ∧
    (loadBlock s.heap.mem buf.base).size = platformHeapBufSize - blockSize

/-- The header addresses of the cells. -/
def addresses (a : ℕ) (cs : List Cell) : List ℕ := (place blockSize a cs).map Prod.fst

section

variable {m : ByteMemory} {e p a : ℕ} {cs : List Cell}

/-- The header of a placed cell. -/
theorem Linked.exists_header {x : ℕ} {c : Cell} (h : Linked m e p a cs)
    (hx : (x, c) ∈ place blockSize a cs) : ∃ q, loadBlock m x = headerOf e q x c := by
  obtain ⟨pre, post, rfl, rfl⟩ := exists_split_of_mem_place hx
  exact ⟨_, h.header⟩

/-- Following the links from the first block reaches every cell. -/
theorem Linked.reaches (h : Linked m e p a cs) (hend : a + extent blockSize cs = e) (hpos : 0 < a) :
    Reaches m (link e a) (addresses a cs) := by
  induction cs generalizing p a with
  | nil =>
    simp only [extent, Nat.add_zero] at hend
    exact if_pos hend
  | cons c cs ih =>
    have hheader : blockSize = 32 := rfl
    simp only [extent] at hend
    refine ⟨if_neg (by omega), hpos.ne', ?_⟩
    rw [h.1, headerOf]
    exact ih h.2 (by omega) (by omega)

/-- Neighbouring blocks are adjacent and linked both ways. -/
theorem Linked.adjacent (h : Linked m e p a cs) (hend : a + extent blockSize cs = e) :
    (addresses a cs).IsChain fun x y => y = x + blockSize + (loadBlock m x).size ∧
      (loadBlock m x).next = y ∧ (loadBlock m y).prev = x := by
  induction cs generalizing p a with
  | nil => exact List.isChain_nil
  | cons c cs ih =>
    simp only [extent] at hend
    have hrest := ih h.2 (by omega)
    cases cs with
    | nil => exact List.isChain_singleton _
    | cons d cs =>
      have hheader : blockSize = 32 := rfl
      simp only [extent] at hend
      refine List.isChain_cons_cons.mpr ⟨⟨?_, ?_, ?_⟩, hrest⟩
      · rw [h.1, headerOf]
      · rw [h.1, headerOf]
        exact if_neg (by omega)
      · rw [h.2.1, headerOf]

/-- Neighbouring blocks of a coalesced list are not both free. -/
theorem Linked.coalesced (h : Linked m e p a cs) (hcs : Coalesced cs) :
    (addresses a cs).IsChain fun x y =>
      ¬((loadBlock m x).free ≠ 0 ∧ (loadBlock m y).free ≠ 0) := by
  induction cs generalizing p a with
  | nil => exact List.isChain_nil
  | cons c cs ih =>
    have hrest := ih h.2 hcs.tail
    cases cs with
    | nil => exact List.isChain_singleton _
    | cons d cs =>
      refine List.isChain_cons_cons.mpr ⟨?_, hrest⟩
      rw [h.1, h.2.1]
      simpa [headerOf] using (List.isChain_cons_cons.mp hcs).1

/-- The last block ends where the cells end. -/
theorem Linked.last (h : Linked m e p a cs) :
    ∀ x ∈ (addresses a cs).getLast?, x + blockSize + (loadBlock m x).size =
      a + extent blockSize cs := by
  induction cs generalizing p a with
  | nil => simp [addresses, place]
  | cons c cs ih =>
    cases cs with
    | nil =>
      intro x hx
      simp only [addresses, place, List.map_cons, List.map_nil, List.getLast?_singleton,
        Option.mem_def, Option.some.injEq] at hx
      rw [← hx, h.1, headerOf]
      simp only [extent]
      omega
    | cons d cs =>
      intro x hx
      have hlast := ih h.2 x (by simpa [addresses, place] using hx)
      rw [hlast]
      simp only [extent]
      omega

/-- The cells of a tiling are not empty, and the first one is at the start. -/
theorem WellFormed.exists_cons {buf : HeapBuffer} {h : HeapState} (hw : WellFormed buf h cs) :
    ∃ c rest, cs = c :: rest := by
  cases cs with
  | nil =>
    have htotal := hw.tiled.total
    have hroom : 0 < platformHeapBufSize := by decide
    simp only [extent, HeapBuffer.limit] at htotal
    omega
  | cons c rest => exact ⟨c, rest, rfl⟩

/-- A well-formed heap is tiled by the blocks of its list. -/
theorem WellFormed.tilesHeap {buf : HeapBuffer} {h : HeapState} (hw : WellFormed buf h cs) :
    TilesHeap buf h (addresses buf.base cs) := by
  have hblock {x : ℕ} (hx : x ∈ addresses buf.base cs) :
      ∃ c ∈ cs, ∃ q, loadBlock h.mem x = headerOf buf.limit q x c := by
    obtain ⟨⟨y, c⟩, hy, rfl⟩ := List.mem_map.mp hx
    obtain ⟨pre, post, hcs, -⟩ := exists_split_of_mem_place hy
    exact ⟨c, by simp [hcs], hw.linked.exists_header hy⟩
  obtain ⟨c, rest, hcons⟩ := hw.exists_cons
  have hstart : h.freeList = link buf.limit buf.base := by
    have hroom : 0 < platformHeapBufSize := by decide
    rw [hw.head]
    exact (if_neg (by rw [HeapBuffer.limit]; omega)).symm
  refine ⟨?_, ?_, ?_, hw.linked.adjacent hw.tiled.total, ?_, ?_, ?_,
    hw.linked.coalesced hw.coalesced⟩
  · rw [hstart]
    exact hw.linked.reaches hw.tiled.total buf.notNull
  · rw [hcons]
    rfl
  · have hlinked := hw.linked
    rw [hcons] at hlinked
    rw [hlinked.1, headerOf]
  · intro x hx
    rw [hw.linked.last x hx]
    exact hw.tiled.total
  · intro x hx
    obtain ⟨c, hc, q, hheader⟩ := hblock hx
    rw [hheader]
    exact hw.aligned c hc
  · intro x hx
    obtain ⟨c, -, q, hheader⟩ := hblock hx
    rw [hheader, headerOf]

/-- The live pointers of a tracked heap. -/
theorem Tracked.liveLayout {buf : HeapBuffer} {s : Client} (h : Tracked buf s cs) :
    LiveLayout buf s (addresses buf.base cs) := by
  have hcell {p : ℕ} (hp : p ∈ s.live) : ∃ x c, (x, c) ∈ place blockSize buf.base cs ∧
      c.free = false ∧ p = x + blockSize ∧ payloadSize s.heap.mem p = c.size ∧
      (loadBlock s.heap.mem x).free = 0 := by
    obtain ⟨x, c, hx, hused, rfl⟩ := mem_used_iff.mp (h.2.mem_iff.mp hp)
    obtain ⟨q, hheader⟩ := h.1.linked.exists_header hx
    refine ⟨x, c, hx, hused, rfl, ?_, ?_⟩
    · rw [payloadSize, Nat.add_sub_cancel, hheader, headerOf]
    · rw [hheader, headerOf, hused, Bool.toNat_false]
  have hnodup : s.live.Nodup := h.2.nodup_iff.mpr (used_nodup (by decide) _ _)
  refine ⟨?_, ?_, ?_, ?_, ?_⟩
  · intro p hp
    obtain ⟨x, c, hx, -, hptr, -, hfree⟩ := hcell hp
    exact ⟨x, List.mem_map.mpr ⟨(x, c), hx, rfl⟩, hptr, hfree⟩
  · refine hnodup.pairwise_of_forall_ne fun p hp q hq hne => ?_
    obtain ⟨x, c, hx, -, rfl, hc, -⟩ := hcell hp
    obtain ⟨y, d, hy, -, rfl, hd, -⟩ := hcell hq
    have := place_apart hx hy (by omega)
    omega
  · intro p hp
    obtain ⟨x, c, hx, -, rfl, hc, -⟩ := hcell hp
    have hbounds := place_bounds hx
    have htotal : buf.base + extent blockSize cs = buf.base + platformHeapBufSize := h.1.tiled.total
    omega
  · intro p hp y hy
    obtain ⟨x, c, hx, -, rfl, hc, -⟩ := hcell hp
    obtain ⟨⟨y, d⟩, hplaced, rfl⟩ := List.mem_map.mp hy
    simp only
    by_cases hxy : x = y
    · omega
    · have := place_apart hx hplaced hxy
      omega
  · intro hlive
    have hused : used blockSize buf.base cs = [] := by
      have hperm := h.2
      rw [hlive] at hperm
      exact hperm.nil_eq.symm
    obtain ⟨c, rest, hcons⟩ := h.1.exists_cons
    obtain ⟨c, rfl, hfree⟩ :=
      eq_singleton_of_used_eq_nil (by rw [hcons]; simp) h.1.coalesced hused
    have htotal : buf.base + (blockSize + c.size + 0) = buf.base + platformHeapBufSize :=
      h.1.tiled.total
    rw [h.1.linked.1, headerOf, hfree]
    exact ⟨rfl, by simp, by simp only; omega⟩

end

/-- After every run of allocator calls on live pointers, once the heap has been initialised, the
blocks from `free_list` tile the heap, and the live payloads are separate from each other and from
the headers. Until then the list is empty and nothing is live. Every further allowed operation
returns or faults on a NULL link. -/
theorem heap_layout_of_run (buf : HeapBuffer) (m : ByteMemory) (ops : List HeapOp) (s : Client)
    (hrun : Run (Step Allowed buf) (Client.start m) ops s) :
    (s.heap.initialized = true → ∃ xs, TilesHeap buf s.heap xs ∧ LiveLayout buf s xs) ∧
      (s.heap.initialized = false → s.heap.freeList = 0 ∧ s.live = []) ∧
      ∀ op, Allowed s op → (∃ t, Step Allowed buf s op t) ∨ exec buf s op = .error .nullDeref := by
  have hsound := run_sound_of_allowed hrun
  refine ⟨fun hinit => ?_, fun hinit => ?_, fun op hop => ?_⟩
  · rcases hsound with huntouched | ⟨cs, htracked⟩
    · rw [huntouched.1] at hinit
      contradiction
    · exact ⟨addresses buf.base cs, htracked.1.tilesHeap, htracked.liveLayout⟩
  · rcases hsound with huntouched | ⟨cs, htracked⟩
    · exact huntouched.2
    · rw [htracked.1.initialized] at hinit
      contradiction
  · exact (exec_sound hsound (hop.callable hsound)).imp_left fun ⟨t, ht, _⟩ => ⟨t, hop, ht⟩

/-- A heap buffer at the first page. -/
def firstPage : HeapBuffer := ⟨4096, by decide, by decide, by decide⟩

/-- One allocation of ten bytes on the buffer at the first page. -/
theorem heap_layout_of_first_malloc :
    ∃ s, exec firstPage (Client.start fun _ => 0) (.malloc 10) = .ok s ∧ s.live = [4128] ∧
      ∃ xs, TilesHeap firstPage s.heap xs ∧ LiveLayout firstPage s xs := by
  have heval : (exec firstPage (Client.start fun _ => 0) (.malloc 10)).map
      (fun s => (s.live, s.heap.initialized)) = .ok ([4128], true) := by decide +kernel
  obtain ⟨s, hexec, hresult⟩ := exists_ok_of_map heval
  obtain ⟨hlive, hinit⟩ := Prod.mk.inj hresult
  have hrun : Run (Step Allowed firstPage) (Client.start fun _ => 0) ([] ++ [.malloc 10]) s :=
    .snoc .nil ⟨by decide, hexec⟩
  exact ⟨s, hexec, hlive, (heap_layout_of_run _ _ _ _ hrun).1 hinit⟩

/-- A first call that asks for nothing returns before the heap is initialised, and no block is
reached from `free_list` after it. -/
theorem heap_not_tiled_after_malloc_zero :
    ∃ s, Run (Step Allowed firstPage) (Client.start fun _ => 0) [.malloc 0] s ∧
      ¬∃ xs, TilesHeap firstPage s.heap xs := by
  have hrun : Run (Step Allowed firstPage) (Client.start fun _ => 0) ([] ++ [.malloc 0])
      (Client.start fun _ => 0) := .snoc .nil ⟨by decide, rfl⟩
  refine ⟨Client.start fun _ => 0, hrun, ?_⟩
  rintro ⟨xs, htiles⟩
  cases xs with
  | nil => exact nomatch htiles.first
  | cons x xs => exact htiles.reached.2.1 htiles.reached.1.symm

end FfaAcs.Heap
