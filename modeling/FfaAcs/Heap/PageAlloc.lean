import FfaAcs.Heap.Layout

/-!
# Page buffers

Clients of the shared-memory tests allocate whole pages at page alignment and free them again.
On such runs the leading gap of `val_aligned_alloc` is always a whole block and no tail is ever
dropped. This rests on an invariant of the page offsets: free blocks start on a page, blocks in
use start 32 bytes before a page and hold whole pages, and the two kinds alternate.
-/

namespace FfaAcs.Heap

open Machine Tiling Platform

/-- The cells alternate between free cells that start on a page and whole pages in use. -/
inductive Paged : List Cell → Prop
  | nil : Paged []
  | last {n : ℕ} : n % 4096 = 4064 → Paged [⟨n, true⟩]
  | pair {n k : ℕ} {rest : List Cell} :
    n % 4096 = 4032 → k % 4096 = 0 → Paged rest → Paged (⟨n, true⟩ :: ⟨k, false⟩ :: rest)

section

variable {pre post : List Cell} {c : Cell}

/-- A free cell of a paged list starts on a page, and the cells before it can stay. -/
theorem Paged.split_free (h : Paged (pre ++ c :: post)) (hfree : c.free = true) :
    extent blockSize pre % 4096 = 0 ∧ Paged (c :: post) ∧
      ∀ rest, Paged rest → Paged (pre ++ rest) := by
  generalize hcs : pre ++ c :: post = cs at h
  induction h generalizing pre with
  | nil => simp at hcs
  | @last n hn =>
    rw [List.append_eq_singleton_iff] at hcs
    simp only [reduceCtorEq, and_false, or_false] at hcs
    obtain ⟨rfl, hc⟩ := hcs
    exact ⟨rfl, hc ▸ .last hn, fun rest hrest => hrest⟩
  | @pair n k rest hn hk hrest ih =>
    match pre with
    | [] =>
      rw [List.nil_append] at hcs
      exact ⟨rfl, hcs ▸ .pair hn hk hrest, fun rest hrest => hrest⟩
    | [f] =>
      simp only [List.cons_append, List.nil_append, List.cons.injEq] at hcs
      obtain ⟨-, rfl, -⟩ := hcs
      contradiction
    | f :: u :: pre =>
      simp only [List.cons_append, List.cons.injEq] at hcs
      obtain ⟨rfl, rfl, hrest'⟩ := hcs
      obtain ⟨hextent, hpost, hpre⟩ := ih hrest'
      refine ⟨?_, hpost, fun rest hr => .pair hn hk (hpre rest hr)⟩
      simp only [extent, blockSize] at *
      omega

/-- A cell in use of a paged list holds whole pages and follows a free cell. -/
theorem Paged.split_used (h : Paged (pre ++ c :: post)) (hused : c.free = false) :
    c.size % 4096 = 0 ∧ Paged post ∧ ∃ pre' n, pre = pre' ++ [⟨n, true⟩] ∧ n % 4096 = 4032 ∧
      extent blockSize pre' % 4096 = 0 ∧ ∀ rest, Paged rest → Paged (pre' ++ rest) := by
  generalize hcs : pre ++ c :: post = cs at h
  induction h generalizing pre with
  | nil => simp at hcs
  | @last n hn =>
    rw [List.append_eq_singleton_iff] at hcs
    simp only [reduceCtorEq, and_false, or_false, List.cons.injEq] at hcs
    obtain ⟨-, rfl, -⟩ := hcs
    contradiction
  | @pair n k rest hn hk hrest ih =>
    match pre with
    | [] =>
      simp only [List.nil_append, List.cons.injEq] at hcs
      obtain ⟨rfl, -⟩ := hcs
      contradiction
    | [f] =>
      simp only [List.cons_append, List.nil_append, List.cons.injEq] at hcs
      obtain ⟨rfl, rfl, rfl⟩ := hcs
      exact ⟨hk, hrest, [], n, rfl, hn, rfl, fun rest hr => hr⟩
    | f :: u :: pre =>
      simp only [List.cons_append, List.cons.injEq] at hcs
      obtain ⟨rfl, rfl, hrest'⟩ := hcs
      obtain ⟨hsize, hpost, pre', n', rfl, hn', hextent, hpre⟩ := ih hrest'
      refine ⟨hsize, hpost, ⟨n, true⟩ :: ⟨k, false⟩ :: pre', n', rfl, hn', ?_,
        fun rest hr => .pair hn hk (hpre rest hr)⟩
      simp only [extent, blockSize] at *
      omega

/-! ## Whole pages from a block that starts on a page -/

/-- The payload for a block on a page is one page further on. -/
theorem alignedPayload_page {x : ℕ} (hx : x % 4096 = 0) (hfits : x + 4127 < 2 ^ 64) :
    alignedPayload 4096 x = x + 4096 := by
  have hheader : blockSize = 32 := rfl
  have hinner : wrap64 (x + blockSize) = x + 32 := wrap64_of_lt (by omega)
  have houter : wrap64 (x + 32 + (4096 - 1)) = x + 4127 := wrap64_of_lt (by omega)
  rw [alignedPayload, alignTo, hinner, houter]
  have hmask : (x + 4127) &&& not64 (4096 - 1) = (x + 4127) / 2 ^ 12 * 2 ^ 12 :=
    land_not64 (k := 12) (by norm_num) hfits
  rw [hmask]
  omega

/-- On a block that starts on a page the aligned search asks for a page and the buffer. -/
theorem holdsAligned_page {x n : ℕ} (hx : x % 4096 = 0) (hfits : x + 4127 < 2 ^ 64)
    (hn : n ≤ 2 ^ 32) (hc : c.size + blockSize < 2 ^ 64) :
    HoldsAligned 4096 n x c ↔ 4096 + n ≤ c.size + blockSize := by
  -- the end of the buffer may wrap, but the distance from the block does not
  have hneeded : sub64 (wrap64 (x + 4096 + n)) x = 4096 + n := by
    unfold sub64 wrap64
    omega
  rw [HoldsAligned, alignedPayload_page hx hfits, hneeded, wrap64_of_lt hc]

/-- The sizes of a paged list are aligned. -/
theorem Paged.aligned {cs : List Cell} (h : Paged cs) : ∀ d ∈ cs, d.size % alignment = 0 := by
  have halign : alignment = 8 := rfl
  induction h with
  | nil => simp
  | last hn =>
    simp only [List.mem_singleton, forall_eq, halign]
    omega
  | pair hn hk _ ih =>
    simp only [List.mem_cons, forall_eq_or_imp, halign] at ih ⊢
    exact ⟨by omega, by omega, ih⟩

/-- No two neighbours of a paged list are both free. -/
theorem Paged.coalesced {cs : List Cell} (h : Paged cs) : Coalesced cs := by
  induction h with
  | nil => exact List.isChain_nil
  | last _ => exact List.isChain_singleton _
  | pair _ _ _ ih =>
    refine List.isChain_cons_cons.mpr ⟨by simp, List.isChain_cons.mpr ⟨by simp, ih⟩⟩

/-- The sizes of free cells leave either no tail or room for another block. -/
theorem Paged.tail {k n : ℕ} (h : Paged (⟨k, true⟩ :: post)) (hn : n % 4096 = 0)
    (hfit : n + 4064 ≤ k) :
    (post = [] ∧ k % 4096 = 4064 ∧ (k - 4064 = n ∨ n + 4096 ≤ k - 4064)) ∨
      (k % 4096 = 4032 ∧ n + 4064 ≤ k - 4064 ∧ ∃ u rest, post = ⟨u, false⟩ :: rest) := by
  cases h with
  | last hk => exact Or.inl ⟨rfl, hk, by omega⟩
  | pair hk hu hrest => exact Or.inr ⟨hk, by omega, _, _, rfl⟩

/-- The first part of the second cut has the requested size. -/
theorem Paged.splitCells_eq {k n : ℕ} {flag : Bool} (h : Paged (pre ++ ⟨k, true⟩ :: post))
    (hn : n % 4096 = 0) (hfit : n + 4064 ≤ k) :
    ∃ rest, splitCells ⟨k - 4064, flag⟩ n = ⟨n, flag⟩ :: rest := by
  have hheader : blockSize = 32 := rfl
  have halign : alignment = 8 := rfl
  obtain ⟨-, hpaged, -⟩ := h.split_free rfl
  unfold splitCells
  split
  case isTrue => exact ⟨_, rfl⟩
  case isFalse hroom =>
    simp only [hheader, halign] at hroom
    obtain ⟨-, -, hexact | hlarge⟩ | ⟨-, hlarge, -⟩ := hpaged.tail hn hfit
    · exact ⟨[], by rw [hexact]⟩
    · omega
    · omega

/-- Taking whole pages out of a free cell keeps the list paged. -/
theorem Paged.takePages {k n : ℕ} (h : Paged (pre ++ ⟨k, true⟩ :: post)) (hn : n % 4096 = 0)
    (hfit : n + 4064 ≤ k) :
    Paged ((pre ++ [⟨4032, true⟩]) ++ splitCells ⟨k - 4064, false⟩ n ++ post) := by
  have hheader : blockSize = 32 := rfl
  have halign : alignment = 8 := rfl
  obtain ⟨-, hpaged, hpre⟩ := h.split_free rfl
  have htail : Paged (⟨4032, true⟩ :: (splitCells ⟨k - 4064, false⟩ n ++ post)) := by
    unfold splitCells
    split
    case isTrue hroom =>
      simp only [hheader, halign] at hroom ⊢
      refine .pair rfl hn ?_
      cases hpaged with
      | last hk => exact .last (by omega)
      | pair hk hu hrest => exact .pair (by omega) hu hrest
    case isFalse hroom =>
      simp only [hheader, halign] at hroom
      obtain ⟨rfl, -, hexact | hlarge⟩ | ⟨-, hlarge, -⟩ := hpaged.tail hn hfit
      · rw [hexact]
        exact .pair rfl hn .nil
      · omega
      · omega
  simpa using hpre _ htail

/-- The steps of `val_aligned_alloc` on the block it chose, when that block starts on a page. -/
theorem placeAligned_page {buf : HeapBuffer} {h : HeapState} {k n : ℕ}
    (hw : WellFormed buf h (pre ++ ⟨k, true⟩ :: post)) (hp : Paged (pre ++ ⟨k, true⟩ :: post))
    (hn : n % 4096 = 0) (hpos : 0 < n) (hfit : n + 4064 ≤ k) :
    ∃ h', placeAligned h (buf.base + extent blockSize pre) (buf.base + extent blockSize pre + 4096) n =
        .ok (buf.base + extent blockSize pre + 4096, h') ∧
      WellFormed buf h' ((pre ++ [⟨4032, true⟩]) ++ splitCells ⟨k - 4064, false⟩ n ++ post) := by
  have hheader : blockSize = 32 := rfl
  have halign : alignment = 8 := rfl
  have hpage := buf.pageAligned
  have hsize : (loadBlock h.mem (buf.base + extent blockSize pre)).size = k := by
    rw [hw.linked.header, headerOf]
  obtain ⟨hextent, hrest, -⟩ := hp.split_free rfl
  -- the gap of 4064 bytes is a block, and so is the tail unless it is empty
  have hplaced : Placed h.mem (buf.base + extent blockSize pre)
      (buf.base + extent blockSize pre + 4096) n := by
    rw [Placed, hsize]
    omega
  have htail : KeepsTail h.mem (buf.base + extent blockSize pre)
      (buf.base + extent blockSize pre + 4096) n := by
    rw [KeepsTail, hsize]
    rcases hrest.tail hn hfit with ⟨-, -, hexact | hlarge⟩ | ⟨-, hlarge, -⟩ <;> omega
  obtain ⟨pre₁, k₁, h', hpre₁, -, hptr, hend, hrun, hw'⟩ :=
    placeAligned_wellFormed hw rfl (by rw [halign]; omega) (by rw [halign]; omega) hplaced htail
  refine ⟨h', hrun, ?_⟩
  rcases hpre₁ with rfl | ⟨g, rfl⟩
  · omega
  · simp only [extent_append, extent] at hptr hend
    have hg : g = 4032 := by omega
    have hk₁ : k₁ = k - 4064 := by omega
    rw [hg, hk₁] at hw'
    exact hw'

/-- `val_aligned_alloc` of whole pages takes them out of the first free cell that holds them. -/
theorem valAlignedAlloc_page {buf : HeapBuffer} {h : HeapState} {cs : List Cell} {n : ℕ}
    (hw : WellFormed buf h cs) (hp : Paged cs) (hn : n % 4096 = 0) (hpos : 0 < n)
    (hle : n ≤ platformHeapBufSize) :
    valAlignedAlloc buf h 4096 n = .ok (0, h) ∨
      ∃ pre k post h', cs = pre ++ ⟨k, true⟩ :: post ∧ n + 4064 ≤ k ∧
        extent blockSize pre % 4096 = 0 ∧
        valAlignedAlloc buf h 4096 n = .ok (buf.base + extent blockSize pre + 4096, h') ∧
        WellFormed buf h' ((pre ++ [⟨4032, true⟩]) ++ splitCells ⟨k - 4064, false⟩ n ++ post) := by
  have hheader : blockSize = 32 := rfl
  have hcap : platformHeapBufSize = 512 * 1024 := rfl
  have hround : align n = n := align_of_mod (by omega) (by omega)
  have henter := valAlignedAlloc_eq buf h (by norm_num) (by decide) hn
  rw [hw.ensureInit_eq] at henter
  rcases hw.chosenAligned_cases 4096 n with
    ⟨hnone, -⟩ | ⟨pre, ⟨k, flag⟩, post, rfl, rfl, hholds, hsome, -⟩
  · left
    rw [henter, hnone, Except.bind]
  · right
    rw [hround] at hholds
    have hroom : k + blockSize ≤ platformHeapBufSize := hw.tiled.size_le
    have htotal := hw.tiled.total
    have hbound := hw.tiled.bound
    have hpage := buf.pageAligned
    obtain ⟨hextent, -, -⟩ := hp.split_free rfl
    simp only [extent_append, extent, HeapBuffer.limit] at htotal hbound
    have hx : (buf.base + extent blockSize pre) % 4096 = 0 := by omega
    have hfits : buf.base + extent blockSize pre + 4127 < 2 ^ 64 := by omega
    have hfit : n + 4064 ≤ k := by
      have hneeded := (holdsAligned_page hx hfits (by omega) (by simp only; omega)).mp hholds
      simp only at hneeded
      omega
    obtain ⟨h', hplace, hw'⟩ := placeAligned_page hw hp hn hpos hfit
    refine ⟨pre, k, post, h', rfl, hfit, hextent, ?_, hw'⟩
    rw [henter, hsome, Except.bind, hround, alignedPayload_page hx hfits]
    exact hplace

/-- Releasing pages merges them with the free cells on both sides, and the list stays paged. -/
theorem Paged.release (h : Paged (pre ++ c :: post)) (hused : c.free = false) :
    Paged (coalesceAt blockSize pre { c with free := true } post) := by
  have hheader : blockSize = 32 := rfl
  have hchain := h.coalesced
  obtain ⟨hc, hpost, pre', n, rfl, hn, -, hpre⟩ := h.split_used hused
  have hfree : (⟨n, true⟩ : Cell).free = true := rfl
  -- the cell before the free one is in use, so merging stops there
  have hleft : Coalesced (pre' ++ ⟨n, true⟩ :: c :: post) := by simpa using hchain
  have hstop := hleft.rdropWhile_eq rfl
  have hempty := hleft.rtakeWhile_eq_nil rfl
  rw [coalesceAt, absorb, List.rdropWhile_concat_pos _ _ _ hfree,
    List.rtakeWhile_concat_pos _ _ _ hfree, hstop, hempty]
  refine hpre _ ?_
  cases hpost with
  | nil =>
    refine .last ?_
    simp only [List.nil_append, List.takeWhile_nil, extent, hheader]
    omega
  | last hk =>
    refine .last ?_
    simp only [List.nil_append, List.takeWhile_cons_of_pos, List.takeWhile_nil, extent, hheader]
    omega
  | pair hk hu hrest =>
    refine .pair ?_ hu hrest
    simp only [List.nil_append, List.takeWhile_cons_of_pos, List.takeWhile_cons, extent, hheader,
      Bool.false_eq_true, if_false]
    omega

end

/-! ## Runs of page allocations -/

/-- Clients that only allocate whole pages at page alignment, free them and write in them. -/
def PageAllowed (s : Client) : HeapOp → Prop
  | .alignedAlloc alignment size => alignment = 4096 ∧ 0 < size ∧ size % 4096 = 0 ∧
      size ≤ platformHeapBufSize
  | .free ptr => ptr ∈ s.live
  | .write addr _ => ∃ p ∈ s.live, p ≤ addr ∧ addr < p + payloadSize s.heap.mem p
  | _ => False

/-- The heap is tracked by a paged list. -/
def PageTracked (buf : HeapBuffer) (s : Client) (cs : List Cell) : Prop := Tracked buf s cs ∧ Paged cs

section

variable {buf : HeapBuffer} {s : Client} {cs : List Cell}

/-- Allocating pages returns NULL or a new buffer on a page, the payload of a block of that size. -/
theorem PageTracked.alloc {n : ℕ} (h : PageTracked buf s cs) (hpos : 0 < n) (hn : n % 4096 = 0)
    (hle : n ≤ platformHeapBufSize) :
    ∃ q h' ds, valAlignedAlloc buf s.heap 4096 n = .ok (q, h') ∧
      PageTracked buf (Client.take s.live (q, h')) ds ∧
      (q ≠ 0 → q % 4096 = 0 ∧ ∃ x, q = x + blockSize ∧ (x, ⟨n, false⟩) ∈ place blockSize buf.base ds) := by
  have hheader : blockSize = 32 := rfl
  have hpage := buf.pageAligned
  rcases valAlignedAlloc_page h.1.1 h.2 hn hpos hle with
    hnone | ⟨pre, k, post, h', rfl, hfit, hextent, hsome, hw⟩
  · exact ⟨0, s.heap, cs, hnone, h, fun hnull => absurd rfl hnull⟩
  · have haddr : buf.base + extent blockSize pre + 4096 =
        buf.base + extent blockSize (pre ++ [⟨4032, true⟩]) + blockSize := by
      rw [extent_append, ← Nat.add_assoc]
      rfl
    have hgap : extent blockSize (pre ++ [⟨4032, true⟩]) + (k - 4064) = extent blockSize pre + k := by
      omega
    have htracked := h.1.take rfl (Or.inr ⟨4032, rfl⟩) hgap (by omega) hw
    rw [← haddr] at htracked
    refine ⟨_, h', _, hsome, ⟨htracked, h.2.takePages hn hfit⟩, fun _ => ⟨by omega, _, haddr, ?_⟩⟩
    obtain ⟨rest, hrest⟩ := h.2.splitCells_eq hn hfit
    rw [hrest, place_append, place_append, place]
    simp

/-- The heap is paged after every operation of a page client, and every operation returns. -/
theorem PageTracked.exec {op : HeapOp} (h : PageTracked buf s cs) (hop : PageAllowed s op) :
    ∃ t ds, exec buf s op = .ok t ∧ PageTracked buf t ds := by
  cases op with
  | malloc _ => exact hop.elim
  | calloc _ _ => exact hop.elim
  | realloc _ _ => exact hop.elim
  | alignedAlloc a n =>
    obtain ⟨rfl, hpos, hn, hle⟩ := hop
    obtain ⟨q, h', ds, hrun, ht, -⟩ := h.alloc hpos hn hle
    exact ⟨_, ds, by rw [Heap.exec, hrun]; rfl, ht⟩
  | free p =>
    obtain ⟨pre, c, post, rfl, hused, rfl⟩ := h.1.exists_split hop
    obtain ⟨h', hrun, hw, -⟩ := valFree_wellFormed h.1.1 hused
    refine ⟨_, _, by rw [Heap.exec, hrun]; rfl, ⟨hw, ?_⟩, h.2.release hused⟩
    have hlive := h.1.2
    rw [used_around_used hused] at hlive
    rw [used_release]
    exact erase_perm hlive
  | write a b =>
    obtain ⟨p, hp, hlow, hhigh⟩ := hop
    obtain ⟨t, hrun, ht⟩ := h.1.exec_write hp hlow hhigh
    exact ⟨t, cs, hrun, ht, h.2⟩

/-- The fresh heap is paged. -/
theorem Untouched.init_pageTracked (h : Untouched s) (buf : HeapBuffer) :
    PageTracked buf (s.init buf) [⟨platformHeapBufSize - blockSize, true⟩] :=
  ⟨h.init_tracked buf, .last rfl⟩

/-- Whole pages are a size that is accepted at page alignment. -/
theorem page_accepted {n : ℕ} (hn : n % 4096 = 0) :
    ¬(4096 < 8 ∨ 4096 &&& (4096 - 1) ≠ 0 ∨ n % 4096 ≠ 0) := by
  simp [hn]

/-- The first operation of a page client is an allocation, which initialises the heap. -/
theorem Untouched.exec_page {op : HeapOp} (buf : HeapBuffer) (h : Untouched s) (hop : PageAllowed s op) :
    PageAllowed (s.init buf) op ∧ exec buf s op = exec buf (s.init buf) op := by
  have hnone (p : ℕ) : p ∉ s.live := by simp [h.2.2]
  cases op with
  | malloc _ => exact hop.elim
  | calloc _ _ => exact hop.elim
  | realloc _ _ => exact hop.elim
  | free p => exact absurd hop (hnone p)
  | alignedAlloc a n =>
    refine ⟨hop, ?_⟩
    obtain ⟨rfl, -, hn, -⟩ := hop
    rw [exec, exec, valAlignedAlloc_of_uninit buf h.1 (page_accepted hn)]
    rfl
  | write a b =>
    obtain ⟨p, hp, -⟩ := hop
    exact absurd hp (hnone p)

/-- Live page buffers start on a page. -/
theorem PageTracked.page_of_mem {p : ℕ} (h : PageTracked buf s cs) (hp : p ∈ s.live) :
    p % 4096 = 0 := by
  have hheader : blockSize = 32 := rfl
  have hpage := buf.pageAligned
  obtain ⟨pre, c, post, rfl, hused, rfl⟩ := h.1.exists_split hp
  obtain ⟨-, -, pre', n, rfl, hn, hextent, -⟩ := h.2.split_used hused
  simp only [extent_append, extent]
  omega

/-- The heap of a page client is paged from its first operation on. -/
theorem pageTracked_of_run {s₀ : Client} {ops : List HeapOp}
    (hstart : Untouched s₀ ∨ ∃ cs, PageTracked buf s₀ cs)
    (hrun : Run (Step PageAllowed buf) s₀ ops s) :
    (ops = [] ∧ s = s₀ ∧ Untouched s) ∨ ∃ cs, PageTracked buf s cs := by
  induction hrun with
  | nil => exact hstart.imp_left fun h => ⟨rfl, rfl, h⟩
  | @snoc ops s t op _ hstep ih =>
    obtain ⟨hop, hexec⟩ := hstep
    right
    have hstepped {u : Client} {cs : List Cell} (hu : PageTracked buf u cs) (hop : PageAllowed u op)
        (hrun : exec buf u op = .ok t) : ∃ cs, PageTracked buf t cs := by
      obtain ⟨v, ds, hv, hds⟩ := hu.exec hop
      rw [hrun] at hv
      exact ⟨ds, Except.ok.inj hv ▸ hds⟩
    rcases ih with ⟨-, -, hs⟩ | ⟨cs, hs⟩
    · obtain ⟨hop', hinit⟩ := hs.exec_page buf hop
      exact hstepped (hs.init_pageTracked buf) hop' (hinit ▸ hexec)
    · exact hstepped hs hop hexec

end

/-- After every run of page allocations and releases on the fresh heap, uninitialised or just
initialised, the list tiles the heap and the live buffers are separate and page aligned. The next
allocation returns NULL or the page-aligned payload of a block of exactly the requested size, and
releasing a live buffer succeeds. -/
theorem page_buffers_of_run (buf : HeapBuffer) (m : ByteMemory) (s₀ : Client) (ops : List HeapOp)
    (s : Client) (hfresh : s₀ = Client.start m ∨ s₀ = (Client.start m).init buf)
    (hrun : Run (Step PageAllowed buf) s₀ ops s) :
    ((ops ≠ [] ∨ s₀.heap.initialized = true) →
        ∃ xs, TilesHeap buf s.heap xs ∧ LiveLayout buf s xs ∧ ∀ p ∈ s.live, p % 4096 = 0) ∧
      (∀ k, 1 ≤ k → 4096 * k ≤ platformHeapBufSize →
        ∃ q h', valAlignedAlloc buf s.heap 4096 (4096 * k) = .ok (q, h') ∧
          (q ≠ 0 → q % 4096 = 0 ∧ ∃ xs, TilesHeap buf h' xs ∧ ∃ x ∈ xs, q = x + blockSize ∧
            (loadBlock h'.mem x).free = 0 ∧ (loadBlock h'.mem x).size = 4096 * k)) ∧
      ∀ p ∈ s.live, ∃ h', valFree s.heap p = .ok (.success, h') := by
  have huntouched : Untouched (Client.start m) := ⟨rfl, rfl, rfl⟩
  have hstart : Untouched s₀ ∨ ∃ cs, PageTracked buf s₀ cs := by
    rcases hfresh with rfl | rfl
    · exact Or.inl huntouched
    · exact Or.inr ⟨_, huntouched.init_pageTracked buf⟩
  have hpaged := pageTracked_of_run hstart hrun
  refine ⟨fun hcalled => ?_, fun k hk hle => ?_, fun p hp => ?_⟩
  · rcases hpaged with ⟨rfl, rfl, hs⟩ | ⟨cs, hs⟩
    · -- an empty run ends where it started, and that is an initialised heap here
      have hinit := hcalled.resolve_left (fun hne => hne rfl)
      rw [hs.1] at hinit
      contradiction
    · exact ⟨_, hs.1.1.tilesHeap, hs.1.liveLayout, fun p hp => hs.page_of_mem hp⟩
  · have halloc : ∃ u cs, PageTracked buf u cs ∧ valAlignedAlloc buf s.heap 4096 (4096 * k) =
        valAlignedAlloc buf u.heap 4096 (4096 * k) := by
      rcases hpaged with ⟨-, -, hs⟩ | ⟨cs, hs⟩
      · exact ⟨_, _, hs.init_pageTracked buf, valAlignedAlloc_of_uninit buf hs.1
          (page_accepted (by omega))⟩
      · exact ⟨s, cs, hs, rfl⟩
    obtain ⟨u, cs, hu, heq⟩ := halloc
    obtain ⟨q, h', ds, hrun', ht, hq⟩ := hu.alloc (by omega) (by omega) hle
    refine ⟨q, h', heq.trans hrun', fun hne => ?_⟩
    obtain ⟨hpage, x, hx, hplaced⟩ := hq hne
    obtain ⟨r, hheader⟩ := ht.1.1.linked.exists_header hplaced
    refine ⟨hpage, _, ht.1.1.tilesHeap, x, List.mem_map.mpr ⟨_, hplaced, rfl⟩, hx, ?_, ?_⟩
    · exact congrArg Block.free hheader
    · exact congrArg Block.size hheader
  · rcases hpaged with ⟨-, -, hs⟩ | ⟨cs, hs⟩
    · rw [hs.2.2] at hp
      exact absurd hp List.not_mem_nil
    · obtain ⟨h, ds, hfree, -⟩ := hs.1.free hp
      exact ⟨h, hfree⟩

/-- Two pages allocated on the buffer at the first page, and released again. -/
theorem page_buffers_of_alloc_free :
    ∃ s, Run (Step PageAllowed firstPage) (Client.start fun _ => 0)
        [.alignedAlloc 4096 8192, .free 8192] s ∧ s.live = [] ∧
      ∃ xs, TilesHeap firstPage s.heap xs ∧ LiveLayout firstPage s xs ∧ ∀ p ∈ s.live, p % 4096 = 0 := by
  have heval : ((exec firstPage (Client.start fun _ => 0) (.alignedAlloc 4096 8192)).bind fun s =>
      (exec firstPage s (.free 8192)).map fun t => (s.live, t.live)) = .ok ([8192], []) := by
    decide +kernel
  obtain ⟨s, hfirst, hrest⟩ := exists_ok_of_bind heval
  obtain ⟨t, hsecond, hresult⟩ := exists_ok_of_map hrest
  obtain ⟨hmid, hlive⟩ := Prod.mk.inj hresult
  have hrun : Run (Step PageAllowed firstPage) (Client.start fun _ => 0)
      (([] ++ [.alignedAlloc 4096 8192]) ++ [.free 8192]) t :=
    .snoc (.snoc .nil ⟨⟨rfl, by decide, by decide, by decide⟩, hfirst⟩)
      ⟨by rw [PageAllowed, hmid]; exact List.mem_singleton_self _, hsecond⟩
  exact ⟨t, hrun, hlive,
    (page_buffers_of_run firstPage (fun _ => 0) _ _ _ (Or.inl rfl) hrun).1 (Or.inl (by simp))⟩

end FfaAcs.Heap
