import FfaAcs.Heap.Chain
import FfaAcs.Heap.Client

/-!
# The allocator on a heap with gaps

`Chained buf h ns` says that the heap holds the nodes `ns`, with or without gaps between them. Every
well-formed heap is chained, and unlike well-formedness this is kept by every allocation of a page,
whether or not it gives up bytes.

A page whose payload does not follow a header (`Placed` fails) starts 8, 16 or 24 bytes behind the
payload of the node that is marked for it. `val_free` then reads its magic number out of the middle
of that header, where an even number stands, and reports an error.
-/

namespace FfaAcs.Heap

open Machine Tiling Platform

/-- The heap holds the nodes. -/
structure Chained (buf : HeapBuffer) (h : HeapState) (ns : List Node) : Prop where
  ready : h.initialized = true
  head : h.freeList = nextLink 0 ns
  laid : Laid buf.limit buf.base ns
  chain : Chain h.mem 0 0 ns

/-! ## The walks -/

section Walks

variable {m : ByteMemory} {p lo hi : ℕ} {pre post ns : List Node} {n : Node}

/-- Forward merging absorbs free nodes behind the node. -/
theorem coalesceForward_chain (fuel : ℕ) (hfuel : post.length < fuel)
    (hl : Laid hi lo (pre ++ n :: post)) (h : Chain m 0 0 (pre ++ n :: post)) (hpos : 0 < lo)
    (hhi : hi < 2 ^ 64) :
    ∃ m' d rest, coalesceForward fuel m n.addr = .ok m' ∧ d.addr = n.addr ∧ d.free = n.free ∧
      Laid hi lo (pre ++ d :: rest) ∧ Chain m' 0 0 (pre ++ d :: rest) ∧ inUse rest = inUse post := by
  induction post generalizing m n fuel with
  | nil =>
    obtain ⟨fuel, rfl⟩ : ∃ k, fuel = k + 1 := ⟨fuel - 1, by omega⟩
    refine ⟨m, n, [], ?_, rfl, rfl, hl, h, rfl⟩
    rw [coalesceForward, h.header]
    rfl
  | cons d post ih =>
    obtain ⟨fuel, rfl⟩ : ∃ k, fuel = k + 1 := ⟨fuel - 1, by omega⟩
    have hd := (chain_append.mp h).2.2.1
    have hnext : (loadBlock m n.addr).next = d.addr := by rw [h.header, nextLink_cons]
    cases hfree : d.free with
    | false =>
      refine ⟨m, n, d :: post, ?_, rfl, rfl, hl, h, rfl⟩
      rw [coalesceForward, hnext, hd]
      simp [hfree]
    | true =>
      obtain ⟨hlpre, -, -, -, hbehind, -, -, hlpost⟩ := laid_append_cons.mp hl
      have hlow := hlpre.le
      obtain ⟨m', d', rest, hrun, haddr, hflag, hl', h', huse⟩ :=
        ih fuel (by simpa using hfuel) hl.merge (h.merge hl hpos hhi)
      refine ⟨m', d', rest, ?_, haddr, hflag, hl', h', by rw [huse, inUse_cons_free hfree]⟩
      rw [coalesceForward_merge fuel hnext (by omega) (by simp [hd, hfree]) (by omega)
        (by rw [hd]; exact nextLink_lt hlpost hhi), h.header, hd]
      exact hrun

/-- Backward merging absorbs a free node into free nodes before it. -/
theorem coalesceBackward_chain (fuel : ℕ) (hfuel : pre.length < fuel)
    (hl : Laid hi lo (pre ++ n :: post)) (h : Chain m 0 0 (pre ++ n :: post)) (hpos : 0 < lo)
    (hhi : hi < 2 ^ 64) (hfree : n.free = true) :
    ∃ m' front d, coalesceBackward fuel m n.addr = .ok (m', d.addr) ∧ d.free = true ∧
      Laid hi lo (front ++ d :: post) ∧ Chain m' 0 0 (front ++ d :: post) ∧
      inUse front = inUse pre ∧ nextLink d.addr front = nextLink n.addr pre := by
  -- induction from the end of the nodes before the node, where the loop looks first
  induction pre using List.reverseRecOn generalizing m n fuel with
  | nil =>
    obtain ⟨fuel, rfl⟩ : ∃ k, fuel = k + 1 := ⟨fuel - 1, by omega⟩
    refine ⟨m, [], n, ?_, hfree, hl, h, rfl, rfl⟩
    rw [coalesceBackward, h.header]
    rfl
  | append_singleton pre b ih =>
    obtain ⟨fuel, rfl⟩ : ∃ k, fuel = k + 1 := ⟨fuel - 1, by omega⟩
    have hprev : (loadBlock m n.addr).prev = b.addr := by
      rw [h.header, backLink_append_cons]
      rfl
    rw [List.append_assoc, List.singleton_append] at hl h
    cases hb : b.free with
    | false =>
      refine ⟨m, pre ++ [b], n, ?_, hfree, by simpa using hl, by simpa using h, rfl, rfl⟩
      rw [coalesceBackward, hprev, h.header]
      simp [hb]
    | true =>
      have hn := (chain_append.mp h).2.2.1
      obtain ⟨hlpre, -, -, -, hbehind, -, -, hlpost⟩ := laid_append_cons.mp hl
      have hlow := hlpre.le
      obtain ⟨e, z, hlink, hz⟩ := exists_link hlpost
      have hlen : pre.length < fuel := by
        simp only [List.length_append, List.length_singleton] at hfuel
        omega
      obtain ⟨m', front, d, hrun, hflag, hl', h', huse, hfirst⟩ :=
        ih fuel hlen hl.merge (h.merge hl hpos hhi) hb
      refine ⟨m', front, d, ?_, hflag, hl', h', ?_, ?_⟩
      · rw [coalesceBackward_merge fuel hprev (by omega) (by simp [h.header, hb]) (by omega)
          (by rw [hn, hlink]) (by omega), h.header, hn, ← hlink]
        exact hrun
      · rw [huse, inUse_append, inUse_cons_free hb]
        simp [inUse]
      · rw [hfirst, nextLink_append_cons]

/-- The search of `val_malloc` ends at a free node that is large enough, or at the end of the list. -/
theorem findFit_chain (fuel k : ℕ) (hfuel : ns.length < fuel) (hl : Laid hi lo ns)
    (h : Chain m 0 p ns) (hpos : 0 < lo) :
    findFit fuel m (nextLink 0 ns) k = .ok 0 ∨
      ∃ pre c post, ns = pre ++ c :: post ∧ c.free = true ∧ k ≤ c.size ∧
        findFit fuel m (nextLink 0 ns) k = .ok c.addr := by
  induction ns generalizing p lo fuel with
  | nil =>
    obtain ⟨fuel, rfl⟩ : ∃ k, fuel = k + 1 := ⟨fuel - 1, by omega⟩
    exact Or.inl rfl
  | cons c ns ih =>
    obtain ⟨fuel, rfl⟩ : ∃ k, fuel = k + 1 := ⟨fuel - 1, by omega⟩
    have hlow := hl.1
    have hstep : findFit (fuel + 1) m c.addr k =
        if c.free = true ∧ k ≤ c.size then .ok c.addr else findFit fuel m (nextLink 0 ns) k := by
      rw [findFit, if_neg (by omega), h.1]
      simp only [ne_eq, Bool.toNat_eq_zero, Bool.not_eq_false]
    rw [nextLink_cons, hstep]
    split
    case isTrue hfit => exact Or.inr ⟨[], c, ns, rfl, hfit.1, hfit.2, rfl⟩
    case isFalse =>
      rcases ih fuel (by simpa using hfuel) hl.2.2.2 h.2 (by omega) with
        hnone | ⟨pre, d, post, rfl, hfree, hsize, hsome⟩
      · exact Or.inl hnone
      · exact Or.inr ⟨c :: pre, d, post, rfl, hfree, hsize, hsome⟩

/-- The search of `val_aligned_alloc` ends at a free node that passes its test, or at the end of the
list. -/
theorem findAligned_chain (fuel a k : ℕ) (hfuel : ns.length < fuel) (hl : Laid hi lo ns)
    (h : Chain m 0 p ns) (hpos : 0 < lo) :
    findAligned fuel m (nextLink 0 ns) a k = .ok none ∨
      ∃ pre c post, ns = pre ++ c :: post ∧ c.free = true ∧ HoldsAligned a k c.addr ⟨c.size, true⟩ ∧
        findAligned fuel m (nextLink 0 ns) a k = .ok (some (c.addr, alignedPayload a c.addr)) := by
  induction ns generalizing p lo fuel with
  | nil =>
    obtain ⟨fuel, rfl⟩ : ∃ k, fuel = k + 1 := ⟨fuel - 1, by omega⟩
    exact Or.inl rfl
  | cons c ns ih =>
    obtain ⟨fuel, rfl⟩ : ∃ k, fuel = k + 1 := ⟨fuel - 1, by omega⟩
    have hlow := hl.1
    have hstep : findAligned (fuel + 1) m c.addr a k =
        if c.free = true ∧ HoldsAligned a k c.addr ⟨c.size, true⟩ then
          .ok (some (c.addr, alignedPayload a c.addr))
        else findAligned fuel m (nextLink 0 ns) a k := by
      rw [findAligned, if_neg (by omega), h.1]
      simp only [Bool.toNat_eq_zero]
      cases hfree : c.free with
      | false => simp
      | true =>
        simp only [Bool.true_eq_false, if_false, true_and]
        rfl
    rw [nextLink_cons, hstep]
    split
    case isTrue hfit => exact Or.inr ⟨[], c, ns, rfl, hfit.1, hfit.2, rfl⟩
    case isFalse =>
      rcases ih fuel (by simpa using hfuel) hl.2.2.2 h.2 (by omega) with
        hnone | ⟨pre, d, post, rfl, hfree, hholds, hsome⟩
      · exact Or.inl hnone
      · exact Or.inr ⟨c :: pre, d, post, rfl, hfree, hholds, hsome⟩

/-- `val_split` cuts a node in two or leaves it alone. It writes only in the node and in the header
behind it. -/
theorem Chain.cut {k : ℕ} (h : Chain m 0 0 (pre ++ n :: post)) (hl : Laid hi lo (pre ++ n :: post))
    (hpos : 0 < lo) (hhi : hi < 2 ^ 64) (hk : k ≤ n.size) (haligned : k % alignment = 0) :
    ∃ s rest, k ≤ s ∧ Laid hi lo (pre ++ ⟨n.addr, s, n.free⟩ :: rest) ∧
      Chain (valSplit m n.addr k) 0 0 (pre ++ ⟨n.addr, s, n.free⟩ :: rest) ∧
      inUse rest = inUse post ∧
      ∀ y, y < n.addr ∨ n.addr + blockSize + n.size ≤ y →
        (∀ d ∈ post, y < d.addr ∨ d.addr + blockSize ≤ y) → valSplit m n.addr k y = m y := by
  have hheader : blockSize = 32 := rfl
  have halign : alignment = 8 := rfl
  obtain ⟨hlpre, -, haddr, -, hlpost⟩ := laid_append_cons.mp hl
  have hlow := hlpre.le
  have hend := hlpost.le
  rw [halign] at haddr
  rcases Nat.lt_or_ge n.size (k + blockSize + alignment) with hshort | hlong
  · have hcut : valSplit m n.addr k = m := valSplit_of_short (by rw [h.header]; exact hshort) (by omega)
    rw [hcut]
    exact ⟨n.size, post, hk, hl, h, rfl, fun _ _ _ => rfl⟩
  · have hcut := valSplit_of_header h.header hlong (by omega) (nextLink_lt hlpost hhi)
    rw [hcut]
    refine ⟨k, _, le_rfl, hl.split (by omega) haligned, h.split hl hpos hhi (by omega),
      inUse_cons_free rfl, fun y hy hpost => ?_⟩
    exact splitMem_outside (by omega) (by omega) hpost

/-- The last steps of `val_aligned_alloc` mark a node of exactly the size asked for. -/
theorem Chain.takeTail {k : ℕ} (h : Chain m 0 0 (pre ++ n :: post)) (hl : Laid hi lo (pre ++ n :: post))
    (hpos : 0 < lo) (hhi : hi < 2 ^ 64) (hk : k ≤ n.size) (haligned : k % alignment = 0) :
    ∃ rest, Laid hi lo (pre ++ ⟨n.addr, k, false⟩ :: rest) ∧
      Chain (takeTail m n.addr n.size k) 0 0 (pre ++ ⟨n.addr, k, false⟩ :: rest) ∧
      inUse rest = inUse post := by
  have hheader : blockSize = 32 := rfl
  obtain ⟨-, -, -, -, hlpost⟩ := laid_append_cons.mp hl
  have hend := hlpost.le
  obtain ⟨s, rest, hle, hl', h', huse⟩ : ∃ s rest, k ≤ s ∧
      Laid hi lo (pre ++ ⟨n.addr, s, n.free⟩ :: rest) ∧
      Chain (if wrap64 (k + blockSize + alignment) < n.size then valSplit m n.addr k else m) 0 0
        (pre ++ ⟨n.addr, s, n.free⟩ :: rest) ∧ inUse rest = inUse post := by
    split
    · obtain ⟨s, rest, hle, hl', h', huse, -⟩ := h.cut hl hpos hhi hk haligned
      exact ⟨s, rest, hle, hl', h', huse⟩
    · exact ⟨n.size, post, hk, hl, h, rfl⟩
  refine ⟨rest, hl'.shrink ⟨n.addr, k, false⟩ rfl hle haligned, ?_, huse⟩
  refine h'.replace ⟨n.addr, k, false⟩ hl' rfl ?_ fun x hx => ?_
  · rw [Heap.takeTail, loadBlock_setFree_same, loadBlock_setSize_same, h'.header]
    simp only [Nat.zero_mod, Bool.toNat_false, Nat.mod_eq_of_lt (show k < 2 ^ 64 by omega)]
  · rw [Heap.takeTail, loadBlock_setFree_apart _ _ _ hx, loadBlock_setSize_apart _ _ _ hx]

end Walks

/-! ## The operations -/

section Operations

variable {buf : HeapBuffer} {h : HeapState} {pre post ns : List Node} {n : Node}

/-- A heap with a list of blocks is initialised already. -/
theorem Chained.ensureInit_eq (hc : Chained buf h ns) : ensureInit buf h = h := by
  rw [ensureInit, if_pos hc.ready]

/-- The walks have enough steps. -/
theorem Chained.length_lt (hc : Chained buf h ns) : ns.length < blockLimit := by
  have hroom := hc.laid.length_le
  simp only [HeapBuffer.limit, blockSize, platformHeapBufSize, blockLimit] at *
  omega

/-- The other nodes in use. -/
theorem Chained.mem_others {v : Node} (hc : Chained buf h (pre ++ n :: post)) :
    v ∈ inUse pre ++ inUse post ↔ v ∈ inUse (pre ++ n :: post) ∧ v ≠ n := by
  have hheader : blockSize = 32 := rfl
  simp only [List.mem_append, mem_inUse, List.mem_cons]
  constructor
  · intro hv
    have hapart := hc.laid.apart (d := v) (by tauto)
    refine ⟨by tauto, ?_⟩
    rintro rfl
    omega
  · tauto

/-- Replacing the nodes behind some first ones by an edit of the memory. -/
theorem Chained.edit {d : Node} {rest : List Node} {m : ByteMemory} (hc : Chained buf h (pre ++ n :: post))
    (haddr : d.addr = n.addr) (hl : Laid buf.limit buf.base (pre ++ d :: rest))
    (hm : Chain m 0 0 (pre ++ d :: rest)) : Chained buf { h with mem := m } (pre ++ d :: rest) := by
  refine ⟨hc.ready, ?_, hl, hm⟩
  have hhead := hc.head
  rw [nextLink_append_cons] at hhead ⊢
  rw [haddr]
  exact hhead

/-- Clients write the payloads of their nodes. -/
theorem Chained.write {m : ByteMemory} (hc : Chained buf h ns) (hn : n ∈ ns)
    (hsame : ∀ y, y < n.addr + blockSize ∨ n.addr + blockSize + n.size ≤ y → m y = h.mem y) :
    Chained buf { h with mem := m } ns := by
  refine ⟨hc.ready, hc.head, hc.laid, hc.chain.congr fun d hd => loadBlock_congr fun x hlow hhigh => ?_⟩
  refine hsame x ?_
  by_contra hinside
  have hpayload := hc.laid.payload_outside hn hd (y := x) (by omega) (by omega)
  omega

/-- `val_free` releases a node in use, and the other nodes in use stay. -/
theorem Chained.free (hc : Chained buf h (pre ++ n :: post)) (hused : n.free = false) :
    ∃ h' ns, valFree h (n.addr + blockSize) = .ok (.success, h') ∧ Chained buf h' ns ∧
      inUse ns = inUse pre ++ inUse post := by
  have hheader : blockSize = 32 := rfl
  have hbase := buf.notNull
  have hfits := buf.fits
  have hlimit : buf.limit < 2 ^ 64 := hfits
  have hbounds := hc.laid.bounds (n := n) (by simp)
  have hlength := hc.length_lt
  simp only [List.length_append, List.length_cons] at hlength
  have hblock : sub64 (n.addr + blockSize) blockSize = n.addr := by
    rw [sub64_of_le (by omega) (by omega), Nat.add_sub_cancel]
  have hmarked : Chain (setFree h.mem n.addr 1) 0 0 (pre ++ ⟨n.addr, n.size, true⟩ :: post) := by
    refine hc.chain.replace ⟨n.addr, n.size, true⟩ hc.laid rfl ?_ fun x hx =>
      loadBlock_setFree_apart _ _ _ hx
    rw [loadBlock_setFree_same, hc.chain.header]
    rfl
  have hlaid : Laid buf.limit buf.base (pre ++ ⟨n.addr, n.size, true⟩ :: post) :=
    hc.laid.shrink _ rfl le_rfl hbounds.2.2.2
  obtain ⟨m₁, d, rest, hforward, haddr, hflag, hl₁, h₁, huse₁⟩ :=
    coalesceForward_chain blockLimit (by omega) hlaid hmarked hbase hlimit
  obtain ⟨m₂, front, u, hbackward, hfree, hl₂, h₂, huse₂, hfirst⟩ :=
    coalesceBackward_chain blockLimit (by omega) hl₁ h₁ hbase hlimit hflag
  refine ⟨{ h with mem := m₂ }, front ++ u :: rest, ?_, ⟨hc.ready, ?_, hl₂, h₂⟩, ?_⟩
  · rw [haddr] at hbackward
    have hcoalesce : valCoalesce (setFree h.mem n.addr 1) n.addr = .ok (m₂, u.addr) := by
      rw [valCoalesce, if_neg (by omega)]
      simp only [hforward, bind, Except.bind, hbackward]
    rw [valFree, if_neg (by omega), hblock]
    simp only [hc.chain.header, hused, ne_eq, not_true_eq_false, if_false, Bool.toNat_false, bind,
      Except.bind, hcoalesce]
  · have hhead := hc.head
    rw [nextLink_append_cons] at hhead ⊢
    rw [hfirst, haddr, hhead]
  · rw [inUse_append, inUse_cons_free hfree, huse₁, huse₂]

/-- `val_malloc` marks a node that was free, or returns NULL. The payloads in use keep their bytes. -/
theorem Chained.malloc {k : ℕ} (hc : Chained buf h ns) (hpos : 0 < k) (hk : k ≤ 2 ^ 64 - 8) :
    valMalloc buf h k = .ok (0, h) ∨
      ∃ h' pre u post, valMalloc buf h k = .ok (u.addr + blockSize, h') ∧
        Chained buf h' (pre ++ u :: post) ∧ u.free = false ∧ k ≤ u.size ∧
        inUse ns = inUse pre ++ inUse post ∧
        ∀ v ∈ inUse ns, ∀ y, v.addr + blockSize ≤ y → y < v.addr + blockSize + v.size →
          h'.mem y = h.mem y := by
  have hheader : blockSize = 32 := rfl
  have hbase := buf.notNull
  have hlimit : buf.limit < 2 ^ 64 := buf.fits
  have hround : k ≤ align k := by
    rw [align_eq hk]
    omega
  rcases findFit_chain blockLimit (align k) hc.length_lt hc.laid hc.chain hbase with
    hnone | ⟨pre, c, post, rfl, hfree, hfit, hsome⟩
  · left
    rw [← hc.head] at hnone
    rw [valMalloc, if_neg hpos.ne', hc.ensureInit_eq]
    simp only [hnone, bind, Except.bind, if_true]
  · right
    obtain ⟨s, rest, hle, hl', h', huse, hframe⟩ :=
      hc.chain.cut hc.laid hbase hlimit hfit (align_mod k)
    have hbounds := hl'.bounds (n := ⟨c.addr, s, c.free⟩) (by simp)
    have hmarked : Chain (setFree (setMagic (valSplit h.mem c.addr (align k)) c.addr blockValidMagic)
        c.addr 0) 0 0 (pre ++ ⟨c.addr, s, false⟩ :: rest) := by
      refine h'.replace ⟨c.addr, s, false⟩ hl' rfl ?_ fun x hx => ?_
      · rw [loadBlock_setFree_same, loadBlock_setMagic_same, h'.header]
        rfl
      · rw [loadBlock_setFree_apart _ _ _ hx, loadBlock_setMagic_apart _ _ _ hx]
    refine ⟨_, pre, ⟨c.addr, s, false⟩, rest, ?_,
      hc.edit rfl (hl'.shrink _ rfl le_rfl hbounds.2.2.2) hmarked, rfl, hround.trans hle, ?_, ?_⟩
    · have hlow : buf.base ≤ c.addr := hbounds.1
      rw [← hc.head] at hsome
      rw [valMalloc, if_neg hpos.ne', hc.ensureInit_eq]
      simp only [hsome, bind, Except.bind]
      rw [if_neg (by omega)]
    · rw [inUse_append, inUse_cons_free hfree, huse]
    · intro v hv y hlow hhigh
      obtain ⟨hmem, hused⟩ := mem_inUse.mp hv
      have hne : v ≠ c := fun heq => by rw [heq, hfree] at hused; contradiction
      have hapart := hc.laid.apart (d := v) (by
        simp only [List.mem_append, List.mem_cons] at hmem
        tauto)
      simp only
      rw [setFree, ByteMemory.store_outside _ (by omega), setMagic,
        ByteMemory.store_outside _ (by omega)]
      exact hframe y (by omega) fun d hd =>
        hc.laid.payload_outside hmem (by simp [hd]) hlow hhigh

/-- The payload at `q` follows the header of the node, or starts a few bytes further on. -/
def Node.Carries (u : Node) (placed : Prop) (q : ℕ) : Prop :=
  placed ∧ q = u.addr + blockSize ∨
    ¬placed ∧ ∃ g, (g = 8 ∨ g = 16 ∨ g = 24) ∧ q = u.addr + blockSize + g

/-- A payload that is placed follows the header of its node. -/
theorem Node.Carries.eq {u : Node} {placed : Prop} {q : ℕ} (hq : u.Carries placed q)
    (hplaced : placed) : q = u.addr + blockSize := by
  rcases hq with ⟨-, hptr⟩ | ⟨hmisses, -⟩
  exacts [hptr, absurd hplaced hmisses]

/-- The body of the search loop of `val_aligned_alloc` marks a node of the size asked for. -/
theorem Chained.placeAligned {q k : ℕ} (hc : Chained buf h (pre ++ n :: post)) (hfree : n.free = true)
    (hq : q % alignment = 0) (hk : k % alignment = 0) (hpos : 0 < k) (hlow : n.addr + blockSize ≤ q)
    (hfit : q + k ≤ n.addr + blockSize + n.size) :
    ∃ h' front u rest, placeAligned h n.addr q k = .ok (q, h') ∧ Chained buf h' (front ++ u :: rest) ∧
      u.free = false ∧ u.size = k ∧ inUse front = inUse pre ∧ inUse rest = inUse post ∧
      u.Carries (Placed h.mem n.addr q k) q := by
  have hheader : blockSize = 32 := rfl
  have halign : alignment = 8 := rfl
  have hbase := buf.notNull
  have hlimit : buf.limit < 2 ^ 64 := buf.fits
  obtain ⟨hbelow, habove, haddr, hsize⟩ := hc.laid.bounds (n := n) (by simp)
  have hheaderSize : (loadBlock h.mem n.addr).size = n.size := by rw [hc.chain.header]
  have hsub : sub64 q blockSize = q - blockSize := sub64_of_le (by omega) (by omega)
  have hptr : wrap64 (q - blockSize + blockSize) = q := by
    rw [wrap64_of_lt (by omega)]
    omega
  have hroom : buf.limit = buf.base + 512 * 1024 := rfl
  have hleading : leadingSpace (sub64 q blockSize) n.addr = q - blockSize - n.addr := by
    rw [hsub]
    exact leadingSpace_eq (by omega) (by omega) (by omega)
  rw [halign] at hq haddr hsize
  simp only [Node.Carries, Placed, hheaderSize]
  rcases Nat.lt_or_ge q (n.addr + 2 * blockSize) with hnear | hfar
  · obtain ⟨rest, hl, hm, huse⟩ := hc.chain.takeTail hc.laid hbase hlimit (k := k) (by omega) hk
    refine ⟨_, pre, ⟨n.addr, k, false⟩, rest, ?_, hc.edit rfl hl hm, rfl, rfl, rfl, huse, ?_⟩
    · rw [placeAligned_inPlace (by omega) hheaderSize (by omega), hsub, hptr]
    · by_cases hplaced : q = n.addr + blockSize
      · exact Or.inl ⟨by omega, hplaced⟩
      · exact Or.inr ⟨by omega, q - blockSize - n.addr, by omega, by simp only; omega⟩
  · -- the gap becomes a free node of its own
    obtain ⟨g, rfl⟩ := Nat.exists_eq_add_of_le hfar
    have hnext := nextLink_lt (laid_append_cons.mp hc.laid).2.2.2.2 hlimit
    have hcut := valSplit_of_header hc.chain.header (n := g) (by omega) (by omega) hnext
    have hl₁ : Laid buf.limit buf.base (pre ++ ⟨n.addr, g, n.free⟩ ::
        ⟨n.addr + blockSize + g, n.size - g - blockSize, true⟩ :: post) :=
      hc.laid.split (by omega) (by rw [halign]; omega)
    have h₁ := hc.chain.split hc.laid hbase hlimit (k := g) (by omega)
    have hgap := h₁.header
    rw [← hcut] at h₁ hgap
    rw [List.append_cons] at h₁ hl₁
    obtain ⟨rest, hl, hm, huse⟩ := h₁.takeTail hl₁ hbase hlimit (k := k) (by simp only; omega) hk
    rw [← List.append_cons] at hl hm
    have hedit := hc.edit (d := ⟨n.addr, g, n.free⟩) rfl hl hm
    rw [List.append_cons] at hedit
    refine ⟨_, pre ++ [⟨n.addr, g, n.free⟩], ⟨n.addr + blockSize + g, k, false⟩, rest, ?_, hedit, rfl,
      rfl, ?_, huse, Or.inl ⟨by omega, by simp only; omega⟩⟩
    · rw [placeAligned_cut (g := g) (by omega) (by rw [hgap, nextLink_cons]) (by simp only; omega)
        (by rw [h₁.header]), hsub, hptr]
    · rw [inUse_append, inUse_cons_free (n := ⟨n.addr, g, n.free⟩) hfree]
      simp [inUse]

/-- The payload address that is computed for a page. -/
theorem alignedPayload_bounds {x : ℕ} (hfits : x + blockSize + 4095 < 2 ^ 64) :
    alignedPayload 4096 x % 4096 = 0 ∧ x + blockSize ≤ alignedPayload 4096 x ∧
      alignedPayload 4096 x < x + blockSize + 4096 := by
  have hround : alignedPayload 4096 x = wrap64 (wrap64 (x + blockSize) + 4095) / 4096 * 4096 :=
    alignedPayload_eq (k := 12) (by norm_num) x
  rw [hround, wrap64_of_lt (x := x + blockSize) (by omega), wrap64_of_lt hfits]
  omega

/-- The search finds a page, and the payload of the page follows the header that is marked. -/
def TakesPage (buf : HeapBuffer) (h : HeapState) : Prop :=
  ∃ choice ∈ chosenAligned buf h 4096 4096, Placed (ensureInit buf h).mem choice.1 choice.2 4096

instance (buf : HeapBuffer) (h : HeapState) : Decidable (TakesPage buf h) :=
  inferInstanceAs (Decidable (∃ choice ∈ chosenAligned buf h 4096 4096, _))

/-- No page is taken where the search finds none. -/
theorem not_takesPage (hnone : chosenAligned buf h 4096 4096 = none) : ¬TakesPage buf h := by
  rintro ⟨choice, hchoice, -⟩
  rw [hnone] at hchoice
  exact nomatch hchoice

/-- `val_aligned_alloc` of a page marks a node of one page that was free, or returns NULL. -/
theorem Chained.allocPage (hc : Chained buf (ensureInit buf h) ns) :
    (chosenAligned buf h 4096 4096 = none ∧
        valAlignedAlloc buf h 4096 4096 = .ok (0, ensureInit buf h)) ∨
      ∃ q h' pre u post, chosenAligned buf h 4096 4096 ≠ none ∧
        valAlignedAlloc buf h 4096 4096 = .ok (q, h') ∧ Chained buf h' (pre ++ u :: post) ∧
        u.free = false ∧ u.size = 4096 ∧ inUse ns = inUse pre ++ inUse post ∧
        u.Carries (TakesPage buf h) q := by
  have hheader : blockSize = 32 := rfl
  have hbase := buf.notNull
  have hlimit : buf.limit < 2 ^ 64 := buf.fits
  have hpage := buf.pageAligned
  have hroom : buf.limit = buf.base + 512 * 1024 := rfl
  have hsize : align 4096 = 4096 := by decide
  have henter := valAlignedAlloc_eq buf h (show 8 ≤ 4096 by decide) (by decide)
    (show 4096 % 4096 = 0 by decide)
  rw [hsize, hc.head] at henter
  rw [henter]
  rcases findAligned_chain blockLimit 4096 4096 hc.length_lt hc.laid hc.chain hbase with
    hnone | ⟨pre, c, post, rfl, hfree, hholds, hsome⟩
  · left
    simp only [chosenAligned, hsize, hc.head, hnone, Except.bind, and_self]
  · right
    have hchosen : chosenAligned buf h 4096 4096 = some (c.addr, alignedPayload 4096 c.addr) := by
      simp only [chosenAligned, hsize, hc.head, hsome]
    obtain ⟨hlow, hhigh, -, -⟩ := hc.laid.bounds (n := c) (by simp)
    -- the heap ends on a page, so only the end of the page behind it can wrap
    obtain ⟨hmod, hbelow, habove⟩ := alignedPayload_bounds (x := c.addr) (by omega)
    have hneeded : sub64 (wrap64 (alignedPayload 4096 c.addr + 4096)) c.addr =
        alignedPayload 4096 c.addr + 4096 - c.addr := by
      unfold sub64 wrap64
      omega
    rw [HoldsAligned, hneeded, wrap64_of_lt (by simp only; omega)] at hholds
    obtain ⟨h', front, u, rest, hplace, hc', hused, hu, hfront, hrest, hcarries⟩ :=
      hc.placeAligned (q := alignedPayload 4096 c.addr) (k := 4096) hfree
        (by rw [alignment]; omega) (by decide) (by decide) hbelow (by simp only at hholds; omega)
    have htakes : TakesPage buf h =
        Placed (ensureInit buf h).mem c.addr (alignedPayload 4096 c.addr) 4096 := by
      simp only [TakesPage, hchosen, Option.mem_some_iff, exists_eq_left']
    refine ⟨alignedPayload 4096 c.addr, h', front, u, rest, ?_, ?_, hc', hused, hu, ?_, ?_⟩
    · rw [hchosen]
      exact Option.some_ne_none _
    · simp only [hsome, Except.bind, hplace]
    · rw [inUse_append, inUse_cons_free hfree, hfront, hrest]
    · rw [htakes]
      exact hcarries

/-- The parity of a word is that of its first byte. -/
theorem load_mod_two (m : ByteMemory) (a k : ℕ) : m.load a (k + 1) % 2 = (m a).toNat % 2 := by
  rw [ByteMemory.load]
  omega

/-- `val_free` refuses a pointer that lies in the list a few bytes behind a payload: the magic number
that it reads is the start of an even field. -/
theorem valFree_misplaced {x g size next prev magic flag : ℕ}
    (hx : loadBlock h.mem x = ⟨magic, flag, size, next, prev⟩) (hfits : x + blockSize + g < 2 ^ 64)
    (hg : g = 8 ∧ size % 2 = 0 ∨ g = 16 ∧ next % 2 = 0 ∨ g = 24 ∧ prev % 2 = 0) :
    valFree h (x + blockSize + g) = .ok (.error, h) := by
  have hheader : blockSize = 32 := rfl
  have hblock : sub64 (x + blockSize + g) blockSize = x + g := by
    rw [sub64_of_le (by omega) hfits]
    omega
  have heven : (loadBlock h.mem (x + g)).magic % 2 = 0 := by
    simp only [loadBlock, Block.mk.injEq] at hx ⊢
    obtain ⟨-, -, rfl, rfl, rfl⟩ := hx
    simp only [load_mod_two] at hg ⊢
    rcases hg with ⟨rfl, heven⟩ | ⟨rfl, heven⟩ | ⟨rfl, heven⟩ <;> exact heven
  have hmagic : (loadBlock h.mem (x + g)).magic ≠ blockValidMagic := by
    intro heq
    rw [heq] at heven
    exact absurd heven (by decide)
  rw [valFree, if_neg (by omega), hblock]
  exact if_pos hmagic

/-- The links of a node in a heap are even. -/
theorem Chained.links_even (hc : Chained buf h (pre ++ n :: post)) :
    nextLink 0 post % 2 = 0 ∧ backLink 0 pre % 2 = 0 := by
  have halign : alignment = 8 := rfl
  have hall : ∀ d ∈ pre ++ n :: post, d.addr % 8 = 0 := fun d hd => (hc.laid.bounds hd).2.2.1
  constructor
  · cases post with
    | nil => rfl
    | cons d post =>
      have hd := hall d (by simp)
      rw [nextLink_cons]
      omega
  · cases pre using List.reverseRecOn with
    | nil => rfl
    | append_singleton pre d =>
      have hd := hall d (by simp)
      rw [backLink_append_cons, backLink]
      omega

/-- A page that does not follow its header cannot be released. -/
theorem Chained.free_misplaced {g : ℕ} {m : ByteMemory} (hc : Chained buf h (pre ++ n :: post))
    (hg : g = 8 ∨ g = 16 ∨ g = 24) (hm : loadBlock m n.addr = loadBlock h.mem n.addr)
    (hsize : 24 ≤ n.size) :
    valFree { h with mem := m } (n.addr + blockSize + g) = .ok (.error, { h with mem := m }) := by
  have hlimit : buf.limit < 2 ^ 64 := buf.fits
  obtain ⟨hnext, hprev⟩ := hc.links_even
  obtain ⟨-, hhigh, -, hmod⟩ := hc.laid.bounds (n := n) (by simp)
  rw [alignment] at hmod
  exact valFree_misplaced (hm.trans hc.chain.header) (by omega) (by omega)

/-- Releasing a page: it succeeds exactly when the payload follows its header. -/
theorem Chained.freePage {q : ℕ} {placed : Prop} (hc : Chained buf h (pre ++ n :: post))
    (hused : n.free = false) (hsize : n.size = 4096) (hq : n.Carries placed q) :
    (placed ∧ ∃ h' ns, valFree h q = .ok (.success, h') ∧ Chained buf h' ns ∧
        inUse ns = inUse pre ++ inUse post) ∨
      (¬placed ∧ valFree h q = .ok (.error, h)) := by
  rcases hq with ⟨hplaced, rfl⟩ | ⟨hplaced, g, hg, rfl⟩
  · exact Or.inl ⟨hplaced, hc.free hused⟩
  · exact Or.inr ⟨hplaced, hc.free_misplaced hg rfl (by omega)⟩

end Operations

/-! ## Tiled heaps are chained -/

/-- The cells of a tiled list as nodes. -/
def nodesOf (a : ℕ) (cs : List Cell) : List Node :=
  (place blockSize a cs).map fun x => ⟨x.1, x.2.size, x.2.free⟩

/-- Once it is initialised, the heap holds a list of nodes. -/
def HeapReady (buf : HeapBuffer) (h : HeapState) : Prop := ∃ ns, Chained buf (ensureInit buf h) ns

section Tiled

variable {buf : HeapBuffer} {h : HeapState} {m : ByteMemory} {e p a : ℕ} {cs : List Cell}

/-- The node of the first cell, and those of the others behind it. -/
theorem nodesOf_cons (c : Cell) :
    nodesOf a (c :: cs) = ⟨a, c.size, c.free⟩ :: nodesOf (a + blockSize + c.size) cs := rfl

/-- The link to the first cell of a tiling that ends at `e`. -/
theorem nextLink_nodesOf (hend : a + extent blockSize cs = e) : nextLink 0 (nodesOf a cs) = link e a := by
  cases cs with
  | nil => exact (if_pos (by simpa [extent] using hend)).symm
  | cons c cs =>
    have hheader : blockSize = 32 := rfl
    simp only [extent] at hend
    exact (if_neg (by omega)).symm

/-- The headers of a tiled list form a chain. -/
theorem Linked.chain (hlinked : Linked m e p a cs) (hend : a + extent blockSize cs = e) :
    Chain m 0 p (nodesOf a cs) := by
  induction cs generalizing p a with
  | nil => trivial
  | cons c cs ih =>
    have hrest : a + blockSize + c.size + extent blockSize cs = e := by
      simp only [extent] at hend
      omega
    rw [nodesOf_cons]
    refine ⟨?_, ih hlinked.2 hrest⟩
    rw [hlinked.1, headerOf, nextLink_nodesOf hrest]

/-- Cells of aligned sizes lie one behind the other without gaps. -/
theorem laid_nodesOf (haligned : ∀ c ∈ cs, c.size % alignment = 0) (ha : a % alignment = 0)
    (hend : a + extent blockSize cs = e) : Laid e a (nodesOf a cs) := by
  induction cs generalizing a with
  | nil =>
    rw [extent] at hend
    exact hend.le
  | cons c cs ih =>
    have hheader : blockSize = 32 := rfl
    have halign : alignment = 8 := rfl
    have hc := haligned c List.mem_cons_self
    rw [nodesOf_cons]
    refine ⟨le_rfl, ha, hc, ih (fun d hd => haligned d (List.mem_cons_of_mem _ hd)) ?_ ?_⟩
    · simp only [halign] at ha hc ⊢
      omega
    · simp only [extent] at hend ⊢
      omega

/-- A well-formed heap is chained. -/
theorem WellFormed.chained (hw : WellFormed buf h cs) : Chained buf h (nodesOf buf.base cs) := by
  have hend := hw.tiled.total
  refine ⟨hw.initialized, ?_, laid_nodesOf hw.aligned ?_ hend, hw.linked.chain hend⟩
  · rw [hw.head, nextLink_nodesOf hend]
    exact (if_neg (by simp [HeapBuffer.limit, platformHeapBufSize])).symm
  · have hpage := buf.pageAligned
    rw [alignment]
    omega

/-- The heap is ready after every run of calls, and before the first one. -/
theorem heapReady_of_run {ops : List HeapOp} {s : Client}
    (hrun : Run (Step (Callable buf) buf) (Client.start m) ops s) : HeapReady buf s.heap := by
  obtain ⟨cs, hw⟩ := (run_sound hrun).ensureInit_wellFormed
  exact ⟨_, hw.chained⟩

end Tiled

end FfaAcs.Heap
