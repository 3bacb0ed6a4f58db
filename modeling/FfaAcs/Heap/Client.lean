import FfaAcs.Heap.Aligned
import FfaAcs.Heap.Realloc
import FfaAcs.Machine.Runs

/-!
# Runs of allocator calls

The allocator and its clients as one transition system. A client state is the heap and the list
of live pointers: those that a call returned and that were not passed to `val_free` or replaced
by `val_realloc` since. Between calls clients write bytes of the payloads they own.
-/

namespace FfaAcs.Heap

open Machine Tiling Platform

/-- The calls of the allocator, and a client's write of one byte. -/
inductive HeapOp
  | malloc (size : ℕ)
  | calloc (nmemb size : ℕ)
  | realloc (ptr size : ℕ)
  | free (ptr : ℕ)
  | alignedAlloc (alignment size : ℕ)
  | write (addr : ℕ) (byte : UInt8)
deriving DecidableEq

/-- The heap and the live pointers. -/
structure Client where
  heap : HeapState
  live : List ℕ

/-- The size of the block that a payload pointer belongs to. -/
def payloadSize (m : ByteMemory) (ptr : ℕ) : ℕ := (loadBlock m (ptr - blockSize)).size

/-- Before the first call the two static variables are zero and the memory is arbitrary. -/
def Client.start (m : ByteMemory) : Client := ⟨⟨m, 0, false⟩, []⟩

/-- A returned pointer is live unless it is NULL. -/
def Client.take (live : List ℕ) (r : ℕ × HeapState) : Client :=
  ⟨r.2, if r.1 = 0 then live else r.1 :: live⟩

/-- Carry out one call or write. -/
def exec (buf : HeapBuffer) (s : Client) : HeapOp → Except Fault Client
  | .malloc size => (valMalloc buf s.heap size).map (Client.take s.live)
  | .calloc nmemb size => (valCalloc buf s.heap nmemb size).map (Client.take s.live)
  | .realloc ptr size => (valRealloc buf s.heap ptr size).map fun r =>
      -- a failed resize leaves the old block to the client, a resize to 0 releases it
      if r.1 = 0 ∧ size ≠ 0 then ⟨r.2, s.live⟩ else Client.take (s.live.erase ptr) r
  | .free ptr => (valFree s.heap ptr).map fun r => ⟨r.2, s.live.erase ptr⟩
  | .alignedAlloc alignment size =>
      (valAlignedAlloc buf s.heap alignment size).map (Client.take s.live)
  | .write addr byte => .ok ⟨{ s.heap with mem := s.heap.mem.poke addr byte }, s.live⟩

/-- The calls and writes of clients that keep to `val_malloc`, `val_calloc`, `val_realloc` and
`val_free`: requests that rounding up does not wrap, live pointers or NULL, owned bytes. -/
def Allowed (s : Client) : HeapOp → Prop
  | .malloc size => size ≤ 2 ^ 64 - 8
  | .calloc nmemb size => wrap64 (nmemb * size) ≤ 2 ^ 64 - 8
  | .realloc ptr size => (ptr = 0 ∨ ptr ∈ s.live) ∧ size ≤ 2 ^ 64 - 8
  | .free ptr => ptr = 0 ∨ ptr ∈ s.live
  | .alignedAlloc _ _ => False
  | .write addr _ => ∃ p ∈ s.live, p ≤ addr ∧ addr < p + payloadSize s.heap.mem p

instance (s : Client) (op : HeapOp) : Decidable (Allowed s op) :=
  match op with
  | .malloc _ => inferInstanceAs (Decidable (_ ≤ _))
  | .calloc _ _ => inferInstanceAs (Decidable (_ ≤ _))
  | .realloc _ _ => inferInstanceAs (Decidable ((_ ∨ _) ∧ _))
  | .free _ => inferInstanceAs (Decidable (_ ∨ _))
  | .alignedAlloc _ _ => inferInstanceAs (Decidable False)
  | .write addr _ => inferInstanceAs
      (Decidable (∃ p ∈ s.live, p ≤ addr ∧ addr < p + payloadSize s.heap.mem p))

/-- The calls and writes of clients that use all five calls, with any sizes. Two kinds of calls are
left out: a clear that runs past the end of the address space, and an aligned allocation that
leaves a gap or a tail outside every block. -/
def Callable (buf : HeapBuffer) (s : Client) : HeapOp → Prop
  | .malloc size => size < 2 ^ 64
  | .calloc nmemb size => ∀ p h, valMalloc buf s.heap (wrap64 (nmemb * size)) = .ok (p, h) →
      p + wrap64 (nmemb * size) ≤ 2 ^ 64
  | .realloc ptr size => (ptr = 0 ∨ ptr ∈ s.live) ∧ size < 2 ^ 64
  | .free ptr => ptr = 0 ∨ ptr ∈ s.live
  | .alignedAlloc alignment size => alignment < 2 ^ 64 ∧ size < 2 ^ 64 ∧ Tidy buf s.heap alignment size
  | .write addr _ => ∃ p ∈ s.live, p ≤ addr ∧ addr < p + payloadSize s.heap.mem p

/-- One allowed operation that returns. -/
def Step (allowed : Client → HeapOp → Prop) (buf : HeapBuffer) (s : Client) (op : HeapOp)
    (t : Client) : Prop :=
  allowed s op ∧ exec buf s op = .ok t

/-- The heap holds a well-formed list, and the live pointers are the payloads in use. -/
def Tracked (buf : HeapBuffer) (s : Client) (cs : List Cell) : Prop :=
  WellFormed buf s.heap cs ∧ s.live.Perm (used blockSize buf.base cs)

/-- Nothing has been allocated and the heap is not initialised yet. -/
def Untouched (s : Client) : Prop :=
  s.heap.initialized = false ∧ s.heap.freeList = 0 ∧ s.live = []

section

variable {buf : HeapBuffer} {s : Client} {cs : List Cell}

/-- A live pointer is the payload of a cell in use. -/
theorem Tracked.exists_split {p : ℕ} (h : Tracked buf s cs) (hp : p ∈ s.live) :
    ∃ pre c post, cs = pre ++ c :: post ∧ c.free = false ∧
      p = buf.base + extent blockSize pre + blockSize := by
  obtain ⟨x, c, hx, hused, rfl⟩ := mem_used_iff.mp (h.2.mem_iff.mp hp)
  obtain ⟨pre, post, rfl, rfl⟩ := exists_split_of_mem_place hx
  exact ⟨pre, c, post, rfl, hused, rfl⟩

/-- NULL is not live. -/
theorem Tracked.zero_notMem (h : Tracked buf s cs) : 0 ∉ s.live := by
  intro hzero
  obtain ⟨pre, c, post, -, -, hptr⟩ := h.exists_split hzero
  have hbase := buf.notNull
  omega

/-- The payloads around a free cell. -/
theorem used_around_free {a : ℕ} {pre post : List Cell} {c : Cell} (hfree : c.free = true) :
    used blockSize a (pre ++ c :: post) = used blockSize a pre ++
      used blockSize (a + extent blockSize pre + blockSize + c.size) post := by
  rw [used_append, used, if_pos hfree]

/-- The payloads around a cell in use. -/
theorem used_around_used {a : ℕ} {pre post : List Cell} {c : Cell} (hused : c.free = false) :
    used blockSize a (pre ++ c :: post) = used blockSize a pre ++
      (a + extent blockSize pre + blockSize) ::
        used blockSize (a + extent blockSize pre + blockSize + c.size) post := by
  rw [used_append, used, if_neg (by simp [hused])]

/-- Removing a live pointer removes it from the payloads in use. -/
theorem erase_perm {live xs ys : List ℕ} {p : ℕ} (h : live.Perm (xs ++ p :: ys)) :
    (live.erase p).Perm (xs ++ ys) := by
  have hfront := (h.trans List.perm_middle).erase p
  rwa [List.erase_cons_head] at hfront

/-- Allocation from a free cell makes its payload live. A gap before it may become a free cell. -/
theorem Tracked.take {pre pre₁ post : List Cell} {c : Cell} {k n : ℕ} {h' : HeapState}
    (h : Tracked buf s (pre ++ c :: post)) (hfree : c.free = true)
    (hpre₁ : pre₁ = pre ∨ ∃ g, pre₁ = pre ++ [⟨g, true⟩])
    (hextent : extent blockSize pre₁ + k = extent blockSize pre + c.size) (hn : n ≤ k)
    (hw : WellFormed buf h' (pre₁ ++ splitCells ⟨k, false⟩ n ++ post)) :
    Tracked buf (Client.take s.live (buf.base + extent blockSize pre₁ + blockSize, h'))
      (pre₁ ++ splitCells ⟨k, false⟩ n ++ post) := by
  have hbase := buf.notNull
  have htaken : used blockSize buf.base (pre₁ ++ splitCells ⟨k, false⟩ n ++ post) = _ :=
    used_take (c := ⟨k, true⟩) hn
  have hbefore : used blockSize buf.base pre₁ = used blockSize buf.base pre := by
    rcases hpre₁ with rfl | ⟨g, rfl⟩
    · rfl
    · simp [used]
  have hbehind : buf.base + extent blockSize pre₁ + blockSize + k =
      buf.base + extent blockSize pre + blockSize + c.size := by omega
  refine ⟨hw, ?_⟩
  rw [Client.take, if_neg (by simp only; omega), htaken, hbefore, hbehind]
  refine List.Perm.trans (h.2.cons _) ?_
  rw [used_around_free hfree]
  exact List.perm_middle.symm

/-- `val_malloc` on a tracked heap. -/
theorem Tracked.exec_malloc (n : ℕ) (h : Tracked buf s cs) :
    ∃ t ds, exec buf s (.malloc n) = .ok t ∧ Tracked buf t ds := by
  rcases Nat.eq_zero_or_pos n with rfl | hpos
  · exact ⟨s, cs, rfl, h⟩
  · rcases valMalloc_wellFormed h.1 hpos with
      ⟨hnone, -⟩ | ⟨pre, c, post, h', rfl, hfree, hfit, -, hsome, hw, -⟩
    · exact ⟨s, cs, by rw [exec, hnone]; rfl, h⟩
    · exact ⟨_, _, by rw [exec, hsome]; rfl, h.take hfree (Or.inl rfl) rfl hfit hw⟩

/-- `val_calloc` on a tracked heap, when the clear stays in the address space. -/
theorem Tracked.exec_calloc {k n : ℕ} (h : Tracked buf s cs) (hclear : Callable buf s (.calloc k n)) :
    ∃ t ds, exec buf s (.calloc k n) = .ok t ∧ Tracked buf t ds := by
  by_cases hzero : n = 0 ∨ k = 0
  · exact ⟨s, cs, by rw [exec, valCalloc, if_pos hzero]; rfl, h⟩
  rcases Nat.eq_zero_or_pos (wrap64 (k * n)) with htotal | hpos
  · -- a product that is a multiple of 2 ^ 64 asks for no bytes at all
    refine ⟨s, cs, ?_, h⟩
    rw [exec, valCalloc, if_neg hzero, htotal]
    rfl
  · have hbase := buf.notNull
    have hheader : blockSize = 32 := rfl
    rcases valMalloc_wellFormed h.1 hpos with ⟨hnone, -⟩ | ⟨pre, c, post, h', -, -, -, -, hsome, -⟩
    · refine ⟨s, cs, ?_, h⟩
      rw [exec, valCalloc, if_neg hzero]
      simp only [hnone, bind, Except.bind, ne_eq, not_true_eq_false, if_false]
      rfl
    · -- the returned pointer is above 8, so the cleared bytes end below the wrap of the rounding
      have hend := hclear _ _ hsome
      rcases valCalloc_wellFormed h.1 (by omega) (by omega) hpos (by omega) with
        ⟨hnone, -⟩ | ⟨pre, c, post, h', rfl, hfree, hfit, hsome, hw, -⟩
      · exact ⟨s, cs, by rw [exec, hnone]; rfl, h⟩
      · exact ⟨_, _, by rw [exec, hsome]; rfl, h.take hfree (Or.inl rfl) rfl hfit hw⟩

/-- `val_aligned_alloc` on a tracked heap, when it gives up no byte. -/
theorem Tracked.exec_alignedAlloc {a n : ℕ} (h : Tracked buf s cs)
    (hop : Callable buf s (.alignedAlloc a n)) :
    ∃ t ds, exec buf s (.alignedAlloc a n) = .ok t ∧ Tracked buf t ds := by
  obtain ⟨ha, hn, htidy⟩ := hop
  rcases valAlignedAlloc_wellFormed h.1 ha hn htidy with
    hnone | ⟨pre, c, post, pre₁, k, h', rfl, hfree, hpre₁, hle, hextent, hsome, hw⟩
  · exact ⟨s, cs, by rw [exec, hnone]; rfl, h⟩
  · exact ⟨_, _, by rw [exec, hsome]; rfl, h.take hfree hpre₁ hextent hle hw⟩

/-- `val_free` of a live pointer succeeds. Its header is released, and those released before stay
so. -/
theorem Tracked.free {p : ℕ} (h : Tracked buf s cs) (hp : p ∈ s.live) :
    ∃ h' ds, valFree s.heap p = .ok (.success, h') ∧ Tracked buf ⟨h', s.live.erase p⟩ ds ∧
      ∀ x, x + blockSize = p ∨ Released s.heap.mem buf.base cs x → Released h'.mem buf.base ds x := by
  obtain ⟨pre, c, post, rfl, hused, rfl⟩ := h.exists_split hp
  obtain ⟨h', hrun, hw, -, hreleased⟩ := valFree_wellFormed h.1 hused
  have hlive := h.2
  rw [used_around_used hused] at hlive
  refine ⟨h', _, hrun, ⟨hw, ?_⟩, fun x hx => hreleased x (hx.imp_left (Nat.add_right_cancel ·))⟩
  rw [used_release]
  exact erase_perm hlive

/-- Releasing a live pointer keeps the heap tracked. -/
theorem Tracked.exec_free {p : ℕ} (h : Tracked buf s cs) (hp : p ∈ s.live) :
    ∃ t ds, exec buf s (.free p) = .ok t ∧ Tracked buf t ds := by
  obtain ⟨h', ds, hrun, ht, -⟩ := h.free hp
  exact ⟨_, ds, by rw [exec, hrun]; rfl, ht⟩

/-- A resize that returns a pointer: it takes the place of the old one among the live ones. -/
theorem Tracked.resize {pre post ds : List Cell} {c : Cell} {n q : ℕ} {h' : HeapState}
    (h : Tracked buf s (pre ++ c :: post)) (hused : c.free = false)
    (hrun : valRealloc buf s.heap (buf.base + extent blockSize pre + blockSize) n = .ok (q, h'))
    (hq : 0 < q) (hw : WellFormed buf h' ds)
    (hperm : (q :: (used blockSize buf.base pre ++
      used blockSize (buf.base + extent blockSize pre + blockSize + c.size) post)).Perm
        (used blockSize buf.base ds)) :
    ∃ t ds, exec buf s (.realloc (buf.base + extent blockSize pre + blockSize) n) = .ok t ∧
      Tracked buf t ds := by
  have hlive := h.2
  rw [used_around_used hused] at hlive
  refine ⟨⟨h', q :: s.live.erase (buf.base + extent blockSize pre + blockSize)⟩, ds, ?_, hw,
    ((erase_perm hlive).cons q).trans hperm⟩
  rw [exec, hrun]
  simp [Except.map, Client.take, hq.ne']

/-- Exchanging one element for another in two steps. -/
theorem perm_of_exchange {p q : ℕ} {as bs us vs xs ys : List ℕ} (hold : as ++ p :: bs = us ++ vs)
    (hnew : xs ++ p :: ys = us ++ q :: vs) : (q :: (as ++ bs)).Perm (xs ++ ys) := by
  refine List.Perm.cons_inv (a := p) ?_
  calc (p :: q :: (as ++ bs)).Perm (q :: p :: (as ++ bs)) := List.Perm.swap _ _ _
    List.Perm _ (q :: (as ++ p :: bs)) := List.perm_middle.symm.cons q
    List.Perm _ (us ++ q :: vs) := by rw [hold]; exact List.perm_middle.symm
    List.Perm _ (p :: (xs ++ ys)) := by rw [← hnew]; exact List.perm_middle

/-- Resizing a live block by one of the three paths, or the fault of the shrinking path. -/
theorem Tracked.exec_realloc {p n : ℕ} (h : Tracked buf s cs) (hp : p ∈ s.live) (hpos : 0 < n) :
    (∃ t ds, exec buf s (.realloc p n) = .ok t ∧ Tracked buf t ds) ∨
      exec buf s (.realloc p n) = .error .nullDeref := by
  obtain ⟨pre, c, post, rfl, hused, rfl⟩ := h.exists_split hp
  have hbase := buf.notNull
  have hresized := valRealloc_resized h.1 hused hpos
  generalize hrun : valRealloc buf s.heap _ n = r at hresized
  cases hresized with
  | ends =>
    right
    rw [exec, hrun]
    rfl
  | @shrunk c' d rest h' hfit hcells hw =>
    left
    have hflag : c'.free = false := by
      obtain ⟨k, tail, -, -, -, hk⟩ := splitCells_eq_cons hfit
      rw [hk c.free, List.cons_append, hused] at hcells
      exact (List.cons.inj hcells).1 ▸ rfl
    have htaken : used blockSize buf.base
        (pre ++ splitCells { c with free := false } (align n) ++ post) = _ := used_take hfit
    rw [← hused, List.append_assoc, hcells] at htaken
    refine h.resize hused hrun (by omega) hw ?_
    rw [used_coalesceNext hflag, htaken]
    exact List.perm_middle.symm
  | grown _ hfit hw =>
    refine Or.inl (h.resize hused hrun (by omega) hw ?_)
    rw [used_grow hfit]
    exact List.perm_middle.symm
  | full =>
    refine Or.inl ⟨s, _, ?_, h⟩
    rw [exec, hrun]
    simp [Except.map, hpos.ne']
  | @moved pre₁ post₁ pre' post' f h' _ hcs hfree hle hsplit hextent hw =>
    refine Or.inl (h.resize hused hrun (by omega) hw ?_)
    -- the allocation adds the new payload and the release removes the old one
    have hnew : used blockSize buf.base
        (pre₁ ++ splitCells { f with free := false } (align n) ++ post₁) = _ := used_take hle
    rw [hsplit, used_around_used hused, hextent] at hnew
    have hold := congrArg (used blockSize buf.base) hcs
    rw [used_around_used hused, used_around_free hfree] at hold
    rw [used_release, hextent]
    exact perm_of_exchange hold hnew

/-- A client's write inside an owned payload leaves the list alone. -/
theorem Tracked.exec_write {a p : ℕ} {b : UInt8} (h : Tracked buf s cs) (hp : p ∈ s.live)
    (hlow : p ≤ a) (hhigh : a < p + payloadSize s.heap.mem p) :
    ∃ t, exec buf s (.write a b) = .ok t ∧ Tracked buf t cs := by
  obtain ⟨pre, c, post, rfl, hused, rfl⟩ := h.exists_split hp
  have hsize : payloadSize s.heap.mem (buf.base + extent blockSize pre + blockSize) = c.size := by
    rw [payloadSize, Nat.add_sub_cancel, h.1.linked.header, headerOf]
  refine ⟨_, rfl, h.1.edit rfl h.1.aligned h.1.coalesced (h.1.linked.payload fun x hx => ?_), h.2⟩
  exact ByteMemory.poke_of_ne _ (by omega)

end

/-! ## Before and after initialisation -/

/-- The client after an early initialisation of the heap. -/
def Client.init (buf : HeapBuffer) (s : Client) : Client := ⟨valInitHeap buf s.heap, s.live⟩

/-- The fresh heap is one free cell and no pointer is live. -/
theorem Untouched.init_tracked {s : Client} (h : Untouched s) (buf : HeapBuffer) :
    Tracked buf (s.init buf) [⟨platformHeapBufSize - blockSize, true⟩] :=
  ⟨valInitHeap_wellFormed buf s.heap, by simp [Client.init, h.2.2, used]⟩

/-- The first allocation initialises the heap. -/
theorem valMalloc_of_uninit {h : HeapState} {n : ℕ} (buf : HeapBuffer) (hinit : h.initialized = false)
    (hpos : 0 < n) : valMalloc buf h n = valMalloc buf (valInitHeap buf h) n := by
  rw [valMalloc, valMalloc, ensureInit_of_uninit buf hinit,
    (valInitHeap_wellFormed buf h).ensureInit_eq, if_neg hpos.ne', if_neg hpos.ne']

/-- The first aligned allocation with accepted arguments initialises the heap. -/
theorem valAlignedAlloc_of_uninit {h : HeapState} {a n : ℕ} (buf : HeapBuffer)
    (hinit : h.initialized = false) (haccepted : ¬(a < 8 ∨ a &&& (a - 1) ≠ 0 ∨ n % a ≠ 0)) :
    valAlignedAlloc buf h a n = valAlignedAlloc buf (valInitHeap buf h) a n := by
  simp only [ne_eq, not_or, Nat.not_lt, not_not] at haccepted
  obtain ⟨hlow, hpow, hn⟩ := haccepted
  rw [valAlignedAlloc_eq _ _ hlow hpow hn, valAlignedAlloc_eq _ _ hlow hpow hn,
    ensureInit_of_uninit buf hinit, (valInitHeap_wellFormed buf h).ensureInit_eq]

/-- Resizing NULL is allocation. -/
theorem exec_realloc_null {s : Client} (buf : HeapBuffer) (n : ℕ) (hzero : 0 ∉ s.live) :
    exec buf s (.realloc 0 n) = exec buf s (.malloc n) := by
  rw [exec, exec, valRealloc, if_pos rfl, List.erase_of_not_mem hzero]
  congr 1
  funext r
  split
  case isTrue hnull => rw [Client.take, if_pos hnull.1]
  case isFalse => rfl

/-- Resizing to nothing is release. -/
theorem exec_realloc_zero {s : Client} {p : ℕ} (buf : HeapBuffer) (hp : p ≠ 0) :
    exec buf s (.realloc p 0) = exec buf s (.free p) := by
  rw [exec, exec, valRealloc, if_neg hp, if_pos rfl]
  cases valFree s.heap p with
  | error fault => rfl
  | ok r => rfl

/-- Either nothing has happened yet or the heap is tracked. -/
def Sound (buf : HeapBuffer) (s : Client) : Prop := Untouched s ∨ ∃ cs, Tracked buf s cs

section

variable {buf : HeapBuffer} {s : Client}

/-- A tracked result is a sound one. -/
theorem sound_of_tracked {op : HeapOp} (h : ∃ t ds, exec buf s op = .ok t ∧ Tracked buf t ds) :
    ∃ t, exec buf s op = .ok t ∧ Sound buf t := by
  obtain ⟨t, ds, hrun, ht⟩ := h
  exact ⟨t, hrun, Or.inr ⟨ds, ht⟩⟩

/-- `val_malloc` before initialisation. -/
theorem Untouched.exec_malloc (n : ℕ) (h : Untouched s) :
    ∃ t, exec buf s (.malloc n) = .ok t ∧ Sound buf t := by
  rcases Nat.eq_zero_or_pos n with rfl | hpos
  · exact ⟨s, rfl, Or.inl h⟩
  · have hinit : exec buf s (.malloc n) = exec buf (s.init buf) (.malloc n) := by
      rw [exec, exec, valMalloc_of_uninit buf h.1 hpos]
      rfl
    rw [hinit]
    exact sound_of_tracked ((h.init_tracked buf).exec_malloc n)

/-- `val_calloc` before initialisation. -/
theorem Untouched.exec_calloc {k n : ℕ} (h : Untouched s) (hclear : Callable buf s (.calloc k n)) :
    ∃ t, exec buf s (.calloc k n) = .ok t ∧ Sound buf t := by
  by_cases hzero : n = 0 ∨ k = 0
  · exact ⟨s, by rw [exec, valCalloc, if_pos hzero]; rfl, Or.inl h⟩
  rcases Nat.eq_zero_or_pos (wrap64 (k * n)) with htotal | hpos
  · refine ⟨s, ?_, Or.inl h⟩
    rw [exec, valCalloc, if_neg hzero, htotal]
    rfl
  · have hmalloc := valMalloc_of_uninit buf h.1 hpos
    have hinit : exec buf s (.calloc k n) = exec buf (s.init buf) (.calloc k n) := by
      have hcalloc : valCalloc buf s.heap k n = valCalloc buf (valInitHeap buf s.heap) k n := by
        simp only [valCalloc, if_neg hzero, hmalloc]
      rw [exec, exec, hcalloc]
      rfl
    have hclear' : Callable buf (s.init buf) (.calloc k n) := by
      intro p h' hrun
      exact hclear p h' (hmalloc.trans hrun)
    rw [hinit]
    exact sound_of_tracked ((h.init_tracked buf).exec_calloc hclear')

/-- `val_aligned_alloc` before initialisation. -/
theorem Untouched.exec_alignedAlloc {a n : ℕ} (h : Untouched s)
    (hop : Callable buf s (.alignedAlloc a n)) :
    ∃ t, exec buf s (.alignedAlloc a n) = .ok t ∧ Sound buf t := by
  by_cases hrejected : a < 8 ∨ a &&& (a - 1) ≠ 0 ∨ n % a ≠ 0
  · exact ⟨s, by rw [exec, valAlignedAlloc_rejected hrejected]; rfl, Or.inl h⟩
  · have hensure := ensureInit_of_uninit buf h.1
    have hinit : exec buf s (.alignedAlloc a n) = exec buf (s.init buf) (.alignedAlloc a n) := by
      rw [exec, exec, valAlignedAlloc_of_uninit buf h.1 hrejected]
      rfl
    have hop' : Callable buf (s.init buf) (.alignedAlloc a n) := by
      refine ⟨hop.1, hop.2.1, ?_⟩
      have htidy := hop.2.2
      rw [Tidy, chosenAligned, hensure] at htidy
      rw [Tidy, chosenAligned, Client.init, (valInitHeap_wellFormed buf s.heap).ensureInit_eq]
      exact htidy
    rw [hinit]
    exact sound_of_tracked ((h.init_tracked buf).exec_alignedAlloc hop')

/-- Every allowed operation keeps the heap sound or faults on a NULL link; none diverges. -/
theorem exec_sound {op : HeapOp} (hs : Sound buf s) (hop : Callable buf s op) :
    (∃ t, exec buf s op = .ok t ∧ Sound buf t) ∨ exec buf s op = .error .nullDeref := by
  rcases hs with hs | ⟨cs, hs⟩
  · -- no pointer is live yet, so only NULL can be passed
    have hnone (p : ℕ) : p ∉ s.live := by simp [hs.2.2]
    cases op with
    | malloc n => exact Or.inl (hs.exec_malloc n)
    | calloc k n => exact Or.inl (hs.exec_calloc hop)
    | free p =>
      obtain rfl := hop.resolve_right (hnone p)
      refine Or.inl ⟨s, ?_, Or.inl hs⟩
      rw [exec, List.erase_of_not_mem (hnone 0)]
      rfl
    | realloc p n =>
      obtain rfl := hop.1.resolve_right (hnone p)
      rw [exec_realloc_null buf n (hnone 0)]
      exact Or.inl (hs.exec_malloc n)
    | alignedAlloc a n => exact Or.inl (hs.exec_alignedAlloc hop)
    | write a b =>
      obtain ⟨p, hp, -⟩ := hop
      exact absurd hp (hnone p)
  · have hzero := hs.zero_notMem
    cases op with
    | malloc n => exact Or.inl (sound_of_tracked (hs.exec_malloc n))
    | calloc k n => exact Or.inl (sound_of_tracked (hs.exec_calloc hop))
    | free p =>
      rcases hop with rfl | hp
      · refine Or.inl ⟨s, ?_, Or.inr ⟨cs, hs⟩⟩
        rw [exec, List.erase_of_not_mem hzero]
        rfl
      · exact Or.inl (sound_of_tracked (hs.exec_free hp))
    | realloc p n =>
      obtain ⟨rfl | hp, hn⟩ := hop
      · rw [exec_realloc_null buf n hzero]
        exact Or.inl (sound_of_tracked (hs.exec_malloc n))
      · rcases Nat.eq_zero_or_pos n with rfl | hpos
        · rw [exec_realloc_zero buf (fun hnull => hzero (hnull ▸ hp))]
          exact Or.inl (sound_of_tracked (hs.exec_free hp))
        · exact (hs.exec_realloc hp hpos).imp_left sound_of_tracked
    | alignedAlloc a n => exact Or.inl (sound_of_tracked (hs.exec_alignedAlloc hop))
    | write a b =>
      obtain ⟨p, hp, hlow, hhigh⟩ := hop
      obtain ⟨t, hrun, ht⟩ := hs.exec_write hp hlow hhigh
      exact Or.inl ⟨t, hrun, Or.inr ⟨cs, ht⟩⟩

/-- The heap is sound after every run of such calls. -/
theorem run_sound {m : ByteMemory} {ops : List HeapOp}
    (hrun : Run (Step (Callable buf) buf) (Client.start m) ops s) : Sound buf s := by
  refine hrun.invariant (Or.inl ⟨rfl, rfl, rfl⟩) ?_
  rintro s op t hs ⟨hop, hexec⟩
  rcases exec_sound hs hop with ⟨u, hu, hsound⟩ | hfault
  · rw [hexec] at hu
    exact Except.ok.inj hu ▸ hsound
  · rw [hexec] at hfault
    exact nomatch hfault

/-- The heap of a run in which a pointer is live is tracked. -/
theorem Sound.tracked_of_mem {p : ℕ} (hs : Sound buf s) (hp : p ∈ s.live) :
    ∃ cs, Tracked buf s cs := by
  rcases hs with hs | hs
  · rw [hs.2.2] at hp
    exact absurd hp List.not_mem_nil
  · exact hs

/-- The heap that a call works on is well formed, also before the first allocation. -/
theorem Sound.ensureInit_wellFormed (hs : Sound buf s) :
    ∃ cs, WellFormed buf (ensureInit buf s.heap) cs := by
  rcases hs with huntouched | ⟨cs, htracked⟩
  · rw [ensureInit_of_uninit buf huntouched.1]
    exact ⟨_, valInitHeap_wellFormed buf s.heap⟩
  · rw [htracked.1.ensureInit_eq]
    exact ⟨cs, htracked.1⟩

/-- Allocation works on the initialised heap. -/
theorem Sound.valMalloc_eq {n : ℕ} (hs : Sound buf s) (hpos : 0 < n) :
    valMalloc buf s.heap n = valMalloc buf (ensureInit buf s.heap) n := by
  obtain ⟨cs, hw⟩ := hs.ensureInit_wellFormed
  rw [valMalloc, valMalloc, hw.ensureInit_eq, if_neg hpos.ne', if_neg hpos.ne']

/-- An allocation ends inside the address space when its rounding does not wrap. -/
theorem Sound.malloc_end {n p : ℕ} {h : HeapState} (hs : Sound buf s) (hn : n ≤ 2 ^ 64 - 8)
    (hrun : valMalloc buf s.heap n = .ok (p, h)) : p + n ≤ 2 ^ 64 := by
  rcases Nat.eq_zero_or_pos n with rfl | hpos
  · obtain rfl : 0 = p := congrArg Prod.fst (Except.ok.inj hrun)
    omega
  · obtain ⟨cs, hw⟩ := hs.ensureInit_wellFormed
    rw [hs.valMalloc_eq hpos] at hrun
    rcases valMalloc_wellFormed hw hpos with ⟨hnone, -⟩ | ⟨pre, c, post, h', rfl, -, hfit, -, hsome, -⟩
    · rw [hnone] at hrun
      obtain rfl : 0 = p := congrArg Prod.fst (Except.ok.inj hrun)
      omega
    · rw [hsome] at hrun
      obtain rfl := congrArg Prod.fst (Except.ok.inj hrun)
      have haddr := hw.addr_lt
      rw [align_eq hn] at hfit
      simp only
      omega

/-- The clients of four calls are clients of five. -/
theorem Allowed.callable {op : HeapOp} (hop : Allowed s op) (hs : Sound buf s) :
    Callable buf s op := by
  cases op with
  | malloc n => exact lt_of_le_of_lt hop (by norm_num)
  | calloc k n => exact fun p h hrun => hs.malloc_end hop hrun
  | realloc p n => exact ⟨hop.1, lt_of_le_of_lt hop.2 (by norm_num)⟩
  | free p => exact hop
  | alignedAlloc a n => exact hop.elim
  | write a b => exact hop

/-- Runs of the clients of four calls are sound. -/
theorem run_sound_of_allowed {m : ByteMemory} {ops : List HeapOp}
    (hrun : Run (Step Allowed buf) (Client.start m) ops s) : Sound buf s := by
  have hcallable : Run (Step (Callable buf) buf) (Client.start m) ops s := by
    induction hrun with
    | nil => exact .nil
    | snoc _ hlast ih => exact .snoc ih ⟨hlast.1.callable (run_sound ih), hlast.2⟩
  exact run_sound hcallable

end

end FfaAcs.Heap
