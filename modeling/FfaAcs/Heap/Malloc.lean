import FfaAcs.Machine.ByteMemory
import FfaAcs.Machine.WordArithmetic
import FfaAcs.Platform.Libc

/-!
# The heap allocator

The allocator keeps one doubly linked list of blocks inside the heap buffer. Every block is
a `Block` header of 32 bytes followed by its payload, and headers, payloads and stale headers
of merged blocks share one byte memory. Links are addresses, with 0 for NULL.

Two accesses of the source are not guarded against a NULL link: `val_coalesce` starts by
reading the block it is given, and `val_aligned_alloc` reads the block after a leading split.
Reading a NULL block is the fault `nullDeref`. The list walks are given more steps than the
buffer has room for headers; a walk that uses them all is reported as `diverged`.
-/

namespace FfaAcs.Heap

open Machine Platform

/-- The status codes of the validation layer. -/
inductive Status
  | success
  | error
deriving DecidableEq, Repr

/-- The ways a call can fail to return. -/
inductive Fault
  | nullDeref
  | diverged
deriving DecidableEq, Repr

/-- The magic number of a live header, `BLOCK_VALID_MAGIC`. -/
def blockValidMagic : ℕ := 0xABCD

/-- The magic number left in a merged header, `BLOCK_INVALID_MAGIC`. -/
def blockInvalidMagic : ℕ := 0xFEFE

/-- The granularity of payload sizes, `ALIGNMENT`. -/
def alignment : ℕ := 8

/-- The size of a header, `BLOCK_SIZE`. -/
def blockSize : ℕ := 32

/-- The size of the heap buffer, `PLATFORM_HEAP_BUF_SIZE`. -/
def platformHeapBufSize : ℕ := 512 * 1024

/-- More steps than there is room for headers. -/
def blockLimit : ℕ := platformHeapBufSize / blockSize + 1

/-- The macro `ALIGN`. -/
def align (size : ℕ) : ℕ := wrap64 (size + (alignment - 1)) &&& not64 (alignment - 1)

/-- The macro `ALIGN_TO`, for an alignment that is not zero. -/
def alignTo (size alignment : ℕ) : ℕ :=
  wrap64 (size + (alignment - 1)) &&& not64 (alignment - 1)

/-- The buffer that `pal_get_heap_buffer` returns. The platform aligns it to a page. -/
structure HeapBuffer where
  base : ℕ
  pageAligned : base % 4096 = 0
  notNull : 0 < base
  fits : base + platformHeapBufSize < 2 ^ 64

/-- The fields of a block header. -/
structure Block where
  magic : ℕ
  free : ℕ
  size : ℕ
  next : ℕ
  prev : ℕ
deriving DecidableEq, Repr

/-- Read the header at `a`. -/
def loadBlock (m : ByteMemory) (a : ℕ) : Block :=
  ⟨m.load a 2, m.load (a + 2) 2, m.load (a + 8) 8, m.load (a + 16) 8, m.load (a + 24) 8⟩

/-- Assign `block->magic`. -/
def setMagic (m : ByteMemory) (a v : ℕ) : ByteMemory := m.store a 2 v

/-- Assign `block->free`. -/
def setFree (m : ByteMemory) (a v : ℕ) : ByteMemory := m.store (a + 2) 2 v

/-- Assign `block->size`. -/
def setSize (m : ByteMemory) (a v : ℕ) : ByteMemory := m.store (a + 8) 8 v

/-- Assign `block->next`. -/
def setNext (m : ByteMemory) (a v : ℕ) : ByteMemory := m.store (a + 16) 8 v

/-- Assign `block->prev`. -/
def setPrev (m : ByteMemory) (a v : ℕ) : ByteMemory := m.store (a + 24) 8 v

/-- The memory and the two static variables of the allocator. -/
structure HeapState where
  mem : ByteMemory
  freeList : ℕ
  initialized : Bool

/-- Make the whole buffer one free block. The alignment assertion holds of every `HeapBuffer`. -/
def valInitHeap (buf : HeapBuffer) (h : HeapState) : HeapState :=
  let block := buf.base
  let m := setMagic h.mem block blockValidMagic
  let m := setFree m block 1
  let m := setSize m block (platformHeapBufSize - blockSize)
  let m := setNext m block 0
  let m := setPrev m block 0
  ⟨m, block, true⟩

/-- Merge the blocks after `block` into it while they are free. -/
def coalesceForward : ℕ → ByteMemory → ℕ → Except Fault ByteMemory
  | 0, _, _ => .error .diverged
  | fuel + 1, m, block =>
    let toRemove := (loadBlock m block).next
    if toRemove ≠ 0 ∧ (loadBlock m toRemove).free ≠ 0 then
      let m := setSize m block
        ((loadBlock m block).size + (blockSize + (loadBlock m toRemove).size))
      let m := setNext m block (loadBlock m toRemove).next
      let m := setMagic m toRemove blockInvalidMagic
      let m := if (loadBlock m block).next ≠ 0 then setPrev m (loadBlock m block).next block else m
      coalesceForward fuel m block
    else .ok m

/-- Merge `block` into the blocks before it while they are free, and return the merged block. -/
def coalesceBackward : ℕ → ByteMemory → ℕ → Except Fault (ByteMemory × ℕ)
  | 0, _, _ => .error .diverged
  | fuel + 1, m, block =>
    let prev := (loadBlock m block).prev
    if prev ≠ 0 ∧ (loadBlock m prev).free ≠ 0 then
      let m := setSize m prev
        ((loadBlock m prev).size + (blockSize + (loadBlock m block).size))
      let m := setNext m (loadBlock m block).prev (loadBlock m block).next
      let m := setMagic m block blockInvalidMagic
      let m := if (loadBlock m block).next ≠ 0
        then setPrev m (loadBlock m block).next (loadBlock m block).prev else m
      coalesceBackward fuel m (loadBlock m block).prev
    else .ok (m, block)

/-- Merge a block with its free neighbours. The caller stores the returned block through the
pointer that the source passes. -/
def valCoalesce (m : ByteMemory) (block : ℕ) : Except Fault (ByteMemory × ℕ) :=
  if block = 0 then .error .nullDeref
  else do
    let m ← coalesceForward blockLimit m block
    coalesceBackward blockLimit m block

/-- Cut a free block off the end of `block` when there is room for a header and some payload. -/
def valSplit (m : ByteMemory) (block size : ℕ) : ByteMemory :=
  if wrap64 (size + blockSize + alignment) ≤ (loadBlock m block).size then
    let newBlock := wrap64 (block + blockSize + size)
    let m := setMagic m newBlock blockValidMagic
    let m := setFree m newBlock 1
    let m := setSize m newBlock (sub64 (sub64 (loadBlock m block).size size) blockSize)
    let m := setNext m newBlock (loadBlock m block).next
    let m := setPrev m newBlock block
    let m := if (loadBlock m newBlock).next ≠ 0
      then setPrev m (loadBlock m newBlock).next newBlock else m
    let m := setNext m block newBlock
    setSize m block size
  else m

/-- The search loop of `val_malloc`: the first free block that is large enough, or NULL. -/
def findFit : ℕ → ByteMemory → ℕ → ℕ → Except Fault ℕ
  | 0, _, _, _ => .error .diverged
  | fuel + 1, m, block, size =>
    if block = 0 then .ok 0
    else if (loadBlock m block).free ≠ 0 ∧ size ≤ (loadBlock m block).size then .ok block
    else findFit fuel m (loadBlock m block).next size

/-- Initialise the heap on first use. -/
def ensureInit (buf : HeapBuffer) (h : HeapState) : HeapState :=
  if h.initialized then h else valInitHeap buf h

/-- Allocate `size` bytes, first fit. -/
def valMalloc (buf : HeapBuffer) (h : HeapState) (size : ℕ) : Except Fault (ℕ × HeapState) :=
  if size = 0 then .ok (0, h)
  else do
    let h := ensureInit buf h
    let size := align size
    let block ← findFit blockLimit h.mem h.freeList size
    if block = 0 then .ok (0, h)
    else
      let m := valSplit h.mem block size
      let m := setMagic m block blockValidMagic
      let m := setFree m block 0
      .ok (block + blockSize, { h with mem := m })

/-- Release a block and merge it with its free neighbours. -/
def valFree (h : HeapState) (ptr : ℕ) : Except Fault (Status × HeapState) :=
  if ptr = 0 then .ok (.error, h)
  else
    let block := sub64 ptr blockSize
    if (loadBlock h.mem block).magic ≠ blockValidMagic then .ok (.error, h)
    else if (loadBlock h.mem block).free ≠ 0 then .ok (.error, h)
    else do
      let (m, _) ← valCoalesce (setFree h.mem block 1) block
      .ok (.success, { h with mem := m })

/-- Allocate and clear an array. The byte count is the product modulo `2 ^ 64`. -/
def valCalloc (buf : HeapBuffer) (h : HeapState) (nmemb size : ℕ) :
    Except Fault (ℕ × HeapState) :=
  if size = 0 ∨ nmemb = 0 then .ok (0, h)
  else do
    let total := wrap64 (nmemb * size)
    let (ptr, h) ← valMalloc buf h total
    if ptr ≠ 0 then .ok (ptr, { h with mem := memset h.mem ptr 0 total })
    else .ok (ptr, h)

/-- The test of `val_realloc` for a free neighbour that makes the block large enough. -/
def neighbourFits (m : ByteMemory) (block neighbour size : ℕ) : Bool :=
  neighbour ≠ 0 ∧ (loadBlock m neighbour).free ≠ 0 ∧
    size ≤ wrap64 ((loadBlock m block).size + blockSize + (loadBlock m neighbour).size)

/-- The first path of `val_realloc`: cut the block. `val_coalesce(&block->next)` starts at the
next block, in use or not, and writes the merged block back into `block->next`. -/
def reallocShrink (h : HeapState) (block size : ℕ) : Except Fault (ℕ × HeapState) := do
  let m := valSplit h.mem block size
  let (m, next) ← valCoalesce m (loadBlock m block).next
  return (block + blockSize, { h with mem := setNext m block next })

/-- The second path of `val_realloc`: merge with the free neighbours and move the data down. -/
def reallocGrow (h : HeapState) (block size : ℕ) : Except Fault (ℕ × HeapState) := do
  let ptr := block + blockSize
  let originalSize := (loadBlock h.mem block).size
  let (m, block) ← valCoalesce h.mem block
  let newPtr := block + blockSize
  let m := if newPtr ≠ ptr then valMemmove m newPtr ptr originalSize else m
  let m := valSplit m block size
  return (newPtr, { h with mem := setFree m block 0 })

/-- The third path of `val_realloc`: allocate, copy and free. -/
def reallocMove (buf : HeapBuffer) (h : HeapState) (block size : ℕ) :
    Except Fault (ℕ × HeapState) := do
  let ptr := block + blockSize
  let (newPtr, h) ← valMalloc buf h size
  if newPtr = 0 then return (0, h)
  let m := memcpy h.mem newPtr ptr (loadBlock h.mem block).size
  let (_, h) ← valFree { h with mem := m } ptr
  return (newPtr, h)

/-- Resize in place by cutting, in place by merging, or by moving to a new block. -/
def valRealloc (buf : HeapBuffer) (h : HeapState) (ptr size : ℕ) :
    Except Fault (ℕ × HeapState) :=
  if ptr = 0 then valMalloc buf h size
  else if size = 0 then do
    let (_, h) ← valFree h ptr
    return (0, h)
  else
    let block := sub64 ptr blockSize
    if (loadBlock h.mem block).magic ≠ blockValidMagic then .ok (0, h)
    else
      let size := align size
      if size ≤ (loadBlock h.mem block).size then reallocShrink h block size
      else if neighbourFits h.mem block (loadBlock h.mem block).next size ∨
          neighbourFits h.mem block (loadBlock h.mem block).prev size then
        reallocGrow h block size
      else reallocMove buf h block size

/-- The search loop of `val_aligned_alloc`: the first free block that holds an aligned payload
of `size` bytes, with the address of that payload. -/
def findAligned : ℕ → ByteMemory → ℕ → ℕ → ℕ → Except Fault (Option (ℕ × ℕ))
  | 0, _, _, _, _ => .error .diverged
  | fuel + 1, m, block, alignment, size =>
    if block = 0 then .ok none
    else if (loadBlock m block).free = 0 then
      findAligned fuel m (loadBlock m block).next alignment size
    else
      let aligned := alignTo (wrap64 (block + blockSize)) alignment
      let totalNeeded := sub64 (wrap64 (aligned + size)) block
      if totalNeeded ≤ wrap64 ((loadBlock m block).size + blockSize) then .ok (some (block, aligned))
      else findAligned fuel m (loadBlock m block).next alignment size

/-- The size of the gap before an aligned header. `diff` is a signed 64-bit difference, so a
header address below the block counts as no gap. -/
def leadingSpace (headerAddr raw : ℕ) : ℕ :=
  let diff := sub64 headerAddr raw
  if diff < 2 ^ 63 then diff else 0

/-- The body of the search loop of `val_aligned_alloc` on the block it chose: cut off the leading
gap, cut off the tail and mark the block. A tail that is too short to cut is given up. -/
def placeAligned (h : HeapState) (block aligned size : ℕ) : Except Fault (ℕ × HeapState) :=
  let headerAddr := sub64 aligned blockSize
  let leading := leadingSpace headerAddr block
  let m := if blockSize ≤ leading then valSplit h.mem block (leading - blockSize) else h.mem
  let block := if blockSize ≤ leading then (loadBlock m block).next else block
  if block = 0 then .error .nullDeref
  else
    let m := if wrap64 (size + blockSize + Heap.alignment) < (loadBlock m block).size
      then valSplit m block size else m
    let m := setSize m block size
    let m := setFree m block 0
    .ok (wrap64 (headerAddr + blockSize), { h with mem := m })

/-- Allocate `size` bytes at an aligned address. -/
def valAlignedAlloc (buf : HeapBuffer) (h : HeapState) (alignment size : ℕ) :
    Except Fault (ℕ × HeapState) :=
  if alignment < 8 ∨ alignment &&& (alignment - 1) ≠ 0 then .ok (0, h)
  else if size % alignment ≠ 0 then .ok (0, h)
  else do
    let size := align size
    let h := ensureInit buf h
    match ← findAligned blockLimit h.mem h.freeList alignment size with
    | none => return (0, h)
    | some (block, aligned) => placeAligned h block aligned size

end FfaAcs.Heap
