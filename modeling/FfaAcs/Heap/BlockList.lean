import FfaAcs.Heap.Malloc
import FfaAcs.Machine.Tiling

/-!
# The block list as a tiling

`Linked m e p a cs` says that the headers found in memory from address `a` on are those of the
cells `cs`, laid end to end, with `p` the block before the first one and `e` the end of the
heap. The link out of the block that ends at `e` is NULL.

The three ways the allocator edits the list are changing one flag, cutting a block in two and
merging a block with its successor. Each has one lemma here that carries `Linked` across the
edit; the rest of the development never looks at header fields of a changed memory again.
-/

namespace FfaAcs.Heap

open Machine Tiling

/-! ## Header fields -/

/-- A header depends only on its own 32 bytes. -/
theorem loadBlock_congr {m m' : ByteMemory} {a : ℕ}
    (h : ∀ x, a ≤ x → x < a + blockSize → m x = m' x) : loadBlock m a = loadBlock m' a := by
  unfold blockSize at h
  simp only [loadBlock, Block.mk.injEq]
  refine ⟨?_, ?_, ?_, ?_, ?_⟩ <;>
    exact ByteMemory.load_congr fun x hlow hhigh => h x (by omega) (by omega)

/-- Writes outside a header do not change it. -/
theorem loadBlock_store_apart (m : ByteMemory) {a n v b : ℕ} (h : Apart a n b blockSize) :
    loadBlock (m.store a n v) b = loadBlock m b :=
  loadBlock_congr fun x hlow hhigh => ByteMemory.store_outside m (by omega)

section Fields

variable (m : ByteMemory) (a v : ℕ)

/-- A write of `magic` changes that field of the header alone. -/
@[simp] theorem loadBlock_setMagic_same :
    loadBlock (setMagic m a v) a = { loadBlock m a with magic := v % 2 ^ 16 } := by
  simp (disch := omega) [loadBlock, setMagic, ByteMemory.load_store_apart]

/-- A write of `free` changes that field of the header alone. -/
@[simp] theorem loadBlock_setFree_same :
    loadBlock (setFree m a v) a = { loadBlock m a with free := v % 2 ^ 16 } := by
  simp (disch := omega) [loadBlock, setFree, ByteMemory.load_store_apart]

/-- A write of `size` changes that field of the header alone. -/
@[simp] theorem loadBlock_setSize_same :
    loadBlock (setSize m a v) a = { loadBlock m a with size := v % 2 ^ 64 } := by
  simp (disch := omega) [loadBlock, setSize, ByteMemory.load_store_apart]

/-- A write of `next` changes that field of the header alone. -/
@[simp] theorem loadBlock_setNext_same :
    loadBlock (setNext m a v) a = { loadBlock m a with next := v % 2 ^ 64 } := by
  simp (disch := omega) [loadBlock, setNext, ByteMemory.load_store_apart]

/-- A write of `prev` changes that field of the header alone. -/
@[simp] theorem loadBlock_setPrev_same :
    loadBlock (setPrev m a v) a = { loadBlock m a with prev := v % 2 ^ 64 } := by
  simp (disch := omega) [loadBlock, setPrev, ByteMemory.load_store_apart]

variable {b : ℕ} (h : Apart a blockSize b blockSize)
include h

/-- A write of `magic` leaves a header that lies apart alone. -/
theorem loadBlock_setMagic_apart : loadBlock (setMagic m a v) b = loadBlock m b :=
  loadBlock_store_apart m (by unfold blockSize at *; omega)

/-- A write of `free` leaves a header that lies apart alone. -/
theorem loadBlock_setFree_apart : loadBlock (setFree m a v) b = loadBlock m b :=
  loadBlock_store_apart m (by unfold blockSize at *; omega)

/-- A write of `size` leaves a header that lies apart alone. -/
theorem loadBlock_setSize_apart : loadBlock (setSize m a v) b = loadBlock m b :=
  loadBlock_store_apart m (by unfold blockSize at *; omega)

/-- A write of `next` leaves a header that lies apart alone. -/
theorem loadBlock_setNext_apart : loadBlock (setNext m a v) b = loadBlock m b :=
  loadBlock_store_apart m (by unfold blockSize at *; omega)

/-- A write of `prev` leaves a header that lies apart alone. -/
theorem loadBlock_setPrev_apart : loadBlock (setPrev m a v) b = loadBlock m b :=
  loadBlock_store_apart m (by unfold blockSize at *; omega)

end Fields

/-! ## Linked cells -/

/-- The link to the block at `x`; there is none at the end of the heap. -/
def link (e x : ℕ) : ℕ := if x = e then 0 else x

/-- The header of a cell at `a` with predecessor `p`. -/
def headerOf (e p a : ℕ) (c : Cell) : Block :=
  ⟨blockValidMagic, c.free.toNat, c.size, link e (a + blockSize + c.size), p⟩

/-- The memory holds the headers of the cells `cs` from address `a` on. -/
def Linked (m : ByteMemory) (e : ℕ) : ℕ → ℕ → List Cell → Prop
  | _, _, [] => True
  | p, a, c :: cs => loadBlock m a = headerOf e p a c ∧ Linked m e a (a + blockSize + c.size) cs

/-- A concatenation is linked when both parts are, the right one behind the left one. -/
@[simp] theorem linked_append (m : ByteMemory) (e p a : ℕ) (xs ys : List Cell) :
    Linked m e p a (xs ++ ys) ↔ Linked m e p a xs ∧
      Linked m e (lastAddr blockSize p a xs) (a + extent blockSize xs) ys := by
  induction xs generalizing p a with
  | nil => simp [Linked, lastAddr, extent]
  | cons c xs ih =>
    simp only [List.cons_append, Linked, ih, lastAddr, extent, Nat.add_assoc, and_assoc]

/-- Linkedness depends only on the headers of the placed cells. -/
theorem Linked.congr {m m' : ByteMemory} {e p a : ℕ} {cs : List Cell} (h : Linked m e p a cs)
    (hsame : ∀ x c, (x, c) ∈ place blockSize a cs → loadBlock m' x = loadBlock m x) :
    Linked m' e p a cs := by
  induction cs generalizing p a with
  | nil => trivial
  | cons c cs ih =>
    refine ⟨?_, ih h.2 fun x d hx => hsame x d ?_⟩
    · rw [hsame a c (by simp [place]), h.1]
    · simp only [place, List.mem_cons]
      exact Or.inr hx

/-- A write below or above the range of the cells keeps them linked. -/
theorem Linked.congr_outside {m m' : ByteMemory} {e p a : ℕ} {cs : List Cell}
    (h : Linked m e p a cs)
    (hsame : ∀ x, a ≤ x → x + blockSize ≤ a + extent blockSize cs →
      loadBlock m' x = loadBlock m x) :
    Linked m' e p a cs :=
  h.congr fun x c hx => hsame x (place_bounds hx).1 (by have := (place_bounds hx).2; omega)

/-- The header of a placed cell, with the links that its position gives it. -/
theorem Linked.header {m : ByteMemory} {e p a : ℕ} {pre post : List Cell} {c : Cell}
    (h : Linked m e p a (pre ++ c :: post)) :
    loadBlock m (a + extent blockSize pre) =
      headerOf e (lastAddr blockSize p a pre) (a + extent blockSize pre) c :=
  ((linked_append ..).mp h).2.1

/-! ## Bytes outside the headers -/

/-- The address is no byte of a header of the cells. -/
def OffHeaders (a : ℕ) (cs : List Cell) (y : ℕ) : Prop :=
  ∀ x c, (x, c) ∈ place blockSize a cs → y < x ∨ x + blockSize ≤ y

/-- The headers of a concatenation are those of its parts. -/
theorem offHeaders_append {a y : ℕ} {xs ys : List Cell} :
    OffHeaders a (xs ++ ys) y ↔ OffHeaders a xs y ∧ OffHeaders (a + extent blockSize xs) ys y := by
  simp only [OffHeaders, place_append, List.mem_append]
  constructor
  · exact fun h => ⟨fun x c hx => h x c (Or.inl hx), fun x c hx => h x c (Or.inr hx)⟩
  · rintro ⟨hxs, hys⟩ x c (hx | hx)
    exacts [hxs x c hx, hys x c hx]

/-- The first header, and those of the other cells. -/
theorem offHeaders_cons {a y : ℕ} {c : Cell} {cs : List Cell} :
    OffHeaders a (c :: cs) y ↔
      (y < a ∨ a + blockSize ≤ y) ∧ OffHeaders (a + blockSize + c.size) cs y := by
  simp only [OffHeaders, place, List.mem_cons, Prod.mk.injEq]
  constructor
  · exact fun h => ⟨h a c (Or.inl ⟨rfl, rfl⟩), fun x d hx => h x d (Or.inr hx)⟩
  · rintro ⟨hc, hcs⟩ x d (⟨rfl, rfl⟩ | hx)
    exacts [hc, hcs x d hx]

/-- Joining two neighbouring cells removes a header. -/
theorem OffHeaders.join {a y : ℕ} {b c : Cell} {flag : Bool} {pre post : List Cell}
    (h : OffHeaders a (pre ++ b :: c :: post) y) :
    OffHeaders a (pre ++ ⟨b.size + (blockSize + c.size), flag⟩ :: post) y := by
  simp only [offHeaders_append, offHeaders_cons] at h ⊢
  obtain ⟨hpre, hb, -, hpost⟩ := h
  refine ⟨hpre, hb, ?_⟩
  simpa only [Nat.add_assoc] using hpost

/-- Flags have no part in where the headers lie. -/
theorem OffHeaders.flag {a y k : ℕ} {flag flag' : Bool} {pre post : List Cell}
    (h : OffHeaders a (pre ++ ⟨k, flag⟩ :: post) y) : OffHeaders a (pre ++ ⟨k, flag'⟩ :: post) y := by
  simpa only [offHeaders_append, offHeaders_cons] using h

/-- The payload of a cell lies outside the headers. -/
theorem offHeaders_of_payload {a x y : ℕ} {c : Cell} {cs : List Cell}
    (hx : (x, c) ∈ place blockSize a cs) (hlow : x + blockSize ≤ y)
    (hhigh : y < x + blockSize + c.size) : OffHeaders a cs y := by
  intro z d hz
  by_cases hne : x = z
  · omega
  · have := place_apart hx hz hne
    omega

/-- The header at `x` is that of a free cell, or was merged away: it is marked invalid and lies
outside the headers of the cells. -/
def Released (m : ByteMemory) (a : ℕ) (cs : List Cell) (x : ℕ) : Prop :=
  (∃ d, (x, d) ∈ place blockSize a cs ∧ d.free = true) ∨
    (loadBlock m x).magic = blockInvalidMagic ∧ OffHeaders a cs x ∧ OffHeaders a cs (x + 1)

/-! ## Edits of the list -/

/-- Cells that tile the range from `a` to `e`, a heap buffer below the end of the address space. -/
structure Tiled (a e : ℕ) (cs : List Cell) : Prop where
  total : a + extent blockSize cs = e
  notNull : 0 < a
  room : e ≤ a + platformHeapBufSize
  bound : e < 2 ^ 64

/-- Cells of the same extent tile the same range. -/
theorem Tiled.of_extent_eq {a e : ℕ} {cs ds : List Cell} (ht : Tiled a e cs)
    (h : extent blockSize ds = extent blockSize cs) : Tiled a e ds :=
  ⟨by rw [h, ht.total], ht.notNull, ht.room, ht.bound⟩

/-- The step bound of the list walks exceeds the number of blocks. -/
theorem Tiled.length_lt {a e : ℕ} {cs : List Cell} (ht : Tiled a e cs) : cs.length < blockLimit := by
  have hcount := length_mul_le_extent blockSize cs
  have htotal := ht.total
  have hroom := ht.room
  simp only [blockSize, platformHeapBufSize, blockLimit] at *
  omega

/-- A cell of a heap is smaller than the heap. -/
theorem Tiled.size_le {a e : ℕ} {pre post : List Cell} {c : Cell} (ht : Tiled a e (pre ++ c :: post)) :
    c.size + blockSize ≤ platformHeapBufSize := by
  have htotal := ht.total
  have hroom := ht.room
  simp only [extent_append, extent] at htotal
  omega

section Edits

variable {m : ByteMemory} {e p a : ℕ} {pre post : List Cell} {b c : Cell}

/-- Rewriting the header of one cell, and nothing else of the list, replaces that cell. -/
theorem Linked.replace (c' : Cell) {m' : ByteMemory} (h : Linked m e p a (pre ++ c :: post))
    (hsize : c'.size = c.size)
    (hheader : loadBlock m' (a + extent blockSize pre) =
      headerOf e (lastAddr blockSize p a pre) (a + extent blockSize pre) c')
    (hrest : ∀ x, Apart (a + extent blockSize pre) blockSize x blockSize →
      loadBlock m' x = loadBlock m x) :
    Linked m' e p a (pre ++ c' :: post) := by
  obtain ⟨hpre, -, hpost⟩ := (linked_append ..).mp h
  refine (linked_append ..).mpr ⟨hpre.congr_outside ?_, hheader, ?_⟩
  · intro x _ hx
    exact hrest x (Or.inr hx)
  · rw [hsize]
    refine hpost.congr_outside ?_
    intro x hx _
    exact hrest x (Or.inl (by omega))

/-- Assigning the flag of a block changes the flag of its cell. -/
theorem Linked.setFree (h : Linked m e p a (pre ++ c :: post)) (flag : Bool) :
    Linked (setFree m (a + extent blockSize pre) flag.toNat) e p a
      (pre ++ { c with free := flag } :: post) := by
  refine h.replace { c with free := flag } rfl ?_ fun x hx => loadBlock_setFree_apart _ _ _ hx
  rw [loadBlock_setFree_same, h.header]
  cases flag <;> rfl

/-- Assigning the valid magic number to a block of the list changes nothing. -/
theorem Linked.setMagic (h : Linked m e p a (pre ++ c :: post)) :
    Linked (setMagic m (a + extent blockSize pre) blockValidMagic) e p a (pre ++ c :: post) := by
  refine h.replace c rfl ?_ fun x hx => loadBlock_setMagic_apart _ _ _ hx
  rw [loadBlock_setMagic_same, h.header]
  rfl

/-- The link out of a block of a tiled list is NULL exactly at the last block. -/
theorem link_eq_zero_iff (ht : Tiled a e (pre ++ c :: post)) :
    link e (a + extent blockSize pre + blockSize + c.size) = 0 ↔ post = [] := by
  have htotal := ht.total
  have hpos := ht.notNull
  have hheader : blockSize = 32 := rfl
  simp only [extent_append, extent] at htotal
  unfold link
  cases post with
  | nil =>
    simp only [extent] at htotal
    simp [show a + extent blockSize pre + blockSize + c.size = e by omega]
  | cons d post =>
    simp only [extent] at htotal
    rw [if_neg (by omega)]
    simp only [reduceCtorEq, iff_false]
    omega

/-- The link out of a block that is not the last one is the address where it ends. -/
theorem link_of_cons {d : Cell} (ht : Tiled a e (pre ++ c :: d :: post)) :
    link e (a + extent blockSize pre + blockSize + c.size) =
      a + extent blockSize pre + blockSize + c.size := by
  have htotal := ht.total
  have hheader : blockSize = 32 := rfl
  simp only [extent_append, extent] at htotal
  exact if_neg (by omega)

/-- Repointing the back link of the next block, as every edit of the list does. -/
def relinkNext (m : ByteMemory) (next block : ℕ) : ByteMemory :=
  if next ≠ 0 then setPrev m next block else m

/-- Relinking the block at `z` does not touch the headers below it. -/
theorem loadBlock_relinkNext_below {z block x : ℕ} (h : x + blockSize ≤ z) :
    loadBlock (relinkNext m (link e z) block) x = loadBlock m x := by
  unfold relinkNext link
  split
  · simp
  · split
    · exact loadBlock_setPrev_apart _ _ _ (Or.inr h)
    · rfl

/-- Once the first part of a list has been rebuilt, relinking attaches the cells behind it. -/
theorem Linked.relinkNext {z q : ℕ} (h : Linked m e p z post) (hend : z + extent blockSize post = e)
    (hpos : 0 < z) (hq : q < 2 ^ 64) : Linked (relinkNext m (link e z) q) e q z post := by
  cases post with
  | nil => trivial
  | cons d post =>
    have hheader : blockSize = 32 := rfl
    have hz : link e z = z := if_neg (by simp only [extent] at hend; omega)
    rw [hz, Heap.relinkNext, if_pos hpos.ne']
    refine ⟨?_, h.2.congr_outside fun x hx _ => loadBlock_setPrev_apart _ _ _ (Or.inl ?_)⟩
    · rw [loadBlock_setPrev_same, h.1, Nat.mod_eq_of_lt hq]
      rfl
    · omega

/-- The memory after `toRemove` is merged into the block before it. -/
def mergeMem (m : ByteMemory) (block toRemove size next : ℕ) : ByteMemory :=
  relinkNext (Heap.setMagic (setNext (setSize m block size) block next) toRemove blockInvalidMagic)
    next block

/-- A store into a header does not change the bytes outside it. -/
theorem store_offHeader {block y i n v : ℕ} (hy : y < block ∨ block + blockSize ≤ y)
    (hfield : i + n ≤ blockSize) : m.store (block + i) n v y = m y :=
  ByteMemory.store_outside m (by omega)

/-- Relinking writes only the header of the next block. -/
theorem relinkNext_offHeaders {z block y : ℕ} (hend : z + extent blockSize post = e)
    (hy : OffHeaders z post y) : relinkNext m (link e z) block y = m y := by
  cases post with
  | nil =>
    have hz : link e z = 0 := if_pos (by simpa [extent] using hend)
    rw [relinkNext, hz, if_neg (not_not.mpr rfl)]
  | cons d post =>
    have hz : link e z = z := if_neg (by
      have hheader : blockSize = 32 := rfl
      simp only [extent] at hend
      omega)
    rw [relinkNext, hz]
    split
    · exact store_offHeader (offHeaders_cons.mp hy).1 (by decide)
    · rfl

/-- Merging two neighbouring blocks writes only headers. -/
theorem mergeMem_offHeaders {y size : ℕ} (ht : Tiled a e (pre ++ b :: c :: post))
    (hy : OffHeaders a (pre ++ b :: c :: post) y) :
    mergeMem m (a + extent blockSize pre) (a + extent blockSize pre + blockSize + b.size) size
      (link e (a + extent blockSize pre + blockSize + b.size + blockSize + c.size)) y = m y := by
  obtain ⟨-, hrest⟩ := offHeaders_append.mp hy
  obtain ⟨hb, hrest⟩ := offHeaders_cons.mp hrest
  obtain ⟨hc, hpost⟩ := offHeaders_cons.mp hrest
  have hend := ht.total
  simp only [extent_append, extent] at hend
  rw [mergeMem, relinkNext_offHeaders (by omega) hpost, Heap.setMagic, ByteMemory.store_outside _ (by
    have hheader : blockSize = 32 := rfl
    omega), setNext, store_offHeader hb (by decide), setSize, store_offHeader hb (by decide)]

/-- Merging two neighbouring blocks joins their cells and the header between them. -/
theorem Linked.merge (ht : Tiled a e (pre ++ b :: c :: post))
    (h : Linked m e p a (pre ++ b :: c :: post)) :
    Linked (mergeMem m (a + extent blockSize pre) (a + extent blockSize pre + blockSize + b.size)
        (b.size + (blockSize + c.size))
        (link e (a + extent blockSize pre + blockSize + b.size + blockSize + c.size)))
      e p a (pre ++ ⟨b.size + (blockSize + c.size), b.free⟩ :: post) := by
  have hheader : blockSize = 32 := rfl
  have htotal := ht.total
  have hbound := ht.bound
  have hpos := ht.notNull
  simp only [extent_append, extent] at htotal
  obtain ⟨hpre, hb, -, hpost⟩ := (linked_append ..).mp h
  generalize hy : a + extent blockSize pre = y at *
  set z := y + blockSize + b.size + blockSize + c.size with hz
  have hend : y + blockSize + (b.size + (blockSize + c.size)) = z := by omega
  have hnext : link e z < 2 ^ 64 := by unfold link; split <;> omega
  refine (linked_append ..).mpr ⟨hpre.congr_outside fun x _ hx => ?_, ?_, ?_⟩
  · simp (disch := omega) only [mergeMem, loadBlock_relinkNext_below,
      loadBlock_setMagic_apart, loadBlock_setNext_apart, loadBlock_setSize_apart]
  · rw [hy]
    simp (disch := omega) only [mergeMem, loadBlock_relinkNext_below,
      loadBlock_setMagic_apart, loadBlock_setNext_same, loadBlock_setSize_same, hb, headerOf, hend,
      Nat.mod_eq_of_lt]
  · rw [hy, hend]
    refine Linked.relinkNext (p := y + blockSize + b.size) (hpost.congr_outside fun x hx _ => ?_)
      (by omega) (by omega) (by omega)
    simp (disch := omega) only [loadBlock_setMagic_apart, loadBlock_setNext_apart,
      loadBlock_setSize_apart]

/-- A magic number depends only on its own two bytes. -/
theorem magic_congr {m' : ByteMemory} {x : ℕ} (hfirst : m' x = m x) (hsecond : m' (x + 1) = m (x + 1)) :
    (loadBlock m' x).magic = (loadBlock m x).magic := by
  simp only [loadBlock, ByteMemory.load, hfirst, hsecond]

/-- Marking a block as free keeps released headers. -/
theorem Released.setFree {x v : ℕ} (h : Released m a (pre ++ c :: post) x) :
    Released (Heap.setFree m (a + extent blockSize pre) v) a (pre ++ { c with free := true } :: post) x := by
  rcases h with ⟨d, hd, hfree⟩ | ⟨hmagic, hfirst, hsecond⟩
  · simp only [place_append, place, List.mem_append, List.mem_cons, Prod.mk.injEq] at hd
    rcases hd with hd | ⟨rfl, -⟩ | hd
    · exact Or.inl ⟨d, by simp [hd], hfree⟩
    · exact Or.inl ⟨_, mem_place_middle _ _ _ _ _, rfl⟩
    · exact Or.inl ⟨d, by simp [place, hd], hfree⟩
  · have hsame {y : ℕ} (hy : OffHeaders a (pre ++ c :: post) y) :
        Heap.setFree m (a + extent blockSize pre) v y = m y := by
      have hc := (offHeaders_cons.mp (offHeaders_append.mp hy).2).1
      exact store_offHeader hc (by decide)
    exact Or.inr ⟨by rw [magic_congr (hsame hfirst) (hsame hsecond), hmagic], hfirst.flag, hsecond.flag⟩

/-- Merging a block into a free one keeps released headers, and the header between them becomes
one of those. -/
theorem Released.merge {x size : ℕ} (ht : Tiled a e (pre ++ b :: c :: post)) (hb : b.free = true)
    (h : Released m a (pre ++ b :: c :: post) x) :
    Released (mergeMem m (a + extent blockSize pre) (a + extent blockSize pre + blockSize + b.size) size
        (link e (a + extent blockSize pre + blockSize + b.size + blockSize + c.size)))
      a (pre ++ ⟨b.size + (blockSize + c.size), b.free⟩ :: post) x := by
  have hheader : blockSize = 32 := rfl
  have hmerged := mem_place_middle blockSize a pre ⟨b.size + (blockSize + c.size), b.free⟩ post
  rcases h with ⟨d, hd, hfree⟩ | ⟨hmagic, hfirst, hsecond⟩
  · simp only [place_append, place, List.mem_append, List.mem_cons, Prod.mk.injEq] at hd
    rcases hd with hd | ⟨rfl, rfl⟩ | ⟨rfl, rfl⟩ | hd
    · exact Or.inl ⟨d, by simp [hd], hfree⟩
    · exact Or.inl ⟨_, hmerged, hb⟩
    · -- the second of the two blocks loses its header
      refine Or.inr ⟨?_, offHeaders_of_payload hmerged (by omega) (by simp only; omega),
        offHeaders_of_payload hmerged (by omega) (by simp only; omega)⟩
      rw [mergeMem, loadBlock_relinkNext_below (by omega), loadBlock_setMagic_same]
      rfl
    · refine Or.inl ⟨d, ?_, hfree⟩
      simp only [place_append, place, List.mem_append, List.mem_cons]
      refine Or.inr (Or.inr ?_)
      simpa only [Nat.add_assoc] using hd
  · refine Or.inr ⟨?_, hfirst.join, hsecond.join⟩
    rw [magic_congr (mergeMem_offHeaders ht hfirst) (mergeMem_offHeaders ht hsecond), hmagic]

/-- The new free header that a cut writes before the links around it are repaired. -/
def writeFree (m : ByteMemory) (block prev size next : ℕ) : ByteMemory :=
  setPrev (setNext (setSize (Heap.setFree (Heap.setMagic m block blockValidMagic) block 1)
    block size) block next) block prev

/-- The memory after a free block of `rest` bytes is cut off behind the first `size` bytes. -/
def splitMem (m : ByteMemory) (block newBlock size rest next : ℕ) : ByteMemory :=
  setSize (setNext (relinkNext (writeFree m newBlock block rest next) next newBlock) block newBlock)
    block size

/-- Writing a free header touches nothing else. -/
theorem loadBlock_writeFree_apart {block prev size next x : ℕ}
    (h : Apart block blockSize x blockSize) :
    loadBlock (writeFree m block prev size next) x = loadBlock m x := by
  simp only [writeFree, loadBlock_setPrev_apart _ _ _ h, loadBlock_setNext_apart _ _ _ h,
    loadBlock_setSize_apart _ _ _ h, loadBlock_setFree_apart _ _ _ h,
    loadBlock_setMagic_apart _ _ _ h]

/-- The free header as it is read back. -/
theorem loadBlock_writeFree_same {block prev size next : ℕ} (hprev : prev < 2 ^ 64)
    (hsize : size < 2 ^ 64) (hnext : next < 2 ^ 64) :
    loadBlock (writeFree m block prev size next) block = ⟨blockValidMagic, 1, size, next, prev⟩ := by
  simp only [writeFree, loadBlock_setPrev_same, loadBlock_setNext_same, loadBlock_setSize_same,
    loadBlock_setFree_same, loadBlock_setMagic_same, Nat.mod_eq_of_lt hprev,
    Nat.mod_eq_of_lt hsize, Nat.mod_eq_of_lt hnext]
  rfl

/-- Cutting a block writes only the headers of the list and the new one. -/
theorem splitMem_offHeaders {y n rest : ℕ} (ht : Tiled a e (pre ++ c :: post))
    (hy : OffHeaders a (pre ++ c :: post) y)
    (hnew : y < a + extent blockSize pre + blockSize + n ∨
      a + extent blockSize pre + blockSize + n + blockSize ≤ y) :
    splitMem m (a + extent blockSize pre) (a + extent blockSize pre + blockSize + n) n rest
      (link e (a + extent blockSize pre + blockSize + c.size)) y = m y := by
  obtain ⟨-, hrest⟩ := offHeaders_append.mp hy
  obtain ⟨hc, hpost⟩ := offHeaders_cons.mp hrest
  have hend := ht.total
  simp only [extent_append, extent] at hend
  rw [splitMem, setSize, store_offHeader hc (by decide), setNext, store_offHeader hc (by decide),
    relinkNext_offHeaders (by omega) hpost, writeFree, setPrev, store_offHeader hnew (by decide),
    setNext, store_offHeader hnew (by decide), setSize, store_offHeader hnew (by decide),
    Heap.setFree, store_offHeader hnew (by decide), Heap.setMagic, ByteMemory.store_outside _ (by
      have hheader : blockSize = 32 := rfl
      omega)]

/-- Cutting a block leaves a shorter block and a free block in its place. -/
theorem Linked.split {n : ℕ} (ht : Tiled a e (pre ++ c :: post))
    (h : Linked m e p a (pre ++ c :: post)) (hn : n + blockSize ≤ c.size) :
    Linked (splitMem m (a + extent blockSize pre) (a + extent blockSize pre + blockSize + n) n
        (c.size - n - blockSize) (link e (a + extent blockSize pre + blockSize + c.size)))
      e p a (pre ++ ⟨n, c.free⟩ :: ⟨c.size - n - blockSize, true⟩ :: post) := by
  have hheader : blockSize = 32 := rfl
  have htotal := ht.total
  have hbound := ht.bound
  have hpos := ht.notNull
  simp only [extent_append, extent] at htotal
  obtain ⟨hpre, hc, hpost⟩ := (linked_append ..).mp h
  generalize hy : a + extent blockSize pre = y at *
  set z := y + blockSize + c.size with hz
  have hend : y + blockSize + n + blockSize + (c.size - n - blockSize) = z := by omega
  have hcut : link e (y + blockSize + n) = y + blockSize + n := if_neg (by omega)
  have hnext : link e z < 2 ^ 64 := by unfold link; split <;> omega
  refine (linked_append ..).mpr ⟨hpre.congr_outside fun x _ hx => ?_, ?_, ?_, ?_⟩
  · simp (disch := omega) only [splitMem, loadBlock_setSize_apart,
      loadBlock_setNext_apart, loadBlock_relinkNext_below, loadBlock_writeFree_apart]
  · rw [hy]
    simp (disch := omega) only [splitMem, loadBlock_setSize_same,
      loadBlock_setNext_same, loadBlock_relinkNext_below, loadBlock_writeFree_apart, hc, headerOf,
      hcut, Nat.mod_eq_of_lt]
  · rw [hy]
    simp (disch := omega) only [splitMem, loadBlock_setSize_apart,
      loadBlock_setNext_apart, loadBlock_relinkNext_below, loadBlock_writeFree_same, headerOf, hend,
      Bool.toNat_true]
  · rw [hy, hend]
    have hlinked : Linked (writeFree m (y + blockSize + n) y (c.size - n - blockSize) (link e z))
        e y z post := hpost.congr_outside fun x hx _ =>
      loadBlock_writeFree_apart (Or.inl (by omega))
    refine (hlinked.relinkNext (q := y + blockSize + n) (by omega) (by omega)
      (by omega)).congr_outside fun x hx _ => ?_
    simp (disch := omega) only [splitMem, loadBlock_setSize_apart,
      loadBlock_setNext_apart]

end Edits

end FfaAcs.Heap
