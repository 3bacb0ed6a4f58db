import FfaAcs.Heap.Coalesce

/-!
# The block list with gaps

A gap that is too short for a header and a tail that is not cut off belong to no block, so after
`val_aligned_alloc` the blocks need not tile the heap any more. Here a block is a `Node` with an
address of its own. `Chain m t p ns` says that the memory holds the headers of the nodes `ns`, with
`p` the block before the first one and `t` the block behind the last one, and `Laid hi lo ns` that
the nodes lie between `lo` and `hi` in this order, with or without gaps between them.

As for the tiled list there is one lemma for each edit, which carries `Chain` and `Laid` across it.
-/

namespace FfaAcs.Heap

open Machine

/-- A block of the list. -/
structure Node where
  addr : ℕ
  size : ℕ
  free : Bool
deriving DecidableEq, Repr

/-- The link to the first of the nodes, and `t` if there is none. -/
def nextLink (t : ℕ) : List Node → ℕ
  | [] => t
  | n :: _ => n.addr

/-- The link back to the last of the nodes, and `p` if there is none. -/
def backLink (p : ℕ) : List Node → ℕ
  | [] => p
  | n :: ns => backLink n.addr ns

/-- The memory holds the headers of the nodes. -/
def Chain (m : ByteMemory) (t : ℕ) : ℕ → List Node → Prop
  | _, [] => True
  | p, n :: ns => loadBlock m n.addr = ⟨blockValidMagic, n.free.toNat, n.size, nextLink t ns, p⟩ ∧
      Chain m t n.addr ns

/-- The nodes lie one behind the other, at multiples of eight. -/
def Laid (hi : ℕ) : ℕ → List Node → Prop
  | lo, [] => lo ≤ hi
  | lo, n :: ns => lo ≤ n.addr ∧ n.addr % alignment = 0 ∧ n.size % alignment = 0 ∧
      Laid hi (n.addr + blockSize + n.size) ns

/-- The nodes in use. -/
def inUse (ns : List Node) : List Node := ns.filter fun n => !n.free

section Basics

variable {m m' : ByteMemory} {t p lo hi : ℕ} {pre post ns xs ys : List Node} {n : Node}

/-- The link to a list goes to its first node. -/
@[simp] theorem nextLink_cons : nextLink t (n :: ns) = n.addr := rfl

/-- In a list that goes on, the link is to its first node or to where it goes on. -/
@[simp] theorem nextLink_append_cons : nextLink t (xs ++ n :: ys) = nextLink n.addr xs := by
  cases xs <;> rfl

/-- The link back from a list is to its last node, whatever is before. -/
@[simp] theorem backLink_append_cons : backLink p (xs ++ n :: ys) = backLink n.addr ys := by
  induction xs generalizing p with
  | nil => rfl
  | cons x xs ih => exact ih

/-- The nodes in use of two lists are those of the first and those of the second. -/
@[simp] theorem inUse_append : inUse (xs ++ ys) = inUse xs ++ inUse ys := List.filter_append _ _

/-- A free node is not in use. -/
theorem inUse_cons_free (hfree : n.free = true) : inUse (n :: ns) = inUse ns :=
  List.filter_cons_of_neg (by simp [hfree])

/-- The nodes in use are those that are not free. -/
theorem mem_inUse : n ∈ inUse ns ↔ n ∈ ns ∧ n.free = false := by
  simp [inUse]

/-- Nodes in front of a node, and the node with those behind it. -/
theorem laid_append_cons :
    Laid hi lo (xs ++ n :: ys) ↔ Laid n.addr lo xs ∧ Laid hi n.addr (n :: ys) := by
  induction xs generalizing lo with
  | nil => simp [Laid]
  | cons x xs ih => simp only [List.cons_append, Laid, ih, and_assoc]

/-- The bounds of nodes that are laid out are in order. -/
theorem Laid.le (h : Laid hi lo ns) : lo ≤ hi := by
  induction ns generalizing lo with
  | nil => exact h
  | cons n ns ih =>
    have hrest := ih h.2.2.2
    have hlow := h.1
    omega

/-- A wider range holds the same nodes. -/
theorem Laid.widen {lo' hi' : ℕ} (h : Laid hi lo ns) (hlo : lo' ≤ lo) (hhi : hi ≤ hi') :
    Laid hi' lo' ns := by
  induction ns generalizing lo lo' with
  | nil => exact hlo.trans (h.trans hhi)
  | cons n ns ih => exact ⟨hlo.trans h.1, h.2.1, h.2.2.1, ih h.2.2.2 le_rfl⟩

/-- Where a node lies. -/
theorem Laid.bounds (h : Laid hi lo ns) (hn : n ∈ ns) :
    lo ≤ n.addr ∧ n.addr + blockSize + n.size ≤ hi ∧ n.addr % alignment = 0 ∧
      n.size % alignment = 0 := by
  obtain ⟨pre, post, rfl⟩ := List.append_of_mem hn
  obtain ⟨hpre, -, haddr, hsize, hpost⟩ := laid_append_cons.mp h
  exact ⟨hpre.le, hpost.le, haddr, hsize⟩

/-- There is room for all headers. -/
theorem Laid.length_le (h : Laid hi lo ns) : lo + blockSize * ns.length ≤ hi := by
  induction ns generalizing lo with
  | nil => simpa [Laid] using h
  | cons n ns ih =>
    have hrest := ih h.2.2.2
    have hlow := h.1
    rw [List.length_cons, Nat.mul_succ]
    omega

/-- Other nodes lie before or behind a node. -/
theorem Laid.apart (h : Laid hi lo (pre ++ n :: post)) {d : Node} (hd : d ∈ pre ∨ d ∈ post) :
    d.addr + blockSize + d.size ≤ n.addr ∨ n.addr + blockSize + n.size ≤ d.addr := by
  obtain ⟨hpre, -, -, -, hpost⟩ := laid_append_cons.mp h
  rcases hd with hd | hd
  · exact Or.inl (hpre.bounds hd).2.1
  · exact Or.inr (hpost.bounds hd).1

/-- The payload of a node holds no header. -/
theorem Laid.payload_outside {d : Node} {y : ℕ} (h : Laid hi lo ns) (hn : n ∈ ns) (hd : d ∈ ns)
    (hlow : n.addr + blockSize ≤ y) (hhigh : y < n.addr + blockSize + n.size) :
    y < d.addr ∨ d.addr + blockSize ≤ y := by
  obtain ⟨pre, post, rfl⟩ := List.append_of_mem hn
  simp only [List.mem_append, List.mem_cons] at hd
  by_cases hself : d = n
  · exact Or.inr (hself ▸ hlow)
  · have hapart := h.apart (d := d) (by tauto)
    omega

/-- A chain can be taken apart at any node. -/
theorem chain_append :
    Chain m t p (xs ++ ys) ↔ Chain m (nextLink t ys) p xs ∧ Chain m t (backLink p xs) ys := by
  induction xs generalizing p with
  | nil => simp [Chain, backLink]
  | cons x xs ih =>
    have hlink : nextLink t (xs ++ ys) = nextLink (nextLink t ys) xs := by cases xs <;> rfl
    simp only [List.cons_append, Chain, ih, backLink, hlink, and_assoc]

/-- The header of a node, with the links that its position gives it. -/
theorem Chain.header (h : Chain m t p (pre ++ n :: post)) :
    loadBlock m n.addr =
      ⟨blockValidMagic, n.free.toNat, n.size, nextLink t post, backLink p pre⟩ :=
  (chain_append.mp h).2.1

/-- A chain depends only on its headers. -/
theorem Chain.congr (h : Chain m t p ns) (hsame : ∀ n ∈ ns, loadBlock m' n.addr = loadBlock m n.addr) :
    Chain m' t p ns := by
  induction ns generalizing p with
  | nil => trivial
  | cons n ns ih =>
    refine ⟨?_, ih h.2 fun d hd => hsame d (List.mem_cons_of_mem _ hd)⟩
    rw [hsame n List.mem_cons_self, h.1]

/-- A write below or above the range of the nodes keeps their chain. -/
theorem Chain.congr_outside (h : Chain m t p ns) (hl : Laid hi lo ns)
    (hsame : ∀ x, lo ≤ x → x + blockSize ≤ hi → loadBlock m' x = loadBlock m x) : Chain m' t p ns :=
  h.congr fun n hn => by
    have hbounds := hl.bounds hn
    exact hsame n.addr hbounds.1 (by omega)

/-- Rewriting one header, and no other, replaces its node. -/
theorem Chain.replace (d : Node) (h : Chain m t p (pre ++ n :: post))
    (hl : Laid hi lo (pre ++ n :: post)) (haddr : d.addr = n.addr)
    (hheader : loadBlock m' n.addr =
      ⟨blockValidMagic, d.free.toNat, d.size, nextLink t post, backLink p pre⟩)
    (hrest : ∀ x, Apart n.addr blockSize x blockSize → loadBlock m' x = loadBlock m x) :
    Chain m' t p (pre ++ d :: post) := by
  obtain ⟨hpre, -, hpost⟩ := chain_append.mp h
  obtain ⟨hlpre, -, -, -, hlpost⟩ := laid_append_cons.mp hl
  rw [nextLink] at hpre
  refine chain_append.mpr ⟨?_, ?_, ?_⟩
  · rw [nextLink, haddr]
    exact hpre.congr_outside hlpre fun x _ hx => hrest x (Or.inr hx)
  · rw [haddr, hheader]
  · rw [haddr]
    exact hpost.congr_outside hlpost fun x hx _ => hrest x (Or.inl (by omega))

/-- A shorter node lies in the same place. -/
theorem Laid.shrink (d : Node) (h : Laid hi lo (pre ++ n :: post)) (haddr : d.addr = n.addr)
    (hsize : d.size ≤ n.size) (haligned : d.size % alignment = 0) :
    Laid hi lo (pre ++ d :: post) := by
  obtain ⟨hpre, -, hmod, -, hpost⟩ := laid_append_cons.mp h
  refine laid_append_cons.mpr ⟨haddr ▸ hpre, le_rfl, haddr ▸ hmod, haligned, ?_⟩
  exact hpost.widen (by omega) le_rfl

end Basics

/-! ## Edits of the list -/

section Edits

variable {m : ByteMemory} {p lo hi y : ℕ} {pre post : List Node} {b c : Node}

/-- The link to the nodes of a range as a link of a tiled list. -/
theorem exists_link (h : Laid hi lo post) : ∃ e z, nextLink 0 post = link e z ∧ lo ≤ z := by
  cases post with
  | nil => exact ⟨lo, lo, by simp [nextLink, link], le_rfl⟩
  | cons d post => exact ⟨d.addr + 1, d.addr, by simp [nextLink, link], h.1⟩

/-- The links of nodes that are laid out are words. -/
theorem nextLink_lt (h : Laid hi lo post) (hhi : hi < 2 ^ 64) : nextLink 0 post < 2 ^ 64 := by
  cases post with
  | nil => exact Nat.two_pow_pos 64
  | cons d post =>
    have hrest := h.2.2.2.le
    rw [nextLink]
    omega

/-- Relinking does not touch the headers below the nodes. -/
theorem loadBlock_relink_below {q x : ℕ} (h : Laid hi lo post) (hx : x + blockSize ≤ lo) :
    loadBlock (relinkNext m (nextLink 0 post) q) x = loadBlock m x := by
  obtain ⟨e, z, hlink, hz⟩ := exists_link h
  rw [hlink]
  exact loadBlock_relinkNext_below (hx.trans hz)

/-- Relinking attaches the nodes to the block `q`. -/
theorem Chain.relink {q : ℕ} (h : Chain m 0 p post) (hl : Laid hi lo post) (hpos : 0 < lo)
    (hq : q < 2 ^ 64) : Chain (relinkNext m (nextLink 0 post) q) 0 q post := by
  cases post with
  | nil => trivial
  | cons d post =>
    have hd := hl.1
    rw [nextLink, relinkNext, if_pos (by omega)]
    refine ⟨?_, h.2.congr_outside hl.2.2.2 fun x hx _ => loadBlock_setPrev_apart _ _ _ (Or.inl ?_)⟩
    · rw [loadBlock_setPrev_same, h.1, Nat.mod_eq_of_lt hq]
    · omega

/-- Relinking writes only the header of the first node. -/
theorem relinkNext_outside {q : ℕ} (hy : ∀ d ∈ post, y < d.addr ∨ d.addr + blockSize ≤ y) :
    relinkNext m (nextLink 0 post) q y = m y := by
  cases post with
  | nil => rfl
  | cons d post =>
    rw [nextLink, relinkNext]
    split
    · exact store_offHeader (hy d List.mem_cons_self) (by decide)
    · rfl

/-- Merging two neighbouring nodes, which drops the gap between them. -/
theorem Chain.merge (h : Chain m 0 p (pre ++ b :: c :: post)) (hl : Laid hi lo (pre ++ b :: c :: post))
    (hpos : 0 < lo) (hhi : hi < 2 ^ 64) :
    Chain (mergeMem m b.addr c.addr (b.size + (blockSize + c.size)) (nextLink 0 post)) 0 p
      (pre ++ ⟨b.addr, b.size + (blockSize + c.size), b.free⟩ :: post) := by
  have hheader : blockSize = 32 := rfl
  obtain ⟨hpre, hb, -, hpost⟩ := chain_append.mp h
  obtain ⟨hlpre, -, -, -, hbc, -, -, hlpost⟩ := laid_append_cons.mp hl
  have hlow := hlpre.le
  have hend := hlpost.le
  have hnext := nextLink_lt hlpost hhi
  rw [nextLink] at hpre
  refine chain_append.mpr ⟨hpre.congr_outside hlpre fun x _ hx => ?_, ?_, ?_⟩
  · rw [mergeMem, loadBlock_relink_below hlpost (by omega)]
    simp (disch := omega) only [loadBlock_setMagic_apart, loadBlock_setNext_apart,
      loadBlock_setSize_apart]
  · rw [mergeMem, loadBlock_relink_below hlpost (by simp only; omega)]
    simp (disch := omega) only [loadBlock_setMagic_apart, loadBlock_setNext_same,
      loadBlock_setSize_same, hb, Nat.mod_eq_of_lt]
  · refine Chain.relink (hpost.congr_outside hlpost fun x hx _ => ?_) hlpost (by omega) (by omega)
    simp (disch := omega) only [loadBlock_setMagic_apart, loadBlock_setNext_apart,
      loadBlock_setSize_apart]

/-- The merged node takes the place of the two. -/
theorem Laid.merge (hl : Laid hi lo (pre ++ b :: c :: post)) :
    Laid hi lo (pre ++ ⟨b.addr, b.size + (blockSize + c.size), b.free⟩ :: post) := by
  have hheader : blockSize = 32 := rfl
  have halign : alignment = 8 := rfl
  obtain ⟨hpre, -, hmod, hb, hbc, -, hc, hpost⟩ := laid_append_cons.mp hl
  rw [halign] at hb hc
  refine laid_append_cons.mpr ⟨hpre, le_rfl, hmod, ?_, ?_⟩
  · simp only [halign]
    omega
  · exact hpost.widen (by simp only; omega) le_rfl

/-- Cutting a node leaves a shorter one and a free one in its place. -/
theorem Chain.split {k : ℕ} (h : Chain m 0 p (pre ++ c :: post)) (hl : Laid hi lo (pre ++ c :: post))
    (hpos : 0 < lo) (hhi : hi < 2 ^ 64) (hk : k + blockSize ≤ c.size) :
    Chain (splitMem m c.addr (c.addr + blockSize + k) k (c.size - k - blockSize) (nextLink 0 post)) 0 p
      (pre ++ ⟨c.addr, k, c.free⟩ ::
        ⟨c.addr + blockSize + k, c.size - k - blockSize, true⟩ :: post) := by
  have hheader : blockSize = 32 := rfl
  obtain ⟨hpre, hc, hpost⟩ := chain_append.mp h
  obtain ⟨hlpre, -, -, -, hlpost⟩ := laid_append_cons.mp hl
  have hlow := hlpre.le
  have hend := hlpost.le
  have hnext := nextLink_lt hlpost hhi
  rw [nextLink] at hpre
  have hbelow {m' : ByteMemory} {q x : ℕ} (hx : x + blockSize ≤ c.addr + blockSize + c.size) :
      loadBlock (relinkNext m' (nextLink 0 post) q) x = loadBlock m' x :=
    loadBlock_relink_below hlpost hx
  refine chain_append.mpr ⟨hpre.congr_outside hlpre fun x _ hx => ?_, ?_, ?_, ?_⟩
  · simp (disch := omega) only [splitMem, loadBlock_setSize_apart, loadBlock_setNext_apart, hbelow,
      loadBlock_writeFree_apart]
  · simp (disch := omega) only [splitMem, loadBlock_setSize_same, loadBlock_setNext_same, hbelow,
      loadBlock_writeFree_apart, hc, nextLink_cons, Nat.mod_eq_of_lt]
  · simp (disch := omega) only [splitMem, loadBlock_setSize_apart, loadBlock_setNext_apart, hbelow,
      loadBlock_writeFree_same, Bool.toNat_true]
  · have hwritten : Chain (writeFree m (c.addr + blockSize + k) c.addr (c.size - k - blockSize)
        (nextLink 0 post)) 0 c.addr post :=
      hpost.congr_outside hlpost fun x hx _ => loadBlock_writeFree_apart (Or.inl (by omega))
    have hrelinked := hwritten.relink (q := c.addr + blockSize + k) hlpost (by omega) (by omega)
    refine hrelinked.congr_outside hlpost fun x hx _ => ?_
    simp (disch := omega) only [splitMem, loadBlock_setSize_apart, loadBlock_setNext_apart]

/-- The two nodes of a cut lie where the node was. -/
theorem Laid.split {k : ℕ} {flag flag' : Bool} (hl : Laid hi lo (pre ++ c :: post))
    (hk : k + blockSize ≤ c.size) (haligned : k % alignment = 0) :
    Laid hi lo (pre ++ ⟨c.addr, k, flag⟩ ::
      ⟨c.addr + blockSize + k, c.size - k - blockSize, flag'⟩ :: post) := by
  have hheader : blockSize = 32 := rfl
  have halign : alignment = 8 := rfl
  obtain ⟨hpre, -, hmod, hc, hpost⟩ := laid_append_cons.mp hl
  rw [halign] at hmod hc haligned
  refine laid_append_cons.mpr ⟨hpre, le_rfl, ?_, ?_, le_rfl, ?_, ?_, ?_⟩
  · rw [halign]
    exact hmod
  · rw [halign]
    exact haligned
  · simp only [halign]
    omega
  · simp only [halign]
    omega
  · exact hpost.widen (by simp only; omega) le_rfl

/-- A cut writes only the two headers and the one behind them. -/
theorem splitMem_outside {block k size : ℕ} (hblock : y < block ∨ block + blockSize ≤ y)
    (hnew : y < block + blockSize + k ∨ block + blockSize + k + blockSize ≤ y)
    (hpost : ∀ d ∈ post, y < d.addr ∨ d.addr + blockSize ≤ y) :
    splitMem m block (block + blockSize + k) k size (nextLink 0 post) y = m y := by
  have hheader : blockSize = 32 := rfl
  rw [splitMem, setSize, store_offHeader hblock (by decide), setNext,
    store_offHeader hblock (by decide), relinkNext_outside hpost, writeFree, setPrev,
    store_offHeader hnew (by decide), setNext, store_offHeader hnew (by decide), setSize,
    store_offHeader hnew (by decide), setFree, store_offHeader hnew (by decide), setMagic,
    ByteMemory.store_outside _ (by omega)]

end Edits

end FfaAcs.Heap
