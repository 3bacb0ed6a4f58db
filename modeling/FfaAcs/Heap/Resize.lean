import FfaAcs.Heap.Layout

/-!
# What resizing leaves alone

From the outcomes of `val_realloc` on a cell in use: the resized block is in use and holds the old
data, and every other block in use stays where it is with the same bytes. Its size stays the same
too, with one exception. When the shrinking path does not cut the block, it merges from the block
behind it, and a block in use then absorbs the free block that follows it.
-/

namespace FfaAcs.Heap

open Machine Tiling Platform

section

variable {buf : HeapBuffer} {h h' : HeapState} {pre post : List Cell} {c : Cell} {n : ℕ}

/-- The shrinking path merges from a block in use that a free block follows. -/
def AbsorbsBehind (c : Cell) (post : List Cell) (n : ℕ) : Prop :=
  align n ≤ c.size ∧ c.size < align n + blockSize + alignment ∧
    ∃ d e rest, post = d :: e :: rest ∧ d.free = false ∧ e.free = true

/-- The cells of a list with one cell singled out. -/
theorem mem_place_split {a x : ℕ} {u : Cell} :
    (x, u) ∈ place blockSize a (pre ++ c :: post) ↔ (x, u) ∈ place blockSize a pre ∨
      (x = a + extent blockSize pre ∧ u = c) ∨
      (x, u) ∈ place blockSize (a + extent blockSize pre + blockSize + c.size) post := by
  simp only [place_append, place, List.mem_append, List.mem_cons, Prod.mk.injEq]

/-- The cells other than the one singled out. -/
theorem mem_place_of_ne {a x : ℕ} {u : Cell} (hx : (x, u) ∈ place blockSize a (pre ++ c :: post))
    (hne : x ≠ a + extent blockSize pre) :
    (x, u) ∈ place blockSize a pre ∨
      (x, u) ∈ place blockSize (a + extent blockSize pre + blockSize + c.size) post := by
  rcases mem_place_split.mp hx with hpre | ⟨heq, -⟩ | hpost
  exacts [Or.inl hpre, absurd heq hne, Or.inr hpost]

/-- A cell in use stays when a free cell is cut. -/
theorem mem_place_cut {a x s : ℕ} {u f : Cell} {flag : Bool} (hfree : f.free = true)
    (hused : u.free = false) (hx : (x, u) ∈ place blockSize a (pre ++ f :: post)) :
    (x, u) ∈ place blockSize a (pre ++ splitCells { f with free := flag } s ++ post) := by
  have hextent : extent blockSize (splitCells { f with free := flag } s) = blockSize + f.size :=
    extent_splitCells _ _
  rw [place_append, place_append, extent_append, hextent, List.mem_append, List.mem_append,
    ← Nat.add_assoc, ← Nat.add_assoc]
  rcases mem_place_split.mp hx with hpre | ⟨-, rfl⟩ | hpost
  · exact Or.inl (Or.inl hpre)
  · rw [hused] at hfree
    contradiction
  · exact Or.inr hpost

/-- Another block in use after a call: still there, not smaller, of the same size when `same` holds,
and with the same bytes. -/
structure Persists (buf : HeapBuffer) (h h' : HeapState) (ds : List Cell) (x : ℕ) (u : Cell)
    (same : Prop) : Prop where
  cell : ∃ u', (x, u') ∈ place blockSize buf.base ds ∧ u'.free = false ∧ u.size ≤ u'.size ∧
    (same → u' = u)
  bytes : ∀ y, x + blockSize ≤ y → y < x + blockSize + u.size → h'.mem y = h.mem y

/-- The heap after a resize of the cell `c` that returned `r`. -/
structure AfterResize (buf : HeapBuffer) (h h' : HeapState) (pre : List Cell) (c : Cell)
    (post : List Cell) (n r : ℕ) (ds : List Cell) : Prop where
  wellFormed : WellFormed buf h' ds
  block : ∃ x k, r = x + blockSize ∧ (x, ⟨k, false⟩) ∈ place blockSize buf.base ds ∧ align n ≤ k ∧
    (align n = 0 → k < blockSize + alignment)
  data : ∀ i, i < c.size → i < align n →
    h'.mem (r + i) = h.mem (buf.base + extent blockSize pre + blockSize + i)
  others : ∀ x u, (x, u) ∈ place blockSize buf.base (pre ++ c :: post) → u.free = false →
    x ≠ buf.base + extent blockSize pre → Persists buf h h' ds x u (¬AbsorbsBehind c post n)

/-- A cell in use that is still placed with at least its size keeps its bytes. -/
theorem persists_of_place {ds : List Cell} {x : ℕ} {u u' : Cell} {same : Prop}
    (hx : (x, u) ∈ place blockSize buf.base (pre ++ c :: post))
    (hx' : (x, u') ∈ place blockSize buf.base ds) (hused : u'.free = false) (hle : u.size ≤ u'.size)
    (hsame : same → u' = u)
    (hbytes : ∀ y, x + blockSize ≤ y → y < x + blockSize + u.size →
      OffHeaders buf.base (pre ++ c :: post) y → OffHeaders buf.base ds y → h'.mem y = h.mem y) :
    Persists buf h h' ds x u same :=
  ⟨⟨u', hx', hused, hle, hsame⟩, fun y hlow hhigh => hbytes y hlow hhigh
    (offHeaders_of_payload hx hlow hhigh) (offHeaders_of_payload hx' hlow (by omega))⟩

/-- Where another cell in use is after the shrinking path. -/
theorem exists_mem_place_shrunk {x : ℕ} {u c' d : Cell} {rest : List Cell}
    (hcells : splitCells c (align n) ++ post = c' :: d :: rest) (hfit : align n ≤ c.size)
    (hc : c.free = false) (hused : u.free = false)
    (hx : (x, u) ∈ place blockSize buf.base (pre ++ c :: post))
    (hne : x ≠ buf.base + extent blockSize pre) :
    ∃ u', (x, u') ∈ place blockSize buf.base (coalesceAt blockSize (pre ++ [c']) d rest) ∧
      u'.free = false ∧ u.size ≤ u'.size ∧ (¬AbsorbsBehind c post n → u' = u) := by
  have hbefore (hpre : (x, u) ∈ place blockSize buf.base pre) :
      (x, u) ∈ place blockSize buf.base (coalesceAt blockSize (pre ++ [c']) d rest) := by
    refine mem_place_coalesceAt hused (Or.inl ?_)
    rw [place_append]
    exact List.mem_append_left _ hpre
  have hothers := mem_place_of_ne hx hne
  unfold splitCells at hcells
  split at hcells
  case isTrue hroom =>
    simp only [List.cons_append, List.nil_append, List.cons.injEq] at hcells
    obtain ⟨rfl, rfl, rfl⟩ := hcells
    refine ⟨u, ?_, hused, le_rfl, fun _ => rfl⟩
    rcases hothers with hpre | hpost
    · exact hbefore hpre
    · refine mem_place_coalesceAt hused (Or.inr ?_)
      have hend : buf.base + extent blockSize (pre ++ [⟨align n, c.free⟩]) + blockSize +
          (c.size - align n - blockSize) = buf.base + extent blockSize pre + blockSize + c.size := by
        simp only [extent_append, extent]
        omega
      rw [hend]
      exact hpost
  case isFalse hroom =>
    obtain ⟨rfl, rfl⟩ := List.cons.inj hcells
    have hend : buf.base + extent blockSize (pre ++ [c]) =
        buf.base + extent blockSize pre + blockSize + c.size := by
      simp only [extent_append, extent]
      omega
    rcases hothers with hpre | hpost
    · exact ⟨u, hbefore hpre, hused, le_rfl, fun _ => rfl⟩
    · simp only [place, List.mem_cons, Prod.mk.injEq] at hpost
      rcases hpost with ⟨rfl, rfl⟩ | hrest
      · -- the merge starts at this block, and it grows when a free block follows it
        have hstop : (pre ++ [c]).rdropWhile (·.free) = pre ++ [c] :=
          List.rdropWhile_concat_neg _ _ _ (by simp [hc])
        have hempty : (pre ++ [c]).rtakeWhile (·.free) = [] :=
          List.rtakeWhile_concat_neg _ _ _ (by simp [hc])
        have habsorb : absorb blockSize (pre ++ [c]) u rest =
            ⟨u.size + extent blockSize (rest.takeWhile (·.free)), false⟩ := by
          simp [absorb, hempty, extent, hused]
        refine ⟨⟨u.size + extent blockSize (rest.takeWhile (·.free)), false⟩, ?_, rfl,
          Nat.le_add_right _ _, fun hkeep => ?_⟩
        · rw [coalesceAt, hstop, habsorb, ← hend]
          exact mem_place_middle _ _ _ _ _
        · have hnone : rest.takeWhile (·.free) = [] := by
            cases rest with
            | nil => rfl
            | cons e rest =>
              refine List.takeWhile_cons_of_neg fun hfree => hkeep ?_
              exact ⟨hfit, by omega, u, e, rest, rfl, hused, hfree⟩
          rw [hnone, ← hused]
          rfl
      · refine ⟨u, mem_place_coalesceAt hused (Or.inr ?_), hused, le_rfl, fun _ => rfl⟩
        rw [hend]
        exact hrest

/-- The shrinking path. -/
theorem afterResize_shrunk {c' d : Cell} {rest : List Cell} (hc : c.free = false)
    (hfit : align n ≤ c.size) (hcells : splitCells c (align n) ++ post = c' :: d :: rest)
    (hw' : WellFormed buf h' (coalesceAt blockSize (pre ++ [c']) d rest))
    (hsame : ∀ y, OffHeaders buf.base (pre ++ c :: post) y →
      OffHeaders buf.base (coalesceAt blockSize (pre ++ [c']) d rest) y → h'.mem y = h.mem y) :
    AfterResize buf h h' pre c post n (buf.base + extent blockSize pre + blockSize)
      (coalesceAt blockSize (pre ++ [c']) d rest) := by
  obtain ⟨k, hle, hlt, hcut⟩ : ∃ k, align n ≤ k ∧ k < align n + blockSize + alignment ∧
      c' = ⟨k, false⟩ := by
    unfold splitCells at hcells
    split at hcells
    case isTrue =>
      exact ⟨align n, le_rfl, by
        have hheader : blockSize = 32 := rfl
        omega, by rw [← (List.cons.inj hcells).1, hc]⟩
    case isFalse => exact ⟨c.size, hfit, by omega, by rw [← (List.cons.inj hcells).1, ← hc]⟩
  have hplaced : (buf.base + extent blockSize pre, ⟨k, false⟩) ∈
      place blockSize buf.base (coalesceAt blockSize (pre ++ [c']) d rest) := by
    refine mem_place_coalesceAt rfl (Or.inl ?_)
    rw [hcut]
    exact mem_place_middle _ _ _ _ _
  refine ⟨hw', ⟨_, k, rfl, hplaced, hle, fun hzero => by omega⟩, fun i hi hn => ?_,
    fun x u hx hused hne => ?_⟩
  · exact hsame _ (offHeaders_of_payload (mem_place_middle _ _ _ _ _) (by omega) (by omega))
      (offHeaders_of_payload hplaced (by omega) (by simp only; omega))
  · obtain ⟨u', hx', hused', hle', hkeep⟩ := exists_mem_place_shrunk hcells hfit hc hused hx hne
    exact persists_of_place hx hx' hused' hle' hkeep fun y _ _ => hsame y

/-- The growing path. -/
theorem afterResize_grown (hsize : c.size < align n)
    (hfit : align n ≤ (absorb blockSize pre c post).size)
    (hw' : WellFormed buf h' (growCells pre c post (align n)))
    (hdata : ∀ i, i < c.size →
      h'.mem (buf.base + extent blockSize (pre.rdropWhile (·.free)) + blockSize + i) =
        h.mem (buf.base + extent blockSize pre + blockSize + i))
    (hsame : ∀ y, OffHeaders buf.base (pre ++ c :: post) y →
      OffHeaders buf.base (growCells pre c post (align n)) y →
      (y < buf.base + extent blockSize (pre.rdropWhile (·.free)) + blockSize ∨
        buf.base + extent blockSize (pre.rdropWhile (·.free)) + blockSize + c.size ≤ y) →
      h'.mem y = h.mem y) :
    AfterResize buf h h' pre c post n
      (buf.base + extent blockSize (pre.rdropWhile (·.free)) + blockSize)
      (growCells pre c post (align n)) := by
  obtain ⟨k, rest, hk, -, -, hcut⟩ := splitCells_eq_cons (c := absorb blockSize pre c post) hfit
  have hplaced : (buf.base + extent blockSize (pre.rdropWhile (·.free)), ⟨k, false⟩) ∈
      place blockSize buf.base (growCells pre c post (align n)) := by
    rw [growCells, hcut false, List.append_assoc]
    exact mem_place_middle _ _ _ _ _
  have hdown := extent_rdropWhile_add blockSize pre
  refine ⟨hw', ⟨_, k, rfl, hplaced, hk, fun hzero => by omega⟩, fun i hi _ => hdata i hi,
    fun x u hx hused hne => ?_⟩
  have hothers := mem_place_of_ne hx hne
  have hx' : (x, u) ∈ place blockSize buf.base (growCells pre c post (align n)) :=
    mem_place_around (extent_splitCells _ _) hused hothers
  have hheader : blockSize = 32 := rfl
  -- the others lie before the cells that are merged or behind them
  have hapart : x ≠ buf.base + extent blockSize (pre.rdropWhile (·.free)) := by
    rcases hothers with hpre | hpost
    · have := (place_bounds (mem_place_rdropWhile hpre hused)).2
      omega
    · have := (place_bounds hpost).1
      omega
  have hdisjoint := place_apart hx' hplaced hapart
  refine persists_of_place hx hx' hused le_rfl (fun _ => rfl) fun y hlow hhigh hold hnew => ?_
  simp only at hdisjoint
  exact hsame y hold hnew (by omega)

/-- The moving path. -/
theorem afterResize_moved {pre₁ post₁ pre' post' : List Cell} {f : Cell} (hc : c.free = false)
    (hsize : c.size < align n) (hcs : pre ++ c :: post = pre₁ ++ f :: post₁) (hfree : f.free = true)
    (hfit : align n ≤ f.size)
    (hsplit : pre₁ ++ splitCells { f with free := false } (align n) ++ post₁ = pre' ++ c :: post')
    (hextent : extent blockSize pre' = extent blockSize pre)
    (hw' : WellFormed buf h' (coalesceAt blockSize pre' { c with free := true } post'))
    (hdata : ∀ i, i < c.size → h'.mem (buf.base + extent blockSize pre₁ + blockSize + i) =
      h.mem (buf.base + extent blockSize pre + blockSize + i))
    (hsame : ∀ y, OffHeaders buf.base (pre' ++ c :: post') y →
      (y < buf.base + extent blockSize pre₁ + blockSize ∨
        buf.base + extent blockSize pre₁ + blockSize + align n ≤ y) → h'.mem y = h.mem y) :
    AfterResize buf h h' pre c post n (buf.base + extent blockSize pre₁ + blockSize)
      (coalesceAt blockSize pre' { c with free := true } post') := by
  -- a cell in use of the middle list, other than the old block, survives the release
  have hrelease {x : ℕ} {u : Cell} (hused : u.free = false)
      (hx : (x, u) ∈ place blockSize buf.base (pre' ++ c :: post'))
      (hne : x ≠ buf.base + extent blockSize pre) :
      (x, u) ∈ place blockSize buf.base (coalesceAt blockSize pre' { c with free := true } post') := by
    rw [← hextent] at hne
    have hothers := mem_place_of_ne hx hne
    exact mem_place_coalesceAt hused hothers
  have hold := mem_place_middle blockSize buf.base pre c post
  have htaken : (buf.base + extent blockSize pre₁, f) ∈
      place blockSize buf.base (pre ++ c :: post) := by
    rw [hcs]
    exact mem_place_middle _ _ _ _ _
  have hne₁ : buf.base + extent blockSize pre₁ ≠ buf.base + extent blockSize pre := by
    intro heq
    rw [heq] at htaken
    rw [eq_of_mem_place (by decide) hold htaken, hfree] at hc
    contradiction
  obtain ⟨k, rest, hk, -, -, hcut⟩ := splitCells_eq_cons (c := f) hfit
  have hmid : (buf.base + extent blockSize pre₁, ⟨k, false⟩) ∈
      place blockSize buf.base (pre' ++ c :: post') := by
    rw [← hsplit, hcut false, List.append_assoc]
    exact mem_place_middle _ _ _ _ _
  refine ⟨hw', ⟨_, k, rfl, hrelease rfl hmid hne₁, hk, fun hzero => by omega⟩,
    fun i hi _ => hdata i hi, fun x u hx hused hne => ?_⟩
  have hx₁ : (x, u) ∈ place blockSize buf.base (pre' ++ c :: post') := by
    rw [← hsplit]
    exact mem_place_cut hfree hused (by rw [← hcs]; exact hx)
  have hapart : x ≠ buf.base + extent blockSize pre₁ := by
    intro heq
    rw [heq] at hx
    rw [eq_of_mem_place (by decide) hx htaken, hfree] at hused
    contradiction
  have hdisjoint := place_apart hx₁ hmid hapart
  refine ⟨⟨u, hrelease hused hx₁ hne, hused, le_rfl, fun _ => rfl⟩, fun y hlow hhigh => ?_⟩
  simp only at hdisjoint
  exact hsame y (offHeaders_of_payload hx₁ hlow hhigh) (by omega)

/-- A resize that returns NULL leaves the heap as it was. -/
theorem Resized.eq_of_null {r : ℕ} (hresized : Resized buf h pre c post n (.ok (r, h'))) (hr : r = 0) :
    h' = h := by
  have hbase := buf.notNull
  cases hresized with
  | shrunk => omega
  | grown => omega
  | full => rfl
  | moved => omega

/-- A resize returns NULL only for a size that the block does not have. -/
theorem Resized.lt_of_null {r : ℕ} (hresized : Resized buf h pre c post n (.ok (r, h'))) (hr : r = 0) :
    c.size < align n := by
  have hbase := buf.notNull
  cases hresized with
  | shrunk => omega
  | grown => omega
  | full hsize => exact hsize
  | moved => omega

/-- A resize that returns a pointer leaves a list with the resized block, the old data in it, and the
other blocks in use. -/
theorem Resized.afterResize {r : ℕ} (hc : c.free = false)
    (hresized : Resized buf h pre c post n (.ok (r, h'))) (hr : r ≠ 0) :
    ∃ ds, AfterResize buf h h' pre c post n r ds := by
  cases hresized with
  | shrunk hfit hcells hw' hsame => exact ⟨_, afterResize_shrunk hc hfit hcells hw' hsame⟩
  | grown hsize hfit hw' hdata hsame => exact ⟨_, afterResize_grown hsize hfit hw' hdata hsame⟩
  | full => exact absurd rfl hr
  | moved hsize hcs hfree hfit hsplit hextent hw' hdata hsame =>
    exact ⟨_, afterResize_moved hc hsize hcs hfree hfit hsplit hextent hw' hdata hsame⟩

end

end FfaAcs.Heap
