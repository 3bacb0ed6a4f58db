import FfaAcs.Heap.Operations

/-!
# Resizing a block

`val_realloc` shrinks in place, grows into free neighbours, or moves. The shrinking path merges
from the block behind the resized one, whether that block is free or in use, and it reads that
block without a test, so it faults when a block that is not cut is the last of the list.
-/

namespace FfaAcs.Heap

open Machine Tiling Platform

section

variable {buf : HeapBuffer} {h : HeapState} {pre post : List Cell} {c d : Cell} {n : ℕ}

/-- The three paths of `val_realloc`, once its arguments are a block in use and a size. -/
theorem valRealloc_eq (hw : WellFormed buf h (pre ++ c :: post)) (hpos : 0 < n) :
    valRealloc buf h (buf.base + extent blockSize pre + blockSize) n =
      if align n ≤ c.size then reallocShrink h (buf.base + extent blockSize pre) (align n)
      else if neighbourFits h.mem (buf.base + extent blockSize pre)
            (link buf.limit (buf.base + extent blockSize pre + blockSize + c.size)) (align n) ∨
          neighbourFits h.mem (buf.base + extent blockSize pre)
            (lastAddr blockSize 0 buf.base pre) (align n) then
        reallocGrow h (buf.base + extent blockSize pre) (align n)
      else reallocMove buf h (buf.base + extent blockSize pre) (align n) := by
  have haddr := hw.addr_lt
  have hbase := buf.notNull
  have hblock : sub64 (buf.base + extent blockSize pre + blockSize) blockSize =
      buf.base + extent blockSize pre := by
    rw [sub64_of_le (by omega) (by omega), Nat.add_sub_cancel]
  rw [valRealloc, if_neg (by omega), if_neg hpos.ne']
  simp only [hblock, hw.linked.header, headerOf, ne_eq, not_true_eq_false, if_false]

/-! ## Shrinking in place -/

/-- Merging from the block behind a block in use, and storing the result in its link. -/
theorem coalesceNext_linked {m : ByteMemory} {e a : ℕ} (ht : Tiled a e (pre ++ c :: d :: post))
    (h : Linked m e 0 a (pre ++ c :: d :: post)) (hused : c.free = false) :
    ∃ m' next, valCoalesce m (loadBlock m (a + extent blockSize pre)).next = .ok (m', next) ∧
      Linked (setNext m' (a + extent blockSize pre) next) e 0 a
        (coalesceAt blockSize (pre ++ [c]) d post) ∧
      ∀ y, OffHeaders a (pre ++ c :: d :: post) y →
        setNext m' (a + extent blockSize pre) next y = m y := by
  have hlist : pre ++ c :: d :: post = (pre ++ [c]) ++ d :: post := by simp
  have hnext : (loadBlock m (a + extent blockSize pre)).next = a + extent blockSize (pre ++ [c]) := by
    rw [h.header, headerOf, link_of_cons ht]
    simp only [extent_append, extent]
    omega
  have hstop : (pre ++ [c]).rdropWhile (·.free) = pre ++ [c] :=
    List.rdropWhile_concat_neg _ _ _ (by simp [hused])
  rw [hlist] at ht h
  obtain ⟨m', hrun, h', hsame, -⟩ := valCoalesce_linked ht h
  have ht' := ht.of_extent_eq (extent_coalesceAt (pre ++ [c]) d post)
  rw [hstop] at hrun
  simp only [coalesceAt, hstop] at h' ht' ⊢
  rw [List.append_assoc, List.singleton_append] at h' ht' ⊢
  refine ⟨m', _, by rw [hnext, hrun], ?_, fun y hy => ?_⟩
  swap
  · have hc := (offHeaders_cons.mp (offHeaders_append.mp hy).2).1
    rw [setNext, store_offHeader hc (by decide), hsame y (by simpa using hy)]
  -- the stored link is the one that is already there
  have hbound := ht'.bound
  have htotal := ht'.total
  have hlink := link_of_cons ht'
  simp only [extent_append, extent] at htotal
  refine h'.replace c rfl ?_ fun x hx => loadBlock_setNext_apart _ _ _ hx
  rw [loadBlock_setNext_same, h'.header, headerOf, hlink]
  simp only [extent_append, extent, Block.mk.injEq, true_and, and_true]
  rw [Nat.mod_eq_of_lt (by omega)]
  omega

/-- The cells behind the two that the shrinking path looks at come from the old list. -/
theorem coalesced_behind {s : ℕ} {c' : Cell} {rest : List Cell} (h : Coalesced (pre ++ c :: post))
    (hcells : splitCells c s ++ post = c' :: d :: rest) : Coalesced rest := by
  have hjoined : Coalesced ((pre ++ [c]) ++ post) := by simpa using h
  have hpost : Coalesced post := hjoined.right
  unfold splitCells at hcells
  split at hcells
  · simp only [List.cons_append, List.nil_append, List.cons.injEq] at hcells
    exact hcells.2.2 ▸ hpost
  · simp only [List.cons_append, List.nil_append, List.cons.injEq] at hcells
    rw [hcells.2] at hpost
    exact hpost.tail

/-- The headers between the cut and the merge are headers of the old list or of the new one. -/
theorem offHeaders_cut {a s y : ℕ} {c' : Cell} {rest : List Cell}
    (hused : c.free = false) (hcells : splitCells c s ++ post = c' :: d :: rest)
    (hold : OffHeaders a (pre ++ c :: post) y)
    (hnew : OffHeaders a (coalesceAt blockSize (pre ++ [c']) d rest) y) :
    OffHeaders a (pre ++ c' :: d :: rest) y := by
  unfold splitCells at hcells
  split at hcells
  case isFalse =>
    obtain ⟨rfl, rfl⟩ := List.cons.inj hcells
    exact hold
  case isTrue hroom =>
    simp only [List.cons_append, List.nil_append, List.cons.injEq] at hcells
    obtain ⟨rfl, rfl, rfl⟩ := hcells
    have hstop : (pre ++ [(⟨s, c.free⟩ : Cell)]).rdropWhile (·.free) = pre ++ [⟨s, c.free⟩] :=
      List.rdropWhile_concat_neg _ _ _ (by simp [hused])
    rw [coalesceAt, hstop] at hnew
    simp only [offHeaders_append, offHeaders_cons, extent_append, extent] at hold hnew ⊢
    obtain ⟨hpre, hc, hpost⟩ := hold
    obtain ⟨-, hd, -⟩ := hnew
    have hend : a + extent blockSize pre + blockSize + s + blockSize + (c.size - s - blockSize) =
        a + extent blockSize pre + blockSize + c.size := by omega
    refine ⟨hpre, hc, by simpa only [Nat.add_assoc, Nat.add_zero] using hd, ?_⟩
    rw [hend]
    exact hpost

/-- Shrinking cuts the block and merges from the cell behind it, and writes only headers. -/
theorem reallocShrink_wellFormed {s : ℕ} {c' : Cell} {rest : List Cell}
    (hw : WellFormed buf h (pre ++ c :: post)) (hused : c.free = false) (hfit : s ≤ c.size)
    (haligned : s % alignment = 0) (hcells : splitCells c s ++ post = c' :: d :: rest) :
    ∃ h', reallocShrink h (buf.base + extent blockSize pre) s =
        .ok (buf.base + extent blockSize pre + blockSize, h') ∧
      WellFormed buf h' (coalesceAt blockSize (pre ++ [c']) d rest) ∧
      ∀ y, OffHeaders buf.base (pre ++ c :: post) y →
        OffHeaders buf.base (coalesceAt blockSize (pre ++ [c']) d rest) y → h'.mem y = h.mem y := by
  have hlist : pre ++ splitCells c s ++ post = pre ++ c' :: d :: rest := by
    rw [List.append_assoc, hcells]
  have hextent : extent blockSize (pre ++ c' :: d :: rest) =
      extent blockSize (pre ++ c :: post) := by
    rw [← hlist]
    simp only [extent_append, extent_splitCells, extent]
    omega
  have hflag : c'.free = false := by
    obtain ⟨k, tail, -, -, -, hk⟩ := splitCells_eq_cons hfit
    rw [hk c.free, List.cons_append, hused] at hcells
    exact (List.cons.inj hcells).1 ▸ rfl
  have hsizes : ∀ d' ∈ (pre ++ [c']) ++ d :: rest, d'.size % alignment = 0 := by
    have htake := aligned_take hw.aligned haligned
    simp only [← hused] at htake
    rw [hlist] at htake
    simpa using htake
  have hlinked := valSplit_linked hfit hw.tiled hw.linked
  rw [hlist] at hlinked
  obtain ⟨m', next, hrun, h', hsame⟩ :=
    coalesceNext_linked (hw.tiled.of_extent_eq hextent) hlinked hflag
  refine ⟨{ h with mem := _ }, ?_, hw.edit ?_ (aligned_coalesceAt hsizes) ?_ h', fun y hold hnew => ?_⟩
  · rw [reallocShrink, hrun]
    rfl
  · rw [extent_coalesceAt, ← hextent]
    simp
  · have hall := hw.coalesced
    have hleft : Coalesced (pre ++ [c']) :=
      coalesced_join hall.left List.isChain_nil (fun d' _ hboth => by simp [hflag] at hboth) (by simp)
    exact coalesced_around _ hleft (coalesced_behind hall hcells)
  · have hcut := offHeaders_cut hused hcells hold hnew
    change setNext m' (buf.base + extent blockSize pre) next y = h.mem y
    rw [hsame y hcut, valSplit_offHeaders hfit hw.tiled hw.linked (by rw [hlist]; exact hcut)]

/-- A block that is not cut and has no block behind it makes the shrinking path fault. -/
theorem reallocShrink_last {s : ℕ} (hw : WellFormed buf h (pre ++ [c])) (hfit : s ≤ c.size)
    (hroom : c.size < s + blockSize + alignment) :
    reallocShrink h (buf.base + extent blockSize pre) s = .error .nullDeref := by
  have hlinked := valSplit_linked hfit hw.tiled hw.linked
  rw [splitCells, if_neg (by omega), List.append_nil] at hlinked
  rw [reallocShrink, hlinked.header, headerOf, (link_eq_zero_iff hw.tiled).mpr rfl]
  rfl

/-- Cutting and merging behind a block leaves the same payloads in use. -/
theorem used_coalesceNext {a : ℕ} (hused : c.free = false) :
    used blockSize a (coalesceAt blockSize (pre ++ [c]) d post) =
      used blockSize a (pre ++ c :: d :: post) := by
  have hstop : (pre ++ [c]).rdropWhile (·.free) = pre ++ [c] :=
    List.rdropWhile_concat_neg _ _ _ (by simp [hused])
  have hempty : (pre ++ [c]).rtakeWhile (·.free) = [] :=
    List.rtakeWhile_concat_neg _ _ _ (by simp [hused])
  have hflag : (absorb blockSize (pre ++ [c]) d post).free = d.free := by simp [absorb, hempty]
  rw [used_coalesceAt, hflag, hstop]
  have hlist : pre ++ c :: d :: post = (pre ++ [c]) ++ d :: post := by simp
  rw [hlist, used_append a (pre ++ [c])]
  cases hd : d.free <;> simp [used, hd]

/-! ## Growing into the neighbours -/

/-- The test for a free neighbour passes only when the merged cell is large enough. -/
theorem le_absorb_of_neighbourFits {s : ℕ} (hw : WellFormed buf h (pre ++ c :: post))
    (hfits : neighbourFits h.mem (buf.base + extent blockSize pre)
        (link buf.limit (buf.base + extent blockSize pre + blockSize + c.size)) s ∨
      neighbourFits h.mem (buf.base + extent blockSize pre)
        (lastAddr blockSize 0 buf.base pre) s) :
    s ≤ (absorb blockSize pre c post).size := by
  have hsize : (loadBlock h.mem (buf.base + extent blockSize pre)).size = c.size := by
    rw [hw.linked.header, headerOf]
  have hwrap (x : ℕ) : wrap64 x ≤ x := Nat.mod_le _ _
  simp only [neighbourFits, ne_eq, decide_eq_true_eq, hsize] at hfits
  rcases hfits with ⟨hlink, hfree, hfits⟩ | ⟨hlink, hfree, hfits⟩
  · cases post with
    | nil => exact absurd ((link_eq_zero_iff hw.tiled).mpr rfl) hlink
    | cons d post =>
      have hd : loadBlock h.mem (buf.base + extent blockSize pre + blockSize + c.size) =
        headerOf _ _ _ d := ((linked_append ..).mp hw.linked).2.2.1
      rw [link_of_cons hw.tiled, hd] at hfree hfits
      simp only [headerOf, Bool.toNat_eq_zero, Bool.not_eq_false] at hfree hfits
      have hle := hfits.trans (hwrap _)
      simp only [absorb, List.takeWhile_cons_of_pos hfree, extent]
      omega
  · cases pre using List.reverseRecOn with
    | nil => exact absurd rfl hlink
    | append_singleton pre b =>
      have hb : loadBlock h.mem (buf.base + extent blockSize pre) = headerOf _ _ _ b :=
        Linked.header (by simpa using hw.linked)
      simp only [lastAddr_append, lastAddr, hb, headerOf, Bool.toNat_eq_zero,
        Bool.not_eq_false] at hfree hfits
      have hle := hfits.trans (hwrap _)
      simp only [absorb, List.rtakeWhile_concat_pos _ _ _ hfree, extent_append, extent]
      omega

/-- The cells after growing: the requested bytes are taken from the start of the merged cell. -/
def growCells (pre : List Cell) (c : Cell) (post : List Cell) (s : ℕ) : List Cell :=
  pre.rdropWhile (·.free) ++ splitCells ⟨(absorb blockSize pre c post).size, false⟩ s ++
    post.dropWhile (·.free)

/-- Growing takes the requested bytes from the start of the merged cell and moves the data there. -/
theorem reallocGrow_wellFormed {s : ℕ} (hw : WellFormed buf h (pre ++ c :: post))
    (hfit : s ≤ (absorb blockSize pre c post).size) (hgrow : c.size ≤ s)
    (haligned : s % alignment = 0) :
    ∃ h', reallocGrow h (buf.base + extent blockSize pre) s =
        .ok (buf.base + extent blockSize (pre.rdropWhile (·.free)) + blockSize, h') ∧
      WellFormed buf h' (growCells pre c post s) ∧
      (∀ i, i < c.size → h'.mem (buf.base + extent blockSize (pre.rdropWhile (·.free)) + blockSize + i) =
        h.mem (buf.base + extent blockSize pre + blockSize + i)) ∧
      ∀ y, OffHeaders buf.base (pre ++ c :: post) y → OffHeaders buf.base (growCells pre c post s) y →
        (y < buf.base + extent blockSize (pre.rdropWhile (·.free)) + blockSize ∨
          buf.base + extent blockSize (pre.rdropWhile (·.free)) + blockSize + c.size ≤ y) →
        h'.mem y = h.mem y := by
  have hheader : blockSize = 32 := rfl
  have hsize : (loadBlock h.mem (buf.base + extent blockSize pre)).size = c.size := by
    rw [hw.linked.header, headerOf]
  obtain ⟨m, hrun, hlinked, hsame, -⟩ := valCoalesce_linked hw.tiled hw.linked
  have hextent : extent blockSize (coalesceAt blockSize pre c post) =
      extent blockSize (pre ++ c :: post) := extent_coalesceAt pre c post
  have htiled := hw.tiled.of_extent_eq hextent
  have hcells := aligned_coalesceAt hw.aligned
  have hdown := extent_rdropWhile_add blockSize pre
  rw [coalesceAt] at hlinked htiled hextent hcells
  obtain ⟨x, hx⟩ : ∃ x, x = buf.base + extent blockSize (pre.rdropWhile (·.free)) := ⟨_, rfl⟩
  obtain ⟨z, hz⟩ : ∃ z, z = buf.base + extent blockSize pre := ⟨_, rfl⟩
  -- the data moves inside the merged payload
  obtain ⟨m₁, hm₁⟩ : ∃ m₁, m₁ = if x + blockSize ≠ z + blockSize then
    valMemmove m (x + blockSize) (z + blockSize) c.size else m := ⟨_, rfl⟩
  have hout (y : ℕ) (hy : y < x + blockSize ∨ x + blockSize + c.size ≤ y) : m₁ y = m y := by
    rw [hm₁]
    split
    · exact valMemmove_outside m hy
    · rfl
  have hdata (i : ℕ) (hi : i < c.size) : m₁ (x + blockSize + i) = m (z + blockSize + i) := by
    rw [hm₁]
    split
    · exact valMemmove_inside m hi
    · rw [show x = z by omega]
  have hmoved : Linked m₁ buf.limit 0 buf.base (pre.rdropWhile (·.free) ++
      absorb blockSize pre c post :: post.dropWhile (·.free)) := by
    have hle : c.size ≤ (absorb blockSize pre c post).size := by
      simp only [absorb]
      omega
    exact hlinked.payload fun y hy => hout y (by omega)
  -- the cut and the flag only touch headers of the new list
  have hmarked (y : ℕ) (hy : OffHeaders buf.base (growCells pre c post s) y) :
      setFree (valSplit m₁ x s) x 0 y = m₁ y := by
    obtain ⟨k, rest, -, -, -, hk⟩ := splitCells_eq_cons (c := absorb blockSize pre c post) hfit
    have hcut : OffHeaders buf.base (pre.rdropWhile (·.free) ++
        splitCells (absorb blockSize pre c post) s ++ post.dropWhile (·.free)) y := by
      have hflag := hk (absorb blockSize pre c post).free
      rw [growCells, hk false, List.append_assoc] at hy
      rw [hflag, List.append_assoc]
      exact hy.flag
    have hfirst := (offHeaders_cons.mp (offHeaders_append.mp hcut.uncut).2).1
    rw [← hx] at hfirst
    rw [setFree, store_offHeader hfirst (by decide), hx, valSplit_offHeaders hfit htiled hmoved hcut]
  have hmerged := coalesced_coalesceAt hw.coalesced ⟨(absorb blockSize pre c post).size, true⟩
  have hcoalesced := coalesced_take (n := s) hmerged rfl
  have hlast := (valSplit_linked hfit htiled hmoved).markUsed hfit
  rw [← hx] at hlast
  refine ⟨{ h with mem := setFree (valSplit m₁ x s) x 0 }, ?_, hw.edit ?_
    (aligned_take hcells haligned) hcoalesced hlast, fun i hi => ?_, fun y hold hnew hy => ?_⟩
  · rw [reallocGrow, hrun, hsize, hm₁, hx, hz]
    rfl
  · rw [← hextent]
    simp only [growCells, extent_append, extent_splitCells, extent]
    omega
  · obtain ⟨k, rest, hk, -, -, hcut⟩ := splitCells_eq_cons (c := absorb blockSize pre c post) hfit
    have hplaced : (x, ⟨k, false⟩) ∈ place blockSize buf.base (growCells pre c post s) := by
      rw [growCells, hcut false, List.append_assoc, hx]
      exact mem_place_middle _ _ _ _ _
    change setFree (valSplit m₁ x s) x 0 _ = _
    rw [← hx, ← hz, hmarked _ (offHeaders_of_payload hplaced (by omega) (by simp only; omega)),
      hdata i hi, hsame]
    rw [hz]
    exact offHeaders_of_payload (mem_place_middle _ _ _ _ _) (by omega) (by omega)
  · change setFree (valSplit m₁ x s) x 0 y = h.mem y
    rw [hmarked y hnew, hout y (by rw [hx]; exact hy), hsame y hold]

/-- Growing replaces the payload of the block by that of the merged one. -/
theorem used_grow {a s : ℕ} (hfit : s ≤ (absorb blockSize pre c post).size) :
    used blockSize a (growCells pre c post s) =
      used blockSize a pre ++ (a + extent blockSize (pre.rdropWhile (·.free)) + blockSize) ::
        used blockSize (a + extent blockSize pre + blockSize + c.size) post := by
  have hpre := extent_rdropWhile_add blockSize pre
  have hend : a + extent blockSize (pre.rdropWhile (·.free)) + blockSize +
      (absorb blockSize pre c post).size =
      a + extent blockSize pre + blockSize + c.size + extent blockSize (post.takeWhile (·.free)) := by
    simp only [absorb]
    omega
  rw [growCells, used_take hfit, used_rdropWhile, hend, used_dropWhile]

/-! ## Moving to a new block -/

/-- Allocation leaves a block in use where it is. -/
theorem exists_split_of_take {s : ℕ} {pre₁ post₁ : List Cell} {f : Cell}
    (hcs : pre ++ c :: post = pre₁ ++ f :: post₁) (hused : c.free = false) (hfree : f.free = true) :
    ∃ pre' post', pre₁ ++ splitCells { f with free := false } s ++ post₁ = pre' ++ c :: post' ∧
      extent blockSize pre' = extent blockSize pre := by
  rcases List.append_eq_append_iff.mp hcs with ⟨mid, rfl, hmid⟩ | ⟨mid, rfl, hmid⟩
  · cases mid with
    | nil =>
      rw [List.nil_append, List.cons.injEq] at hmid
      rw [hmid.1, hfree] at hused
      contradiction
    | cons c₁ mid =>
      obtain ⟨rfl, -⟩ := List.cons.inj hmid
      exact ⟨pre, mid ++ splitCells { f with free := false } s ++ post₁, by simp, rfl⟩
  · cases mid with
    | nil =>
      rw [List.nil_append, List.cons.injEq] at hmid
      rw [← hmid.1, hfree] at hused
      contradiction
    | cons f₁ mid =>
      obtain ⟨rfl, rfl⟩ := List.cons.inj hmid
      refine ⟨pre₁ ++ splitCells { f with free := false } s ++ mid, post, by simp, ?_⟩
      simp only [extent_append, extent_splitCells, extent]
      omega

/-- Moving allocates a new block, copies into it and releases the old one. -/
theorem reallocMove_wellFormed {s : ℕ} (hw : WellFormed buf h (pre ++ c :: post))
    (hused : c.free = false) (hsize : c.size < s) (haligned : s % alignment = 0)
    (hs : s ≤ 2 ^ 64 - 8) :
    reallocMove buf h (buf.base + extent blockSize pre) s = .ok (0, h) ∨
      ∃ pre₁ f post₁ pre' post' h', pre ++ c :: post = pre₁ ++ f :: post₁ ∧ f.free = true ∧
        s ≤ f.size ∧
        pre₁ ++ splitCells { f with free := false } s ++ post₁ = pre' ++ c :: post' ∧
        extent blockSize pre' = extent blockSize pre ∧
        reallocMove buf h (buf.base + extent blockSize pre) s =
          .ok (buf.base + extent blockSize pre₁ + blockSize, h') ∧
        WellFormed buf h' (coalesceAt blockSize pre' { c with free := true } post') ∧
        (∀ i, i < c.size → h'.mem (buf.base + extent blockSize pre₁ + blockSize + i) =
          h.mem (buf.base + extent blockSize pre + blockSize + i)) ∧
        ∀ y, OffHeaders buf.base (pre' ++ c :: post') y →
          (y < buf.base + extent blockSize pre₁ + blockSize ∨
            buf.base + extent blockSize pre₁ + blockSize + s ≤ y) → h'.mem y = h.mem y := by
  have halign : align s = s := by
    have h8 : alignment = 8 := rfl
    rw [align_eq hs]
    rw [h8] at haligned
    omega
  rcases valMalloc_wellFormed (n := s) hw (by omega) with
    ⟨hnone, -⟩ | ⟨pre₁, f, post₁, h₁, hcs, hfree, hfit, -, hsome, hw₁, hsame₁⟩
  · left
    rw [reallocMove, hnone]
    rfl
  · right
    rw [halign] at hfit hw₁ hsame₁
    obtain ⟨pre', post', hsplit, hextent⟩ := exists_split_of_take (s := s) hcs hused hfree
    obtain ⟨k, rest, hk, -, -, hcut⟩ := splitCells_eq_cons (c := f) hfit
    have hnew : (buf.base + extent blockSize pre₁, ⟨k, false⟩) ∈
        place blockSize buf.base (pre' ++ c :: post') := by
      rw [← hsplit, hcut false, List.append_assoc]
      exact mem_place_middle _ _ _ _ _
    have hold : (buf.base + extent blockSize pre, c) ∈ place blockSize buf.base (pre' ++ c :: post') := by
      rw [← hextent]
      exact mem_place_middle _ _ _ _ _
    -- the old and the new block are two different cells in use
    have hne : buf.base + extent blockSize pre ≠ buf.base + extent blockSize pre₁ := by
      intro heq
      have hc := mem_place_middle blockSize buf.base pre c post
      have hf := mem_place_middle blockSize buf.base pre₁ f post₁
      rw [← hcs, ← heq] at hf
      rw [eq_of_mem_place (by decide) hc hf, hfree] at hused
      contradiction
    have hapart := place_apart hold hnew hne
    have hheader : blockSize = 32 := rfl
    -- the copy stays inside the new payload, so the old block is still a block in use
    have hcopied : Linked (memcpy h₁.mem (buf.base + extent blockSize pre₁ + blockSize)
        (buf.base + extent blockSize pre + blockSize) c.size) buf.limit 0 buf.base
        (pre₁ ++ splitCells { f with free := false } s ++ post₁) :=
      linked_payload_take hfit hw₁.linked fun x hx => memcpy_outside _ (by omega)
    have hw₂ := hw₁.edit rfl hw₁.aligned hw₁.coalesced hcopied
    rw [hsplit] at hw₁ hw₂ hsame₁
    obtain ⟨h', hrun, hw', hsame₂, -⟩ := valFree_wellFormed hw₂ hused
    refine ⟨pre₁, f, post₁, pre', post', h', hcs, hfree, hfit, hsplit, hextent, ?_, hw',
      fun i hi => ?_, fun y hy hout => ?_⟩
    · have hread : (loadBlock h₁.mem (buf.base + extent blockSize pre)).size = c.size := by
        rw [← hextent, hw₁.linked.header, headerOf]
      have hbase := buf.notNull
      rw [hextent] at hrun
      rw [reallocMove, hsome]
      simp only [bind, Except.bind]
      rw [if_neg (by omega), hread, hrun]
      rfl
    · simp only at hapart
      rw [hsame₂ _ (offHeaders_of_payload hnew (by omega) (by simp only; omega))]
      simp only
      rw [memcpy_inside _ (by omega) hi, hsame₁ _ (offHeaders_of_payload hold (by omega) (by omega))]
    · rw [hsame₂ y hy]
      simp only
      rw [memcpy_outside _ (by omega), hsame₁ y hy]

/-! ## The outcomes of resizing -/

/-- What resizing the cell `c` in use to `n` bytes can do: fault at the end of the list, cut and
merge behind the block, grow into the neighbours, find no room, or move. Each outcome has the
cells it leaves, where the data is, and which bytes are not written. -/
inductive Resized (buf : HeapBuffer) (h : HeapState) (pre : List Cell) (c : Cell) (post : List Cell)
    (n : ℕ) : Except Fault (ℕ × HeapState) → Prop
  | ends : post = [] → align n ≤ c.size → c.size < align n + blockSize + alignment →
    Resized buf h pre c post n (.error .nullDeref)
  | shrunk {c' d : Cell} {rest : List Cell} {h' : HeapState} : align n ≤ c.size →
    splitCells c (align n) ++ post = c' :: d :: rest →
    WellFormed buf h' (coalesceAt blockSize (pre ++ [c']) d rest) →
    (∀ y, OffHeaders buf.base (pre ++ c :: post) y →
      OffHeaders buf.base (coalesceAt blockSize (pre ++ [c']) d rest) y → h'.mem y = h.mem y) →
    Resized buf h pre c post n (.ok (buf.base + extent blockSize pre + blockSize, h'))
  | grown {h' : HeapState} : c.size < align n → align n ≤ (absorb blockSize pre c post).size →
    WellFormed buf h' (growCells pre c post (align n)) →
    (∀ i, i < c.size → h'.mem (buf.base + extent blockSize (pre.rdropWhile (·.free)) + blockSize + i) =
      h.mem (buf.base + extent blockSize pre + blockSize + i)) →
    (∀ y, OffHeaders buf.base (pre ++ c :: post) y →
      OffHeaders buf.base (growCells pre c post (align n)) y →
      (y < buf.base + extent blockSize (pre.rdropWhile (·.free)) + blockSize ∨
        buf.base + extent blockSize (pre.rdropWhile (·.free)) + blockSize + c.size ≤ y) →
      h'.mem y = h.mem y) →
    Resized buf h pre c post n
      (.ok (buf.base + extent blockSize (pre.rdropWhile (·.free)) + blockSize, h'))
  | full : c.size < align n → Resized buf h pre c post n (.ok (0, h))
  | moved {pre₁ post₁ pre' post' : List Cell} {f : Cell} {h' : HeapState} : c.size < align n →
    pre ++ c :: post = pre₁ ++ f :: post₁ → f.free = true → align n ≤ f.size →
    pre₁ ++ splitCells { f with free := false } (align n) ++ post₁ = pre' ++ c :: post' →
    extent blockSize pre' = extent blockSize pre →
    WellFormed buf h' (coalesceAt blockSize pre' { c with free := true } post') →
    (∀ i, i < c.size → h'.mem (buf.base + extent blockSize pre₁ + blockSize + i) =
      h.mem (buf.base + extent blockSize pre + blockSize + i)) →
    (∀ y, OffHeaders buf.base (pre' ++ c :: post') y →
      (y < buf.base + extent blockSize pre₁ + blockSize ∨
        buf.base + extent blockSize pre₁ + blockSize + align n ≤ y) → h'.mem y = h.mem y) →
    Resized buf h pre c post n (.ok (buf.base + extent blockSize pre₁ + blockSize, h'))

/-- Resizing a block in use to a positive size has one of these outcomes. -/
theorem valRealloc_resized (hw : WellFormed buf h (pre ++ c :: post)) (hused : c.free = false)
    (hpos : 0 < n) :
    Resized buf h pre c post n
      (valRealloc buf h (buf.base + extent blockSize pre + blockSize) n) := by
  have haligned := align_mod n
  rw [valRealloc_eq hw hpos]
  split
  case isTrue hfit =>
    by_cases hroom : align n + blockSize + alignment ≤ c.size
    · obtain ⟨h', hrun, hw', hsame⟩ := reallocShrink_wellFormed hw hused hfit haligned
        (by rw [splitCells, if_pos hroom]; rfl)
      rw [hrun]
      exact .shrunk hfit (by rw [splitCells, if_pos hroom]; rfl) hw' hsame
    · cases post with
      | nil =>
        rw [reallocShrink_last hw hfit (by omega)]
        exact .ends rfl hfit (by omega)
      | cons d post =>
        obtain ⟨h', hrun, hw', hsame⟩ := reallocShrink_wellFormed hw hused hfit haligned
          (by rw [splitCells, if_neg hroom]; rfl)
        rw [hrun]
        exact .shrunk hfit (by rw [splitCells, if_neg hroom]; rfl) hw' hsame
  case isFalse hfit =>
    split
    case isTrue hgrow =>
      have habsorb := le_absorb_of_neighbourFits hw hgrow
      obtain ⟨h', hrun, hw', hdata, hsame⟩ := reallocGrow_wellFormed hw habsorb (by omega) haligned
      rw [hrun]
      exact .grown (by omega) habsorb hw' hdata hsame
    case isFalse =>
      rcases reallocMove_wellFormed hw hused (by omega) haligned (align_le n) with
        hnone | ⟨pre₁, f, post₁, pre', post', h', hcs, hfree, hle, hsplit, hextent, hrun, hw', hdata,
          hsame⟩
      · rw [hnone]
        exact .full (by omega)
      · rw [hrun]
        exact .moved (by omega) hcs hfree hle hsplit hextent hw' hdata hsame

end

end FfaAcs.Heap
