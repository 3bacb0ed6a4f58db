import Mathlib.Data.List.DropRight
import Mathlib.Data.List.Chain
import Mathlib.Tactic

/-!
# Tilings of an address range by headed cells

A list of cells covers an address range without gaps: every cell is a header of `hdr` bytes
followed by its payload, and the next cell starts where the payload ends. Cells are free or
in use. A tiling is coalesced when no two neighbours are both free.

Everything here is about lists. The addresses of the cells are computed from the sizes
before them, so separation of payloads and headers follows from their order.
-/

namespace FfaAcs.Machine

/-- A cell of a tiling: its payload size and whether it is free. -/
structure Cell where
  size : ℕ
  free : Bool
deriving DecidableEq, Repr

namespace Tiling

variable (hdr : ℕ)

/-- The number of bytes a list of cells covers, headers included. -/
def extent : List Cell → ℕ
  | [] => 0
  | c :: cs => hdr + c.size + extent cs

/-- The cells with the addresses of their headers, starting at `a`. -/
def place (a : ℕ) : List Cell → List (ℕ × Cell)
  | [] => []
  | c :: cs => (a, c) :: place (a + hdr + c.size) cs

/-- The payload addresses of the cells in use, in address order. -/
def used (a : ℕ) : List Cell → List ℕ
  | [] => []
  | c :: cs => if c.free then used (a + hdr + c.size) cs
      else (a + hdr) :: used (a + hdr + c.size) cs

/-- The header address of the last cell, or `p` when there is none. -/
def lastAddr (p a : ℕ) : List Cell → ℕ
  | [] => p
  | c :: cs => lastAddr a (a + hdr + c.size) cs

/-- No two neighbouring cells are both free. -/
def Coalesced (cs : List Cell) : Prop := cs.IsChain fun c d => ¬(c.free = true ∧ d.free = true)

variable {hdr}

/-- Extents add up along concatenation. -/
@[simp] theorem extent_append (xs ys : List Cell) :
    extent hdr (xs ++ ys) = extent hdr xs + extent hdr ys := by
  induction xs with
  | nil => simp [extent]
  | cons c xs ih => simp only [List.cons_append, extent, ih]; omega

/-- The cells of the right part start where the left part ends. -/
@[simp] theorem place_append (a : ℕ) (xs ys : List Cell) :
    place hdr a (xs ++ ys) = place hdr a xs ++ place hdr (a + extent hdr xs) ys := by
  induction xs generalizing a with
  | nil => simp [place, extent]
  | cons c xs ih => simp only [List.cons_append, place, ih, extent, Nat.add_assoc]

/-- The used payloads of a concatenation are those of its parts. -/
@[simp] theorem used_append (a : ℕ) (xs ys : List Cell) :
    used hdr a (xs ++ ys) = used hdr a xs ++ used hdr (a + extent hdr xs) ys := by
  induction xs generalizing a with
  | nil => simp [used, extent]
  | cons c xs ih =>
    simp only [List.cons_append, used, ih, extent, Nat.add_assoc]
    split <;> simp

/-- The last header of a nonempty right part is found in that part. -/
@[simp] theorem lastAddr_append (p a : ℕ) (xs ys : List Cell) :
    lastAddr hdr p a (xs ++ ys) = lastAddr hdr (lastAddr hdr p a xs) (a + extent hdr xs) ys := by
  induction xs generalizing p a with
  | nil => simp [lastAddr, extent]
  | cons c xs ih => simp only [List.cons_append, lastAddr, ih, extent, Nat.add_assoc]

/-- A placed cell lies inside the range that its list covers. -/
theorem place_bounds {a x : ℕ} {c : Cell} {cs : List Cell} (h : (x, c) ∈ place hdr a cs) :
    a ≤ x ∧ x + hdr + c.size ≤ a + extent hdr cs := by
  induction cs generalizing a with
  | nil => simp [place] at h
  | cons d cs ih =>
    simp only [place, List.mem_cons, Prod.mk.injEq] at h
    rcases h with ⟨rfl, rfl⟩ | h
    · simp only [extent]; omega
    · have := ih h
      simp only [extent]; omega

/-- A placed cell splits its list, and its address is the extent of the cells before it. -/
theorem exists_split_of_mem_place {a x : ℕ} {c : Cell} {cs : List Cell}
    (h : (x, c) ∈ place hdr a cs) :
    ∃ pre post, cs = pre ++ c :: post ∧ x = a + extent hdr pre := by
  induction cs generalizing a with
  | nil => simp [place] at h
  | cons d cs ih =>
    simp only [place, List.mem_cons, Prod.mk.injEq] at h
    rcases h with ⟨rfl, rfl⟩ | h
    · exact ⟨[], cs, rfl, rfl⟩
    · obtain ⟨pre, post, rfl, rfl⟩ := ih h
      exact ⟨d :: pre, post, rfl, by simp only [extent]; omega⟩

variable (hdr) in
/-- A cell is placed behind the cells before it. -/
theorem mem_place_middle (a : ℕ) (pre : List Cell) (c : Cell) (post : List Cell) :
    (a + extent hdr pre, c) ∈ place hdr a (pre ++ c :: post) := by
  simp [place]

/-- No two cells are placed at one address. -/
theorem eq_of_mem_place (hpos : 0 < hdr) {a x : ℕ} {c d : Cell} {cs : List Cell}
    (hc : (x, c) ∈ place hdr a cs) (hd : (x, d) ∈ place hdr a cs) : c = d := by
  induction cs generalizing a with
  | nil => simp [place] at hc
  | cons b cs ih =>
    simp only [place, List.mem_cons, Prod.mk.injEq] at hc hd
    rcases hc with ⟨hx, rfl⟩ | hc
    · rcases hd with ⟨-, rfl⟩ | hd
      · rfl
      · have := (place_bounds hd).1
        omega
    · rcases hd with ⟨hx, rfl⟩ | hd
      · have := (place_bounds hc).1
        omega
      · exact ih hc hd

/-- Every cell ends before the next one starts. -/
theorem place_ordered (a : ℕ) (cs : List Cell) :
    (place hdr a cs).Pairwise fun p q => p.1 + hdr + p.2.size ≤ q.1 := by
  induction cs generalizing a with
  | nil => exact List.Pairwise.nil
  | cons c cs ih =>
    refine List.Pairwise.cons ?_ (ih _)
    rintro ⟨x, d⟩ hx
    exact (place_bounds hx).1

/-- Distinct placed cells do not overlap. -/
theorem place_apart {a x y : ℕ} {c d : Cell} {cs : List Cell} (hx : (x, c) ∈ place hdr a cs)
    (hy : (y, d) ∈ place hdr a cs) (hne : x ≠ y) :
    x + hdr + c.size ≤ y ∨ y + hdr + d.size ≤ x := by
  let R : ℕ × Cell → ℕ × Cell → Prop := fun p q =>
    p.1 + hdr + p.2.size ≤ q.1 ∨ q.1 + hdr + q.2.size ≤ p.1
  have hpairwise : (place hdr a cs).Pairwise R := (place_ordered a cs).imp Or.inl
  have hsymm : Std.Symm R := ⟨fun p q => Or.symm⟩
  exact hpairwise.forall hx hy fun heq => hne (congrArg Prod.fst heq)

/-- A used payload belongs to a placed cell that is in use. -/
theorem mem_used_iff {a p : ℕ} {cs : List Cell} :
    p ∈ used hdr a cs ↔ ∃ x c, (x, c) ∈ place hdr a cs ∧ c.free = false ∧ p = x + hdr := by
  induction cs generalizing a with
  | nil => simp [used, place]
  | cons d cs ih =>
    cases hd : d.free with
    | true =>
      simp only [used, hd, if_true, ih, place, List.mem_cons, Prod.mk.injEq]
      constructor
      · rintro ⟨x, c, hx, hc, rfl⟩
        exact ⟨x, c, Or.inr hx, hc, rfl⟩
      · rintro ⟨x, c, ⟨rfl, rfl⟩ | hx, hc, rfl⟩
        · rw [hd] at hc; contradiction
        · exact ⟨x, c, hx, hc, rfl⟩
    | false =>
      simp only [used, hd, Bool.false_eq_true, if_false, List.mem_cons, ih, place, Prod.mk.injEq]
      constructor
      · rintro (rfl | ⟨x, c, hx, hc, rfl⟩)
        · exact ⟨a, d, Or.inl ⟨rfl, rfl⟩, hd, rfl⟩
        · exact ⟨x, c, Or.inr hx, hc, rfl⟩
      · rintro ⟨x, c, ⟨rfl, rfl⟩ | hx, hc, rfl⟩
        · exact Or.inl rfl
        · exact Or.inr ⟨x, c, hx, hc, rfl⟩

/-- Used payloads of a positive header size are listed once each, in increasing order. -/
theorem used_nodup (hpos : 0 < hdr) (a : ℕ) (cs : List Cell) : (used hdr a cs).Nodup := by
  induction cs generalizing a with
  | nil => exact List.nodup_nil
  | cons c cs ih =>
    simp only [used]
    split
    · exact ih _
    · refine List.nodup_cons.mpr ⟨fun hmem => ?_, ih _⟩
      obtain ⟨x, d, hx, -, heq⟩ := mem_used_iff.mp hmem
      have := (place_bounds hx).1
      omega

/-- A run of free cells has no used payload. -/
theorem used_eq_nil_of_free {a : ℕ} {cs : List Cell} (h : ∀ c ∈ cs, c.free = true) :
    used hdr a cs = [] := by
  induction cs generalizing a with
  | nil => rfl
  | cons c cs ih =>
    rw [used, if_pos (h c (by simp)), ih fun d hd => h d (by simp [hd])]

variable (hdr) in
/-- The extent bounds the number of cells. -/
theorem length_mul_le_extent (cs : List Cell) : hdr * cs.length ≤ extent hdr cs := by
  induction cs with
  | nil => simp [extent]
  | cons c cs ih => simp only [List.length_cons, extent, Nat.mul_succ]; omega

/-! ## Merging a cell with the free cells around it -/

variable (hdr) in
/-- The cell that results from merging `c` with the runs of free cells on both sides. The
first cell of the merged run keeps its flag. -/
def absorb (pre : List Cell) (c : Cell) (post : List Cell) : Cell :=
  ⟨extent hdr (pre.rtakeWhile (·.free)) + c.size + extent hdr (post.takeWhile (·.free)),
    c.free || !(pre.rtakeWhile (·.free)).isEmpty⟩

variable (hdr) in
/-- The tiling after that merge. -/
def coalesceAt (pre : List Cell) (c : Cell) (post : List Cell) : List Cell :=
  pre.rdropWhile (·.free) ++ absorb hdr pre c post :: post.dropWhile (·.free)

variable (hdr) in
/-- The two ends of a list, cut at its last cell in use, have the extent of the whole. -/
theorem extent_rdropWhile_add (pre : List Cell) :
    extent hdr (pre.rdropWhile (·.free)) + extent hdr (pre.rtakeWhile (·.free)) =
      extent hdr pre := by
  rw [← extent_append, List.rdropWhile_append_rtakeWhile]

variable (hdr) in
/-- The two ends of a list, cut at its first cell in use, have the extent of the whole. -/
theorem extent_takeWhile_add (post : List Cell) :
    extent hdr (post.takeWhile (·.free)) + extent hdr (post.dropWhile (·.free)) =
      extent hdr post := by
  rw [← extent_append, List.takeWhile_append_dropWhile]

/-- Merging covers the same bytes. -/
@[simp] theorem extent_coalesceAt (pre : List Cell) (c : Cell) (post : List Cell) :
    extent hdr (coalesceAt hdr pre c post) = extent hdr (pre ++ c :: post) := by
  have hpre := extent_rdropWhile_add hdr pre
  have hpost := extent_takeWhile_add hdr post
  simp only [coalesceAt, absorb, extent_append, extent]
  omega

/-- The free cells at the end of a list hold no used payload. -/
theorem used_rdropWhile (a : ℕ) (pre : List Cell) :
    used hdr a (pre.rdropWhile (·.free)) = used hdr a pre := by
  have hnone (b : ℕ) : used hdr b (pre.rtakeWhile (·.free)) = [] :=
    used_eq_nil_of_free fun c hc => List.mem_rtakeWhile_imp hc
  conv_rhs => rw [← List.rdropWhile_append_rtakeWhile (p := fun c : Cell => c.free) (l := pre)]
  rw [used_append, hnone, List.append_nil]

/-- The free cells at the start of a list hold no used payload. -/
theorem used_dropWhile (a : ℕ) (post : List Cell) :
    used hdr (a + extent hdr (post.takeWhile (·.free))) (post.dropWhile (·.free)) =
      used hdr a post := by
  have hnone (b : ℕ) : used hdr b (post.takeWhile (·.free)) = [] :=
    used_eq_nil_of_free fun c hc => List.mem_takeWhile_imp hc
  conv_rhs => rw [← post.takeWhile_append_dropWhile (p := (·.free))]
  rw [used_append, hnone, List.nil_append]

/-- A cell in use before the merged ones stays where it is. -/
theorem mem_place_rdropWhile {a x : ℕ} {u : Cell} {pre : List Cell} (hx : (x, u) ∈ place hdr a pre)
    (hused : u.free = false) : (x, u) ∈ place hdr a (pre.rdropWhile (·.free)) := by
  rw [← List.rdropWhile_append_rtakeWhile (p := fun c : Cell => c.free) (l := pre), place_append,
    List.mem_append] at hx
  refine hx.resolve_right fun hrun => ?_
  obtain ⟨xs, ys, hsplit, -⟩ := exists_split_of_mem_place hrun
  have hfree := List.mem_rtakeWhile_imp (p := fun c : Cell => c.free) (l := pre) (x := u)
    (by rw [hsplit]; simp)
  rw [hused] at hfree
  contradiction

/-- A cell in use behind the merged ones stays where it is. -/
theorem mem_place_dropWhile {a x : ℕ} {u : Cell} {post : List Cell} (hx : (x, u) ∈ place hdr a post)
    (hused : u.free = false) :
    (x, u) ∈ place hdr (a + extent hdr (post.takeWhile (·.free))) (post.dropWhile (·.free)) := by
  rw [← post.takeWhile_append_dropWhile (p := (·.free)), place_append, List.mem_append] at hx
  refine hx.resolve_left fun hrun => ?_
  obtain ⟨xs, ys, hsplit, -⟩ := exists_split_of_mem_place hrun
  have hfree := List.mem_takeWhile_imp (p := fun c : Cell => c.free) (l := post) (x := u)
    (by rw [hsplit]; simp)
  rw [hused] at hfree
  contradiction

/-- The other cells in use stay where they are when the merged cell is replaced by cells of the same
extent. -/
theorem mem_place_around {a x : ℕ} {u c : Cell} {pre mid post : List Cell}
    (hmid : extent hdr mid = hdr + (absorb hdr pre c post).size) (hused : u.free = false)
    (hx : (x, u) ∈ place hdr a pre ∨ (x, u) ∈ place hdr (a + extent hdr pre + hdr + c.size) post) :
    (x, u) ∈ place hdr a (pre.rdropWhile (·.free) ++ mid ++ post.dropWhile (·.free)) := by
  have hpre := extent_rdropWhile_add hdr pre
  have hend : a + extent hdr (pre.rdropWhile (·.free) ++ mid) =
      a + extent hdr pre + hdr + c.size + extent hdr (post.takeWhile (·.free)) := by
    simp only [extent_append, hmid, absorb]
    omega
  rw [place_append, place_append, hend, List.mem_append, List.mem_append]
  rcases hx with hx | hx
  · exact Or.inl (Or.inl (mem_place_rdropWhile hx hused))
  · exact Or.inr (mem_place_dropWhile hx hused)

/-- Merging moves no other cell in use. -/
theorem mem_place_coalesceAt {a x : ℕ} {u c : Cell} {pre post : List Cell} (hused : u.free = false)
    (hx : (x, u) ∈ place hdr a pre ∨ (x, u) ∈ place hdr (a + extent hdr pre + hdr + c.size) post) :
    (x, u) ∈ place hdr a (coalesceAt hdr pre c post) := by
  have hmid : extent hdr [absorb hdr pre c post] = hdr + (absorb hdr pre c post).size := by
    simp [extent]
  have haround := mem_place_around hmid hused hx
  simpa [coalesceAt] using haround

/-- Merging moves no other used payload. -/
theorem used_coalesceAt (a : ℕ) (pre : List Cell) (c : Cell) (post : List Cell) :
    used hdr a (coalesceAt hdr pre c post) = used hdr a pre ++
      (if (absorb hdr pre c post).free then [] else
        [a + extent hdr (pre.rdropWhile (·.free)) + hdr]) ++
      used hdr (a + extent hdr pre + hdr + c.size) post := by
  have hpre := extent_rdropWhile_add hdr pre
  have hend : a + extent hdr (pre.rdropWhile (·.free)) + hdr + (absorb hdr pre c post).size =
      a + extent hdr pre + hdr + c.size + extent hdr (post.takeWhile (·.free)) := by
    simp only [absorb]
    omega
  rw [coalesceAt, used_append, used_rdropWhile, used, hend, used_dropWhile]
  split <;> simp

/-- A part of a coalesced tiling is coalesced. -/
theorem Coalesced.left {xs ys : List Cell} (h : Coalesced (xs ++ ys)) : Coalesced xs :=
  List.IsChain.left_of_append h

/-- A part of a coalesced tiling is coalesced. -/
theorem Coalesced.right {xs ys : List Cell} (h : Coalesced (xs ++ ys)) : Coalesced ys :=
  List.IsChain.right_of_append h

/-- Parts that are coalesced and do not both border on `c` with free cells join around it. -/
theorem coalesced_join {xs ys : List Cell} {c : Cell} (hx : Coalesced xs) (hy : Coalesced ys)
    (hlast : ∀ d ∈ xs.getLast?, ¬(d.free = true ∧ c.free = true))
    (hhead : ∀ d ∈ ys.head?, ¬(c.free = true ∧ d.free = true)) : Coalesced (xs ++ c :: ys) := by
  refine List.isChain_append.mpr ⟨hx, List.isChain_cons.mpr ⟨hhead, hy⟩, ?_⟩
  intro d hd e he
  simp only [List.head?_cons, Option.mem_def, Option.some.injEq] at he
  subst he
  exact hlast d hd

/-- The last cell left of a merge is in use. -/
theorem free_of_getLast?_rdropWhile {pre : List Cell} {d : Cell}
    (h : d ∈ (pre.rdropWhile (·.free)).getLast?) : d.free = false := by
  obtain ⟨hne, rfl⟩ := List.mem_getLast?_eq_getLast h
  simpa using List.rdropWhile_last_not (·.free) pre hne

/-- The first cell right of a merge is in use. -/
theorem free_of_head?_dropWhile {post : List Cell} {d : Cell}
    (h : d ∈ (post.dropWhile (·.free)).head?) : d.free = false := by
  have hhead := List.head?_dropWhile_not (·.free) post
  rw [Option.mem_def] at h
  simpa only [h] using hhead

/-- The cells before a free cell of a coalesced tiling end with a cell in use. -/
theorem Coalesced.rdropWhile_eq {pre post : List Cell} {c : Cell} (h : Coalesced (pre ++ c :: post))
    (hfree : c.free = true) : pre.rdropWhile (·.free) = pre := by
  refine List.rdropWhile_eq_self_iff.mpr fun hne hlast => ?_
  exact (List.isChain_append.mp h).2.2 _ (List.getLast_mem_getLast? hne) c rfl ⟨hlast, hfree⟩

/-- No free cell borders on a free cell of a coalesced tiling from the left. -/
theorem Coalesced.rtakeWhile_eq_nil {pre post : List Cell} {c : Cell}
    (h : Coalesced (pre ++ c :: post)) (hfree : c.free = true) : pre.rtakeWhile (·.free) = [] := by
  have hjoin := List.rdropWhile_append_rtakeWhile (p := fun c : Cell => c.free) (l := pre)
  rw [h.rdropWhile_eq hfree] at hjoin
  simpa using hjoin

/-- No free cell borders on a free cell of a coalesced tiling from the right. -/
theorem Coalesced.takeWhile_eq_nil {pre post : List Cell} {c : Cell}
    (h : Coalesced (pre ++ c :: post)) (hfree : c.free = true) : post.takeWhile (·.free) = [] := by
  cases post with
  | nil => rfl
  | cons d post =>
    refine List.takeWhile_cons_of_neg fun hd => ?_
    exact (List.isChain_cons_cons.mp (Coalesced.right h)).1 ⟨hfree, hd⟩

/-- A coalesced tiling without used payloads is one free cell. -/
theorem eq_singleton_of_used_eq_nil {a : ℕ} {cs : List Cell} (hcs : cs ≠ []) (h : Coalesced cs)
    (hused : used hdr a cs = []) : ∃ c, cs = [c] ∧ c.free = true := by
  match cs with
  | [] => exact absurd rfl hcs
  | [c] =>
    refine ⟨c, rfl, ?_⟩
    by_contra hfree
    simp [used, hfree] at hused
  | c :: d :: cs =>
    have hc : c.free = true := by
      by_contra hfree
      simp [used, hfree] at hused
    have hd : d.free = true := by
      by_contra hfree
      simp [used, hc, hfree] at hused
    exact absurd ⟨hc, hd⟩ (List.isChain_cons_cons.mp h).1

/-- Merging with all free neighbours leaves a coalesced tiling, whatever the merged flag. -/
theorem coalesced_around {pre post : List Cell} (c : Cell) (hpre : Coalesced pre)
    (hpost : Coalesced post) :
    Coalesced (pre.rdropWhile (·.free) ++ c :: post.dropWhile (·.free)) := by
  have hleft : Coalesced (pre.rdropWhile (·.free)) := by
    rw [← List.rdropWhile_append_rtakeWhile (p := fun c : Cell => c.free) (l := pre)] at hpre
    exact hpre.left
  have hright : Coalesced (post.dropWhile (·.free)) := by
    rw [← post.takeWhile_append_dropWhile (p := (·.free))] at hpost
    exact hpost.right
  refine coalesced_join hleft hright ?_ ?_
  · intro d hd hboth
    rw [free_of_getLast?_rdropWhile hd] at hboth
    exact Bool.false_ne_true hboth.1
  · intro d hd hboth
    rw [free_of_head?_dropWhile hd] at hboth
    exact Bool.false_ne_true hboth.2

end Tiling

end FfaAcs.Machine
