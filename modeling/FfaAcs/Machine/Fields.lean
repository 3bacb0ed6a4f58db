import FfaAcs.Machine.ByteMemory

/-!
# Assignments to the fields of a structure in memory

A field is a range of bytes. Straight-line code that fills a structure is a list of assignments,
carried out in order. What a list of assignments leaves does not depend on the memory before it
where some field covers the byte, and is the memory before it where none does. When the fields
lie apart, each one holds the value assigned to it, whatever the order.
-/

namespace FfaAcs.Machine

/-- The bytes of a field, from the start of the memory. -/
structure Field where
  offset : ℕ
  width : ℕ
deriving DecidableEq, Repr

namespace Field

/-- Read a field as a little-endian number. -/
def get (f : Field) (m : ByteMemory) : ℕ := m.load f.offset f.width

/-- Assign a field. The value is reduced to the width of the field. -/
def set (f : Field) (m : ByteMemory) (v : ℕ) : ByteMemory := m.store f.offset f.width v

/-- The field lies inside the bytes from `lo` to `hi`. -/
def Within (lo hi : ℕ) (f : Field) : Prop := lo ≤ f.offset ∧ f.offset + f.width ≤ hi

/-- Two fields have no byte in common. -/
def Disjoint (f g : Field) : Prop := Apart f.offset f.width g.offset g.width

instance (f g : Field) : Decidable (f.Disjoint g) := inferInstanceAs (Decidable (_ ∨ _))

/-- Fields are disjoint whichever is named first. -/
theorem Disjoint.symm {f g : Field} (h : f.Disjoint g) : g.Disjoint f := Or.symm h

/-- Fields inside ranges that follow each other are disjoint. -/
theorem Within.disjoint {f g : Field} {a b c : ℕ} (hf : f.Within a b) (hg : g.Within b c) :
    f.Disjoint g := Or.inl (hf.2.trans hg.1)

/-- An assigned field reads back the value, reduced to its width. -/
@[simp] theorem get_set_same (f : Field) (m : ByteMemory) (v : ℕ) :
    f.get (f.set m v) = v % 256 ^ f.width :=
  ByteMemory.load_store_same m _ _ v

/-- Assigning a field does not change a disjoint one. -/
theorem get_set_disjoint {f g : Field} (h : f.Disjoint g) (m : ByteMemory) (v : ℕ) :
    g.get (f.set m v) = g.get m := ByteMemory.load_store_apart m h

/-- Assigning a field changes no other byte. -/
theorem set_outside {f : Field} {x : ℕ} (h : x < f.offset ∨ f.offset + f.width ≤ x) (m : ByteMemory)
    (v : ℕ) : f.set m v x = m x := ByteMemory.store_outside m h

/-- The last assignment of a field counts. -/
theorem set_set_same (f : Field) (m : ByteMemory) (v w : ℕ) : f.set (f.set m v) w = f.set m w := by
  funext x
  simp only [set, ByteMemory.store]
  split <;> rfl

/-- Assignments of disjoint fields commute. -/
theorem set_comm {f g : Field} (h : f.Disjoint g) (m : ByteMemory) (v w : ℕ) :
    g.set (f.set m v) w = f.set (g.set m w) v := by
  have hapart : f.offset + f.width ≤ g.offset ∨ g.offset + g.width ≤ f.offset := h
  funext x
  simp only [set, ByteMemory.store]
  split
  · rw [if_neg (by omega)]
  · rfl

end Field

/-- Carry out assignments in order. -/
def assign (m : ByteMemory) : List (Field × ℕ) → ByteMemory
  | [] => m
  | w :: ws => assign (w.1.set m w.2) ws

/-- Some assigned field contains the byte. -/
def Covers (ws : List (Field × ℕ)) (x : ℕ) : Prop :=
  ∃ w ∈ ws, w.1.offset ≤ x ∧ x < w.1.offset + w.1.width

section Assign

variable {ws us : List (Field × ℕ)}

/-- Assignments in two parts. -/
theorem assign_append (m : ByteMemory) : assign m (ws ++ us) = assign (assign m ws) us := by
  induction ws generalizing m with
  | nil => rfl
  | cons w ws ih => exact ih _

/-- Nothing covers a byte without assignments. -/
@[simp] theorem not_covers_nil (x : ℕ) : ¬Covers [] x := by simp [Covers]

/-- A byte of the first field, or of one of the others. -/
@[simp] theorem covers_cons {w : Field × ℕ} {x : ℕ} :
    Covers (w :: ws) x ↔ (w.1.offset ≤ x ∧ x < w.1.offset + w.1.width) ∨ Covers ws x := by
  simp [Covers]

/-- A byte covered by one of two parts. -/
@[simp] theorem covers_append {x : ℕ} : Covers (ws ++ us) x ↔ Covers ws x ∨ Covers us x := by
  simp only [Covers, List.mem_append, or_and_right, exists_or]

/-- Fields inside a range cover nothing else. -/
theorem not_covers_of_within {lo hi x : ℕ} (h : ∀ w ∈ ws, w.1.Within lo hi) (hx : x < lo ∨ hi ≤ x) :
    ¬Covers ws x := by
  rintro ⟨w, hw, hlow, hhigh⟩
  obtain ⟨hlo, hhi⟩ := h w hw
  omega

/-- A byte that no field covers is left alone. -/
theorem assign_of_not_covers {x : ℕ} (m : ByteMemory) (h : ¬Covers ws x) : assign m ws x = m x := by
  induction ws generalizing m with
  | nil => rfl
  | cons w ws ih =>
    rw [covers_cons, not_or] at h
    rw [assign, ih _ h.2, Field.set_outside (by omega)]

/-- A byte that some field covers does not depend on the memory before. -/
theorem assign_eq_of_covers {x : ℕ} (m m' : ByteMemory) (h : Covers ws x ∨ m x = m' x) :
    assign m ws x = assign m' ws x := by
  induction ws generalizing m m' with
  | nil => simpa [assign] using h
  | cons w ws ih =>
    refine ih _ _ ?_
    rw [covers_cons] at h
    by_cases hin : w.1.offset ≤ x ∧ x < w.1.offset + w.1.width
    · right
      simp only [Field.set, ByteMemory.store, if_pos hin]
    · have hout : x < w.1.offset ∨ w.1.offset + w.1.width ≤ x := by omega
      rw [Field.set_outside hout, Field.set_outside hout]
      tauto

/-- A field that lies apart from the assigned ones is left alone. -/
theorem get_assign_of_disjoint {f : Field} (m : ByteMemory) (h : ∀ w ∈ ws, w.1.Disjoint f) :
    f.get (assign m ws) = f.get m := by
  induction ws generalizing m with
  | nil => rfl
  | cons w ws ih =>
    rw [assign, ih _ fun u hu => h u (by simp [hu]), Field.get_set_disjoint (h w (by simp))]

/-- When the assigned fields lie apart, each one holds its value. -/
theorem get_assign_of_mem {f : Field} {v : ℕ} (m : ByteMemory)
    (h : (ws.map Prod.fst).Pairwise Field.Disjoint) (hmem : (f, v) ∈ ws) :
    f.get (assign m ws) = v % 256 ^ f.width := by
  induction ws generalizing m with
  | nil => exact nomatch hmem
  | cons w ws ih =>
    rw [List.map_cons, List.pairwise_cons] at h
    rcases List.mem_cons.mp hmem with rfl | hmem
    · rw [assign, get_assign_of_disjoint, Field.get_set_same]
      exact fun u hu => (h.1 u.1 (List.mem_map_of_mem hu)).symm
    · exact ih _ h.2 hmem

/-- A field assigned before others that lie apart may be assigned after them. -/
theorem assign_set_comm {f : Field} (m : ByteMemory) (v : ℕ) (h : ∀ w ∈ ws, w.1.Disjoint f) :
    assign (f.set m v) ws = f.set (assign m ws) v := by
  induction ws generalizing m with
  | nil => rfl
  | cons w ws ih =>
    rw [assign, assign, Field.set_comm (h w (by simp)).symm, ih _ fun u hu => h u (by simp [hu])]

end Assign

end FfaAcs.Machine
