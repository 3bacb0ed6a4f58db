import Mathlib.Order.Interval.Set.Basic
import FfaAcs.Machine.StraightLine

/-!
# Straight-line code that is interrupted

Something else runs between the instructions, as often as it likes. It keeps the registers and the
stack from the stack pointer up to a fixed base, and may write anything else. Code whose loads stay
inside what is kept, or inside what it has stored there itself, then ends with the same registers and
the same stack as if nothing had come between.

The bytes on which the interrupted run agrees with the plain one are carried along the code. A store
adds the bytes it writes, and moving the stack pointer up gives bytes back.
-/

namespace FfaAcs.Machine.StraightLine

/-- Two states with the same registers that hold the same bytes in a set. -/
structure Agree (D : Set ℕ) (s t : Core) : Prop where
  x : s.x = t.x
  sp : s.sp = t.sp
  mem : ∀ a ∈ D, s.mem a = t.mem a

/-- What may come between two instructions. -/
def Kept (base : ℕ) (s t : Core) : Prop := Agree (Set.Ico s.sp base) s t

/-- Code that runs with `δ` between its instructions. -/
inductive Interrupted (δ : Core → Core → Prop) : Core → List Op → Core → Prop
  | nil (s : Core) : Interrupted δ s [] s
  | exec {s t : Core} {op : Op} {ops : List Op} (h : Interrupted δ (exec s op) ops t) :
      Interrupted δ s (op :: ops) t
  | between {s s' t : Core} {ops : List Op} (hδ : δ s s') (h : Interrupted δ s' ops t) :
      Interrupted δ s ops t

/-- Nothing has to come between. -/
theorem Interrupted.plain (δ : Core → Core → Prop) (s : Core) (ops : List Op) :
    Interrupted δ s ops (run s ops) := by
  induction ops generalizing s with
  | nil => exact .nil s
  | cons op ops ih => exact .exec (ih _)

/-- The bytes of the doubleword at an address. -/
def word (a : ℕ) : Set ℕ := Set.Ico (wrap64 a) (wrap64 a + 8)

namespace Op

/-- The bytes that an instruction loads. -/
def reads (s : Core) : Op → Set ℕ
  | .ldr _ b imm => word (s.base b + imm)
  | .ldp _ _ b imm => word (s.base b + imm) ∪ word (s.base b + imm + 8)
  | .ldrPost _ _ => word s.sp
  | .ldpPost _ _ _ => word s.sp ∪ word (s.sp + 8)
  | _ => ∅

/-- The bytes that an instruction stores. -/
def writes (s : Core) : Op → Set ℕ
  | .str _ b imm => word (s.base b + imm)
  | .stp _ _ b imm => word (s.base b + imm) ∪ word (s.base b + imm + 8)
  | .strPre _ imm => word (sub64 s.sp imm)
  | .stpPre _ _ imm => word (sub64 s.sp imm) ∪ word (sub64 s.sp imm + 8)
  | _ => ∅

/-- The instruction does not use the system registers. -/
def plain : Op → Bool
  | .mrs _ _ => false
  | .msr _ _ => false
  | _ => true

end Op

/-- Code that starts with the bytes of `D` and ends with those of `E`. It loads what it has only, and
what it has is on the stack. -/
inductive Safe (base : ℕ) : Set ℕ → Core → List Op → Set ℕ → Prop
  | nil (D : Set ℕ) (s : Core) : Safe base D s [] D
  | cons {D F E : Set ℕ} {s : Core} {op : Op} {ops : List Op} (hplain : op.plain = true)
      (hreads : op.reads s ⊆ D) (hhas : F ⊆ D ∪ op.writes s)
      (hstack : F ⊆ Set.Ico (exec s op).sp base) (h : Safe base F (exec s op) ops E) :
      Safe base D s (op :: ops) E

/-! ## One instruction -/

namespace Agree

variable {D D' : Set ℕ} {s t u : Core}

/-- A state agrees with itself. -/
theorem refl (D : Set ℕ) (s : Core) : Agree D s s := ⟨rfl, rfl, fun _ _ => rfl⟩

/-- Agreement is transitive. -/
theorem trans (h : Agree D s t) (h' : Agree D t u) : Agree D s u :=
  ⟨h.x.trans h'.x, h.sp.trans h'.sp, fun a ha => (h.mem a ha).trans (h'.mem a ha)⟩

/-- States that agree on more bytes agree on fewer. -/
theorem mono (h : Agree D s t) (hsub : D' ⊆ D) : Agree D' s t := ⟨h.x, h.sp, fun a ha => h.mem a (hsub ha)⟩

/-- States that agree have the same base addresses. -/
theorem base (h : Agree D s t) (b : Base) : s.base b = t.base b := by
  cases b with
  | sp => exact h.sp
  | x n => exact congrArg UInt64.toNat (congrFun h.x n)

/-- A doubleword that both have. -/
theorem fetch (h : Agree D s t) {a : ℕ} (ha : word a ⊆ D) : s.fetch a = t.fetch a := by
  rw [Core.fetch, Core.fetch, ByteMemory.load_congr fun b hb hlt => h.mem b (ha ⟨hb, hlt⟩)]

/-- Writing the same value to the same register keeps the agreement. -/
theorem put (h : Agree D s t) (r : Reg) (v : UInt64) : Agree D (s.put r v) (t.put r v) :=
  ⟨by rw [Core.put, Core.put, h.x], h.sp, h.mem⟩

/-- After a store both have the doubleword. -/
theorem poke (h : Agree D s t) (a : ℕ) (v : UInt64) : Agree (D ∪ word a) (s.poke a v) (t.poke a v) := by
  refine ⟨h.x, h.sp, fun b hb => ?_⟩
  simp only [Core.poke, ByteMemory.store]
  split_ifs with hin
  · rfl
  · exact h.mem b (hb.resolve_right hin)

/-- Moving the stack pointer to the same address keeps the agreement. -/
theorem moveSp (h : Agree D s t) (a : ℕ) : Agree D { s with sp := a } { t with sp := a } :=
  ⟨h.x, rfl, h.mem⟩

end Agree

/-- An instruction that loads what both have keeps the agreement, and adds what it stores. -/
theorem exec_agree {D : Set ℕ} {s t : Core} (h : Agree D s t) {op : Op} (hplain : op.plain = true)
    (hreads : op.reads s ⊆ D) : Agree (D ∪ op.writes s) (exec s op) (exec t op) := by
  have hsame {u w : Core} (hagree : Agree D u w) : Agree (D ∪ ∅) u w := (Set.union_empty D).symm ▸ hagree
  cases op with
  | str r b imm =>
    rw [exec, exec, ← h.base b, ← h.x]
    exact h.poke _ _
  | stp r q b imm =>
    rw [exec, exec, ← h.base b, ← h.x]
    exact ((h.poke _ _).poke _ _).mono (Set.union_assoc ..).superset
  | ldr r b imm =>
    rw [exec, exec, ← h.base b, ← h.fetch hreads]
    exact hsame (h.put _ _)
  | ldp r q b imm =>
    obtain ⟨hfirst, hsecond⟩ := Set.union_subset_iff.mp hreads
    rw [exec, exec, ← h.base b, ← h.fetch hfirst, ← h.fetch hsecond]
    exact hsame ((h.put _ _).put _ _)
  | strPre r imm =>
    rw [exec, exec, ← h.sp, ← h.x]
    exact (h.poke _ _).moveSp _
  | stpPre r q imm =>
    rw [exec, exec, ← h.sp, ← h.x]
    exact (((h.poke _ _).poke _ _).mono (Set.union_assoc ..).superset).moveSp _
  | ldrPost r imm =>
    rw [exec, exec, ← h.sp, ← h.fetch hreads]
    exact hsame ((h.put _ _).moveSp _)
  | ldpPost r q imm =>
    obtain ⟨hfirst, hsecond⟩ := Set.union_subset_iff.mp hreads
    rw [exec, exec, ← h.sp, ← h.fetch hfirst, ← h.fetch hsecond]
    exact hsame (((h.put _ _).put _ _).moveSp _)
  | mov d n =>
    rw [exec, exec, ← h.x]
    exact hsame (h.put _ _)
  | subSp imm =>
    rw [exec, exec, ← h.sp]
    exact hsame (h.moveSp _)
  | addSp imm =>
    rw [exec, exec, ← h.sp]
    exact hsame (h.moveSp _)
  | mrs r q => cases hplain
  | msr q r => cases hplain

/-! ## The whole code -/

/-- Safe code ends as if nothing had come between its instructions. -/
theorem Interrupted.agree {δ : Core → Core → Prop} {base : ℕ} (hδ : ∀ s t, δ s t → Kept base s t)
    {D E : Set ℕ} {s s' t : Core} {ops : List Op} (h : Interrupted δ s' ops t)
    (hsafe : Safe base D s ops E) (hstack : D ⊆ Set.Ico s.sp base) (hagree : Agree D s s') :
    Agree E (run s ops) t := by
  induction h generalizing s D with
  | nil s' =>
    cases hsafe
    exact hagree
  | exec _ ih =>
    cases hsafe with
    | cons hplain hreads hhas hstack' hsafe =>
      exact ih hsafe hstack' ((exec_agree hagree hplain hreads).mono hhas)
  | between hbetween _ ih =>
    refine ih hsafe hstack (hagree.trans ((hδ _ _ hbetween).mono ?_))
    rwa [← hagree.sp]

namespace Safe

variable {base : ℕ} {D E F : Set ℕ} {s : Core} {b : Base} {ws : List (Reg × ℕ)}

/-- One safe program after another. -/
theorem append {ops rest : List Op} (h : Safe base D s ops E) (h' : Safe base E (run s ops) rest F) :
    Safe base D s (ops ++ rest) F := by
  induction h with
  | nil D s => exact h'
  | cons hplain hreads hhas hstack _ ih => exact .cons hplain hreads hhas hstack (ih h')

/-- One instruction. -/
theorem one {op : Op} (hplain : op.plain = true) (hreads : op.reads s ⊆ D) (hhas : E ⊆ D ∪ op.writes s)
    (hstack : E ⊆ Set.Ico (exec s op).sp base) : Safe base D s [op] E :=
  .cons hplain hreads hhas hstack (.nil _ _)

/-- Stores are safe wherever they go. -/
theorem of_stores (hstack : D ⊆ Set.Ico s.sp base) {ops : List Op} (h : storesOf b ops = some ws) :
    Safe base D s ops D := by
  induction ops generalizing s ws with
  | nil => exact .nil D s
  | cons op ops ih =>
    rw [storesOf, Option.bind_eq_bind, Option.bind_eq_some_iff] at h
    obtain ⟨first, hfirst, h⟩ := h
    obtain ⟨rest, hrest, -⟩ := Option.bind_eq_some_iff.mp h
    have hsp : (exec s op).sp = s.sp := by rw [exec_of_stores hfirst]
    have hplain : op.plain = true ∧ op.reads s = ∅ := by
      cases op <;> first | exact ⟨rfl, rfl⟩ | cases hfirst
    have hstack' : D ⊆ Set.Ico (exec s op).sp base := by rwa [hsp]
    exact .cons hplain.1 (hplain.2 ▸ Set.empty_subset D) Set.subset_union_left hstack' (ih hstack' hrest)

/-- What a load reads. -/
theorem reads_of_loads {op : Op} (h : op.loads? b = some ws) (hreads : ∀ w ∈ ws, word (s.base b + w.2) ⊆ D) :
    op.plain = true ∧ op.reads s ⊆ D := by
  unfold Op.loads? at h
  split at h
  · split_ifs at h with hb
    cases h
    obtain ⟨rfl, -⟩ := hb
    exact ⟨rfl, hreads _ (List.mem_singleton_self _)⟩
  · split_ifs at h with hb
    cases h
    obtain ⟨rfl, -⟩ := hb
    exact ⟨rfl, Set.union_subset (hreads _ List.mem_cons_self)
      (hreads _ (List.mem_cons_of_mem _ (List.mem_singleton_self _)))⟩
  · cases h

/-- Loads are safe inside what the code has. -/
theorem of_loads (hstack : D ⊆ Set.Ico s.sp base) {ops : List Op} (h : loadsOf b ops = some ws)
    (hreads : ∀ w ∈ ws, word (s.base b + w.2) ⊆ D) : Safe base D s ops D := by
  induction ops generalizing s ws with
  | nil => exact .nil D s
  | cons op ops ih =>
    rw [loadsOf, Option.bind_eq_bind, Option.bind_eq_some_iff] at h
    obtain ⟨first, hfirst, h⟩ := h
    obtain ⟨rest, hrest, hws⟩ := Option.bind_eq_some_iff.mp h
    cases hws
    obtain ⟨hexec, hbase⟩ := exec_of_loads (s := s) hfirst
    have hstack' : D ⊆ Set.Ico (exec s op).sp base := by rwa [hexec]
    have hsafe : Safe base D (exec s op) ops D := by
      refine ih hstack' hrest fun w hw => ?_
      rw [hexec, hbase]
      exact hreads w (List.mem_append_right _ hw)
    have hplain : op.plain = true ∧ op.reads s ⊆ D :=
      reads_of_loads hfirst fun w hw => hreads w (List.mem_append_left _ hw)
    exact .cons hplain.1 hplain.2 Set.subset_union_left hstack' hsafe

end Safe

end FfaAcs.Machine.StraightLine
