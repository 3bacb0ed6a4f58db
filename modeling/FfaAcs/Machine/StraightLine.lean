import Mathlib.Data.List.Basic
import FfaAcs.Machine.Fields
import FfaAcs.Machine.WordArithmetic

/-!
# Straight-line AArch64 code with a stack

The code between two branches as a list of instructions on a register file, a stack pointer, a few
system registers and memory. Addresses wrap at 64 bits.

A list of stores through one base register that they do not change writes fields, and a list of loads
fills registers from fields. What a load sees of an earlier store is then a fact about fields.
-/

namespace FfaAcs.Machine.StraightLine

/-- The registers of exceptions taken to `EL1` and to `EL2`. -/
inductive SysReg
  | elrEl1
  | elrEl2
  | spsrEl1
  | spsrEl2
deriving DecidableEq, Repr

/-- The general registers, `x0` to `x30`. -/
abbrev Reg := Fin 31

/-- Registers are written as numerals. -/
instance neZero_registers : NeZero 31 := ⟨Nat.succ_ne_zero 30⟩

/-- What the instructions read and write: the general registers, the stack pointer, system registers,
memory. -/
structure Core where
  x : Reg → UInt64
  sp : ℕ
  sys : SysReg → UInt64
  mem : ByteMemory

/-- The register an address is relative to. -/
inductive Base
  | sp
  | x (n : Reg)
deriving DecidableEq, Repr

/-- The instructions, with the target registers first and the immediate last. The pre-indexed forms
subtract their immediate from the stack pointer, and the post-indexed ones add it. -/
inductive Op
  | str (t : Reg) (b : Base) (imm : ℕ)
  | stp (t u : Reg) (b : Base) (imm : ℕ)
  | ldr (t : Reg) (b : Base) (imm : ℕ)
  | ldp (t u : Reg) (b : Base) (imm : ℕ)
  | strPre (t : Reg) (imm : ℕ)
  | stpPre (t u : Reg) (imm : ℕ)
  | ldrPost (t : Reg) (imm : ℕ)
  | ldpPost (t u : Reg) (imm : ℕ)
  | mov (d n : Reg)
  | subSp (imm : ℕ)
  | addSp (imm : ℕ)
  | mrs (t : Reg) (r : SysReg)
  | msr (r : SysReg) (t : Reg)
deriving DecidableEq, Repr

namespace Core

/-- The value of a base register. -/
def base (s : Core) : Base → ℕ
  | .sp => s.sp
  | .x n => (s.x n).toNat

/-- The doubleword at an address. -/
def fetch (s : Core) (a : ℕ) : UInt64 := UInt64.ofNat (s.mem.load (wrap64 a) 8)

/-- Write a register. -/
def put (s : Core) (t : Reg) (v : UInt64) : Core := { s with x := Function.update s.x t v }

/-- Write a doubleword. -/
def poke (s : Core) (a : ℕ) (v : UInt64) : Core := { s with mem := s.mem.store (wrap64 a) 8 v.toNat }

end Core

/-- One instruction. -/
def exec (s : Core) : Op → Core
  | .str t b imm => s.poke (s.base b + imm) (s.x t)
  | .stp t u b imm => (s.poke (s.base b + imm) (s.x t)).poke (s.base b + imm + 8) (s.x u)
  | .ldr t b imm => s.put t (s.fetch (s.base b + imm))
  | .ldp t u b imm => (s.put t (s.fetch (s.base b + imm))).put u (s.fetch (s.base b + imm + 8))
  | .strPre t imm => { s.poke (sub64 s.sp imm) (s.x t) with sp := sub64 s.sp imm }
  | .stpPre t u imm =>
    { (s.poke (sub64 s.sp imm) (s.x t)).poke (sub64 s.sp imm + 8) (s.x u) with sp := sub64 s.sp imm }
  | .ldrPost t imm => { s.put t (s.fetch s.sp) with sp := wrap64 (s.sp + imm) }
  | .ldpPost t u imm =>
    { (s.put t (s.fetch s.sp)).put u (s.fetch (s.sp + 8)) with sp := wrap64 (s.sp + imm) }
  | .mov d n => s.put d (s.x n)
  | .subSp imm => { s with sp := sub64 s.sp imm }
  | .addSp imm => { s with sp := wrap64 (s.sp + imm) }
  | .mrs t r => s.put t (s.sys r)
  | .msr r t => { s with sys := Function.update s.sys r (s.x t) }

/-- A list of instructions. -/
def run (s : Core) (ops : List Op) : Core := ops.foldl exec s

/-- A program after another one is run from where that one ends. -/
theorem run_append (s : Core) (ops rest : List Op) : run s (ops ++ rest) = run (run s ops) rest :=
  List.foldl_append

/-- A pre-indexed store moves the stack pointer and stores at it. -/
theorem exec_stpPre (s : Core) (t u : Reg) (imm : ℕ) :
    exec s (.stpPre t u imm) = exec { s with sp := sub64 s.sp imm } (.stp t u .sp 0) := rfl

/-- The stack pointer is moved down. -/
theorem exec_subSp {s : Core} {imm : ℕ} (h : imm ≤ s.sp) (hlt : s.sp < 2 ^ 64) :
    exec s (.subSp imm) = { s with sp := s.sp - imm } := by
  rw [exec, sub64_of_le h hlt]

/-- Two system registers are read. -/
theorem run_mrs_mrs (s : Core) (t u : Reg) (r q : SysReg) : run s [.mrs t r, .mrs u q] =
    { s with x := Function.update (Function.update s.x t (s.sys r)) u (s.sys q) } := rfl

/-! ## Stores -/

/-- The registers that an instruction stores relative to a base, with their offsets; `none` for
anything else. -/
def Op.stores? (b : Base) : Op → Option (List (Reg × ℕ))
  | .str t b' imm => if b' = b then some [(t, imm)] else none
  | .stp t u b' imm => if b' = b then some [(t, imm), (u, imm + 8)] else none
  | _ => none

/-- The registers that a list of instructions stores relative to a base. -/
def storesOf (b : Base) : List Op → Option (List (Reg × ℕ))
  | [] => some []
  | op :: ops => do
    let first ← op.stores? b
    let rest ← storesOf b ops
    return first ++ rest

/-- The fields that stores write. -/
def storedFields (a : ℕ) (x : Reg → UInt64) (ws : List (Reg × ℕ)) : List (Field × ℕ) :=
  ws.map fun w => (⟨wrap64 (a + w.2), 8⟩, (x w.1).toNat)

/-- A store instruction assigns its words. -/
theorem exec_of_stores {s : Core} {b : Base} {op : Op} {ws : List (Reg × ℕ)} (h : op.stores? b = some ws) :
    exec s op = { s with mem := assign s.mem (storedFields (s.base b) s.x ws) } := by
  unfold Op.stores? at h
  split at h
  · split_ifs at h with hb
    cases h
    rw [hb]
    rfl
  · split_ifs at h with hb
    cases h
    rw [hb]
    rfl
  · cases h

/-- Stores write the fields of their registers. -/
theorem run_of_stores {s : Core} {b : Base} {ops : List Op} {ws : List (Reg × ℕ)}
    (h : storesOf b ops = some ws) :
    run s ops = { s with mem := assign s.mem (storedFields (s.base b) s.x ws) } := by
  induction ops generalizing s ws with
  | nil =>
    cases h
    rfl
  | cons op ops ih =>
    rw [storesOf, Option.bind_eq_bind, Option.bind_eq_some_iff] at h
    obtain ⟨first, hfirst, h⟩ := h
    obtain ⟨rest, hrest, h⟩ := Option.bind_eq_some_iff.mp h
    cases h
    rw [run, List.foldl_cons, ← run, ih hrest, exec_of_stores hfirst]
    cases b <;> simp only [Core.base, storedFields, List.map_append, assign_append]

/-- What a store has written is read back from memory in which it has survived. -/
theorem load_stored {m m' : ByteMemory} {a top k : ℕ} {r : Reg} {x : Reg → UInt64} {ws : List (Reg × ℕ)}
    (hroom : ∀ w ∈ ws, a + w.2 + 8 ≤ top) (htop : top ≤ 2 ^ 64)
    (hapart : ws.Pairwise fun w w' => Apart w.2 8 w'.2 8) (hmem : (r, k) ∈ ws)
    (hsame : ∀ b, a ≤ b → b < top → m' b = assign m (storedFields a x ws) b) :
    m'.load (a + k) 8 = (x r).toNat := by
  have hk := hroom _ hmem
  have hwrap : ∀ w ∈ ws, wrap64 (a + w.2) = a + w.2 := fun w hw => by
    have := hroom w hw
    exact wrap64_of_lt (by omega)
  have hfield : (⟨a + k, 8⟩, (x r).toNat) ∈ storedFields a x ws := by
    rw [← hwrap _ hmem]
    exact List.mem_map_of_mem (f := fun w => ((⟨wrap64 (a + w.2), 8⟩ : Field), (x w.1).toNat)) hmem
  have hdisjoint : ((storedFields a x ws).map Prod.fst).Pairwise Field.Disjoint := by
    rw [storedFields, List.map_map, List.pairwise_map]
    refine hapart.imp_of_mem fun {w w'} hw hw' happ => ?_
    change Apart (wrap64 (a + w.2)) 8 (wrap64 (a + w'.2)) 8
    rw [hwrap w hw, hwrap w' hw']
    omega
  rw [ByteMemory.load_congr fun b hb hlt => hsame b (by omega) (by omega)]
  exact (get_assign_of_mem m hdisjoint hfield).trans (Nat.mod_eq_of_lt (x r).toNat_lt)

/-- Stores into a range leave everything else alone. -/
theorem assign_storedFields_outside {m : ByteMemory} {a lo hi b : ℕ} {x : Reg → UInt64}
    {ws : List (Reg × ℕ)} (hroom : ∀ w ∈ ws, lo ≤ a + w.2 ∧ a + w.2 + 8 ≤ hi) (hhi : hi ≤ 2 ^ 64)
    (hb : b < lo ∨ hi ≤ b) : assign m (storedFields a x ws) b = m b := by
  have hin : ∀ v ∈ storedFields a x ws, v.1.Within lo hi := by
    intro v hv
    obtain ⟨w, hw, rfl⟩ := List.mem_map.mp hv
    have := hroom w hw
    change lo ≤ wrap64 (a + w.2) ∧ wrap64 (a + w.2) + 8 ≤ hi
    rw [wrap64_of_lt (by omega)]
    omega
  exact assign_of_not_covers m (not_covers_of_within hin hb)

/-! ## Loads -/

/-- The registers that an instruction loads relative to the stack pointer or another register that it
does not change, with their offsets. -/
def Op.loads? (b : Base) : Op → Option (List (Reg × ℕ))
  | .ldr t b' imm => if b' = b ∧ b ≠ .x t then some [(t, imm)] else none
  | .ldp t u b' imm => if b' = b ∧ b ≠ .x t ∧ b ≠ .x u then some [(t, imm), (u, imm + 8)] else none
  | _ => none

/-- The registers that a list of instructions loads relative to a base. -/
def loadsOf (b : Base) : List Op → Option (List (Reg × ℕ))
  | [] => some []
  | op :: ops => do
    let first ← op.loads? b
    let rest ← loadsOf b ops
    return first ++ rest

/-- The register file after its registers have been filled. -/
def fill (v : ℕ → UInt64) (x : Reg → UInt64) (ws : List (Reg × ℕ)) : Reg → UInt64 :=
  ws.foldl (fun x w => Function.update x w.1 (v w.2)) x

/-- A register that is not filled. -/
theorem fill_of_not_mem {v : ℕ → UInt64} {x : Reg → UInt64} {r : Reg} {ws : List (Reg × ℕ)}
    (h : r ∉ ws.map Prod.fst) :
    fill v x ws r = x r := by
  induction ws generalizing x with
  | nil => rfl
  | cons w ws ih =>
    rw [List.map_cons, List.mem_cons, not_or] at h
    rw [fill, List.foldl_cons, ← fill, ih h.2, Function.update_of_ne h.1]

/-- A register that is filled once. -/
theorem fill_of_mem {v : ℕ → UInt64} {x : Reg → UInt64} {r : Reg} {k : ℕ} {ws : List (Reg × ℕ)}
    (hnodup : (ws.map Prod.fst).Nodup) (h : (r, k) ∈ ws) : fill v x ws r = v k := by
  induction ws generalizing x with
  | nil => exact absurd h List.not_mem_nil
  | cons w ws ih =>
    rw [List.map_cons, List.nodup_cons] at hnodup
    rw [fill, List.foldl_cons, ← fill]
    rcases List.mem_cons.mp h with rfl | h
    · rw [fill_of_not_mem hnodup.1, Function.update_self]
    · exact ih hnodup.2 h

/-- A load instruction fills its registers, which do not include its base. -/
theorem exec_of_loads {s : Core} {b : Base} {op : Op} {ws : List (Reg × ℕ)} (h : op.loads? b = some ws) :
    exec s op = { s with x := fill (fun k => s.fetch (s.base b + k)) s.x ws } ∧
      { s with x := fill (fun k => s.fetch (s.base b + k)) s.x ws }.base b = s.base b := by
  unfold Op.loads? at h
  split at h
  · split_ifs at h with hb
    cases h
    refine ⟨by rw [hb.1]; rfl, ?_⟩
    cases b with
    | sp => rfl
    | x n => exact congrArg UInt64.toNat (Function.update_of_ne (fun heq => hb.2 (congrArg Base.x heq)) _ _)
  · split_ifs at h with hb
    cases h
    refine ⟨by rw [hb.1]; rfl, ?_⟩
    cases b with
    | sp => rfl
    | x n =>
      refine congrArg UInt64.toNat ?_
      change Function.update (Function.update s.x _ _) _ _ n = s.x n
      rw [Function.update_of_ne fun heq => hb.2.2 (congrArg Base.x heq),
        Function.update_of_ne fun heq => hb.2.1 (congrArg Base.x heq)]
  · cases h

/-- Loads fill their registers and change nothing else. -/
theorem run_of_loads {s : Core} {b : Base} {ops : List Op} {ws : List (Reg × ℕ)}
    (h : loadsOf b ops = some ws) :
    run s ops = { s with x := fill (fun k => s.fetch (s.base b + k)) s.x ws } := by
  induction ops generalizing s ws with
  | nil =>
    cases h
    rfl
  | cons op ops ih =>
    rw [loadsOf, Option.bind_eq_bind, Option.bind_eq_some_iff] at h
    obtain ⟨first, hfirst, h⟩ := h
    obtain ⟨rest, hrest, h⟩ := Option.bind_eq_some_iff.mp h
    cases h
    obtain ⟨hexec, hbase⟩ := exec_of_loads (s := s) hfirst
    rw [run, List.foldl_cons, ← run, ih hrest, hexec, hbase]
    simp only [fill, List.foldl_append, Core.fetch]

end FfaAcs.Machine.StraightLine
