import FfaAcs.Machine.ByteMemory
import FfaAcs.Machine.WordArithmetic

/-!
# A fragment of the AArch64 instruction set

Registers hold 64-bit values as natural numbers, and register 31 reads as zero. A program is a list
of instructions, and a branch names the index of its target, so that `b .` is a branch to itself. An
`adrp` with the `add` of the low bits that follows it is one instruction that takes an address.

A comparison leaves the four flags as the architecture defines them. What a conditional branch tests
is then a comparison of the operands, unsigned or signed.
-/

namespace FfaAcs.Machine.Aarch64

/-- A 64-bit value read as a signed number. -/
def signed64 (x : ℕ) : ℤ := if x < 2 ^ 63 then x else (x : ℤ) - 2 ^ 64

/-- `NZCV`. -/
structure Flags where
  n : Bool
  z : Bool
  c : Bool
  v : Bool
deriving DecidableEq, Repr

/-- The flags of an addition. -/
def Flags.ofAdd (a b : ℕ) : Flags where
  n := decide (2 ^ 63 ≤ wrap64 (a + b))
  z := decide (wrap64 (a + b) = 0)
  c := decide (2 ^ 64 ≤ a + b)
  v := decide (signed64 a + signed64 b ≠ signed64 (wrap64 (a + b)))

/-- The flags of a subtraction; the carry is set if there is no borrow. -/
def Flags.ofSub (a b : ℕ) : Flags where
  n := decide (2 ^ 63 ≤ sub64 a b)
  z := decide (sub64 a b = 0)
  c := decide (b ≤ a)
  v := decide (signed64 a - signed64 b ≠ signed64 (sub64 a b))

/-- The flags of a bitwise and. -/
def Flags.ofAnd (a b : ℕ) : Flags where
  n := decide (2 ^ 63 ≤ a &&& b)
  z := decide (a &&& b = 0)
  c := false
  v := false

/-- The conditions of a branch. -/
inductive Cond
  | eq
  | ne
  | cs
  | lo
  | hi
  | ge
deriving DecidableEq, Repr

/-- What a condition tests. -/
def Cond.holds (f : Flags) : Cond → Bool
  | .eq => f.z
  | .ne => !f.z
  | .cs => f.c
  | .lo => !f.c
  | .hi => f.c && !f.z
  | .ge => f.n == f.v

/-- The instructions. Operands are registers, except for an immediate, an address or a target at the
end. -/
inductive Instr
  | mov (d n : ℕ)
  | adr (d a : ℕ)
  | orr (d n m : ℕ)
  | andImm (d n imm : ℕ)
  | tst (n imm : ℕ)
  | add (d n m : ℕ)
  | addImm (d n imm : ℕ)
  | adds (d n m : ℕ)
  | sub (d n m : ℕ)
  | subImm (d n imm : ℕ)
  | cmp (n m : ℕ)
  | cmpImm (n imm : ℕ)
  | ldr (t n imm : ℕ)
  | str (t n imm : ℕ)
  | stp (t u n : ℕ)
  | b (target : ℕ)
  | bc (c : Cond) (target : ℕ)
  | ret
deriving DecidableEq, Repr

/-- The register that reads as zero. -/
def xzr : ℕ := 31

/-- The state of a CPU in a program. -/
structure Cpu where
  regs : ℕ → ℕ
  flags : Flags
  mem : ByteMemory
  pc : ℕ
  returned : Bool

namespace Cpu

/-- The value of a register. -/
def read (s : Cpu) (r : ℕ) : ℕ := if r = xzr then 0 else s.regs r

/-- Go on with a new value in a register. -/
def put (s : Cpu) (r v : ℕ) : Cpu := { s with regs := Function.update s.regs r v, pc := s.pc + 1 }

/-- Go on with new flags. -/
def set (s : Cpu) (f : Flags) : Cpu := { s with flags := f, pc := s.pc + 1 }

end Cpu

/-- One instruction. -/
def exec (s : Cpu) : Instr → Cpu
  | .mov d n => s.put d (s.read n)
  | .adr d a => s.put d a
  | .orr d n m => s.put d (s.read n ||| s.read m)
  | .andImm d n imm => s.put d (s.read n &&& imm)
  | .tst n imm => s.set (.ofAnd (s.read n) imm)
  | .add d n m => s.put d (wrap64 (s.read n + s.read m))
  | .addImm d n imm => s.put d (wrap64 (s.read n + imm))
  | .adds d n m => { s.put d (wrap64 (s.read n + s.read m)) with flags := .ofAdd (s.read n) (s.read m) }
  | .sub d n m => s.put d (sub64 (s.read n) (s.read m))
  | .subImm d n imm => s.put d (sub64 (s.read n) imm)
  | .cmp n m => s.set (.ofSub (s.read n) (s.read m))
  | .cmpImm n imm => s.set (.ofSub (s.read n) imm)
  | .ldr t n imm => s.put t (s.mem.load (wrap64 (s.read n + imm)) 8)
  | .str t n imm =>
    { s with mem := s.mem.store (wrap64 (s.read n + imm)) 8 (s.read t), pc := s.pc + 1 }
  | .stp t u n =>
    { s with
      mem := (s.mem.store (s.read n) 8 (s.read t)).store (s.read n + 8) 8 (s.read u)
      pc := s.pc + 1 }
  | .b target => { s with pc := target }
  | .bc c target => { s with pc := if c.holds s.flags then target else s.pc + 1 }
  | .ret => { s with returned := true }

/-- One step of a program. Nothing happens behind its end and after it has returned. -/
def step (prog : List Instr) (s : Cpu) : Cpu :=
  if s.returned then s
  else
    match prog[s.pc]? with
    | some i => exec s i
    | none => s

/-- The first steps of a program. -/
def run (prog : List Instr) : ℕ → Cpu → Cpu
  | 0, s => s
  | n + 1, s => run prog n (step prog s)

/-- The zero register reads as zero. -/
@[simp] theorem read_xzr (s : Cpu) : s.read xzr = 0 := if_pos rfl

/-- A pair of zeros is stored. -/
theorem exec_stp_xzr (s : Cpu) (n : ℕ) :
    exec s (.stp xzr xzr n) =
      { s with mem := (s.mem.store (s.read n) 8 0).store (s.read n + 8) 8 0, pc := s.pc + 1 } := by
  rw [exec, read_xzr]

/-- A value is compared with zero. -/
theorem exec_cmp_xzr (s : Cpu) (m : ℕ) : exec s (.cmp xzr m) = s.set (.ofSub 0 (s.read m)) := by
  rw [exec, read_xzr]

/-! ## What the branches test -/

section

variable {a b : ℕ}

/-- `lo` after a comparison: below, unsigned. -/
@[simp] theorem holds_lo_ofSub : Cond.lo.holds (.ofSub a b) = decide (a < b) := by
  simp only [Cond.holds, Flags.ofSub, ← decide_not, Nat.not_le]

/-- A difference is zero exactly if the words are equal. -/
theorem sub64_eq_zero (ha : a < 2 ^ 64) (hb : b < 2 ^ 64) : sub64 a b = 0 ↔ a = b := by
  unfold sub64
  omega

/-- `eq` after a comparison: equal. -/
theorem holds_eq_ofSub (ha : a < 2 ^ 64) (hb : b < 2 ^ 64) :
    Cond.eq.holds (.ofSub a b) = decide (a = b) := by
  simp [Cond.holds, Flags.ofSub, sub64_eq_zero ha hb]

/-- `ne` after a comparison: not equal. -/
theorem holds_ne_ofSub (ha : a < 2 ^ 64) (hb : b < 2 ^ 64) :
    Cond.ne.holds (.ofSub a b) = decide (a ≠ b) := by
  simp [Cond.holds, Flags.ofSub, sub64_eq_zero ha hb]

/-- `hi` after a comparison: above, unsigned. -/
theorem holds_hi_ofSub (ha : a < 2 ^ 64) (hb : b < 2 ^ 64) :
    Cond.hi.holds (.ofSub a b) = decide (b < a) := by
  simp only [Cond.holds, Flags.ofSub, sub64_eq_zero ha hb, ← decide_not, ← Bool.decide_and]
  congr 1
  rw [eq_iff_iff]
  omega

/-- The sign and the overflow of a difference agree if the first operand is not below the second, as
signed numbers. -/
theorem holds_ge_ofSub (ha : a < 2 ^ 64) (hb : b < 2 ^ 64) :
    Cond.ge.holds (.ofSub a b) = decide (signed64 b ≤ signed64 a) := by
  have hsub : sub64 a b = if b ≤ a then a - b else a + 2 ^ 64 - b := by
    unfold sub64
    split <;> omega
  simp only [Cond.holds, Flags.ofSub, hsub]
  rw [Bool.eq_iff_iff, beq_iff_eq, decide_eq_decide, decide_eq_true_iff]
  unfold signed64
  split_ifs <;> constructor <;> intro h <;> omega

/-- `cs` after an addition: it has wrapped. -/
@[simp] theorem holds_cs_ofAdd : Cond.cs.holds (.ofAdd a b) = decide (2 ^ 64 ≤ a + b) := rfl

/-- `eq` after a test of bits: none of them is set. -/
@[simp] theorem holds_eq_ofAnd : Cond.eq.holds (.ofAnd a b) = decide (a &&& b = 0) := rfl

end

/-! ## Runs -/

/-- A program that stays where it is without having returned. -/
def Spins (prog : List Instr) (s : Cpu) : Prop := s.returned = false ∧ step prog s = s

/-- A run from `s` comes to a state with the property. -/
def Leads (prog : List Instr) (s : Cpu) (Q : Cpu → Prop) : Prop := ∃ n, Q (run prog n s)

section

variable {prog : List Instr} {s : Cpu} {P Q : Cpu → Prop}

/-- A run of `m + n` steps is a run of `m` and then of `n`. -/
theorem run_add (m n : ℕ) : run prog (m + n) s = run prog n (run prog m s) := by
  induction m generalizing s with
  | zero => rw [Nat.zero_add, run]
  | succ m ih => rw [Nat.succ_add, run, run, ih]

/-- A state in which nothing happens any more. -/
theorem run_of_fixed (h : step prog s = s) (n : ℕ) : run prog n s = s := by
  induction n with
  | zero => rfl
  | succ n ih => rw [run, h, ih]

/-- A program that has returned makes no more steps. -/
theorem step_of_returned (h : s.returned = true) : step prog s = s := if_pos h

/-- A program at its end makes no more steps. -/
theorem step_of_end (h : s.pc = prog.length) : step prog s = s := by
  unfold step
  rw [h, List.getElem?_length]
  split <;> rfl

/-- A step of a program that has not returned. -/
theorem step_of_fetch {i : Instr} (hrunning : s.returned = false) (hfetch : prog[s.pc]? = some i) :
    step prog s = exec s i := by
  simp only [step, hrunning, hfetch, Bool.false_eq_true, if_false]

/-- A conditional branch to itself that is taken. -/
theorem spins_of_bc {c : Cond} (hrunning : s.returned = false)
    (hfetch : prog[s.pc]? = some (.bc c s.pc)) (hholds : c.holds s.flags = true) : Spins prog s := by
  refine ⟨hrunning, ?_⟩
  rw [step_of_fetch hrunning hfetch, exec, if_pos hholds]

namespace Leads

/-- A state that has the property is reached at once. -/
theorem here (h : Q s) : Leads prog s Q := ⟨0, h⟩

/-- The way to one state and the way on from it. -/
theorem trans (h : Leads prog s P) (hrest : ∀ t, P t → Leads prog t Q) : Leads prog s Q := by
  obtain ⟨m, hm⟩ := h
  obtain ⟨n, hn⟩ := hrest _ hm
  exact ⟨m + n, by rw [run_add]; exact hn⟩

/-- What follows from the property of the state that is reached. -/
theorem imp (h : Leads prog s P) (hrest : ∀ t, P t → Q t) : Leads prog s Q :=
  h.trans fun t ht => here (hrest t ht)

/-- A program comes to one state in which it stops, whatever is said about that state. -/
theorem and_of_stop {E : Cpu → Prop} (hstop : ∀ t, E t → step prog t = t)
    (hP : Leads prog s fun t => E t ∧ P t) (hQ : Leads prog s fun t => E t ∧ Q t) :
    Leads prog s fun t => E t ∧ P t ∧ Q t := by
  obtain ⟨m, hm, hPm⟩ := hP
  obtain ⟨n, hn, hQn⟩ := hQ
  have hsame : run prog m s = run prog n s := by
    rcases Nat.le_total m n with hle | hle
    · obtain ⟨d, rfl⟩ := Nat.exists_eq_add_of_le hle
      rw [run_add, run_of_fixed (hstop _ hm)]
    · obtain ⟨d, rfl⟩ := Nat.exists_eq_add_of_le hle
      rw [run_add, run_of_fixed (hstop _ hn)]
  exact ⟨m, hm, hPm, by rw [hsame]; exact hQn⟩

/-- What is said about the memory in which a program stops. -/
theorem mem_of_stop {E : Cpu → Prop} (hstop : ∀ t, E t → step prog t = t) {M : ByteMemory}
    {P : ByteMemory → Prop} (h : Leads prog s fun t => E t ∧ t.mem = M) :
    Leads prog s (fun t => E t ∧ P t.mem) ↔ P M := by
  constructor
  · intro hP
    obtain ⟨n, -, hmem, hn⟩ := and_of_stop hstop h hP
    exact hmem ▸ hn
  · intro hP
    exact h.imp fun t ht => ⟨ht.1, ht.2 ▸ hP⟩

/-- One instruction. -/
theorem exec {i : Instr} (hrunning : s.returned = false) (hfetch : prog[s.pc]? = some i)
    (h : Leads prog (exec s i) Q) : Leads prog s Q := by
  obtain ⟨n, hn⟩ := h
  refine ⟨n + 1, ?_⟩
  rw [run, step_of_fetch hrunning hfetch]
  exact hn

/-- A branch that is taken. -/
theorem taken {c : Cond} {target : ℕ} (hrunning : s.returned = false)
    (hfetch : prog[s.pc]? = some (.bc c target)) (hholds : c.holds s.flags = true)
    (h : Leads prog { s with pc := target } Q) : Leads prog s Q := by
  refine exec hrunning hfetch ?_
  rw [Aarch64.exec, if_pos hholds]
  exact h

/-- A branch that is not taken. -/
theorem passed {c : Cond} {target : ℕ} (hrunning : s.returned = false)
    (hfetch : prog[s.pc]? = some (.bc c target)) (hholds : c.holds s.flags = false)
    (h : Leads prog { s with pc := s.pc + 1 } Q) : Leads prog s Q := by
  refine exec hrunning hfetch ?_
  rw [Aarch64.exec, if_neg (by rw [hholds]; decide)]
  exact h

/-- A branch that tests a property. -/
theorem branch {c : Cond} {target : ℕ} {p : Prop} [Decidable p] (hrunning : s.returned = false)
    (hfetch : prog[s.pc]? = some (.bc c target)) (hholds : c.holds s.flags = decide p)
    (htaken : p → Leads prog { s with pc := target } Q)
    (hpassed : ¬p → Leads prog { s with pc := s.pc + 1 } Q) : Leads prog s Q := by
  by_cases hp : p
  · exact taken hrunning hfetch (hholds.trans (decide_eq_true hp)) (htaken hp)
  · exact passed hrunning hfetch (hholds.trans (decide_eq_false hp)) (hpassed hp)

/-- A check that ends in a branch to itself if it fails. -/
theorem guard {c : Cond} {p : Prop} [Decidable p] (hrunning : s.returned = false)
    (hfetch : prog[s.pc]? = some (.bc c s.pc)) (hholds : c.holds s.flags = decide p)
    (hpassed : ¬p → Leads prog { s with pc := s.pc + 1 } fun t => Spins prog t ∨ Q t) :
    Leads prog s fun t => Spins prog t ∨ Q t := by
  by_cases hp : p
  · exact here (Or.inl (spins_of_bc hrunning hfetch (hholds.trans (decide_eq_true hp))))
  · exact passed hrunning hfetch (hholds.trans (decide_eq_false hp)) (hpassed hp)

/-- A loop whose body takes each state of a sequence to the next one. -/
theorem loop {I : ℕ → Cpu → Prop} {n : ℕ} (hbody : ∀ k < n, ∀ t, I k t → Leads prog t (I (k + 1)))
    (hstart : I 0 s) : Leads prog s (I n) := by
  induction n with
  | zero => exact here hstart
  | succ n ih =>
    exact (ih fun k hk => hbody k (by omega)).trans (hbody n (by omega))

end Leads

end

end FfaAcs.Machine.Aarch64
