import FfaAcs.Driver.IrqDispatch
import FfaAcs.Machine.StraightLine

/-!
# Exceptions at the current level

The vectors for exceptions taken with `SP_ELx` save the volatile registers, the return address and
the saved status in a frame on the stack, call a C handler and restore the frame. What the handler
returns in `x0` decides whether the return address comes from the frame or stays as the register has
it.

A handler is code that follows the procedure call standard. On the stack it writes below the stack
pointer it was called with only, it may write the return address itself, and further exceptions may be
taken while it runs, to any depth. An endpoint runs at `EL1`, except for VM1 without a hypervisor,
which runs at `EL2`. The frame is saved from the registers of the level that the vector names, and is
always restored to those of `EL1`.
-/

namespace FfaAcs.Exception

open Machine Machine.StraightLine

/-- The level at which an endpoint runs. -/
inductive Level
  | el1
  | el2
deriving DecidableEq, Repr

namespace Level

/-- `elr_elx`. -/
def elr : Level → SysReg
  | el1 => .elrEl1
  | el2 => .elrEl2

/-- `spsr_elx`. -/
def spsr : Level → SysReg
  | el1 => .spsrEl1
  | el2 => .spsrEl2

end Level

/-- The vectors that have a handler. -/
inductive Vector
  | sync
  | irq
  | fiq
deriving DecidableEq, Repr

/-- The level whose registers a vector saves: `sync_current_el_spx` saves those of `EL1` in every
build. -/
def Vector.saves (el : Level) : Vector → Level
  | sync => .el1
  | irq => el
  | fiq => el

/-- The stack space of a frame. -/
def frameSize : ℕ := 8 * 24

/-- `save_volatile_to_stack`. -/
def saveVolatileToStack (elx : Level) : List Op :=
  [.stpPre 0 1 frameSize, .stp 2 3 .sp (8 * 2), .stp 4 5 .sp (8 * 4), .stp 6 7 .sp (8 * 6),
    .stp 8 9 .sp (8 * 8), .stp 10 11 .sp (8 * 10), .stp 12 13 .sp (8 * 12), .stp 14 15 .sp (8 * 14),
    .stp 16 17 .sp (8 * 16), .str 18 .sp (8 * 18), .stp 29 30 .sp (8 * 20),
    .mrs 0 elx.elr, .mrs 1 elx.spsr, .stp 0 1 .sp (8 * 22)]

/-- The first loads of `restore_from_stack_and_return`. -/
def restoreVolatile : List Op :=
  [.ldp 2 3 .sp (8 * 2), .ldp 4 5 .sp (8 * 4), .ldp 6 7 .sp (8 * 6), .ldp 8 9 .sp (8 * 8),
    .ldp 10 11 .sp (8 * 10), .ldp 12 13 .sp (8 * 12), .ldp 14 15 .sp (8 * 14), .ldp 16 17 .sp (8 * 16),
    .ldr 18 .sp (8 * 18), .ldp 29 30 .sp (8 * 20)]

/-- `restore_from_stack_and_return`, up to its `eret`. -/
def restoreFromStack (t : Core) : Core :=
  let s := run t restoreVolatile
  -- `cbnz x0, skip_elr`
  let s := if s.x 0 ≠ 0 then s else run s [.ldr 1 .sp (8 * 22), .msr .elrEl1 1]
  run s [.ldr 1 .sp (8 * 23), .msr .spsrEl1 1, .ldpPost 0 1 frameSize]

/-- A CPU, with the address and the status of the code it runs. -/
structure Cpu where
  core : Core
  pc : UInt64
  pstate : UInt64

/-- The registers with which the handler of a vector is called: the CPU notes where it was, and the
vector saves the frame. -/
def enter (el : Level) (v : Vector) (s : Cpu) : Core :=
  run { s.core with sys := Function.update (Function.update s.core.sys el.elr s.pc) el.spsr s.pstate }
    (saveVolatileToStack (v.saves el))

/-- A handler has returned: the frame is restored, and `eret` goes on where the registers of the level
say. -/
def leave (el : Level) (w : Core) : Cpu :=
  ⟨restoreFromStack w, (restoreFromStack w).sys el.elr, (restoreFromStack w).sys el.spsr⟩

/-- `val_irq_current`, by what the dispatcher of the platform returns. -/
def valIrqCurrent : Driver.PalStatus → Bool
  | .error => false
  | .success => true

/-- What a function that returns a `bool` leaves in `x0`. -/
def ofBool (b : Bool) : UInt64 := if b then 1 else 0

/-- The registers that a function keeps by the procedure call standard, beside the stack pointer. -/
structure Returns (s w : Core) : Prop where
  sp : w.sp = s.sp
  x : ∀ r : Reg, 19 ≤ r → r ≤ 28 → w.x r = s.x r

/-- What has changed the return address while a handler ran: an exception it took has returned, or it
has written the register. -/
inductive Note
  | resumed (pc pstate : UInt64)
  | wroteElr (a : UInt64)
deriving DecidableEq, Repr

/-- A handler that was called with the stack pointer `top`, on a stack that ends at `base`, runs from
one point to another. -/
inductive Runs (el : Level) (base : ℕ) : ℕ → Cpu → List Note → Cpu → Prop
  | start (top : ℕ) (s : Cpu) : Runs el base top s [] s
  | compute {top : ℕ} {s t u : Cpu} {ns : List Note} (h : Runs el base top s ns t)
      (hmem : ∀ a, top ≤ a → a < base → u.core.mem a = t.core.mem a) (hsys : u.core.sys = t.core.sys) :
      Runs el base top s ns u
  | writeElr {top : ℕ} {s t : Cpu} {ns : List Note} (h : Runs el base top s ns t) (a : UInt64) :
      Runs el base top s (ns ++ [.wroteElr a])
        { t with core := { t.core with sys := Function.update t.core.sys el.elr a } }
  | exception {top : ℕ} {s t w : Cpu} {ns ms : List Note} (h : Runs el base top s ns t)
      (v : Vector) (hsp : t.core.sp ≤ top) (hroom : frameSize ≤ t.core.sp) (pc pstate : UInt64)
      (hrun : Runs el base (t.core.sp - frameSize) ⟨enter el v t, pc, pstate⟩ ms w)
      (hret : Returns (enter el v t) w.core) :
      Runs el base top s (ns ++ [.resumed (leave el w.core).pc (leave el w.core).pstate])
        (leave el w.core)

/-- An exception taken through a vector on a stack that ends at `base`, whose handler has returned in
`w`. -/
structure Taken (el : Level) (base : ℕ) (v : Vector) (s : Cpu) (ns : List Note) (w : Core) : Prop where
  room : frameSize ≤ s.core.sp
  stack : s.core.sp ≤ base
  bound : base < 2 ^ 64
  runs : ∃ pc pstate t, Runs el base (s.core.sp - frameSize) ⟨enter el v s, pc, pstate⟩ ns t ∧ t.core = w
  returns : Returns (enter el v s) w

/-! ## The frame -/

/-- Where the frame has the registers. -/
def savedSlots : List (Reg × ℕ) :=
  [(0, 0), (1, 8), (2, 16), (3, 24), (4, 32), (5, 40), (6, 48), (7, 56), (8, 64), (9, 72), (10, 80),
    (11, 88), (12, 96), (13, 104), (14, 112), (15, 120), (16, 128), (17, 136), (18, 144), (29, 160),
    (30, 168)]

/-- Where the frame has the return address and the status. -/
def statusSlots : List (Reg × ℕ) := [(0, 176), (1, 184)]

/-- The stores of the entry put each saved register into its slot. -/
theorem storesOf_saved :
    storesOf .sp (.stp 0 1 .sp 0 :: (saveVolatileToStack .el1).tail.take 10) = some savedSlots := by decide

/-- The last store of the entry puts the two system registers into their slots. -/
theorem storesOf_status : storesOf .sp [.stp 0 1 .sp (8 * 22)] = some statusSlots := by decide

/-- The loads of the exit take the registers, but for `x0` and `x1`, from their slots. -/
theorem loadsOf_restored : loadsOf .sp restoreVolatile = some (savedSlots.drop 2) := by decide

/-- The slots in a frame at `a`. -/
theorem savedSlots_within (a : ℕ) : ∀ w ∈ savedSlots, a ≤ a + w.2 ∧ a + w.2 + 8 ≤ a + 176 := by
  have hslots : ∀ w ∈ savedSlots, w.2 + 8 ≤ 176 := by decide
  intro w hw
  have := hslots w hw
  omega

/-- The system registers are saved in the last two words of the frame. -/
theorem statusSlots_within (a : ℕ) :
    ∀ w ∈ statusSlots, a + 176 ≤ a + w.2 ∧ a + w.2 + 8 ≤ a + frameSize := by
  have hslots : ∀ w ∈ statusSlots, 176 ≤ w.2 ∧ w.2 + 8 ≤ frameSize := by decide
  intro w hw
  have := hslots w hw
  omega

variable {el : Level} {base : ℕ} {v : Vector}

/-- The first two registers are saved where the stack pointer goes. -/
theorem exec_push {s : Core} (hroom : frameSize ≤ s.sp) (hbound : s.sp < 2 ^ 64) :
    exec s (.stpPre 0 1 frameSize) = exec { s with sp := s.sp - frameSize } (.stp 0 1 .sp 0) := by
  rw [exec_stpPre, sub64_of_le hroom hbound]

/-- The state after the frame has been saved. -/
theorem run_save (elx : Level) {s : Core} (hroom : frameSize ≤ s.sp) (hbound : s.sp < 2 ^ 64) :
    run s (saveVolatileToStack elx) =
      { x := Function.update (Function.update s.x 0 (s.sys elx.elr)) 1 (s.sys elx.spsr)
        sp := s.sp - frameSize
        sys := s.sys
        mem := assign (assign s.mem (storedFields (s.sp - frameSize) s.x savedSlots))
          (storedFields (s.sp - frameSize)
            (Function.update (Function.update s.x 0 (s.sys elx.elr)) 1 (s.sys elx.spsr)) statusSlots) } := by
  have hsplit : saveVolatileToStack elx = .stpPre 0 1 frameSize :: ((saveVolatileToStack .el1).tail.take 10 ++
      ([.mrs 0 elx.elr, .mrs 1 elx.spsr] ++ [.stp 0 1 .sp (8 * 22)])) := rfl
  rw [hsplit, run, List.foldl_cons, exec_push hroom hbound, ← List.foldl_cons (f := exec), ← run,
    ← List.cons_append, run_append, run_of_stores storesOf_saved, run_append, run_mrs_mrs,
    run_of_stores storesOf_status]
  dsimp only [Core.base]

/-- What memory holds while the handler runs: the registers, the return address and the status. -/
structure Saved (s : Core) (elx : Level) (m : ByteMemory) : Prop where
  x : ∀ w ∈ savedSlots, m.load (s.sp - frameSize + w.2) 8 = (s.x w.1).toNat
  elr : m.load (s.sp - frameSize + 176) 8 = (s.sys elx.elr).toNat
  spsr : m.load (s.sp - frameSize + 184) 8 = (s.sys elx.spsr).toNat

/-- The frame survives as long as nothing is written above the stack pointer of the handler. -/
theorem saved_of_kept (elx : Level) {s : Core} {m : ByteMemory} (hroom : frameSize ≤ s.sp)
    (hbound : s.sp < 2 ^ 64)
    (hkept : ∀ a, s.sp - frameSize ≤ a → a < s.sp → m a = (run s (saveVolatileToStack elx)).mem a) :
    Saved s elx m := by
  have hsize : frameSize = 192 := rfl
  rw [run_save elx hroom hbound] at hkept
  dsimp only at hkept
  have hstatus : ∀ {r : Reg} {k : ℕ}, (r, k) ∈ statusSlots → m.load (s.sp - frameSize + k) 8 =
      (Function.update (Function.update s.x 0 (s.sys elx.elr)) 1 (s.sys elx.spsr) r).toNat :=
    fun hmem => load_stored (fun w hw => (statusSlots_within _ w hw).2) (by omega) (by decide) hmem
      fun b hb hlt => hkept b (by omega) (by omega)
  refine ⟨fun w hw => ?_, hstatus (r := 0) (by decide), hstatus (r := 1) (by decide)⟩
  refine load_stored (m := s.mem) (fun w hw => (savedSlots_within _ w hw).2) (by omega) (by decide) hw
    fun b hb hlt => ?_
  rw [hkept b hb (by omega), assign_storedFields_outside (statusSlots_within _) (by omega) (Or.inl hlt)]

/-- The last loads fill the first two registers, whether the return address is restored or not. -/
theorem run_last_x (s : Core) (r : Reg) :
    (run (if s.x 0 ≠ 0 then s else run s [.ldr 1 .sp (8 * 22), .msr .elrEl1 1])
      [.ldr 1 .sp (8 * 23), .msr .spsrEl1 1, .ldpPost 0 1 frameSize]).x r =
        if r = 1 then s.fetch (s.sp + 8) else if r = 0 then s.fetch s.sp else s.x r := by
  have hne : ¬(0 : Reg) = 1 := by decide
  split_ifs <;> simp only [run, List.foldl_cons, List.foldl_nil, exec, Core.put, Core.fetch,
    Function.update_apply, *, if_true, if_false]

/-- The registers after the frame has been restored. -/
theorem restoreFromStack_x (t : Core) (r : Reg) : (restoreFromStack t).x r =
    if r = 1 then t.fetch (t.sp + 8) else if r = 0 then t.fetch t.sp
    else fill (fun k => t.fetch (t.sp + k)) t.x (savedSlots.drop 2) r := by
  rw [restoreFromStack, run_of_loads loadsOf_restored]
  exact run_last_x { t with x := fill (fun k => t.fetch (t.sp + k)) t.x (savedSlots.drop 2) } r

/-- The exit removes the frame. -/
theorem restoreFromStack_sp (t : Core) : (restoreFromStack t).sp = wrap64 (t.sp + frameSize) := by
  rw [restoreFromStack, run_of_loads loadsOf_restored]
  dsimp only
  split_ifs <;> rfl

/-- The exit does not write to memory. -/
theorem restoreFromStack_mem (t : Core) : (restoreFromStack t).mem = t.mem := by
  rw [restoreFromStack, run_of_loads loadsOf_restored]
  dsimp only
  split_ifs <;> rfl

/-- The system registers after the frame has been restored. -/
theorem restoreFromStack_sys (t : Core) : (restoreFromStack t).sys =
    Function.update (if t.x 0 ≠ 0 then t.sys else Function.update t.sys .elrEl1 (t.fetch (t.sp + 176)))
      .spsrEl1 (t.fetch (t.sp + 184)) := by
  have hx : fill (fun k => t.fetch (t.sp + k)) t.x (savedSlots.drop 2) 0 = t.x 0 :=
    fill_of_not_mem (by decide)
  rw [restoreFromStack, run_of_loads loadsOf_restored]
  simp only [Core.base, hx]
  split_ifs <;> rfl

/-! ## What a handler keeps -/

/-- Where the frame has a volatile register. -/
def slot (r : Reg) : ℕ := if r ≤ 18 then 8 * r.val else 8 * (r.val - 9)

/-- Every register but `x19` to `x28` has a slot. -/
theorem mem_savedSlots : ∀ r : Reg, (r < 19 ∨ 28 < r) → (r, slot r) ∈ savedSlots := by decide

/-- Of these, all but `x0` and `x1` are among those that the loads restore. -/
theorem mem_savedSlots_drop :
    ∀ r : Reg, 2 ≤ r ∧ (r < 19 ∨ 28 < r) → (r, slot r) ∈ savedSlots.drop 2 := by decide

/-- The loads leave `x19` to `x28` alone. -/
theorem not_mem_savedSlots_drop :
    ∀ r : Reg, 19 ≤ r ∧ r ≤ 28 → r ∉ (savedSlots.drop 2).map Prod.fst := by decide

/-- A register that is neither `x0` nor `x1` is `x2` or later. -/
theorem two_le_of_ne : ∀ {r : Reg}, r ≠ 0 → r ≠ 1 → 2 ≤ r := by decide

section Entry

variable {s : Cpu}

/-- The CPU before the frame is saved. -/
def noted (el : Level) (s : Cpu) : Core :=
  { s.core with sys := Function.update (Function.update s.core.sys el.elr s.pc) el.spsr s.pstate }

/-- What the CPU notes. -/
theorem noted_sys (el : Level) (s : Cpu) :
    (noted el s).sys el.elr = s.pc ∧ (noted el s).sys el.spsr = s.pstate := by
  have hne : el.elr ≠ el.spsr := by cases el <;> decide
  exact ⟨(Function.update_of_ne hne _ _).trans (Function.update_self _ _ _), Function.update_self _ _ _⟩

/-- The entry of a vector is the saving of the registers: it makes room for the frame, and of the registers
it changes `x0` and `x1` only. -/
theorem enter_eq (v : Vector) (hroom : frameSize ≤ s.core.sp) (hbound : s.core.sp < 2 ^ 64) :
    enter el v s = run (noted el s) (saveVolatileToStack (v.saves el)) ∧
      (enter el v s).sp = s.core.sp - frameSize ∧ (enter el v s).sys = (noted el s).sys ∧
      ∀ r : Reg, 2 ≤ r → (enter el v s).x r = s.core.x r := by
  refine ⟨rfl, ?_⟩
  have hsave := run_save (v.saves el) (s := noted el s) hroom hbound
  rw [show enter el v s = _ from hsave]
  refine ⟨rfl, rfl, fun r hr => ?_⟩
  dsimp only
  have h0 : r ≠ 0 := fun h => absurd (h ▸ hr) (by decide)
  have h1 : r ≠ 1 := fun h => absurd (h ▸ hr) (by decide)
  rw [Function.update_of_ne h1, Function.update_of_ne h0]
  rfl

/-- Saving the frame writes below the stack pointer only. -/
theorem enter_mem (v : Vector) (hroom : frameSize ≤ s.core.sp) (hbound : s.core.sp < 2 ^ 64) {a : ℕ}
    (ha : s.core.sp ≤ a) : (enter el v s).mem a = s.core.mem a := by
  have hsize : frameSize = 192 := rfl
  have hsave := run_save (v.saves el) (s := noted el s) hroom hbound
  rw [show enter el v s = _ from hsave]
  have hsp : (noted el s).sp = s.core.sp := rfl
  dsimp only
  rw [assign_storedFields_outside (statusSlots_within _) (by omega) (Or.inr (by omega)),
    assign_storedFields_outside (savedSlots_within _) (by omega) (Or.inr (by omega))]
  rfl

end Entry

/-- A handler does not write above the stack pointer it was called with, however many exceptions it
takes. -/
theorem Runs.mem {top : ℕ} {s t : Cpu} {ns : List Note} (h : Runs el base top s ns t)
    (htop : top < 2 ^ 64) : ∀ a, top ≤ a → a < base → t.core.mem a = s.core.mem a := by
  induction h with
  | start top s => exact fun a _ _ => rfl
  | compute _ hmem _ ih =>
    intro a ha hbase
    rw [hmem a ha hbase, ih htop a ha hbase]
  | writeElr _ _ ih => exact ih htop
  | exception _ v hsp hroom pc pstate _ _ ih ihrun =>
    intro a ha hbase
    have hbound := hsp.trans_lt htop
    rw [← ih htop a ha hbase, ← enter_mem v hroom hbound (hsp.trans ha)]
    refine Eq.trans ?_ (ihrun (by omega) a (by omega) hbase)
    exact congrFun (restoreFromStack_mem _) a

/-- The return address after what has been noted. -/
def Note.elr (_ : UInt64) : Note → UInt64
  | resumed pc _ => pc
  | wroteElr b => b

/-- The status after what has been noted. -/
def Note.spsr (p : UInt64) : Note → UInt64
  | resumed _ pstate => pstate
  | wroteElr _ => p

/-- The registers of the level follow the notes. -/
theorem Runs.status {top : ℕ} {s t : Cpu} {ns : List Note} (h : Runs el base top s ns t) :
    t.core.sys el.elr = ns.foldl Note.elr (s.core.sys el.elr) ∧
      t.core.sys el.spsr = ns.foldl Note.spsr (s.core.sys el.spsr) := by
  induction h with
  | start top s => exact ⟨rfl, rfl⟩
  | compute _ _ hsys ih => exact hsys.symm ▸ ih
  | writeElr _ _ ih =>
    rw [List.foldl_append, List.foldl_append, ← ih.1, ← ih.2]
    have hne : el.spsr ≠ el.elr := by cases el <;> decide
    exact ⟨Function.update_self _ _ _, Function.update_of_ne hne _ _⟩
  | exception _ v hsp hroom pc pstate _ _ ih _ =>
    rw [List.foldl_append, List.foldl_append]
    exact ⟨rfl, rfl⟩

section Taken

variable {s : Cpu} {ns : List Note} {w : Core}

/-- The stack pointer of a CPU that takes an exception is a word. -/
theorem Taken.sp_lt (h : Taken el base v s ns w) : s.core.sp < 2 ^ 64 := h.stack.trans_lt h.bound

/-- The frame is intact when the handler returns. -/
theorem Taken.saved (h : Taken el base v s ns w) : Saved (noted el s) (v.saves el) w.mem := by
  obtain ⟨pc, pstate, t, hrun, rfl⟩ := h.runs
  have hlt := h.sp_lt
  have hstack := h.stack
  exact saved_of_kept (v.saves el) h.room hlt fun a ha hsp => hrun.mem (by omega) a ha (hsp.trans_le hstack)

/-- A handler returns with the stack pointer below the frame, as it was called. -/
theorem Taken.sp (h : Taken el base v s ns w) : w.sp = s.core.sp - frameSize :=
  h.returns.sp.trans (enter_eq v h.room h.sp_lt).2.1

/-- A doubleword of the frame. -/
theorem Taken.fetch (h : Taken el base v s ns w) {k : ℕ} {x : UInt64} (hk : k < frameSize)
    (hload : w.mem.load (s.core.sp - frameSize + k) 8 = x.toNat) : w.fetch (w.sp + k) = x := by
  have hroom := h.room
  have hbound := h.sp_lt
  rw [Core.fetch, h.sp, wrap64_of_lt (by omega), hload, UInt64.ofNat_toNat]

/-- An exception is invisible to the code it interrupts, whatever its handler does and however many
exceptions the handler takes in turn: every register, the stack pointer and the stack are as before. -/
theorem Taken.keeps (h : Taken el base v s ns w) :
    (leave el w).core.x = s.core.x ∧ (leave el w).core.sp = s.core.sp ∧
      ∀ a, s.core.sp ≤ a → a < base → (leave el w).core.mem a = s.core.mem a := by
  have hsize : frameSize = 192 := rfl
  have hroom := h.room
  have hbound := h.sp_lt
  have hslot : ∀ r : Reg, (r < 19 ∨ 28 < r) → w.fetch (w.sp + slot r) = s.core.x r := by
    intro r hvolatile
    have hmem := mem_savedSlots r hvolatile
    have hwithin := savedSlots_within 0 _ hmem
    have hload := h.saved.x _ hmem
    dsimp only [noted] at hwithin hload
    exact h.fetch (by omega) hload
  refine ⟨funext fun r => ?_, ?_, fun a ha hbase => ?_⟩
  · rw [leave, restoreFromStack_x]
    split_ifs with h1 h0
    · rw [h1, ← hslot 1 (by decide), show slot 1 = 8 from rfl]
    · rw [h0, ← hslot 0 (by decide), show slot 0 = 0 from rfl, Nat.add_zero]
    · have hr : 2 ≤ r := two_le_of_ne h0 h1
      by_cases hvolatile : r < 19 ∨ 28 < r
      · rw [fill_of_mem (by decide) (mem_savedSlots_drop r ⟨hr, hvolatile⟩)]
        exact hslot r hvolatile
      · rw [not_or, not_lt, not_lt] at hvolatile
        rw [fill_of_not_mem (not_mem_savedSlots_drop r hvolatile), h.returns.x r hvolatile.1 hvolatile.2,
          (enter_eq v hroom hbound).2.2.2 r hr]
  · rw [leave, restoreFromStack_sp, h.sp, Nat.sub_add_cancel hroom, wrap64_of_lt hbound]
  · obtain ⟨pc, pstate, t, hrun, rfl⟩ := h.runs
    rw [leave, restoreFromStack_mem, hrun.mem (by omega) a (by omega) hbase]
    exact enter_mem v hroom hbound ha

/-- The registers of the level when the handler returns. -/
theorem Taken.status (h : Taken el base v s ns w) :
    w.sys el.elr = ns.foldl Note.elr s.pc ∧ w.sys el.spsr = ns.foldl Note.spsr s.pstate := by
  obtain ⟨pc, pstate, t, hrun, rfl⟩ := h.runs
  have hstatus := hrun.status
  dsimp only at hstatus
  rwa [(enter_eq v h.room h.sp_lt).2.2.1, (noted_sys el s).1, (noted_sys el s).2] at hstatus

/-- Where an exception goes on, and with which status. -/
theorem Taken.leave_eq (h : Taken el base v s ns w) :
    (leave el w).pc = (if el = .el1 ∧ w.x 0 = 0 then s.pc else ns.foldl Note.elr s.pc) ∧
      (leave el w).pstate = if el = .el1 then s.pstate else ns.foldl Note.spsr s.pstate := by
  simp only [leave, restoreFromStack_sys]
  cases el with
  | el1 =>
    have hsaved := h.saved
    rw [show v.saves .el1 = .el1 by cases v <;> rfl] at hsaved
    have helr : w.fetch (w.sp + 176) = s.pc :=
      h.fetch (by decide) (hsaved.elr.trans (congrArg UInt64.toNat (noted_sys .el1 s).1))
    have hspsr : w.fetch (w.sp + 184) = s.pstate :=
      h.fetch (by decide) (hsaved.spsr.trans (congrArg UInt64.toNat (noted_sys .el1 s).2))
    refine ⟨?_, hspsr ▸ Function.update_self _ _ _⟩
    rw [Function.update_of_ne (by decide)]
    by_cases hx : w.x 0 = 0
    · rw [if_neg (not_not.mpr hx), if_pos ⟨rfl, hx⟩, ← helr]
      exact Function.update_self _ _ _
    · rw [if_pos hx, if_neg fun hboth => hx hboth.2]
      exact h.status.1
  | el2 =>
    -- the frame goes back to the registers of `EL1`
    have hother : ∀ r, r ≠ .elrEl1 → r ≠ .spsrEl1 → Function.update (if w.x 0 ≠ 0 then w.sys else
        Function.update w.sys .elrEl1 (w.fetch (w.sp + 176))) .spsrEl1 (w.fetch (w.sp + 184)) r =
          w.sys r := by
      intro r hr hr'
      rw [Function.update_of_ne hr']
      split_ifs
      · rfl
      · exact Function.update_of_ne hr _ _
    have hboth : ¬(Level.el2 = .el1 ∧ w.x 0 = 0) := fun hboth => Level.noConfusion hboth.1
    rw [if_neg hboth, if_neg (show Level.el2 ≠ .el1 by decide)]
    exact ⟨(hother _ (by decide) (by decide)).trans h.status.1,
      (hother _ (by decide) (by decide)).trans h.status.2⟩

open Driver Driver.Irq in
/-- An interrupt goes on where it came in the following cases only. At `EL1`, no handler is registered
for the interrupt. Or what was noted last while the handler ran is the place of the interrupt again,
and at `EL2` also its status: a served interrupt keeps the return address that the register has, so
one exception taken within the handler is enough for the interrupt to go on inside the handler. -/
theorem irq_resumes_iff {H : Type} {gicv3Detected : Bool} {cores : Cores} {effect : Effect H}
    {p : Fin platformNoOfCpus} {iar : ℕ} {t t' : Tables H} {eois : List ℕ} {status : PalStatus}
    (hmanaged : Managed (ackIrqNum gicv3Detected iar))
    (hstatus : palIrqHandlerDispatcher gicv3Detected effect (cores.mpidr p) iar t = some (t', eois, status))
    (h : Taken el base .irq s ns w) (hx : w.x 0 = ofBool (valIrqCurrent status)) :
    ((leave el w).pc = s.pc ∧ (leave el w).pstate = s.pstate) ↔
      (el = .el1 ∧ t (entry p (ackIrqNum gicv3Detected iar)) = none) ∨
        (ns.foldl Note.elr s.pc = s.pc ∧ (el = .el1 ∨ ns.foldl Note.spsr s.pstate = s.pstate)) := by
  have hzero : w.x 0 = 0 ↔ t (entry p (ackIrqNum gicv3Detected iar)) = none := by
    rw [dispatcher_eq _ hmanaged] at hstatus
    cases hfound : t (entry p (ackIrqNum gicv3Detected iar)) with
    | none =>
      simp only [hfound, Option.some.injEq, Prod.mk.injEq] at hstatus
      rw [hx, ← hstatus.2.2]
      exact iff_of_true rfl rfl
    | some handler =>
      simp only [hfound, Option.some.injEq, Prod.mk.injEq] at hstatus
      rw [hx, ← hstatus.2.2]
      exact iff_of_false (by decide) (Option.some_ne_none _)
  rw [h.leave_eq.1, h.leave_eq.2, ← hzero]
  cases el with
  | el1 =>
    by_cases h0 : w.x 0 = 0
    · simp [h0]
    · simp [h0]
  | el2 => simp

end Taken

/-- A handler that has put its result into `x0`. -/
def answering (s : Core) (x : UInt64) : Core := { s with x := Function.update s.x 0 x }

/-- An answer leaves the stack pointer alone. -/
@[simp] theorem answering_sp (s : Core) (x : UInt64) : (answering s x).sp = s.sp := rfl

/-- An answer leaves the system registers alone. -/
@[simp] theorem answering_sys (s : Core) (x : UInt64) : (answering s x).sys = s.sys := rfl

/-- An answer leaves memory alone. -/
@[simp] theorem answering_mem (s : Core) (x : UInt64) : (answering s x).mem = s.mem := rfl

/-- The result is the only change. -/
theorem answering_x (s : Core) (x : UInt64) {r : Reg} (hr : 19 ≤ r) : (answering s x).x r = s.x r :=
  Function.update_of_ne (fun h => absurd (h ▸ hr) (by decide)) _ _

section Nested

variable {s : Cpu}

/-- A handler that returns at once. -/
theorem taken_at_once (v : Vector) (x : UInt64) (hroom : frameSize ≤ s.core.sp) (hstack : s.core.sp ≤ base)
    (hbound : base < 2 ^ 64) : Taken el base v s [] (answering (enter el v s) x) where
  room := hroom
  stack := hstack
  bound := hbound
  runs := ⟨0, 0, ⟨answering (enter el v s) x, 0, 0⟩, .compute (.start _ _)
    (fun _ _ _ => congrFun (answering_mem _ x) _) (answering_sys _ x), rfl⟩
  returns := ⟨answering_sp _ x, fun _ hr _ => answering_x _ x hr⟩

/-- A handler that takes an exception at `pc` and returns once that exception is over. -/
theorem Taken.within {pc pstate : UInt64} {v' : Vector} {ns : List Note} {w : Core}
    (h : Taken el base v' ⟨enter el v s, pc, pstate⟩ ns w) (x : UInt64) (hroom : frameSize ≤ s.core.sp)
    (hstack : s.core.sp ≤ base) : Taken el base v s [.resumed (leave el w).pc (leave el w).pstate]
      (answering (leave el w).core x) := by
  have hsp : (enter el v s).sp = s.core.sp - frameSize := (enter_eq v hroom (hstack.trans_lt h.bound)).2.1
  obtain ⟨hx, hkept, -⟩ := h.keeps
  refine ⟨hroom, hstack, h.bound, ?_, hkept, fun r hr _ => ?_⟩
  · obtain ⟨pc', pstate', t, hrun, rfl⟩ := h.runs
    have hinner : Runs el base (s.core.sp - frameSize) ⟨enter el v s, pc, pstate⟩ _ (leave el t.core) :=
      .exception (.start _ _) v' hsp.le h.room pc' pstate' hrun h.returns
    exact ⟨pc, pstate, ⟨answering (leave el t.core).core x, pc, pstate⟩, hinner.compute
      (fun _ _ _ => congrFun (answering_mem _ x) _) (answering_sys _ x), rfl⟩
  · rw [answering_x _ x hr, hx]

end Nested

/-- A core that is interrupted at `0x1000`. -/
def busyCpu : Cpu :=
  ⟨⟨fun r => UInt64.ofNat (r.val + 100), 4096, fun _ => 3, fun a => UInt8.ofNat a⟩, 0x1000, 5⟩

/-- The handler of an interrupt while it runs at `0x2000`. -/
def busyHandler : Cpu := ⟨enter .el1 .irq busyCpu, 0x2000, 0xc5⟩

/-- The handler of an interrupt that has taken a synchronous exception at `0x2000`, and has returned
`x`. -/
def busyReturned (x : UInt64) : Core :=
  answering (leave .el1 (answering (enter .el1 .sync busyHandler) 0)).core x

/-- The synchronous exception goes on inside the handler. -/
theorem busyReturned_taken (x : UInt64) :
    Taken .el1 4096 .irq busyCpu [.resumed 0x2000 0xc5] (busyReturned x) := by
  have hsync : Taken .el1 4096 .sync busyHandler [] (answering (enter .el1 .sync busyHandler) 0) :=
    taken_at_once .sync 0 (by decide) (by decide) (by decide)
  have hirq := hsync.within (v := .irq) (s := busyCpu) x (by decide) (by decide)
  rwa [show (leave .el1 (answering (enter .el1 .sync busyHandler) 0)).pc = 0x2000 from hsync.leave_eq.1,
    show (leave .el1 (answering (enter .el1 .sync busyHandler) 0)).pstate = 0xc5 from hsync.leave_eq.2]
    at hirq

open Driver Driver.Irq in
/-- With an exception nested in its handler, an interrupt resumes at `0x1000` if no handler is registered
for it, and does not resume there if one is. -/
theorem irq_resumes_nested :
    ((leave .el1 (busyReturned 0)).pc = 0x1000 ∧ (leave .el1 (busyReturned 0)).pstate = 5) ∧
      ¬((leave .el1 (busyReturned 1)).pc = 0x1000 ∧ (leave .el1 (busyReturned 1)).pstate = 5) := by
  have hnone : palIrqHandlerDispatcher true (fun (_ : Unit) irqNum t => (t, irqNum))
      (eightCores.mpidr firstCore) 27 (fun _ => none) = some (fun _ => none, [], .error) := rfl
  have hsome : palIrqHandlerDispatcher true (fun (_ : Unit) irqNum t => (t, irqNum))
      (eightCores.mpidr firstCore) 27 (fun _ => some ()) = some (fun _ => some (), [27], .success) := rfl
  refine ⟨(irq_resumes_iff (by decide) hnone (busyReturned_taken 0) rfl).mpr (.inl ⟨rfl, rfl⟩), ?_⟩
  intro hresumed
  rcases (irq_resumes_iff (by decide) hsome (busyReturned_taken 1) rfl).mp hresumed with hfound | hsame
  · exact Option.some_ne_none _ hfound.2
  · exact absurd hsame.1 (by decide)

end FfaAcs.Exception
