import FfaAcs.Exception.Vectors
import FfaAcs.Machine.Interrupted

/-!
# Calls to the firmware

`val_call_conduit` loads a message from the caller's structure into `x0` to `x17`, calls the firmware
and puts what came back into the same structure. `asm_smc64` passes its arguments as they are and
stores eight results where `x8` says. Both need a register for the address after the call, and the
firmware or an exception may come between any two of their instructions.

The structures are on the caller's stack. The firmware keeps `x18` to `x30` and the stack, and an
exception keeps what the vectors keep. The exceptions are those that resume where they were taken: the
vectors do not make every exception do so, see `Taken.leave_eq`.
-/

namespace FfaAcs.Exception

open Machine Machine.StraightLine

/-- The structure of a message: a doubleword for each register. -/
def messageSlots : List (Reg × ℕ) :=
  [(0, 0), (1, 8), (2, 16), (3, 24), (4, 32), (5, 40), (6, 48), (7, 56), (8, 64), (9, 72), (10, 80),
    (11, 88), (12, 96), (13, 104), (14, 112), (15, 120), (16, 128), (17, 136)]

/-- `val_call_conduit` up to its call: the loads of the message. -/
def loadMessage : List Op :=
  [.ldr 0 (.x 21) 0, .ldr 1 (.x 21) 8, .ldr 2 (.x 21) 16, .ldr 3 (.x 21) 24, .ldr 4 (.x 21) 32,
    .ldr 5 (.x 21) 40, .ldr 6 (.x 21) 48, .ldr 7 (.x 21) 56, .ldr 8 (.x 21) 64, .ldr 9 (.x 21) 72,
    .ldr 10 (.x 21) 80, .ldr 11 (.x 21) 88, .ldr 12 (.x 21) 96, .ldr 13 (.x 21) 104,
    .ldr 14 (.x 21) 112, .ldr 15 (.x 21) 120, .ldr 16 (.x 21) 128, .ldr 17 (.x 21) 136]

/-- `val_call_conduit` after its call: the stores of what came back. -/
def storeMessage : List Op :=
  [.str 0 (.x 21) 0, .str 1 (.x 21) 8, .str 2 (.x 21) 16, .str 3 (.x 21) 24, .str 4 (.x 21) 32,
    .str 5 (.x 21) 40, .str 6 (.x 21) 48, .str 7 (.x 21) 56, .str 8 (.x 21) 64, .str 9 (.x 21) 72,
    .str 10 (.x 21) 80, .str 11 (.x 21) 88, .str 12 (.x 21) 96, .str 13 (.x 21) 104,
    .str 14 (.x 21) 112, .str 15 (.x 21) 120, .str 16 (.x 21) 128, .str 17 (.x 21) 136]

/-- `val_call_conduit` before the call. -/
def valCallConduitEnter : List Op := [.subSp 0x20, .str 21 .sp 0x10, .mov 21 0] ++ loadMessage

/-- `val_call_conduit` after the call, up to its `ret`. -/
def valCallConduitLeave : List Op := storeMessage ++ [.ldr 21 .sp 0x10, .addSp 0x20]

/-- The structure of results of `asm_smc64`. -/
def resultSlots : List (Reg × ℕ) := messageSlots.take 8

/-- `smccc_conduit` before the call. -/
def smcccConduitEnter : List Op := [.strPre 8 16]

/-- `smccc_conduit` after the call. -/
def smcccConduitLeave : List Op :=
  [.ldrPost 9 16, .stp 0 1 (.x 9) 0, .stp 2 3 (.x 9) 16, .stp 4 5 (.x 9) 32, .stp 6 7 (.x 9) 48]

/-- What the firmware keeps of the caller. -/
structure Served (base : ℕ) (s t : Core) : Prop where
  x : ∀ r : Reg, 18 ≤ r → t.x r = s.x r
  sp : t.sp = s.sp
  mem : ∀ a, s.sp ≤ a → a < base → t.mem a = s.mem a

/-- An exception that resumes where it was taken. Its handler may take further exceptions, to any depth,
whether they resume or not. -/
def Excepted (el : Level) (base : ℕ) (s t : Core) : Prop :=
  ∃ v pc pstate ns w, Taken el base v ⟨s, pc, pstate⟩ ns w ∧ (leave el w).pc = pc ∧ (leave el w).core = t

/-- A call: the code before it, the call, and the code after it, with exceptions between. -/
def Calls (el : Level) (base : ℕ) (enter leave : List Op) (s s₁ s₂ t : Core) : Prop :=
  Interrupted (Excepted el base) s enter s₁ ∧ Served base s₁ s₂ ∧ Interrupted (Excepted el base) s₂ leave t

/-- What a call leaves: the results in the structure at `a`, which has `k` of them, and everything else
that the caller relies on as it was. -/
structure Exchanged (base a k : ℕ) (s s₂ t : Core) : Prop where
  result : ∀ r : Reg, r.val < k → t.fetch (a + 8 * r.val) = s₂.x r
  x : ∀ r : Reg, 18 ≤ r → t.x r = s.x r
  sp : t.sp = s.sp
  mem : ∀ b, s.sp ≤ b → b < base → b < a ∨ a + 8 * k ≤ b → t.mem b = s.mem b

/-! ## What an exception keeps -/

/-- An exception is invisible to the code between whose instructions it comes. -/
theorem Excepted.kept {el : Level} {base : ℕ} {s t : Core} (h : Excepted el base s t) : Kept base s t := by
  obtain ⟨v, pc, pstate, ns, w, htaken, -, rfl⟩ := h
  exact ⟨htaken.keeps.1.symm, htaken.keeps.2.1.symm, fun a ha => (htaken.keeps.2.2 a ha.1 ha.2).symm⟩

/-- Safe code with exceptions between its instructions ends as without them. -/
theorem agree_of_excepted {el : Level} {base : ℕ} {D E : Set ℕ} {s t : Core} {ops : List Op}
    (h : Interrupted (Excepted el base) s ops t) (hsafe : Safe base D s ops E)
    (hstack : D ⊆ Set.Ico s.sp base) : Agree E (run s ops) t :=
  Interrupted.agree (fun _ _ => Excepted.kept) h hsafe hstack (.refl D s)

/-- Each of the first 18 registers has its word in the message. -/
theorem mem_messageSlots : ∀ r : Reg, r.val < 18 → (r, 8 * r.val) ∈ messageSlots := by decide

/-- Each of the first 8 registers has its word in the result. -/
theorem mem_resultSlots : ∀ r : Reg, r.val < 8 → (r, 8 * r.val) ∈ resultSlots := by decide

/-- The words of the message are inside it. -/
theorem messageSlots_le : ∀ w ∈ messageSlots, w.2 + 8 ≤ 8 * 18 := by decide

/-- The words of the result are inside it. -/
theorem resultSlots_le : ∀ w ∈ resultSlots, w.2 + 8 ≤ 8 * 8 := by decide

/-- The loads before the call take each register from its word of the message. -/
theorem loadsOf_loadMessage : loadsOf (.x 21) loadMessage = some messageSlots := by decide

/-- The stores after the call put each register into its word of the message. -/
theorem storesOf_storeMessage : storesOf (.x 21) storeMessage = some messageSlots := by decide

/-- The stores of `asm_smc64` put each register into its word of the result. -/
theorem storesOf_results : storesOf (.x 9) (smcccConduitLeave.drop 1) = some resultSlots := by decide

/-- No other register has a word in the message. -/
theorem not_mem_messageSlots : ∀ r : Reg, 18 ≤ r → r ∉ messageSlots.map Prod.fst := by decide

/-- The bytes of a word that does not wrap. -/
theorem word_of_lt {a : ℕ} (ha : a < 2 ^ 64) : word a = Set.Ico a (a + 8) := by
  rw [word, wrap64_of_lt ha]

/-- The stack of the caller, with one doubleword saved below it. -/
def stackAnd (a sp base : ℕ) : Set ℕ := Set.Ico sp base ∪ Set.Ico a (a + 8)

/-- A word of the frame and the stack above the frame lie between the end of the frame and the base. -/
theorem stackAnd_subset {a sp base low : ℕ} (hlow : low ≤ a) (ha : a + 8 ≤ sp) (hsp : sp ≤ base) :
    stackAnd a sp base ⊆ Set.Ico low base := by
  rintro b (⟨hb, hlt⟩ | ⟨hb, hlt⟩)
  · exact ⟨by omega, hlt⟩
  · exact ⟨by omega, by omega⟩

/-- Stores of the first registers into a structure on the stack. -/
theorem stored_results {base sp a k : ℕ} {m : ByteMemory} {x : Reg → UInt64} {t : Core}
    {ws : List (Reg × ℕ)} (hws : ∀ r : Reg, r.val < k → (r, 8 * r.val) ∈ ws)
    (hle : ∀ w ∈ ws, w.2 + 8 ≤ 8 * k) (hapart : ws.Pairwise fun w w' => Apart w.2 8 w'.2 8)
    (hbase : base < 2 ^ 64) (hlow : sp ≤ a) (hhigh : a + 8 * k ≤ base)
    (hmem : ∀ b, sp ≤ b → b < base → t.mem b = assign m (storedFields a x ws) b) :
    (∀ r : Reg, r.val < k → t.fetch (a + 8 * r.val) = x r) ∧
      ∀ b, sp ≤ b → b < base → b < a ∨ a + 8 * k ≤ b → t.mem b = m b := by
  have hroom : ∀ w ∈ ws, a + w.2 + 8 ≤ a + 8 * k := fun w hw => by
    have := hle w hw
    omega
  refine ⟨fun r hr => ?_, fun b hb hlt hout => ?_⟩
  · have hload := load_stored hroom (by omega) hapart (hws r hr)
      fun b hb hlt => hmem b (by omega) (by omega)
    rw [Core.fetch, wrap64_of_lt (by omega), hload, UInt64.ofNat_toNat]
  · rw [hmem b hb hlt]
    exact assign_storedFields_outside (fun w hw => ⟨Nat.le_add_right _ _, hroom w hw⟩) (by omega) hout

/-! ## `val_call_conduit` -/

section CallConduit

variable {el : Level} {base : ℕ} {s s₁ s₂ t : Core}

/-- The state once `x21` has been saved and holds the address. -/
def conduitFrame (s : Core) : Core :=
  { x := Function.update s.x 21 (s.x 0)
    sp := s.sp - 0x20
    sys := s.sys
    mem := s.mem.store (s.sp - 0x10) 8 (s.x 21).toNat }

/-- The prologue makes room, saves `x21` and keeps the address of the message in it. -/
theorem run_conduitFrame (hroom : 0x20 ≤ s.sp) (hlt : s.sp < 2 ^ 64) :
    run s [.subSp 0x20, .str 21 .sp 0x10, .mov 21 0] = conduitFrame s := by
  have ha : wrap64 (s.sp - 0x20 + 0x10) = s.sp - 0x10 := by
    rw [wrap64_of_lt (by omega)]
    omega
  rw [run, List.foldl_cons, exec_subSp hroom hlt, List.foldl_cons, List.foldl_cons, List.foldl_nil]
  simp only [exec, Core.poke, Core.put, Core.base, ha, conduitFrame]

/-- The message is addressed by `x21` after the prologue. -/
theorem conduitFrame_base (s : Core) : (conduitFrame s).base (.x 21) = (s.x 0).toNat := by
  have hx : (conduitFrame s).x 21 = s.x 0 := by
    dsimp only [conduitFrame]
    rw [Function.update_self]
  rw [Core.base, hx]

/-- Up to the call, the message is loaded into the registers. -/
theorem run_enter (hroom : 0x20 ≤ s.sp) (hlt : s.sp < 2 ^ 64) :
    run s valCallConduitEnter = { conduitFrame s with
      x := fill (fun k => (conduitFrame s).fetch ((s.x 0).toNat + k)) (conduitFrame s).x messageSlots } := by
  rw [valCallConduitEnter, run_append, run_conduitFrame hroom hlt, run_of_loads loadsOf_loadMessage,
    conduitFrame_base]

/-- The code before the call loads from the caller's stack only. -/
theorem safe_enter (hroom : 0x20 ≤ s.sp) (hbase : base < 2 ^ 64) (hlow : s.sp ≤ (s.x 0).toNat)
    (hhigh : (s.x 0).toNat + 144 ≤ base) :
    Safe base (Set.Ico s.sp base) s valCallConduitEnter (stackAnd (s.sp - 0x10) s.sp base) := by
  have hsub : stackAnd (s.sp - 0x10) s.sp base ⊆ Set.Ico (s.sp - 0x20) base :=
    stackAnd_subset (by omega) (by omega) (by omega)
  have hword : word (s.sp - 0x20 + 0x10) = Set.Ico (s.sp - 0x10) (s.sp - 0x10 + 8) := by
    rw [word_of_lt (by omega), show s.sp - 0x20 + 0x10 = s.sp - 0x10 by omega]
  have hsaved : Safe base (Set.Ico s.sp base) s [.subSp 0x20, .str 21 .sp 0x10, .mov 21 0]
      (stackAnd (s.sp - 0x10) s.sp base) := by
    have hexec := exec_subSp hroom (by omega : s.sp < 2 ^ 64)
    refine .cons (F := Set.Ico s.sp base) rfl (Set.empty_subset _) Set.subset_union_left ?_ ?_
    · rw [hexec]
      exact Set.Ico_subset_Ico (Nat.sub_le _ _) le_rfl
    · rw [hexec]
      refine .cons (F := stackAnd (s.sp - 0x10) s.sp base) rfl (Set.empty_subset _) ?_ hsub
        (.one rfl (Set.empty_subset _) Set.subset_union_left hsub)
      rw [Op.writes, Core.base, hword]
      exact subset_rfl
  refine hsaved.append ?_
  rw [run_conduitFrame hroom (by omega)]
  refine .of_loads hsub loadsOf_loadMessage fun w hw => ?_
  have hw := messageSlots_le w hw
  rw [conduitFrame_base, word_of_lt (by omega)]
  exact (Set.Ico_subset_Ico (by omega) (by omega)).trans Set.subset_union_left

/-- The state after the message has been stored. -/
def messageStored (u : Core) : Core :=
  { u with mem := assign u.mem (storedFields (u.x 21).toNat u.x messageSlots) }

/-- After the call, the registers are stored to the message, and the frame is removed. -/
theorem run_leave (u : Core) : run u valCallConduitLeave =
    { messageStored u with
      x := Function.update u.x 21 ((messageStored u).fetch (u.sp + 0x10))
      sp := wrap64 (u.sp + 0x20) } := by
  rw [valCallConduitLeave, run_append, run_of_stores storesOf_storeMessage]
  rfl

/-- The code after the call loads the register it has saved only. -/
theorem safe_leave {u : Core} (hbase : base < 2 ^ 64) (hsp : u.sp + 0x20 ≤ base) :
    Safe base (stackAnd (u.sp + 0x10) (u.sp + 0x20) base) u valCallConduitLeave
      (Set.Ico (u.sp + 0x20) base) := by
  have hsub : stackAnd (u.sp + 0x10) (u.sp + 0x20) base ⊆ Set.Ico u.sp base :=
    stackAnd_subset (by omega) (by omega) hsp
  refine (Safe.of_stores hsub storesOf_storeMessage).append ?_
  rw [run_of_stores storesOf_storeMessage]
  refine .cons (F := stackAnd (u.sp + 0x10) (u.sp + 0x20) base) rfl ?_ Set.subset_union_left hsub
    (.one rfl (Set.empty_subset _) (Set.subset_union_left.trans Set.subset_union_left) ?_)
  · dsimp only [Op.reads, Core.base]
    rw [word_of_lt (by omega)]
    exact Set.subset_union_right
  · dsimp only [exec, Core.put]
    rw [wrap64_of_lt (by omega)]

/-- Saving `x21` leaves the caller's stack alone. -/
theorem conduitFrame_mem (hroom : 0x20 ≤ s.sp) {a : ℕ} (ha : s.sp ≤ a) :
    (conduitFrame s).mem a = s.mem a :=
  ByteMemory.store_outside s.mem (.inr (by omega))

/-- What the firmware is called with. -/
structure Entered (base : ℕ) (s s₁ : Core) : Prop where
  message : ∀ r : Reg, r.val < 18 → s₁.x r = s.fetch ((s.x 0).toNat + 8 * r.val)
  x : ∀ r : Reg, 18 ≤ r → s₁.x r = Function.update s.x 21 (s.x 0) r
  sp : s₁.sp = s.sp - 0x20
  saved : s₁.fetch (s.sp - 0x10) = s.x 21
  mem : ∀ b, s.sp ≤ b → b < base → s₁.mem b = s.mem b

/-- Up to the call, with exceptions on the way that resume where they were taken. -/
theorem entered (hroom : 0x20 ≤ s.sp) (hbase : base < 2 ^ 64) (hlow : s.sp ≤ (s.x 0).toNat)
    (hhigh : (s.x 0).toNat + 144 ≤ base) (h : Interrupted (Excepted el base) s valCallConduitEnter s₁) :
    Entered base s s₁ := by
  have hagree := agree_of_excepted h (safe_enter hroom hbase hlow hhigh) subset_rfl
  rw [run_enter hroom (by omega)] at hagree
  have hx (r : Reg) : s₁.x r =
      fill (fun k => (conduitFrame s).fetch ((s.x 0).toNat + k)) (conduitFrame s).x messageSlots r :=
    (congrFun hagree.x r).symm
  refine ⟨fun r hr => ?_, fun r hr => ?_, hagree.sp.symm, ?_, fun b hb hlt => ?_⟩
  · rw [hx, fill_of_mem (by decide) (mem_messageSlots r hr), Core.fetch, Core.fetch,
      wrap64_of_lt (by omega), ByteMemory.load_congr fun b hb _ => conduitFrame_mem hroom (by omega)]
  · rw [hx, fill_of_not_mem (not_mem_messageSlots r hr), conduitFrame]
  · have hload : s₁.mem.load (s.sp - 0x10) 8 = (conduitFrame s).mem.load (s.sp - 0x10) 8 :=
      ByteMemory.load_congr fun b hb hlt => (hagree.mem b (.inr ⟨hb, hlt⟩)).symm
    rw [Core.fetch, wrap64_of_lt (by omega), hload, conduitFrame, ByteMemory.load_store_same,
      Nat.mod_eq_of_lt (show (s.x 21).toNat < 256 ^ 8 from (s.x 21).toNat_lt), UInt64.ofNat_toNat]
  · rw [← hagree.mem b (.inl ⟨hb, hlt⟩)]
    exact conduitFrame_mem hroom hb

/-- A message of the caller goes to the firmware as it is, whatever exceptions are taken on the way that
resume where they were taken, and what comes back is in its structure. The caller finds its registers, its
stack pointer and the rest of its stack as before the call. -/
theorem val_call_conduit_exchanges (hroom : 0x20 ≤ s.sp) (hbase : base < 2 ^ 64)
    (hlow : s.sp ≤ (s.x 0).toNat) (hhigh : (s.x 0).toNat + 144 ≤ base)
    (h : Calls el base valCallConduitEnter valCallConduitLeave s s₁ s₂ t) :
    (∀ r : Reg, r.val < 18 → s₁.x r = s.fetch ((s.x 0).toNat + 8 * r.val)) ∧
      Exchanged base (s.x 0).toNat 18 s s₂ t := by
  obtain ⟨henter, hserved, hleave⟩ := h
  have hentered := entered hroom hbase hlow hhigh henter
  have hsp : s₂.sp + 0x20 = s.sp := by
    rw [hserved.sp, hentered.sp]
    omega
  have hslot : s₂.sp + 0x10 = s.sp - 0x10 := by omega
  have haddress : s₂.x 21 = s.x 0 := by
    rw [hserved.x 21 (by decide), hentered.x 21 (by decide), Function.update_self]
  have hagree := agree_of_excepted hleave (safe_leave hbase (by omega))
    (stackAnd_subset (by omega) (by omega) (by omega))
  rw [run_leave, hsp] at hagree
  have hmem : ∀ b, s.sp ≤ b → b < base →
      t.mem b = assign s₂.mem (storedFields (s.x 0).toNat s₂.x messageSlots) b := by
    intro b hb hlt
    rw [← haddress, ← hagree.mem b ⟨hb, hlt⟩, messageStored]
  obtain ⟨hresult, hrest⟩ :=
    stored_results mem_messageSlots messageSlots_le (by decide) hbase hlow hhigh hmem
  -- the register is saved below the structure, and above the stack pointer of the firmware
  have hsaved : (messageStored s₂).fetch (s₂.sp + 0x10) = s.x 21 := by
    rw [hslot, ← hentered.saved, Core.fetch, Core.fetch, wrap64_of_lt (by omega)]
    refine congrArg UInt64.ofNat (ByteMemory.load_congr fun b hb hlt => ?_)
    rw [← hserved.mem b (by rw [hentered.sp]; omega) (by omega)]
    have hwithin : ∀ w ∈ messageSlots, s.sp ≤ (s₂.x 21).toNat + w.2 ∧ (s₂.x 21).toNat + w.2 + 8 ≤ base := by
      intro w hw
      have := messageSlots_le w hw
      rw [haddress]
      omega
    exact assign_storedFields_outside hwithin (by omega) (.inl (by omega))
  refine ⟨hentered.message, hresult, fun r hr => ?_, ?_, fun b hb hlt hout => ?_⟩
  · rw [← hagree.x, hsaved]
    dsimp only
    by_cases h21 : r = 21
    · rw [h21, Function.update_self]
    · rw [Function.update_of_ne h21, hserved.x r hr, hentered.x r hr, Function.update_of_ne h21]
  · rw [← hagree.sp, wrap64_of_lt (by omega)]
  · rw [hrest b hb hlt hout, hserved.mem b (by rw [hentered.sp]; omega) hlt, hentered.mem b hb hlt]

end CallConduit

/-! ## Calls that are interrupted -/

/-- The core after an interrupt for which no handler is registered, with a synchronous exception nested in
it. -/
def afterNested (s : Core) : Core :=
  let handler : Cpu := ⟨enter .el1 .irq ⟨s, 0x1000, 5⟩, 0x2000, 0xc5⟩
  (leave .el1 (answering (leave .el1 (answering (enter .el1 .sync handler) 0)).core 0)).core

/-- At `EL1` an exception whose handler returns false resumes, also with another one nested in it. -/
theorem afterNested_excepted {base : ℕ} {s : Core} (hroom : 2 * frameSize ≤ s.sp) (hstack : s.sp ≤ base)
    (hbound : base < 2 ^ 64) : Excepted .el1 base s (afterNested s) := by
  have hsize : frameSize = 192 := rfl
  have hsp : (enter .el1 .irq ⟨s, 0x1000, 5⟩).sp = s.sp - frameSize :=
    (enter_eq .irq (s := ⟨s, 0x1000, 5⟩) (by dsimp only; omega) (by dsimp only; omega)).2.1
  have hsync : Taken .el1 base .sync ⟨enter .el1 .irq ⟨s, 0x1000, 5⟩, 0x2000, 0xc5⟩ [] _ :=
    taken_at_once .sync 0 (by rw [hsp]; omega) (by rw [hsp]; omega) hbound
  have hirq := hsync.within (v := .irq) (s := ⟨s, 0x1000, 5⟩) 0 (by dsimp only; omega) hstack
  exact ⟨.irq, 0x1000, 5, _, _, hirq, hirq.leave_eq.1, rfl⟩

/-- A firmware that changes every register and every byte that it may change. -/
def firmware (s : Core) : Core where
  x r := if r < 18 then UInt64.ofNat (r.val + 0x84000060) else s.x r
  sp := s.sp
  sys _ := 1
  mem a := if a < s.sp then 0xff else s.mem a

/-- It keeps what the caller relies on. -/
theorem firmware_served (base : ℕ) (s : Core) : Served base s (firmware s) where
  x _ hr := if_neg (Nat.not_lt.mpr hr)
  sp := rfl
  mem _ ha _ := if_neg (Nat.not_lt.mpr ha)

/-- A call to this firmware that is interrupted after its first instruction and after the call. -/
theorem calls_firmware {base : ℕ} {op : Op} {ops leave : List Op} {s : Core} (hbound : base < 2 ^ 64)
    (hroom : 2 * frameSize ≤ (exec s op).sp) (hstack : (exec s op).sp ≤ base)
    (hroom' : 2 * frameSize ≤ (run (afterNested (exec s op)) ops).sp)
    (hstack' : (run (afterNested (exec s op)) ops).sp ≤ base) :
    Calls .el1 base (op :: ops) leave s (run (afterNested (exec s op)) ops)
      (firmware (run (afterNested (exec s op)) ops))
      (run (afterNested (firmware (run (afterNested (exec s op)) ops))) leave) :=
  ⟨.exec (.between (afterNested_excepted hroom hstack hbound) (.plain _ _ _)), firmware_served _ _,
    .between (afterNested_excepted hroom' hstack' hbound) (.plain _ _ _)⟩

/-- A caller whose structures are at the end of its stack. -/
def callerCore : Core where
  x r := if r = 0 ∨ r = 8 then 4096 else UInt64.ofNat r.val
  sp := 4096
  sys _ := 0
  mem a := UInt8.ofNat a

/-- The state in which the firmware is called for this caller. -/
def conduitCalled : Core := run (afterNested (exec callerCore (.subSp 0x20))) valCallConduitEnter.tail

/-- A call that is interrupted on both sides, with an exception nested in each interrupt, and a firmware
that changes every register it may change. -/
theorem val_call_conduit_caller :
    (∀ r : Reg, r.val < 18 → conduitCalled.x r = callerCore.fetch (4096 + 8 * r.val)) ∧
      Exchanged 8192 4096 18 callerCore (firmware conduitCalled)
        (run (afterNested (firmware conduitCalled)) valCallConduitLeave) :=
  val_call_conduit_exchanges (s := callerCore) (by decide) (by decide) (by decide) (by decide)
    (calls_firmware (by decide) (by decide) (by decide) (by decide +kernel) (by decide +kernel))

/-! ## `asm_smc64` -/

section Smccc

variable {el : Level} {base : ℕ} {s s₁ s₂ t : Core}

/-- The state once `x8` has been pushed. -/
def pushedResult (s : Core) : Core :=
  { s with sp := s.sp - 16, mem := s.mem.store (s.sp - 16) 8 (s.x 8).toNat }

/-- The address of the result is pushed. -/
theorem exec_pushedResult (hroom : 16 ≤ s.sp) (hlt : s.sp < 2 ^ 64) :
    exec s (.strPre 8 16) = pushedResult s := by
  rw [exec, sub64_of_le hroom hlt, Core.poke, wrap64_of_lt (by omega), pushedResult]

/-- Up to the call, with exceptions on the way that resume where they were taken. -/
theorem pushed (hroom : 16 ≤ s.sp) (hsp : s.sp ≤ base) (hbase : base < 2 ^ 64)
    (h : Interrupted (Excepted el base) s smcccConduitEnter s₁) :
    Agree (stackAnd (s.sp - 16) s.sp base) (pushedResult s) s₁ := by
  have hexec := exec_pushedResult hroom (by omega)
  have hsafe : Safe base (Set.Ico s.sp base) s smcccConduitEnter (stackAnd (s.sp - 16) s.sp base) := by
    refine .one rfl (Set.empty_subset _) ?_ ?_
    · rw [Op.writes, sub64_of_le hroom (by omega), word_of_lt (by omega)]
      exact subset_rfl
    · rw [hexec]
      exact stackAnd_subset le_rfl (by omega) hsp
  have hagree := agree_of_excepted h hsafe subset_rfl
  rwa [smcccConduitEnter, run, List.foldl_cons, List.foldl_nil, hexec] at hagree

/-- The state once the address has been popped into `x9`. -/
def poppedResult (u : Core) : Core :=
  { u with x := Function.update u.x 9 (u.fetch u.sp), sp := wrap64 (u.sp + 16) }

/-- After the call, the address of the result is popped, and the results are stored there. -/
theorem run_smccc_leave (u : Core) : run u smcccConduitLeave = { poppedResult u with
    mem := assign u.mem (storedFields (u.fetch u.sp).toNat (poppedResult u).x resultSlots) } := by
  have hx : (poppedResult u).x 9 = u.fetch u.sp := by
    dsimp only [poppedResult]
    rw [Function.update_self]
  have hexec : exec u (.ldrPost 9 16) = poppedResult u := by rw [exec, Core.put, poppedResult]
  have hsplit : smcccConduitLeave = .ldrPost 9 16 :: smcccConduitLeave.drop 1 := rfl
  rw [hsplit, run, List.foldl_cons, hexec, ← run, run_of_stores storesOf_results, Core.base, hx]
  rfl

/-- The code after the call reads nothing that an exception changes. -/
theorem safe_smccc_leave {u : Core} (hbase : base < 2 ^ 64) (hsp : u.sp + 16 ≤ base) :
    Safe base (stackAnd u.sp (u.sp + 16) base) u smcccConduitLeave (Set.Ico (u.sp + 16) base) := by
  have hsub : Set.Ico (u.sp + 16) base ⊆ Set.Ico (exec u (.ldrPost 9 16)).sp base := by
    dsimp only [exec]
    rw [wrap64_of_lt (by omega)]
  refine .cons rfl ?_ (Set.subset_union_left.trans Set.subset_union_left) hsub
    (.of_stores hsub storesOf_results)
  rw [Op.reads, word_of_lt (by omega)]
  exact Set.subset_union_right

/-- The firmware is called with the caller's arguments, whatever exceptions are taken on the way that
resume where they were taken, and what comes back is in the structure of results. The address of the
structure survives a firmware that changes `x8`. -/
theorem asm_smc64_exchanges (hroom : 16 ≤ s.sp) (hbase : base < 2 ^ 64) (hlow : s.sp ≤ (s.x 8).toNat)
    (hhigh : (s.x 8).toNat + 64 ≤ base) (h : Calls el base smcccConduitEnter smcccConduitLeave s s₁ s₂ t) :
    s₁.x = s.x ∧ Exchanged base (s.x 8).toNat 8 s s₂ t := by
  obtain ⟨henter, hserved, hleave⟩ := h
  have hpushed := pushed hroom (by omega) hbase henter
  have hsp₁ : s₁.sp = s.sp - 16 := hpushed.sp.symm
  have hsp : s₂.sp + 16 = s.sp := by
    rw [hserved.sp, hsp₁]
    omega
  have haddress : s₂.fetch s₂.sp = s.x 8 := by
    have hload : s₂.mem.load s₂.sp 8 = (pushedResult s).mem.load s₂.sp 8 := by
      refine ByteMemory.load_congr fun b hb hlt => ?_
      rw [hserved.mem b (by omega) (by omega), hpushed.mem b (.inr ⟨by omega, by omega⟩)]
    rw [Core.fetch, wrap64_of_lt (by omega), hload, show s₂.sp = s.sp - 16 by omega, pushedResult,
      ByteMemory.load_store_same, Nat.mod_eq_of_lt (show (s.x 8).toNat < 256 ^ 8 from (s.x 8).toNat_lt),
      UInt64.ofNat_toNat]
  have hagree := agree_of_excepted hleave (safe_smccc_leave hbase (by omega))
    (stackAnd_subset le_rfl (by omega) (by omega))
  rw [run_smccc_leave, hsp, haddress] at hagree
  obtain ⟨hresult, hrest⟩ :=
    stored_results mem_resultSlots resultSlots_le (by decide) hbase hlow hhigh
      fun b hb hlt => (hagree.mem b ⟨hb, hlt⟩).symm
  refine ⟨hpushed.x.symm, fun r hr => ?_, fun r hr => ?_, ?_, fun b hb hlt hout => ?_⟩
  · rw [hresult r hr]
    exact Function.update_of_ne (fun h9 => absurd (h9 ▸ hr) (by decide)) _ _
  · rw [← hagree.x]
    have h9 : r ≠ 9 := fun h9 => absurd (h9 ▸ hr) (by decide)
    dsimp only [poppedResult]
    rw [Function.update_of_ne h9, hserved.x r hr, ← hpushed.x, pushedResult]
  · rw [← hagree.sp]
    dsimp only [poppedResult]
    rw [hsp, wrap64_of_lt (by omega)]
  · rw [hrest b hb hlt hout, hserved.mem b (by omega) hlt, ← hpushed.mem b (.inl ⟨hb, hlt⟩)]
    exact ByteMemory.store_outside s.mem (.inr (by omega))

end Smccc

/-- The state in which `asm_smc64` calls the firmware for this caller. -/
def smcCalled : Core := run (afterNested (exec callerCore (.strPre 8 16))) []

/-- The same for `asm_smc64`: the firmware changes `x8`, which has the address of the results. -/
theorem asm_smc64_caller :
    (firmware smcCalled).x 8 ≠ callerCore.x 8 ∧ smcCalled.x = callerCore.x ∧
      Exchanged 8192 4096 8 callerCore (firmware smcCalled)
        (run (afterNested (firmware smcCalled)) smcccConduitLeave) :=
  ⟨by decide, asm_smc64_exchanges (s := callerCore) (by decide) (by decide) (by decide) (by decide)
    (calls_firmware (by decide) (by decide) (by decide) (by decide +kernel) (by decide +kernel))⟩

end FfaAcs.Exception
