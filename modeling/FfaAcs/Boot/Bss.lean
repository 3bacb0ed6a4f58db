import FfaAcs.Machine.Aarch64

/-!
# Clearing the BSS section

The boot code clears the section sixteen bytes at a time and counts down its size. One more store
follows the loop, which clears the sixteen bytes behind the section.
-/

namespace FfaAcs.Boot

open Machine Machine.Aarch64

/-- The part of `_start` that clears the section. The label 2 is at index 9. -/
def clearBss (valImageLoadOffset bssStartAddr bssEndAddr : ℕ) : List Instr :=
  [ .adr 2 valImageLoadOffset,
    .ldr 2 2 0,
    .adr 0 bssStartAddr,
    .ldr 0 0 0,
    .add 0 0 2,
    .adr 1 bssEndAddr,
    .ldr 1 1 0,
    .add 1 1 2,
    .sub 1 1 0,
    .stp xzr xzr 0,
    .addImm 0 0 16,
    .subImm 1 1 16,
    .cmp xzr 1,
    .bc .ne 9,
    .stp xzr xzr 0 ]

/-- The memory with zeros in a range. -/
def zeroed (m : ByteMemory) (a n : ℕ) : ByteMemory := m.blit a n fun _ => 0

section

variable {m : ByteMemory} {a n x : ℕ}

/-- The bytes of a cleared range are zero. -/
theorem zeroed_inside (h : a ≤ x ∧ x < a + n) : zeroed m a n x = 0 := if_pos h

/-- The other bytes are as before. -/
theorem zeroed_outside (h : x < a ∨ a + n ≤ x) : zeroed m a n x = m x := m.blit_outside h

/-- A pair of zero registers is stored. -/
theorem store_zero_pair (m : ByteMemory) (a : ℕ) :
    (m.store a 8 0).store (a + 8) 8 0 = zeroed m a 16 := by
  funext x
  by_cases hin : a ≤ x ∧ x < a + 16
  · rw [zeroed_inside hin]
    rcases Nat.lt_or_ge x (a + 8) with hlow | hhigh
    · rw [ByteMemory.store_outside _ (by omega), ByteMemory.store, if_pos (by omega), Nat.zero_div]
      rfl
    · rw [ByteMemory.store, if_pos (by omega), Nat.zero_div]
      rfl
  · rw [zeroed_outside (by omega), ByteMemory.store_outside _ (by omega),
      ByteMemory.store_outside _ (by omega)]

/-- Two adjacent ranges that are cleared are one. -/
theorem zeroed_zeroed (m : ByteMemory) (a n k : ℕ) :
    zeroed (zeroed m a n) (a + n) k = zeroed m a (n + k) := by
  funext x
  rcases Nat.lt_or_ge x a with hlow | hhigh
  · rw [zeroed_outside (by omega), zeroed_outside (by omega), zeroed_outside (by omega)]
  · rcases Nat.lt_or_ge x (a + (n + k)) with hin | hout
    · rw [zeroed_inside (n := n + k) (by omega)]
      rcases Nat.lt_or_ge x (a + n) with hfirst | hsecond
      · rw [zeroed_outside (by omega), zeroed_inside (by omega)]
      · exact zeroed_inside (by omega)
    · rw [zeroed_outside (by omega), zeroed_outside (by omega), zeroed_outside (by omega)]

end

/-- A state of the loop with `left` bytes to go. -/
structure Clearing (pc a left : ℕ) (m : ByteMemory) (s : Cpu) : Prop where
  pc : s.pc = pc
  running : s.returned = false
  x0 : s.regs 0 = a
  x1 : s.regs 1 = left
  mem : s.mem = m

section

variable {valImageLoadOffset bssStartAddr bssEndAddr : ℕ} {m : ByteMemory} {s : Cpu}

/-- The relocated start and the size of the section are computed. -/
theorem leads_bss (hpc : s.pc = 0) (hrunning : s.returned = false) (hvar : valImageLoadOffset < 2 ^ 64)
    (hstart : bssStartAddr < 2 ^ 64) (hend : bssEndAddr < 2 ^ 64) :
    Leads (clearBss valImageLoadOffset bssStartAddr bssEndAddr) s
      (Clearing 9 (wrap64 (s.mem.load bssStartAddr 8 + s.mem.load valImageLoadOffset 8))
        (sub64 (wrap64 (s.mem.load bssEndAddr 8 + s.mem.load valImageLoadOffset 8))
          (wrap64 (s.mem.load bssStartAddr 8 + s.mem.load valImageLoadOffset 8))) s.mem) := by
  obtain ⟨regs, flags, mem, pc, returned⟩ := s
  simp only at hpc hrunning
  subst hpc hrunning
  refine .exec rfl rfl (.exec rfl rfl (.exec rfl rfl (.exec rfl rfl (.exec rfl rfl (.exec rfl rfl
    (.exec rfl rfl (.exec rfl rfl (.exec rfl rfl (.here ⟨rfl, rfl, ?_, ?_, rfl⟩)))))))))
  · change wrap64 (mem.load (wrap64 (bssStartAddr + 0)) 8 + mem.load (wrap64 (valImageLoadOffset + 0)) 8) = _
    rw [Nat.add_zero, Nat.add_zero, wrap64_of_lt hstart, wrap64_of_lt hvar]
  · change sub64 (wrap64 (mem.load (wrap64 (bssEndAddr + 0)) 8 +
      mem.load (wrap64 (valImageLoadOffset + 0)) 8)) (wrap64 (mem.load (wrap64 (bssStartAddr + 0)) 8 +
      mem.load (wrap64 (valImageLoadOffset + 0)) 8)) = _
    rw [Nat.add_zero, Nat.add_zero, Nat.add_zero, wrap64_of_lt hstart, wrap64_of_lt hend,
      wrap64_of_lt hvar]

/-- Sixteen bytes are cleared. -/
theorem leads_block {a left : ℕ} (valImageLoadOffset bssStartAddr bssEndAddr : ℕ)
    (h : Clearing 9 a left m s) (hleft : left < 2 ^ 64)
    (hmore : 16 ≤ left) :
    Leads (clearBss valImageLoadOffset bssStartAddr bssEndAddr) s
      (Clearing (if left = 16 then 14 else 9) (wrap64 (a + 16)) (left - 16) (zeroed m a 16)) := by
  obtain ⟨regs, flags, mem, pc, returned⟩ := s
  obtain ⟨rfl, rfl, rfl, rfl, rfl⟩ := h
  simp only at hleft hmore
  have hsub : sub64 (regs 1) 16 = regs 1 - 16 := sub64_of_le hmore hleft
  refine .exec rfl rfl ?_
  rw [exec_stp_xzr]
  refine .exec rfl rfl (.exec rfl rfl (.exec rfl rfl ?_))
  rw [exec_cmp_xzr]
  have hmem : (mem.store (regs 0) 8 0).store (regs 0 + 8) 8 0 = zeroed mem (regs 0) 16 :=
    store_zero_pair mem (regs 0)
  have hne : Cond.ne.holds (.ofSub 0 (regs 1 - 16)) = decide (0 ≠ regs 1 - 16) :=
    holds_ne_ofSub (by decide) ((Nat.sub_le _ _).trans_lt hleft)
  refine .branch (p := 0 ≠ regs 1 - 16) rfl rfl ?_ (fun hmore => ?_) fun hlast => ?_
  · simpa [exec, Cpu.put, Cpu.set, Cpu.read, xzr, hsub] using hne
  · rw [if_neg (by omega : ¬regs 1 = 16)]
    refine .here ⟨rfl, rfl, rfl, ?_, hmem⟩
    simp [exec, Cpu.put, Cpu.set, Cpu.read, xzr, hsub]
  · rw [if_pos (by omega : regs 1 = 16)]
    refine .here ⟨rfl, rfl, rfl, ?_, hmem⟩
    simp [exec, Cpu.put, Cpu.set, Cpu.read, xzr, hsub]

/-- The store behind the loop. -/
theorem leads_last {a : ℕ} (h : Clearing 14 a 0 m s) :
    Leads (clearBss valImageLoadOffset bssStartAddr bssEndAddr) s fun t =>
      t.pc = (clearBss valImageLoadOffset bssStartAddr bssEndAddr).length ∧ t.mem = zeroed m a 16 := by
  obtain ⟨regs, flags, mem, pc, returned⟩ := s
  obtain ⟨rfl, rfl, rfl, -, rfl⟩ := h
  refine .exec rfl rfl ?_
  rw [exec_stp_xzr]
  exact .here ⟨rfl, store_zero_pair mem (regs 0)⟩

/-- The loop clears the section. The induction is on the blocks. -/
theorem leads_blocks {a n : ℕ} (h : Clearing 9 a (16 * n) m s) (hpos : 0 < n)
    (hfits : a + 16 * n ≤ 2 ^ 64) (hsize : 16 * n < 2 ^ 64) :
    Leads (clearBss valImageLoadOffset bssStartAddr bssEndAddr) s
      (Clearing 14 (wrap64 (a + 16 * n)) 0 (zeroed m a (16 * n))) := by
  induction n generalizing a m s with
  | zero => omega
  | succ n ih =>
    have hblock := leads_block valImageLoadOffset bssStartAddr bssEndAddr h hsize (by omega)
    rcases Nat.eq_zero_or_pos n with rfl | hmore
    · exact hblock
    · refine hblock.trans fun t ht => ?_
      have hnext : wrap64 (a + 16) = a + 16 := wrap64_of_lt (by omega)
      have hleft : 16 * (n + 1) - 16 = 16 * n := by omega
      rw [if_neg (by omega), hnext, hleft] at ht
      have hrest := ih ht hmore (by omega) (by omega)
      have htotal : a + 16 + 16 * n = a + 16 * (n + 1) := by omega
      have hsum : 16 + 16 * n = 16 * (n + 1) := by omega
      rw [zeroed_zeroed, htotal, hsum] at hrest
      exact hrest

end

/-- What the code is for: the section holds zeros, and nothing else has changed. -/
structure BssCleared (a size : ℕ) (m m' : ByteMemory) : Prop where
  zero : ∀ x, a ≤ x → x < a + size → m' x = 0
  frame : ∀ x, x < a ∨ a + size ≤ x → m' x = m x

/-- When the memory that the code leaves is the right one. -/
theorem bssCleared_iff (m : ByteMemory) {a size : ℕ} (hpos : 0 < size) (hsize : size + 16 ≤ 2 ^ 64)
    (hfits : a + size ≤ 2 ^ 64) :
    BssCleared a size m (zeroed (zeroed m a size) (wrap64 (a + size)) 16) ↔
      ∀ i < 16, m (wrap64 (a + size) + i) = 0 := by
  -- the store behind the section goes to the start of memory if the section ends at its end
  have hbehind : wrap64 (a + size) = a + size ∨ wrap64 (a + size) + 16 ≤ a := by
    unfold wrap64
    omega
  constructor
  · intro hcleared i hi
    rw [← hcleared.frame _ (by omega), zeroed_inside (by omega)]
  · intro hzero
    refine ⟨fun x hlow hhigh => ?_, fun x hx => ?_⟩
    · by_cases hin : wrap64 (a + size) ≤ x ∧ x < wrap64 (a + size) + 16
      · exact zeroed_inside hin
      · rw [zeroed_outside (by omega), zeroed_inside ⟨hlow, hhigh⟩]
    · by_cases hin : wrap64 (a + size) ≤ x ∧ x < wrap64 (a + size) + 16
      · have hbyte := hzero (x - wrap64 (a + size)) (by omega)
        rw [Nat.add_sub_cancel' hin.1] at hbyte
        rw [zeroed_inside hin, hbyte]
      · rw [zeroed_outside (by omega), zeroed_outside hx]

section

variable {valImageLoadOffset bssStartAddr bssEndAddr start offset n : ℕ} {s : Cpu}

/-- What a whole run of the code leaves in memory. -/
theorem leads_cleared (hvar : valImageLoadOffset < 2 ^ 64) (hstartAddr : bssStartAddr < 2 ^ 64)
    (hendAddr : bssEndAddr < 2 ^ 64) (hpc : s.pc = 0) (hrunning : s.returned = false)
    (hoffset : s.mem.load valImageLoadOffset 8 = offset) (hstart : s.mem.load bssStartAddr 8 = start)
    (hend : s.mem.load bssEndAddr 8 = start + 16 * n) (hpos : 0 < n)
    (hfits : wrap64 (start + offset) + 16 * n ≤ 2 ^ 64) :
    Leads (clearBss valImageLoadOffset bssStartAddr bssEndAddr) s fun t =>
      t.pc = (clearBss valImageLoadOffset bssStartAddr bssEndAddr).length ∧
        t.mem = zeroed (zeroed s.mem (wrap64 (start + offset)) (16 * n))
          (wrap64 (wrap64 (start + offset) + 16 * n)) 16 := by
  have hbound := s.mem.load_lt bssEndAddr 8
  rw [hend] at hbound
  have hcount : sub64 (wrap64 (start + 16 * n + offset)) (wrap64 (start + offset)) = 16 * n := by
    unfold sub64 wrap64
    omega
  have hbss := leads_bss hpc hrunning hvar hstartAddr hendAddr
  rw [hoffset, hstart, hend, hcount] at hbss
  exact (hbss.trans fun t ht => leads_blocks ht hpos hfits (by omega)).trans fun t ht => leads_last ht

end

/-- For every load offset and every section whose size is a multiple of sixteen, the code ends. It has
cleared the section and nothing else exactly if the sixteen bytes behind the section were zero. -/
theorem clear_bss_iff (valImageLoadOffset bssStartAddr bssEndAddr start offset n : ℕ)
    (hvar : valImageLoadOffset < 2 ^ 64) (hstartAddr : bssStartAddr < 2 ^ 64)
    (hendAddr : bssEndAddr < 2 ^ 64) (s : Cpu) (hpc : s.pc = 0) (hrunning : s.returned = false)
    (hoffset : s.mem.load valImageLoadOffset 8 = offset) (hstart : s.mem.load bssStartAddr 8 = start)
    (hend : s.mem.load bssEndAddr 8 = start + 16 * n) (hpos : 0 < n)
    (hfits : wrap64 (start + offset) + 16 * n ≤ 2 ^ 64) :
    Leads (clearBss valImageLoadOffset bssStartAddr bssEndAddr) s (fun t =>
        t.pc = (clearBss valImageLoadOffset bssStartAddr bssEndAddr).length ∧
          BssCleared (wrap64 (start + offset)) (16 * n) s.mem t.mem) ↔
      ∀ i < 16, s.mem (wrap64 (wrap64 (start + offset) + 16 * n) + i) = 0 := by
  have hcall := leads_cleared hvar hstartAddr hendAddr hpc hrunning hoffset hstart hend hpos hfits
  have hbound := s.mem.load_lt bssEndAddr 8
  rw [Leads.mem_of_stop (fun _ => step_of_end) hcall]
  exact bssCleared_iff s.mem (by omega) (by omega) hfits

/-- The boot code of an image that lies where it was linked, with the pointers from `0x1000` on, the
section from `0x2000` to `0x2020`, and a byte behind it. -/
def bootWith (b : UInt8) : Cpu where
  regs _ := 0
  flags := ⟨false, false, false, false⟩
  mem := ((ByteMemory.store (fun _ => 0) 0x1008 8 0x2000).store 0x1010 8 0x2020).poke 0x2025 b
  pc := 0
  returned := false

/-- A byte behind the section is lost. -/
theorem clear_bss_clears_behind :
    ¬ Leads (clearBss 0x1000 0x1008 0x1010) (bootWith 7) (fun t =>
      t.pc = (clearBss 0x1000 0x1008 0x1010).length ∧
        BssCleared (wrap64 (0x2000 + 0)) (16 * 2) (bootWith 7).mem t.mem) := by
  have hcall := leads_cleared (s := bootWith 7) (n := 2) (by decide : 0x1000 < 2 ^ 64)
    (by decide : 0x1008 < 2 ^ 64) (by decide : 0x1010 < 2 ^ 64) rfl rfl
    (by decide : _ = 0) (by decide : _ = 0x2000) (by decide) (by decide) (by decide)
  rw [Leads.mem_of_stop (fun _ => step_of_end) hcall]
  intro hcleared
  exact absurd (hcleared.frame 0x2025 (by decide)) (by decide)

/-- Without that byte the call clears the section and changes nothing else. -/
theorem clear_bss_of_zero_behind :
    Leads (clearBss 0x1000 0x1008 0x1010) (bootWith 0) (fun t =>
      t.pc = (clearBss 0x1000 0x1008 0x1010).length ∧
        BssCleared (wrap64 (0x2000 + 0)) (16 * 2) (bootWith 0).mem t.mem) :=
  (clear_bss_iff 0x1000 0x1008 0x1010 0x2000 0 2 (by decide) (by decide) (by decide) (bootWith 0) rfl rfl
    (by decide) (by decide) (by decide) (by decide) (by decide)).mpr (by decide)

end FfaAcs.Boot
