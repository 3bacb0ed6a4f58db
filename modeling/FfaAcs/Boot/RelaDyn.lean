import FfaAcs.Boot.SymbolTable
import FfaAcs.Machine.Fields

/-!
# Applying dynamic relocations

`fix_rela_dyn` walks over a table of 24-byte records. For a record of type `R_AARCH64_RELATIVE` it
stores the addend, moved by the load offset, at the place that the record names, moved by the load
offset. The place is checked against the limits of the image before and after it is moved, and a
check that fails ends in a branch to itself.

The records are untrusted, and a store may hit a record that has not been read yet. The stores of a
call are therefore defined record by record, each from the memory that the records before it leave.
-/

namespace FfaAcs.Boot

open Machine Machine.Aarch64

/-- `IMAGE_SIZE`. -/
def imageSize : ℕ := 0x400000

/-- `R_AARCH64_RELATIVE`. -/
def rAarch64Relative : ℕ := 0x403

/-- `fix_rela_dyn`. The labels are 1 at index 6, 2 at index 14, 3 at index 38 and 4 at index 40. -/
def fixRelaDyn (pageAlignment relaDynStart relaDynEnd : ℕ) : List Instr :=
  [ .mov 6 0,
    .mov 8 1,
    .orr 3 0 1,
    .tst 3 (pageAlignment - 1),
    .bc .eq 6,
    .b 5,
    .andImm 2 30 (not64 (pageAlignment - 1)),
    .sub 7 2 6,
    .adds 9 6 7,
    .bc .cs 9,
    .adds 10 8 7,
    .bc .cs 11,
    .adr 1 relaDynStart,
    .adr 2 relaDynEnd,
    .cmp 1 2,
    .bc .eq 40,
    .addImm 12 1 24,
    .cmp 12 2,
    .bc .hi 18,
    .ldr 3 1 0,
    .ldr 4 1 8,
    .ldr 5 1 16,
    .cmpImm 4 rAarch64Relative,
    .bc .ne 38,
    .cmp 3 6,
    .bc .lo 25,
    .subImm 11 8 8,
    .cmp 3 11,
    .bc .hi 28,
    .adds 3 3 7,
    .bc .cs 30,
    .cmp 3 9,
    .bc .lo 32,
    .subImm 11 10 8,
    .cmp 3 11,
    .bc .hi 35,
    .add 5 5 7,
    .str 5 3 0,
    .mov 1 12,
    .b 14,
    .ret ]

/-- The values that stay in registers during the walk: the limits the image was linked for, the load
offset, and where the table starts and ends. -/
structure RelaCall where
  lo : ℕ
  hi : ℕ
  offset : ℕ
  start : ℕ
  tableEnd : ℕ
deriving DecidableEq

/-- The record at an address is of type `R_AARCH64_RELATIVE`. -/
def IsRelative (m : ByteMemory) (a : ℕ) : Prop := m.load (a + 8) 8 = rAarch64Relative

instance (m : ByteMemory) (a : ℕ) : Decidable (IsRelative m a) := inferInstanceAs (Decidable (_ = _))

namespace RelaCall

variable (c : RelaCall)

/-- A state of the walk at a record, with the memory it has come to. -/
structure Inside (pc a : ℕ) (m : ByteMemory) (s : Cpu) : Prop where
  pc : s.pc = pc
  running : s.returned = false
  x1 : s.regs 1 = a
  x2 : s.regs 2 = c.tableEnd
  x6 : s.regs 6 = c.lo
  x7 : s.regs 7 = c.offset
  x8 : s.regs 8 = c.hi
  x9 : s.regs 9 = c.lo + c.offset
  x10 : s.regs 10 = c.hi + c.offset
  mem : s.mem = m

/-- Where a record lies. -/
def record (k : ℕ) : ℕ := c.start + 24 * k

/-- The place that a record names, as it lies in memory. -/
def slot (m : ByteMemory) (a : ℕ) : Field := ⟨wrap64 (m.load a 8 + c.offset), 8⟩

/-- What belongs there. -/
def moved (m : ByteMemory) (a : ℕ) : ℕ := wrap64 (m.load (a + 16) 8 + c.offset)

/-- The store of a record, if it is a relative one. -/
def storeAt (m : ByteMemory) (a : ℕ) : List (Field × ℕ) :=
  if IsRelative m a then [(c.slot m a, c.moved m a)] else []

/-- The stores of the first records. Each record is read after the stores of those before it. -/
def stores (m : ByteMemory) : ℕ → List (Field × ℕ)
  | 0 => []
  | k + 1 => stores m k ++ c.storeAt (assign m (stores m k)) (c.record k)

/-- A field of eight bytes in the image, as it lies in memory. -/
def InImage (f : Field) : Prop :=
  f.width = 8 ∧ f.Within (c.lo + c.offset) (min (c.lo + imageSize + c.offset) (2 ^ 64))

/-- The limits are those of 64-bit registers, before and after they are moved. -/
structure Moved : Prop where
  lo : c.lo + c.offset < 2 ^ 64
  hi : c.hi + c.offset < 2 ^ 64
  tableEnd : c.tableEnd < 2 ^ 64

end RelaCall

section

variable {pageAlignment a : ℕ} {c : RelaCall} {m : ByteMemory} {s : Cpu}

/-- The head of the loop: the end of the table, a partial record, or a record. -/
theorem leads_head (h : c.Inside 14 a m s) (hc : c.Moved) (ha : a < 2 ^ 64)
    (hroom : a ≠ c.tableEnd → a + 24 < 2 ^ 64) :
    Leads (fixRelaDyn pageAlignment c.start c.tableEnd) s fun t =>
      Spins (fixRelaDyn pageAlignment c.start c.tableEnd) t ∨
        (t.returned = true ∧ t.mem = m ∧ a = c.tableEnd) ∨
        (c.Inside 19 a m t ∧ t.regs 12 = a + 24 ∧ a + 24 ≤ c.tableEnd) := by
  obtain ⟨regs, flags, mem, pc, returned⟩ := s
  obtain ⟨rfl, rfl, rfl, x2, x6, x7, x8, x9, x10, rfl⟩ := h
  simp only at ha hroom x2 x6 x7 x8 x9 x10
  refine .exec rfl rfl (.branch (p := regs 1 = c.tableEnd) rfl rfl ?_
    (fun hdone => .exec rfl rfl (.here (Or.inr (Or.inl ⟨rfl, rfl, hdone⟩)))) fun hmore => ?_)
  · simp [exec, Cpu.set, Cpu.read, xzr, x2, holds_eq_ofSub ha hc.tableEnd]
  have hnext : wrap64 (regs 1 + 24) = regs 1 + 24 := wrap64_of_lt (hroom hmore)
  refine .exec rfl rfl (.exec rfl rfl (.guard (p := c.tableEnd < regs 1 + 24) rfl rfl ?_ fun hpart =>
    .here (Or.inr (Or.inr ⟨⟨rfl, rfl, rfl, x2, x6, x7, x8, x9, x10, rfl⟩, ?_, Nat.le_of_not_lt hpart⟩))))
  · simp [exec, Cpu.put, Cpu.set, Cpu.read, xzr, x2, hnext, holds_hi_ofSub (hroom hmore) hc.tableEnd]
  · simpa [exec, Cpu.put, Cpu.set, Cpu.read, xzr] using hnext

/-- A record is read. -/
theorem leads_record (h : c.Inside 19 a m s) (hx12 : s.regs 12 = a + 24) (ha : a + 24 < 2 ^ 64) :
    Leads (fixRelaDyn pageAlignment c.start c.tableEnd) s fun t =>
      t.regs 12 = a + 24 ∧
        if IsRelative m a then
          c.Inside 24 a m t ∧ t.regs 3 = m.load a 8 ∧ t.regs 5 = m.load (a + 16) 8
        else c.Inside 38 a m t := by
  obtain ⟨regs, flags, mem, pc, returned⟩ := s
  obtain ⟨rfl, rfl, rfl, x2, x6, x7, x8, x9, x10, rfl⟩ := h
  simp only at ha hx12 x2 x6 x7 x8 x9 x10
  have h0 : wrap64 (regs 1) = regs 1 := wrap64_of_lt (by omega)
  have h8 : wrap64 (regs 1 + 8) = regs 1 + 8 := wrap64_of_lt (by omega)
  have h16 : wrap64 (regs 1 + 16) = regs 1 + 16 := wrap64_of_lt (by omega)
  have hne : Cond.ne.holds (.ofSub (mem.load (regs 1 + 8) 8) rAarch64Relative) =
      decide (¬IsRelative mem (regs 1)) :=
    (holds_ne_ofSub (mem.load_lt _ 8) (by decide)).trans (decide_eq_decide.mpr Iff.rfl)
  refine .exec rfl rfl (.exec rfl rfl (.exec rfl rfl (.exec rfl rfl
    (.branch (p := ¬IsRelative mem (regs 1)) rfl rfl ?_ (fun hother => .here ⟨hx12, ?_⟩)
      fun hrelative => .here ⟨hx12, ?_⟩))))
  · simpa [exec, Cpu.put, Cpu.set, Cpu.read, xzr, h8] using hne
  · rw [if_neg hother]
    exact ⟨rfl, rfl, rfl, x2, x6, x7, x8, x9, x10, rfl⟩
  · rw [if_pos (not_not.mp hrelative)]
    refine ⟨⟨rfl, rfl, rfl, x2, x6, x7, x8, x9, x10, rfl⟩, ?_, ?_⟩
    · simp [exec, Cpu.put, Cpu.set, Cpu.read, xzr, h0]
    · simp [exec, Cpu.put, Cpu.set, Cpu.read, xzr, h16]

/-- The place of a record is checked before it is moved. -/
theorem leads_check_linked {place addend : ℕ} (h : c.Inside 24 a m s)
    (hx12 : s.regs 12 = a + 24) (hx3 : s.regs 3 = place) (hx5 : s.regs 5 = addend)
    (hplace : place < 2 ^ 64) :
    Leads (fixRelaDyn pageAlignment c.start c.tableEnd) s fun t =>
      Spins (fixRelaDyn pageAlignment c.start c.tableEnd) t ∨
        (c.Inside 29 a m t ∧ t.regs 12 = a + 24 ∧ t.regs 3 = place ∧ t.regs 5 = addend ∧
          c.lo ≤ place ∧ place ≤ sub64 c.hi 8) := by
  obtain ⟨regs, flags, mem, pc, returned⟩ := s
  obtain ⟨rfl, rfl, rfl, x2, x6, x7, x8, x9, x10, rfl⟩ := h
  simp only at hx12 hx3 hx5 x2 x6 x7 x8 x9 x10
  have hlimit : sub64 c.hi 8 < 2 ^ 64 := Nat.mod_lt _ (by norm_num)
  refine .exec rfl rfl (.guard (p := place < c.lo) rfl rfl ?_ fun hbelow => .exec rfl rfl (.exec rfl rfl
    (.guard (p := sub64 c.hi 8 < place) rfl rfl ?_ fun habove => .here (Or.inr ⟨⟨rfl, rfl, rfl, x2, x6, x7,
      x8, x9, x10, rfl⟩, hx12, hx3, hx5, Nat.le_of_not_lt hbelow, Nat.le_of_not_lt habove⟩))))
  · simp [exec, Cpu.set, Cpu.read, xzr, hx3, x6]
  · simp [exec, Cpu.put, Cpu.set, Cpu.read, xzr, hx3, x8, holds_hi_ofSub hplace hlimit]

/-- It is moved, and checked again. -/
theorem leads_check_moved {place addend : ℕ} (h : c.Inside 29 a m s)
    (hx12 : s.regs 12 = a + 24) (hx3 : s.regs 3 = place) (hx5 : s.regs 5 = addend)
    (hlow : c.lo ≤ place) :
    Leads (fixRelaDyn pageAlignment c.start c.tableEnd) s fun t =>
      Spins (fixRelaDyn pageAlignment c.start c.tableEnd) t ∨
        (c.Inside 36 a m t ∧ t.regs 12 = a + 24 ∧ t.regs 3 = place + c.offset ∧ t.regs 5 = addend ∧
          place + c.offset < 2 ^ 64 ∧ place + c.offset ≤ sub64 (c.hi + c.offset) 8) := by
  obtain ⟨regs, flags, mem, pc, returned⟩ := s
  obtain ⟨rfl, rfl, rfl, x2, x6, x7, x8, x9, x10, rfl⟩ := h
  simp only at hx12 hx3 hx5 x2 x6 x7 x8 x9 x10
  have hlimit : sub64 (c.hi + c.offset) 8 < 2 ^ 64 := Nat.mod_lt _ (by norm_num)
  refine .exec rfl rfl (.guard (p := 2 ^ 64 ≤ place + c.offset) rfl rfl ?_ fun hcarry => ?_)
  · simp [exec, Cpu.put, Cpu.read, xzr, hx3, x7]
  have hword : place + c.offset < 2 ^ 64 := Nat.lt_of_not_le hcarry
  have hmoved : wrap64 (place + c.offset) = place + c.offset := wrap64_of_lt hword
  refine .exec rfl rfl (.passed rfl rfl ?_ (.exec rfl rfl (.exec rfl rfl
    (.guard (p := sub64 (c.hi + c.offset) 8 < place + c.offset) rfl rfl ?_ fun habove =>
      .here (Or.inr ⟨⟨rfl, rfl, rfl, x2, x6, x7, x8, x9, x10, rfl⟩, hx12, ?_, hx5, hword,
        Nat.le_of_not_lt habove⟩)))))
  · simp [exec, Cpu.put, Cpu.set, Cpu.read, xzr, hx3, x7, x9, hmoved, hlow]
  · simp [exec, Cpu.put, Cpu.set, Cpu.read, xzr, hx3, x7, x10, hmoved, holds_hi_ofSub hword hlimit]
  · simp [exec, Cpu.put, Cpu.set, Cpu.read, xzr, hx3, x7, hmoved]

/-- The moved addend is stored. -/
theorem leads_store {place addend : ℕ} (h : c.Inside 36 a m s) (hx12 : s.regs 12 = a + 24)
    (hx3 : s.regs 3 = place) (hx5 : s.regs 5 = addend) (hplace : place < 2 ^ 64) :
    Leads (fixRelaDyn pageAlignment c.start c.tableEnd) s fun t =>
      c.Inside 38 a (m.store place 8 (wrap64 (addend + c.offset))) t ∧ t.regs 12 = a + 24 := by
  obtain ⟨regs, flags, mem, pc, returned⟩ := s
  obtain ⟨rfl, rfl, rfl, x2, x6, x7, x8, x9, x10, rfl⟩ := h
  simp only at hx12 hx3 hx5 x2 x6 x7 x8 x9 x10
  refine .exec rfl rfl (.exec rfl rfl (.here ⟨⟨rfl, rfl, rfl, x2, x6, x7, x8, x9, x10, ?_⟩, hx12⟩))
  simp [exec, Cpu.put, Cpu.read, xzr, hx3, hx5, x7, wrap64_of_lt hplace]

/-- On to the next record. -/
theorem leads_advance (h : c.Inside 38 a m s) (hx12 : s.regs 12 = a + 24) :
    Leads (fixRelaDyn pageAlignment c.start c.tableEnd) s (c.Inside 14 (a + 24) m) := by
  obtain ⟨regs, flags, mem, pc, returned⟩ := s
  obtain ⟨rfl, rfl, rfl, x2, x6, x7, x8, x9, x10, rfl⟩ := h
  simp only at hx12 x2 x6 x7 x8 x9 x10
  exact .exec rfl rfl (.exec rfl rfl (.here ⟨rfl, rfl, hx12, x2, x6, x7, x8, x9, x10, rfl⟩))

/-- The limits of the image, as the caller passes them. -/
structure RelaCall.OfImage (c : RelaCall) : Prop where
  lo : c.lo < 2 ^ 64
  hi : c.hi = wrap64 (imageSize + c.lo)
  aligned : c.lo % 4096 = 0
  offsetAligned : c.offset % 4096 = 0

/-- A place that has passed every check lies in the image. If the image reaches beyond the end of the
address space, no place passes. -/
theorem RelaCall.OfImage.inImage (h : c.OfImage) {place : ℕ} (hlow : c.lo ≤ place)
    (hhigh : place ≤ sub64 c.hi 8) (hword : place + c.offset < 2 ^ 64)
    (hmoved : place + c.offset ≤ sub64 (c.hi + c.offset) 8) :
    c.InImage ⟨wrap64 (place + c.offset), 8⟩ := by
  obtain ⟨hlo, hhi, haligned, hoffset⟩ := h
  rw [wrap64_of_lt hword]
  refine ⟨rfl, Nat.add_le_add_right hlow _, le_min ?_ ?_⟩
  all_goals
    unfold wrap64 imageSize at hhi
    unfold sub64 at hhigh hmoved
    simp only [imageSize]
    omega

/-- One record: the call spins, is at the end of the table, or has carried out the store. -/
theorem leads_one (h : c.Inside 14 a m s) (hc : c.Moved) (himage : c.OfImage) (ha : a < 2 ^ 64)
    (hroom : a ≠ c.tableEnd → a + 24 < 2 ^ 64) :
    Leads (fixRelaDyn pageAlignment c.start c.tableEnd) s fun t =>
      Spins (fixRelaDyn pageAlignment c.start c.tableEnd) t ∨
        (t.returned = true ∧ t.mem = m ∧ a = c.tableEnd) ∨
        (c.Inside 14 (a + 24) (assign m (c.storeAt m a)) t ∧ a + 24 ≤ c.tableEnd ∧
          ∀ w ∈ c.storeAt m a, c.InImage w.1) := by
  refine (leads_head h hc ha hroom).trans fun t ht => ?_
  rcases ht with hspins | hdone | ⟨hrecord, hx12, hfits⟩
  · exact .here (Or.inl hspins)
  · exact .here (Or.inr (Or.inl hdone))
  · refine (leads_record hrecord hx12 (by have := hc.tableEnd; omega)).trans fun t ht => ?_
    by_cases hrelative : IsRelative m a
    · rw [if_pos hrelative] at ht
      obtain ⟨hx12, hread, hx3, hx5⟩ := ht
      have hstore : c.storeAt m a = [(c.slot m a, c.moved m a)] := if_pos hrelative
      refine (leads_check_linked hread hx12 hx3 hx5 (m.load_lt a 8)).trans fun t ht => ?_
      rcases ht with hspins | ⟨hlinked, hx12, hx3, hx5, hlow, hhigh⟩
      · exact .here (Or.inl hspins)
      refine (leads_check_moved hlinked hx12 hx3 hx5 hlow).trans fun t ht => ?_
      rcases ht with hspins | ⟨hmoved, hx12, hx3, hx5, hword, hmovedHigh⟩
      · exact .here (Or.inl hspins)
      refine (leads_store hmoved hx12 hx3 hx5 hword).trans fun t ht => ?_
      refine (leads_advance ht.1 ht.2).imp fun t ht => Or.inr (Or.inr ⟨?_, hfits, fun w hw => ?_⟩)
      · rw [hstore, RelaCall.slot, wrap64_of_lt hword]
        exact ht
      · rw [hstore] at hw
        rw [List.mem_singleton.mp hw]
        exact himage.inImage hlow hhigh hword hmovedHigh
    · rw [if_neg hrelative] at ht
      have hstore : c.storeAt m a = [] := if_neg hrelative
      refine (leads_advance ht.2 ht.1).imp fun t ht => Or.inr (Or.inr ⟨?_, hfits, fun w hw => ?_⟩)
      · rw [hstore]
        exact ht
      · rw [hstore] at hw
        cases hw

/-- The walk from record `k` on. The induction is on the bytes of the table that are left. -/
theorem leads_walk (hc : c.Moved) (himage : c.OfImage)
    (hroom : (c.tableEnd - c.start) % 24 = 0 ∨ c.tableEnd + 24 ≤ 2 ^ 64) (k : ℕ)
    (h : c.Inside 14 (c.record k) (assign m (c.stores m k)) s)
    (hin : c.record k ≤ c.tableEnd) (hstores : ∀ w ∈ c.stores m k, c.InImage w.1) :
    Leads (fixRelaDyn pageAlignment c.start c.tableEnd) s fun t =>
      Spins (fixRelaDyn pageAlignment c.start c.tableEnd) t ∨
        (t.returned = true ∧ ∃ n, c.tableEnd = c.record n ∧ t.mem = assign m (c.stores m n) ∧
          ∀ w ∈ c.stores m n, c.InImage w.1) := by
  have htable := hc.tableEnd
  have hrecord (j : ℕ) : c.record j = c.start + 24 * j := rfl
  induction hleft : c.tableEnd - c.record k using Nat.strongRecOn generalizing k s with
  | ind left ih =>
    have hk := hrecord k
    refine (leads_one h hc himage (by omega) (by omega)).trans fun t ht => ?_
    rcases ht with hspins | ⟨hreturned, hmem, hend⟩ | ⟨hnext, hfits, hnew⟩
    · exact .here (Or.inl hspins)
    · exact .here (Or.inr ⟨hreturned, k, hend.symm, hmem, hstores⟩)
    · have hword : c.record k + 24 = c.record (k + 1) := by
        rw [hrecord, hrecord]
        omega
      rw [← assign_append, hword] at hnext
      refine ih _ (by omega) (k + 1) hnext (by omega) (fun w hw => ?_) rfl
      exact (List.mem_append.mp hw).elim (hstores w) (hnew w)

/-- The call with page-aligned limits comes to the walk, or spins because a moved limit is no address. -/
theorem leads_limits {pageBits : ℕ} (hbits : pageBits ≤ 64) (hpc : s.pc = 0)
    (hrunning : s.returned = false) (hx0 : s.regs 0 = c.lo) (hx1 : s.regs 1 = c.hi)
    (hx30 : s.regs 30 < 2 ^ 64) (hlo : 2 ^ pageBits ∣ c.lo) (hhi : 2 ^ pageBits ∣ c.hi)
    (hoffset : sub64 (page pageBits (s.regs 30)) c.lo = c.offset) (htable : c.tableEnd < 2 ^ 64) :
    Leads (fixRelaDyn (2 ^ pageBits) c.start c.tableEnd) s fun t =>
      Spins (fixRelaDyn (2 ^ pageBits) c.start c.tableEnd) t ∨
        (c.Inside 14 c.start s.mem t ∧ c.Moved) := by
  obtain ⟨regs, flags, mem, pc, returned⟩ := s
  simp only at hpc hrunning hx0 hx1 hx30 hoffset
  subst hpc hrunning
  have haligned : (regs 0 ||| regs 1) &&& (2 ^ pageBits - 1) = 0 := by
    rw [hx0, hx1, lor_land_of_dvd hlo hhi]
  have hmask : sub64 (regs 30 &&& not64 (2 ^ pageBits - 1)) c.lo = c.offset := by
    rw [land_not64 hbits hx30, ← hoffset, page]
  refine .exec rfl rfl (.exec rfl rfl (.exec rfl rfl (.exec rfl rfl (.taken rfl rfl ?_ ?_))))
  · change Cond.eq.holds (.ofAnd (regs 0 ||| regs 1) (2 ^ pageBits - 1)) = true
    rw [holds_eq_ofAnd, decide_eq_true haligned]
  refine .exec rfl rfl (.exec rfl rfl (.exec rfl rfl
    (.guard (p := 2 ^ 64 ≤ c.lo + c.offset) rfl rfl ?_ fun hlow => .exec rfl rfl
      (.guard (p := 2 ^ 64 ≤ c.hi + c.offset) rfl rfl ?_ fun hhigh => .exec rfl rfl (.exec rfl rfl
        (.here (Or.inr ⟨?_, by omega, by omega, htable⟩)))))))
  · simp [exec, Cpu.put, Cpu.set, Cpu.read, xzr, hmask, hx0]
  · simp [exec, Cpu.put, Cpu.set, Cpu.read, xzr, hmask, hx0, hx1]
  have hbase : wrap64 (c.lo + c.offset) = c.lo + c.offset := wrap64_of_lt (by omega)
  have hlimit : wrap64 (c.hi + c.offset) = c.hi + c.offset := wrap64_of_lt (by omega)
  refine ⟨rfl, rfl, rfl, rfl, hx0, ?_, hx1, ?_, ?_, rfl⟩ <;>
    simp [exec, Cpu.put, Cpu.set, Cpu.read, xzr, hmask, hx0, hx1, hbase, hlimit]

end

/-! ## What the stores leave -/

namespace RelaCall

variable {c : RelaCall} {m : ByteMemory} {n k : ℕ}

/-- There is one store for each record that was relative when it was read. -/
theorem length_stores :
    (c.stores m n).length =
      (List.range n).countP fun k => IsRelative (assign m (c.stores m k)) (c.record k) := by
  induction n with
  | zero => rfl
  | succ n ih =>
    rw [stores, List.length_append, ih, List.range_succ, List.countP_append, List.countP_singleton,
      storeAt]
    split <;> simp_all

/-- The places that the table names for its relative records are apart from it and from each other. -/
structure Separate (c : RelaCall) (m : ByteMemory) (n : ℕ) : Prop where
  table : ∀ k < n, IsRelative m (c.record k) → (c.slot m (c.record k)).Disjoint ⟨c.start, 24 * n⟩
  slots : ∀ j < n, ∀ k < n, j ≠ k → IsRelative m (c.record j) → IsRelative m (c.record k) →
    (c.slot m (c.record j)).Disjoint (c.slot m (c.record k))

/-- A record of the relative type causes one store: its moved addend to its slot. -/
theorem mem_storeAt {a : ℕ} {w : Field × ℕ} :
    w ∈ c.storeAt m a ↔ IsRelative m a ∧ w = (c.slot m a, c.moved m a) := by
  unfold storeAt
  split <;> simp_all

/-- The store of a record depends on the record only. -/
theorem storeAt_congr {m' : ByteMemory} {a : ℕ} (h : ∀ x, a ≤ x → x < a + 24 → m' x = m x) :
    c.storeAt m' a = c.storeAt m a := by
  have hplace : m'.load a 8 = m.load a 8 :=
    ByteMemory.load_congr fun x hlow hhigh => h x hlow (by omega)
  have hinfo : IsRelative m' a ↔ IsRelative m a := by
    rw [IsRelative, IsRelative, ByteMemory.load_congr fun x hlow hhigh => h x (by omega) (by omega)]
  have haddend : m'.load (a + 16) 8 = m.load (a + 16) 8 :=
    ByteMemory.load_congr fun x hlow hhigh => h x (by omega) (by omega)
  simp only [storeAt, slot, moved, hplace, hinfo, haddend]

/-- The bytes that the stores of the records cover, as the table is before the call. -/
theorem not_covers_flatMap {x : ℕ} (h : ∀ j < k, IsRelative m (c.record j) →
      x < (c.slot m (c.record j)).offset ∨ (c.slot m (c.record j)).offset + 8 ≤ x) :
    ¬Covers ((List.range k).flatMap fun j => c.storeAt m (c.record j)) x := by
  rintro ⟨w, hw, hfrom, hto⟩
  obtain ⟨j, hj, hw⟩ := List.mem_flatMap.mp hw
  obtain ⟨hrelative, hslot⟩ := mem_storeAt.mp hw
  rw [hslot] at hfrom hto
  have hwidth : (c.slot m (c.record j)).width = 8 := rfl
  have hout := h j (List.mem_range.mp hj) hrelative
  simp only [hwidth] at hfrom hto
  omega

/-- A table that no store hits is read as it was before the call. -/
theorem Separate.stores_eq (h : c.Separate m n) (hk : k ≤ n) :
    c.stores m k = (List.range k).flatMap fun j => c.storeAt m (c.record j) := by
  induction k with
  | zero => rfl
  | succ k ih =>
    rw [stores, List.range_succ, List.flatMap_append, List.flatMap_singleton, ih (by omega)]
    rw [storeAt_congr fun x hlow hhigh => assign_of_not_covers m (not_covers_flatMap ?_)]
    intro j hj hrelative
    have hapart : (c.slot m (c.record j)).offset + 8 ≤ c.start ∨
        c.start + 24 * n ≤ (c.slot m (c.record j)).offset := h.table j (by omega) hrelative
    have hrecord : c.record k = c.start + 24 * k := rfl
    omega

/-- The stores of a table that no store hits are apart. -/
theorem Separate.pairwise (h : c.Separate m n) :
    ((c.stores m n).map Prod.fst).Pairwise Field.Disjoint := by
  rw [h.stores_eq le_rfl, List.pairwise_map]
  apply List.pairwise_flatMap.mpr
  constructor
  · intro k _
    unfold storeAt
    split
    · exact List.pairwise_singleton _ _
    · exact List.Pairwise.nil
  · refine List.pairwise_lt_range.imp_of_mem fun {j k} hj hk hlt u hu w hw => ?_
    obtain ⟨hrelj, rfl⟩ := mem_storeAt.mp hu
    obtain ⟨hrelk, rfl⟩ := mem_storeAt.mp hw
    exact h.slots j (List.mem_range.mp hj) k (List.mem_range.mp hk) (by omega) hrelj hrelk

/-- What the function is for: the words that relative records name are written, and nothing else. -/
structure Relocated (c : RelaCall) (n : ℕ) (m m' : ByteMemory) : Prop where
  slot : ∀ k < n, IsRelative m (c.record k) → (c.slot m (c.record k)).get m' = c.moved m (c.record k)
  frame : ∀ x, (∀ k < n, IsRelative m (c.record k) →
    x < (c.slot m (c.record k)).offset ∨ (c.slot m (c.record k)).offset + 8 ≤ x) → m' x = m x

/-- Separate places are all relocated. -/
theorem Separate.relocated (h : c.Separate m n) : c.Relocated n m (assign m (c.stores m n)) where
  slot k hk hrelative := by
    have hmem : (c.slot m (c.record k), c.moved m (c.record k)) ∈ c.stores m n := by
      rw [h.stores_eq le_rfl]
      exact List.mem_flatMap.mpr ⟨k, List.mem_range.mpr hk, mem_storeAt.mpr ⟨hrelative, rfl⟩⟩
    rw [get_assign_of_mem m h.pairwise hmem]
    exact Nat.mod_mod _ _
  frame x hx := by
    rw [h.stores_eq le_rfl]
    exact assign_of_not_covers m (not_covers_flatMap hx)

end RelaCall

/-! ## Whole calls -/

section

variable {pageBits x y start tableEnd : ℕ}

/-- A page starts at or below its addresses. -/
theorem page_le : page pageBits x ≤ x := Nat.div_mul_le_self x _

/-- The limit of an image is page aligned if its start is, also if it is beyond the address space. -/
theorem dvd_image_limit (hbits : pageBits = 12 ∨ pageBits = 14 ∨ pageBits = 16) (hx : 2 ^ pageBits ∣ x) :
    2 ^ pageBits ∣ wrap64 (imageSize + x) := by
  unfold wrap64 imageSize
  rcases hbits with rfl | rfl | rfl <;> omega

/-- Every page is aligned to 4 KB. -/
theorem page_mod (hbits : pageBits = 12 ∨ pageBits = 14 ∨ pageBits = 16) : page pageBits x % 4096 = 0 := by
  unfold page
  rcases hbits with rfl | rfl | rfl <;> omega

/-- What the caller passes are the limits of an image. -/
theorem ofImage_of_pages (hbits : pageBits = 12 ∨ pageBits = 14 ∨ pageBits = 16) (hx : x < 2 ^ 64) :
    RelaCall.OfImage ⟨page pageBits x, wrap64 (imageSize + page pageBits x),
      sub64 (page pageBits y) (page pageBits x), start, tableEnd⟩ where
  lo := page_le.trans_lt hx
  hi := rfl
  aligned := page_mod hbits
  offsetAligned := by
    have hfrom : page pageBits x % 4096 = 0 := page_mod hbits
    have hto : page pageBits y % 4096 = 0 := page_mod hbits
    simp only [sub64]
    omega

end

/-- For every table and load address, a call spins, or it returns. If it returns, it has carried out
the stores of the records, each of them inside the image and one for each relative record. Where the
places that the table names are apart from each other and from the table, the relative records are
relocated and no other byte has changed.

The table consists of whole records, or is not at the very end of the address space. -/
theorem fix_rela_dyn_safe (pageBits pieFixup relaDynStart relaDynEnd : ℕ)
    (hbits : pageBits = 12 ∨ pageBits = 14 ∨ pageBits = 16) (hpie : pieFixup < 2 ^ 64)
    (htable : relaDynStart ≤ relaDynEnd) (hend : relaDynEnd < 2 ^ 64)
    (hroom : (relaDynEnd - relaDynStart) % 24 = 0 ∨ relaDynEnd + 24 ≤ 2 ^ 64) (s : Cpu)
    (hpc : s.pc = 0) (hrunning : s.returned = false) (hx0 : s.regs 0 = page pageBits pieFixup)
    (hx1 : s.regs 1 = wrap64 (imageSize + page pageBits pieFixup)) (hx30 : s.regs 30 < 2 ^ 64)
    (c : RelaCall) (hc : c = ⟨page pageBits pieFixup, wrap64 (imageSize + page pageBits pieFixup),
      sub64 (page pageBits (s.regs 30)) (page pageBits pieFixup), relaDynStart, relaDynEnd⟩) :
    Leads (fixRelaDyn (2 ^ pageBits) relaDynStart relaDynEnd) s fun t =>
      Spins (fixRelaDyn (2 ^ pageBits) relaDynStart relaDynEnd) t ∨
        (t.returned = true ∧ ∃ n, relaDynEnd = c.record n ∧ t.mem = assign s.mem (c.stores s.mem n) ∧
          (∀ w ∈ c.stores s.mem n, c.InImage w.1) ∧
          (c.stores s.mem n).length = (List.range n).countP
            (fun k => IsRelative (assign s.mem (c.stores s.mem k)) (c.record k)) ∧
          (c.Separate s.mem n → c.Relocated n s.mem t.mem)) := by
  have hlo : 2 ^ pageBits ∣ page pageBits pieFixup := Dvd.intro_left _ rfl
  have hhi : 2 ^ pageBits ∣ wrap64 (imageSize + page pageBits pieFixup) := dvd_image_limit hbits hlo
  have hlimits := leads_limits (c := c) (by omega : pageBits ≤ 64) hpc hrunning (by rw [hc, hx0])
    (by rw [hc, hx1]) hx30 (by rw [hc]; exact hlo) (by rw [hc]; exact hhi) (by rw [hc])
    (by rw [hc]; exact hend)
  have himage : c.OfImage := by
    rw [hc]
    exact ofImage_of_pages hbits hpie
  have hstart : c.start = relaDynStart := by rw [hc]
  have htableEnd : c.tableEnd = relaDynEnd := by rw [hc]
  rw [← hstart, ← htableEnd] at htable hroom ⊢
  refine hlimits.trans fun t ht => ?_
  rcases ht with hspins | ⟨hinside, hmoved⟩
  · exact .here (Or.inl hspins)
  refine (leads_walk hmoved himage hroom 0 hinside htable (fun w hw => by cases hw)).imp fun u hu => ?_
  rcases hu with hspins | ⟨hreturned, n, hn, hmem, hstores⟩
  · exact Or.inl hspins
  · refine Or.inr ⟨hreturned, n, hn, hmem, hstores, RelaCall.length_stores, fun hseparate => ?_⟩
    rw [hmem]
    exact hseparate.relocated

/-- A table at `0x40003000` with one relative record. -/
def oneRecord : ByteMemory :=
  assign (fun _ => 0) [(⟨0x40003000, 8⟩, 0x40000100), (⟨0x40003008, 8⟩, 0x403), (⟨0x40003010, 8⟩, 0x40000200)]

/-- The call for a table with one record returns, and has relocated it. -/
theorem fix_rela_dyn_safe_of_one_record :
    (run (fixRelaDyn (2 ^ 12) 0x40003000 0x40003018) 64 (fixupCall oneRecord)).returned = true ∧
      ∃ c : RelaCall, c.offset = 0x1000 ∧
      Leads (fixRelaDyn (2 ^ 12) 0x40003000 0x40003018) (fixupCall oneRecord) fun t =>
        Spins (fixRelaDyn (2 ^ 12) 0x40003000 0x40003018) t ∨
          (t.returned = true ∧ ∃ n, 0x40003018 = c.record n ∧
            t.mem = assign oneRecord (c.stores oneRecord n) ∧
            (∀ w ∈ c.stores oneRecord n, c.InImage w.1) ∧
            (c.stores oneRecord n).length = (List.range n).countP
              (fun k => IsRelative (assign oneRecord (c.stores oneRecord k)) (c.record k)) ∧
            (c.Separate oneRecord n → c.Relocated n oneRecord t.mem)) := by
  refine ⟨by decide +kernel, ⟨0x40000000, 0x40400000, 0x1000, 0x40003000, 0x40003018⟩, rfl, ?_⟩
  exact fix_rela_dyn_safe 12 0x40000000 0x40003000 0x40003018 (by decide) (by decide) (by decide)
    (by decide) (by decide) (fixupCall oneRecord) rfl rfl (by decide) (by decide) (by decide) _
    (by decide)

end FfaAcs.Boot
