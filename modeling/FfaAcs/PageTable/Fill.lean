import FfaAcs.Heap.Malloc

/-!
# Translation table construction

`val_pgt_create` enters one memory region into the translation tables of an endpoint. It checks
the region, derives the shape of the tree from the granule and the input address size, and
calls `fill_translation_table` on the root. That function cuts the input range at the block
boundaries of its level: a chunk becomes a page descriptor at level 3, a block descriptor where
size and alignment allow it, and otherwise a table descriptor, below which the function is
called again for the chunk.

The tables are reserved by the assembler: one for level 0, one for level 1, twelve for level 2
and twenty-four for level 3. Byte flags record which of the last two kinds are in use.

A descriptor is a 64-bit word, and `mem` maps its address to its value. The loop is bounded by a
`fuel` argument, and a call that runs out of it is reported as `diverged`; the recursion is
bounded by the distance to level 3, where the function does not call itself.
-/

namespace FfaAcs.PageTable

open Machine
open Heap (Status Fault)

/-- The table type bit of a descriptor, `PGT_ENTRY_TABLE_MASK`. -/
def pgtEntryTableMask : ℕ := 0x1 <<< 1

/-- The valid bit of a descriptor, `PGT_ENTRY_VALID_MASK`. -/
def pgtEntryValidMask : ℕ := 0x1

/-- The page type bit of a descriptor, `PGT_ENTRY_PAGE_MASK`. -/
def pgtEntryPageMask : ℕ := 0x1 <<< 1

/-- The block type bit of a descriptor, `PGT_ENTRY_BLOCK_MASK`. -/
def pgtEntryBlockMask : ℕ := 0x0 <<< 1

/-- `IS_PGT_ENTRY_BLOCK`: the type bit is clear. -/
def isPgtEntryBlock (val : ℕ) : Prop := val &&& 0x2 = 0

instance (val : ℕ) : Decidable (isPgtEntryBlock val) := inferInstanceAs (Decidable (_ = _))

/-- Read/write access in a stage 1 descriptor, `ATTR_STAGE1_AP_RW`. -/
def attrStage1ApRw : ℕ := 0x1 <<< 6

/-- Read/write access in a stage 2 descriptor, `ATTR_STAGE2_AP_RW`. -/
def attrStage2ApRw : ℕ := 0x3 <<< 6

/-- The bytes the assembler reserves for all tables. -/
def storageSize : ℕ := 2 * 4096 + (12 + 24) * 16384

/-- The place of the reserved tables: one page-aligned section below the addresses a descriptor
can hold. -/
structure TableStorage where
  base : ℕ
  aligned : base % 4096 = 0
  pos : 0 < base
  fits : base + storageSize ≤ 2 ^ 48

namespace TableStorage

variable (T : TableStorage)

/-- `tt_l0_base`. -/
def ttL0Base : ℕ := T.base

/-- `tt_l1_base`. -/
def ttL1Base : ℕ := T.base + 4096

/-- `tt_l2_base_1` to `tt_l2_base_12`. -/
def ttL2Base (i : Fin 12) : ℕ := T.base + 2 * 4096 + 16384 * i

/-- `tt_l3_base_1` to `tt_l3_base_24`. -/
def ttL3Base (i : Fin 24) : ℕ := T.base + 2 * 4096 + 12 * 16384 + 16384 * i

end TableStorage

/-- The table words, and the flags of the tables of levels 2 and 3. -/
structure TableState where
  mem : ℕ → ℕ
  l2Used : Fin 12 → Bool
  l3Used : Fin 24 → Bool

/-- Store one descriptor. -/
def TableState.write (s : TableState) (addr v : ℕ) : TableState :=
  { s with mem := Function.update s.mem addr v }

/-- The part of `memory_region_descriptor_t` the tables are built from. -/
structure MemoryRegion where
  virtualAddress : ℕ
  physicalAddress : ℕ
  length : ℕ
  attributes : ℕ
deriving DecidableEq, Repr

/-- `pgt_descriptor_t`. -/
structure PgtDescriptor where
  ias : ℕ
  oas : ℕ
  stage : ℕ
  ttbr : ℕ
deriving DecidableEq, Repr

/-- `tt_descriptor_t`; `inputTop` is the last address of the range. -/
structure TtDescriptor where
  ttBase : ℕ
  inputBase : ℕ
  inputTop : ℕ
  outputBase : ℕ
  level : ℕ
  sizeLog2 : ℕ
  nbits : ℕ
deriving DecidableEq, Repr

/-- The page size and the two file-scope variables `val_pgt_create` sets for the recursion. -/
structure PgtGlobals where
  pageSize : ℕ
  bitsPerLevel : ℕ
  pgtAddrMask : ℕ
deriving DecidableEq, Repr

/-- The first table of a pool whose flag is clear. -/
def firstUnused {n : ℕ} (used : Fin n → Bool) : Option (Fin n) :=
  (List.finRange n).find? fun i => !used i

/-- Select a next-level table from the reserved memory, and set its flag. -/
def selectTable (T : TableStorage) (level : ℕ) (s : TableState) : Option (ℕ × TableState) :=
  if level = 1 then
    (firstUnused s.l2Used).map fun i =>
      (T.ttL2Base i, { s with l2Used := Function.update s.l2Used i true })
  else if level = 2 then
    (firstUnused s.l3Used).map fun i =>
      (T.ttL3Base i, { s with l3Used := Function.update s.l3Used i true })
  else
    some (T.ttL1Base, s)

/-- The table below a descriptor: a new one, unless the descriptor already refers to one. -/
def ttBaseNextLevel (g : PgtGlobals) (T : TableStorage) (level desc : ℕ) (s : TableState) :
    Option (ℕ × TableState) :=
  if desc = 0 ∨ isPgtEntryBlock desc then selectTable T level s
  else some (desc &&& g.pgtAddrMask, s)

/-- A level 3 descriptor. -/
def pageDescriptor (g : PgtGlobals) (output attributes : ℕ) : ℕ :=
  pgtEntryPageMask ||| pgtEntryValidMask ||| (output &&& not64 (g.pageSize - 1)) ||| attributes

/-- A block descriptor of a level above 3. -/
def blockDescriptor (blockSize output attributes : ℕ) : ℕ :=
  pgtEntryBlockMask ||| pgtEntryValidMask ||| (output &&& not64 (blockSize - 1)) ||| attributes

/-- A descriptor that refers to a next-level table. -/
def tableDescriptor (g : PgtGlobals) (ttBase : ℕ) : ℕ :=
  pgtEntryTableMask ||| pgtEntryValidMask ||| (ttBase &&& not64 (g.pageSize - 1))

namespace TtDescriptor

variable (d : TtDescriptor) (input : ℕ)

/-- `block_size`. -/
def blockSize : ℕ := 2 ^ d.sizeLog2

/-- `block_base`. -/
def blockBase : ℕ := input &&& not64 (d.blockSize - 1)

/-- `block_top`. -/
def blockTop : ℕ := d.blockBase input + d.blockSize - 1

/-- `chunk_top`. -/
def chunkTop : ℕ := if d.inputTop < d.blockTop input then d.inputTop else d.blockTop input

/-- `chunk_size`. -/
def chunkSize : ℕ := wrap64 (sub64 (d.chunkTop input) input + 1)

/-- `table_index`. -/
def tableIndex : ℕ := (input >>> d.sizeLog2) &&& (2 ^ d.nbits - 1)

/-- The address `table_desc` points to. -/
def tableDesc : ℕ := d.ttBase + 8 * d.tableIndex input

/-- Whether a chunk that starts here can be described by a block descriptor. -/
def BlockEligible (output : ℕ) : Prop :=
  input &&& (d.blockSize - 1) = 0 ∧ output &&& (d.blockSize - 1) = 0 ∧
    wrap64 (input + d.blockSize - 1) ≤ d.inputTop

instance (output : ℕ) : Decidable (d.BlockEligible input output) :=
  inferInstanceAs (Decidable (_ ∧ _))

/-- The descriptor the recursion works with for the chunk that starts at `input`. -/
def nextLevel (g : PgtGlobals) (ttBase output : ℕ) : TtDescriptor where
  ttBase := ttBase
  inputBase := input
  inputTop := d.chunkTop input
  outputBase := output
  level := d.level + 1
  sizeLog2 := d.sizeLog2 - g.bitsPerLevel
  nbits := g.bitsPerLevel

/-- The descriptors `fill_translation_table` rejects. -/
def Invalid (g : PgtGlobals) : Prop :=
  d.ttBase = 0 ∨ 64 ≤ d.sizeLog2 ∨ d.nbits = 0 ∨ 64 ≤ d.nbits ∨ 64 ≤ g.bitsPerLevel ∨
    g.bitsPerLevel < d.nbits

instance (g : PgtGlobals) : Decidable (d.Invalid g) := inferInstanceAs (Decidable (_ ∨ _))

end TtDescriptor

/-- The outcome of a call: it returns a status and the tables, or it does not return. -/
abbrev Outcome := Except Fault (Status × TableState)

section Fill

variable (g : PgtGlobals) (T : TableStorage) (attributes : ℕ)
variable (next : TtDescriptor → TableState → Outcome)

/-- One iteration of the loop of `fill_translation_table`: the descriptor of the chunk that
starts at `input`, with the tables below it filled by `next`. -/
def fillEntry (d : TtDescriptor) (input output : ℕ) (s : TableState) : Outcome :=
  if 2 ^ 64 - 1 - (d.blockSize - 1) < d.blockBase input then .ok (.error, s)
  else if 2 ^ g.bitsPerLevel ≤ d.tableIndex input then .ok (.error, s)
  else if d.level = 3 then
    .ok (.success, s.write (d.tableDesc input) (pageDescriptor g output attributes))
  else if d.BlockEligible input output then
    .ok (.success, s.write (d.tableDesc input) (blockDescriptor d.blockSize output attributes))
  else
    match ttBaseNextLevel g T d.level (s.mem (d.tableDesc input)) s with
    | none => .ok (.error, s)
    | some (ttBase, s') =>
      next (d.nextLevel input g ttBase output)
        (s'.write (d.tableDesc input) (tableDescriptor g ttBase))

/-- The loop of `fill_translation_table`, from the chunk that starts at `input`. -/
def fillLoop (d : TtDescriptor) : ℕ → ℕ → ℕ → TableState → Outcome
  | 0, _, _, _ => .error .diverged
  | fuel + 1, input, output, s =>
    if input < d.inputTop then
      match fillEntry g T attributes next d input output s with
      | .error e => .error e
      | .ok (.error, s') => .ok (.error, s')
      | .ok (.success, s') =>
        fillLoop d fuel (wrap64 (input + d.chunkSize input)) (wrap64 (output + d.chunkSize input)) s'
    else .ok (.success, s)

/-- `fill_translation_table`, at most `depth` levels above the last one. -/
def fillTranslationTable (fuel : ℕ) : ℕ → TtDescriptor → TableState → Outcome
  | 0, d, s =>
    if d.Invalid g then .ok (.error, s)
    else fillLoop g T attributes (fun _ _ => .error .diverged) d fuel d.inputBase d.outputBase s
  | depth + 1, d, s =>
    if d.Invalid g then .ok (.error, s)
    else
      fillLoop g T attributes (fillTranslationTable fuel depth) d fuel d.inputBase d.outputBase s

end Fill

/-- `val_curr_endpoint_page_size`, by the granule field of the endpoint. -/
def valCurrEndpointPageSize (tg0 : ℕ) : ℕ :=
  if tg0 = 0 then 4 * 1024 else if tg0 = 1 then 64 * 1024 else 16 * 1024

/-- The loop of `ilog2`, over the bits of a 64-bit value. -/
def ilog2Loop : ℕ → ℕ → ℕ → ℕ
  | 0, _, _ => 0
  | n + 1, size, bit =>
    if size = 0 then 0
    else if size &&& 1 ≠ 0 then bit
    else ilog2Loop n (size >>> 1) (bit + 1)

/-- `ilog2`: the position of the lowest bit that is set. -/
def ilog2 (size : ℕ) : ℕ := ilog2Loop 64 size 0

/-- What `val_pgt_create` derives from the page size. -/
def pgtGlobals (tg0 : ℕ) : PgtGlobals where
  pageSize := valCurrEndpointPageSize tg0
  bitsPerLevel := ilog2 (valCurrEndpointPageSize tg0) - 3
  pgtAddrMask :=
    (2 ^ (48 - ilog2 (valCurrEndpointPageSize tg0)) - 1) <<< ilog2 (valCurrEndpointPageSize tg0)

/-- `num_pgt_levels`, for an input address size that is no smaller than the page's. -/
def numPgtLevels (tg0 ias : ℕ) : ℕ :=
  (ias - ilog2 (valCurrEndpointPageSize tg0) + (pgtGlobals tg0).bitsPerLevel - 1) /
    (pgtGlobals tg0).bitsPerLevel

/-- The attributes with read/write access added; there is none for an unknown stage. -/
def stageAttributes (stage attributes : ℕ) : Option ℕ :=
  if stage = 1 then some (attributes ||| attrStage1ApRw)
  else if stage = 2 then some (attributes ||| attrStage2ApRw)
  else none

/-- The range and the root table `val_pgt_create` hands to the recursion. -/
def rootDescriptor (tg0 : ℕ) (pgt : PgtDescriptor) (virtualAddress : ℕ) (r : MemoryRegion) :
    TtDescriptor where
  ttBase := pgt.ttbr
  inputBase := virtualAddress &&& (2 ^ pgt.ias - 1)
  inputTop := sub64 (wrap64 ((virtualAddress &&& (2 ^ pgt.ias - 1)) + r.length)) 1
  outputBase := r.physicalAddress &&& (2 ^ pgt.oas - 1)
  level := 4 - numPgtLevels tg0 pgt.ias
  sizeLog2 := (numPgtLevels tg0 pgt.ias - 1) * (pgtGlobals tg0).bitsPerLevel +
    ilog2 (valCurrEndpointPageSize tg0)
  nbits := pgt.ias - ((numPgtLevels tg0 pgt.ias - 1) * (pgtGlobals tg0).bitsPerLevel +
    ilog2 (valCurrEndpointPageSize tg0))

/-- `val_pgt_create`. The changes it makes to the caller's region descriptor are not recorded. -/
def valPgtCreate (tg0 : ℕ) (T : TableStorage) (fuel : ℕ) (pgt : PgtDescriptor) (r : MemoryRegion)
    (s : TableState) : Outcome :=
  if r.virtualAddress &&& (valCurrEndpointPageSize tg0 - 1) ≠ 0 ∨
      r.physicalAddress &&& (valCurrEndpointPageSize tg0 - 1) ≠ 0 then .ok (.error, s)
  else if 2 ^ pgt.oas ≤ r.physicalAddress then .ok (.error, s)
  else
    -- an input address that is too large is truncated, with a warning only
    let virtualAddress := if 2 ^ pgt.ias ≤ r.virtualAddress then
      r.virtualAddress &&& (2 ^ pgt.ias - 1) else r.virtualAddress
    match stageAttributes pgt.stage r.attributes with
    | none => .ok (.error, s)
    | some attributes =>
      let d := rootDescriptor tg0 pgt virtualAddress r
      fillTranslationTable (pgtGlobals tg0) T attributes fuel (3 - d.level) d s

section Inversion

variable {g : PgtGlobals} {T : TableStorage} {attributes fuel depth input output : ℕ}
variable {next : TtDescriptor → TableState → Outcome} {d : TtDescriptor} {s s' : TableState}
variable {st : Status}

/-- What one iteration of the loop can do: fail, store a page or a block, or refer to a table and
fill it. -/
theorem fillEntry_cases (h : fillEntry g T attributes next d input output s = .ok (st, s')) :
    (st = .error ∧ s' = s) ∨ d.tableIndex input < 2 ^ g.bitsPerLevel ∧
      ((d.level = 3 ∧ st = .success ∧
          s' = s.write (d.tableDesc input) (pageDescriptor g output attributes)) ∨
        (d.level ≠ 3 ∧ d.BlockEligible input output ∧ st = .success ∧
          s' = s.write (d.tableDesc input) (blockDescriptor d.blockSize output attributes)) ∨
        (d.level ≠ 3 ∧ ¬d.BlockEligible input output ∧ ∃ ttBase s₁,
          ttBaseNextLevel g T d.level (s.mem (d.tableDesc input)) s = some (ttBase, s₁) ∧
          next (d.nextLevel input g ttBase output)
            (s₁.write (d.tableDesc input) (tableDescriptor g ttBase)) = .ok (st, s'))) := by
  unfold fillEntry at h
  split_ifs at h with hrange hindex hlast hblock
  · exact .inl ⟨(Prod.mk.inj (Except.ok.inj h)).1.symm, (Prod.mk.inj (Except.ok.inj h)).2.symm⟩
  · exact .inl ⟨(Prod.mk.inj (Except.ok.inj h)).1.symm, (Prod.mk.inj (Except.ok.inj h)).2.symm⟩
  · obtain ⟨rfl, rfl⟩ := Prod.mk.inj (Except.ok.inj h)
    exact .inr ⟨not_le.mp hindex, .inl ⟨hlast, rfl, rfl⟩⟩
  · obtain ⟨rfl, rfl⟩ := Prod.mk.inj (Except.ok.inj h)
    exact .inr ⟨not_le.mp hindex, .inr (.inl ⟨hlast, hblock, rfl, rfl⟩)⟩
  · cases hn : ttBaseNextLevel g T d.level (s.mem (d.tableDesc input)) s with
    | none =>
      rw [hn] at h
      obtain ⟨rfl, rfl⟩ := Prod.mk.inj (Except.ok.inj h)
      exact .inl ⟨rfl, rfl⟩
    | some r =>
      rw [hn] at h
      exact .inr ⟨not_le.mp hindex, .inr (.inr ⟨hlast, hblock, r.1, r.2, rfl, h⟩)⟩

/-- What the loop can do: end, fail in its next iteration, or go on after it. -/
theorem fillLoop_cases (h : fillLoop g T attributes next d (fuel + 1) input output s = .ok (st, s')) :
    (d.inputTop ≤ input ∧ st = .success ∧ s' = s) ∨ input < d.inputTop ∧
      ((st = .error ∧ fillEntry g T attributes next d input output s = .ok (.error, s')) ∨
        ∃ s₁, fillEntry g T attributes next d input output s = .ok (.success, s₁) ∧
          fillLoop g T attributes next d fuel (wrap64 (input + d.chunkSize input))
            (wrap64 (output + d.chunkSize input)) s₁ = .ok (st, s')) := by
  unfold fillLoop at h
  split_ifs at h with hmore
  · cases hentry : fillEntry g T attributes next d input output s with
    | error e =>
      rw [hentry] at h
      exact nomatch h
    | ok r =>
      obtain ⟨st₁, s₁⟩ := r
      rw [hentry] at h
      cases st₁ with
      | error =>
        obtain ⟨rfl, rfl⟩ := Prod.mk.inj (Except.ok.inj h)
        exact .inr ⟨hmore, .inl ⟨rfl, rfl⟩⟩
      | success => exact .inr ⟨hmore, .inr ⟨s₁, rfl, h⟩⟩
  · obtain ⟨rfl, rfl⟩ := Prod.mk.inj (Except.ok.inj h)
    exact .inl ⟨not_lt.mp hmore, rfl, rfl⟩

/-- Past the end of its range the loop does nothing. -/
theorem fillLoop_end (hend : d.inputTop ≤ input)
    (h : fillLoop g T attributes next d fuel input output s = .ok (st, s')) :
    st = .success ∧ s' = s := by
  cases fuel with
  | zero => exact nomatch h
  | succ fuel =>
    rcases fillLoop_cases h with ⟨-, hst, hsame⟩ | ⟨hmore, -⟩
    · exact ⟨hst, hsame⟩
    · omega

/-- A call at the last level rejects its descriptor or runs the loop. -/
theorem fillTranslationTable_zero_cases
    (h : fillTranslationTable g T attributes fuel 0 d s = .ok (st, s')) :
    (st = .error ∧ s' = s) ∨ fillLoop g T attributes (fun _ _ => .error .diverged) d fuel
      d.inputBase d.outputBase s = .ok (st, s') := by
  unfold fillTranslationTable at h
  split_ifs at h with hinvalid
  · obtain ⟨rfl, rfl⟩ := Prod.mk.inj (Except.ok.inj h)
    exact .inl ⟨rfl, rfl⟩
  · exact .inr h

/-- A call above the last level rejects its descriptor or runs the loop with calls below it. -/
theorem fillTranslationTable_succ_cases
    (h : fillTranslationTable g T attributes fuel (depth + 1) d s = .ok (st, s')) :
    (st = .error ∧ s' = s) ∨ fillLoop g T attributes (fillTranslationTable g T attributes fuel depth)
      d fuel d.inputBase d.outputBase s = .ok (st, s') := by
  unfold fillTranslationTable at h
  split_ifs at h with hinvalid
  · obtain ⟨rfl, rfl⟩ := Prod.mk.inj (Except.ok.inj h)
    exact .inl ⟨rfl, rfl⟩
  · exact .inr h

end Inversion

section Chunks

variable {d : TtDescriptor} {input : ℕ}

/-- The block boundary below an address. -/
theorem TtDescriptor.blockBase_eq (hsize : d.sizeLog2 ≤ 64) (hinput : input < 2 ^ 64) :
    d.blockBase input = input / d.blockSize * d.blockSize :=
  land_not64 hsize hinput

/-- A chunk starts at the current address, ends no later than the range and its block, and the
next one follows it. -/
theorem TtDescriptor.chunk_bounds (hsize : d.sizeLog2 ≤ 64) (hinput : input < d.inputTop)
    (htop : d.inputTop < 2 ^ 64 - 1) :
    input ≤ d.chunkTop input ∧
      d.chunkTop input = min d.inputTop (input / d.blockSize * d.blockSize + d.blockSize - 1) ∧
      d.chunkSize input = d.chunkTop input - input + 1 ∧
      wrap64 (input + d.chunkSize input) = d.chunkTop input + 1 := by
  have hpos : 0 < d.blockSize := Nat.two_pow_pos _
  have hbelow := Nat.lt_div_mul_add (a := input) hpos
  have htopEq : d.chunkTop input =
      min d.inputTop (input / d.blockSize * d.blockSize + d.blockSize - 1) := by
    unfold chunkTop blockTop
    rw [blockBase_eq hsize (by omega)]
    split <;> omega
  have hle : input ≤ d.chunkTop input := by omega
  have hchunk : d.chunkSize input = d.chunkTop input - input + 1 := by
    unfold chunkSize
    rw [sub64_of_le hle (by omega), wrap64_of_lt (by omega)]
  refine ⟨hle, htopEq, hchunk, ?_⟩
  rw [wrap64_of_lt (by omega)]
  omega

/-- An index never reaches past the bits of its table. -/
theorem TtDescriptor.tableIndex_eq (d : TtDescriptor) (input : ℕ) :
    d.tableIndex input = input / d.blockSize % 2 ^ d.nbits := by
  rw [tableIndex, Nat.shiftRight_eq_div_pow, Nat.and_two_pow_sub_one_eq_mod, blockSize]

end Chunks

/-- The values for the 4K granule. -/
theorem pgtGlobals_zero : pgtGlobals 0 = ⟨4096, 9, (2 ^ 36 - 1) <<< 12⟩ := by decide

end FfaAcs.PageTable
