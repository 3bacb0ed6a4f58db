import FfaAcs.PageTable.Create

/-!
# The descriptors a call accesses

`fill_translation_table` reads and stores descriptors through `table_desc`. The log of a call lists
these accesses in order, with the word each one stores and the table it then goes on to fill. It is
defined for every bound of the loops, so that it also tells what a call does that never returns.

The assembler reserves 4096 bytes for each of the tables of levels 0 and 1, and 16384 bytes for each
table of levels 2 and 3, on page boundaries of 4K. The 4K granule needs no more than that. With the
16K granule the walk starts at level 1 in `tt_l0_base`, and the tables below it are large enough but
not aligned unless the section happens to start 8K below a 16K boundary. With the 64K granule the root
alone has 2048 descriptors.
-/

namespace FfaAcs.PageTable

open Machine
open Heap (Status Fault)

/-- One access to a descriptor: the call that makes it and the input address it is made for, the word
it stores, and the table that is filled after it. -/
structure Visit where
  call : TtDescriptor
  input : ℕ
  stored : Option ℕ
  below : Option ℕ

/-- The address of the descriptor. -/
def Visit.addr (v : Visit) : ℕ := v.call.tableDesc v.input

section Log

variable (g : PgtGlobals) (T : TableStorage) (attributes : ℕ)
variable (next : TtDescriptor → TableState → Outcome) (nextLog : TtDescriptor → TableState → List Visit)

/-- The accesses of one iteration. -/
def entryLog (d : TtDescriptor) (input output : ℕ) (s : TableState) : List Visit :=
  if 2 ^ 64 - 1 - (d.blockSize - 1) < d.blockBase input then []
  else if 2 ^ g.bitsPerLevel ≤ d.tableIndex input then []
  else if d.level = 3 then [⟨d, input, some (pageDescriptor g output attributes), none⟩]
  else if d.BlockEligible input output then
    [⟨d, input, some (blockDescriptor d.blockSize output attributes), none⟩]
  else
    match ttBaseNextLevel g T d.level (s.mem (d.tableDesc input)) s with
    | none => [⟨d, input, none, none⟩]
    | some (ttBase, s') =>
      ⟨d, input, some (tableDescriptor g ttBase), some ttBase⟩ ::
        nextLog (d.nextLevel input g ttBase output)
          (s'.write (d.tableDesc input) (tableDescriptor g ttBase))

/-- The accesses of the loop, from the chunk that starts at `input`. -/
def loopLog (d : TtDescriptor) : ℕ → ℕ → ℕ → TableState → List Visit
  | 0, _, _, _ => []
  | fuel + 1, input, output, s =>
    if input < d.inputTop then
      entryLog g T attributes nextLog d input output s ++
        match fillEntry g T attributes next d input output s with
        | .ok (.success, s') =>
          loopLog d fuel (wrap64 (input + d.chunkSize input)) (wrap64 (output + d.chunkSize input)) s'
        | _ => []
    else []

/-- The accesses of a call, at most `depth` levels above the last one. -/
def fillLog (fuel : ℕ) : ℕ → TtDescriptor → TableState → List Visit
  | 0, d, s =>
    if d.Invalid g then []
    else loopLog g T attributes (fun _ _ => .error .diverged) (fun _ _ => []) d fuel d.inputBase
      d.outputBase s
  | depth + 1, d, s =>
    if d.Invalid g then []
    else loopLog g T attributes (fillTranslationTable g T attributes fuel depth) (fillLog fuel depth) d
      fuel d.inputBase d.outputBase s

end Log

/-- The accesses of `val_pgt_create`. -/
def createLog (tg0 : ℕ) (T : TableStorage) (fuel : ℕ) (pgt : PgtDescriptor) (r : MemoryRegion)
    (s : TableState) : List Visit :=
  if r.virtualAddress &&& (valCurrEndpointPageSize tg0 - 1) ≠ 0 ∨
      r.physicalAddress &&& (valCurrEndpointPageSize tg0 - 1) ≠ 0 then []
  else if 2 ^ pgt.oas ≤ r.physicalAddress then []
  else
    let virtualAddress := if 2 ^ pgt.ias ≤ r.virtualAddress then
      r.virtualAddress &&& (2 ^ pgt.ias - 1) else r.virtualAddress
    match stageAttributes pgt.stage r.attributes with
    | none => []
    | some attributes =>
      let d := rootDescriptor tg0 pgt virtualAddress r
      fillLog (pgtGlobals tg0) T attributes fuel (3 - d.level) d s

section Successful

variable {g : PgtGlobals} {T : TableStorage} {attributes fuel depth input output : ℕ}
  {next : TtDescriptor → TableState → Outcome} {d : TtDescriptor} {s s' : TableState}

/-- The accesses of a successful iteration: one for a page or a block, and otherwise one for the
reference to a table, before those of the call that fills it. -/
theorem entryLog_cases (nextLog : TtDescriptor → TableState → List Visit)
    (h : fillEntry g T attributes next d input output s = .ok (.success, s')) :
    (d.level = 3 ∧ s' = s.write (d.tableDesc input) (pageDescriptor g output attributes) ∧
        ∃ v, entryLog g T attributes nextLog d input output s = [v] ∧ v.addr = d.tableDesc input) ∨
      (d.level ≠ 3 ∧ d.BlockEligible input output ∧
        s' = s.write (d.tableDesc input) (blockDescriptor d.blockSize output attributes) ∧
        ∃ v, entryLog g T attributes nextLog d input output s = [v] ∧ v.addr = d.tableDesc input) ∨
      (d.level ≠ 3 ∧ ∃ ttBase s₁,
        ttBaseNextLevel g T d.level (s.mem (d.tableDesc input)) s = some (ttBase, s₁) ∧
        next (d.nextLevel input g ttBase output)
          (s₁.write (d.tableDesc input) (tableDescriptor g ttBase)) = .ok (.success, s') ∧
        ∃ v, entryLog g T attributes nextLog d input output s =
          v :: nextLog (d.nextLevel input g ttBase output)
            (s₁.write (d.tableDesc input) (tableDescriptor g ttBase)) ∧
          v.addr = d.tableDesc input) := by
  unfold fillEntry at h
  unfold entryLog
  split_ifs at h with hrange hindex hlast hblock
  · exact nomatch (Prod.mk.inj (Except.ok.inj h)).1
  · exact nomatch (Prod.mk.inj (Except.ok.inj h)).1
  · rw [if_neg hrange, if_neg hindex, if_pos hlast]
    exact .inl ⟨hlast, (Prod.mk.inj (Except.ok.inj h)).2.symm, _, rfl, rfl⟩
  · rw [if_neg hrange, if_neg hindex, if_neg hlast, if_pos hblock]
    exact .inr (.inl ⟨hlast, hblock, (Prod.mk.inj (Except.ok.inj h)).2.symm, _, rfl, rfl⟩)
  · rw [if_neg hrange, if_neg hindex, if_neg hlast, if_neg hblock]
    cases hn : ttBaseNextLevel g T d.level (s.mem (d.tableDesc input)) s with
    | none =>
      rw [hn] at h
      exact nomatch (Prod.mk.inj (Except.ok.inj h)).1
    | some r =>
      rw [hn] at h
      exact .inr (.inr ⟨hlast, r.1, r.2, rfl, h, _, rfl, rfl⟩)

/-- A successful loop is at its end, or goes on after a successful iteration. -/
theorem loopLog_cases (nextLog : TtDescriptor → TableState → List Visit)
    (h : fillLoop g T attributes next d (fuel + 1) input output s = .ok (.success, s')) :
    (d.inputTop ≤ input ∧ s' = s ∧
        loopLog g T attributes next nextLog d (fuel + 1) input output s = []) ∨
      input < d.inputTop ∧ ∃ s₁,
        fillEntry g T attributes next d input output s = .ok (.success, s₁) ∧
        fillLoop g T attributes next d fuel (wrap64 (input + d.chunkSize input))
          (wrap64 (output + d.chunkSize input)) s₁ = .ok (.success, s') ∧
        loopLog g T attributes next nextLog d (fuel + 1) input output s =
          entryLog g T attributes nextLog d input output s ++
            loopLog g T attributes next nextLog d fuel (wrap64 (input + d.chunkSize input))
              (wrap64 (output + d.chunkSize input)) s₁ := by
  rcases fillLoop_cases h with ⟨hend, -, rfl⟩ | ⟨hmore, ⟨herror, -⟩ | ⟨s₁, hentry, hrest⟩⟩
  · exact .inl ⟨hend, rfl, by rw [loopLog, if_neg (not_lt.mpr hend)]⟩
  · exact nomatch herror
  · exact .inr ⟨hmore, s₁, hentry, hrest, by rw [loopLog, if_pos hmore, hentry]⟩

/-- A successful call at the last level runs the loop. -/
theorem fillLog_zero_cases
    (h : fillTranslationTable g T attributes fuel 0 d s = .ok (.success, s')) :
    fillLoop g T attributes (fun _ _ => .error .diverged) d fuel d.inputBase d.outputBase s =
        .ok (.success, s') ∧
      fillLog g T attributes fuel 0 d s = loopLog g T attributes (fun _ _ => .error .diverged)
        (fun _ _ => []) d fuel d.inputBase d.outputBase s := by
  unfold fillTranslationTable at h
  unfold fillLog
  split_ifs at h with hinvalid
  · cases h
  · exact ⟨h, if_neg hinvalid⟩

/-- A successful call above the last level runs the loop with calls below it. -/
theorem fillLog_succ_cases
    (h : fillTranslationTable g T attributes fuel (depth + 1) d s = .ok (.success, s')) :
    fillLoop g T attributes (fillTranslationTable g T attributes fuel depth) d fuel d.inputBase
        d.outputBase s = .ok (.success, s') ∧
      fillLog g T attributes fuel (depth + 1) d s =
        loopLog g T attributes (fillTranslationTable g T attributes fuel depth)
          (fillLog g T attributes fuel depth) d fuel d.inputBase d.outputBase s := by
  unfold fillTranslationTable at h
  unfold fillLog
  split_ifs at h with hinvalid
  · cases h
  · exact ⟨h, if_neg hinvalid⟩

/-- The accesses of an accepted call are those of the call for the root. -/
theorem createLog_eq {pgt : PgtDescriptor} {r : MemoryRegion} (hias : pgt.ias = 40)
    (httbr : pgt.ttbr = T.ttL0Base) (hr : Accepted pgt r attributes) :
    createLog 0 T fuel pgt r s = fillLog (pgtGlobals 0) T attributes fuel 3
      (rootCall T (r.virtualAddress % 2 ^ 40)
        (sub64 (wrap64 (r.virtualAddress % 2 ^ 40 + r.length)) 1) r.physicalAddress) s := by
  unfold createLog
  rw [if_neg (by rw [land_page_mask, land_page_mask, hr.virtualAligned, hr.physicalAligned]; simp),
    if_neg (not_le.mpr hr.physical_lt)]
  simp only [hr.stage, rootDescriptor_eq hias httbr hr.physical_lt, truncate_mod hias]
  rfl

end Successful

/-- The reserved tables, each with its bytes. -/
def Reserved (T : TableStorage) (base size : ℕ) : Prop :=
  (base = T.ttL0Base ∧ size = 4096) ∨ (base = T.ttL1Base ∧ size = 4096) ∨
    (∃ i, base = T.ttL2Base i ∧ size = 16384) ∨ ∃ i, base = T.ttL3Base i ∧ size = 16384

/-- An access inside the bytes reserved for its table, whose word refers to the table that is filled
after it. -/
structure Visit.Proper (g : PgtGlobals) (T : TableStorage) (v : Visit) : Prop where
  inside : ∃ size, Reserved T v.call.ttBase size ∧ 8 * v.call.tableIndex v.input + 8 ≤ size
  refers : ∀ t, v.below = some t → ∃ desc, v.stored = some desc ∧ desc &&& g.pgtAddrMask = t

variable {T : TableStorage} {s s' : TableState} {root p level l base b size n k j v : ℕ}

/-- The address of a descriptor inside the reserved bytes determines its table and its index. -/
theorem Reserved.slot_inj (hb : Reserved T base size) (hb' : Reserved T b n) (hk : 8 * k + 8 ≤ size)
    (hj : 8 * j + 8 ≤ n) (heq : base + 8 * k = b + 8 * j) : base = b ∧ k = j := by
  simp only [Reserved, TableStorage.ttL0Base, TableStorage.ttL1Base, TableStorage.ttL2Base,
    TableStorage.ttL3Base] at hb hb'
  rcases hb with hb | hb | ⟨i, hb⟩ | ⟨i, hb⟩ <;> rcases hb' with hb' | hb' | ⟨i', hb'⟩ | ⟨i', hb'⟩ <;>
    omega

section Granule

/-- What `val_pgt_create` derives from a page of `2 ^ p` bytes. -/
def granule (p : ℕ) : PgtGlobals := ⟨2 ^ p, p - 3, (2 ^ (48 - p) - 1) <<< p⟩

/-- The granules whose tables fit the storage, with the level of the root. -/
def Suits (T : TableStorage) (root p : ℕ) : Prop :=
  (root = 0 ∧ p = 12) ∨ (root = 1 ∧ p = 14 ∧ T.base % 16384 = 8192)

/-- The tables of a level when the walk starts at level `root` in `tt_l0_base`. -/
def TableOf (T : TableStorage) (root level base : ℕ) : Prop :=
  (level = root ∧ base = T.ttL0Base) ∨ (root < level ∧ IsTable T level base)

/-- A table is reserved, and below the root it has room for a full page of descriptors. -/
theorem TableOf.reserved (hp : Suits T root p) (hb : TableOf T root level base) :
    ∃ size, Reserved T base size ∧ 4096 ≤ size ∧ (root < level → 8 * 2 ^ (p - 3) ≤ size) := by
  rcases hb with ⟨rfl, rfl⟩ | ⟨hlevel, hb⟩
  · exact ⟨4096, .inl ⟨rfl, rfl⟩, le_rfl, fun h => absurd h (lt_irrefl _)⟩
  · have hpage : 8 * 2 ^ (p - 3) ≤ 16384 ∧ (root = 0 → 8 * 2 ^ (p - 3) ≤ 4096) := by
      rcases hp with ⟨rfl, rfl⟩ | ⟨rfl, rfl, -⟩ <;> norm_num
    match level, hb with
    | 0, _ => omega
    | 1, hb => exact ⟨4096, .inr (.inl ⟨hb, rfl⟩), le_rfl, fun _ => hpage.2 (by omega)⟩
    | 2, ⟨i, hi⟩ =>
      exact ⟨16384, .inr (.inr (.inl ⟨i, hi, rfl⟩)), by norm_num, fun _ => hpage.1⟩
    | 3, ⟨i, hi⟩ =>
      exact ⟨16384, .inr (.inr (.inr ⟨i, hi, rfl⟩)), by norm_num, fun _ => hpage.1⟩

/-- A table belongs to one level. -/
theorem TableOf.level_eq (hb : TableOf T root level base) (hl : TableOf T root l base) : level = l := by
  have hroot : IsTable T 0 T.ttL0Base := rfl
  rcases hb with ⟨rfl, rfl⟩ | ⟨hlevel, hb⟩ <;> rcases hl with ⟨rfl, hbase⟩ | ⟨hl, hb'⟩
  · rfl
  · have := hroot.level_eq hb'
    omega
  · have := hroot.level_eq (hbase ▸ hb)
    omega
  · exact hb.level_eq hb'

/-- A table below the root lies on a page boundary. -/
theorem TableOf.aligned (hp : Suits T root p) (hb : TableOf T root (level + 1) base)
    (hlevel : root ≤ level) : 2 ≤ p ∧ p ≤ 64 ∧ base % 2 ^ p = 0 ∧ base < 2 ^ 48 := by
  rcases hb with ⟨hroot, -⟩ | ⟨-, hb⟩
  · omega
  · have hbounds := hb.bounds
    have hfits := T.fits
    rcases hp with ⟨rfl, rfl⟩ | ⟨rfl, rfl, hbase⟩
    · exact ⟨by norm_num, by norm_num, hbounds.1, by omega⟩
    · refine ⟨by norm_num, by norm_num, ?_, by omega⟩
      match level, hb with
      | 0, _ => omega
      | 1, ⟨i, hi⟩ | 2, ⟨i, hi⟩ =>
        simp only [TableStorage.ttL2Base, TableStorage.ttL3Base] at hi
        norm_num
        omega

/-- The word that refers to a table below the root, and the address in it. -/
theorem TableOf.descriptor (hp : Suits T root p) (hb : TableOf T root (level + 1) base)
    (hlevel : root ≤ level) :
    tableDescriptor (granule p) base = base + 3 ∧ (base + 3) &&& (granule p).pgtAddrMask = base := by
  obtain ⟨htwo, hle, haligned, hlt⟩ := hb.aligned hp hlevel
  refine ⟨tableDescriptor_of_aligned htwo hle haligned (by omega), ?_⟩
  rw [granule, land_shiftLeft_two_pow_sub_one]
  rcases hp with ⟨-, rfl⟩ | ⟨-, rfl, -⟩
  · norm_num at haligned ⊢
    omega
  · norm_num at haligned ⊢
    omega

/-- A descriptor above level 3 has a clear type bit or refers to a table of the next level. -/
def Wired (T : TableStorage) (root : ℕ) (s : TableState) : Prop :=
  ∀ level base size k, level < 3 → TableOf T root level base → Reserved T base size →
    8 * k + 8 ≤ size → s.mem (base + 8 * k) &&& 2 = 0 ∨
      ∃ t, TableOf T root (level + 1) t ∧ s.mem (base + 8 * k) = t + 3

/-- Storing a page, a block or a reference to a table of the next level. -/
theorem Wired.write (hs : Wired T root s) (hb : TableOf T root level base)
    (hsize : Reserved T base size) (hk : 8 * k + 8 ≤ size)
    (hv : level < 3 → v &&& 2 = 0 ∨ ∃ t, TableOf T root (level + 1) t ∧ v = t + 3) :
    Wired T root (s.write (base + 8 * k) v) := by
  intro l b n j hl hbl hn hj
  by_cases hat : b + 8 * j = base + 8 * k
  · obtain ⟨rfl, rfl⟩ := hn.slot_inj hsize hj hk hat
    obtain rfl := hb.level_eq hbl
    rw [write_mem_self]
    exact hv hl
  · rw [write_mem_of_ne hat]
    exact hs l b n j hl hbl hn hj

/-- The table below a descriptor is one of the next level, and selecting it stores nothing. -/
theorem Wired.ttBaseNextLevel (hp : Suits T root p) (hs : Wired T root s)
    (hb : TableOf T root level base) (hsize : Reserved T base size) (hk : 8 * k + 8 ≤ size)
    (hlevel : level < 3) {t : ℕ}
    (hn : ttBaseNextLevel (granule p) T level (s.mem (base + 8 * k)) s = some (t, s')) :
    TableOf T root (level + 1) t ∧ s'.mem = s.mem := by
  have hroot : root ≤ level := by
    rcases hb with ⟨rfl, -⟩ | ⟨hlt, -⟩ <;> omega
  unfold PageTable.ttBaseNextLevel at hn
  by_cases hnew : s.mem (base + 8 * k) = 0 ∨ isPgtEntryBlock (s.mem (base + 8 * k))
  · rw [if_pos hnew] at hn
    have hsel := selected_of_selectTable hlevel hn
    exact ⟨.inr ⟨by omega, hsel.isTable⟩, hsel.mem_eq⟩
  · rw [if_neg hnew] at hn
    obtain ⟨hbase, rfl⟩ := Prod.mk.inj (Option.some.inj hn)
    rcases hs level base size k hlevel hb hsize hk with hclear | ⟨t', ht', hmem⟩
    · exact absurd (.inr hclear) hnew
    · rw [hmem, (ht'.descriptor hp hroot).2] at hbase
      exact ⟨hbase ▸ ht', rfl⟩

/-- A call on a table of its level, with the index bits and the block size of that level. -/
structure Indexes (T : TableStorage) (root p : ℕ) (d : TtDescriptor) : Prop where
  table : TableOf T root d.level d.ttBase
  level_le : d.level ≤ 3
  nbits : d.nbits ≤ 9 ∨ root < d.level ∧ d.nbits = p - 3
  size : d.sizeLog2 = p + (p - 3) * (3 - d.level)

/-- The accesses of a call are proper, and it leaves the tables wired when it returns. -/
def Behaves (g : PgtGlobals) (T : TableStorage) (root : ℕ) (log : List Visit) (outcome : Outcome) :
    Prop :=
  (∀ v ∈ log, v.Proper g T) ∧ ∀ st s', outcome = .ok (st, s') → Wired T root s'

variable {d : TtDescriptor} {attributes fuel depth input output : ℕ}
  {next : TtDescriptor → TableState → Outcome} {nextLog : TtDescriptor → TableState → List Visit}

/-- A call that only rejects its arguments behaves. -/
theorem Wired.behaves_error {g : PgtGlobals} (hs : Wired T root s) :
    Behaves g T root [] (.ok (.error, s)) := by
  refine ⟨fun v hv => absurd hv List.not_mem_nil, fun st s' hrun => ?_⟩
  exact (Prod.mk.inj (Except.ok.inj hrun)).2 ▸ hs

/-- The index of a call is inside the bytes of its table. -/
theorem Indexes.inside (hp : Suits T root p) (hd : Indexes T root p d) (input : ℕ) :
    ∃ size, Reserved T d.ttBase size ∧ 8 * d.tableIndex input + 8 ≤ size := by
  obtain ⟨size, hsize, hpage, hfull⟩ := hd.table.reserved hp
  have hindex : d.tableIndex input < 2 ^ d.nbits := by
    rw [TtDescriptor.tableIndex_eq]
    exact Nat.mod_lt _ (Nat.two_pow_pos _)
  refine ⟨size, hsize, ?_⟩
  rcases hd.nbits with hnbits | ⟨hlevel, hnbits⟩
  · have hle : 2 ^ d.nbits ≤ 2 ^ 9 := Nat.pow_le_pow_right (by norm_num) hnbits
    omega
  · rw [hnbits] at hindex
    have := hfull hlevel
    omega

/-- One iteration behaves when the calls below it do. -/
theorem fillEntry_behaves (hp : Suits T root p) (hs : Wired T root s) (hd : Indexes T root p d)
    (hattr : attributes &&& 2 = 0)
    (hnext : ∀ d' s, d'.level = d.level + 1 → d.level < 3 → Indexes T root p d' → Wired T root s →
      Behaves (granule p) T root (nextLog d' s) (next d' s)) :
    Behaves (granule p) T root (entryLog (granule p) T attributes nextLog d input output s)
      (fillEntry (granule p) T attributes next d input output s) := by
  obtain ⟨size, hsize, hk⟩ := hd.inside hp input
  have hlevel := hd.level_le
  have hproper (stored : Option ℕ) : (Visit.mk d input stored none).Proper (granule p) T :=
    ⟨⟨size, hsize, hk⟩, fun t ht => nomatch ht⟩
  unfold entryLog fillEntry
  split_ifs with hrange hindex hlast hblock
  · exact hs.behaves_error
  · exact hs.behaves_error
  · refine ⟨fun v hv => List.mem_singleton.mp hv ▸ hproper _, fun st s' hrun => ?_⟩
    rw [← (Prod.mk.inj (Except.ok.inj hrun)).2]
    exact hs.write hd.table hsize hk (by omega)
  · refine ⟨fun v hv => List.mem_singleton.mp hv ▸ hproper _, fun st s' hrun => ?_⟩
    rw [← (Prod.mk.inj (Except.ok.inj hrun)).2]
    apply hs.write hd.table hsize hk
    intro hlt
    have hbits : 2 ≤ d.sizeLog2 ∧ d.sizeLog2 ≤ 64 := by
      have hroot : root ≤ d.level := by
        rcases hd.table with ⟨h, -⟩ | ⟨h, -⟩ <;> omega
      rw [hd.size]
      rcases hp with ⟨rfl, rfl⟩ | ⟨rfl, rfl, -⟩ <;> omega
    have hkind : blockDescriptor d.blockSize output attributes % 4 = 1 :=
      blockDescriptor_mod_four hbits.1 hbits.2 hattr
    exact .inl (land_two_eq_zero.mpr (by omega))
  · have hlt : d.level < 3 := by omega
    have hroot : root ≤ d.level := by
      rcases hd.table with ⟨h, -⟩ | ⟨h, -⟩ <;> omega
    cases hn : ttBaseNextLevel (granule p) T d.level (s.mem (d.tableDesc input)) s with
    | none =>
      exact ⟨fun v hv => List.mem_singleton.mp hv ▸ hproper _, (hs.behaves_error (g := granule p)).2⟩
    | some r =>
      obtain ⟨ht, hmem⟩ := hs.ttBaseNextLevel hp hd.table hsize hk hlt hn
      obtain ⟨hdesc, hmask⟩ := ht.descriptor hp hroot
      have hwired : Wired T root
          (r.2.write (d.tableDesc input) (tableDescriptor (granule p) r.1)) := by
        have hsel : Wired T root r.2 := by
          unfold Wired
          rw [hmem]
          exact hs
        exact hsel.write hd.table hsize hk fun _ => .inr ⟨r.1, ht, hdesc⟩
      have hbelow : Indexes T root p (d.nextLevel input (granule p) r.1 output) := by
        refine ⟨ht, hlt, .inr ⟨Nat.lt_succ_of_le hroot, rfl⟩, ?_⟩
        simp only [TtDescriptor.nextLevel, granule, hd.size]
        rw [show 3 - d.level = 3 - (d.level + 1) + 1 by omega, Nat.mul_succ]
        omega
      obtain ⟨hlog, hout⟩ := hnext _ _ rfl hlt hbelow hwired
      refine ⟨fun v hv => ?_, hout⟩
      rcases List.mem_cons.mp hv with rfl | hv
      · refine ⟨⟨size, hsize, hk⟩, fun t hsome => ⟨_, rfl, ?_⟩⟩
        rw [hdesc, hmask]
        exact Option.some.inj hsome
      · exact hlog v hv

/-- The loop behaves when the calls below it do. -/
theorem fillLoop_behaves (hp : Suits T root p) (hs : Wired T root s) (hd : Indexes T root p d)
    (hattr : attributes &&& 2 = 0)
    (hnext : ∀ d' s, d'.level = d.level + 1 → d.level < 3 → Indexes T root p d' → Wired T root s →
      Behaves (granule p) T root (nextLog d' s) (next d' s)) :
    Behaves (granule p) T root (loopLog (granule p) T attributes next nextLog d fuel input output s)
      (fillLoop (granule p) T attributes next d fuel input output s) := by
  induction fuel generalizing input output s with
  | zero => exact ⟨fun v hv => absurd hv List.not_mem_nil, fun st s' hrun => nomatch hrun⟩
  | succ fuel ih =>
    have hentry : Behaves (granule p) T root
        (entryLog (granule p) T attributes nextLog d input output s)
        (fillEntry (granule p) T attributes next d input output s) :=
      fillEntry_behaves hp hs hd hattr hnext
    obtain ⟨hlog, hout⟩ := hentry
    constructor
    · intro v hv
      unfold loopLog at hv
      split_ifs at hv with hmore
      · rcases List.mem_append.mp hv with hv | hv
        · exact hlog v hv
        · split at hv
          · next s₁ hentry => exact (ih (hout _ _ hentry)).1 v hv
          · exact absurd hv List.not_mem_nil
      · exact absurd hv List.not_mem_nil
    · intro st s' hrun
      rcases fillLoop_cases hrun with ⟨-, -, rfl⟩ | ⟨-, ⟨-, hentry⟩ | ⟨s₁, hentry, hrest⟩⟩
      · exact hs
      · exact hout _ _ hentry
      · exact (ih (hout _ _ hentry)).2 st s' hrest

/-- A call behaves. -/
theorem fillTranslationTable_behaves (hp : Suits T root p) (hdepth : d.level + depth = 3)
    (hs : Wired T root s) (hd : Indexes T root p d) (hattr : attributes &&& 2 = 0) :
    Behaves (granule p) T root (fillLog (granule p) T attributes fuel depth d s)
      (fillTranslationTable (granule p) T attributes fuel depth d s) := by
  induction depth generalizing d s with
  | zero =>
    unfold fillLog fillTranslationTable
    split_ifs with hinvalid
    · exact hs.behaves_error
    · exact fillLoop_behaves hp hs hd hattr fun _ _ _ hlt => absurd hdepth (Nat.ne_of_lt hlt)
  | succ depth ih =>
    unfold fillLog fillTranslationTable
    split_ifs with hinvalid
    · exact hs.behaves_error
    · apply fillLoop_behaves hp hs hd hattr
      intro d' s₁ hlevel _ hd' hs₁
      exact ih (by omega) hs₁ hd'

end Granule

section Create

variable {tg0 fuel : ℕ} {pgt : PgtDescriptor} {r : MemoryRegion}

/-- A call behaves for a granule that suits the storage. -/
theorem valPgtCreate_behaves (hp : Suits T root p) (hglobals : pgtGlobals tg0 = granule p)
    (hroot : 4 - numPgtLevels tg0 40 = root)
    (hsize : (numPgtLevels tg0 40 - 1) * (p - 3) + ilog2 (valCurrEndpointPageSize tg0) =
      p + (p - 3) * (3 - root))
    (hs : Wired T root s) (hias : pgt.ias = 40) (httbr : pgt.ttbr = T.ttL0Base)
    (hattr : r.attributes &&& 2 = 0) :
    Behaves (granule p) T root (createLog tg0 T fuel pgt r s) (valPgtCreate tg0 T fuel pgt r s) := by
  have hfill (va attributes : ℕ) (hland : attributes &&& 2 = 0) :
      Behaves (granule p) T root
        (fillLog (granule p) T attributes fuel (3 - (rootDescriptor tg0 pgt va r).level)
          (rootDescriptor tg0 pgt va r) s)
        (fillTranslationTable (granule p) T attributes fuel
          (3 - (rootDescriptor tg0 pgt va r).level) (rootDescriptor tg0 pgt va r) s) := by
    have hlevel : (rootDescriptor tg0 pgt va r).level = root := by
      simp only [rootDescriptor, hias, hroot]
    have hle : root ≤ 1 := by
      rcases hp with ⟨rfl, -⟩ | ⟨rfl, -⟩ <;> omega
    apply fillTranslationTable_behaves hp (by omega) hs _ hland
    have hlog : (rootDescriptor tg0 pgt va r).sizeLog2 = p + (p - 3) * (3 - root) := by
      simp only [rootDescriptor, hias, hglobals, granule]
      exact hsize
    refine ⟨.inl ⟨hlevel, httbr⟩, by omega, .inl ?_, by rw [hlevel, hlog]⟩
    have hnbits : (rootDescriptor tg0 pgt va r).nbits =
        40 - (rootDescriptor tg0 pgt va r).sizeLog2 := by
      simp only [rootDescriptor, hias]
    rw [hnbits, hlog]
    rcases hp with ⟨rfl, rfl⟩ | ⟨rfl, rfl, -⟩ <;> norm_num
  unfold createLog valPgtCreate
  rw [hglobals]
  split_ifs with halign hpa
  · exact hs.behaves_error
  · exact hs.behaves_error
  all_goals
    cases hstage : stageAttributes pgt.stage r.attributes with
    | none => exact hs.behaves_error
    | some attributes => exact hfill _ attributes (stageAttributes_land_two hattr hstage)

/-- Zeroed tables are wired. -/
theorem Zeroed.wired (hz : Zeroed T s) : Wired T root s := by
  intro level base size k hlevel hb hsize hk
  have hrange : T.base ≤ base ∧ base + size ≤ T.base + storageSize := by
    have hstorage : storageSize = 598016 := rfl
    simp only [Reserved, TableStorage.ttL0Base, TableStorage.ttL1Base, TableStorage.ttL2Base,
      TableStorage.ttL3Base] at hsize
    rcases hsize with hsize | hsize | ⟨i, hsize⟩ | ⟨i, hsize⟩ <;> omega
  exact .inl (by rw [hz.mem _ (by omega) (by omega)]; rfl)

/-- The calls with 40-bit input addresses on the tables in `T`. The attributes leave the type bit of
a descriptor clear. -/
def TableCall (T : TableStorage) (call : PgtDescriptor × MemoryRegion) : Prop :=
  call.1.ias = 40 ∧ call.1.ttbr = T.ttL0Base ∧ call.2.attributes &&& 2 = 0

/-- A call that returns, with either status. -/
def TableStep (tg0 : ℕ) (T : TableStorage) (s : TableState) (call : PgtDescriptor × MemoryRegion)
    (s' : TableState) : Prop :=
  TableCall T call ∧ ∃ fuel st, valPgtCreate tg0 T fuel call.1 call.2 s = .ok (st, s')

/-- Every access of every call of every run is proper. -/
def AccessesProper (tg0 : ℕ) (T : TableStorage) : Prop :=
  ∀ s₀ calls s call fuel, Zeroed T s₀ → Run (TableStep tg0 T) s₀ calls s → TableCall T call →
    ∀ v ∈ createLog tg0 T fuel call.1 call.2 s, v.Proper (pgtGlobals tg0) T

/-- The accesses are proper for a granule that suits the storage. -/
theorem accessesProper_of_suits (hp : Suits T root p) (hglobals : pgtGlobals tg0 = granule p)
    (hroot : 4 - numPgtLevels tg0 40 = root)
    (hsize : (numPgtLevels tg0 40 - 1) * (p - 3) + ilog2 (valCurrEndpointPageSize tg0) =
      p + (p - 3) * (3 - root)) : AccessesProper tg0 T := by
  rintro s₀ calls s call fuel hz hrun ⟨hias, httbr, hattr⟩
  have hwired : Wired T root s := by
    apply hrun.invariant hz.wired
    rintro s₁ call s₂ hs₁ ⟨⟨hias, httbr, hattr⟩, fuel, st, hcall⟩
    exact (valPgtCreate_behaves hp hglobals hroot hsize hs₁ hias httbr hattr).2 st s₂ hcall
  rw [hglobals]
  exact (valPgtCreate_behaves hp hglobals hroot hsize hwired hias httbr hattr).1

/-- A call makes the accesses of its first iteration. -/
theorem mem_createLog_of_entry {attributes : ℕ} {d : TtDescriptor} {v : Visit}
    (hvirtual : r.virtualAddress &&& (valCurrEndpointPageSize tg0 - 1) = 0)
    (hphysical : r.physicalAddress &&& (valCurrEndpointPageSize tg0 - 1) = 0)
    (hpa : r.physicalAddress < 2 ^ pgt.oas) (hva : r.virtualAddress < 2 ^ pgt.ias)
    (hstage : stageAttributes pgt.stage r.attributes = some attributes)
    (hd : rootDescriptor tg0 pgt r.virtualAddress r = d) (hvalid : ¬d.Invalid (pgtGlobals tg0))
    (hmore : d.inputBase < d.inputTop)
    (hv : ∀ nextLog, v ∈ entryLog (pgtGlobals tg0) T attributes nextLog d d.inputBase d.outputBase s) :
    v ∈ createLog tg0 T 1 pgt r s := by
  have hloop (next : TtDescriptor → TableState → Outcome)
      (nextLog : TtDescriptor → TableState → List Visit) :
      v ∈ loopLog (pgtGlobals tg0) T attributes next nextLog d 1 d.inputBase d.outputBase s := by
    unfold loopLog
    rw [if_pos hmore]
    exact List.mem_append_left _ (hv nextLog)
  unfold createLog
  rw [if_neg (by rw [hvirtual, hphysical]; simp), if_neg (not_le.mpr hpa), if_neg (not_le.mpr hva)]
  simp only [hstage, hd]
  cases 3 - d.level with
  | zero =>
    rw [fillLog, if_neg hvalid]
    exact hloop _ _
  | succ depth =>
    rw [fillLog, if_neg hvalid]
    exact hloop _ _

/-- The access of an iteration that goes on to fill a table. -/
theorem mem_entryLog_of_table {g : PgtGlobals} {d : TtDescriptor} {attributes input output t : ℕ}
    {nextLog : TtDescriptor → TableState → List Visit}
    (hrange : d.blockBase input ≤ 2 ^ 64 - 1 - (d.blockSize - 1))
    (hindex : d.tableIndex input < 2 ^ g.bitsPerLevel) (hlast : d.level ≠ 3)
    (hblock : ¬d.BlockEligible input output)
    (hn : ttBaseNextLevel g T d.level (s.mem (d.tableDesc input)) s = some (t, s')) :
    ⟨d, input, some (tableDescriptor g t), some t⟩ ∈
      entryLog g T attributes nextLog d input output s := by
  unfold entryLog
  rw [if_neg (not_lt.mpr hrange), if_neg (not_le.mpr hindex), if_neg hlast, if_neg hblock, hn]
  exact List.mem_cons_self

/-- The root has more descriptors with the 64K granule than the bytes of `tt_l0_base` hold. -/
theorem exists_visit_behind_root (T : TableStorage) :
    ∃ v ∈ createLog 1 T 1 (stage1Pgt T) ⟨2 ^ 38, 0, 2 ^ 16, 0⟩ zeroState,
      v.call.ttBase = T.ttL0Base ∧ v.call.tableIndex v.input = 512 := by
  have hlevels : numPgtLevels 1 40 = 2 := by decide
  have hpage : ilog2 (valCurrEndpointPageSize 1) = 16 := by decide
  have hbits : (pgtGlobals 1).bitsPerLevel = 13 := by decide
  have hpos := T.pos
  have hd : rootDescriptor 1 (stage1Pgt T) (2 ^ 38) ⟨2 ^ 38, 0, 2 ^ 16, 0⟩ =
      ⟨T.ttL0Base, 2 ^ 38, 2 ^ 38 + 2 ^ 16 - 1, 0, 2, 29, 11⟩ := by
    simp only [rootDescriptor, stage1Pgt, hlevels, hpage, hbits]
    rfl
  refine ⟨_, mem_createLog_of_entry (by decide) (by decide) ?_ ?_ rfl hd ?_ ?_ fun nextLog =>
    mem_entryLog_of_table ?_ ?_ ?_ ?_ (t := T.ttL3Base 0) rfl, rfl, ?_⟩
  · simp [stage1Pgt]
  · simp [stage1Pgt]
  · simp only [TtDescriptor.Invalid, hbits, TableStorage.ttL0Base]
    omega
  · norm_num
  · change 2 ^ 38 &&& not64 (2 ^ 29 - 1) ≤ 2 ^ 64 - 1 - (2 ^ 29 - 1)
    decide
  · rw [hbits]
    change 2 ^ 38 >>> 29 &&& (2 ^ 11 - 1) < 2 ^ 13
    decide
  · exact Nat.succ_ne_self 2 ∘ Eq.symm
  · rintro ⟨-, -, hle⟩
    exact absurd hle (by change ¬wrap64 (2 ^ 38 + 2 ^ 29 - 1) ≤ 2 ^ 38 + 2 ^ 16 - 1; decide)
  · change 2 ^ 38 >>> 29 &&& (2 ^ 11 - 1) = 512
    decide

/-- The bytes of `tt_l0_base` end before its descriptor 512. -/
theorem Visit.not_proper_of_behind_root {g : PgtGlobals} {v : Visit}
    (hbase : v.call.ttBase = T.ttL0Base) (hindex : v.call.tableIndex v.input = 512) :
    ¬v.Proper g T := by
  rintro ⟨⟨size, hsize, hinside⟩, -⟩
  simp only [hbase, hindex, Reserved, TableStorage.ttL0Base, TableStorage.ttL1Base,
    TableStorage.ttL2Base, TableStorage.ttL3Base] at hsize hinside
  rcases hsize with hsize | hsize | ⟨i, hsize⟩ | ⟨i, hsize⟩ <;> omega

/-- The reserved storage does not do for the 64K granule. -/
theorem not_accessesProper_one (T : TableStorage) : ¬AccessesProper 1 T := by
  intro hproper
  obtain ⟨v, hv, hbase, hindex⟩ := exists_visit_behind_root T
  exact Visit.not_proper_of_behind_root hbase hindex (hproper zeroState [] zeroState
    (stage1Pgt T, ⟨2 ^ 38, 0, 2 ^ 16, 0⟩) 1 (zeroState_zeroed T) .nil ⟨rfl, rfl, Nat.zero_and 2⟩ v hv)

/-- With the 16K granule the first call refers to the first level 2 table. -/
theorem exists_visit_first_table (T : TableStorage) :
    ∃ v ∈ createLog 2 T 1 (stage1Pgt T) ⟨0, 0, 16384, 0⟩ zeroState, v.below = some (T.ttL2Base 0) := by
  have hlevels : numPgtLevels 2 40 = 3 := by decide
  have hpage : ilog2 (valCurrEndpointPageSize 2) = 14 := by decide
  have hbits : (pgtGlobals 2).bitsPerLevel = 11 := by decide
  have hpos := T.pos
  have hd : rootDescriptor 2 (stage1Pgt T) 0 ⟨0, 0, 16384, 0⟩ =
      ⟨T.ttL0Base, 0, 16383, 0, 1, 36, 4⟩ := by
    simp only [rootDescriptor, stage1Pgt, hlevels, hpage, hbits]
    rfl
  refine ⟨_, mem_createLog_of_entry (by decide) (by decide) ?_ ?_ rfl hd ?_ ?_ fun nextLog =>
    mem_entryLog_of_table ?_ ?_ ?_ ?_ (t := T.ttL2Base 0) rfl, rfl⟩
  · simp [stage1Pgt]
  · simp [stage1Pgt]
  · simp only [TtDescriptor.Invalid, hbits, TableStorage.ttL0Base]
    omega
  · norm_num
  · change 0 &&& not64 (2 ^ 36 - 1) ≤ 2 ^ 64 - 1 - (2 ^ 36 - 1)
    decide
  · rw [hbits]
    change 0 >>> 36 &&& (2 ^ 4 - 1) < 2 ^ 11
    decide
  · exact Nat.ne_of_beq_eq_false rfl
  · rintro ⟨-, -, hle⟩
    exact absurd hle (by change ¬wrap64 (0 + 2 ^ 36 - 1) ≤ 16383; decide)

/-- With the 16K granule the reference to a level 2 table loses low bits of its address unless the
table is aligned. -/
theorem aligned_of_accessesProper_two (hproper : AccessesProper 2 T) : T.base % 16384 = 8192 := by
  obtain ⟨v, hv, hbelow⟩ := exists_visit_first_table T
  obtain ⟨-, hrefers⟩ :=
    hproper zeroState [] zeroState (stage1Pgt T, ⟨0, 0, 16384, 0⟩) 1 (zeroState_zeroed T) .nil
      ⟨rfl, rfl, Nat.zero_and 2⟩ v hv
  obtain ⟨desc, -, hmask⟩ := hrefers _ hbelow
  have hglobals : pgtGlobals 2 = granule 14 := by decide
  rw [hglobals, granule, land_shiftLeft_two_pow_sub_one] at hmask
  have hbase : T.ttL2Base 0 = T.base + 8192 := rfl
  omega

/-- For the three granules, every descriptor access of every run of calls lies inside the storage
reserved for its table, and every table descriptor refers to the table that is then filled, exactly
with the 4K granule, or with the 16K granule when the tables of levels 2 and 3 lie on 16K
boundaries. -/
theorem accesses_proper_iff (T : TableStorage) (tg0 : Fin 3) :
    AccessesProper tg0 T ↔ tg0 = 0 ∨ tg0 = 2 ∧ T.base % 16384 = 8192 := by
  fin_cases tg0
  · have hproper : AccessesProper 0 T :=
      accessesProper_of_suits (.inl ⟨rfl, rfl⟩) (by decide) (by decide) (by decide)
    simpa using hproper
  · simpa using not_accessesProper_one T
  · have hproper (hbase : T.base % 16384 = 8192) : AccessesProper 2 T :=
      accessesProper_of_suits (.inr ⟨rfl, rfl, hbase⟩) (by decide) (by decide) (by decide)
    simpa using ⟨aligned_of_accessesProper_two, hproper⟩

/-- With the 64K granule a first call on zeroed tables accesses the word behind the 4096 bytes of
`tt_l0_base`. -/
theorem large_granule_overruns :
    Zeroed lowStorage zeroState ∧
      ∃ v ∈ createLog 1 lowStorage 1 (stage1Pgt lowStorage) ⟨2 ^ 38, 0, 2 ^ 16, 0⟩ zeroState,
        v.call.ttBase = lowStorage.ttL0Base ∧ v.addr = lowStorage.ttL0Base + 4096 ∧
          ¬v.Proper (pgtGlobals 1) lowStorage := by
  obtain ⟨v, hv, hbase, hindex⟩ := exists_visit_behind_root lowStorage
  refine ⟨zeroState_zeroed _, v, hv, hbase, ?_, Visit.not_proper_of_behind_root hbase hindex⟩
  rw [Visit.addr, TtDescriptor.tableDesc, hbase, hindex]

end Create

end FfaAcs.PageTable
