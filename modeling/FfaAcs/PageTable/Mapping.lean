import FfaAcs.PageTable.Filling

/-!
# What successful calls map

A successful call maps exactly its region, provided no address of the region was mapped before: no
block reaches into it then. Calls on disjoint regions keep each other's translations, and every order
of them gives the same.

A length that is not a multiple of the page size is rounded up to one, except that the last page is
left out when only its first byte belongs to the region.
-/

namespace FfaAcs.PageTable

open Machine
open Heap (Status Fault)

variable {T : TableStorage} {s s' : TableState} {x va l addr desc : ℕ}

section Create

variable {r : MemoryRegion} {fuel : ℕ}

/-- The regions whose translation is determined: pages of the lower half that start at page
boundaries, with attributes that leave the rest of a descriptor alone. -/
structure ValidRegion (r : MemoryRegion) : Prop where
  virtualAligned : r.virtualAddress % 4096 = 0
  physicalAligned : r.physicalAddress % 4096 = 0
  lengthAligned : r.length % 4096 = 0
  length_pos : 0 < r.length
  length_lt : r.length < 2 ^ 39
  virtual_le : r.virtualAddress + r.length ≤ 2 ^ 39
  physical_le : r.physicalAddress + r.length ≤ 2 ^ 40
  attributes : PureAttributes r.attributes

/-- The addresses of a region. -/
def MemoryRegion.Contains (r : MemoryRegion) (va : ℕ) : Prop :=
  r.virtualAddress ≤ va ∧ va < r.virtualAddress + r.length

instance (r : MemoryRegion) (va : ℕ) : Decidable (r.Contains va) :=
  inferInstanceAs (Decidable (_ ∧ _))

/-- Read/write access is an attribute like the others. -/
theorem PureAttributes.stage {stage a attributes : ℕ} (ha : PureAttributes a)
    (hattr : stageAttributes stage a = some attributes) : PureAttributes attributes := by
  unfold stageAttributes at hattr
  split_ifs at hattr
  all_goals
    rw [← Option.some.inj hattr]
    constructor
    · rw [Nat.and_or_distrib_right, ha.address]
      rfl
    · rw [Nat.and_or_distrib_right, ha.kind]
      rfl

/-- Attributes that leave the kind alone leave the type bit clear. -/
theorem PureAttributes.land_two {attributes : ℕ} (ha : PureAttributes attributes) :
    attributes &&& 2 = 0 := by
  have hkind : attributes &&& 3 = attributes % 4 := Nat.and_two_pow_sub_one_eq_mod attributes 2
  rw [ha.kind] at hkind
  rw [land_two_eq_zero]
  omega

/-- The addresses of one slot are translated by one descriptor. -/
theorem Maps.of_slot_eq (hm : Maps T s va l addr desc) (hslot : x / slotSize l = va / slotSize l) :
    Maps T s x l addr desc := by
  have hl := hm.level_le
  obtain ⟨⟨base, hbase, rfl, hleaf⟩, rfl⟩ := hm
  refine ⟨⟨base, ?_, by rw [slotIndex_eq_of_slot_eq hslot], hleaf⟩, rfl⟩
  rw [tableAt_eq_of_slot_eq hl hslot, hbase]

/-- A valid region keeps the tables in order. -/
theorem ValidRegion.inTables (hr : ValidRegion r) : InTables 0 r := by
  have hva := hr.virtual_le
  have hpos := hr.length_pos
  have hlt := hr.length_lt
  exact ⟨by omega, by omega, by omega, hr.attributes.land_two, by omega⟩

/-- A successful call maps its region, if no address of the region is mapped. -/
theorem valPgtCreate_mapped (hs : Rooted T 0 s) (hr : ValidRegion r)
    (hfree : ∀ va, r.Contains va → walk s.mem va T.ttL0Base = none)
    (hrun : valPgtCreate 0 T fuel (stage1Pgt T) r s = .ok (.success, s')) :
    Rooted T 0 s' ∧ ∀ va, va < 2 ^ 39 → walk s'.mem va T.ttL0Base =
      if r.Contains va then
        some (r.physicalAddress + (va - r.virtualAddress), r.attributes ||| attrStage1ApRw)
      else walk s.mem va T.ttL0Base := by
  have hpos := hr.length_pos
  have hva := hr.virtual_le
  have hpa := hr.physical_le
  have hlength := hr.lengthAligned
  have hvirtual := hr.virtualAligned
  refine ⟨valPgtCreate_rooted rfl rfl hs hr.inTables hrun, fun va hlt => ?_⟩
  obtain ⟨attributes, haccepted, hfilled⟩ := valPgtCreate_filled rfl rfl hs hr.inTables hrun
  obtain rfl : r.attributes ||| attrStage1ApRw = attributes := Option.some.inj haccepted.stage
  have hend : pageEnd (r.virtualAddress + r.length - 1) = r.virtualAddress + r.length := by
    unfold pageEnd
    omega
  rw [Nat.mod_eq_of_lt (by omega), hend] at hfilled
  split_ifs with hin
  · obtain ⟨l, addr, desc, hm, -, hexact⟩ := hfilled.inside va hin.1 hin.2
    obtain ⟨houtput, hattributes⟩ :=
      hexact ⟨hr.attributes.stage haccepted.stage, hr.physicalAligned, by omega⟩
    rw [hm.walk, houtput, hattributes]
  · apply walk_eq_of_maps_iff
    intro l addr desc
    rw [hfilled.outside va l addr desc (by omega) hin]
    refine and_iff_left_of_imp fun hm => ?_
    -- a block that reaches into the region would map some of it
    rintro ⟨x, hle, hlt, hslot⟩
    have hnone := hfree x ⟨hle, hlt⟩
    rw [(hm.of_slot_eq hslot).walk] at hnone
    exact nomatch hnone

/-- A call of `val_pgt_create` on a valid region that returns `VAL_SUCCESS`. -/
def MapStep (T : TableStorage) (s : TableState) (r : MemoryRegion) (s' : TableState) : Prop :=
  ValidRegion r ∧ ∃ fuel, valPgtCreate 0 T fuel (stage1Pgt T) r s = .ok (.success, s')

/-- No address belongs to two of the regions. -/
def DisjointRegions (rs : List MemoryRegion) : Prop :=
  rs.Pairwise fun r r' => ∀ va, ¬(r.Contains va ∧ r'.Contains va)

/-- The translation a list of regions asks for. -/
def Translates (rs : List MemoryRegion) (va : ℕ) (translation : Option (ℕ × ℕ)) : Prop :=
  (∀ r ∈ rs, r.Contains va → translation =
    some (r.physicalAddress + (va - r.virtualAddress), r.attributes ||| attrStage1ApRw)) ∧
  ((∀ r ∈ rs, ¬r.Contains va) → translation = none)

/-- A list of regions determines the translation of an address. -/
theorem Translates.unique {rs : List MemoryRegion} {va : ℕ} {x y : Option (ℕ × ℕ)}
    (hx : Translates rs va x) (hy : Translates rs va y) : x = y := by
  by_cases hin : ∃ r ∈ rs, r.Contains va
  · obtain ⟨r, hr, hva⟩ := hin
    rw [hx.1 r hr hva, hy.1 r hr hva]
  · have hout : ∀ r ∈ rs, ¬r.Contains va := fun r hr hva => hin ⟨r, hr, hva⟩
    rw [hx.2 hout, hy.2 hout]

/-- After a run of successful calls on disjoint regions the walk translates every address as the
regions ask for. -/
theorem translates_of_run {s₀ : TableState} {rs : List MemoryRegion} (hz : Zeroed T s₀)
    (hrun : Run (MapStep T) s₀ rs s) (hdisjoint : DisjointRegions rs) :
    Rooted T 0 s ∧ ∀ va, va < 2 ^ 39 → Translates rs va (walk s.mem va T.ttL0Base) := by
  induction hrun with
  | nil =>
    refine ⟨hz.rooted (by norm_num), fun va _ => ⟨fun r hr => absurd hr List.not_mem_nil, fun _ => ?_⟩⟩
    exact walk_eq_none fun _ _ _ => hz.not_maps
  | snoc hrun hlast ih =>
    rename_i rs s₁ s₂ r
    obtain ⟨hr, fuel, hcall⟩ := hlast
    obtain ⟨hbefore, -, hapart⟩ := List.pairwise_append.mp hdisjoint
    have hfresh (va : ℕ) (hva : r.Contains va) (r' : MemoryRegion) (hr' : r' ∈ rs) :
        ¬r'.Contains va := fun h => hapart r' hr' r (List.mem_singleton_self r) va ⟨h, hva⟩
    obtain ⟨hrooted, htranslates⟩ := ih hbefore
    have hbound := hr.virtual_le
    -- the new region is not mapped yet, and the earlier ones keep their translation
    obtain ⟨hrooted', hwalk⟩ := valPgtCreate_mapped hrooted hr (fun va hva =>
      (htranslates va (by unfold MemoryRegion.Contains at hva; omega)).2 (hfresh va hva)) hcall
    refine ⟨hrooted', fun va hva => ?_⟩
    rw [hwalk va hva]
    constructor
    · intro r' hr' hin
      rcases List.mem_append.mp hr' with hearlier | hnew
      · rw [if_neg fun h => hfresh va h r' hearlier hin]
        exact (htranslates va hva).1 r' hearlier hin
      · obtain rfl := List.mem_singleton.mp hnew
        rw [if_pos hin]
    · intro hout
      rw [if_neg (hout r (by simp))]
      exact (htranslates va hva).2 fun r' hr' => hout r' (by simp [hr'])

/-- From zeroed storage, a run of successful calls on disjoint valid regions maps every address of
every region to the physical address at the same offset, with the region's attributes and
read/write access. Every other address of the lower half faults, and every order of the calls
that succeeds gives the same translation. -/
theorem pgt_create_translates {s₀ : TableState} {rs : List MemoryRegion} (hz : Zeroed T s₀)
    (hdisjoint : DisjointRegions rs) (hrun : Run (MapStep T) s₀ rs s) :
    (∀ r ∈ rs, ∀ va, r.Contains va → walk s.mem va T.ttL0Base =
      some (r.physicalAddress + (va - r.virtualAddress), r.attributes ||| attrStage1ApRw)) ∧
    (∀ va, va < 2 ^ 39 → (∀ r ∈ rs, ¬r.Contains va) → walk s.mem va T.ttL0Base = none) ∧
    ∀ rs' s₀' s', rs'.Perm rs → Zeroed T s₀' → Run (MapStep T) s₀' rs' s' →
      ∀ va, va < 2 ^ 39 → walk s'.mem va T.ttL0Base = walk s.mem va T.ttL0Base := by
  have htranslates := (translates_of_run hz hrun hdisjoint).2
  have hvalid : ∀ r ∈ rs, ValidRegion r := hrun.forall_mem fun _ _ _ hstep => hstep.1
  refine ⟨fun r hr va hva => ?_, fun va hva hout => (htranslates va hva).2 hout, ?_⟩
  · have hbound := (hvalid r hr).virtual_le
    exact (htranslates va (by unfold MemoryRegion.Contains at hva; omega)).1 r hr hva
  · intro rs' s₀' s' hperm hz' hrun' va hva
    have hdisjoint' : DisjointRegions rs' :=
      (hperm.pairwise_iff fun {r r'} hapart va hboth => hapart va hboth.symm).mpr hdisjoint
    have hsame : Translates rs va (walk s'.mem va T.ttL0Base) := by
      have htranslates' := (translates_of_run hz' hrun' hdisjoint').2 va hva
      simpa only [Translates, hperm.mem_iff] using htranslates'
    exact hsame.unique (htranslates va hva)

/-- Two megabytes with the attributes of normal memory, described by one block. -/
def blockRegion : MemoryRegion := ⟨0x200000, 0x400000, 0x200000, 0x404⟩

/-- A page and a block in one level 2 table. -/
theorem pgt_create_translates_page_and_block :
    ∃ s, Run (MapStep lowStorage) zeroState [lowPage, blockRegion] s ∧
      walk s.mem 0x123 lowStorage.ttL0Base = some (0x1123, 0x40) ∧
      walk s.mem 0x200123 lowStorage.ttL0Base = some (0x400123, 0x444) ∧
      walk s.mem 0x1000 lowStorage.ttL0Base = none := by
  have hcalls : ((valPgtCreate 0 lowStorage 2 (stage1Pgt lowStorage) lowPage zeroState).bind
      fun p => (valPgtCreate 0 lowStorage 2 (stage1Pgt lowStorage) blockRegion p.2).bind fun q =>
        .ok (p.1, q.1)) = .ok (Status.success, Status.success) := by
    decide +kernel
  obtain ⟨⟨st₁, s₁⟩, hpage, hrest⟩ := exists_ok_of_bind hcalls
  obtain ⟨⟨st₂, s₂⟩, hblock, hstatus⟩ := exists_ok_of_bind hrest
  obtain ⟨rfl, rfl⟩ := Prod.mk.inj (Except.ok.inj hstatus)
  have hvalid : ValidRegion lowPage ∧ ValidRegion blockRegion := by
    constructor <;> constructor <;> first | decide | exact ⟨by decide, by decide⟩
  have hrun : Run (MapStep lowStorage) zeroState ([] ++ [lowPage] ++ [blockRegion]) s₂ :=
    .snoc (.snoc .nil ⟨hvalid.1, 2, hpage⟩) ⟨hvalid.2, 2, hblock⟩
  have hdisjoint : DisjointRegions [lowPage, blockRegion] := by
    simp only [DisjointRegions, List.pairwise_pair, MemoryRegion.Contains, lowPage, blockRegion]
    omega
  obtain ⟨hmaps, hfaults, -⟩ :=
    pgt_create_translates (zeroState_zeroed lowStorage) hdisjoint hrun
  exact ⟨s₂, hrun, hmaps lowPage (by simp) 0x123 (by decide),
    hmaps blockRegion (by simp) 0x200123 (by decide), hfaults 0x1000 (by norm_num) (by decide)⟩

/-- A block of level 0 is no translation. -/
theorem walk_eq_none_of_root_block {mem : ℕ → ℕ} {root : ℕ}
    (hkind : mem (root + 8 * slotIndex 0 va) % 4 = 1) : walk mem va root = none := by
  have hleaf : ¬IsLeaf 0 (mem (root + 8 * slotIndex 0 va)) := by
    unfold IsLeaf
    omega
  have htable : ¬mem (root + 8 * slotIndex 0 va) % 4 = 3 := by omega
  obtain ⟨next, hnext⟩ := walkFrom_eq_walkLevel mem va root (Nat.zero_le 3)
  have hroot : tableAt mem va root 0 = some root := rfl
  rw [walk_eq_walkFrom (Nat.zero_le 3) hroot, hnext, walkLevel, if_neg hleaf, if_neg htable]

/-- The loop at the root stores one block for the whole lower half at physical address 0. -/
theorem rootLoop_half {attributes : ℕ} {next : TtDescriptor → TableState → Outcome}
    (hrun : fillLoop (pgtGlobals 0) T attributes next (rootCall T 0 (2 ^ 39 - 1) 0) fuel 0 0 s =
      .ok (.success, s')) :
    s' = s.write (T.ttL0Base + 8 * slotIndex 0 0) (blockDescriptor (2 ^ 39) 0 attributes) := by
  have hmore : 0 < (rootCall T 0 (2 ^ 39 - 1) 0).inputTop := by simp [rootCall]
  obtain ⟨-, hmin, -, hadvance⟩ := TtDescriptor.chunk_bounds (by simp [rootCall]) hmore
    (by simp only [rootCall]; norm_num)
  have hwhole : (rootCall T 0 (2 ^ 39 - 1) 0).chunkTop 0 = 2 ^ 39 - 1 := by
    rw [hmin]
    simp only [rootCall, TtDescriptor.blockSize]
    norm_num
  have heligible : (rootCall T 0 (2 ^ 39 - 1) 0).BlockEligible 0 0 := by
    refine ⟨Nat.zero_and _, Nat.zero_and _, ?_⟩
    simp only [rootCall, TtDescriptor.blockSize, wrap64]
    norm_num
  have hdesc : (rootCall T 0 (2 ^ 39 - 1) 0).tableDesc 0 = T.ttL0Base + 8 * slotIndex 0 0 := by
    rw [TtDescriptor.tableDesc, TtDescriptor.tableIndex_eq]
    simp only [rootCall, slotIndex, Nat.zero_div, Nat.zero_mod]
  cases fuel with
  | zero => cases hrun
  | succ fuel =>
    rcases fillLoop_cases hrun with ⟨hend, -, -⟩ | ⟨-, ⟨herror, -⟩ | ⟨s₁, hentry, hrest⟩⟩
    · exact absurd hmore (not_lt.mpr hend)
    · cases herror
    · rw [hadvance, hwhole] at hrest
      obtain ⟨-, rfl⟩ := fillLoop_end (Nat.le_succ _) hrest
      rcases fillEntry_cases hentry with ⟨herror, -⟩ | ⟨-, ⟨hlast, -⟩ | ⟨-, -, -, rfl⟩ | ⟨-, hno, -⟩⟩
      · cases herror
      · cases hlast
      · rw [hdesc]
        rfl
      · exact absurd heligible hno

/-- The whole lower half at physical address 0 becomes one block of level 0, and nothing of it is
mapped. -/
theorem walk_eq_none_of_half {pgt : PgtDescriptor} (hias : pgt.ias = 40)
    (httbr : pgt.ttbr = T.ttL0Base) (hvirtual : r.virtualAddress = 0) (hphysical : r.physicalAddress = 0)
    (hlength : r.length = 2 ^ 39) (ha : r.attributes &&& 2 = 0)
    (hrun : valPgtCreate 0 T fuel pgt r s = .ok (.success, s')) :
    walk s'.mem 0 T.ttL0Base = none := by
  obtain ⟨attributes, haccepted⟩ := accepted_of_success hrun
  have htop : sub64 (wrap64 (0 + 2 ^ 39)) 1 = 2 ^ 39 - 1 := by decide
  rw [valPgtCreate_eq hias httbr haccepted, hvirtual, hphysical, hlength, Nat.zero_mod, htop] at hrun
  rcases fillTranslationTable_succ_cases hrun with ⟨herror, -⟩ | hloop
  · exact nomatch herror
  · apply walk_eq_none_of_root_block
    rw [rootLoop_half hloop, write_mem_self]
    exact blockDescriptor_mod_four (by norm_num) (by norm_num)
      (stageAttributes_land_two ha haccepted.stage)

/-- Every page with an address of the region is mapped to the page at the same offset. -/
def MapsPages (T : TableStorage) (s : TableState) (r : MemoryRegion) : Prop :=
  ∀ x va, r.Contains x → va / 4096 = x / 4096 →
    (walk s.mem va T.ttL0Base).map Prod.fst = some (r.physicalAddress + (va - r.virtualAddress))

/-- From zeroed tables, a successful call on page-aligned addresses of the lower half maps all pages
of its region exactly when the length is not one byte more than a number of pages, and the region is
not the whole half. -/
theorem maps_pages_iff {pgt : PgtDescriptor} (hias : pgt.ias = 40) (httbr : pgt.ttbr = T.ttL0Base)
    (hz : Zeroed T s) (hlength : 1 ≤ r.length) (hva : r.virtualAddress + r.length ≤ 2 ^ 39)
    (hpa : r.physicalAddress + r.length ≤ 2 ^ 39) (ha : PureAttributes r.attributes)
    (hrun : valPgtCreate 0 T fuel pgt r s = .ok (.success, s')) :
    MapsPages T s' r ↔ r.length % 4096 ≠ 1 ∧ r.length < 2 ^ 39 := by
  by_cases hhalf : r.length = 2 ^ 39
  · -- one block of level 0
    refine iff_of_false (fun hmaps => ?_) (by omega)
    have hmapped := hmaps 0 0 (by unfold MemoryRegion.Contains; omega) rfl
    rw [walk_eq_none_of_half hias httbr (by omega) (by omega) hhalf ha.land_two hrun] at hmapped
    exact nomatch hmapped
  · have hr : InTables 0 r := ⟨by omega, by omega, by omega, ha.land_two, by omega⟩
    obtain ⟨attributes, haccepted, hfilled⟩ :=
      valPgtCreate_filled hias httbr (hz.rooted (by norm_num)) hr hrun
    have hvirtual := haccepted.virtualAligned
    rw [Nat.mod_eq_of_lt (by omega)] at hfilled
    constructor
    · intro hmaps
      refine ⟨fun hone => ?_, by omega⟩
      -- the page of the last byte starts with it
      have hlast := hmaps (r.virtualAddress + r.length - 1) (r.virtualAddress + r.length - 1)
        (by unfold MemoryRegion.Contains; omega) rfl
      have hnone : walk s'.mem (r.virtualAddress + r.length - 1) T.ttL0Base = none := by
        apply walk_eq_none
        intro l addr desc hm
        rw [hfilled.outside _ l addr desc (by omega) (by unfold pageEnd; omega)] at hm
        exact hz.not_maps hm.1
      rw [hnone] at hlast
      exact nomatch hlast
    · rintro ⟨hone, -⟩ x va hx hpage
      unfold MemoryRegion.Contains at hx
      have hexact : Exact attributes r.physicalAddress
          (pageEnd (r.virtualAddress + r.length - 1) - r.virtualAddress) := by
        refine ⟨ha.stage haccepted.stage, haccepted.physicalAligned, ?_⟩
        unfold pageEnd
        omega
      obtain ⟨l, addr, desc, hm, -, hparts⟩ :=
        hfilled.inside va (by omega) (by unfold pageEnd; omega)
      rw [hm.walk, Option.map_some, (hparts hexact).1]

/-- A page and two bytes. -/
def twoByteTail : MemoryRegion := ⟨0x1000, 0x3000, 0x1002, 0x404⟩

/-- The second page is mapped for two bytes. -/
theorem maps_pages_two_bytes :
    ∃ s, valPgtCreate 0 lowStorage 3 (stage1Pgt lowStorage) twoByteTail zeroState = .ok (.success, s) ∧
      MapsPages lowStorage s twoByteTail := by
  obtain ⟨⟨st, s⟩, hcall, rfl⟩ := exists_ok_of_map
    (show (valPgtCreate 0 lowStorage 3 (stage1Pgt lowStorage) twoByteTail zeroState).map Prod.fst =
      .ok Status.success by decide +kernel)
  refine ⟨s, hcall, (maps_pages_iff rfl rfl (zeroState_zeroed _) (by decide) (by decide) (by decide)
    ⟨by decide, by decide⟩ hcall).mpr ⟨by decide, by decide⟩⟩

/-- Mapping one byte succeeds and maps nothing. -/
theorem one_byte_not_mapped :
    ∃ s, Zeroed lowStorage zeroState ∧
      valPgtCreate 0 lowStorage 3 (stage1Pgt lowStorage) ⟨0x1000, 0x3000, 1, 0x404⟩ zeroState =
        .ok (.success, s) ∧
      walk s.mem 0x1000 lowStorage.ttL0Base = none := by
  have hcall : ((valPgtCreate 0 lowStorage 3 (stage1Pgt lowStorage) ⟨0x1000, 0x3000, 1, 0x404⟩
      zeroState).bind fun p => .ok (p.1, walk p.2.mem 0x1000 lowStorage.ttL0Base)) =
        .ok (Status.success, none) := by
    decide +kernel
  obtain ⟨⟨st, s⟩, hrun, hresult⟩ := exists_ok_of_bind hcall
  obtain ⟨rfl, hwalk⟩ := Prod.mk.inj (Except.ok.inj hresult)
  exact ⟨s, zeroState_zeroed _, hrun, hwalk⟩

end Create

end FfaAcs.PageTable
