import FfaAcs.PageTable.Shape

/-!
# Runs of `val_pgt_create`

With the 4K granule and 40-bit input addresses a call starts at level 0, where one descriptor
translates half of the address space. A region that stays in one half takes one iteration of the
loop there. Runs of such calls, whether they succeed or not, keep the tables a tree: no table is
referred to twice, and a block or page descriptor translates the addresses of one block or page
only.

A run that maps both halves does not: the second call refers to the level 1 table of the first.
-/

namespace FfaAcs.PageTable

open Machine
open Heap (Status Fault)

variable {T : TableStorage} {s s' : TableState} {h fuel : ℕ} {st : Status}

/-- The storage before the first call: all words and all flags are zero. -/
structure Zeroed (T : TableStorage) (s : TableState) : Prop where
  mem : ∀ a, T.base ≤ a → a < T.base + storageSize → s.mem a = 0
  l2Used : ∀ i, s.l2Used i = false
  l3Used : ∀ i, s.l3Used i = false

/-- The descriptors of zeroed storage are empty. -/
theorem Zeroed.slot {level addr : ℕ} (hz : Zeroed T s) (haddr : IsSlot T level addr) :
    s.mem addr = 0 := by
  obtain ⟨base, k, hb, hk, rfl⟩ := haddr
  have hbounds := hb.bounds
  exact hz.mem _ (by omega) (by omega)

/-- Zeroed storage is a tree. -/
theorem Zeroed.shape (hz : Zeroed T s) (h : ℕ) : Shape T h s where
  entry _ _ _ haddr := .inl (hz.slot haddr)
  unique _ _ _ _ haddr _ hkind _ := by
    rw [hz.slot haddr] at hkind
    exact absurd hkind (by decide)
  fresh _ base k hb _ hk := hz.slot ⟨base, k, hb, hk, rfl⟩
  half k hk _ := by
    have hroot : IsTable T 0 T.ttL0Base := rfl
    exact hz.slot ⟨T.ttL0Base, k, hroot, hk, rfl⟩

/-- The descriptor of the call for the root table, with the 4K granule and 40-bit addresses. -/
def rootCall (T : TableStorage) (virtualAddress top output : ℕ) : TtDescriptor where
  ttBase := T.ttL0Base
  inputBase := virtualAddress
  inputTop := top
  outputBase := output
  level := 0
  sizeLog2 := 39
  nbits := 1

/-- A region in one half of the 40-bit input address space, whose attributes leave the type bit
of a descriptor clear. -/
structure InHalf (h : ℕ) (r : MemoryRegion) : Prop where
  lower : 2 ^ 39 * h ≤ r.virtualAddress
  length_pos : 0 < r.length
  upper : r.virtualAddress + r.length ≤ 2 ^ 39 * (h + 1)
  attributes : r.attributes &&& 2 = 0

/-- What `val_pgt_create` checks before it fills the tables, with the attributes it fills them
with. -/
structure Accepted (pgt : PgtDescriptor) (r : MemoryRegion) (attributes : ℕ) : Prop where
  virtualAligned : r.virtualAddress % 4096 = 0
  physicalAligned : r.physicalAddress % 4096 = 0
  physical_lt : r.physicalAddress < 2 ^ pgt.oas
  stage : stageAttributes pgt.stage r.attributes = some attributes

/-- The call for the root table. An input address that is too large is truncated, and the last
address is a difference modulo `2 ^ 64`. -/
theorem rootDescriptor_eq {pgt : PgtDescriptor} {r : MemoryRegion} {virtualAddress : ℕ}
    (hias : pgt.ias = 40) (httbr : pgt.ttbr = T.ttL0Base)
    (hphysical : r.physicalAddress < 2 ^ pgt.oas) :
    rootDescriptor 0 pgt virtualAddress r =
      rootCall T (virtualAddress % 2 ^ 40)
        (sub64 (wrap64 (virtualAddress % 2 ^ 40 + r.length)) 1) r.physicalAddress := by
  have hlevels : numPgtLevels 0 40 = 4 := by decide
  have hpage : ilog2 (valCurrEndpointPageSize 0) = 12 := by decide
  simp only [rootDescriptor, rootCall, hias, httbr, hlevels, hpage, pgtGlobals_zero,
    Nat.and_two_pow_sub_one_eq_mod, Nat.mod_eq_of_lt hphysical]

/-- The offset in a page of the 4K granule. -/
theorem land_page_mask (x : ℕ) : x &&& (valCurrEndpointPageSize 0 - 1) = x % 4096 :=
  Nat.and_two_pow_sub_one_eq_mod x 12

/-- Truncating an input address that is too large does not change it modulo its size. -/
theorem truncate_mod {pgt : PgtDescriptor} {va : ℕ} (hias : pgt.ias = 40) :
    (if 2 ^ pgt.ias ≤ va then va &&& (2 ^ pgt.ias - 1) else va) % 2 ^ 40 = va % 2 ^ 40 := by
  rw [hias, Nat.and_two_pow_sub_one_eq_mod]
  split <;> simp

/-- An accepted call fills the tables from the root. -/
theorem valPgtCreate_eq {pgt : PgtDescriptor} {r : MemoryRegion} {attributes : ℕ} (hias : pgt.ias = 40)
    (httbr : pgt.ttbr = T.ttL0Base) (hr : Accepted pgt r attributes) :
    valPgtCreate 0 T fuel pgt r s = fillTranslationTable (pgtGlobals 0) T attributes fuel 3
      (rootCall T (r.virtualAddress % 2 ^ 40)
        (sub64 (wrap64 (r.virtualAddress % 2 ^ 40 + r.length)) 1) r.physicalAddress) s := by
  unfold valPgtCreate
  rw [if_neg (by rw [land_page_mask, land_page_mask, hr.virtualAligned, hr.physicalAligned]; simp),
    if_neg (not_le.mpr hr.physical_lt)]
  simp only [hr.stage, rootDescriptor_eq hias httbr hr.physical_lt, truncate_mod hias]
  rfl

/-- A call that returns has rejected the region or filled the tables from the root. -/
theorem accepted_of_valPgtCreate {pgt : PgtDescriptor} {r : MemoryRegion}
    (hrun : valPgtCreate 0 T fuel pgt r s = .ok (st, s')) :
    (st = .error ∧ s' = s) ∨ ∃ attributes, Accepted pgt r attributes := by
  unfold valPgtCreate at hrun
  split_ifs at hrun with halign hsize
  · obtain ⟨rfl, rfl⟩ := Prod.mk.inj (Except.ok.inj hrun)
    exact .inl ⟨rfl, rfl⟩
  · obtain ⟨rfl, rfl⟩ := Prod.mk.inj (Except.ok.inj hrun)
    exact .inl ⟨rfl, rfl⟩
  all_goals
    cases hattr : stageAttributes pgt.stage r.attributes with
    | none =>
      rw [hattr] at hrun
      obtain ⟨rfl, rfl⟩ := Prod.mk.inj (Except.ok.inj hrun)
      exact .inl ⟨rfl, rfl⟩
    | some attributes =>
      rw [land_page_mask, land_page_mask] at halign
      exact .inr ⟨attributes, by omega, by omega, by omega, hattr⟩

/-- A successful call has accepted the region. -/
theorem accepted_of_success {pgt : PgtDescriptor} {r : MemoryRegion}
    (hrun : valPgtCreate 0 T fuel pgt r s = .ok (.success, s')) :
    ∃ attributes, Accepted pgt r attributes := by
  rcases accepted_of_valPgtCreate hrun with ⟨herror, -⟩ | haccepted
  · exact nomatch herror
  · exact haccepted

/-- A call on a region inside the input address space either rejects it or fills the tables from
the root. -/
theorem valPgtCreate_cases {pgt : PgtDescriptor} {r : MemoryRegion} (hias : pgt.ias = 40)
    (httbr : pgt.ttbr = T.ttL0Base) (hlength : 0 < r.length)
    (hva : r.virtualAddress + r.length ≤ 2 ^ 40)
    (hrun : valPgtCreate 0 T fuel pgt r s = .ok (st, s')) :
    (st = .error ∧ s' = s) ∨ ∃ attributes, Accepted pgt r attributes ∧
      fillTranslationTable (pgtGlobals 0) T attributes fuel 3
        (rootCall T r.virtualAddress (r.virtualAddress + r.length - 1) r.physicalAddress) s =
          .ok (st, s') := by
  rcases accepted_of_valPgtCreate hrun with herror | ⟨attributes, hr⟩
  · exact .inl herror
  · rw [valPgtCreate_eq hias httbr hr, Nat.mod_eq_of_lt (by omega), wrap64_of_lt (by omega),
      sub64_of_le (by omega) (by omega)] at hrun
    exact .inr ⟨attributes, hr, hrun⟩

/-- The access bits leave the type bit of a descriptor clear. -/
theorem stageAttributes_land_two {stage a attributes : ℕ} (ha : a &&& 2 = 0)
    (hattr : stageAttributes stage a = some attributes) : attributes &&& 2 = 0 := by
  unfold stageAttributes at hattr
  split_ifs at hattr
  · rw [← Option.some.inj hattr, Nat.and_or_distrib_right, ha]
    rfl
  · rw [← Option.some.inj hattr, Nat.and_or_distrib_right, ha]
    rfl

/-- A call on a region in one half keeps the tables a tree. -/
theorem valPgtCreate_shape {pgt : PgtDescriptor} {r : MemoryRegion} (hh : h < 2)
    (hias : pgt.ias = 40) (httbr : pgt.ttbr = T.ttL0Base) (hr : InHalf h r) (hs : Shape T h s)
    (hrun : valPgtCreate 0 T fuel pgt r s = .ok (st, s')) : Shape T h s' := by
  have hlower := hr.lower
  have hupper := hr.upper
  have hpos := hr.length_pos
  have hhalf : 2 ^ 39 * (h + 1) ≤ 2 ^ 40 := by omega
  rcases valPgtCreate_cases hias httbr hpos (by omega) hrun with
    ⟨-, rfl⟩ | ⟨attributes, haccepted, hfill⟩
  · exact hs
  · rcases fillTranslationTable_succ_cases hfill with ⟨-, rfl⟩ | hloop
    · exact hs
    · have hland := stageAttributes_land_two hr.attributes haccepted.stage
      have hroot : OnTable T s (rootCall T r.virtualAddress (r.virtualAddress + r.length - 1)
          r.physicalAddress) := by
        constructor
        · rfl
        · trivial
        · rfl
      -- the loop at level 0 stays at or above the start of the half
      refine (fillLoop_keeps (P := fun i => 2 ^ 39 * h ≤ i) (Nat.zero_le 3) ?_ ?_ hland ?_
        hlower hs hroot hloop).keeps.1
      · intro i hi htop _
        have hindex := TtDescriptor.tableIndex_eq (rootCall T r.virtualAddress
          (r.virtualAddress + r.length - 1) r.physicalAddress) i
        simp only [rootCall, TtDescriptor.blockSize] at hindex htop ⊢
        rw [hindex]
        omega
      · intro i hi htop
        have hchunk := TtDescriptor.chunk_bounds (by simp [rootCall]) htop
          (by simp only [rootCall]; omega)
        omega
      · intro d' s₁ st s₂ _ hlevel hd hs₁ hcall
        have hone : d'.level = 1 := hlevel
        exact fillTranslationTable_keeps (by omega) (by omega) hland hs₁ hd hcall

/-- A call of `val_pgt_create` for the tables in `T`, with the 4K granule and 40-bit input
addresses, on a region in half `h`. It returns, with either status. -/
def CreateStep (T : TableStorage) (h : ℕ) (s : TableState) (call : PgtDescriptor × MemoryRegion)
    (s' : TableState) : Prop :=
  call.1.ias = 40 ∧ call.1.ttbr = T.ttL0Base ∧ InHalf h call.2 ∧
    ∃ fuel st, valPgtCreate 0 T fuel call.1 call.2 s = .ok (st, s')

/-- The tables are a tree after every run. -/
theorem shape_of_run {s₀ : TableState} {calls : List (PgtDescriptor × MemoryRegion)} (hh : h < 2)
    (hz : Zeroed T s₀) (hrun : Run (CreateStep T h) s₀ calls s) : Shape T h s := by
  apply hrun.invariant (hz.shape h)
  rintro s₁ call s₂ hs₁ ⟨hias, httbr, hregion, fuel, st, hcall⟩
  exact valPgtCreate_shape hh hias httbr hregion hs₁ hcall

/-- The walk of an address in a tree reads tables in use. -/
theorem Shape.tableAt_isTable {va level base : ℕ} (hs : Shape T h s) (hlevel : level ≤ 3)
    (hbase : tableAt s.mem va T.ttL0Base level = some base) :
    IsTable T level base ∧ Used T s level base := by
  induction level generalizing base with
  | zero =>
    obtain rfl := Option.some.inj hbase
    exact ⟨rfl, trivial⟩
  | succ level ih =>
    obtain ⟨b, hb, hkind, hnext⟩ := tableAt_succ_eq_some.mp hbase
    obtain ⟨hb', -⟩ := ih (by omega) hb
    obtain ⟨t, ht, hused, heq⟩ := hs.entry_of_table (by omega) (hb'.isSlot va) hkind
    rw [heq, nextTable_add_three ht] at hnext
    exact hnext ▸ ⟨ht, hused⟩

/-- Two addresses that are looked up in the same table of a tree agree above its level. -/
theorem Shape.div_eq_of_tableAt {va x level base : ℕ} (hs : Shape T h s) (hlevel : level ≤ 3)
    (hva : va < 2 ^ 40) (hx : x < 2 ^ 40)
    (hbase : tableAt s.mem va T.ttL0Base level = some base)
    (hbase' : tableAt s.mem x T.ttL0Base level = some base) :
    va / 2 ^ (48 - 9 * level) = x / 2 ^ (48 - 9 * level) := by
  induction level generalizing base with
  | zero => omega
  | succ level ih =>
    obtain ⟨b, hb, hkind, hnext⟩ := tableAt_succ_eq_some.mp hbase
    obtain ⟨b', hb', hkind', hnext'⟩ := tableAt_succ_eq_some.mp hbase'
    obtain ⟨htable, -⟩ := hs.tableAt_isTable (by omega) hb
    obtain ⟨htable', -⟩ := hs.tableAt_isTable (by omega) hb'
    obtain ⟨t, ht, -, heq⟩ := hs.entry_of_table (by omega) (htable.isSlot va) hkind
    obtain ⟨t', ht', -, heq'⟩ := hs.entry_of_table (by omega) (htable'.isSlot x) hkind'
    rw [heq, nextTable_add_three ht] at hnext
    rw [heq', nextTable_add_three ht'] at hnext'
    -- the descriptor above is one and the same
    have hslot := hs.unique level _ _ (by omega) (htable.isSlot va) (htable'.isSlot x) hkind
      (by rw [heq, heq', hnext, hnext'])
    obtain ⟨-, rfl, hindex⟩ :=
      htable'.slot_inj htable (slotIndex_lt level x) (slotIndex_lt level va) hslot
    have hexp : 48 - 9 * (level + 1) = 39 - 9 * level := by omega
    rw [hexp]
    exact div_eq_of_slotIndex_eq (by omega) (ih (by omega) hb hb') hindex.symm

/-- The block or page descriptor that translates an address, with its level. -/
def TranslatedBy (T : TableStorage) (s : TableState) (va level addr : ℕ) : Prop :=
  ∃ base, tableAt s.mem va T.ttL0Base level = some base ∧
    addr = base + 8 * slotIndex level va ∧ IsLeaf level (s.mem addr)

/-- Along every run of calls on regions in one half of the address space, successful or failing,
a table is referred to by one table descriptor at most, and a block or page descriptor translates
the addresses of one block or page only. -/
theorem tables_form_tree {s₀ : TableState} {calls : List (PgtDescriptor × MemoryRegion)}
    (hh : h < 2) (hz : Zeroed T s₀) (hrun : Run (CreateStep T h) s₀ calls s) :
    (∀ level l addr a, level < 3 → l < 3 → IsSlot T level addr → IsSlot T l a →
      s.mem addr % 4 = 3 → s.mem a % 4 = 3 →
      nextTable (s.mem addr) = nextTable (s.mem a) → addr = a) ∧
    ∀ va x level l addr, va < 2 ^ 40 → x < 2 ^ 40 →
      TranslatedBy T s va level addr → TranslatedBy T s x l addr →
      level = l ∧ va / slotSize level = x / slotSize level := by
  have hs := shape_of_run hh hz hrun
  constructor
  · intro level l addr a hlevel hl haddr ha hkind hkind' hnext
    obtain ⟨t, ht, -, heq⟩ := hs.entry_of_table hlevel haddr hkind
    obtain ⟨t', ht', -, heq'⟩ := hs.entry_of_table hl ha hkind'
    rw [heq, heq', nextTable_add_three ht, nextTable_add_three ht'] at hnext
    subst hnext
    -- the table has one level, so its two descriptors are of the level above
    have hsame : level = l := by
      have := ht.level_eq ht'
      omega
    subst hsame
    exact hs.unique level a addr hlevel ha haddr hkind' (heq.trans heq'.symm)
  · rintro va x level l addr hva hx ⟨base, hbase, hat, hleaf⟩ ⟨b, hb, hat', hleaf'⟩
    have hlevel : level ≤ 3 := by unfold IsLeaf at hleaf; omega
    have hl : l ≤ 3 := by unfold IsLeaf at hleaf'; omega
    obtain ⟨htable, -⟩ := hs.tableAt_isTable hlevel hbase
    obtain ⟨htable', -⟩ := hs.tableAt_isTable hl hb
    obtain ⟨rfl, rfl, hindex⟩ := htable.slot_inj htable' (slotIndex_lt level va) (slotIndex_lt l x)
      (hat.symm.trans hat')
    exact ⟨rfl, div_eq_of_slotIndex_eq hlevel (hs.div_eq_of_tableAt hlevel hva hx hbase hb) hindex⟩

/-- Tables at the second 64K boundary. -/
def lowStorage : TableStorage := ⟨0x10000, by decide, by decide, by decide⟩

/-- Storage before the first call. -/
def zeroState : TableState := ⟨fun _ => 0, fun _ => false, fun _ => false⟩

/-- Nothing is stored yet. -/
theorem zeroState_zeroed (T : TableStorage) : Zeroed T zeroState :=
  ⟨fun _ _ _ => rfl, fun _ => rfl, fun _ => rfl⟩

/-- The stage 1 descriptor `val_mem_map_pgt` calls with. -/
def stage1Pgt (T : TableStorage) : PgtDescriptor := ⟨40, 40, 1, T.ttL0Base⟩

/-- One page at the start of the address space. -/
def lowPage : MemoryRegion := ⟨0, 0x1000, 0x1000, 0⟩

/-- One page at the start of the upper half. -/
def highPage : MemoryRegion := ⟨2 ^ 39, 0x2000, 0x1000, 0⟩

/-- Mapping one page keeps a tree. -/
theorem tables_form_tree_low_page :
    ∃ s, Run (CreateStep lowStorage 0) zeroState [(stage1Pgt lowStorage, lowPage)] s ∧
      ∀ level l addr a, level < 3 → l < 3 → IsSlot lowStorage level addr → IsSlot lowStorage l a →
        s.mem addr % 4 = 3 → s.mem a % 4 = 3 →
        nextTable (s.mem addr) = nextTable (s.mem a) → addr = a := by
  obtain ⟨⟨st, s⟩, hcall, -⟩ := exists_ok_of_map
    (show (valPgtCreate 0 lowStorage 2 (stage1Pgt lowStorage) lowPage zeroState).map Prod.fst =
      .ok Status.success by decide +kernel)
  have hregion : InHalf 0 lowPage := ⟨by decide, by decide, by decide, by decide⟩
  have hrun : Run (CreateStep lowStorage 0) zeroState [(stage1Pgt lowStorage, lowPage)] s :=
    .snoc .nil ⟨rfl, rfl, hregion, 2, st, hcall⟩
  exact ⟨s, hrun, (tables_form_tree (by decide) (zeroState_zeroed _) hrun).1⟩

/-- After mapping one page in each half of the address space, both descriptors of the root refer
to the level 1 table, and one page descriptor translates both pages. -/
theorem halves_share_tables :
    ∃ s₁ s₂, Zeroed lowStorage zeroState ∧
      valPgtCreate 0 lowStorage 2 (stage1Pgt lowStorage) lowPage zeroState = .ok (.success, s₁) ∧
      valPgtCreate 0 lowStorage 2 (stage1Pgt lowStorage) highPage s₁ = .ok (.success, s₂) ∧
      (∃ addr a, IsSlot lowStorage 0 addr ∧ IsSlot lowStorage 0 a ∧ addr ≠ a ∧
        s₂.mem addr % 4 = 3 ∧ s₂.mem a % 4 = 3 ∧
        nextTable (s₂.mem addr) = nextTable (s₂.mem a)) ∧
      ∃ addr, TranslatedBy lowStorage s₂ 0 3 addr ∧ TranslatedBy lowStorage s₂ (2 ^ 39) 3 addr := by
  have hcalls : ((valPgtCreate 0 lowStorage 2 (stage1Pgt lowStorage) lowPage zeroState).bind
      fun p => (valPgtCreate 0 lowStorage 2 (stage1Pgt lowStorage) highPage p.2).bind fun q =>
        .ok (p.1, q.1, [0x10000, 0x10008, 0x11000, 0x12000, 0x42000].map q.2.mem)) =
      .ok (.success, .success, [0x11003, 0x11003, 0x12003, 0x42003, 0x2043]) := by
    decide +kernel
  obtain ⟨⟨st₁, s₁⟩, hlow, hrest⟩ := exists_ok_of_bind hcalls
  obtain ⟨⟨st₂, s₂⟩, hhigh, hwords⟩ := exists_ok_of_bind hrest
  simp only [Except.ok.injEq, Prod.mk.injEq, List.map_cons, List.map_nil, List.cons.injEq,
    and_true] at hwords
  obtain ⟨rfl, rfl, hl0, hl0', hl1, hl2, hl3⟩ := hwords
  have hroot : IsTable lowStorage 0 0x10000 := rfl
  have hpath (va : ℕ) (hva : va = 0 ∨ va = 2 ^ 39) : TranslatedBy lowStorage s₂ va 3 0x42000 := by
    refine ⟨0x42000, ?_, ?_, ?_⟩
    · rcases hva with rfl | rfl <;>
        simp [tableAt, slotIndex, slotSize, lowStorage, TableStorage.ttL0Base, nextTable, hl0, hl0',
          hl1, hl2]
    · rcases hva with rfl | rfl <;> simp [slotIndex, slotSize]
    · rw [hl3]
      decide
  refine ⟨s₁, s₂, zeroState_zeroed _, hlow, hhigh, ?_, 0x42000, hpath 0 (.inl rfl),
    hpath (2 ^ 39) (.inr rfl)⟩
  refine ⟨0x10000, 0x10008, ⟨_, 0, hroot, by decide, rfl⟩, ⟨_, 1, hroot, by decide, rfl⟩,
    by decide, ?_, ?_, ?_⟩
  · rw [hl0]
  · rw [hl0']
  · rw [hl0, hl0']

end FfaAcs.PageTable
