import FfaAcs.PageTable.Mapping
import FfaAcs.PageTable.Termination

/-!
# Regions that overlap earlier ones

A call may describe a region that was mapped before, in whole or in part. Pages are replaced one by
one, but a block is replaced as a whole: when a region covers a part of it only, `val_pgt_create`
overwrites the block with a reference to a new table and does not fill in the rest of what the block
translated. An address outside the region keeps its translation exactly when no block does both.

The same holds for the descriptors a call accesses, as long as the region stays in one half of the
input address space and ends with a page. Nothing checks this: only the start addresses are compared
with the address sizes, and a range that runs over the end of the address space goes on at its start.
-/

namespace FfaAcs.PageTable

open Machine
open Heap (Status Fault)

variable {T : TableStorage} {s s' s₀ : TableState} {h level a b out attributes fuel : ℕ}
  {pgt : PgtDescriptor} {r : MemoryRegion}

/-- A block translates an address outside the range from `a` to before `b` and reaches into it. -/
def SplitBlock (T : TableStorage) (s : TableState) (a b : ℕ) : Prop :=
  ∃ va level addr, va < 2 ^ 40 ∧ ¬(a ≤ va ∧ va < b) ∧ TranslatedBy T s va level addr ∧
    Meets level va a b

/-- Filling a range keeps the translation of the other addresses exactly when no block is split. -/
theorem Filled.walk_eq_iff {log : List Visit} (hf : Filled T h level s a b out attributes log s') :
    (∀ va, va < 2 ^ 40 → ¬(a ≤ va ∧ va < b) →
      walk s'.mem va T.ttL0Base = walk s.mem va T.ttL0Base) ↔ ¬SplitBlock T s a b := by
  constructor
  · rintro hkept ⟨va, l, addr, hva, hnot, htranslated, hmeets⟩
    have hm : Maps T s va l addr (s.mem addr) := ⟨htranslated, rfl⟩
    have hsame := hkept va hva hnot
    have hnone : walk s'.mem va T.ttL0Base = none := by
      apply walk_eq_none
      intro l' addr' desc' hm'
      rw [hf.outside va l' addr' desc' hva hnot] at hm'
      obtain rfl := hm.level_eq hm'.1
      exact hm'.2 hmeets
    rw [hnone, hm.walk] at hsame
    exact nomatch hsame
  · intro hsplit va hva hnot
    apply walk_eq_of_maps_iff
    intro l addr desc
    rw [hf.outside va l addr desc hva hnot]
    exact and_iff_left_of_imp fun hm hmeets =>
      hsplit ⟨va, l, addr, hva, hnot, hm.translated, hmeets⟩

section Kept

/-- Regions of whole pages in the lower half, whose attributes leave the type bit of a descriptor
clear and which are not one block of level 0. -/
structure PageRegion (r : MemoryRegion) : Prop where
  lengthAligned : r.length % 4096 = 0
  virtual_le : r.virtualAddress + r.length ≤ 2 ^ 39
  attributes : r.attributes &&& 2 = 0
  not_half : ¬(r.length = 2 ^ 39 ∧ r.physicalAddress % 2 ^ 39 = 0)

/-- A successful call on such a region; it has checked that the addresses start at pages. -/
def PageStep (T : TableStorage) (s : TableState) (call : PgtDescriptor × MemoryRegion)
    (s' : TableState) : Prop :=
  call.1.ias = 40 ∧ call.1.ttbr = T.ttL0Base ∧ PageRegion call.2 ∧
    ∃ fuel, valPgtCreate 0 T fuel call.1 call.2 s = .ok (.success, s')

/-- A region that a call succeeds on keeps the tables in order. -/
theorem PageRegion.inTables (hr : PageRegion r) (hias : pgt.ias = 40) (httbr : pgt.ttbr = T.ttL0Base)
    (hrun : valPgtCreate 0 T fuel pgt r s = .ok (.success, s')) : InTables 0 r := by
  have hle := hr.virtual_le
  have hlast := last_ne_zero_of_success hias httbr hrun
  exact ⟨by omega, by omega, by omega, hr.attributes, hr.not_half⟩

/-- A successful call on a page region fills exactly its addresses. -/
theorem PageRegion.filled (hr : PageRegion r) (hs : Rooted T 0 s) (hias : pgt.ias = 40)
    (httbr : pgt.ttbr = T.ttL0Base) (hcall : valPgtCreate 0 T fuel pgt r s = .ok (.success, s')) :
    ∃ attributes, Filled T 0 0 s r.virtualAddress (r.virtualAddress + r.length) r.physicalAddress attributes
      (createLog 0 T fuel pgt r s) s' := by
  have htables := hr.inTables hias httbr hcall
  obtain ⟨attributes, haccepted, hfilled⟩ := valPgtCreate_filled hias httbr hs htables hcall
  have hle := hr.virtual_le
  have hpos := htables.last_pos
  have hlength := hr.lengthAligned
  have hvirtual := haccepted.virtualAligned
  have hend : pageEnd (r.virtualAddress + r.length - 1) = r.virtualAddress + r.length := by
    unfold pageEnd
    omega
  rw [Nat.mod_eq_of_lt (by omega), hend] at hfilled
  exact ⟨attributes, hfilled⟩

/-- After every run of successful calls on page regions of the lower half, a further successful call
on such a region keeps the translation of every address outside it exactly when no block translates
both an address of the region and one outside it. -/
theorem translation_kept_iff {calls : List (PgtDescriptor × MemoryRegion)} (hz : Zeroed T s₀)
    (hrun : Run (PageStep T) s₀ calls s) (hias : pgt.ias = 40) (httbr : pgt.ttbr = T.ttL0Base)
    (hr : PageRegion r) (hcall : valPgtCreate 0 T fuel pgt r s = .ok (.success, s')) :
    (∀ va, va < 2 ^ 40 → ¬r.Contains va →
      walk s'.mem va T.ttL0Base = walk s.mem va T.ttL0Base) ↔
    ¬SplitBlock T s r.virtualAddress (r.virtualAddress + r.length) := by
  have hs : Rooted T 0 s := by
    apply hrun.invariant (hz.rooted (by norm_num))
    rintro s₁ call s₂ hs₁ ⟨hias, httbr, hregion, fuel, hcall⟩
    exact valPgtCreate_rooted hias httbr hs₁ (hregion.inTables hias httbr hcall) hcall
  obtain ⟨attributes, hfilled⟩ := hr.filled hs hias httbr hcall
  exact hfilled.walk_eq_iff

/-- A region mapped in zeroed tables has no block that reaches out of it. -/
theorem PageRegion.not_splitBlock (hr : PageRegion r) (hz : Zeroed T s) (hias : pgt.ias = 40)
    (httbr : pgt.ttbr = T.ttL0Base) (hcall : valPgtCreate 0 T fuel pgt r s = .ok (.success, s'))
    (hapart : b ≤ r.virtualAddress ∨ r.virtualAddress + r.length ≤ a) : ¬SplitBlock T s' a b := by
  obtain ⟨attributes, hfilled⟩ := hr.filled (hz.rooted (by norm_num)) hias httbr hcall
  rintro ⟨va, level, addr, hva, -, htranslated, x, hax, hxb, hslot⟩
  have hm : Maps T s' va level addr (s'.mem addr) := ⟨htranslated, rfl⟩
  by_cases hin : r.virtualAddress ≤ va ∧ va < r.virtualAddress + r.length
  · obtain ⟨l, addr', desc', hm', hcover, -⟩ := hfilled.inside va hin.1 hin.2
    obtain rfl := hm.level_eq hm'
    have hx := hcover x hslot
    omega
  · rw [hfilled.outside va level addr _ hva hin] at hm
    exact hz.not_maps hm.1

/-- A block of 2 MB and then a page below it, as calls on zeroed tables. -/
theorem block_then_page : ∃ s₁ s₂,
    valPgtCreate 0 lowStorage 3 (stage1Pgt lowStorage) blockRegion zeroState = .ok (.success, s₁) ∧
      valPgtCreate 0 lowStorage 3 (stage1Pgt lowStorage) lowPage s₁ = .ok (.success, s₂) ∧
      walk s₁.mem 0x201000 lowStorage.ttL0Base = some (0x401000, 0x444) := by
  have hcalls : ((valPgtCreate 0 lowStorage 3 (stage1Pgt lowStorage) blockRegion zeroState).bind
      fun p => (valPgtCreate 0 lowStorage 3 (stage1Pgt lowStorage) lowPage p.2).bind fun q =>
        .ok (p.1, q.1, walk p.2.mem 0x201000 lowStorage.ttL0Base)) =
      .ok (Status.success, Status.success, some (0x401000, 0x444)) := by
    decide +kernel
  obtain ⟨⟨st₁, s₁⟩, hblock, hrest⟩ := exists_ok_of_bind hcalls
  obtain ⟨⟨st₂, s₂⟩, hpage, hwalk⟩ := exists_ok_of_bind hrest
  simp only [Except.ok.injEq, Prod.mk.injEq] at hwalk
  obtain ⟨rfl, rfl, hwalk⟩ := hwalk
  exact ⟨s₁, s₂, hblock, hpage, hwalk⟩

/-- The block is a page region. -/
theorem blockRegion_pages : PageRegion blockRegion := ⟨by decide, by decide, by decide, by decide⟩

/-- A page mapped after the block leaves the translation of the block alone. -/
theorem translation_kept_beside_block :
    ∃ s₁ s₂, valPgtCreate 0 lowStorage 3 (stage1Pgt lowStorage) blockRegion zeroState = .ok (.success, s₁) ∧
      valPgtCreate 0 lowStorage 3 (stage1Pgt lowStorage) lowPage s₁ = .ok (.success, s₂) ∧
      walk s₁.mem 0x201000 lowStorage.ttL0Base = some (0x401000, 0x444) ∧
      ∀ va, va < 2 ^ 40 → ¬lowPage.Contains va →
        walk s₂.mem va lowStorage.ttL0Base = walk s₁.mem va lowStorage.ttL0Base := by
  obtain ⟨s₁, s₂, hblock, hpage, hwalk⟩ := block_then_page
  have hz := zeroState_zeroed lowStorage
  have hrun : Run (PageStep lowStorage) zeroState ([] ++ [(stage1Pgt lowStorage, blockRegion)]) s₁ :=
    .snoc .nil ⟨rfl, rfl, blockRegion_pages, 3, hblock⟩
  have hr : PageRegion lowPage := ⟨by decide, by decide, by decide, by decide⟩
  refine ⟨s₁, s₂, hblock, hpage, hwalk, (translation_kept_iff hz hrun rfl rfl hr hpage).mpr ?_⟩
  exact blockRegion_pages.not_splitBlock hz rfl rfl hblock (.inl (by decide))

/-- The first page of a block that is mapped already. -/
def firstPage : MemoryRegion := ⟨0x200000, 0x8000, 0x1000, 0x404⟩

/-- Mapping one page of a block of 2 MB anew makes the next page fault. -/
theorem split_block_faults :
    ∃ s₁ s₂, PageRegion blockRegion ∧ PageRegion firstPage ∧ Zeroed lowStorage zeroState ∧
      valPgtCreate 0 lowStorage 3 (stage1Pgt lowStorage) blockRegion zeroState = .ok (.success, s₁) ∧
      valPgtCreate 0 lowStorage 3 (stage1Pgt lowStorage) firstPage s₁ = .ok (.success, s₂) ∧
      ¬firstPage.Contains 0x201000 ∧
      walk s₁.mem 0x201000 lowStorage.ttL0Base = some (0x401000, 0x444) ∧
      walk s₂.mem 0x201000 lowStorage.ttL0Base = none := by
  have hcalls : ((valPgtCreate 0 lowStorage 3 (stage1Pgt lowStorage) blockRegion zeroState).bind
      fun p => (valPgtCreate 0 lowStorage 3 (stage1Pgt lowStorage) firstPage p.2).bind fun q =>
        .ok (p.1, q.1, walk p.2.mem 0x201000 lowStorage.ttL0Base,
          walk q.2.mem 0x201000 lowStorage.ttL0Base)) =
      .ok (Status.success, Status.success, some (0x401000, 0x444), none) := by
    decide +kernel
  obtain ⟨⟨st₁, s₁⟩, hblock, hrest⟩ := exists_ok_of_bind hcalls
  obtain ⟨⟨st₂, s₂⟩, hpage, hwalks⟩ := exists_ok_of_bind hrest
  simp only [Except.ok.injEq, Prod.mk.injEq] at hwalks
  obtain ⟨rfl, rfl, hbefore, hafter⟩ := hwalks
  exact ⟨s₁, s₂, ⟨by decide, by decide, by decide, by decide⟩,
    ⟨by decide, by decide, by decide, by decide⟩, zeroState_zeroed _, hblock, hpage, by decide,
    hbefore, hafter⟩

end Kept

section Bounds

/-- A call on a region in half `h` that returns, with either status. -/
def HalfStep (T : TableStorage) (h : ℕ) (s : TableState) (call : PgtDescriptor × MemoryRegion)
    (s' : TableState) : Prop :=
  call.1.ias = 40 ∧ call.1.ttbr = T.ttL0Base ∧ InTables h call.2 ∧
    ∃ fuel st, valPgtCreate 0 T fuel call.1 call.2 s = .ok (st, s')

/-- After every run of calls on regions in one half of the input address space, a further successful
call stays inside its region: when the region lies in that half and in the output address space, does
not end inside a page and splits no block, no descriptor is accessed that translates an address
outside it before or after the call. -/
theorem successful_call_in_bounds {calls : List (PgtDescriptor × MemoryRegion)}
    (hz : Zeroed T s₀) (hrun : Run (HalfStep T h) s₀ calls s) (hias : pgt.ias = 40)
    (httbr : pgt.ttbr = T.ttL0Base) (hr : InTables h r)
    (hphysical : r.physicalAddress + r.length ≤ 2 ^ 40) (hpages : r.length % 4096 ≤ 1)
    (hsplit : ¬SplitBlock T s (r.virtualAddress % 2 ^ 40) (r.virtualAddress % 2 ^ 40 + r.length))
    (hcall : valPgtCreate 0 T fuel pgt r s = .ok (.success, s')) :
    r.virtualAddress % 2 ^ 40 + r.length ≤ 2 ^ 40 ∧ r.physicalAddress + r.length ≤ 2 ^ 40 ∧
      ∀ va level addr, va < 2 ^ 40 →
        ¬(r.virtualAddress % 2 ^ 40 ≤ va ∧ va < r.virtualAddress % 2 ^ 40 + r.length) →
        TranslatedBy T s va level addr ∨ TranslatedBy T s' va level addr →
        ∀ v ∈ createLog 0 T fuel pgt r s, v.addr ≠ addr := by
  have hlower := hr.lower
  have hupper := hr.upper
  have hs : Rooted T h s := by
    apply hrun.invariant (hz.rooted (by omega))
    rintro s₁ call s₂ hs₁ ⟨hias, httbr, hregion, fuel, st, hcall⟩
    exact valPgtCreate_rooted hias httbr hs₁ hregion hcall
  obtain ⟨attributes, haccepted, hfilled⟩ := valPgtCreate_filled hias httbr hs hr hcall
  have hpos := hr.last_pos
  have hvirtual := haccepted.virtualAligned
  have hend : pageEnd (r.virtualAddress % 2 ^ 40 + r.length - 1) ≤
      r.virtualAddress % 2 ^ 40 + r.length := by
    unfold pageEnd
    omega
  refine ⟨by omega, hphysical, fun va level addr hva hnot htranslated => ?_⟩
  have hafter : Maps T s' va level addr (s'.mem addr) → ∀ v ∈ createLog 0 T fuel pgt r s,
      v.addr ≠ addr := hfilled.untouched va level addr _ hva (by omega)
  rcases htranslated with hbefore | hlater
  · -- the descriptor stays, since its slot does not reach into the region
    have hm : Maps T s' va level addr (s.mem addr) := by
      rw [hfilled.outside va level addr _ hva (by omega)]
      refine ⟨⟨hbefore, rfl⟩, ?_⟩
      rintro ⟨x, hle, hlt, hslot⟩
      exact hsplit ⟨va, level, addr, hva, hnot, hbefore, x, hle, by omega, hslot⟩
    exact hafter ⟨hm.translated, rfl⟩
  · exact hafter ⟨hlater, rfl⟩

/-- A page mapped after the block accesses none of the descriptors that translate the block. -/
theorem successful_call_in_bounds_beside_block :
    ∃ s₁ s₂, valPgtCreate 0 lowStorage 3 (stage1Pgt lowStorage) blockRegion zeroState = .ok (.success, s₁) ∧
      valPgtCreate 0 lowStorage 3 (stage1Pgt lowStorage) lowPage s₁ = .ok (.success, s₂) ∧
      walk s₁.mem 0x201000 lowStorage.ttL0Base = some (0x401000, 0x444) ∧
      ∀ va level addr, va < 2 ^ 40 → ¬(0 ≤ va ∧ va < 0x1000) →
        TranslatedBy lowStorage s₁ va level addr ∨ TranslatedBy lowStorage s₂ va level addr →
        ∀ v ∈ createLog 0 lowStorage 3 (stage1Pgt lowStorage) lowPage s₁, v.addr ≠ addr := by
  obtain ⟨s₁, s₂, hblock, hpage, hwalk⟩ := block_then_page
  have hz := zeroState_zeroed lowStorage
  have hfirst : InTables 0 blockRegion := ⟨by decide, by decide, by decide, by decide, by decide⟩
  have hrun : Run (HalfStep lowStorage 0) zeroState ([] ++ [(stage1Pgt lowStorage, blockRegion)]) s₁ :=
    .snoc .nil ⟨rfl, rfl, hfirst, 3, .success, hblock⟩
  have hr : InTables 0 lowPage := ⟨by decide, by decide, by decide, by decide, by decide⟩
  have hsplit : ¬SplitBlock lowStorage s₁ (lowPage.virtualAddress % 2 ^ 40)
      (lowPage.virtualAddress % 2 ^ 40 + lowPage.length) :=
    blockRegion_pages.not_splitBlock hz rfl rfl hblock (.inl (by decide))
  exact ⟨s₁, s₂, hblock, hpage, hwalk, (successful_call_in_bounds hz hrun rfl rfl hr (by decide)
    (by decide) hsplit hpage).2.2⟩

/-- A region that runs over the end of the input address space is mapped with success, and its second
page at address 0. -/
theorem region_wraps_around :
    ∃ s, Zeroed lowStorage zeroState ∧
      valPgtCreate 0 lowStorage 3 (stage1Pgt lowStorage) ⟨2 ^ 40 - 0x1000, 0x3000, 0x2000, 0x404⟩
        zeroState = .ok (.success, s) ∧
      ¬((2 ^ 40 - 0x1000) % 2 ^ 40 + 0x2000 ≤ 2 ^ 40) ∧
      walk zeroState.mem 0 lowStorage.ttL0Base = none ∧
      walk s.mem 0 lowStorage.ttL0Base = some (0x4000, 0x444) := by
  have hcall : ((valPgtCreate 0 lowStorage 3 (stage1Pgt lowStorage)
      ⟨2 ^ 40 - 0x1000, 0x3000, 0x2000, 0x404⟩ zeroState).bind fun p =>
        .ok (p.1, walk zeroState.mem 0 lowStorage.ttL0Base, walk p.2.mem 0 lowStorage.ttL0Base)) =
        .ok (Status.success, none, some (0x4000, 0x444)) := by
    decide +kernel
  obtain ⟨⟨st, s⟩, hrun, hresult⟩ := exists_ok_of_bind hcall
  simp only [Except.ok.injEq, Prod.mk.injEq] at hresult
  obtain ⟨rfl, hbefore, hafter⟩ := hresult
  exact ⟨s, zeroState_zeroed _, hrun, by decide, hbefore, hafter⟩

end Bounds

end FfaAcs.PageTable
