import FfaAcs.PageTable.Access
import FfaAcs.PageTable.Translation

/-!
# What a successful call does to the translation

A successful call covers a range of addresses with new descriptors. It is a sequence of two kinds of
stores. A block or page translates the addresses of its slot. A reference to a table that was not
there before makes the addresses of its slot fault, if they were translated by a block until then;
the call below fills the part of the slot that belongs to the range.

So an address outside the range keeps its translation unless it was translated by a block that
reaches into the range, and then it loses it. The loop stops when the input address has reached the
last address of the range, so that a page is left out of which that is the first byte.
-/

namespace FfaAcs.PageTable

open Machine
open Heap (Status Fault)

variable {T : TableStorage} {s s' s₁ : TableState}
  {h level l base va x addr desc v t a b c out attributes : ℕ}

section Filled

/-- The slot of `va` at a level reaches into the addresses from `a` to before `b`. -/
def Meets (level va a b : ℕ) : Prop := ∃ x, a ≤ x ∧ x < b ∧ x / slotSize level = va / slotSize level

/-- A range in two parts. -/
theorem meets_split (hac : a ≤ c) (hcb : c ≤ b) :
    Meets level va a b ↔ Meets level va a c ∨ Meets level va c b := by
  constructor
  · rintro ⟨x, hax, hxb, hslot⟩
    rcases Nat.lt_or_ge x c with hlt | hge
    · exact .inl ⟨x, hax, hlt, hslot⟩
    · exact .inr ⟨x, hge, hxb, hslot⟩
  · rintro (⟨x, hax, hxc, hslot⟩ | ⟨x, hcx, hxb, hslot⟩)
    · exact ⟨x, hax, by omega, hslot⟩
    · exact ⟨x, by omega, hxb, hslot⟩

/-- Attributes and output addresses that fill the fields of a descriptor they belong in. -/
structure Exact (attributes out n : ℕ) : Prop where
  attributes : PureAttributes attributes
  page : out % 4096 = 0
  fits : out + n ≤ 2 ^ 48

/-- The effect of filling the addresses from `a` to before `b` below a table of a level, with the
accesses in `log`. The tree and the descriptors above the table stay. An address outside the range
keeps the descriptor that translates it, which is not accessed, unless its slot reaches into the
range. An address in the range is translated by a slot in the range. -/
structure Filled (T : TableStorage) (h level : ℕ) (s : TableState) (a b out attributes : ℕ)
    (log : List Visit) (s' : TableState) : Prop where
  keeps : KeepsAbove T h level s s'
  outside : ∀ va l addr desc, va < 2 ^ 40 → ¬(a ≤ va ∧ va < b) →
    (Maps T s' va l addr desc ↔ Maps T s va l addr desc ∧ ¬Meets l va a b)
  untouched : ∀ va l addr desc, va < 2 ^ 40 → ¬(a ≤ va ∧ va < b) → Maps T s' va l addr desc →
    ∀ v ∈ log, v.addr ≠ addr
  inside : ∀ va, a ≤ va → va < b → ∃ l addr desc, Maps T s' va l addr desc ∧
    (∀ x, x / slotSize l = va / slotSize l → a ≤ x ∧ x < b) ∧
    (Exact attributes out (b - a) →
      outputAddress l desc va = out + (va - a) ∧ attributesOf desc = attributes)

/-- Nothing to fill. -/
theorem Filled.refl (hs : Shape T h s) : Filled T h level s a a out attributes [] s where
  keeps := .refl hs
  outside va l addr desc _ _ := by
    have hempty : ¬Meets l va a a := by
      rintro ⟨x, hle, hlt, -⟩
      omega
    exact (and_iff_left hempty).symm
  untouched _ _ _ _ _ _ _ v hv := absurd hv List.not_mem_nil
  inside va hle hlt := absurd hlt (not_lt.mpr hle)

/-- Two consecutive ranges make one. -/
theorem Filled.trans {out' : ℕ} {log log' : List Visit}
    (h₁ : Filled T h level s a c out attributes log s₁)
    (h₂ : Filled T h level s₁ c b out' attributes log' s') (hac : a ≤ c) (hcb : c ≤ b)
    (hb : b ≤ 2 ^ 40) (hpage : (c - a) % 4096 = 0) (hout : Exact attributes out (b - a) → out' = out + (c - a)) :
    Filled T h level s a b out attributes (log ++ log') s' := by
  refine ⟨h₁.keeps.trans h₂.keeps le_rfl, ?_, ?_, ?_⟩
  · intro va l addr desc hva hnot
    rw [h₂.outside va l addr desc hva (by omega), h₁.outside va l addr desc hva (by omega),
      meets_split hac hcb, not_or, and_assoc]
  · intro va l addr desc hva hnot hm v hv
    rcases List.mem_append.mp hv with hv | hv
    · have hm₁ := ((h₂.outside va l addr desc hva (by omega)).mp hm).1
      exact h₁.untouched va l addr desc hva (by omega) hm₁ v hv
    · exact h₂.untouched va l addr desc hva (by omega) hm v hv
  · intro va hle hlt
    rcases Nat.lt_or_ge va c with hfirst | hsecond
    · obtain ⟨l, addr, desc, hm, hslot, hexact⟩ := h₁.inside va hle hfirst
      -- the slot lies in the first part, so the second one does not touch it
      have hapart : ¬Meets l va c b := by
        rintro ⟨x, hcx, -, hx⟩
        have := hslot x hx
        omega
      refine ⟨l, addr, desc, (h₂.outside va l addr desc (by omega) (by omega)).mpr ⟨hm, hapart⟩,
        fun x hx => ?_, fun he => hexact ⟨he.attributes, he.page, ?_⟩⟩
      · have := hslot x hx
        omega
      · have := he.fits
        omega
    · obtain ⟨l, addr, desc, hm, hslot, hexact⟩ := h₂.inside va hsecond hlt
      refine ⟨l, addr, desc, hm, fun x hx => ?_, fun he => ?_⟩
      · have := hslot x hx
        omega
      · have hshift := hout he
        have hfits := he.fits
        have hpage' := he.page
        have := hexact ⟨he.attributes, by omega, by omega⟩
        omega

/-- A block or page fills its slot. -/
theorem Shape.filled_leaf {v : Visit} (hs : Shape T h s) (ha : a < 2 ^ 40)
    (hbase : tableAt s.mem a T.ttL0Base level = some base) (hleaf : IsLeaf level desc)
    (haligned : a % slotSize level = 0) (hv : v.addr = slotAddr base level a)
    (hparts : Exact attributes out (slotSize level) → ∀ va,
      outputAddress level desc va = out + va % slotSize level ∧ attributesOf desc = attributes) :
    Filled T h level s a (a + slotSize level) out attributes [v]
      (s.write (slotAddr base level a) desc) := by
  have hlevel : 0 < level ∧ level ≤ 3 := by
    unfold IsLeaf at hleaf
    omega
  obtain ⟨htable, hused⟩ := hs.tableAt_isTable hlevel.2 hbase
  have hne (va : ℕ) (hnot : ¬(a ≤ va ∧ va < a + slotSize level)) :
      va / slotSize level ≠ a / slotSize level := fun heq => hnot ((slot_eq_iff haligned).mp heq)
  have hiff (va l addr d : ℕ) (hva : va < 2 ^ 40) (hnot : ¬(a ≤ va ∧ va < a + slotSize level)) :
      Maps T (s.write (slotAddr base level a) desc) va l addr d ↔ Maps T s va l addr d :=
    hs.maps_write_of_ne hlevel.2 ha hva hbase (hne va hnot)
  constructor
  · apply hs.keepsAbove_leaf htable hused (slotIndex_lt _ _) _ (by omega)
    intro hlast
    unfold IsLeaf at hleaf
    omega
  · intro va l addr d hva hnot
    rw [hiff va l addr d hva hnot]
    refine (and_iff_left_of_imp fun hm => ?_).symm
    rintro ⟨x, hax, hxb, hslot⟩
    have hx : x / slotSize level = a / slotSize level := (slot_eq_iff haligned).mpr ⟨hax, hxb⟩
    rcases Nat.lt_or_ge l level with habove | hbelow
    · -- the walk of the slot at hand passes through the levels above
      exact hm.tableAt_ne habove hlevel.2 hslot ((tableAt_eq_of_slot_eq hlevel.2 hx).trans hbase)
    · exact hne va hnot ((slot_eq_of_le hbelow hslot).symm.trans hx)
  · intro va l addr d hva hnot hm w hw
    have hm' := (hiff va l addr d hva hnot).mp hm
    have hl := hm'.level_le
    obtain ⟨⟨b, hb, rfl, -⟩, -⟩ := hm'
    rw [List.mem_singleton.mp hw, hv]
    exact (hs.slotAddr_ne hlevel.2 ha hva hbase (hne va hnot) hl hb).symm
  · intro va hle hlt
    have hslot : va / slotSize level = a / slotSize level := (slot_eq_iff haligned).mpr ⟨hle, hlt⟩
    refine ⟨level, slotAddr base level a, desc, ⟨⟨base, hs.tableAt_write hlevel.2 hbase hslot, ?_, ?_⟩,
      write_mem_self⟩, fun x hx => (slot_eq_iff haligned).mp (hx.trans hslot), fun he => ?_⟩
    · rw [slotIndex_eq_of_slot_eq hslot]
    · rw [write_mem_self]
      exact hleaf
    · rw [Nat.add_sub_cancel_left] at he
      have hsplit := Nat.div_add_mod va (slotSize level)
      have hsplit' := Nat.div_add_mod a (slotSize level)
      have hoffset : va % slotSize level = va - a := by
        rw [hslot] at hsplit
        omega
      rw [← hoffset]
      exact hparts he va

end Filled

section Link

/-- The tables between calls on regions of half `h`: a tree whose root refers to the level 1 table,
or to nothing while that table is empty. -/
structure Rooted (T : TableStorage) (h : ℕ) (s : TableState) : Prop where
  shape : Shape T h s
  root : s.mem (T.ttL0Base + 8 * h) = 0 ∧ (∀ k, k < 512 → s.mem (T.ttL1Base + 8 * k) = 0) ∨
    s.mem (T.ttL0Base + 8 * h) = T.ttL1Base + 3

/-- The descriptor of an address in the root. -/
theorem slotIndex_zero (hx : x < 2 ^ 40) (hhalf : x / 2 ^ 39 = h) : slotIndex 0 x = h := by
  unfold slotIndex slotSize
  omega

/-- The root stays when a call works below it. -/
theorem Rooted.of_keepsAbove (hs : Rooted T h s) (hx : x < 2 ^ 40) (hhalf : x / 2 ^ 39 = h)
    (hlevel : 0 < level) (hbase : tableAt s.mem x T.ttL0Base level = some base)
    (hkeeps : KeepsAbove T h level s s') : Rooted T h s' := by
  refine ⟨hkeeps.keeps.1, .inr ?_⟩
  have hl0 : IsTable T 0 T.ttL0Base := rfl
  obtain ⟨b, hb, hkind⟩ := tableAt_above hlevel hbase
  obtain rfl := Option.some.inj hb
  have hframe := hkeeps.frame 0 _ hlevel (hl0.isSlot x)
  rw [slotIndex_zero hx hhalf] at hkind hframe
  rw [hframe]
  rcases hs.root with ⟨hzero, -⟩ | hrefers
  · omega
  · exact hrefers

/-- What a reference to the table below a slot does: the walk of the slot's addresses goes on in that
table, which translates what it did before, and a block that was there is gone. -/
structure Linked (T : TableStorage) (h level : ℕ) (s : TableState) (x t : ℕ) (s' : TableState) :
    Prop where
  isTable : IsTable T (level + 1) t
  keeps : KeepsAbove T h level s s'
  rooted : Rooted T h s'
  table : tableAt s'.mem x T.ttL0Base (level + 1) = some t
  maps : ∀ va l addr desc, va < 2 ^ 40 → (Maps T s' va l addr desc ↔
    Maps T s va l addr desc ∧ ¬(l = level ∧ va / slotSize level = x / slotSize level))

/-- No address is translated below an empty table. -/
theorem not_maps_of_empty (hlevel : level < 3) (ht : tableAt s.mem va T.ttL0Base (level + 1) = some t)
    (hempty : s.mem (slotAddr t (level + 1) va) = 0) : ¬Maps T s va l addr desc := by
  intro hm
  obtain ⟨⟨base, hbase, rfl, hleaf⟩, -⟩ := id hm
  rcases lt_trichotomy l (level + 1) with hlt | rfl | hgt
  · exact hm.tableAt_ne hlt hlevel rfl ht
  · rw [ht] at hbase
    obtain rfl := Option.some.inj hbase
    rw [hempty] at hleaf
    unfold IsLeaf at hleaf
    omega
  · obtain ⟨t', ht', hkind⟩ := tableAt_above hgt hbase
    rw [ht] at ht'
    obtain rfl := Option.some.inj ht'
    rw [hempty] at hkind
    omega

/-- A new table is empty. -/
theorem Rooted.empty_of_selected (hs : Rooted T h s) (hx : x < 2 ^ 40) (hhalf : x / 2 ^ 39 = h)
    (hbase : tableAt s.mem x T.ttL0Base level = some base)
    (hkind : s.mem (slotAddr base level x) % 4 ≠ 3) (hsel : Selected T s level t s') {k : ℕ}
    (hk : k < 512) : s.mem (t + 8 * k) = 0 := by
  by_cases hlevel : level = 0
  · subst hlevel
    obtain rfl := Option.some.inj hbase
    have hl1 : t = T.ttL1Base := hsel.isTable
    have hl1' : IsTable T 1 T.ttL1Base := rfl
    have hbounds := hl1'.bounds
    rw [slotAddr, slotIndex_zero hx hhalf] at hkind
    rcases hs.root with ⟨-, hempty⟩ | hrefers
    · exact hl1 ▸ hempty k hk
    · omega
  · exact hs.shape.fresh _ t k hsel.isTable (hsel.not_used hlevel) hk

/-- Referring to the table below a slot. -/
theorem Rooted.link (hs : Rooted T h s) (hlevel : level < 3) (hx : x < 2 ^ 40)
    (hhalf : x / 2 ^ 39 = h) (hbase : tableAt s.mem x T.ttL0Base level = some base)
    (hn : ttBaseNextLevel (pgtGlobals 0) T level (s.mem (slotAddr base level x)) s = some (t, s₁)) :
    Used T s₁ (level + 1) t ∧
      Linked T h level s x t (s₁.write (slotAddr base level x) (t + 3)) := by
  obtain ⟨htable, hused⟩ := hs.shape.tableAt_isTable hlevel.le hbase
  have hroot : level = 0 → slotIndex level x = h := by
    rintro rfl
    exact slotIndex_zero hx hhalf
  obtain ⟨ht, htused, hmem, hkeeps⟩ :=
    hs.shape.link hlevel htable hused (slotIndex_lt _ _) hroot hn
  have hbounds := ht.bounds
  have hstore : (s₁.write (slotAddr base level x) (t + 3)).mem =
      (s.write (slotAddr base level x) (t + 3)).mem := by
    rw [TableState.write, TableState.write, hmem]
  have hbelow (va : ℕ) (hslot : va / slotSize level = x / slotSize level) :
      tableAt (s₁.write (slotAddr base level x) (t + 3)).mem va T.ttL0Base (level + 1) = some t := by
    have hindex := slotIndex_eq_of_slot_eq hslot
    rw [hstore]
    refine tableAt_succ_eq_some.mpr ⟨base, hs.shape.tableAt_write hlevel.le hbase hslot, ?_, ?_⟩
    · rw [hindex, write_mem_self]
      omega
    · rw [hindex, write_mem_self, nextTable_add_three ht]
  refine ⟨htused, ht, hkeeps, ?_, hbelow x rfl, ?_⟩
  · by_cases hzero : level = 0
    · subst hzero
      obtain rfl := Option.some.inj hbase
      have hl1 : t = T.ttL1Base := ht
      refine ⟨hkeeps.keeps.1, .inr ?_⟩
      rw [← hroot rfl, write_mem_self, hl1]
    · exact hs.of_keepsAbove hx hhalf (by omega) hbase hkeeps
  · intro va l addr desc hva
    have hwrite : Maps T (s₁.write (slotAddr base level x) (t + 3)) va l addr desc ↔
        Maps T (s.write (slotAddr base level x) (t + 3)) va l addr desc :=
      maps_congr fun _ _ _ _ => by rw [hstore]
    by_cases hslot : va / slotSize level = x / slotSize level
    · have hindex := slotIndex_eq_of_slot_eq hslot
      have hbase' : tableAt s.mem va T.ttL0Base level = some base :=
        (tableAt_eq_of_slot_eq hlevel.le hslot).trans hbase
      simp only [hslot, and_true]
      rcases ttBaseNextLevel_cases hs.shape hlevel (htable.isSlot x) hn with
        ⟨heq, -, -, -⟩ | ⟨hkind, hsel⟩
      · -- the descriptor already refers to the table, and is no block
        have hsame : Maps T (s.write (slotAddr base level x) (t + 3)) va l addr desc ↔
            Maps T s va l addr desc := by
          rw [← heq, TableState.write, Function.update_eq_self]
        rw [hwrite, hsame]
        refine (and_iff_left_of_imp ?_).symm
        rintro ⟨⟨b, hb, rfl, hleaf⟩, -⟩ rfl
        rw [hbase'] at hb
        obtain rfl := Option.some.inj hb
        rw [hindex, heq] at hleaf
        unfold IsLeaf at hleaf
        omega
      · -- the table is new and empty; until now only a block can have translated the address
        have hnew : ¬Maps T (s₁.write (slotAddr base level x) (t + 3)) va l addr desc := by
          apply not_maps_of_empty hlevel (hbelow va hslot)
          rw [hstore, htable.write_mem_of_slot (slotIndex_lt _ _) (ht.isSlot va) (by omega)]
          exact hs.empty_of_selected hx hhalf hbase hkind hsel (slotIndex_lt _ _)
        refine iff_of_false hnew ?_
        rintro ⟨hm, hne⟩
        obtain ⟨⟨b, hb, -, -⟩, -⟩ := id hm
        rcases lt_or_gt_of_ne hne with hlt | hgt
        · exact hm.tableAt_ne hlt hlevel.le rfl hbase'
        · obtain ⟨b', hb', hkind'⟩ := tableAt_above hgt hb
          rw [hbase'] at hb'
          obtain rfl := Option.some.inj hb'
          rw [hindex] at hkind'
          exact hkind hkind'
    · rw [hwrite, hs.shape.maps_write_of_ne hlevel.le hx hva hbase hslot]
      exact (and_iff_left fun hboth => hslot hboth.2).symm

end Link

section Fill

variable {d : TtDescriptor} {input output fuel depth : ℕ}
  {next : TtDescriptor → TableState → Outcome} {nextLog : TtDescriptor → TableState → List Visit}

/-- The end of the last page whose first address is before `top`. -/
def pageEnd (top : ℕ) : ℕ := (top + 4095) / 4096 * 4096

/-- What is left to do for a table: the addresses from `input`, which are all below the table and in
half `h`. -/
structure Filling (T : TableStorage) (h : ℕ) (s : TableState) (d : TtDescriptor) (input : ℕ) :
    Prop where
  level_le : d.level ≤ 3
  size : d.sizeLog2 = 39 - 9 * d.level
  index : ∀ va, va < 2 ^ 40 → d.tableIndex va = slotIndex d.level va
  table : tableAt s.mem input T.ttL0Base d.level = some d.ttBase
  start : input % 4096 = 0
  more : input < d.inputTop
  below : input / 2 ^ (48 - 9 * d.level) = d.inputTop / 2 ^ (48 - 9 * d.level)
  top : d.inputTop < 2 ^ 40
  lower : input / 2 ^ 39 = h
  upper : d.inputTop / 2 ^ 39 = h

namespace Filling

/-- The size of the slots of the table. -/
theorem blockSize_eq (hf : Filling T h s d input) : d.blockSize = slotSize d.level := by
  rw [TtDescriptor.blockSize, hf.size, slotSize]

/-- The descriptor the loop stores to is the one the walk reads. -/
theorem tableDesc_eq (hf : Filling T h s d input) :
    d.tableDesc input = slotAddr d.ttBase d.level input := by
  have hmore := hf.more
  have htop := hf.top
  rw [TtDescriptor.tableDesc, hf.index input (by omega)]

/-- The chunk at hand ends with the range or with its slot. -/
theorem chunk (hf : Filling T h s d input) :
    input < d.chunkTop input ∧ d.chunkTop input ≤ d.inputTop ∧
      d.chunkTop input = min d.inputTop
        (input / slotSize d.level * slotSize d.level + slotSize d.level - 1) ∧
      d.chunkSize input = d.chunkTop input - input + 1 ∧
      wrap64 (input + d.chunkSize input) = d.chunkTop input + 1 := by
  have hstart := hf.start
  have htop := hf.top
  have hsize := hf.size
  have hlevel := hf.level_le
  have hmore := hf.more
  obtain ⟨hle, hmin, hchunk, hnext⟩ :=
    TtDescriptor.chunk_bounds (by omega) hf.more (by omega)
  rw [hf.blockSize_eq] at hmin
  refine ⟨?_, by omega, hmin, hchunk, hnext⟩
  unfold slotSize at hmin
  clear hsize
  generalize d.level = l at *
  interval_cases l <;> simp only [Nat.reduceMul, Nat.reduceSub] at hmin <;> omega

/-- The chunk lies in one slot. -/
theorem chunk_slot (hf : Filling T h s d input) :
    d.chunkTop input / slotSize d.level = input / slotSize d.level := by
  obtain ⟨hlt, -, hmin, -, -⟩ := hf.chunk
  have hlevel := hf.level_le
  unfold slotSize at hmin ⊢
  generalize d.level = l at *
  interval_cases l <;> simp only [Nat.reduceMul, Nat.reduceSub] at hmin ⊢ <;> omega

/-- A chunk that is not the last one ends at a page boundary. -/
theorem chunk_aligned (hf : Filling T h s d input) (hmore : d.chunkTop input < d.inputTop) :
    (d.chunkTop input + 1) % 4096 = 0 := by
  obtain ⟨-, -, hmin, -, -⟩ := hf.chunk
  have hlevel := hf.level_le
  unfold slotSize at hmin
  generalize d.level = l at *
  interval_cases l <;> simp only [Nat.reduceMul, Nat.reduceSub] at hmin <;> omega

/-- In the root the chunk at hand is the whole range. -/
theorem chunk_root (hf : Filling T h s d input) (hroot : d.level = 0) :
    d.chunkTop input = d.inputTop := by
  obtain ⟨-, -, hmin, -, -⟩ := hf.chunk
  have hlower := hf.lower
  have hupper := hf.upper
  rw [hroot, slotSize] at hmin
  simp only [Nat.mul_zero, Nat.sub_zero] at hmin
  omega

/-- What is left to do for the table below the chunk at hand. -/
theorem nextLevel (hf : Filling T h s d input) (hlevel : d.level < 3)
    (htable : tableAt s'.mem input T.ttL0Base (d.level + 1) = some t) :
    Filling T h s' (d.nextLevel input (pgtGlobals 0) t output) input := by
  obtain ⟨hmore, hle, hmin, -, -⟩ := hf.chunk
  have htop := hf.top
  have hlower := hf.lower
  have hupper := hf.upper
  have hsize : d.sizeLog2 - 9 = 39 - 9 * (d.level + 1) := by rw [hf.size]; omega
  have hexp : 48 - 9 * (d.level + 1) = 39 - 9 * d.level := by omega
  simp only [TtDescriptor.nextLevel, pgtGlobals_zero]
  refine ⟨hlevel, hsize, fun va _ => ?_, htable, hf.start, hmore, ?_, hle.trans_lt htop, hlower, ?_⟩
  · have hnine : 2 ^ 9 = 512 := by norm_num
    rw [TtDescriptor.tableIndex_eq, TtDescriptor.blockSize, slotIndex, slotSize, hnine, hsize]
  · simp only [hexp]
    exact hf.chunk_slot.symm
  · exact le_antisymm (hupper ▸ Nat.div_le_div_right hle) (hlower ▸ Nat.div_le_div_right hmore.le)

/-- What is left to do after the chunk at hand. -/
theorem advance (hf : Filling T h s d input) (hs : Shape T h s)
    (hkeeps : KeepsAbove T h d.level s s') (hmore : d.chunkTop input + 1 < d.inputTop) :
    Filling T h s' d (d.chunkTop input + 1) := by
  obtain ⟨hchunk, -, -, -, -⟩ := hf.chunk
  have hlower := hf.lower
  have hupper := hf.upper
  have hlevel := hf.level_le
  have hbelow : (d.chunkTop input + 1) / 2 ^ (48 - 9 * d.level) =
      d.inputTop / 2 ^ (48 - 9 * d.level) := by
    apply le_antisymm (Nat.div_le_div_right hmore.le)
    rw [← hf.below]
    exact Nat.div_le_div_right (by omega)
  refine ⟨hlevel, hf.size, hf.index, ?_, hf.chunk_aligned (by omega), hmore, hbelow, hf.top, ?_,
    hupper⟩
  · rw [tableAt_congr, tableAt_eq_of_div_eq (by omega) (hbelow.trans hf.below.symm), hf.table]
    intro l base hl hbase
    obtain ⟨htable, -⟩ := hs.tableAt_isTable (by omega) hbase
    exact hkeeps.frame l _ hl (htable.isSlot _)
  · exact le_antisymm (hupper ▸ Nat.div_le_div_right hmore.le)
      (hlower ▸ Nat.div_le_div_right (by omega))

end Filling

/-- What the call for the next level is assumed to do. -/
def FillsBelow (T : TableStorage) (h attributes level : ℕ)
    (next : TtDescriptor → TableState → Outcome)
    (nextLog : TtDescriptor → TableState → List Visit) : Prop :=
  ∀ d s s', d.level = level + 1 → Rooted T h s → Filling T h s d d.inputBase →
    next d s = .ok (.success, s') →
    Filled T h d.level s d.inputBase (pageEnd d.inputTop) d.outputBase attributes (nextLog d s) s'

/-- A successful iteration of the loop fills the pages of its chunk. -/
theorem fillEntry_filled (hs : Rooted T h s) (hf : Filling T h s d input)
    (hattr : attributes &&& 2 = 0) (hroot : d.level = 0 → ¬d.BlockEligible input output)
    (hnext : d.level < 3 → FillsBelow T h attributes d.level next nextLog)
    (hrun : fillEntry (pgtGlobals 0) T attributes next d input output s = .ok (.success, s')) :
    Filled T h d.level s input (pageEnd (d.chunkTop input)) output attributes
      (entryLog (pgtGlobals 0) T attributes nextLog d input output s) s' := by
  obtain ⟨hmore, hle, hmin, -, -⟩ := hf.chunk
  have hlevel := hf.level_le
  have htop := hf.top
  have hstart := hf.start
  have hinput : input < 2 ^ 40 := by omega
  rcases entryLog_cases nextLog hrun with ⟨hlast, rfl, v, hlog, hv⟩ | ⟨hlast, heligible, rfl, v, hlog, hv⟩ |
    ⟨hlast, t, s₁, hn, hcall, v, hlog, hv⟩
  · -- a page
    have hfour : slotSize d.level = 4096 := by rw [slotSize, hlast]; norm_num
    have hend : pageEnd (d.chunkTop input) = input + slotSize d.level := by
      rw [hfour] at hmin ⊢
      unfold pageEnd
      omega
    rw [hlog, hend, hf.tableDesc_eq]
    apply hs.shape.filled_leaf hinput hf.table _ (by rw [hfour, hstart])
      (hv.trans hf.tableDesc_eq)
    · intro he va
      have hlt : output < 2 ^ 48 := by
        have := he.fits
        omega
      have hpage : output % slotSize d.level = 0 := by rw [hfour, he.page]
      rw [pageDescriptor_eq he.attributes he.page hlt]
      exact (descriptor_parts he.attributes (by norm_num) hpage hlevel hlt va).2
    · exact .inl ⟨hlast, pageDescriptor_mod_four _ _ _⟩
  · -- a block
    obtain ⟨haligned, houtput, hwhole⟩ := id heligible
    rw [TtDescriptor.blockSize, Nat.and_two_pow_sub_one_eq_mod, ← TtDescriptor.blockSize,
      hf.blockSize_eq] at haligned houtput
    have hlower : 0 < d.level := by
      by_contra hzero
      exact hroot (by omega) heligible
    have hsmall : slotSize d.level ≤ 2 ^ 39 := Nat.pow_le_pow_right (by norm_num) (by omega)
    have hpages : slotSize d.level % 4096 = 0 :=
      Nat.mod_eq_zero_of_dvd (Nat.pow_dvd_pow 2 (show 12 ≤ 39 - 9 * d.level by omega))
    rw [hf.blockSize_eq, wrap64_of_lt (by omega)] at hwhole
    have hend : pageEnd (d.chunkTop input) = input + slotSize d.level := by
      have hdiv := Nat.div_mul_cancel (Nat.dvd_of_mod_eq_zero haligned)
      unfold pageEnd
      omega
    rw [hlog, hend, hf.tableDesc_eq, hf.blockSize_eq]
    apply hs.shape.filled_leaf hinput hf.table _ haligned (hv.trans hf.tableDesc_eq)
    · intro he va
      have hlt : output < 2 ^ 48 := by
        have := he.fits
        have hpos : 0 < slotSize d.level := Nat.two_pow_pos _
        omega
      rw [blockDescriptor_eq he.attributes hlevel houtput hlt]
      exact (descriptor_parts he.attributes (by norm_num) houtput hlevel hlt va).2
    · refine .inr ⟨by omega, ?_⟩
      exact blockDescriptor_mod_four (by omega) (by omega) hattr
  · -- the tables below
    have hlt : d.level < 3 := by omega
    rw [hf.tableDesc_eq] at hn hcall hv
    obtain ⟨-, hlink⟩ := hs.link hlt hinput hf.lower hf.table hn
    rw [tableDescriptor_eq hlink.isTable] at hcall hlog
    have hfilled := hnext hlt _ _ _ rfl hlink.rooted (hf.nextLevel hlt hlink.table) hcall
    rw [hlog]
    rw [hf.tableDesc_eq]
    have hinside : input ≤ input ∧ input < pageEnd (d.chunkTop input) := by
      unfold pageEnd
      omega
    refine ⟨hlink.keeps.trans hfilled.keeps (Nat.le_succ _), ?_, ?_, hfilled.inside⟩
    · intro va l addr desc hva hnot
      have hbelow := hfilled.outside va l addr desc hva hnot
      rw [hlink.maps va l addr desc hva, and_assoc] at hbelow
      rw [hbelow]
      refine and_congr_right fun _ => and_iff_right_of_imp fun hmeets => ?_
      -- a block in the slot at hand reaches into the chunk
      rintro ⟨rfl, hslot⟩
      exact hmeets ⟨input, hinside.1, hinside.2, hslot.symm⟩
    · intro va l addr desc hva hnot hm w hw
      rcases List.mem_cons.mp hw with rfl | hw
      · rw [hv]
        rintro rfl
        -- the reference is still there, and is no block
        obtain ⟨htable, -⟩ := hs.shape.tableAt_isTable hlevel hf.table
        have hslot := htable.isSlot input
        have hbounds := hlink.isTable.bounds
        have hl := hm.level_le
        obtain ⟨⟨b, hb, haddr, hleaf⟩, -⟩ := hm
        obtain ⟨htable', -⟩ := hfilled.keeps.keeps.1.tableAt_isTable hl hb
        obtain ⟨rfl, -, -⟩ := htable'.slot_inj htable (slotIndex_lt _ _) (slotIndex_lt _ _) haddr.symm
        rw [hfilled.keeps.frame d.level _ (Nat.lt_succ_self _) hslot, write_mem_self] at hleaf
        unfold IsLeaf at hleaf
        omega
      · exact hfilled.untouched va l addr desc hva hnot hm w hw

/-- Past the end of its range the loop accesses nothing. -/
theorem loopLog_end {g : PgtGlobals} (hend : d.inputTop ≤ input) :
    loopLog g T attributes next nextLog d fuel input output s = [] := by
  cases fuel with
  | zero => rfl
  | succ fuel => rw [loopLog, if_neg (not_lt.mpr hend)]

/-- A successful loop fills the rest of the range. -/
theorem fillLoop_filled (hattr : attributes &&& 2 = 0)
    (hnext : d.level < 3 → FillsBelow T h attributes d.level next nextLog) (hs : Rooted T h s)
    (hf : Filling T h s d input) (hroot : d.level = 0 → ¬d.BlockEligible input output)
    (hrun : fillLoop (pgtGlobals 0) T attributes next d fuel input output s = .ok (.success, s')) :
    Filled T h d.level s input (pageEnd d.inputTop) output attributes
      (loopLog (pgtGlobals 0) T attributes next nextLog d fuel input output s) s' := by
  induction fuel generalizing input output s with
  | zero => exact nomatch hrun
  | succ fuel ih =>
    obtain ⟨hchunk, hle, -, hsize, hadvance⟩ := hf.chunk
    have htop := hf.top
    have hstart := hf.start
    rcases loopLog_cases nextLog hrun with ⟨hend, -, -⟩ | ⟨hmore, s₁, hentry, hrest, hlog⟩
    · exact absurd hf.more (not_lt.mpr hend)
    · rw [hlog]
      have hfilled := fillEntry_filled hs hf hattr hroot hnext hentry
      rw [hadvance] at hrest ⊢
      by_cases hlast : d.inputTop ≤ d.chunkTop input + 1
      · -- the chunk was the last one
        have hend : pageEnd (d.chunkTop input) = pageEnd d.inputTop := by
          rcases hle.lt_or_eq with hlt | heq
          · have haligned := hf.chunk_aligned hlt
            unfold pageEnd
            omega
          · rw [heq]
        obtain ⟨-, rfl⟩ := fillLoop_end hlast hrest
        rw [loopLog_end hlast, List.append_nil, ← hend]
        exact hfilled
      · have haligned := hf.chunk_aligned (by omega)
        have hend : pageEnd (d.chunkTop input) = d.chunkTop input + 1 := by
          unfold pageEnd
          omega
        have hlevel : 0 < d.level := by
          by_contra hzero
          have := hf.chunk_root (by omega)
          omega
        rw [hend] at hfilled
        have hf' := hf.advance hs.shape hfilled.keeps (by omega)
        have hrooted := hs.of_keepsAbove (by omega) hf.lower hlevel hf.table hfilled.keeps
        have hothers := ih hrooted hf' (by omega) hrest
        refine hfilled.trans hothers (by omega) ?_ ?_ (by omega) ?_
        · unfold pageEnd
          omega
        · unfold pageEnd
          omega
        · intro he
          have hfits := he.fits
          have hbound : d.inputTop ≤ pageEnd d.inputTop := by
            unfold pageEnd
            omega
          rw [wrap64_of_lt (by omega)]
          omega

/-- A successful call fills the pages of its range. -/
theorem fillTranslationTable_filled (hdepth : d.level + depth = 3) (hattr : attributes &&& 2 = 0)
    (hs : Rooted T h s) (hf : Filling T h s d d.inputBase)
    (hroot : d.level = 0 → ¬d.BlockEligible d.inputBase d.outputBase)
    (hrun : fillTranslationTable (pgtGlobals 0) T attributes fuel depth d s = .ok (.success, s')) :
    Filled T h d.level s d.inputBase (pageEnd d.inputTop) d.outputBase attributes
      (fillLog (pgtGlobals 0) T attributes fuel depth d s) s' := by
  induction depth generalizing d s s' with
  | zero =>
    obtain ⟨hloop, hlog⟩ := fillLog_zero_cases hrun
    rw [hlog]
    exact fillLoop_filled hattr (by omega) hs hf hroot hloop
  | succ depth ih =>
    obtain ⟨hloop, hlog⟩ := fillLog_succ_cases hrun
    rw [hlog]
    refine fillLoop_filled hattr (fun _ => ?_) hs hf hroot hloop
    intro d' s₁ s₂ hlevel hs₁ hf₁ hcall
    exact ih (by omega) hs₁ hf₁ (by omega) hcall

end Fill

section Create

variable {pgt : PgtDescriptor} {r : MemoryRegion} {fuel : ℕ} {st : Status}

/-- The regions in half `h` of the input address space that leave the tables in order: the attributes
leave the type bit of a descriptor clear, and the region is not one block of level 0, which no walk
accepts. A region of no bytes at address 0 would not end. -/
structure InTables (h : ℕ) (r : MemoryRegion) : Prop where
  lower : 2 ^ 39 * h ≤ r.virtualAddress % 2 ^ 40
  upper : r.virtualAddress % 2 ^ 40 + r.length ≤ 2 ^ 39 * (h + 1)
  last_pos : 0 < r.virtualAddress % 2 ^ 40 + r.length
  attributes : r.attributes &&& 2 = 0
  not_half : ¬(r.length = 2 ^ 39 ∧ r.physicalAddress % 2 ^ 39 = 0)

/-- The last address of such a region. -/
theorem InTables.top_eq (hr : InTables h r) :
    sub64 (wrap64 (r.virtualAddress % 2 ^ 40 + r.length)) 1 =
      r.virtualAddress % 2 ^ 40 + r.length - 1 := by
  have hlower := hr.lower
  have hupper := hr.upper
  have hpos := hr.last_pos
  rw [wrap64_of_lt (by omega), sub64_of_le (by omega) (by omega)]

/-- What is left to do at the root. -/
theorem InTables.filling (hr : InTables h r) (haligned : r.virtualAddress % 4096 = 0)
    (hmore : 1 < r.length) :
    Filling T h s (rootCall T (r.virtualAddress % 2 ^ 40) (r.virtualAddress % 2 ^ 40 + r.length - 1)
      out) (r.virtualAddress % 2 ^ 40) := by
  have hlower := hr.lower
  have hupper := hr.upper
  simp only [rootCall]
  refine ⟨Nat.zero_le 3, rfl, fun va hva => ?_, rfl, by omega, ?_, ?_, ?_, by omega, ?_⟩
  · rw [TtDescriptor.tableIndex_eq]
    simp only [TtDescriptor.blockSize, slotIndex, slotSize]
    omega
  all_goals
    simp only
    omega

/-- The region is not described by one block of level 0. -/
theorem InTables.not_eligible (hr : InTables h r) :
    ¬(rootCall T (r.virtualAddress % 2 ^ 40) (r.virtualAddress % 2 ^ 40 + r.length - 1)
      r.physicalAddress).BlockEligible (r.virtualAddress % 2 ^ 40) r.physicalAddress := by
  have hlower := hr.lower
  have hupper := hr.upper
  have hhalf := hr.not_half
  rintro ⟨hinput, houtput, hfits⟩
  rw [TtDescriptor.blockSize, Nat.and_two_pow_sub_one_eq_mod] at hinput houtput
  rw [TtDescriptor.blockSize] at hfits
  simp only [rootCall] at hinput houtput hfits
  rw [wrap64_of_lt (by omega)] at hfits
  omega

/-- The iteration at the root keeps the tables in order, whatever its status. -/
theorem rootEntry_rooted {output : ℕ} (hs : Rooted T h s)
    (hf : Filling T h s (rootCall T a b output) a) (hattr : attributes &&& 2 = 0)
    (hblock : ¬(rootCall T a b output).BlockEligible a output)
    (hrun : fillEntry (pgtGlobals 0) T attributes
      (fillTranslationTable (pgtGlobals 0) T attributes fuel 2) (rootCall T a b output) a output s =
        .ok (st, s')) : Rooted T h s' := by
  have hmore := hf.more
  have htop := hf.top
  rcases fillEntry_cases hrun with ⟨-, rfl⟩ | ⟨-, ⟨hlast, -⟩ | ⟨-, heligible, -⟩ |
    ⟨-, -, t, s₁, hn, hcall⟩⟩
  · exact hs
  · exact nomatch hlast
  · exact absurd heligible hblock
  · rw [hf.tableDesc_eq] at hn hcall
    have hzero : (0 : ℕ) < 3 := by norm_num
    obtain ⟨hused, hlink⟩ := hs.link hzero (by omega) hf.lower hf.table hn
    rw [tableDescriptor_eq hlink.isTable] at hcall
    have hd : OnTable T s (rootCall T a b output) := ⟨rfl, trivial, rfl⟩
    have hkeeps := fillTranslationTable_keeps rfl Nat.zero_lt_one hattr hlink.rooted.shape
      (hd.nextLevel hzero hlink.isTable (used_write.mpr hused)) hcall
    exact hlink.rooted.of_keepsAbove (by omega) hf.lower Nat.zero_lt_one hlink.table hkeeps

/-- A call on a region in one half keeps the tables in order, whatever its status. -/
theorem valPgtCreate_rooted (hias : pgt.ias = 40) (httbr : pgt.ttbr = T.ttL0Base)
    (hs : Rooted T h s) (hr : InTables h r)
    (hrun : valPgtCreate 0 T fuel pgt r s = .ok (st, s')) : Rooted T h s' := by
  rcases accepted_of_valPgtCreate hrun with ⟨-, rfl⟩ | ⟨attributes, haccepted⟩
  · exact hs
  rw [valPgtCreate_eq hias httbr haccepted, hr.top_eq] at hrun
  have hattr := stageAttributes_land_two hr.attributes haccepted.stage
  rcases fillTranslationTable_succ_cases hrun with ⟨-, rfl⟩ | hloop
  · exact hs
  cases fuel with
  | zero => exact nomatch hloop
  | succ fuel =>
    rcases fillLoop_cases hloop with ⟨-, -, rfl⟩ | ⟨hmore, hentry⟩
    · exact hs
    · have hlength : 1 < r.length := by
        simp only [rootCall] at hmore
        omega
      have hf : Filling T h s (rootCall T (r.virtualAddress % 2 ^ 40)
          (r.virtualAddress % 2 ^ 40 + r.length - 1) r.physicalAddress) (r.virtualAddress % 2 ^ 40) :=
        hr.filling haccepted.virtualAligned hlength
      rcases hentry with ⟨-, hentry⟩ | ⟨s₁, hentry, hrest⟩
      · exact rootEntry_rooted hs hf hattr hr.not_eligible hentry
      · -- the first iteration is the only one
        have hadvance := hf.chunk.2.2.2.2
        rw [hf.chunk_root rfl] at hadvance
        simp only [rootCall] at hadvance hrest
        obtain ⟨-, rfl⟩ := fillLoop_end (by rw [hadvance]; exact Nat.le_succ _) hrest
        exact rootEntry_rooted hs hf hattr hr.not_eligible hentry

/-- A successful call fills the pages of its region, except for one of which the region has the first
byte only. -/
theorem valPgtCreate_filled (hias : pgt.ias = 40) (httbr : pgt.ttbr = T.ttL0Base)
    (hs : Rooted T h s) (hr : InTables h r)
    (hrun : valPgtCreate 0 T fuel pgt r s = .ok (.success, s')) :
    ∃ attributes, Accepted pgt r attributes ∧
      Filled T h 0 s (r.virtualAddress % 2 ^ 40) (pageEnd (r.virtualAddress % 2 ^ 40 + r.length - 1))
        r.physicalAddress attributes (createLog 0 T fuel pgt r s) s' := by
  obtain ⟨attributes, haccepted⟩ := accepted_of_success hrun
  refine ⟨attributes, haccepted, ?_⟩
  rw [createLog_eq hias httbr haccepted, hr.top_eq]
  rw [valPgtCreate_eq hias httbr haccepted, hr.top_eq] at hrun
  have hattr := stageAttributes_land_two hr.attributes haccepted.stage
  have haligned := haccepted.virtualAligned
  by_cases hmore : 1 < r.length
  · exact fillTranslationTable_filled rfl hattr hs (hr.filling haligned hmore)
      (fun _ => hr.not_eligible) hrun
  · have hpos := hr.last_pos
    obtain ⟨hloop, hlog⟩ := fillLog_succ_cases hrun
    have hend : (rootCall T (r.virtualAddress % 2 ^ 40) (r.virtualAddress % 2 ^ 40 + r.length - 1)
        r.physicalAddress).inputTop ≤
          (rootCall T (r.virtualAddress % 2 ^ 40) (r.virtualAddress % 2 ^ 40 + r.length - 1)
            r.physicalAddress).inputBase := by
      simp only [rootCall]
      omega
    have hempty : pageEnd (r.virtualAddress % 2 ^ 40 + r.length - 1) = r.virtualAddress % 2 ^ 40 := by
      unfold pageEnd
      omega
    obtain ⟨-, rfl⟩ := fillLoop_end hend hloop
    rw [hlog, loopLog_end hend, hempty]
    exact .refl hs.shape

/-- Zeroed storage is in order. -/
theorem Zeroed.rooted (hz : Zeroed T s) (hh : h < 512) : Rooted T h s := by
  have hl0 : IsTable T 0 T.ttL0Base := rfl
  have hl1 : IsTable T 1 T.ttL1Base := rfl
  exact ⟨hz.shape h, .inl ⟨hz.slot ⟨_, h, hl0, hh, rfl⟩, fun k hk => hz.slot ⟨_, k, hl1, hk, rfl⟩⟩⟩

/-- Zeroed storage translates nothing. -/
theorem Zeroed.not_maps (hz : Zeroed T s) : ¬Maps T s va level addr desc := by
  intro hm
  have hlevel := hm.level_le
  obtain ⟨⟨base, hbase, rfl, hleaf⟩, -⟩ := hm
  obtain ⟨htable, -⟩ := (hz.shape 0).tableAt_isTable hlevel hbase
  rw [hz.slot (htable.isSlot va)] at hleaf
  unfold IsLeaf at hleaf
  omega

end Create

end FfaAcs.PageTable
