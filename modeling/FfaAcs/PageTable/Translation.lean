import FfaAcs.PageTable.Create

/-!
# The descriptor that translates an address

The translation of an address is read from one block or page descriptor, and an address without one
faults. A store changes the translation of the addresses of its slot only: in a tree no other address
is looked up through that slot. What a block or page descriptor says is read back from its fields,
provided the attributes do not reach into the others.
-/

namespace FfaAcs.PageTable

open Machine

variable {T : TableStorage} {s s' : TableState} {h level l base va x addr desc v b a : ℕ}

section Maps

/-- The descriptor of an address at the level of a table. -/
abbrev slotAddr (base level va : ℕ) : ℕ := base + 8 * slotIndex level va

/-- The block or page descriptor that translates an address, with its level and its value. -/
structure Maps (T : TableStorage) (s : TableState) (va level addr desc : ℕ) : Prop where
  translated : TranslatedBy T s va level addr
  value : s.mem addr = desc

/-- A block or page is at level 3 or above. -/
theorem Maps.level_le (hm : Maps T s va level addr desc) : level ≤ 3 := by
  obtain ⟨⟨base, -, -, hleaf⟩, -⟩ := hm
  unfold IsLeaf at hleaf
  omega

/-- The walk of an address ends at the descriptor that translates it. -/
theorem Maps.walk (hm : Maps T s va level addr desc) :
    walk s.mem va T.ttL0Base = some (outputAddress level desc va, attributesOf desc) := by
  obtain ⟨⟨base, hbase, rfl, hleaf⟩, rfl⟩ := hm
  exact walk_eq_of_leaf hbase hleaf

/-- An address without such a descriptor faults. -/
theorem walk_eq_none (h : ∀ level addr desc, ¬Maps T s va level addr desc) :
    walk s.mem va T.ttL0Base = none := by
  by_contra hne
  obtain ⟨p, hp⟩ := Option.ne_none_iff_exists'.mp hne
  obtain ⟨level, base, hbase, hleaf⟩ := exists_leaf_of_walk hp
  exact h level _ _ ⟨⟨base, hbase, rfl, hleaf⟩, rfl⟩

/-- The descriptors that translate an address determine its translation. -/
theorem walk_eq_of_maps_iff
    (h : ∀ level addr desc, Maps T s' va level addr desc ↔ Maps T s va level addr desc) :
    PageTable.walk s'.mem va T.ttL0Base = PageTable.walk s.mem va T.ttL0Base := by
  by_cases hmapped : ∃ level addr desc, Maps T s va level addr desc
  · obtain ⟨level, addr, desc, hm⟩ := hmapped
    rw [hm.walk, ((h level addr desc).mpr hm).walk]
  · rw [walk_eq_none fun level addr desc hm => hmapped ⟨level, addr, desc, hm⟩,
      walk_eq_none fun level addr desc hm => hmapped ⟨level, addr, desc, (h level addr desc).mp hm⟩]

/-- No table is looked up below a block. -/
theorem Maps.tableAt_ne (hm : Maps T s va l addr desc) (hl : l < level) (hlevel : level ≤ 3)
    (hslot : x / slotSize l = va / slotSize l) : tableAt s.mem x T.ttL0Base level ≠ some b := by
  intro hb
  obtain ⟨⟨base, hbase, rfl, hleaf⟩, -⟩ := hm
  obtain ⟨base', hbase', hkind⟩ := tableAt_above hl hb
  rw [tableAt_eq_of_slot_eq (by omega) hslot, hbase] at hbase'
  obtain rfl := Option.some.inj hbase'
  rw [slotIndex_eq_of_slot_eq hslot] at hkind
  unfold IsLeaf at hleaf
  omega

/-- An address is translated at one level. -/
theorem Maps.level_eq {addr' desc' : ℕ} (hm : Maps T s va level addr desc)
    (hm' : Maps T s va l addr' desc') : level = l := by
  obtain ⟨⟨base, hbase, -, -⟩, -⟩ := id hm
  obtain ⟨⟨base', hbase', -, -⟩, -⟩ := id hm'
  rcases lt_trichotomy level l with hlt | heq | hlt
  · exact absurd hbase' (hm.tableAt_ne hlt hm'.level_le rfl)
  · exact heq
  · exact absurd hbase (hm'.tableAt_ne hlt hm.level_le rfl)

/-- Whether an address is translated depends on the descriptors its walk reads. -/
theorem maps_congr (h : ∀ l b, l ≤ 3 → tableAt s.mem va T.ttL0Base l = some b →
      s'.mem (slotAddr b l va) = s.mem (slotAddr b l va)) :
    Maps T s' va level addr desc ↔ Maps T s va level addr desc := by
  have htable (l : ℕ) (hl : l ≤ 3) : tableAt s'.mem va T.ttL0Base l = tableAt s.mem va T.ttL0Base l :=
    tableAt_congr fun j b hj hb => h j b (by omega) hb
  constructor
  · intro hm
    have hlevel := hm.level_le
    obtain ⟨⟨base, hbase, rfl, hleaf⟩, rfl⟩ := hm
    rw [htable level hlevel] at hbase
    have hsame := h level base hlevel hbase
    exact ⟨⟨base, hbase, rfl, hsame ▸ hleaf⟩, hsame.symm⟩
  · intro hm
    have hlevel := hm.level_le
    obtain ⟨⟨base, hbase, rfl, hleaf⟩, rfl⟩ := hm
    have hsame := h level base hlevel hbase
    exact ⟨⟨base, (htable level hlevel).trans hbase, rfl, hsame.symm ▸ hleaf⟩, hsame⟩

end Maps

section Stores

/-- A store at the level of a slot leaves the tables above it. -/
theorem Shape.tableAt_write (hs : Shape T h s) (hlevel : level ≤ 3)
    (hbase : tableAt s.mem x T.ttL0Base level = some base)
    (hslot : va / slotSize level = x / slotSize level) :
    tableAt (s.write (slotAddr base level x) v).mem va T.ttL0Base level = some base := by
  rw [tableAt_congr, tableAt_eq_of_slot_eq hlevel hslot, hbase]
  intro l b hl hb
  obtain ⟨htable, -⟩ := hs.tableAt_isTable hlevel hbase
  obtain ⟨htable', -⟩ := hs.tableAt_isTable (by omega) hb
  exact htable.write_mem_of_slot (slotIndex_lt _ _) (htable'.isSlot va) (by omega)

/-- In a tree the walk of an address does not read the descriptors of other slots. -/
theorem Shape.slotAddr_ne (hs : Shape T h s) (hlevel : level ≤ 3) (hx : x < 2 ^ 40)
    (hva : va < 2 ^ 40) (hbase : tableAt s.mem x T.ttL0Base level = some base)
    (hslot : va / slotSize level ≠ x / slotSize level) (hl : l ≤ 3)
    (hb : tableAt s.mem va T.ttL0Base l = some b) : slotAddr b l va ≠ slotAddr base level x := by
  intro heq
  obtain ⟨htable, -⟩ := hs.tableAt_isTable hlevel hbase
  obtain ⟨htable', -⟩ := hs.tableAt_isTable hl hb
  obtain ⟨rfl, rfl, hindex⟩ := htable'.slot_inj htable (slotIndex_lt l va) (slotIndex_lt level x) heq
  exact hslot (div_eq_of_slotIndex_eq hlevel (hs.div_eq_of_tableAt hlevel hva hx hb hbase) hindex)

/-- A store changes the translation of the addresses of its slot only. -/
theorem Shape.maps_write_of_ne (hs : Shape T h s) (hlevel : level ≤ 3) (hx : x < 2 ^ 40)
    (hva : va < 2 ^ 40) (hbase : tableAt s.mem x T.ttL0Base level = some base)
    (hslot : va / slotSize level ≠ x / slotSize level) :
    Maps T (s.write (slotAddr base level x) v) va l addr desc ↔ Maps T s va l addr desc :=
  maps_congr fun _ _ hj hb => write_mem_of_ne (hs.slotAddr_ne hlevel hx hva hbase hslot hj hb)

/-- The addresses of the slot that starts at `a`. -/
theorem slot_eq_iff (ha : a % slotSize level = 0) :
    va / slotSize level = a / slotSize level ↔ a ≤ va ∧ va < a + slotSize level := by
  have hpos : 0 < slotSize level := Nat.two_pow_pos _
  have hsplit := Nat.div_add_mod va (slotSize level)
  have hsplit' := Nat.div_add_mod a (slotSize level)
  have hmod := Nat.mod_lt va hpos
  constructor
  · intro hdiv
    rw [hdiv] at hsplit
    omega
  · rintro ⟨hle, hlt⟩
    rw [Nat.div_eq_iff hpos]
    rw [ha, Nat.add_zero, Nat.mul_comm] at hsplit'
    omega

/-- Addresses of one slot share the larger slots of the levels above. -/
theorem slot_eq_of_le (hle : level ≤ l) (hslot : x / slotSize l = va / slotSize l) :
    x / slotSize level = va / slotSize level := by
  have hsplit : slotSize level = slotSize l * 2 ^ (39 - 9 * level - (39 - 9 * l)) := by
    rw [slotSize, slotSize, ← pow_add]
    congr 1
    omega
  rw [hsplit, ← Nat.div_div_eq_div_mul, ← Nat.div_div_eq_div_mul, hslot]

end Stores

section Descriptors

variable {c output attributes : ℕ}

/-- Attributes that leave the address and the kind of a descriptor alone. -/
structure PureAttributes (attributes : ℕ) : Prop where
  address : attributes &&& ((2 ^ 36 - 1) <<< 12) = 0
  kind : attributes &&& 3 = 0

/-- The kind, the address and the attributes of a descriptor do not overlap. -/
theorem descriptor_eq_add (ha : PureAttributes attributes) (hc : c < 4) (hout : output % 4096 = 0)
    (hlt : output < 2 ^ 48) : c ||| output ||| attributes = c + output + attributes := by
  have hkind : c &&& 3 = c := Nat.and_two_pow_sub_one_of_lt_two_pow (n := 2) hc
  have haddress : output &&& ((2 ^ 36 - 1) <<< 12) = output := by
    rw [land_shiftLeft_two_pow_sub_one]
    omega
  have hlow : c &&& output = 0 := by
    have hmod : output &&& 3 = output % 4 := Nat.and_two_pow_sub_one_eq_mod output 2
    rw [← hkind, Nat.and_assoc, Nat.and_comm 3, hmod]
    have hfour : output % 4 = 0 := by omega
    rw [hfour, Nat.and_zero]
  have hattr : (c ||| output) &&& attributes = 0 := by
    rw [Nat.and_or_distrib_right, ← hkind, ← haddress, Nat.and_assoc, Nat.and_comm 3, ha.kind,
      Nat.and_assoc, Nat.and_comm _ attributes, ha.address, Nat.and_zero, Nat.and_zero]
    rfl
  rw [lor_eq_add hattr, lor_eq_add hlow]

/-- Reading a descriptor back: its kind, the address it translates to, and its attributes. -/
theorem descriptor_parts (ha : PureAttributes attributes) (hc : c < 4)
    (hout : output % slotSize level = 0) (hlevel : level ≤ 3) (hlt : output < 2 ^ 48) (va : ℕ) :
    (c + output + attributes) % 4 = c ∧
      outputAddress level (c + output + attributes) va = output + va % slotSize level ∧
      attributesOf (c + output + attributes) = attributes := by
  have hkind : attributes % 4 = 0 := by
    have hmod : attributes &&& 3 = attributes % 4 := Nat.and_two_pow_sub_one_eq_mod attributes 2
    rw [← hmod, ha.kind]
  have haddress : attributes / 2 ^ 12 % 2 ^ 36 = 0 := by
    have hland := land_shiftLeft_two_pow_sub_one attributes 12 36
    rw [ha.address] at hland
    omega
  unfold outputAddress attributesOf nextTable
  unfold slotSize at *
  interval_cases level <;> simp only [Nat.reduceMul, Nat.reduceSub] at hout ⊢ <;> omega

/-- The value of a page descriptor. -/
theorem pageDescriptor_eq (ha : PureAttributes attributes) (hout : output % 4096 = 0)
    (hlt : output < 2 ^ 48) :
    pageDescriptor (pgtGlobals 0) output attributes = 3 + output + attributes := by
  have hround : output &&& not64 (2 ^ 12 - 1) = output := by
    rw [land_not64 (by norm_num) (by omega)]
    omega
  calc pageDescriptor (pgtGlobals 0) output attributes =
        3 ||| (output &&& not64 (2 ^ 12 - 1)) ||| attributes := by
        rw [pageDescriptor, pgtGlobals_zero]
        rfl
    _ = 3 + output + attributes := by
        rw [hround, descriptor_eq_add ha (by norm_num) hout hlt]

/-- A page descriptor has the kind of a page, whatever its attributes. -/
theorem pageDescriptor_mod_four (g : PgtGlobals) (output attributes : ℕ) :
    pageDescriptor g output attributes % 4 = 3 := by
  have hfour : 4 = 2 ^ 2 := rfl
  rw [pageDescriptor, hfour, Nat.or_mod_two_pow, Nat.or_mod_two_pow]
  have hlow := Nat.mod_lt (output &&& not64 (g.pageSize - 1)) (show 0 < 2 ^ 2 by norm_num)
  have hhigh := Nat.mod_lt attributes (show 0 < 2 ^ 2 by norm_num)
  generalize (output &&& not64 (g.pageSize - 1)) % 2 ^ 2 = m at hlow ⊢
  generalize attributes % 2 ^ 2 = n at hhigh ⊢
  interval_cases m <;> interval_cases n <;> rfl

/-- The value of a block descriptor. -/
theorem blockDescriptor_eq (ha : PureAttributes attributes) (hlevel : level ≤ 3)
    (hout : output % slotSize level = 0) (hlt : output < 2 ^ 48) :
    blockDescriptor (slotSize level) output attributes = 1 + output + attributes := by
  have hround : output &&& not64 (slotSize level - 1) = output := by
    have hdiv := Nat.div_add_mod' output (slotSize level)
    unfold slotSize at *
    rw [land_not64 (by omega) (by omega)]
    omega
  have hpage : output % 4096 = 0 := by
    unfold slotSize at hout
    interval_cases level <;> simp only [Nat.reduceMul, Nat.reduceSub] at hout <;> omega
  rw [← descriptor_eq_add ha (by norm_num) hpage hlt, blockDescriptor, hround]
  rfl

end Descriptors

end FfaAcs.PageTable
