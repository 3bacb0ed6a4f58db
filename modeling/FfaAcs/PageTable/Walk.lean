import FfaAcs.PageTable.Fill

/-!
# The architectural table walk

With the 4K granule and a 40-bit input address the translation tables have four levels. Level 0
resolves bit 39 of an address, and the levels below nine bits each, down to bit 12. The walk
reads one descriptor per level, whose low two bits give its kind. At levels 0 to 2 a descriptor
may refer to a table of the next level, at levels 1 and 2 it may be a block, and at level 3 it
may be a page; everything else is a translation fault. Bits 47:12 hold an address, and the
remaining bits above 1:0 are the attributes.

This module is the reading side only. It does not mention how tables are built.
-/

namespace FfaAcs.PageTable

/-- The bytes one descriptor of a level translates. -/
def slotSize (level : ℕ) : ℕ := 2 ^ (39 - 9 * level)

/-- The index of an address in its table of a level. -/
def slotIndex (level va : ℕ) : ℕ := va / slotSize level % 512

/-- Bits 47:12 of a descriptor, in place. -/
def nextTable (desc : ℕ) : ℕ := desc / 2 ^ 12 % 2 ^ 36 * 2 ^ 12

/-- The bits of a descriptor that are neither its kind nor its address. -/
def attributesOf (desc : ℕ) : ℕ := desc - nextTable desc - desc % 4

/-- The translation by a block or page descriptor: bits 47 and down to the level's size come
from the descriptor, the lower ones from the input address. -/
def outputAddress (level desc va : ℕ) : ℕ :=
  desc % 2 ^ 48 / slotSize level * slotSize level + va % slotSize level

/-- The kinds of a block at levels 1 and 2 and of a page at level 3. -/
def IsLeaf (level desc : ℕ) : Prop :=
  level = 3 ∧ desc % 4 = 3 ∨ (level = 1 ∨ level = 2) ∧ desc % 4 = 1

instance (level desc : ℕ) : Decidable (IsLeaf level desc) := inferInstanceAs (Decidable (_ ∨ _))

section Walk

variable (mem : ℕ → ℕ) (va : ℕ)

/-- The walk at one level, whose table is at `base`; `next` continues it in the next table. -/
def walkLevel (level base : ℕ) (next : ℕ → Option (ℕ × ℕ)) : Option (ℕ × ℕ) :=
  let desc := mem (base + 8 * slotIndex level va)
  if IsLeaf level desc then some (outputAddress level desc va, attributesOf desc)
  else if desc % 4 = 3 then next (nextTable desc)
  else none

/-- The walk from a table that is `n` levels above level 3. -/
def walkFrom : ℕ → ℕ → Option (ℕ × ℕ)
  | 0, base => walkLevel mem va 3 base fun _ => none
  | n + 1, base => walkLevel mem va (2 - n) base (walkFrom n)

/-- The output address and the attributes of an input address, or a fault. -/
def walk (root : ℕ) : Option (ℕ × ℕ) := walkFrom mem va 3 root

/-- The table the walk of an address reads at a level, if it gets there. -/
def tableAt (root : ℕ) : ℕ → Option ℕ
  | 0 => some root
  | level + 1 =>
    (tableAt root level).bind fun base =>
      let desc := mem (base + 8 * slotIndex level va)
      if desc % 4 = 3 then some (nextTable desc) else none

end Walk

variable {mem mem' : ℕ → ℕ} {va x root level base : ℕ}

/-- An index is below the number of descriptors in a table. -/
theorem slotIndex_lt (level va : ℕ) : slotIndex level va < 512 := Nat.mod_lt _ (by norm_num)

/-- A table below the root was found through a table descriptor. -/
theorem tableAt_succ_eq_some {t : ℕ} :
    tableAt mem va root (level + 1) = some t ↔
      ∃ base, tableAt mem va root level = some base ∧
        mem (base + 8 * slotIndex level va) % 4 = 3 ∧
        nextTable (mem (base + 8 * slotIndex level va)) = t := by
  rw [tableAt, Option.bind_eq_some_iff]
  apply exists_congr
  intro base
  apply and_congr_right
  intro _
  simp only [Option.ite_none_right_eq_some, Option.some.injEq]

/-- The walk passes through the tables it reads. -/
theorem walk_eq_walkFrom (hlevel : level ≤ 3) (h : tableAt mem va root level = some base) :
    walk mem va root = walkFrom mem va (3 - level) base := by
  induction level generalizing base with
  | zero =>
    rw [tableAt, Option.some.injEq] at h
    rw [walk, h]
  | succ level ih =>
    obtain ⟨b, hb, hkind, hnext⟩ := tableAt_succ_eq_some.mp h
    have hleaf : ¬IsLeaf level (mem (b + 8 * slotIndex level va)) := by
      unfold IsLeaf
      omega
    have hsteps : 3 - level = (2 - level) + 1 := by omega
    have hback : 2 - (2 - level) = level := by omega
    rw [ih (by omega) hb, hsteps, walkFrom, hback, walkLevel, if_neg hleaf, if_pos hkind, hnext,
      Nat.add_comm level 1, ← Nat.sub_sub]

/-- The table of an address depends only on the descriptors above it. -/
theorem tableAt_congr (h : ∀ l base, l < level → tableAt mem va root l = some base →
      mem' (base + 8 * slotIndex l va) = mem (base + 8 * slotIndex l va)) :
    tableAt mem' va root level = tableAt mem va root level := by
  induction level with
  | zero => rfl
  | succ level ih =>
    have hsame := ih fun l base hl => h l base (by omega)
    rw [tableAt, tableAt, hsame]
    cases hbase : tableAt mem va root level with
    | none => rfl
    | some base => simp only [Option.bind_some, h level base (by omega) hbase]

/-- The index at a level is determined by the address bits above the next level. -/
theorem slotIndex_eq_of_div_eq {l : ℕ} (hl : l < level) (hlevel : level ≤ 4)
    (h : va / 2 ^ (48 - 9 * level) = x / 2 ^ (48 - 9 * level)) :
    slotIndex l va = slotIndex l x := by
  unfold slotIndex slotSize
  have hsplit : 39 - 9 * l = (48 - 9 * level) + (9 * (level - l - 1)) := by omega
  rw [hsplit, pow_add, ← Nat.div_div_eq_div_mul, ← Nat.div_div_eq_div_mul, h]

/-- Two addresses that agree above a level are looked up in the same table there. -/
theorem tableAt_eq_of_div_eq (hlevel : level ≤ 4)
    (h : va / 2 ^ (48 - 9 * level) = x / 2 ^ (48 - 9 * level)) :
    tableAt mem va root level = tableAt mem x root level := by
  have hindex (l : ℕ) (hl : l < level) : slotIndex l va = slotIndex l x :=
    slotIndex_eq_of_div_eq hl hlevel h
  clear h hlevel
  induction level with
  | zero => rfl
  | succ level ih =>
    rw [tableAt, tableAt, ih fun l hl => hindex l (by omega), hindex level (by omega)]

/-- The bits above a level and the index at the level give the bits above the next one. -/
theorem div_eq_of_slotIndex_eq (hlevel : level ≤ 3)
    (habove : va / 2 ^ (48 - 9 * level) = x / 2 ^ (48 - 9 * level))
    (hindex : slotIndex level va = slotIndex level x) :
    va / slotSize level = x / slotSize level := by
  have hsplit : 48 - 9 * level = (39 - 9 * level) + 9 := by omega
  have hnine : 2 ^ 9 = 512 := by norm_num
  rw [hsplit, pow_add, hnine, ← Nat.div_div_eq_div_mul, ← Nat.div_div_eq_div_mul] at habove
  unfold slotIndex at hindex
  unfold slotSize at hindex ⊢
  rw [← Nat.div_add_mod (va / 2 ^ (39 - 9 * level)) 512, habove, hindex, Nat.div_add_mod]

/-- Addresses of one slot agree above its level. -/
theorem div_eq_of_slot_eq (hlevel : level ≤ 3) (hslot : va / slotSize level = x / slotSize level) :
    va / 2 ^ (48 - 9 * level) = x / 2 ^ (48 - 9 * level) := by
  have hsplit : 48 - 9 * level = (39 - 9 * level) + 9 := by omega
  unfold slotSize at hslot
  rw [hsplit, pow_add, ← Nat.div_div_eq_div_mul, ← Nat.div_div_eq_div_mul, hslot]

/-- Addresses of one slot have the same index at its level. -/
theorem slotIndex_eq_of_slot_eq (hslot : va / slotSize level = x / slotSize level) :
    slotIndex level va = slotIndex level x := by
  rw [slotIndex, hslot, slotIndex]

/-- Addresses of one slot are looked up in the same table. -/
theorem tableAt_eq_of_slot_eq (hlevel : level ≤ 3) (hslot : va / slotSize level = x / slotSize level) :
    tableAt mem va root level = tableAt mem x root level :=
  tableAt_eq_of_div_eq (by omega) (div_eq_of_slot_eq hlevel hslot)

/-- The walk passes through a table descriptor at every level above a table it reads. -/
theorem tableAt_above {l b : ℕ} (hl : l < level) (h : tableAt mem va root level = some b) :
    ∃ base, tableAt mem va root l = some base ∧ mem (base + 8 * slotIndex l va) % 4 = 3 := by
  induction level generalizing b with
  | zero => omega
  | succ level ih =>
    obtain ⟨base, hbase, hkind, -⟩ := tableAt_succ_eq_some.mp h
    rcases (Nat.lt_succ_iff.mp hl).lt_or_eq with hlt | rfl
    · exact ih hlt hbase
    · exact ⟨base, hbase, hkind⟩

/-- The level at which a walk continues below a table. -/
theorem walkFrom_eq_walkLevel (mem : ℕ → ℕ) (va base : ℕ) (hlevel : level ≤ 3) :
    ∃ next, walkFrom mem va (3 - level) base = walkLevel mem va level base next := by
  rcases hlevel.lt_or_eq with hlt | rfl
  · have hsteps : 3 - level = (2 - level) + 1 := by omega
    have hback : 2 - (2 - level) = level := by omega
    refine ⟨walkFrom mem va (2 - level), ?_⟩
    rw [hsteps, walkFrom, hback]
  · exact ⟨_, rfl⟩

/-- The walk ends at the first block or page descriptor. -/
theorem walk_eq_of_leaf (h : tableAt mem va root level = some base)
    (hleaf : IsLeaf level (mem (base + 8 * slotIndex level va))) :
    walk mem va root = some (outputAddress level (mem (base + 8 * slotIndex level va)) va,
      attributesOf (mem (base + 8 * slotIndex level va))) := by
  have hlevel : level ≤ 3 := by
    unfold IsLeaf at hleaf
    omega
  obtain ⟨next, hnext⟩ := walkFrom_eq_walkLevel mem va base hlevel
  rw [walk_eq_walkFrom hlevel h, hnext, walkLevel, if_pos hleaf]

/-- An address that is translated has a block or page descriptor. -/
theorem exists_leaf_of_walk {p : ℕ × ℕ} (h : walk mem va root = some p) :
    ∃ level base, tableAt mem va root level = some base ∧
      IsLeaf level (mem (base + 8 * slotIndex level va)) := by
  -- `n` levels above level 3 the walk finds it there or goes on below
  have hfrom (n base : ℕ) (hn : n ≤ 3) (hbase : tableAt mem va root (3 - n) = some base)
      (hwalk : walkFrom mem va n base = some p) :
      ∃ level base, tableAt mem va root level = some base ∧
        IsLeaf level (mem (base + 8 * slotIndex level va)) := by
    induction n generalizing base with
    | zero =>
      rw [walkFrom, walkLevel] at hwalk
      split_ifs at hwalk with hleaf
      exact ⟨3, base, hbase, hleaf⟩
    | succ n ih =>
      have hlevel : 3 - (n + 1) = 2 - n := by omega
      rw [hlevel] at hbase
      rw [walkFrom, walkLevel] at hwalk
      split_ifs at hwalk with hleaf hkind
      · exact ⟨2 - n, base, hbase, hleaf⟩
      · have hsucc : 3 - n = 2 - n + 1 := by omega
        refine ih _ (by omega) ?_ hwalk
        rw [hsucc]
        exact tableAt_succ_eq_some.mpr ⟨base, hbase, hkind, rfl⟩
  exact hfrom 3 root le_rfl rfl h

end FfaAcs.PageTable
