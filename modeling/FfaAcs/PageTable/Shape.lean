import FfaAcs.Machine.Runs
import FfaAcs.PageTable.Walk

/-!
# The tables form a tree

A table of level 2 or 3 is taken from its pool when a descriptor first needs it, and its flag is
never cleared. A table in use is therefore referred to by one descriptor at most, and a table
that is not in use holds nothing but zeros. A block written over a table descriptor keeps this:
the table is lost, and a later chunk takes another one.

The one table of level 1 has no flag. Both descriptors of level 0 that a 40-bit input address
can select refer to it, and the two halves of the address space then share their translation.
The tables stay a tree when every region lies in the same half.
-/

namespace FfaAcs.PageTable

open Machine
open Heap (Status Fault)

/-- The reserved tables of a level. -/
def IsTable (T : TableStorage) : ℕ → ℕ → Prop
  | 0, base => base = T.ttL0Base
  | 1, base => base = T.ttL1Base
  | 2, base => ∃ i, base = T.ttL2Base i
  | 3, base => ∃ i, base = T.ttL3Base i
  | _, _ => False

/-- The tables in use: those of levels 0 and 1, and those whose flag is set. -/
def Used (T : TableStorage) (s : TableState) : ℕ → ℕ → Prop
  | 2, base => ∃ i, base = T.ttL2Base i ∧ s.l2Used i = true
  | 3, base => ∃ i, base = T.ttL3Base i ∧ s.l3Used i = true
  | _, _ => True

/-- The descriptors a walk can read at a level. -/
def IsSlot (T : TableStorage) (level addr : ℕ) : Prop :=
  ∃ base k, IsTable T level base ∧ k < 512 ∧ addr = base + 8 * k

variable {T : TableStorage} {s s' : TableState} {level l base b t addr k h : ℕ}

/-- A table lies on a page boundary, inside the storage. -/
theorem IsTable.bounds (hb : IsTable T level base) :
    base % 4096 = 0 ∧ T.base ≤ base ∧ base + 4096 ≤ T.base + storageSize := by
  have haligned := T.aligned
  have hsize : storageSize = 598016 := rfl
  match level, hb with
  | 0, hb | 1, hb =>
    simp only [IsTable, TableStorage.ttL0Base, TableStorage.ttL1Base] at hb
    omega
  | 2, ⟨i, hi⟩ | 3, ⟨i, hi⟩ =>
    simp only [TableStorage.ttL2Base, TableStorage.ttL3Base] at hi
    omega

/-- A table belongs to one level. -/
theorem IsTable.level_eq (hb : IsTable T level base) (hl : IsTable T l base) : level = l := by
  match level, l, hb, hl with
  | 0, 0, _, _ | 1, 1, _, _ | 2, 2, _, _ | 3, 3, _, _ => rfl
  | 0, 1, hb, hl | 1, 0, hb, hl =>
    simp only [IsTable, TableStorage.ttL0Base, TableStorage.ttL1Base] at hb hl
    omega
  | 0, 2, hb, ⟨i, hi⟩ | 0, 3, hb, ⟨i, hi⟩ | 1, 2, hb, ⟨i, hi⟩ | 1, 3, hb, ⟨i, hi⟩
  | 2, 0, ⟨i, hi⟩, hb | 3, 0, ⟨i, hi⟩, hb | 2, 1, ⟨i, hi⟩, hb | 3, 1, ⟨i, hi⟩, hb =>
    simp only [IsTable, TableStorage.ttL0Base, TableStorage.ttL1Base, TableStorage.ttL2Base,
      TableStorage.ttL3Base] at hb hi
    omega
  | 2, 3, ⟨i, hi⟩, ⟨j, hj⟩ | 3, 2, ⟨j, hj⟩, ⟨i, hi⟩ =>
    simp only [TableStorage.ttL2Base, TableStorage.ttL3Base] at hi hj
    omega

/-- The address of a descriptor determines its table and its index. -/
theorem IsTable.slot_inj (hb : IsTable T level base) (hl : IsTable T l b) {j : ℕ} (hk : k < 512)
    (hj : j < 512) (heq : base + 8 * k = b + 8 * j) : level = l ∧ base = b ∧ k = j := by
  have hbase := hb.bounds
  have hother := hl.bounds
  have hsame : base = b := by omega
  subst hsame
  exact ⟨hb.level_eq hl, rfl, by omega⟩

/-- A descriptor belongs to one level. -/
theorem IsSlot.level_eq (ha : IsSlot T level addr) (hl : IsSlot T l addr) : level = l := by
  obtain ⟨base, k, hbase, hk, rfl⟩ := ha
  obtain ⟨b, j, hb, hj, heq⟩ := hl
  exact (hbase.slot_inj hb hk hj heq).1

/-- The walk's descriptors in a table. -/
theorem IsTable.isSlot (hb : IsTable T level base) (va : ℕ) :
    IsSlot T level (base + 8 * slotIndex level va) :=
  ⟨base, _, hb, slotIndex_lt level va, rfl⟩

/-- Setting one flag adds one table to those in use. -/
theorem exists_update_flag {n : ℕ} {f : Fin n → ℕ} {used : Fin n → Bool} {i : Fin n} :
    (∃ j, b = f j ∧ Function.update used i true j = true) ↔
      (∃ j, b = f j ∧ used j = true) ∨ b = f i := by
  constructor
  · rintro ⟨j, hj, hset⟩
    by_cases hij : j = i
    · exact Or.inr (hij ▸ hj)
    · rw [Function.update_of_ne hij] at hset
      exact Or.inl ⟨j, hj, hset⟩
  · rintro (⟨j, hj, hset⟩ | hi)
    · by_cases hij : j = i
      · exact ⟨j, hj, by rw [hij, Function.update_self]⟩
      · exact ⟨j, hj, by rw [Function.update_of_ne hij, hset]⟩
    · exact ⟨i, hi, Function.update_self i true used⟩

/-- A table that a pool hands out was not in use. -/
theorem not_used_of_firstUnused {n : ℕ} {f : Fin n → ℕ} {used : Fin n → Bool} {i : Fin n}
    (hf : Function.Injective f) (h : firstUnused used = some i) :
    ¬∃ j, f i = f j ∧ used j = true := by
  rintro ⟨j, hj, hset⟩
  have hfree := List.find?_some h
  rw [hf hj, hset] at hfree
  exact absurd hfree (by decide)

/-- The level 2 tables are at different addresses. -/
theorem ttL2Base_injective (T : TableStorage) : Function.Injective T.ttL2Base := by
  intro i j hij
  simp only [TableStorage.ttL2Base] at hij
  omega

/-- The level 3 tables are at different addresses. -/
theorem ttL3Base_injective (T : TableStorage) : Function.Injective T.ttL3Base := by
  intro i j hij
  simp only [TableStorage.ttL3Base] at hij
  omega

/-- What selecting a table does: the words stay, and the table it returns is in use from then
on. A table of a pool was not in use before. -/
structure Selected (T : TableStorage) (s : TableState) (level t : ℕ) (s' : TableState) : Prop where
  mem_eq : s'.mem = s.mem
  isTable : IsTable T (level + 1) t
  used_iff : ∀ l b, Used T s' l b ↔ Used T s l b ∨ l = level + 1 ∧ b = t
  not_used : level ≠ 0 → ¬Used T s (level + 1) t

/-- Selecting a table for a descriptor above level 3. -/
theorem selected_of_selectTable (hlevel : level < 3) (h : selectTable T level s = some (t, s')) :
    Selected T s level t s' := by
  match level, hlevel with
  | 0, _ =>
    obtain ⟨rfl, rfl⟩ := Prod.mk.inj (Option.some.inj h)
    refine ⟨rfl, rfl, fun l b => ⟨Or.inl, ?_⟩, fun hne => absurd rfl hne⟩
    rintro (hused | ⟨rfl, rfl⟩)
    · exact hused
    · trivial
  | 1, _ =>
    simp only [selectTable, if_true, Option.map_eq_some_iff, Prod.mk.injEq] at h
    obtain ⟨i, hi, rfl, rfl⟩ := h
    refine ⟨rfl, ⟨i, rfl⟩, fun l b => ?_, fun _ =>
      not_used_of_firstUnused (ttL2Base_injective T) hi⟩
    match l with
    | 2 => simp only [Used, exists_update_flag, Nat.reduceAdd, true_and]
    | 0 | 1 | 3 | _ + 4 => simp [Used]
  | 2, _ =>
    simp only [selectTable, OfNat.ofNat_ne_one, if_false, if_true, Option.map_eq_some_iff,
      Prod.mk.injEq] at h
    obtain ⟨i, hi, rfl, rfl⟩ := h
    refine ⟨rfl, ⟨i, rfl⟩, fun l b => ?_, fun _ =>
      not_used_of_firstUnused (ttL3Base_injective T) hi⟩
    match l with
    | 3 => simp only [Used, exists_update_flag, Nat.reduceAdd, true_and]
    | 0 | 1 | 2 | _ + 4 => simp [Used]

/-- The flags do not depend on the words. -/
@[simp] theorem used_write {v : ℕ} : Used T (s.write addr v) l b ↔ Used T s l b := by
  match l with
  | 0 | 1 | 2 | 3 | _ + 4 => exact Iff.rfl

/-- The word that was stored. -/
@[simp] theorem write_mem_self {v : ℕ} : (s.write addr v).mem addr = v := by
  simp only [TableState.write, Function.update_self]

/-- The other words stay. -/
theorem write_mem_of_ne {v a : ℕ} (hne : a ≠ addr) : (s.write addr v).mem a = s.mem a := by
  simp only [TableState.write, Function.update_of_ne hne]

/-- The words of the other levels stay. -/
theorem IsTable.write_mem_of_slot {v : ℕ} (hb : IsTable T level base) (hk : k < 512)
    (haddr : IsSlot T l addr) (hne : l ≠ level) :
    (s.write (base + 8 * k) v).mem addr = s.mem addr := by
  refine write_mem_of_ne fun heq => hne ?_
  exact haddr.level_eq (heq ▸ ⟨base, k, hb, hk, rfl⟩)

/-- The tables form a tree whose root uses descriptor `h` only.

A descriptor above level 3 is empty, a block, or refers to a table of the next level that is in
use; no two of a level refer to the same table; a table that is not in use is empty. -/
structure Shape (T : TableStorage) (h : ℕ) (s : TableState) : Prop where
  entry : ∀ level addr, level < 3 → IsSlot T level addr →
    s.mem addr = 0 ∨ s.mem addr % 4 = 1 ∨
      ∃ t, IsTable T (level + 1) t ∧ Used T s (level + 1) t ∧ s.mem addr = t + 3
  unique : ∀ level addr a, level < 3 → IsSlot T level addr → IsSlot T level a →
    s.mem addr % 4 = 3 → s.mem a = s.mem addr → a = addr
  fresh : ∀ level base k, IsTable T level base → ¬Used T s level base → k < 512 →
    s.mem (base + 8 * k) = 0
  half : ∀ k, k < 512 → k ≠ h → s.mem (T.ttL0Base + 8 * k) = 0

namespace Shape

/-- A table descriptor is the address of a table, with the two kind bits. -/
theorem entry_of_table (hs : Shape T h s) (hlevel : level < 3) (haddr : IsSlot T level addr)
    (hkind : s.mem addr % 4 = 3) :
    ∃ t, IsTable T (level + 1) t ∧ Used T s (level + 1) t ∧ s.mem addr = t + 3 := by
  rcases hs.entry level addr hlevel haddr with hzero | hblock | htable
  · omega
  · omega
  · exact htable

/-- A word stored in a table in use leaves the other tables empty. -/
theorem fresh_write (hs : Shape T h s) (hb : IsTable T level base) (hused : Used T s level base)
    (hk : k < 512) {v : ℕ} (l b j : ℕ) (hbl : IsTable T l b)
    (hunused : ¬Used T (s.write (base + 8 * k) v) l b) (hj : j < 512) :
    (s.write (base + 8 * k) v).mem (b + 8 * j) = 0 := by
  rw [used_write] at hunused
  rw [write_mem_of_ne, hs.fresh l b j hbl hunused hj]
  intro heq
  obtain ⟨rfl, rfl, -⟩ := hbl.slot_inj hb hj hk heq
  exact hunused hused

/-- A word stored below the root, or in its descriptor `h`, leaves the root's others empty. -/
theorem half_write (hs : Shape T h s) (hb : IsTable T level base) (hk : k < 512) {v : ℕ}
    (hroot : level = 0 → k = h) (j : ℕ) (hj : j < 512) (hne : j ≠ h) :
    (s.write (base + 8 * k) v).mem (T.ttL0Base + 8 * j) = 0 := by
  rw [write_mem_of_ne, hs.half j hj hne]
  intro heq
  have hl0 : IsTable T 0 T.ttL0Base := rfl
  obtain ⟨rfl, -, rfl⟩ := hl0.slot_inj hb hj hk heq
  exact hne (hroot rfl)

/-- Storing a block or page keeps the tree. -/
theorem write_leaf (hs : Shape T h s) (hb : IsTable T level base) (hused : Used T s level base)
    (hk : k < 512) {v : ℕ} (hv : level < 3 → v % 4 = 1) (hroot : level = 0 → k = h) :
    Shape T h (s.write (base + 8 * k) v) := by
  have hslot : IsSlot T level (base + 8 * k) := ⟨base, k, hb, hk, rfl⟩
  constructor
  · intro l a hl ha
    by_cases hat : a = base + 8 * k
    · subst hat
      exact Or.inr (Or.inl (by rw [write_mem_self]; exact hv (hslot.level_eq ha ▸ hl)))
    · simp only [write_mem_of_ne hat, used_write]
      exact hs.entry l a hl ha
  · intro l a a' hl ha ha' hkind heq
    -- neither of two equal table descriptors is the new word
    have hold (c : ℕ) (hc : IsSlot T l c) (hckind : (s.write (base + 8 * k) v).mem c % 4 = 3) :
        c ≠ base + 8 * k := by
      rintro rfl
      rw [write_mem_self] at hckind
      have hone := hv (hslot.level_eq hc ▸ hl)
      omega
    have hne := hold a ha hkind
    have hne' := hold a' ha' (heq ▸ hkind)
    rw [write_mem_of_ne hne] at hkind heq
    rw [write_mem_of_ne hne'] at heq
    exact hs.unique l a a' hl ha ha' hkind heq
  · exact hs.fresh_write hb hused hk
  · exact hs.half_write hb hk hroot

/-- Storing a reference to a table in use keeps the tree when nothing else refers to it. -/
theorem write_table (hs : Shape T h s) (hb : IsTable T level base)
    (hused : Used T s level base) (hk : k < 512) (ht : IsTable T (level + 1) t)
    (htused : Used T s (level + 1) t)
    (hfree : ∀ a, IsSlot T level a → s.mem a = t + 3 → a = base + 8 * k)
    (hroot : level = 0 → k = h) : Shape T h (s.write (base + 8 * k) (t + 3)) := by
  have hslot : IsSlot T level (base + 8 * k) := ⟨base, k, hb, hk, rfl⟩
  constructor
  · intro l a hl ha
    by_cases hat : a = base + 8 * k
    · subst hat
      obtain rfl := hslot.level_eq ha
      exact Or.inr (Or.inr ⟨t, ht, used_write.mpr htused, write_mem_self⟩)
    · simp only [write_mem_of_ne hat, used_write]
      exact hs.entry l a hl ha
  · intro l a a' hl ha ha' hkind heq
    by_cases hat : a = base + 8 * k
    · by_cases hat' : a' = base + 8 * k
      · rw [hat, hat']
      · rw [hat, write_mem_self, write_mem_of_ne hat'] at heq
        obtain rfl := hslot.level_eq (hat ▸ ha)
        exact absurd (hfree a' ha' heq) hat'
    · rw [write_mem_of_ne hat] at hkind heq
      by_cases hat' : a' = base + 8 * k
      · rw [hat', write_mem_self] at heq
        obtain rfl := hslot.level_eq (hat' ▸ ha')
        exact absurd (hfree a ha heq.symm) hat
      · rw [write_mem_of_ne hat'] at heq
        exact hs.unique l a a' hl ha ha' hkind heq
  · exact hs.fresh_write hb hused hk
  · exact hs.half_write hb hk hroot

/-- Taking a table from a pool keeps the tree. -/
theorem selected (hs : Shape T h s) (hsel : Selected T s level t s') : Shape T h s' := by
  have hmono (l b : ℕ) (hused : Used T s l b) : Used T s' l b := (hsel.used_iff l b).mpr (.inl hused)
  constructor
  · intro l a hl ha
    rw [hsel.mem_eq]
    rcases hs.entry l a hl ha with hzero | hblock | ⟨t', ht', hused, heq⟩
    · exact .inl hzero
    · exact .inr (.inl hblock)
    · exact .inr (.inr ⟨t', ht', hmono _ _ hused, heq⟩)
  · rw [hsel.mem_eq]
    exact hs.unique
  · intro l b j hb hunused hj
    rw [hsel.mem_eq]
    exact hs.fresh l b j hb (fun hused => hunused (hmono l b hused)) hj
  · rw [hsel.mem_eq]
    exact hs.half

end Shape

/-- The value of a table descriptor, for a table on a page boundary. -/
theorem tableDescriptor_of_aligned {p bits mask : ℕ} (hp : 2 ≤ p) (hp' : p ≤ 64)
    (ht : t % 2 ^ p = 0) (hlt : t < 2 ^ 64) : tableDescriptor ⟨2 ^ p, bits, mask⟩ t = t + 3 := by
  have hround : t &&& not64 (2 ^ p - 1) = t := by
    rw [land_not64 hp' hlt, Nat.div_mul_cancel (Nat.dvd_of_mod_eq_zero ht)]
  have hdisjoint : 3 &&& t = 0 := by
    have hfour : t % 2 ^ 2 = 0 :=
      Nat.mod_eq_zero_of_dvd ((Nat.pow_dvd_pow 2 hp).trans (Nat.dvd_of_mod_eq_zero ht))
    rw [Nat.and_comm, ← hfour]
    exact Nat.and_two_pow_sub_one_eq_mod t 2
  calc tableDescriptor ⟨2 ^ p, bits, mask⟩ t = 3 ||| (t &&& not64 (2 ^ p - 1)) := rfl
    _ = t + 3 := by rw [hround, lor_eq_add hdisjoint, Nat.add_comm]

/-- The value of a table descriptor for a reserved table. -/
theorem tableDescriptor_eq (ht : IsTable T level t) : tableDescriptor (pgtGlobals 0) t = t + 3 := by
  have hbounds := ht.bounds
  have hfits := T.fits
  rw [pgtGlobals_zero]
  exact tableDescriptor_of_aligned (p := 12) (by norm_num) (by norm_num) hbounds.1 (by omega)

/-- The table a table descriptor refers to. -/
theorem nextTable_add_three (ht : IsTable T level t) : nextTable (t + 3) = t := by
  have hbounds := ht.bounds
  have hfits := T.fits
  unfold nextTable
  omega

/-- A block descriptor has the kind of a block when its attributes leave the type bit clear. -/
theorem blockDescriptor_mod_four {n output attributes : ℕ} (hn : 2 ≤ n) (hn' : n ≤ 64)
    (hattr : attributes &&& 2 = 0) : blockDescriptor (2 ^ n) output attributes % 4 = 1 := by
  have hfour : 4 = 2 ^ 2 := rfl
  have hmask : not64 (2 ^ n - 1) % 2 ^ 2 = 0 := by
    have hpow : 2 ^ n - 1 < 2 ^ 64 := by
      have := Nat.pow_le_pow_right (n := 2) (by norm_num) hn'
      have := Nat.two_pow_pos n
      omega
    obtain ⟨m, rfl⟩ := Nat.exists_eq_add_of_le hn
    rw [pow_add] at hpow ⊢
    have := Nat.two_pow_pos m
    unfold not64
    omega
  have hbit : attributes % 2 ^ 2 = 0 ∨ attributes % 2 ^ 2 = 1 := by
    rw [land_two_eq_zero] at hattr
    omega
  rw [hfour, blockDescriptor, Nat.or_mod_two_pow, Nat.or_mod_two_pow, Nat.and_mod_two_pow, hmask,
    Nat.and_zero]
  rcases hbit with hbit | hbit <;> rw [hbit] <;> rfl

/-- The table below a descriptor: the one it refers to, or one that was just selected. -/
theorem ttBaseNextLevel_cases (hs : Shape T h s) (hlevel : level < 3) (haddr : IsSlot T level addr)
    (hn : ttBaseNextLevel (pgtGlobals 0) T level (s.mem addr) s = some (t, s')) :
    (s.mem addr = t + 3 ∧ IsTable T (level + 1) t ∧ Used T s (level + 1) t ∧ s' = s) ∨
      (s.mem addr % 4 ≠ 3 ∧ Selected T s level t s') := by
  have htype : isPgtEntryBlock (s.mem addr) ↔ s.mem addr / 2 % 2 = 0 := land_two_eq_zero
  unfold ttBaseNextLevel at hn
  by_cases hnew : s.mem addr = 0 ∨ isPgtEntryBlock (s.mem addr)
  · rw [if_pos hnew] at hn
    rw [htype] at hnew
    exact .inr ⟨by omega, selected_of_selectTable hlevel hn⟩
  · rw [if_neg hnew, pgtGlobals_zero] at hn
    obtain ⟨t', ht', hused, heq⟩ := hs.entry_of_table hlevel haddr (by
      rcases hs.entry level addr hlevel haddr with hzero | hblock | ⟨t', ht', -, heq⟩
      · exact absurd (.inl hzero) hnew
      · exact absurd (.inr (htype.mpr (by omega))) hnew
      · have := ht'.bounds
        omega)
    obtain ⟨hbase, rfl⟩ := Prod.mk.inj (Option.some.inj hn)
    have hfound : t' = t := by
      rw [← hbase, land_shiftLeft_two_pow_sub_one, heq]
      exact (nextTable_add_three ht').symm
    subst hfound
    exact .inl ⟨heq, ht', hused, rfl⟩

/-- Nothing but the descriptor at hand refers to the table below it. -/
theorem eq_of_refers (hs : Shape T h s) (hlevel : level < 3) (hb : IsTable T level base)
    (hk : k < 512) (hroot : level = 0 → k = h)
    (hn : ttBaseNextLevel (pgtGlobals 0) T level (s.mem (base + 8 * k)) s = some (t, s'))
    {a : ℕ} (ha : IsSlot T level a) (hrefers : s.mem a = t + 3) : a = base + 8 * k := by
  have hslot : IsSlot T level (base + 8 * k) := ⟨base, k, hb, hk, rfl⟩
  rcases ttBaseNextLevel_cases hs hlevel hslot hn with ⟨heq, ht, -, -⟩ | ⟨-, hsel⟩
  · have hbounds := ht.bounds
    exact hs.unique level _ a hlevel hslot ha (by omega) (hrefers.trans heq.symm)
  · have hbounds := hsel.isTable.bounds
    obtain ⟨t', -, hused, heq⟩ := hs.entry_of_table hlevel ha (by omega)
    have hsame : t' = t := by omega
    subst hsame
    by_cases hzero : level = 0
    · -- the root has one descriptor that is not empty
      subst hzero
      obtain ⟨b, j, hbroot, hj, rfl⟩ := ha
      have hbase : base = T.ttL0Base := hb
      have hother : b = T.ttL0Base := hbroot
      rw [hother] at hrefers ⊢
      rw [hbase, hroot rfl]
      by_contra hne
      have hjh : j ≠ h := fun hjh => hne (by rw [hjh])
      rw [hs.half j hj hjh] at hrefers
      omega
    · exact absurd hused (hsel.not_used hzero)

/-- The tree is kept, and so are the tables in use. -/
def Keeps (T : TableStorage) (h : ℕ) (s s' : TableState) : Prop :=
  Shape T h s' ∧ ∀ l b, Used T s l b → Used T s' l b

/-- The tree is kept, and the descriptors above a level stay. -/
structure KeepsAbove (T : TableStorage) (h level : ℕ) (s s' : TableState) : Prop where
  keeps : Keeps T h s s'
  frame : ∀ l addr, l < level → IsSlot T l addr → s'.mem addr = s.mem addr

namespace KeepsAbove

/-- Nothing changes. -/
theorem refl (hs : Shape T h s) : KeepsAbove T h level s s :=
  ⟨⟨hs, fun _ _ hused => hused⟩, fun _ _ _ _ => rfl⟩

/-- One change after another. -/
theorem trans {s₁ : TableState} (h₁ : KeepsAbove T h level s s₁) (h₂ : KeepsAbove T h l s₁ s')
    (hle : level ≤ l) : KeepsAbove T h level s s' := by
  refine ⟨⟨h₂.keeps.1, fun j b hused => h₂.keeps.2 j b (h₁.keeps.2 j b hused)⟩, ?_⟩
  intro j a hj ha
  rw [h₂.frame j a (by omega) ha, h₁.frame j a hj ha]

end KeepsAbove

/-- A call works on a table in use, at the size of its level. -/
structure OnTable (T : TableStorage) (s : TableState) (d : TtDescriptor) : Prop where
  isTable : IsTable T d.level d.ttBase
  used : Used T s d.level d.ttBase
  size : d.sizeLog2 = 39 - 9 * d.level

/-- Storing a block or page keeps the tree and the descriptors above it. -/
theorem Shape.keepsAbove_leaf (hs : Shape T h s) (hb : IsTable T level base)
    (hused : Used T s level base) (hk : k < 512) {v : ℕ} (hv : level < 3 → v % 4 = 1)
    (hroot : level = 0 → k = h) : KeepsAbove T h level s (s.write (base + 8 * k) v) :=
  ⟨⟨hs.write_leaf hb hused hk hv hroot, fun _ _ hlb => used_write.mpr hlb⟩,
    fun _ _ hl ha => hb.write_mem_of_slot hk ha hl.ne⟩

/-- Referring to the table below a descriptor keeps the tree, and the table is in use. -/
theorem Shape.link (hs : Shape T h s) (hlevel : level < 3) (hb : IsTable T level base)
    (hused : Used T s level base) (hk : k < 512) (hroot : level = 0 → k = h)
    (hn : ttBaseNextLevel (pgtGlobals 0) T level (s.mem (base + 8 * k)) s = some (t, s')) :
    IsTable T (level + 1) t ∧ Used T s' (level + 1) t ∧ s'.mem = s.mem ∧
      KeepsAbove T h level s (s'.write (base + 8 * k) (t + 3)) := by
  have hslot : IsSlot T level (base + 8 * k) := ⟨base, k, hb, hk, rfl⟩
  have hfree (a : ℕ) (ha : IsSlot T level a) (hrefers : s.mem a = t + 3) :=
    eq_of_refers hs hlevel hb hk hroot hn ha hrefers
  rcases ttBaseNextLevel_cases hs hlevel hslot hn with ⟨-, ht, htused, rfl⟩ | ⟨-, hsel⟩
  · exact ⟨ht, htused, rfl, ⟨hs.write_table hb hused hk ht htused hfree hroot,
      fun l b hb => used_write.mpr hb⟩, fun l a hl ha => hb.write_mem_of_slot hk ha hl.ne⟩
  · have hmono (l b : ℕ) (hlb : Used T s l b) : Used T s' l b := (hsel.used_iff l b).mpr (.inl hlb)
    have htused : Used T s' (level + 1) t := (hsel.used_iff _ _).mpr (.inr ⟨rfl, rfl⟩)
    refine ⟨hsel.isTable, htused, hsel.mem_eq,
      ⟨?_, fun l b hlb => used_write.mpr (hmono l b hlb)⟩, fun l a hl ha => ?_⟩
    · apply (hs.selected hsel).write_table hb (hmono _ _ hused) hk hsel.isTable htused _ hroot
      rw [hsel.mem_eq]
      exact hfree
    · rw [hb.write_mem_of_slot hk ha hl.ne, hsel.mem_eq]

section Fill

variable {d : TtDescriptor} {attributes input output fuel : ℕ} {st : Status}
variable {next : TtDescriptor → TableState → Outcome}

/-- A call for the table below a descriptor works on that table. -/
theorem OnTable.nextLevel (hd : OnTable T s d) (hlevel : d.level < 3) (ht : IsTable T (d.level + 1) t)
    (htused : Used T s' (d.level + 1) t) :
    OnTable T s' (d.nextLevel input (pgtGlobals 0) t output) := by
  refine ⟨ht, htused, ?_⟩
  have hsize := hd.size
  simp only [TtDescriptor.nextLevel, pgtGlobals_zero]
  omega

/-- One chunk keeps the tree when the calls below do. -/
theorem fillEntry_keeps (hs : Shape T h s) (hd : OnTable T s d) (hlevel : d.level ≤ 3)
    (hroot : d.level = 0 → d.tableIndex input = h) (hattr : attributes &&& 2 = 0)
    (hnext : ∀ d' s₁ st s₂, d.level < 3 → d'.level = d.level + 1 → OnTable T s₁ d' →
      Shape T h s₁ → next d' s₁ = .ok (st, s₂) → KeepsAbove T h d'.level s₁ s₂)
    (hrun : fillEntry (pgtGlobals 0) T attributes next d input output s = .ok (st, s')) :
    KeepsAbove T h d.level s s' := by
  have hentries : 2 ^ (pgtGlobals 0).bitsPerLevel = 512 := by rw [pgtGlobals_zero]; norm_num
  rcases fillEntry_cases hrun with ⟨-, rfl⟩ | ⟨hindex, ⟨hlast, -, rfl⟩ | ⟨hlast, -, -, rfl⟩ |
    ⟨hlast, -, t, s₁, hn, hcall⟩⟩
  · exact .refl hs
  · exact hs.keepsAbove_leaf hd.isTable hd.used (by omega) (by omega) hroot
  · apply hs.keepsAbove_leaf hd.isTable hd.used (by omega) _ hroot
    intro hlt
    have hsize := hd.size
    exact blockDescriptor_mod_four (by omega) (by omega) hattr
  · have hlt : d.level < 3 := by omega
    obtain ⟨ht, htused, -, hlink⟩ := hs.link hlt hd.isTable hd.used (by omega) hroot hn
    rw [tableDescriptor_eq ht] at hcall
    have hbelow := hnext _ _ _ _ hlt rfl (hd.nextLevel hlt ht (used_write.mpr htused)) hlink.keeps.1
      hcall
    exact hlink.trans hbelow (Nat.le_succ _)

/-- The loop keeps the tree when it stays on the root's descriptor `h`. -/
theorem fillLoop_keeps {P : ℕ → Prop} (hlevel : d.level ≤ 3)
    (hroot : ∀ i, P i → i < d.inputTop → d.level = 0 → d.tableIndex i = h)
    (hP : ∀ i, P i → i < d.inputTop → P (wrap64 (i + d.chunkSize i)))
    (hattr : attributes &&& 2 = 0)
    (hnext : ∀ d' s₁ st s₂, d.level < 3 → d'.level = d.level + 1 → OnTable T s₁ d' →
      Shape T h s₁ → next d' s₁ = .ok (st, s₂) → KeepsAbove T h d'.level s₁ s₂)
    (hinput : P input) (hs : Shape T h s) (hd : OnTable T s d)
    (hrun : fillLoop (pgtGlobals 0) T attributes next d fuel input output s = .ok (st, s')) :
    KeepsAbove T h d.level s s' := by
  induction fuel generalizing input output s with
  | zero => exact nomatch hrun
  | succ fuel ih =>
    rcases fillLoop_cases hrun with ⟨-, -, rfl⟩ | ⟨hmore, ⟨-, hentry⟩ | ⟨s₁, hentry, hrest⟩⟩
    · exact .refl hs
    · exact fillEntry_keeps hs hd hlevel (hroot input hinput hmore) hattr hnext hentry
    · have hfirst := fillEntry_keeps hs hd hlevel (hroot input hinput hmore) hattr hnext hentry
      have hothers := ih (hP input hinput hmore) hfirst.keeps.1
        ⟨hd.isTable, hfirst.keeps.2 _ _ hd.used, hd.size⟩ hrest
      exact hfirst.trans hothers le_rfl

/-- A call below the root keeps the tree. -/
theorem fillTranslationTable_keeps {depth : ℕ} (hdepth : d.level + depth = 3) (hbelow : 0 < d.level)
    (hattr : attributes &&& 2 = 0) (hs : Shape T h s) (hd : OnTable T s d)
    (hrun : fillTranslationTable (pgtGlobals 0) T attributes fuel depth d s = .ok (st, s')) :
    KeepsAbove T h d.level s s' := by
  induction depth generalizing d s s' st with
  | zero =>
    rcases fillTranslationTable_zero_cases hrun with ⟨-, rfl⟩ | hloop
    · exact .refl hs
    · exact fillLoop_keeps (P := fun _ => True) (by omega) (by omega) (fun _ _ _ => trivial) hattr
        (by omega) trivial hs hd hloop
  | succ depth ih =>
    rcases fillTranslationTable_succ_cases hrun with ⟨-, rfl⟩ | hloop
    · exact .refl hs
    · refine fillLoop_keeps (P := fun _ => True) (by omega) (by omega) (fun _ _ _ => trivial) hattr
        ?_ trivial hs hd hloop
      intro d' s₁ st s₂ _ hnextLevel hd' hs₁ hcall
      exact ih (by omega) (by omega) hs₁ hd' hcall

end Fill

end FfaAcs.PageTable
