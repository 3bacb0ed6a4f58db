import FfaAcs.PageTable.Create

/-!
# When `val_pgt_create` returns

The loops of `fill_translation_table` move the input address to the end of the current chunk, and
stop when it has reached the last address of the range. That address is a difference modulo
`2 ^ 64`. Unless it is the last address of all, every round comes closer to it, and the call
returns. When it is, the input address wraps to 0 at the end of the address space and never
reaches it, since it stays a multiple of the page size. The call then ends only if it runs out of
tables, and tables that already refer to each other spare it that.
-/

namespace FfaAcs.PageTable

open Machine
open Heap (Status Fault)

variable {T : TableStorage} {s s' : TableState} {d : TtDescriptor} {g : PgtGlobals}
  {attributes fuel depth input output delta : ℕ} {next : TtDescriptor → TableState → Outcome}

section Returns

/-- One round returns when the calls below it do. -/
theorem fillEntry_returns
    (hnext : ∀ t s, d.level ≠ 3 → ∃ r, next (d.nextLevel input g t output) s = .ok r) :
    ∃ r, fillEntry g T attributes next d input output s = .ok r := by
  unfold fillEntry
  split_ifs with hrange hindex hlast hblock
  · exact ⟨_, rfl⟩
  · exact ⟨_, rfl⟩
  · exact ⟨_, rfl⟩
  · exact ⟨_, rfl⟩
  · cases ttBaseNextLevel g T d.level (s.mem (d.tableDesc input)) s with
    | none => exact ⟨_, rfl⟩
    | some r => exact hnext r.1 _ hlast

/-- The loop returns when it has more fuel than addresses left. -/
theorem fillLoop_returns (hsize : d.sizeLog2 ≤ 64) (htop : d.inputTop < 2 ^ 64 - 1)
    (hnext : ∀ i t out s, d.level ≠ 3 → ∃ r, next (d.nextLevel i g t out) s = .ok r)
    (hfuel : d.inputTop - input < fuel) :
    ∃ r, fillLoop g T attributes next d fuel input output s = .ok r := by
  induction fuel generalizing input output s with
  | zero => omega
  | succ fuel ih =>
    unfold fillLoop
    split_ifs with hmore
    · have hreturns : ∃ r, fillEntry g T attributes next d input output s = .ok r :=
        fillEntry_returns (hnext input · output ·)
      obtain ⟨⟨st, s₁⟩, hentry⟩ := hreturns
      rw [hentry]
      cases st with
      | error => exact ⟨_, rfl⟩
      | success =>
        obtain ⟨hchunk, -, -, hadvance⟩ := TtDescriptor.chunk_bounds hsize hmore htop
        simp only [hadvance]
        exact ih (by omega)
    · exact ⟨_, rfl⟩

/-- A call returns when its range does not end at the last address. -/
theorem fillTranslationTable_returns (hdepth : d.level + depth = 3) (hsize : d.sizeLog2 ≤ 64)
    (htop : d.inputTop < 2 ^ 64 - 1) (hfuel : 2 ^ 64 ≤ fuel) :
    ∃ r, fillTranslationTable g T attributes fuel depth d s = .ok r := by
  induction depth generalizing d s with
  | zero =>
    unfold fillTranslationTable
    split_ifs
    · exact ⟨_, rfl⟩
    · exact fillLoop_returns hsize htop (fun _ _ _ _ hlast => absurd hdepth hlast) (by omega)
  | succ depth ih =>
    unfold fillTranslationTable
    split_ifs
    · exact ⟨_, rfl⟩
    · refine fillLoop_returns hsize htop (fun i t out s _ => ih ?_ ?_ ?_) (by omega)
      · simp only [TtDescriptor.nextLevel]
        omega
      · simp only [TtDescriptor.nextLevel]
        omega
      · -- a chunk ends no later than its range
        simp only [TtDescriptor.nextLevel, TtDescriptor.chunkTop]
        split <;> omega

end Returns

section Diverges

/-- One table of every level. -/
def chain (T : TableStorage) : ℕ → ℕ
  | 0 => T.ttL0Base
  | 1 => T.ttL1Base
  | 2 => T.ttL2Base 0
  | _ => T.ttL3Base 0

/-- The tables of the chain are reserved. -/
theorem chain_isTable {level : ℕ} (hlevel : level ≤ 3) : IsTable T level (chain T level) := by
  interval_cases level
  · rfl
  · rfl
  · exact ⟨0, rfl⟩
  · exact ⟨0, rfl⟩

/-- Every descriptor of the chain's table of a level refers to the next one. -/
def Refers (T : TableStorage) (level : ℕ) (s : TableState) : Prop :=
  ∀ k, k < 512 → s.mem (chain T level + 8 * k) = chain T (level + 1) + 3

/-- No new table is needed for chunks that start at a slot: the descriptors refer to the next table,
or the output address has the same offset as the input address, and the chunk becomes a block. -/
def Chained (T : TableStorage) (delta : ℕ) (s : TableState) : Prop :=
  ∀ level, level < 3 → Refers T level s ∨ delta % slotSize level = 0

/-- The calls that work on the chain. -/
structure OnChain (T : TableStorage) (d : TtDescriptor) : Prop where
  level_le : d.level ≤ 3
  ttBase : d.ttBase = chain T d.level
  size : d.sizeLog2 = 39 - 9 * d.level
  nbits : 0 < d.nbits ∧ d.nbits ≤ 9

/-- What holds at the head of a loop whose range ends with a slot. A chunk that starts inside a slot,
as only the first one may, finds descriptors that refer to tables. -/
structure Endless (T : TableStorage) (delta : ℕ) (s : TableState) (d : TtDescriptor)
    (input output : ℕ) : Prop where
  chained : Chained T delta s
  enters : ∀ l, d.level ≤ l → l < 3 → input % slotSize l = 0 ∨ Refers T l s
  input_lt : input < 2 ^ 64
  page : input % 4096 = 0
  stop : (d.inputTop + 1) % slotSize d.level = 0
  top : d.inputTop < 2 ^ 64
  shift : output = wrap64 (input + delta)

/-- An outcome on a range that ends at `top`: no error, an intact chain after a success, and no
return at all when `top` is the last address. -/
def GoesOn (T : TableStorage) (delta top : ℕ) (outcome : Outcome) : Prop :=
  ∀ st s', outcome = .ok (st, s') → st = .success ∧ Chained T delta s' ∧ top < 2 ^ 64 - 1

/-- The chunk at hand ends with its slot, and the next one starts with a slot. -/
theorem Endless.chunk (he : Endless T delta s d input output) (hd : OnChain T d)
    (hmore : input < d.inputTop) :
    d.blockBase input = input / slotSize d.level * slotSize d.level ∧
      d.blockBase input + slotSize d.level - 1 ≤ d.inputTop ∧
      d.chunkTop input = d.blockBase input + slotSize d.level - 1 ∧
      wrap64 (input + d.chunkSize input) % slotSize d.level = 0 := by
  have hblock : d.blockSize = slotSize d.level := by rw [TtDescriptor.blockSize, hd.size, slotSize]
  have hinput := he.input_lt
  have hstop := he.stop
  have htop := he.top
  have hsize := hd.size
  have hlevel := hd.level_le
  have hbase : d.blockBase input = input / slotSize d.level * slotSize d.level := by
    rw [TtDescriptor.blockBase_eq (by omega) hinput, hblock]
  have hend : d.blockBase input + slotSize d.level - 1 ≤ d.inputTop := by
    clear hsize hblock
    unfold slotSize at hbase hstop ⊢
    generalize d.level = l at *
    interval_cases l <;> simp only [Nat.reduceMul, Nat.reduceSub] at hbase hstop ⊢ <;> omega
  have hchunk : d.chunkTop input = d.blockBase input + slotSize d.level - 1 := by
    rw [TtDescriptor.chunkTop, TtDescriptor.blockTop, hblock]
    split <;> omega
  refine ⟨hbase, hend, hchunk, ?_⟩
  rw [TtDescriptor.chunkSize, hchunk, sub64, wrap64, wrap64]
  clear hsize hblock hchunk
  unfold slotSize at hbase hend hstop ⊢
  generalize d.level = l at *
  interval_cases l <;> simp only [Nat.reduceMul, Nat.reduceSub] at hbase hend hstop ⊢ <;> omega

/-- A store in a table of one level keeps what the other levels refer to. -/
theorem Refers.write {level l k v : ℕ} (h : Refers T l s) (hl : l < 3) (hlevel : level ≤ 3)
    (hk : k < 512) (hne : l ≠ level) : Refers T l (s.write (chain T level + 8 * k) v) := by
  intro j hj
  rw [(chain_isTable hlevel).write_mem_of_slot hk ⟨_, j, chain_isTable (by omega), hj, rfl⟩ hne]
  exact h j hj

/-- The table below a descriptor that refers to the next table of the chain. -/
theorem Refers.ttBaseNextLevel {level k : ℕ} (h : Refers T level s) (hlevel : level < 3)
    (hk : k < 512) :
    ttBaseNextLevel (pgtGlobals 0) T level (s.mem (chain T level + 8 * k)) s =
      some (chain T (level + 1), s) := by
  have ht := chain_isTable (T := T) (show level + 1 ≤ 3 by omega)
  have hbounds := ht.bounds
  have htype : ¬isPgtEntryBlock (chain T (level + 1) + 3) := by
    rw [isPgtEntryBlock, land_two_eq_zero]
    omega
  have hmask : (chain T (level + 1) + 3) &&& (pgtGlobals 0).pgtAddrMask = chain T (level + 1) := by
    rw [pgtGlobals_zero, land_shiftLeft_two_pow_sub_one]
    exact nextTable_add_three ht
  have hreuse : ¬(chain T (level + 1) + 3 = 0 ∨ isPgtEntryBlock (chain T (level + 1) + 3)) :=
    not_or.mpr ⟨by omega, htype⟩
  rw [PageTable.ttBaseNextLevel, h k hk, if_neg hreuse, hmask]

/-- A chunk is a block or finds a descriptor that refers to the next table. -/
theorem Endless.eligible_or (he : Endless T delta s d input output) (hd : OnChain T d)
    (hmore : input < d.inputTop) (hlevel : d.level < 3) :
    (d.BlockEligible input output ∧ delta % slotSize d.level = 0) ∨
      ¬d.BlockEligible input output ∧ Refers T d.level s := by
  obtain ⟨hbase, hend, -, -⟩ := he.chunk hd hmore
  have hblock : d.blockSize = slotSize d.level := by rw [TtDescriptor.blockSize, hd.size, slotSize]
  have hinput := he.input_lt
  have hshift := he.shift
  have hland (x : ℕ) : x &&& (d.blockSize - 1) = x % slotSize d.level := by
    rw [TtDescriptor.blockSize, Nat.and_two_pow_sub_one_eq_mod, hd.size, slotSize]
  have hwrap : (input + delta) % 2 ^ 64 % slotSize d.level = (input + delta) % slotSize d.level :=
    Nat.mod_mod_of_dvd _ (Nat.pow_dvd_pow 2 (by omega))
  have hiff : d.BlockEligible input output ↔
      input % slotSize d.level = 0 ∧ delta % slotSize d.level = 0 := by
    rw [TtDescriptor.BlockEligible, hland, hland, hshift, wrap64, hwrap, hblock]
    constructor
    · rintro ⟨hin, hout, -⟩
      exact ⟨hin, by rwa [Nat.add_mod, hin, Nat.zero_add, Nat.mod_mod] at hout⟩
    · rintro ⟨hin, hdelta⟩
      have hfits : input + slotSize d.level - 1 < 2 ^ 64 := by
        have htop := he.top
        have := Nat.div_mul_cancel (Nat.dvd_of_mod_eq_zero hin)
        omega
      refine ⟨hin, by rw [Nat.add_mod, hin, hdelta, Nat.zero_mod], ?_⟩
      rw [wrap64_of_lt hfits]
      have := Nat.div_mul_cancel (Nat.dvd_of_mod_eq_zero hin)
      omega
  rw [hiff]
  rcases he.chained d.level hlevel with hrefers | hdelta
  · by_cases hboth : input % slotSize d.level = 0 ∧ delta % slotSize d.level = 0
    · exact .inl ⟨hboth, hboth.2⟩
    · exact .inr ⟨hboth, hrefers⟩
  · rcases he.enters d.level le_rfl hlevel with hin | hrefers
    · exact .inl ⟨⟨hin, hdelta⟩, hdelta⟩
    · by_cases hin : input % slotSize d.level = 0
      · exact .inl ⟨⟨hin, hdelta⟩, hdelta⟩
      · exact .inr ⟨fun h => hin h.1, hrefers⟩

/-- A store in the table of a level whose blocks the range can use keeps the chain. -/
theorem Chained.write {level k v : ℕ} (h : Chained T delta s) (hlevel : level ≤ 3) (hk : k < 512)
    (hdelta : level < 3 → delta % slotSize level = 0) :
    Chained T delta (s.write (chain T level + 8 * k) v) := by
  intro l hl
  by_cases hsame : l = level
  · subst hsame
    exact .inr (hdelta hl)
  · exact (h l hl).imp_left fun hrefers => hrefers.write hl hlevel hk hsame

/-- One round goes on, with the chain intact. -/
theorem fillEntry_goesOn (he : Endless T delta s d input output) (hd : OnChain T d)
    (hmore : input < d.inputTop)
    (hnext : ∀ d' s, d'.level = d.level + 1 → d.level < 3 → OnChain T d' →
      Endless T delta s d' d'.inputBase d'.outputBase → GoesOn T delta d'.inputTop (next d' s)) :
    ∀ st s', fillEntry (pgtGlobals 0) T attributes next d input output s = .ok (st, s') →
      st = .success ∧ Chained T delta s' := by
  intro st s' hrun
  obtain ⟨hbase, hend, hchunk, -⟩ := he.chunk hd hmore
  have hblock : d.blockSize = slotSize d.level := by rw [TtDescriptor.blockSize, hd.size, slotSize]
  have hpos : 0 < slotSize d.level := Nat.two_pow_pos _
  have htop := he.top
  have hindex : d.tableIndex input < 512 := by
    rw [TtDescriptor.tableIndex_eq]
    calc input / d.blockSize % 2 ^ d.nbits < 2 ^ d.nbits := Nat.mod_lt _ (Nat.two_pow_pos _)
      _ ≤ 2 ^ 9 := Nat.pow_le_pow_right (by norm_num) hd.nbits.2
  have hdesc : d.tableDesc input = chain T d.level + 8 * d.tableIndex input := by
    rw [TtDescriptor.tableDesc, hd.ttBase]
  have hrange : ¬2 ^ 64 - 1 - (d.blockSize - 1) < d.blockBase input := by
    rw [hblock]
    omega
  have hwidth : ¬2 ^ (pgtGlobals 0).bitsPerLevel ≤ d.tableIndex input := by
    rw [pgtGlobals_zero]
    norm_num
    exact hindex
  unfold fillEntry at hrun
  rw [if_neg hrange, if_neg hwidth] at hrun
  by_cases hlast : d.level = 3
  · rw [if_pos hlast] at hrun
    obtain ⟨rfl, rfl⟩ := Prod.mk.inj (Except.ok.inj hrun)
    rw [hdesc]
    exact ⟨rfl, he.chained.write hd.level_le hindex (by omega)⟩
  · have hlevel : d.level < 3 := by
      have := hd.level_le
      omega
    rw [if_neg hlast] at hrun
    rcases he.eligible_or hd hmore hlevel with ⟨hyes, hdelta⟩ | ⟨hno, hrefers⟩
    · rw [if_pos hyes] at hrun
      obtain ⟨rfl, rfl⟩ := Prod.mk.inj (Except.ok.inj hrun)
      rw [hdesc]
      exact ⟨rfl, he.chained.write hd.level_le hindex fun _ => hdelta⟩
    · -- the table descriptor is stored again as it was
      have hsame : s.write (d.tableDesc input) (tableDescriptor (pgtGlobals 0) (chain T (d.level + 1))) =
          s := by
        rw [tableDescriptor_eq (chain_isTable (T := T) hlevel), hdesc, ← hrefers _ hindex,
          TableState.write, Function.update_eq_self]
      rw [if_neg hno, hdesc, hrefers.ttBaseNextLevel hlevel hindex, ← hdesc] at hrun
      simp only [hsame] at hrun
      have hbelow : OnChain T (d.nextLevel input (pgtGlobals 0) (chain T (d.level + 1)) output) := by
        refine ⟨hlevel, rfl, ?_, ?_⟩
        · have hsize := hd.size
          simp only [TtDescriptor.nextLevel, pgtGlobals_zero]
          omega
        · simp only [TtDescriptor.nextLevel, pgtGlobals_zero]
          omega
      have hdvd : slotSize (d.level + 1) ∣ slotSize d.level := Nat.pow_dvd_pow 2 (by omega)
      have hstart : Endless T delta s (d.nextLevel input (pgtGlobals 0) (chain T (d.level + 1)) output)
          input output := by
        refine ⟨he.chained, fun l hl => he.enters l (Nat.le_of_succ_le hl), he.input_lt, he.page, ?_,
          ?_, he.shift⟩
        · have hstop : d.chunkTop input + 1 = d.blockBase input + slotSize d.level := by omega
          simp only [TtDescriptor.nextLevel]
          rw [hstop, hbase, Nat.add_mod, Nat.mod_eq_zero_of_dvd (hdvd.mul_left _),
            Nat.mod_eq_zero_of_dvd hdvd, Nat.zero_mod]
        · simp only [TtDescriptor.nextLevel]
          omega
      obtain ⟨hst, hchained, -⟩ := hnext _ _ rfl hlevel hbelow hstart st s' hrun
      exact ⟨hst, hchained⟩

/-- The next chunk starts with a slot. -/
theorem Endless.advance (he : Endless T delta s d input output) (hd : OnChain T d)
    (hmore : input < d.inputTop) (hchained : Chained T delta s') :
    Endless T delta s' d (wrap64 (input + d.chunkSize input))
      (wrap64 (output + d.chunkSize input)) := by
  obtain ⟨-, -, -, haligned⟩ := he.chunk hd hmore
  have hdvd (l : ℕ) (hl : d.level ≤ l) : slotSize l ∣ slotSize d.level :=
    Nat.pow_dvd_pow 2 (by omega)
  refine ⟨hchained, fun l hl _ => ?_, Nat.mod_lt _ (by norm_num), ?_, he.stop, he.top, ?_⟩
  · exact .inl (Nat.mod_eq_zero_of_dvd ((hdvd l hl).trans (Nat.dvd_of_mod_eq_zero haligned)))
  · exact Nat.mod_eq_zero_of_dvd ((hdvd 3 hd.level_le).trans (Nat.dvd_of_mod_eq_zero haligned))
  · rw [he.shift]
    unfold wrap64
    omega

/-- The loop goes on, and leaves only before the last address. -/
theorem fillLoop_goesOn (he : Endless T delta s d input output) (hd : OnChain T d)
    (hnext : ∀ d' s, d'.level = d.level + 1 → d.level < 3 → OnChain T d' →
      Endless T delta s d' d'.inputBase d'.outputBase → GoesOn T delta d'.inputTop (next d' s)) :
    GoesOn T delta d.inputTop
      (fillLoop (pgtGlobals 0) T attributes next d fuel input output s) := by
  intro st s' hrun
  induction fuel generalizing input output s with
  | zero => exact nomatch hrun
  | succ fuel ih =>
    rcases fillLoop_cases hrun with ⟨hend, rfl, rfl⟩ | ⟨hmore, ⟨-, hentry⟩ | ⟨s₁, hentry, hrest⟩⟩
    · -- a multiple of the page size is not the last address
      have hinput := he.input_lt
      have hpage := he.page
      exact ⟨rfl, he.chained, by omega⟩
    · exact absurd (fillEntry_goesOn he hd hmore hnext _ _ hentry).1 (by decide)
    · obtain ⟨-, hchained⟩ := fillEntry_goesOn he hd hmore hnext _ _ hentry
      exact ih (he.advance hd hmore hchained) hrest

/-- A call on the chain is not rejected. -/
theorem OnChain.not_invalid (hd : OnChain T d) : ¬d.Invalid (pgtGlobals 0) := by
  have hbounds := (chain_isTable (T := T) hd.level_le).bounds
  have hpos := T.pos
  have hsize := hd.size
  have hnbits := hd.nbits
  have hbase := hd.ttBase
  have hwidth : (pgtGlobals 0).bitsPerLevel = 9 := by rw [pgtGlobals_zero]
  rw [TtDescriptor.Invalid, hwidth]
  omega

/-- A call on the chain goes on, and returns only when its range ends before the last address. -/
theorem fillTranslationTable_goesOn (hdepth : d.level + depth = 3) (hd : OnChain T d)
    (he : Endless T delta s d d.inputBase d.outputBase) :
    GoesOn T delta d.inputTop
      (fillTranslationTable (pgtGlobals 0) T attributes fuel depth d s) := by
  induction depth generalizing d s with
  | zero =>
    unfold fillTranslationTable
    rw [if_neg hd.not_invalid]
    exact fillLoop_goesOn he hd fun _ _ _ hlevel => absurd hdepth (Nat.ne_of_lt hlevel)
  | succ depth ih =>
    unfold fillTranslationTable
    rw [if_neg hd.not_invalid]
    exact fillLoop_goesOn he hd fun _ _ hnextLevel _ hd' he' => ih (by omega) hd' he'

end Diverges

section Create

variable {pgt : PgtDescriptor} {r : MemoryRegion}

/-- A range whose end wraps to 0 ends at the last address. -/
theorem top_eq_of_wrap {stop : ℕ} (hstop : stop % 2 ^ 64 = 0) : sub64 (wrap64 stop) 1 = 2 ^ 64 - 1 := by
  rw [wrap64, hstop]
  decide

/-- An accepted call does not return on tables of the chain when its range ends at the last
address. -/
theorem valPgtCreate_diverges (hias : pgt.ias = 40) (httbr : pgt.ttbr = T.ttL0Base)
    (hr : Accepted pgt r attributes)
    (hlast : (r.virtualAddress % 2 ^ 40 + r.length) % 2 ^ 64 = 0)
    (hdelta : wrap64 (r.virtualAddress % 2 ^ 40 + delta) = r.physicalAddress)
    (hchained : Chained T delta s)
    (henters : ∀ l, l < 3 → r.virtualAddress % 2 ^ 40 % slotSize l = 0 ∨ Refers T l s) :
    ¬∃ fuel r', valPgtCreate 0 T fuel pgt r s = .ok r' := by
  rintro ⟨fuel, ⟨st, s'⟩, hrun⟩
  have haligned := hr.virtualAligned
  rw [valPgtCreate_eq hias httbr hr, top_eq_of_wrap hlast] at hrun
  have hd : OnChain T (rootCall T (r.virtualAddress % 2 ^ 40) (2 ^ 64 - 1) r.physicalAddress) :=
    ⟨Nat.zero_le 3, rfl, rfl, Nat.one_pos, Nat.le_of_ble_eq_true rfl⟩
  have he : Endless T delta s (rootCall T (r.virtualAddress % 2 ^ 40) (2 ^ 64 - 1) r.physicalAddress)
      (r.virtualAddress % 2 ^ 40) r.physicalAddress := by
    refine ⟨hchained, fun l _ hl => henters l hl, by omega, by omega, ?_, ?_, hdelta.symm⟩
    · simp only [rootCall, slotSize]
      norm_num
    · simp only [rootCall]
      norm_num
  obtain ⟨-, -, hbefore⟩ := fillTranslationTable_goesOn rfl hd he st s' hrun
  exact absurd hbefore (lt_irrefl _)

/-- The loop at the root does not end with success when its range ends at the last address: the input
address stays a multiple of the page size. -/
theorem rootLoop_ne_success {va pa : ℕ} (hpage : input % 4096 = 0) (hinput : input < 2 ^ 64) :
    fillLoop g T attributes next (rootCall T va (2 ^ 64 - 1) pa) fuel input output s ≠
      .ok (.success, s') := by
  intro hrun
  induction fuel generalizing input output s with
  | zero => cases hrun
  | succ fuel ih =>
    rcases fillLoop_cases hrun with ⟨hend, -, -⟩ | ⟨-, ⟨herror, -⟩ | ⟨s₁, -, hrest⟩⟩
    · simp only [rootCall] at hend
      omega
    · cases herror
    · have hsize : (rootCall T va (2 ^ 64 - 1) pa).sizeLog2 ≤ 64 := by simp [rootCall]
      have htop : (rootCall T va (2 ^ 64 - 1) pa).blockTop input =
          input / 2 ^ 39 * 2 ^ 39 + 2 ^ 39 - 1 := by
        rw [TtDescriptor.blockTop, TtDescriptor.blockBase_eq hsize hinput]
        rfl
      have hchunk : (rootCall T va (2 ^ 64 - 1) pa).chunkTop input =
          input / 2 ^ 39 * 2 ^ 39 + 2 ^ 39 - 1 := by
        have hlast : (rootCall T va (2 ^ 64 - 1) pa).inputTop = 2 ^ 64 - 1 := rfl
        rw [TtDescriptor.chunkTop, htop, hlast, if_neg (by omega)]
      refine ih ?_ (Nat.mod_lt _ (by norm_num)) hrest
      rw [TtDescriptor.chunkSize, hchunk]
      unfold sub64 wrap64
      omega

/-- A call whose range ends at the last address does not succeed. -/
theorem last_ne_zero_of_success (hias : pgt.ias = 40) (httbr : pgt.ttbr = T.ttL0Base)
    (hrun : valPgtCreate 0 T fuel pgt r s = .ok (.success, s')) :
    (r.virtualAddress % 2 ^ 40 + r.length) % 2 ^ 64 ≠ 0 := by
  intro hlast
  obtain ⟨attributes, hr⟩ := accepted_of_success hrun
  have haligned := hr.virtualAligned
  rw [valPgtCreate_eq hias httbr hr, top_eq_of_wrap hlast] at hrun
  rcases fillTranslationTable_succ_cases hrun with ⟨herror, -⟩ | hloop
  · exact nomatch herror
  · have hpage : r.virtualAddress % 2 ^ 40 % 4096 = 0 := by omega
    exact rootLoop_ne_success hpage (by omega) hloop

/-- Tables whose descriptors all refer to one table of the next level. -/
def chainState (T : TableStorage) : TableState where
  mem a := if a < T.ttL1Base then T.ttL1Base + 3
    else if a < T.ttL2Base 0 then T.ttL2Base 0 + 3 else T.ttL3Base 0 + 3
  l2Used _ := false
  l3Used _ := false

/-- The descriptors of the chain refer to each other. -/
theorem chainState_refers (T : TableStorage) {level : ℕ} (hlevel : level < 3) :
    Refers T level (chainState T) := by
  intro k hk
  have hl1 : T.ttL1Base = T.base + 4096 := rfl
  have hl2 : T.ttL2Base 0 = T.base + 2 * 4096 := rfl
  have hl3 : T.ttL3Base 0 = T.base + 2 * 4096 + 12 * 16384 := rfl
  interval_cases level
  · exact if_pos (by simp only [chain, TableStorage.ttL0Base]; omega)
  · simp only [chainState, chain]
    rw [if_neg (by omega), if_pos (by omega)]
  · simp only [chainState, chain]
    rw [if_neg (by omega), if_neg (by omega)]

/-- With the 4K granule and 40-bit addresses, a call on page-aligned addresses returns from every
state of the tables exactly when the sum of the truncated input address and the length is not 0
modulo `2 ^ 64`, or the stage is unknown. -/
theorem pgt_create_terminates_iff (hias : pgt.ias = 40) (hoas : pgt.oas = 40)
    (httbr : pgt.ttbr = T.ttL0Base) (hvirtual : r.virtualAddress % 4096 = 0)
    (hphysical : r.physicalAddress % 4096 = 0) (hpa : r.physicalAddress < 2 ^ 40) :
    (∀ s, ∃ fuel result, valPgtCreate 0 T fuel pgt r s = .ok result) ↔
      ((pgt.stage = 1 ∨ pgt.stage = 2) →
        (r.virtualAddress % 2 ^ 40 + r.length) % 2 ^ 64 ≠ 0) := by
  constructor
  · intro hreturns hstage hlast
    obtain ⟨attributes, hattr⟩ : ∃ a, stageAttributes pgt.stage r.attributes = some a := by
      rcases hstage with hstage | hstage <;> exact ⟨_, by rw [stageAttributes, hstage]; rfl⟩
    have hr : Accepted pgt r attributes := ⟨hvirtual, hphysical, hoas ▸ hpa, hattr⟩
    have hdelta : wrap64 (r.virtualAddress % 2 ^ 40 +
        (r.physicalAddress + (2 ^ 64 - r.virtualAddress % 2 ^ 40))) = r.physicalAddress := by
      unfold wrap64
      omega
    refine valPgtCreate_diverges hias httbr hr hlast hdelta ?_ ?_ (hreturns (chainState T))
    · exact fun level hlevel => .inl (chainState_refers T hlevel)
    · exact fun level hlevel => .inr (chainState_refers T hlevel)
  · intro hlast s
    cases hattr : stageAttributes pgt.stage r.attributes with
    | none =>
      refine ⟨0, (.error, s), ?_⟩
      unfold valPgtCreate
      split_ifs
      · rfl
      · rfl
      · simp only [hattr]
      · simp only [hattr]
    | some attributes =>
      have hstage : pgt.stage = 1 ∨ pgt.stage = 2 := by
        unfold stageAttributes at hattr
        split_ifs at hattr with hone htwo
        · exact .inl hone
        · exact .inr htwo
      have hr : Accepted pgt r attributes := ⟨hvirtual, hphysical, hoas ▸ hpa, hattr⟩
      refine ⟨2 ^ 64, ?_⟩
      simp only [valPgtCreate_eq hias httbr hr]
      apply fillTranslationTable_returns rfl (by simp [rootCall]) _ le_rfl
      have hne := hlast hstage
      simp only [rootCall, sub64, wrap64]
      omega

/-- Mapping one page returns from every state. -/
theorem pgt_create_terminates_low_page :
    ((∀ s, ∃ fuel result,
        valPgtCreate 0 lowStorage fuel (stage1Pgt lowStorage) lowPage s = .ok result) ↔
      (((stage1Pgt lowStorage).stage = 1 ∨ (stage1Pgt lowStorage).stage = 2) →
        (lowPage.virtualAddress % 2 ^ 40 + lowPage.length) % 2 ^ 64 ≠ 0)) ∧
      (lowPage.virtualAddress % 2 ^ 40 + lowPage.length) % 2 ^ 64 ≠ 0 :=
  ⟨pgt_create_terminates_iff rfl rfl rfl (by decide) (by decide) (by decide), by decide⟩

/-- A region of length 0 at address 0 is filled forever, also in zeroed tables. -/
theorem empty_region_diverges :
    ¬∃ fuel result, valPgtCreate 0 lowStorage fuel (stage1Pgt lowStorage) ⟨0, 0, 0, 0⟩ zeroState =
      .ok result := by
  have hr : Accepted (stage1Pgt lowStorage) ⟨0, 0, 0, 0⟩ attrStage1ApRw :=
    ⟨rfl, rfl, by decide, by decide⟩
  have hdelta : wrap64 (0 % 2 ^ 40 + 0) = 0 := by decide
  refine valPgtCreate_diverges rfl rfl hr (by decide) hdelta ?_ ?_
  · exact fun level _ => .inr (Nat.zero_mod _)
  · exact fun level _ => .inl (Nat.zero_mod _)

end Create

end FfaAcs.PageTable
