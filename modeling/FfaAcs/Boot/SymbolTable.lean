import FfaAcs.Machine.Aarch64

/-!
# Relocating the global offset table

`fix_symbol_table` adds the load offset to the entries of the global offset table that lie between
two limits. The lower limit is compared unsigned and the upper one signed, and the loop tests its end
at the bottom, so that it treats one word even if the table is empty.
-/

namespace FfaAcs.Boot

open Machine Machine.Aarch64

/-- `fix_symbol_table`. The labels are 1 at index 6, 2 at index 10 and 3 at index 17. -/
def fixSymbolTable (pageAlignment gotStart gotEnd valImageLoadOffset : ℕ) : List Instr :=
  [ .mov 6 0,
    .mov 7 1,
    .orr 0 0 1,
    .tst 0 (pageAlignment - 1),
    .bc .eq 6,
    .b 5,
    .andImm 2 30 (not64 (pageAlignment - 1)),
    .sub 0 2 6,
    .adr 1 gotStart,
    .adr 2 gotEnd,
    .ldr 3 1 0,
    .cmp 3 6,
    .bc .lo 17,
    .cmp 3 7,
    .bc .ge 17,
    .add 3 3 0,
    .str 3 1 0,
    .addImm 1 1 8,
    .cmp 1 2,
    .bc .lo 10,
    .adr 1 valImageLoadOffset,
    .str 0 1 0,
    .ret ]

/-- The arguments of a call: the limits, the load offset, and where the table starts and ends. -/
structure Fixup where
  lo : ℕ
  hi : ℕ
  offset : ℕ
  got : ℕ
  gotEnd : ℕ

namespace Fixup

variable (f : Fixup)

/-- The entries that the loop relocates. -/
def Relocates (e : ℕ) : Prop := f.lo ≤ e ∧ signed64 e < signed64 f.hi

instance (e : ℕ) : Decidable (f.Relocates e) := inferInstanceAs (Decidable (_ ∧ _))

/-- The memory after the loop has treated a word. -/
def fixWord (m : ByteMemory) (a : ℕ) : ByteMemory :=
  if f.Relocates (m.load a 8) then m.store a 8 (wrap64 (m.load a 8 + f.offset)) else m

/-- What the loop leaves in place of a word. -/
def fixed (e : ℕ) : ℕ := if f.Relocates e then wrap64 (e + f.offset) else e

/-- The memory after the loop has treated `k` words. -/
def fixWords (m : ByteMemory) : ℕ → ByteMemory
  | 0 => m
  | k + 1 => f.fixWord (fixWords m k) (f.got + 8 * k)

/-- A state inside the loop, with the word and the memory it has come to. -/
structure Inside (pc a : ℕ) (m : ByteMemory) (s : Cpu) : Prop where
  pc : s.pc = pc
  running : s.returned = false
  x0 : s.regs 0 = f.offset
  x1 : s.regs 1 = a
  x2 : s.regs 2 = f.gotEnd
  x6 : s.regs 6 = f.lo
  x7 : s.regs 7 = f.hi
  mem : s.mem = m

end Fixup

section

variable {pageAlignment valImageLoadOffset a : ℕ} {f : Fixup} {m : ByteMemory} {s : Cpu}

/-- From label 2 to label 3: a word is treated. -/
theorem leads_fixWord (h : f.Inside 10 a m s) (ha : a < 2 ^ 64) (hhi : f.hi < 2 ^ 64) :
    Leads (fixSymbolTable pageAlignment f.got f.gotEnd valImageLoadOffset) s
      (f.Inside 17 a (f.fixWord m a)) := by
  obtain ⟨regs, flags, mem, pc, returned⟩ := s
  obtain ⟨rfl, rfl, x0, rfl, x2, x6, x7, rfl⟩ := h
  simp only at ha x0 x2 x6 x7
  have hword := mem.load_lt (regs 1) 8
  have haddr : wrap64 (regs 1 + 0) = regs 1 := wrap64_of_lt ha
  have hskip (h : ¬f.Relocates (mem.load (regs 1) 8)) : mem = f.fixWord mem (regs 1) := (if_neg h).symm
  -- the word is loaded and compared with the lower limit
  refine .exec rfl rfl ?_
  refine .exec rfl rfl ?_
  refine .branch (p := mem.load (regs 1) 8 < f.lo) rfl rfl ?_ (fun hlow => ?_) fun hlow => ?_
  · change Cond.lo.holds (.ofSub (mem.load (wrap64 (regs 1 + 0)) 8) (regs 6)) = _
    rw [haddr, x6, holds_lo_ofSub]
  · have hkept := hskip fun hrel => absurd hrel.1 (by omega)
    exact .here ⟨rfl, rfl, x0, rfl, x2, x6, x7, hkept⟩
  -- it is compared with the upper limit, as a signed number
  refine .exec rfl rfl ?_
  refine .branch (p := signed64 f.hi ≤ signed64 (mem.load (regs 1) 8)) rfl rfl ?_ (fun hhigh => ?_)
    fun hhigh => ?_
  · change Cond.ge.holds (.ofSub (mem.load (wrap64 (regs 1 + 0)) 8) (regs 7)) = _
    rw [haddr, x7, holds_ge_ofSub hword hhi]
  · have hkept := hskip fun hrel => absurd hrel.2 (by omega)
    exact .here ⟨rfl, rfl, x0, rfl, x2, x6, x7, hkept⟩
  -- the offset is added, and the word is stored
  refine .exec rfl rfl ?_
  refine .exec rfl rfl ?_
  refine .here ⟨rfl, rfl, x0, rfl, x2, x6, x7, ?_⟩
  rw [Fixup.fixWord, if_pos ⟨Nat.le_of_not_lt hlow, lt_of_not_ge hhigh⟩]
  change mem.store (wrap64 (regs 1 + 0)) 8 (wrap64 (mem.load (wrap64 (regs 1 + 0)) 8 + regs 0)) = _
  rw [haddr, x0]

/-- From label 3 back to label 2, or out of the loop. -/
theorem leads_next (pageAlignment valImageLoadOffset : ℕ) (h : f.Inside 17 a m s) (ha : a + 8 < 2 ^ 64) :
    Leads (fixSymbolTable pageAlignment f.got f.gotEnd valImageLoadOffset) s
      (f.Inside (if a + 8 < f.gotEnd then 10 else 20) (a + 8) m) := by
  obtain ⟨regs, flags, mem, pc, returned⟩ := s
  obtain ⟨rfl, rfl, x0, rfl, x2, x6, x7, rfl⟩ := h
  simp only at ha x0 x2 x6 x7
  have haddr : wrap64 (regs 1 + 8) = regs 1 + 8 := wrap64_of_lt ha
  refine .exec rfl rfl (.exec rfl rfl (.branch (p := regs 1 + 8 < f.gotEnd) rfl rfl ?_
    (fun hmore => ?_) fun hmore => ?_))
  · change Cond.lo.holds (.ofSub (wrap64 (regs 1 + 8)) (regs 2)) = _
    rw [haddr, x2, holds_lo_ofSub]
  · rw [if_pos hmore]
    exact .here ⟨rfl, rfl, x0, haddr, x2, x6, x7, rfl⟩
  · rw [if_neg hmore]
    exact .here ⟨rfl, rfl, x0, haddr, x2, x6, x7, rfl⟩

/-- Behind the loop the offset is stored, and the function returns. -/
theorem leads_return (h : f.Inside 20 a m s) (hvar : valImageLoadOffset < 2 ^ 64) :
    Leads (fixSymbolTable pageAlignment f.got f.gotEnd valImageLoadOffset) s fun t =>
      t.returned = true ∧ t.mem = m.store valImageLoadOffset 8 f.offset := by
  obtain ⟨regs, flags, mem, pc, returned⟩ := s
  obtain ⟨rfl, rfl, x0, rfl, x2, x6, x7, rfl⟩ := h
  simp only at x0
  refine .exec rfl rfl (.exec rfl rfl (.exec rfl rfl (.here ⟨rfl, ?_⟩)))
  change mem.store (wrap64 (valImageLoadOffset + 0)) 8 (regs 0) = _
  rw [x0, Nat.add_zero, wrap64_of_lt hvar]

/-- The loop treats as many words as the table has, and one if the table is empty. -/
theorem leads_loop {n : ℕ} (h : f.Inside 10 f.got m s) (hhi : f.hi < 2 ^ 64)
    (hend : f.gotEnd = f.got + 8 * n) (hroom : f.got + 8 * max n 1 < 2 ^ 64) :
    Leads (fixSymbolTable pageAlignment f.got f.gotEnd valImageLoadOffset) s
      (f.Inside 20 (f.got + 8 * max n 1) (f.fixWords m (max n 1))) := by
  obtain ⟨k, hk⟩ : ∃ k, max n 1 = k + 1 := ⟨max n 1 - 1, by omega⟩
  rw [hk] at hroom ⊢
  have hword (j : ℕ) (hj : j ≤ k) (t : Cpu) (ht : f.Inside 10 (f.got + 8 * j) (f.fixWords m j) t) :
      Leads (fixSymbolTable pageAlignment f.got f.gotEnd valImageLoadOffset) t
        (f.Inside (if j < k then 10 else 20) (f.got + 8 * (j + 1)) (f.fixWords m (j + 1))) := by
    refine (leads_fixWord ht (by omega) hhi).trans fun u hu => ?_
    have hnext := leads_next pageAlignment valImageLoadOffset hu (by omega)
    have hmore : (f.got + 8 * j + 8 < f.gotEnd) ↔ j < k := by omega
    simp only [hmore] at hnext
    exact hnext
  have hlast := hword k le_rfl
  rw [if_neg (lt_irrefl k)] at hlast
  refine Leads.trans (Leads.loop (I := fun j => f.Inside 10 (f.got + 8 * j) (f.fixWords m j))
    (n := k) (fun j hj t ht => ?_) h) hlast
  have hbody := hword j hj.le t ht
  rw [if_pos hj] at hbody
  exact hbody

/-- The page of an address, as the mask of the source takes it. -/
def page (pageBits x : ℕ) : ℕ := x / 2 ^ pageBits * 2 ^ pageBits

/-- The test that two limits are page aligned. -/
theorem lor_land_of_dvd {pageBits lo hi : ℕ} (hlo : 2 ^ pageBits ∣ lo) (hhi : 2 ^ pageBits ∣ hi) :
    (lo ||| hi) &&& (2 ^ pageBits - 1) = 0 := by
  rw [Nat.and_two_pow_sub_one_eq_mod, Nat.or_mod_two_pow, Nat.mod_eq_zero_of_dvd hlo,
    Nat.mod_eq_zero_of_dvd hhi, Nat.or_zero]

/-- The call of the function with page-aligned limits comes to the loop. -/
theorem leads_start {pageBits : ℕ} (valImageLoadOffset : ℕ) (hbits : pageBits ≤ 64) (hpc : s.pc = 0)
    (hrunning : s.returned = false) (hx0 : s.regs 0 = f.lo) (hx1 : s.regs 1 = f.hi)
    (hx30 : s.regs 30 < 2 ^ 64) (hlo : 2 ^ pageBits ∣ f.lo) (hhi : 2 ^ pageBits ∣ f.hi)
    (hoffset : f.offset = sub64 (page pageBits (s.regs 30)) f.lo) :
    Leads (fixSymbolTable (2 ^ pageBits) f.got f.gotEnd valImageLoadOffset) s
      (f.Inside 10 f.got s.mem) := by
  obtain ⟨regs, flags, mem, pc, returned⟩ := s
  simp only at hpc hrunning hx0 hx1 hx30 hoffset
  subst hpc hrunning
  have haligned : (regs 0 ||| regs 1) &&& (2 ^ pageBits - 1) = 0 := by
    rw [hx0, hx1, lor_land_of_dvd hlo hhi]
  -- the limits are moved away and tested
  refine .exec rfl rfl (.exec rfl rfl ?_)
  refine .exec rfl rfl (.exec rfl rfl ?_)
  refine .taken rfl rfl ?_ ?_
  · change Cond.eq.holds (.ofAnd (regs 0 ||| regs 1) (2 ^ pageBits - 1)) = true
    rw [holds_eq_ofAnd, decide_eq_true haligned]
  -- the offset is computed from the return address, and the table is found
  refine .exec rfl rfl (.exec rfl rfl ?_)
  refine .exec rfl rfl (.exec rfl rfl ?_)
  refine .here ⟨rfl, rfl, ?_, rfl, rfl, hx0, hx1, rfl⟩
  change sub64 (regs 30 &&& not64 (2 ^ pageBits - 1)) (regs 0) = f.offset
  rw [land_not64 hbits hx30, hx0, hoffset, page]

/-- What a whole call leaves in memory. -/
theorem leads_fixWords {pageBits n : ℕ} (hbits : pageBits ≤ 64) (hpc : s.pc = 0)
    (hrunning : s.returned = false) (hx0 : s.regs 0 = f.lo) (hx1 : s.regs 1 = f.hi)
    (hx30 : s.regs 30 < 2 ^ 64) (hlo : 2 ^ pageBits ∣ f.lo) (hhi : 2 ^ pageBits ∣ f.hi)
    (hword : f.hi < 2 ^ 64) (hoffset : f.offset = sub64 (page pageBits (s.regs 30)) f.lo)
    (hend : f.gotEnd = f.got + 8 * n) (hroom : f.got + 8 * max n 1 < 2 ^ 64)
    (hvar : valImageLoadOffset < 2 ^ 64) :
    Leads (fixSymbolTable (2 ^ pageBits) f.got f.gotEnd valImageLoadOffset) s fun t =>
      t.returned = true ∧
        t.mem = (f.fixWords s.mem (max n 1)).store valImageLoadOffset 8 f.offset := by
  have hstart := leads_start valImageLoadOffset hbits hpc hrunning hx0 hx1 hx30 hlo hhi hoffset
  exact hstart.trans fun t ht => (leads_loop ht hword hend hroom).trans fun u hu => leads_return hu hvar

end

/-! ## The words after the loop -/

namespace Fixup

variable {f : Fixup} {m : ByteMemory} {a x k : ℕ}

/-- Nothing changes outside the word. -/
theorem fixWord_outside (h : x < a ∨ a + 8 ≤ x) : f.fixWord m a x = m x := by
  unfold fixWord
  split
  · exact ByteMemory.store_outside m h
  · rfl

/-- The word that has been treated. -/
theorem load_fixWord_same : (f.fixWord m a).load a 8 = f.fixed (m.load a 8) := by
  unfold fixWord fixed
  split
  · rw [ByteMemory.load_store_same]
    exact Nat.mod_mod _ _
  · rfl

/-- A word apart from the one that has been treated. -/
theorem load_fixWord_apart {b : ℕ} (h : Apart a 8 b 8) : (f.fixWord m a).load b 8 = m.load b 8 :=
  ByteMemory.load_congr fun _ hlow hhigh => fixWord_outside (by omega)

/-- Nothing changes outside the words. -/
theorem fixWords_outside (h : x < f.got ∨ f.got + 8 * k ≤ x) : f.fixWords m k x = m x := by
  induction k with
  | zero => rfl
  | succ k ih => rw [fixWords, fixWord_outside (by omega), ih (by omega)]

/-- A word is treated once, and as it was before the loop. -/
theorem load_fixWords (j : ℕ) :
    (f.fixWords m k).load (f.got + 8 * j) 8 =
      if j < k then f.fixed (m.load (f.got + 8 * j) 8) else m.load (f.got + 8 * j) 8 := by
  induction k with
  | zero => rfl
  | succ k ih =>
    rw [fixWords]
    rcases Nat.lt_trichotomy j k with hlt | rfl | hgt
    · rw [load_fixWord_apart (by omega), ih, if_pos hlt, if_pos (by omega)]
    · rw [load_fixWord_same, ih, if_neg (lt_irrefl j), if_pos (by omega)]
    · rw [load_fixWord_apart (by omega), ih, if_neg (by omega), if_neg (by omega)]

/-- Adding an offset to a word keeps its low bytes exactly if the offset is a multiple of their width. -/
theorem wrap64_add_mod_iff {w offset n : ℕ} (hn : n ≤ 8) :
    wrap64 (w + offset) % 256 ^ n = w % 256 ^ n ↔ 256 ^ n ∣ offset := by
  have hdvd : 256 ^ n ∣ 2 ^ 64 := pow_dvd_pow 256 hn
  rw [wrap64, Nat.mod_mod_of_dvd _ hdvd, ← Nat.modEq_zero_iff_dvd]
  exact ⟨fun h => Nat.ModEq.add_left_cancel' w h, fun h => Nat.ModEq.add_left w h⟩

/-- If the first `n` bytes of a word are those outside the eight bytes at `v`, relocating the word leaves
them as they are exactly if the offset is a multiple of `256 ^ n`. -/
theorem fixWord_kept_iff_dvd {v n : ℕ} (hn : n ≤ 8) (hrel : f.Relocates (m.load a 8))
    (hout : ∀ x, a ≤ x → x < a + 8 → ((x < v ∨ v + 8 ≤ x) ↔ x < a + n)) :
    (∀ x, (x < v ∨ v + 8 ≤ x) → f.fixWord m a x = m x) ↔ 256 ^ n ∣ f.offset := by
  have hbytes : (∀ x, (x < v ∨ v + 8 ≤ x) → f.fixWord m a x = m x) ↔
      ∀ x, a ≤ x → x < a + n → m.store a 8 (wrap64 (m.load a 8 + f.offset)) x = m x := by
    rw [fixWord, if_pos hrel]
    constructor
    · exact fun h x hlow hhigh => h x ((hout x hlow (by omega)).mpr hhigh)
    · intro h x hx
      by_cases hin : a ≤ x ∧ x < a + 8
      · exact h x hin.1 ((hout x hin.1 hin.2).mp hx)
      · exact ByteMemory.store_outside m (by omega)
  have hlow : m.load a 8 % 256 ^ n = m.load a n := by
    have hmod := m.load_mod a n (8 - n)
    rwa [Nat.add_sub_cancel' hn] at hmod
  rw [hbytes, ByteMemory.store_low_eq_iff m hn, ← hlow, wrap64_add_mod_iff hn]

/-- Treating a word changes no byte outside the eight bytes at `v` exactly if the word is not relocated, or
the bytes of it before `v` stay as they are. -/
theorem fixWord_kept_iff {v : ℕ} (hapart : v + 8 ≤ a ∨ a ≤ v) (hoffset : f.offset < 2 ^ 64) :
    (∀ x, (x < v ∨ v + 8 ≤ x) → f.fixWord m a x = m x) ↔
      (f.Relocates (m.load a 8) → f.offset = 0 ∨ a ≤ v ∧ 256 ^ (v - a) ∣ f.offset) := by
  by_cases hrel : f.Relocates (m.load a 8)
  · rw [forall_prop_of_true hrel]
    by_cases hcovers : a ≤ v ∧ v < a + 8
    · rw [fixWord_kept_iff_dvd (n := v - a) (by omega) hrel fun x _ _ => by omega]
      constructor
      · exact fun hdvd => .inr ⟨hcovers.1, hdvd⟩
      · rintro (hzero | ⟨-, hdvd⟩)
        · exact hzero ▸ dvd_zero _
        · exact hdvd
    · rw [fixWord_kept_iff_dvd (n := 8) le_rfl hrel fun x _ _ => by omega]
      constructor
      · exact fun hdvd => .inl (Nat.eq_zero_of_dvd_of_lt hdvd hoffset)
      · rintro (hzero | ⟨habove, hdvd⟩)
        · exact hzero ▸ dvd_zero _
        · exact (pow_dvd_pow 256 (by omega)).trans hdvd
  · rw [fixWord, if_neg hrel]
    exact iff_of_true (fun _ _ => rfl) fun h => absurd h hrel

end Fixup

/-! ## Whole calls -/

/-- What the function is for: the entries between the limits, compared unsigned, are moved by the
distance between the address where the image lies and the one it was linked for. -/
structure SymbolsFixed (lo hi load got n valImageLoadOffset : ℕ) (m m' : ByteMemory) : Prop where
  entry : ∀ i < n, m'.load (got + 8 * i) 8 =
    if lo ≤ m.load (got + 8 * i) 8 ∧ m.load (got + 8 * i) 8 < hi then
      wrap64 (m.load (got + 8 * i) 8 + sub64 load lo)
    else m.load (got + 8 * i) 8
  frame : ∀ x, (x < got ∨ got + 8 * n ≤ x) →
    (x < valImageLoadOffset ∨ valImageLoadOffset + 8 ≤ x) → m' x = m x

/-- An entry is treated as it should be exactly if the signed comparison does not matter. -/
theorem fixed_eq_iff (f : Fixup) {e : ℕ} (he : e < 2 ^ 64) (hoffset : f.offset < 2 ^ 64) :
    f.fixed e = (if f.lo ≤ e ∧ e < f.hi then wrap64 (e + f.offset) else e) ↔
      (f.lo ≤ e → f.offset ≠ 0 → (signed64 e < signed64 f.hi ↔ e < f.hi)) := by
  have hmoves : wrap64 (e + f.offset) = e ↔ f.offset = 0 := by
    unfold wrap64
    omega
  have hstays : e = wrap64 (e + f.offset) ↔ f.offset = 0 := eq_comm.trans hmoves
  unfold Fixup.fixed Fixup.Relocates
  by_cases hlow : f.lo ≤ e
  · by_cases hsigned : signed64 e < signed64 f.hi <;> by_cases hhigh : e < f.hi <;>
      simp [hlow, hsigned, hhigh, hmoves, hstays]
  · simp [hlow]

/-- When the memory that a call leaves is the right one. For an empty table, the word that the loop
treats all the same must not change outside the variable that holds the offset: it is not relocated, or the
offset has no effect on the bytes before this variable. -/
theorem symbolsFixed_iff (f : Fixup) {n load valImageLoadOffset : ℕ} (m : ByteMemory)
    (hoffset : f.offset = sub64 load f.lo) (hapart : Apart valImageLoadOffset 8 f.got (8 * n)) :
    SymbolsFixed f.lo f.hi load f.got n valImageLoadOffset m
        ((f.fixWords m (max n 1)).store valImageLoadOffset 8 f.offset) ↔
      (∀ i < n, f.lo ≤ m.load (f.got + 8 * i) 8 → f.offset ≠ 0 →
        (signed64 (m.load (f.got + 8 * i) 8) < signed64 f.hi ↔ m.load (f.got + 8 * i) 8 < f.hi)) ∧
      (n = 0 → f.lo ≤ m.load f.got 8 → signed64 (m.load f.got 8) < signed64 f.hi →
        f.offset = 0 ∨ f.got ≤ valImageLoadOffset ∧ 256 ^ (valImageLoadOffset - f.got) ∣ f.offset) := by
  have hbound : f.offset < 2 ^ 64 := by
    rw [hoffset]
    exact Nat.mod_lt _ (by norm_num)
  have hentry (i : ℕ) (hi : i < n) :
      ((f.fixWords m (max n 1)).store valImageLoadOffset 8 f.offset).load (f.got + 8 * i) 8 =
        f.fixed (m.load (f.got + 8 * i) 8) := by
    rw [ByteMemory.load_store_apart _ (by omega), Fixup.load_fixWords, if_pos (by omega)]
  have hright (i : ℕ) := fixed_eq_iff f (m.load_lt (f.got + 8 * i) 8) hbound
  have hempty (hn : n = 0) := Fixup.fixWord_kept_iff (f := f) (m := m) (a := f.got)
    (v := valImageLoadOffset) (by omega) hbound
  rw [hoffset] at hright
  constructor
  · rintro ⟨hentries, hframe⟩
    refine ⟨fun i hi => ?_, ?_⟩
    · rw [hoffset]
      exact (hright i).mp ((hentry i hi).symm.trans (hentries i hi))
    · rintro rfl hlow hhigh
      refine (hempty rfl).mp (fun x hx => ?_) ⟨hlow, hhigh⟩
      have hkept := hframe x (by omega) hx
      rw [ByteMemory.store_outside _ hx] at hkept
      exact hkept
  · rintro ⟨hentries, hword⟩
    rw [hoffset] at hentries
    refine ⟨fun i hi => (hentry i hi).trans ((hright i).mpr (hentries i hi)), fun x hgot hx => ?_⟩
    rw [ByteMemory.store_outside _ hx]
    rcases Nat.eq_zero_or_pos n with rfl | hpos
    · exact (hempty rfl).mpr (fun hrel => hword rfl hrel.1 hrel.2) x hx
    · exact Fixup.fixWords_outside (by omega)

/-- For every table, limits and load address, a call relocates the table as it should exactly if the
signed comparison agrees with the unsigned one on the entries from the lower limit on (or nothing is
to be moved), and for an empty table the word at its start is below the lower limit, or not below the upper
one as a signed number, or moved by zero, or changed only where the offset is stored afterwards. -/
theorem fix_symbol_table_iff (pageBits lo hi got n valImageLoadOffset : ℕ)
    (hbits : pageBits = 12 ∨ pageBits = 14 ∨ pageBits = 16) (hlo : 2 ^ pageBits ∣ lo)
    (hhi : 2 ^ pageBits ∣ hi) (hhigh : hi < 2 ^ 64) (hroom : got + 8 * max n 1 < 2 ^ 64)
    (hvar : valImageLoadOffset < 2 ^ 64) (hapart : Apart valImageLoadOffset 8 got (8 * n)) (s : Cpu)
    (hpc : s.pc = 0) (hrunning : s.returned = false) (hx0 : s.regs 0 = lo) (hx1 : s.regs 1 = hi)
    (hx30 : s.regs 30 < 2 ^ 64) :
    Leads (fixSymbolTable (2 ^ pageBits) got (got + 8 * n) valImageLoadOffset) s (fun t =>
        t.returned = true ∧
          SymbolsFixed lo hi (page pageBits (s.regs 30)) got n valImageLoadOffset s.mem t.mem) ↔
      (∀ i < n, lo ≤ s.mem.load (got + 8 * i) 8 → sub64 (page pageBits (s.regs 30)) lo ≠ 0 →
        (signed64 (s.mem.load (got + 8 * i) 8) < signed64 hi ↔ s.mem.load (got + 8 * i) 8 < hi)) ∧
      (n = 0 → lo ≤ s.mem.load got 8 → signed64 (s.mem.load got 8) < signed64 hi →
        sub64 (page pageBits (s.regs 30)) lo = 0 ∨ got ≤ valImageLoadOffset ∧
          256 ^ (valImageLoadOffset - got) ∣ sub64 (page pageBits (s.regs 30)) lo) := by
  have hcall := leads_fixWords (f := ⟨lo, hi, sub64 (page pageBits (s.regs 30)) lo, got, got + 8 * n⟩)
    (by omega) hpc hrunning hx0 hx1 hx30 hlo hhi hhigh rfl rfl hroom hvar
  rw [Leads.mem_of_stop (fun _ => step_of_returned) hcall]
  exact symbolsFixed_iff ⟨lo, hi, sub64 (page pageBits (s.regs 30)) lo, got, got + 8 * n⟩ s.mem rfl
    hapart

/-- A call with the limits of an image linked at 1 GiB, which lies one page higher. -/
def fixupCall (m : ByteMemory) : Cpu where
  regs r := if r = 0 then 0x40000000 else if r = 1 then 0x40400000 else if r = 30 then 0x40001000 else 0
  flags := ⟨false, false, false, false⟩
  mem := m
  pc := 0
  returned := false

/-- A table at `0x2000` whose only entry is the given value. -/
def oneEntry (e : ℕ) : ByteMemory := ByteMemory.store (fun _ => 0) 0x2000 8 e

/-- An entry in the upper half of the address space is moved, and so is a word that looks like an
address in the image where the table is empty. -/
theorem fix_symbol_table_moves_others :
    ¬ Leads (fixSymbolTable (2 ^ 12) 0x2000 (0x2000 + 8 * 1) 0x3000)
        (fixupCall (oneEntry 0xffffffffffff0000)) (fun t => t.returned = true ∧
          SymbolsFixed 0x40000000 0x40400000 0x40001000 0x2000 1 0x3000 (oneEntry 0xffffffffffff0000)
            t.mem) ∧
      ¬ Leads (fixSymbolTable (2 ^ 12) 0x2000 (0x2000 + 8 * 0) 0x3000)
        (fixupCall (oneEntry 0x40000100)) (fun t => t.returned = true ∧
          SymbolsFixed 0x40000000 0x40400000 0x40001000 0x2000 0 0x3000 (oneEntry 0x40000100)
            t.mem) := by
  constructor
  · have hcall := leads_fixWords (f := ⟨0x40000000, 0x40400000, 0x1000, 0x2000, 0x2000 + 8 * 1⟩)
      (s := fixupCall (oneEntry 0xffffffffffff0000)) (n := 1) (by decide : 12 ≤ 64) rfl rfl rfl rfl
      (by decide) (by decide) (by decide) (by decide) (by decide) rfl (by decide)
      (by decide : 0x3000 < 2 ^ 64)
    rw [Leads.mem_of_stop (fun _ => step_of_returned) hcall]
    rintro ⟨hentry, -⟩
    exact absurd (hentry 0 (by decide)) (by decide)
  · have hcall := leads_fixWords (f := ⟨0x40000000, 0x40400000, 0x1000, 0x2000, 0x2000 + 8 * 0⟩)
      (s := fixupCall (oneEntry 0x40000100)) (n := 0) (by decide : 12 ≤ 64) rfl rfl rfl rfl
      (by decide) (by decide) (by decide) (by decide) (by decide) rfl (by decide)
      (by decide : 0x3000 < 2 ^ 64)
    rw [Leads.mem_of_stop (fun _ => step_of_returned) hcall]
    rintro ⟨-, hframe⟩
    exact absurd (hframe 0x2001 (by decide) (by decide)) (by decide)

/-- An entry of the image is relocated. -/
theorem fix_symbol_table_of_image_entry :
    Leads (fixSymbolTable (2 ^ 12) 0x2000 (0x2000 + 8 * 1) 0x3000) (fixupCall (oneEntry 0x40000100))
      (fun t => t.returned = true ∧
        SymbolsFixed 0x40000000 0x40400000 (page 12 0x40001000) 0x2000 1 0x3000 (oneEntry 0x40000100)
          t.mem) := by
  refine (fix_symbol_table_iff 12 0x40000000 0x40400000 0x2000 1 0x3000 (by decide) (by decide)
    (by decide) (by decide) (by decide) (by decide) (by decide) (fixupCall (oneEntry 0x40000100)) rfl rfl
    rfl rfl (by decide)).mpr ⟨fun i hi => ?_, fun h => by cases h⟩
  obtain rfl : i = 0 := by omega
  intro _ _
  decide

end FfaAcs.Boot
