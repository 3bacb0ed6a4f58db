import FfaAcs.Machine.Runs
import FfaAcs.Machine.WordArithmetic
import Mathlib.Logic.Function.Basic

/-!
# Which core an interrupt is sent to

The driver of either generation of the interrupt controller keeps a table with one entry for each core,
which a core fills when it probes its own interface. A call that sends or routes an interrupt looks up
the entry of a core, and an assertion is to stop it if that core has not been probed.

The tables are initialised with the value for a core that has not been probed. The initialiser names one
value, which in C is that of the first entry; the others are zero.

A failed assertion ends the program, and is `none` here.
-/

namespace FfaAcs.Driver

open Machine

/-- `PLATFORM_NO_OF_CPUS`. -/
def platformNoOfCpus : ℕ := 8

/-- An array whose initialiser has one value. -/
def firstInitialised (v : ℕ) : ℕ → ℕ := fun i => if i = 0 then v else 0

/-- `IS_SGI`. -/
def IsSgi (irq : ℕ) : Prop := irq ≤ 15

/-- `IS_SPI`. -/
def IsSpi (irq : ℕ) : Prop := 32 ≤ irq ∧ irq ≤ 1019

instance (irq : ℕ) : Decidable (IsSgi irq) := inferInstanceAs (Decidable (_ ≤ _))

instance (irq : ℕ) : Decidable (IsSpi irq) := inferInstanceAs (Decidable (_ ∧ _))

/-- `MPIDR_AFF_ID`, with the shift of the level. -/
def mpidrAffId (mpidr shift : ℕ) : ℕ := (mpidr >>> shift) &&& 0xff

/-- `MPIDR_AFFINITY_MASK`. -/
def mpidrAffinityMask : ℕ := 0xff00ffffff

/-- `platform_get_core_pos`. -/
def platformGetCorePos (mpid : ℕ) : ℕ :=
  let x := if mpid &&& (1 <<< 24) = 0 then wrap64 (mpid <<< 8) else mpid
  (mpidrAffId x 16 * 4 + mpidrAffId x 8) * 1 + mpidrAffId x 0

/-- The cores of a platform, each at its own position. -/
structure Cores where
  mpidr : Fin platformNoOfCpus → ℕ
  pos : ∀ p, platformGetCorePos (mpidr p) = p

/-! ## What the driver has recorded -/

/-- For each core, the interface that it has recorded by a probe of its own. -/
abbrev Recorded := ℕ → Option ℕ

/-- A table that holds what has been recorded, and its initial values elsewhere. -/
def Holds (table : ℕ → ℕ) (sentinel : ℕ) (r : Recorded) : Prop :=
  ∀ p, table p = (r p).getD (firstInitialised sentinel p)

/-- No core has been probed. -/
theorem holds_initial (sentinel : ℕ) : Holds (firstInitialised sentinel) sentinel fun _ => none :=
  fun _ => rfl

/-- A core records its interface. -/
theorem Holds.update {table : ℕ → ℕ} {sentinel : ℕ} {r : Recorded} (h : Holds table sentinel r) (p v : ℕ) :
    Holds (Function.update table p v) sentinel (Function.update r p (some v)) := by
  intro q
  by_cases hq : q = p
  · rw [hq, Function.update_self, Function.update_self, Option.getD_some]
  · rw [Function.update_of_ne hq, Function.update_of_ne hq, h q]

/-- A call stops, or what it writes selects the interface that the core has recorded, and no other. -/
def Reaches {α : Type} (outcome : Option α) (recorded : Option ℕ) (selects : α → ℕ → Prop) : Prop :=
  ∀ w ∈ outcome, ∃ a, recorded = some a ∧ ∀ b, selects w b ↔ b = a

/-- A call for a core that has not been probed must stop. -/
theorem reaches_none {α : Type} {outcome : Option α} {selects : α → ℕ → Prop} :
    Reaches outcome none selects ↔ outcome = none := by
  constructor
  · intro h
    cases houtcome : outcome with
    | none => rfl
    | some w =>
      obtain ⟨a, ha, -⟩ := h w houtcome
      cases ha
  · rintro rfl w hw
    cases hw

/-! ## The third generation -/

namespace V3

/-- The static variables of the driver. -/
structure State where
  gicrBaseAddr : ℕ
  gicdBaseAddr : ℕ
  rdistPcpuBase : ℕ → ℕ
  mpidrList : ℕ → ℕ

/-- `UINT64_MAX`. -/
def uint64Max : ℕ := 2 ^ 64 - 1

/-- The variables at the start, with the addresses that `gicv3_init` stores. -/
def initial (gicrBaseAddr gicdBaseAddr : ℕ) : State :=
  ⟨gicrBaseAddr, gicdBaseAddr, fun _ => 0, firstInitialised uint64Max⟩

/-- `gic_typer_affinity_from_mpidr`. -/
def gicTyperAffinityFromMpidr (mpidr : ℕ) : ℕ :=
  (mpidr &&& not64 (0xff <<< 32)) ||| ((mpidr &&& (0xff <<< 32)) >>> 8)

/-- The loop over the frames of the redistributors, given by their type registers. It ends behind the
frame that is marked as the last one. -/
def findFrame (affinity : ℕ) : List ℕ → ℕ → Option ℕ
  | [], _ => none
  | typer :: rest, base =>
    if affinity = (typer >>> 32) &&& 0xffffffff then some base
    else if typer &&& (1 <<< 4) ≠ 0 then none
    else findFrame affinity rest (wrap64 (base + (1 <<< 0x11)))

variable (cores : Cores) (typers : List ℕ)

/-- The affinity of a core. -/
def affinity (p : Fin platformNoOfCpus) : ℕ := cores.mpidr p &&& mpidrAffinityMask

/-- The frame of a core. -/
def frameOf (gicrBaseAddr : ℕ) (p : Fin platformNoOfCpus) : Option ℕ :=
  findFrame (gicTyperAffinityFromMpidr (affinity cores p)) typers gicrBaseAddr

/-- `gicv3_probe_redistif_addr` on a core. -/
def gicv3ProbeRedistifAddr (d : State) (p : Fin platformNoOfCpus) : Option State :=
  let corePos := platformGetCorePos (cores.mpidr p)
  if d.gicrBaseAddr = 0 then none
  else if d.rdistPcpuBase corePos ≠ 0 then some d
  else
    match frameOf cores typers d.gicrBaseAddr p with
    | some base =>
      some { d with
        rdistPcpuBase := Function.update d.rdistPcpuBase corePos base
        mpidrList := Function.update d.mpidrList corePos (cores.mpidr p &&& mpidrAffinityMask) }
    | none => some d

/-- What a probe records: the affinity of the core, if its frame is found. -/
def record (gicrBaseAddr : ℕ) (r : Recorded) (p : Fin platformNoOfCpus) : Recorded :=
  if (frameOf cores typers gicrBaseAddr p).isSome then Function.update r p (some (affinity cores p)) else r

/-- `gicv3_send_sgi`: the value written to `ICC_SGI1R`. -/
def gicv3SendSgi (d : State) (sgiId corePos : ℕ) : Option ℕ :=
  if ¬IsSgi sgiId then none
  else if ¬corePos < platformNoOfCpus then none
  else if d.mpidrList corePos = uint64Max then none
  else
    let aff0 := mpidrAffId (d.mpidrList corePos) 0
    let aff1 := mpidrAffId (d.mpidrList corePos) 8
    let aff2 := mpidrAffId (d.mpidrList corePos) 16
    let aff3 := mpidrAffId (d.mpidrList corePos) 32
    if ¬aff0 < 16 then none
    else
      let targetList := 1 <<< aff0
      some (((aff3 &&& 0xff) <<< 48 ||| (aff2 &&& 0xff) <<< 32 ||| (aff1 &&& 0xff) <<< 16 |||
        (targetList &&& 0xffff) <<< 0) ||| (sgiId &&& 0xf) <<< 24)

/-- `gicv3_set_intr_route`: the address and the value of the write to `GICD_IROUTER`. -/
def gicv3SetIntrRoute (d : State) (interruptId corePos : ℕ) : Option (ℕ × ℕ) :=
  if d.gicdBaseAddr = 0 then none
  else if ¬corePos < platformNoOfCpus then none
  else if d.mpidrList corePos = uint64Max then none
  else if ¬IsSpi interruptId then none
  else if ¬32 ≤ interruptId then none
  else some (wrap64 (d.gicdBaseAddr + 0x6000 + interruptId <<< 3), d.mpidrList corePos)

/-- The affinities that a write to `ICC_SGI1R` selects: those with the levels 3 to 1 that it names, and a
level 0 in the range and the list that it names. With bit 40 it would select all but the sender. -/
def Sgi1rSelects (v b : ℕ) : Prop :=
  b &&& mpidrAffinityMask = b ∧ v / 2 ^ 40 % 2 = 0 ∧ v / 2 ^ 48 % 256 = mpidrAffId b 32 ∧
    v / 2 ^ 32 % 256 = mpidrAffId b 16 ∧ v / 2 ^ 16 % 256 = mpidrAffId b 8 ∧
    v / 2 ^ 44 % 16 = mpidrAffId b 0 / 16 ∧ (v % 2 ^ 16).testBit (mpidrAffId b 0 % 16)

/-- The affinity that a write to `GICD_IROUTER` selects. With bit 31 it would select any core. -/
def IrouterSelects (w : ℕ × ℕ) (b : ℕ) : Prop :=
  b &&& mpidrAffinityMask = b ∧ w.2 / 2 ^ 31 % 2 = 0 ∧ w.2 &&& mpidrAffinityMask = b

section

variable {cores typers}

/-- A level of affinity is a byte. -/
theorem mpidrAffId_eq (x k : ℕ) : mpidrAffId x k = x / 2 ^ k % 256 := by
  rw [mpidrAffId, Nat.shiftRight_eq_div_pow]
  exact Nat.and_two_pow_sub_one_eq_mod _ 8

/-- The mask takes the byte at bit 32 and the three lowest bytes. -/
theorem land_mpidrAffinityMask (x : ℕ) :
    x &&& mpidrAffinityMask = x / 2 ^ 32 % 256 * 2 ^ 32 + x % 2 ^ 24 := by
  have hmask : mpidrAffinityMask = (2 ^ 8 - 1) <<< 32 ||| (2 ^ 24 - 1) := by decide
  have hlow : x % 2 ^ 24 < 2 ^ 32 := (Nat.mod_lt _ (by norm_num)).trans (by norm_num)
  rw [hmask, Nat.and_or_distrib_left, land_shiftLeft_two_pow_sub_one, Nat.and_two_pow_sub_one_eq_mod,
    ← Nat.shiftLeft_eq, ← Nat.shiftLeft_add_eq_or_of_lt hlow, Nat.shiftLeft_eq]
  norm_num

/-- An affinity is given by its four levels. -/
theorem affinity_ext {a b : ℕ} (ha : a &&& mpidrAffinityMask = a) (hb : b &&& mpidrAffinityMask = b) :
    b = a ↔ mpidrAffId a 32 = mpidrAffId b 32 ∧ mpidrAffId a 16 = mpidrAffId b 16 ∧
      mpidrAffId a 8 = mpidrAffId b 8 ∧ mpidrAffId a 0 = mpidrAffId b 0 := by
  constructor
  · rintro rfl
    exact ⟨rfl, rfl, rfl, rfl⟩
  · rw [land_mpidrAffinityMask] at ha hb
    simp only [mpidrAffId_eq]
    omega

/-- The fields that the driver puts together, from the highest to the lowest. -/
theorem lor_order (v w x y z : ℕ) : v ||| w ||| x ||| y ||| z = v ||| (w ||| (z ||| (x ||| y))) := by
  ac_rfl

/-- The fields of a write to `ICC_SGI1R` do not overlap. -/
theorem sgi1r_eq {aff1 aff2 aff3 list sgi : ℕ} (h1 : aff1 < 256) (h2 : aff2 < 256) (h3 : aff3 < 256)
    (hlist : list < 2 ^ 16) (hsgi : sgi < 16) :
    ((aff3 &&& 0xff) <<< 48 ||| (aff2 &&& 0xff) <<< 32 ||| (aff1 &&& 0xff) <<< 16 |||
        (list &&& 0xffff) <<< 0) ||| (sgi &&& 0xf) <<< 24 =
      aff3 * 2 ^ 48 + (aff2 * 2 ^ 32 + (sgi * 2 ^ 24 + (aff1 * 2 ^ 16 + list))) := by
  have hbyte {x : ℕ} (hx : x < 256) : x &&& 0xff = x :=
    (Nat.and_two_pow_sub_one_eq_mod x 8).trans (Nat.mod_eq_of_lt hx)
  have hmask : list &&& 0xffff = list :=
    (Nat.and_two_pow_sub_one_eq_mod list 16).trans (Nat.mod_eq_of_lt hlist)
  have hid : sgi &&& 0xf = sgi := (Nat.and_two_pow_sub_one_eq_mod sgi 4).trans (Nat.mod_eq_of_lt hsgi)
  rw [hbyte h1, hbyte h2, hbyte h3, hmask, hid, Nat.shiftLeft_zero, lor_order,
    shiftLeft_lor aff1 16 hlist, shiftLeft_lor sgi 24 (by omega), shiftLeft_lor aff2 32 (by omega),
    shiftLeft_lor aff3 48 (by omega)]

/-- What the fields of a write to `ICC_SGI1R` select. -/
theorem sgi1rSelects_fields {aff1 aff2 aff3 list sgi b : ℕ} (h1 : aff1 < 256) (h2 : aff2 < 256)
    (h3 : aff3 < 256) (hlist : list < 2 ^ 16) (hsgi : sgi < 16) :
    Sgi1rSelects (aff3 * 2 ^ 48 + (aff2 * 2 ^ 32 + (sgi * 2 ^ 24 + (aff1 * 2 ^ 16 + list)))) b ↔
      b &&& mpidrAffinityMask = b ∧ aff3 = mpidrAffId b 32 ∧ aff2 = mpidrAffId b 16 ∧
        aff1 = mpidrAffId b 8 ∧ 0 = mpidrAffId b 0 / 16 ∧ list.testBit (mpidrAffId b 0 % 16) := by
  unfold Sgi1rSelects
  generalize hv : aff3 * 2 ^ 48 + (aff2 * 2 ^ 32 + (sgi * 2 ^ 24 + (aff1 * 2 ^ 16 + list))) = v
  have hirm : v / 2 ^ 40 % 2 = 0 := by omega
  have hv3 : v / 2 ^ 48 % 256 = aff3 := by omega
  have hv2 : v / 2 ^ 32 % 256 = aff2 := by omega
  have hv1 : v / 2 ^ 16 % 256 = aff1 := by omega
  have hrange : v / 2 ^ 44 % 16 = 0 := by omega
  have hlow : v % 2 ^ 16 = list := by omega
  rw [hirm, hv3, hv2, hv1, hrange, hlow]
  simp only [true_and]

/-- The interrupt is sent to one affinity. -/
theorem sgi1rSelects_iff {a sgi b : ℕ} (ha : a &&& mpidrAffinityMask = a) (hsgi : sgi < 16)
    (haff0 : mpidrAffId a 0 < 16) :
    Sgi1rSelects (mpidrAffId a 32 * 2 ^ 48 + (mpidrAffId a 16 * 2 ^ 32 + (sgi * 2 ^ 24 +
        (mpidrAffId a 8 * 2 ^ 16 + 2 ^ mpidrAffId a 0)))) b ↔ b = a := by
  have hbyte (k : ℕ) : mpidrAffId a k < 256 := by
    rw [mpidrAffId_eq]
    exact Nat.mod_lt _ (by norm_num)
  have hlist : 2 ^ mpidrAffId a 0 < 2 ^ 16 := Nat.pow_lt_pow_right (by norm_num) haff0
  have hlevel : 0 = mpidrAffId b 0 / 16 ∧ mpidrAffId a 0 = mpidrAffId b 0 % 16 ↔
      mpidrAffId a 0 = mpidrAffId b 0 := by omega
  rw [sgi1rSelects_fields (hbyte 8) (hbyte 16) (hbyte 32) hlist hsgi, Nat.testBit_two_pow,
    decide_eq_true_iff, hlevel]
  constructor
  · rintro ⟨hb, hlevels⟩
    exact (affinity_ext ha hb).mpr hlevels
  · rintro rfl
    exact ⟨ha, rfl, rfl, rfl, rfl⟩

/-- A shared interrupt is routed to one affinity. -/
theorem irouterSelects_iff {a b addr : ℕ} (ha : a &&& mpidrAffinityMask = a) :
    IrouterSelects (addr, a) b ↔ b = a := by
  unfold IrouterSelects
  rw [ha]
  constructor
  · exact fun h => h.2.2.symm
  · rintro rfl
    refine ⟨ha, ?_, rfl⟩
    rw [land_mpidrAffinityMask] at ha
    simp only
    omega

end

/-! ### Histories of probes -/

/-- What holds between the driver and what has been recorded. A core whose frame is known has recorded
its affinity. -/
structure Tracks (d : State) (r : Recorded) : Prop where
  table : Holds d.mpidrList uint64Max r
  own : ∀ (p : Fin platformNoOfCpus) (a : ℕ), r p = some a → a = affinity cores p
  probed : ∀ p : Fin platformNoOfCpus, d.rdistPcpuBase p ≠ 0 → r p = some (affinity cores p)

variable {cores typers} {d d' : State} {r : Recorded}

/-- Nothing is recorded before the first probe. -/
theorem tracks_initial (gicrBaseAddr gicdBaseAddr : ℕ) :
    Tracks cores (initial gicrBaseAddr gicdBaseAddr) fun _ => none where
  table := holds_initial uint64Max
  own _ _ h := by cases h
  probed _ h := absurd rfl h

/-- A core that has recorded its affinity records nothing new. -/
theorem update_recorded {p : Fin platformNoOfCpus} (h : r p = some (affinity cores p)) :
    Function.update r p (some (affinity cores p)) = r := by
  rw [← h, Function.update_eq_self]

/-- A probe keeps the table and the record together, and the addresses as they are. -/
theorem Tracks.probe {p : Fin platformNoOfCpus} (h : Tracks cores d r)
    (hprobe : gicv3ProbeRedistifAddr cores typers d p = some d') :
    Tracks cores d' (record cores typers d.gicrBaseAddr r p) ∧
      d'.gicrBaseAddr = d.gicrBaseAddr ∧ d'.gicdBaseAddr = d.gicdBaseAddr := by
  simp only [gicv3ProbeRedistifAddr, cores.pos] at hprobe
  split at hprobe
  · cases hprobe
  · split at hprobe
    case isTrue hknown =>
      cases hprobe
      refine ⟨?_, rfl, rfl⟩
      rw [record, update_recorded (h.probed p hknown), ite_self]
      exact h
    case isFalse hfresh =>
      split at hprobe
      next base hfound =>
        cases hprobe
        refine ⟨?_, rfl, rfl⟩
        rw [record, hfound, Option.isSome_some, if_pos rfl]
        refine ⟨h.table.update p _, fun q a hq => ?_, fun q hq => ?_⟩
        · by_cases hsame : q = p
          · subst hsame
            rw [Function.update_self] at hq
            exact (Option.some.inj hq).symm
          · rw [Function.update_of_ne (Fin.val_ne_of_ne hsame)] at hq
            exact h.own q a hq
        · by_cases hsame : q = p
          · rw [hsame, Function.update_self]
          · simp only at hq
            rw [Function.update_of_ne (Fin.val_ne_of_ne hsame)] at hq ⊢
            exact h.probed q hq
      next hmissing =>
        cases hprobe
        refine ⟨?_, rfl, rfl⟩
        rw [record, hmissing, Option.isSome_none, if_neg (by decide)]
        exact h

/-- So does every history of probes. -/
theorem Tracks.probes {history : List (Fin platformNoOfCpus)} (h : Tracks cores d r)
    (hrun : history.foldlM (gicv3ProbeRedistifAddr cores typers) d = some d') :
    Tracks cores d' (history.foldl (record cores typers d.gicrBaseAddr) r) ∧
      d'.gicrBaseAddr = d.gicrBaseAddr ∧ d'.gicdBaseAddr = d.gicdBaseAddr := by
  refine simulates_of_foldlM (R := fun e t => Tracks cores e t ∧ e.gicrBaseAddr = d.gicrBaseAddr ∧
    e.gicdBaseAddr = d.gicdBaseAddr) (fun e t p e' ht hprobe => ?_) ⟨h, rfl, rfl⟩ hrun
  obtain ⟨htracks, hgicr, hgicd⟩ := ht
  obtain ⟨hnext, hgicr', hgicd'⟩ := htracks.probe hprobe
  rw [hgicr] at hnext
  exact ⟨hnext, hgicr'.trans hgicr, hgicd'.trans hgicd⟩

/-! ### Calls -/

/-- An affinity is within its mask. -/
theorem affinity_land (p : Fin platformNoOfCpus) :
    affinity cores p &&& mpidrAffinityMask = affinity cores p := by
  rw [affinity, Nat.and_assoc, Nat.and_self]

/-- When the assertions of `gicv3_send_sgi` stop it. -/
theorem gicv3SendSgi_eq_none_iff {sgiId corePos : ℕ} (hp : corePos < platformNoOfCpus) :
    gicv3SendSgi d sgiId corePos = none ↔
      ¬IsSgi sgiId ∨ d.mpidrList corePos = uint64Max ∨ ¬mpidrAffId (d.mpidrList corePos) 0 < 16 := by
  unfold gicv3SendSgi
  rw [if_neg (not_not_intro hp)]
  split_ifs <;> simp_all

/-- What `gicv3_send_sgi` writes. -/
theorem eq_of_mem_gicv3SendSgi {sgiId corePos w : ℕ} (h : w ∈ gicv3SendSgi d sgiId corePos) :
    let a := d.mpidrList corePos
    sgiId < 16 ∧ mpidrAffId a 0 < 16 ∧
      w = mpidrAffId a 32 * 2 ^ 48 + (mpidrAffId a 16 * 2 ^ 32 + (sgiId * 2 ^ 24 +
        (mpidrAffId a 8 * 2 ^ 16 + 2 ^ mpidrAffId a 0))) := by
  have hbyte (k : ℕ) : mpidrAffId (d.mpidrList corePos) k < 256 := by
    rw [mpidrAffId_eq]
    exact Nat.mod_lt _ (by norm_num)
  unfold gicv3SendSgi at h
  dsimp only at h
  split_ifs at h with hsgi hcore hentry hlevel
  · cases h
  · have hid : sgiId < 16 := Nat.lt_succ_of_le hsgi
    refine ⟨hid, hlevel, ?_⟩
    rw [← Option.some.inj h, Nat.one_shiftLeft]
    exact sgi1r_eq (hbyte 8) (hbyte 16) (hbyte 32) (Nat.pow_lt_pow_right (by norm_num) hlevel) hid
  all_goals cases h

/-- When an interrupt reaches the core that it is for, and no other. -/
theorem Tracks.send_iff (h : Tracks cores d r) (p : Fin platformNoOfCpus) (sgiId : ℕ) :
    Reaches (gicv3SendSgi d sgiId p) (r p) Sgi1rSelects ↔
      (r p).isSome ∨ (p : ℕ) = 0 ∨ ¬IsSgi sgiId := by
  have hentry := h.table p
  cases hr : r p with
  | none =>
    rw [hr, Option.getD_none] at hentry
    rw [reaches_none, gicv3SendSgi_eq_none_iff p.isLt, hentry]
    by_cases hzero : (p : ℕ) = 0 <;> simp [firstInitialised, hzero, mpidrAffId, uint64Max]
  | some a =>
    rw [hr, Option.getD_some] at hentry
    refine iff_of_true (fun w hw => ⟨a, rfl, fun b => ?_⟩) (Or.inl rfl)
    obtain ⟨hsgi, haff0, hw⟩ := eq_of_mem_gicv3SendSgi hw
    rw [hentry] at haff0 hw
    rw [hw, h.own p a hr] at *
    exact sgi1rSelects_iff (affinity_land p) hsgi haff0

/-- When the assertions of `gicv3_set_intr_route` stop it. -/
theorem gicv3SetIntrRoute_eq_none_iff {interruptId corePos : ℕ} (hp : corePos < platformNoOfCpus) :
    gicv3SetIntrRoute d interruptId corePos = none ↔
      d.gicdBaseAddr = 0 ∨ d.mpidrList corePos = uint64Max ∨ ¬IsSpi interruptId := by
  unfold gicv3SetIntrRoute
  rw [if_neg (not_not_intro hp)]
  split_ifs with hbase hentry hspi hlow
  · simp [hbase]
  · simp [hentry]
  · simp [hbase, hentry, hspi]
  · exact absurd hspi.1 hlow
  · simp [hspi]

/-- What `gicv3_set_intr_route` writes. -/
theorem eq_of_mem_gicv3SetIntrRoute {interruptId corePos : ℕ} {w : ℕ × ℕ}
    (h : w ∈ gicv3SetIntrRoute d interruptId corePos) : w.2 = d.mpidrList corePos := by
  unfold gicv3SetIntrRoute at h
  split_ifs at h
  · cases h
  · cases h
  · exact (congrArg Prod.snd (Option.some.inj h)).symm
  all_goals cases h

/-- When an interrupt is routed to the core that it is for, and to no other. -/
theorem Tracks.route_iff (h : Tracks cores d r) (p : Fin platformNoOfCpus) (interruptId : ℕ) :
    Reaches (gicv3SetIntrRoute d interruptId p) (r p) IrouterSelects ↔
      (r p).isSome ∨ (p : ℕ) = 0 ∨ d.gicdBaseAddr = 0 ∨ ¬IsSpi interruptId := by
  have hentry := h.table p
  cases hr : r p with
  | none =>
    rw [hr, Option.getD_none] at hentry
    rw [reaches_none, gicv3SetIntrRoute_eq_none_iff p.isLt, hentry]
    by_cases hzero : (p : ℕ) = 0 <;> simp [firstInitialised, hzero, uint64Max]
  | some a =>
    rw [hr, Option.getD_some] at hentry
    refine iff_of_true (fun w hw => ⟨a, rfl, fun b => ?_⟩) (Or.inl rfl)
    have hvalue := (eq_of_mem_gicv3SetIntrRoute hw).trans hentry
    obtain ⟨addr, value⟩ := w
    obtain rfl : value = a := hvalue
    rw [h.own p value hr]
    exact irouterSelects_iff (affinity_land p)

end V3

/-! ## The second generation -/

namespace V2

/-- The static variables of the driver. -/
structure State where
  gicdBaseAddr : ℕ
  gicCpuId : ℕ → ℕ

/-- `UINT32_MAX`. -/
def uint32Max : ℕ := 2 ^ 32 - 1

/-- The variables at the start, with the address that `gicv2_init` stores. -/
def initial (gicdBaseAddr : ℕ) : State := ⟨gicdBaseAddr, firstInitialised uint32Max⟩

/-- The trailing zeros of a number of the given width. -/
def trailingZeros : ℕ → ℕ → ℕ
  | 0, _ => 0
  | n + 1, x => if x % 2 = 1 then 0 else trailingZeros n (x / 2) + 1

/-- `__builtin_ctz`. -/
def builtinCtz (x : ℕ) : ℕ := trailingZeros 32 x

/-- A core that reads the targets of the first four interrupts. They are banked: each byte has the bit of
the interface that reads, so that the lowest byte is zero only if all are. -/
structure Probe where
  core : Fin platformNoOfCpus
  itargets : ℕ
  banked : itargets % 256 = 0 → itargets = 0

/-- `gicv2_probe_gic_cpu_id` on a core. -/
def gicv2ProbeGicCpuId (cores : Cores) (d : State) (e : Probe) : Option State :=
  if d.gicdBaseAddr = 0 then none
  else
    let corePos := platformGetCorePos (cores.mpidr e.core)
    if e.itargets = 0 then none
    else some { d with gicCpuId := Function.update d.gicCpuId corePos (builtinCtz e.itargets) }

/-- What a probe records: the number of the interface. -/
def record (r : Recorded) (e : Probe) : Recorded :=
  Function.update r e.core (some (builtinCtz e.itargets))

/-- `core_pos_to_gic_id`. -/
def corePosToGicId (d : State) (corePos : ℕ) : Option ℕ :=
  if d.gicCpuId corePos = uint32Max then none else some (d.gicCpuId corePos)

/-- `gicv2_send_sgi`: the address and the value of the write to `GICD_SGIR`. -/
def gicv2SendSgi (d : State) (sgiId corePos : ℕ) : Option (ℕ × ℕ) :=
  if d.gicdBaseAddr = 0 then none
  else if ¬IsSgi sgiId then none
  else
    (corePosToGicId d corePos).map fun id =>
      (wrap32 (wrap32 d.gicdBaseAddr + 0xF00), sgiId <<< 0 ||| wrap32 (wrap32 (1 <<< id) <<< 16))

/-- `gicv2_set_itargetsr`: the address and the value of the write to `GICD_ITARGETSR`. -/
def gicv2SetItargetsr (d : State) (num corePos : ℕ) : Option (ℕ × ℕ) :=
  if d.gicdBaseAddr = 0 then none
  else if ¬IsSpi num then none
  else
    (corePosToGicId d corePos).map fun id =>
      (wrap32 (wrap32 d.gicdBaseAddr + 0x800 + num), wrap32 (1 <<< id) % 256)

/-- The interfaces that a write to `GICD_SGIR` selects: those in its list, if it has no filter. -/
def SgirSelects (w : ℕ × ℕ) (b : ℕ) : Prop :=
  b < 8 ∧ w.2 / 2 ^ 24 % 4 = 0 ∧ w.2.testBit (16 + b)

/-- The interfaces that a byte of `GICD_ITARGETSR` selects. -/
def ItargetsrSelects (w : ℕ × ℕ) (b : ℕ) : Prop := b < 8 ∧ w.2.testBit b

/-- A number with a bit set among the lowest ones has few trailing zeros. -/
theorem trailingZeros_lt {n k x : ℕ} (hk : k ≤ n) (hx : x % 2 ^ k ≠ 0) : trailingZeros n x < k := by
  induction n generalizing k x with
  | zero =>
    obtain rfl : k = 0 := by omega
    exact absurd (Nat.mod_one x) hx
  | succ n ih =>
    cases k with
    | zero => exact absurd (Nat.mod_one x) hx
    | succ k =>
      rw [trailingZeros]
      split
      · exact Nat.succ_pos k
      · refine Nat.succ_lt_succ (ih (by omega) fun hhalf => hx ?_)
        rw [Nat.pow_succ, Nat.mul_comm, Nat.mod_mul]
        omega

/-- The interrupt is sent to one interface. -/
theorem sgirSelects_iff {id sgi addr b : ℕ} (hid : id < 8) (hsgi : sgi < 16) :
    SgirSelects (addr, sgi <<< 0 ||| wrap32 (wrap32 (1 <<< id) <<< 16)) b ↔ b = id := by
  have hpow : 2 ^ id < 2 ^ 8 := Nat.pow_lt_pow_right (by norm_num) hid
  have hvalue : sgi <<< 0 ||| wrap32 (wrap32 (1 <<< id) <<< 16) = 2 ^ id <<< 16 ||| sgi := by
    have hone : wrap32 (1 <<< id) = 2 ^ id := by
      rw [Nat.one_shiftLeft, wrap32_of_lt (by omega)]
    have hfield : 2 ^ id <<< 16 < 2 ^ 32 := by
      rw [Nat.shiftLeft_eq]
      omega
    rw [hone, wrap32_of_lt hfield, Nat.shiftLeft_zero, Nat.lor_comm]
  have hfilter : (2 ^ id * 2 ^ 16 + sgi) / 2 ^ 24 % 4 = 0 := by omega
  have hbit : (2 ^ id <<< 16 ||| sgi).testBit (16 + b) = decide (id = b) := by
    have hsmall : sgi.testBit (16 + b) = false :=
      Nat.testBit_lt_two_pow (hsgi.trans (Nat.lt_of_lt_of_le (by norm_num : 16 < 2 ^ 16)
        (Nat.pow_le_pow_right (by norm_num) (Nat.le_add_right 16 b))))
    rw [Nat.testBit_or, hsmall, Bool.or_false, Nat.testBit_shiftLeft, Nat.add_sub_cancel_left,
      Nat.testBit_two_pow]
    simp
  unfold SgirSelects
  rw [hvalue, hbit, shiftLeft_lor _ 16 (by omega), hfilter, decide_eq_true_iff]
  omega

/-- A shared interrupt is routed to one interface. -/
theorem itargetsrSelects_iff {id addr b : ℕ} (hid : id < 8) :
    ItargetsrSelects (addr, wrap32 (1 <<< id) % 256) b ↔ b = id := by
  have hpow : 2 ^ id < 256 := Nat.pow_lt_pow_right (by norm_num : 1 < 2) hid
  unfold ItargetsrSelects
  rw [Nat.one_shiftLeft, wrap32_of_lt (by omega), Nat.mod_eq_of_lt hpow, Nat.testBit_two_pow,
    decide_eq_true_iff]
  omega

/-! ### Histories of probes -/

/-- What holds between the driver and what has been recorded. -/
structure Tracks (d : State) (r : Recorded) : Prop where
  table : Holds d.gicCpuId uint32Max r
  interface : ∀ p a, r p = some a → a < 8

variable {cores : Cores} {d d' : State} {r : Recorded}

/-- Nothing is recorded before the first probe. -/
theorem tracks_initial (gicdBaseAddr : ℕ) : Tracks (initial gicdBaseAddr) fun _ => none where
  table := holds_initial uint32Max
  interface _ _ h := by cases h

/-- A probe keeps the table and the record together, and the address as it is. -/
theorem Tracks.probe {e : Probe} (h : Tracks d r) (hprobe : gicv2ProbeGicCpuId cores d e = some d') :
    Tracks d' (record r e) ∧ d'.gicdBaseAddr = d.gicdBaseAddr := by
  simp only [gicv2ProbeGicCpuId, cores.pos] at hprobe
  split at hprobe
  · cases hprobe
  · split at hprobe
    case isTrue hzero => cases hprobe
    case isFalse htargets =>
      cases hprobe
      refine ⟨⟨h.table.update _ _, fun p a hp => ?_⟩, rfl⟩
      rw [record] at hp
      by_cases hsame : p = e.core
      · rw [hsame, Function.update_self] at hp
        rw [← Option.some.inj hp]
        exact trailingZeros_lt (k := 8) (by decide) fun hlow => htargets (e.banked hlow)
      · rw [Function.update_of_ne hsame] at hp
        exact h.interface p a hp

/-- So does every history of probes. -/
theorem Tracks.probes {history : List Probe} (h : Tracks d r)
    (hrun : history.foldlM (gicv2ProbeGicCpuId cores) d = some d') :
    Tracks d' (history.foldl record r) ∧ d'.gicdBaseAddr = d.gicdBaseAddr := by
  refine simulates_of_foldlM (R := fun e t => Tracks e t ∧ e.gicdBaseAddr = d.gicdBaseAddr)
    (fun e t p e' ht hprobe => ?_) ⟨h, rfl⟩ hrun
  obtain ⟨hnext, hbase⟩ := ht.1.probe hprobe
  exact ⟨hnext, hbase.trans ht.2⟩

/-! ### Calls -/

/-- A call that looks up the interface of a core and then writes. It reaches the core that it is for, and
no other, if that core has recorded its interface, or an assertion stops the call. -/
theorem Tracks.reaches_iff {α : Type} (h : Tracks d r) {stops : Prop} [Decidable stops] {write : ℕ → α}
    {selects : α → ℕ → Prop} (hselects : ¬stops → ∀ id < 8, ∀ b, selects (write id) b ↔ b = id) (p : ℕ) :
    Reaches (if stops then none else (corePosToGicId d p).map write) (r p) selects ↔
      (r p).isSome ∨ p = 0 ∨ stops := by
  have hentry := h.table p
  by_cases hstops : stops
  · rw [if_pos hstops]
    refine iff_of_true (fun w hw => ?_) (Or.inr (Or.inr hstops))
    cases hw
  rw [if_neg hstops, corePosToGicId]
  cases hr : r p with
  | none =>
    rw [hr, Option.getD_none] at hentry
    rw [reaches_none, hentry]
    by_cases hzero : p = 0 <;> simp [firstInitialised, hzero, uint32Max, hstops]
  | some a =>
    rw [hr, Option.getD_some] at hentry
    refine iff_of_true (fun w hw => ⟨a, rfl, fun b => ?_⟩) (Or.inl rfl)
    rw [hentry] at hw
    split at hw
    · cases hw
    · rw [← Option.some.inj hw]
      exact hselects hstops a (h.interface p a hr) b

/-- When an interrupt reaches the core that it is for, and no other. -/
theorem Tracks.send_iff (h : Tracks d r) (p sgiId : ℕ) :
    Reaches (gicv2SendSgi d sgiId p) (r p) SgirSelects ↔
      (r p).isSome ∨ p = 0 ∨ d.gicdBaseAddr = 0 ∨ ¬IsSgi sgiId := by
  have hcall : gicv2SendSgi d sgiId p = if d.gicdBaseAddr = 0 ∨ ¬IsSgi sgiId then none
      else (corePosToGicId d p).map fun id =>
        (wrap32 (wrap32 d.gicdBaseAddr + 0xF00), sgiId <<< 0 ||| wrap32 (wrap32 (1 <<< id) <<< 16)) := by
    rw [gicv2SendSgi, ite_or]
  rw [hcall]
  refine h.reaches_iff (fun hgoes id hid b => sgirSelects_iff hid ?_) p
  exact Nat.lt_succ_of_le (not_not.mp (not_or.mp hgoes).2)

/-- When an interrupt is routed to the core that it is for, and to no other. -/
theorem Tracks.route_iff (h : Tracks d r) (p num : ℕ) :
    Reaches (gicv2SetItargetsr d num p) (r p) ItargetsrSelects ↔
      (r p).isSome ∨ p = 0 ∨ d.gicdBaseAddr = 0 ∨ ¬IsSpi num := by
  have hcall : gicv2SetItargetsr d num p = if d.gicdBaseAddr = 0 ∨ ¬IsSpi num then none
      else (corePosToGicId d p).map fun id =>
        (wrap32 (wrap32 d.gicdBaseAddr + 0x800 + num), wrap32 (1 <<< id) % 256) := by
    rw [gicv2SetItargetsr, ite_or]
  rw [hcall]
  exact h.reaches_iff (fun _ id hid b => itargetsrSelects_iff hid) p

end V2

/-! ## Both generations -/

/-- For every history of probes and every core: a call stops or reaches exactly the interface that the
core itself has recorded if the core has been probed, if it is the first one, or if another assertion
stops the call, and not otherwise. -/
theorem gic_calls_reach_iff (cores : Cores) (p : Fin platformNoOfCpus) :
    (∀ (typers : List ℕ) (gicr gicd : ℕ) (history : List (Fin platformNoOfCpus)) (d : V3.State),
        history.foldlM (V3.gicv3ProbeRedistifAddr cores typers) (V3.initial gicr gicd) = some d →
        ∀ r : Recorded, r = history.foldl (V3.record cores typers gicr) (fun _ => none) →
          (∀ sgiId, Reaches (V3.gicv3SendSgi d sgiId p) (r p) V3.Sgi1rSelects ↔
            (r p).isSome ∨ (p : ℕ) = 0 ∨ ¬IsSgi sgiId) ∧
          (∀ interruptId, Reaches (V3.gicv3SetIntrRoute d interruptId p) (r p) V3.IrouterSelects ↔
            (r p).isSome ∨ (p : ℕ) = 0 ∨ gicd = 0 ∨ ¬IsSpi interruptId)) ∧
      (∀ (gicd : ℕ) (history : List V2.Probe) (d : V2.State),
        history.foldlM (V2.gicv2ProbeGicCpuId cores) (V2.initial gicd) = some d →
        ∀ r : Recorded, r = history.foldl V2.record (fun _ => none) →
          (∀ sgiId, Reaches (V2.gicv2SendSgi d sgiId p) (r p) V2.SgirSelects ↔
            (r p).isSome ∨ (p : ℕ) = 0 ∨ gicd = 0 ∨ ¬IsSgi sgiId) ∧
          (∀ num, Reaches (V2.gicv2SetItargetsr d num p) (r p) V2.ItargetsrSelects ↔
            (r p).isSome ∨ (p : ℕ) = 0 ∨ gicd = 0 ∨ ¬IsSpi num)) := by
  constructor
  · rintro typers gicr gicd history d hrun r rfl
    obtain ⟨htracks, -, hbase⟩ := (V3.tracks_initial gicr gicd).probes hrun
    refine ⟨htracks.send_iff p, fun interruptId => ?_⟩
    have hroute := htracks.route_iff p interruptId
    rw [hbase] at hroute
    exact hroute
  · rintro gicd history d hrun r rfl
    obtain ⟨htracks, hbase⟩ := (V2.tracks_initial gicd).probes hrun
    have hsend := htracks.send_iff p
    have hroute := htracks.route_iff p
    rw [hbase] at hsend hroute
    exact ⟨hsend, hroute⟩

/-- Each of eight cores in two clusters is at its own position. -/
theorem eightCores_pos (p : Fin platformNoOfCpus) :
    platformGetCorePos (((p : ℕ) / 4) <<< 8 ||| (p : ℕ) % 4) = p := by
  revert p
  decide

/-- Two clusters of four cores. -/
def eightCores : Cores where
  mpidr p := ((p : ℕ) / 4) <<< 8 ||| (p : ℕ) % 4
  pos := eightCores_pos

/-- The core at position 0. -/
def firstCore : Fin platformNoOfCpus := ⟨0, by decide⟩

/-- The core at position 0 reads the targets of an interrupt. -/
def firstProbe : V2.Probe := ⟨firstCore, 0x01010101, by decide⟩

/-- Only the first core has been probed, and what is sent or routed to core 3 goes to the first one. -/
theorem gic_calls_replace_core :
    (∃ d, [firstCore].foldlM (V3.gicv3ProbeRedistifAddr eightCores [0x10])
          (V3.initial 0x2f100000 0x2f000000) = some d ∧
        ¬Reaches (V3.gicv3SendSgi d 1 3)
          ([firstCore].foldl (V3.record eightCores [0x10] 0x2f100000) (fun _ => none) 3) V3.Sgi1rSelects ∧
        V3.gicv3SendSgi d 1 3 = some 0x1000001 ∧
        V3.Sgi1rSelects 0x1000001 (V3.affinity eightCores firstCore) ∧
        V3.gicv3SetIntrRoute d 40 3 = some (0x2f006140, 0) ∧
        V3.IrouterSelects (0x2f006140, 0) (V3.affinity eightCores firstCore)) ∧
      ∃ d, [firstProbe].foldlM (V2.gicv2ProbeGicCpuId eightCores) (V2.initial 0x2f000000) = some d ∧
        ¬Reaches (V2.gicv2SendSgi d 1 3) ([firstProbe].foldl V2.record (fun _ => none) 3) V2.SgirSelects ∧
        [firstProbe].foldl V2.record (fun _ => none) 0 = some 0 ∧
        V2.gicv2SendSgi d 1 3 = some (0x2f000f00, 0x10001) ∧ V2.SgirSelects (0x2f000f00, 0x10001) 0 ∧
        V2.gicv2SetItargetsr d 40 3 = some (0x2f000828, 1) ∧
        V2.ItargetsrSelects (0x2f000828, 1) 0 := by
  constructor
  · refine ⟨_, rfl, fun h => absurd (reaches_none.mp h) (by decide), by decide, ?_, by decide, ?_⟩
    · unfold V3.Sgi1rSelects
      decide
    · unfold V3.IrouterSelects
      decide
  · refine ⟨_, rfl, fun h => absurd (reaches_none.mp h) (by decide), by decide, by decide, ?_, by decide,
      ?_⟩
    · unfold V2.SgirSelects
      decide
    · unfold V2.ItargetsrSelects
      decide

/-- The core at position 5, the second one of the second cluster. -/
def sixthCore : Fin platformNoOfCpus := ⟨5, by decide⟩

/-- The core at position 5 reads the targets of an interrupt. -/
def sixthProbe : V2.Probe := ⟨sixthCore, 0x20202020, by decide⟩

/-- The redistributors of the first core and of the one at position 5. -/
def twoFrames : List ℕ := [0, 0x0000010100000010]

/-- Once the core at position 5 has been probed, an interrupt is sent and routed to it and to no other. -/
theorem gic_calls_reach_sixth_core :
    (∃ d, [firstCore, sixthCore].foldlM (V3.gicv3ProbeRedistifAddr eightCores twoFrames)
          (V3.initial 0x2f100000 0x2f000000) = some d ∧
        (V3.gicv3SendSgi d 1 sixthCore).isSome ∧ (V3.gicv3SetIntrRoute d 40 sixthCore).isSome ∧
        Reaches (V3.gicv3SendSgi d 1 sixthCore) (some 0x101) V3.Sgi1rSelects ∧
        Reaches (V3.gicv3SetIntrRoute d 40 sixthCore) (some 0x101) V3.IrouterSelects) ∧
      ∃ d, [firstProbe, sixthProbe].foldlM (V2.gicv2ProbeGicCpuId eightCores)
          (V2.initial 0x2f000000) = some d ∧
        (V2.gicv2SendSgi d 1 sixthCore).isSome ∧ (V2.gicv2SetItargetsr d 40 sixthCore).isSome ∧
        Reaches (V2.gicv2SendSgi d 1 sixthCore) (some 5) V2.SgirSelects ∧
        Reaches (V2.gicv2SetItargetsr d 40 sixthCore) (some 5) V2.ItargetsrSelects := by
  obtain ⟨hv3, hv2⟩ := gic_calls_reach_iff eightCores sixthCore
  constructor
  · obtain ⟨hsend, hroute⟩ := hv3 twoFrames 0x2f100000 0x2f000000 [firstCore, sixthCore] _ rfl _ rfl
    have hrecorded : [firstCore, sixthCore].foldl (V3.record eightCores twoFrames 0x2f100000)
        (fun _ => none) sixthCore = some 0x101 := by decide
    rw [hrecorded] at hsend hroute
    exact ⟨_, rfl, by decide, by decide, (hsend 1).mpr (.inl rfl), (hroute 40).mpr (.inl rfl)⟩
  · obtain ⟨hsend, hroute⟩ := hv2 0x2f000000 [firstProbe, sixthProbe] _ rfl _ rfl
    have hrecorded : [firstProbe, sixthProbe].foldl V2.record (fun _ => none) sixthCore = some 5 := by decide
    rw [hrecorded] at hsend hroute
    exact ⟨_, rfl, by decide, by decide, (hsend 1).mpr (.inl rfl), (hroute 40).mpr (.inl rfl)⟩

end FfaAcs.Driver
