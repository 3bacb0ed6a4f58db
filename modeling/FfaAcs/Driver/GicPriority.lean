import FfaAcs.Driver.GicRouting
import FfaAcs.Machine.ByteMemory

/-!
# Priorities of interrupts

Each interrupt has a byte of the priority registers. On the second generation of the controller all bytes
are in the distributor; on the third, those of the private interrupts are in the redistributor of the
core. A priority is set by a write of one byte. The third generation reads it back as one byte, and the
second reads the word that has the byte and takes the lowest byte of it.

The registers are bytes of memory, and a failed assertion is `none`.
-/

namespace FfaAcs.Driver

open Machine

namespace Priority

/-- `GICD_IPRIORITYR`. -/
def gicdIpriorityr : ℕ := 0x400

/-- `GICR_IPRIORITYR`. -/
def gicrIpriorityr : ℕ := (1 <<< 0x10) + 0x400

/-- `GIC_PRI_MASK`. -/
def gicPriMask : ℕ := 0xff

/-- `IS_VALID_INTR_ID`. -/
def IsValidIntrId (id : ℕ) : Prop := id ≤ 1019

instance (id : ℕ) : Decidable (IsValidIntrId id) := inferInstanceAs (Decidable (_ ≤ _))

/-- The static variables of the drivers, and the register that identifies the calling core. -/
structure Gic where
  gicv3Detected : Bool
  gicdBaseAddr : ℕ
  rdistPcpuBase : ℕ → ℕ
  mpidr : ℕ

/-- `gicd_read_ipriorityr`. -/
def gicdReadIpriorityr (m : ByteMemory) (base interruptId : ℕ) : ℕ :=
  let n := interruptId >>> 2
  m.load (base + gicdIpriorityr + (n <<< 2)) 4

/-- `gicd_get_ipriorityr`. -/
def gicdGetIpriorityr (m : ByteMemory) (base interruptId : ℕ) : ℕ :=
  gicdReadIpriorityr m base interruptId &&& gicPriMask

/-- `gicd_set_ipriorityr`. -/
def gicdSetIpriorityr (m : ByteMemory) (base interruptId priority : ℕ) : ByteMemory :=
  m.store (base + gicdIpriorityr + interruptId) 1 (priority &&& gicPriMask)

namespace Gic

variable (g : Gic) (m : ByteMemory)

/-- The redistributor of the calling core. -/
def rdist : ℕ := g.rdistPcpuBase (platformGetCorePos g.mpidr)

/-- `gicv2_gicd_get_ipriorityr`. -/
def gicv2GicdGetIpriorityr (interruptId : ℕ) : Option ℕ :=
  if g.gicdBaseAddr = 0 ∨ ¬IsValidIntrId interruptId then none
  else some (gicdGetIpriorityr m g.gicdBaseAddr interruptId)

/-- `gicv2_gicd_set_ipriorityr`. -/
def gicv2GicdSetIpriorityr (interruptId priority : ℕ) : Option ByteMemory :=
  if g.gicdBaseAddr = 0 ∨ ¬IsValidIntrId interruptId then none
  else some (gicdSetIpriorityr m g.gicdBaseAddr interruptId priority)

/-- `gicv3_get_ipriorityr`. -/
def gicv3GetIpriorityr (interruptId : ℕ) : Option ℕ :=
  if g.gicdBaseAddr = 0 ∨ ¬IsValidIntrId interruptId then none
  else if interruptId < 32 then
    if g.rdist = 0 then none else some (m.load (g.rdist + gicrIpriorityr + interruptId) 1)
  else some (m.load (g.gicdBaseAddr + gicdIpriorityr + interruptId) 1)

/-- `gicv3_set_ipriorityr`. -/
def gicv3SetIpriorityr (interruptId priority : ℕ) : Option ByteMemory :=
  if g.gicdBaseAddr = 0 ∨ ¬IsValidIntrId interruptId then none
  else if interruptId < 32 then
    if g.rdist = 0 then none
    else some (m.store (g.rdist + gicrIpriorityr + interruptId) 1 (priority &&& gicPriMask))
  else some (m.store (g.gicdBaseAddr + gicdIpriorityr + interruptId) 1 (priority &&& gicPriMask))

/-- `arm_gic_get_intr_priority`. -/
def armGicGetIntrPriority (num : ℕ) : Option ℕ :=
  if g.gicv3Detected then g.gicv3GetIpriorityr m num else g.gicv2GicdGetIpriorityr m num

/-- `arm_gic_set_intr_priority`. -/
def armGicSetIntrPriority (num priority : ℕ) : Option ByteMemory :=
  if g.gicv3Detected then g.gicv3SetIpriorityr m num priority else g.gicv2GicdSetIpriorityr m num priority

/-- The drivers have been set up: the addresses are known, and the two register frames lie apart. -/
structure Ready : Prop where
  distributor : g.gicdBaseAddr ≠ 0
  redistributor : g.gicv3Detected → g.rdist ≠ 0
  apart : g.gicv3Detected →
    Apart (g.gicdBaseAddr + gicdIpriorityr) 1020 (g.rdist + gicrIpriorityr) 32

/-! ## The bytes of the registers -/

/-- Where the byte of an interrupt is. -/
def slot (id : ℕ) : ℕ :=
  if g.gicv3Detected ∧ id < 32 then g.rdist + gicrIpriorityr + id
  else g.gicdBaseAddr + gicdIpriorityr + id

/-- The byte of an interrupt. -/
def byte (id : ℕ) : ℕ := (m (g.slot id)).toNat

/-- The interrupt whose byte the getter returns. -/
def readId (id : ℕ) : ℕ := if g.gicv3Detected then id else id / 4 * 4

variable {g} {m}

/-- Two interrupts do not share a byte. -/
theorem Ready.slot_injective (hg : g.Ready) {i j : ℕ} (hi : IsValidIntrId i) (hj : IsValidIntrId j)
    (h : g.slot i = g.slot j) : i = j := by
  unfold IsValidIntrId at hi hj
  cases hgen : g.gicv3Detected with
  | false => simpa [slot, hgen] using h
  | true =>
    have hapart := hg.apart hgen
    simp only [slot, hgen, true_and] at h
    split_ifs at h <;> omega

/-- The assertions hold for an interrupt there is. -/
theorem Ready.asserts (hg : g.Ready) {id : ℕ} (hid : IsValidIntrId id) :
    ¬(g.gicdBaseAddr = 0 ∨ ¬IsValidIntrId id) := by
  rintro (hbase | hinvalid)
  · exact hg.distributor hbase
  · exact hinvalid hid

/-- The setter writes the byte of its interrupt. -/
theorem Ready.set_eq (hg : g.Ready) {id : ℕ} (hid : IsValidIntrId id) (priority : ℕ) :
    g.armGicSetIntrPriority m id priority = some (m.store (g.slot id) 1 (priority &&& gicPriMask)) := by
  have hasserts := hg.asserts hid
  cases hgen : g.gicv3Detected with
  | false => simp [armGicSetIntrPriority, gicv2GicdSetIpriorityr, gicdSetIpriorityr, slot, hgen, hasserts]
  | true =>
    have hrdist := hg.redistributor hgen
    by_cases hprivate : id < 32 <;>
      simp [armGicSetIntrPriority, gicv3SetIpriorityr, slot, hgen, hasserts, hprivate, hrdist]

/-- The written byte is that of its interrupt, and every other one is left alone. -/
theorem Ready.byte_set (hg : g.Ready) {id i : ℕ} (hid : IsValidIntrId id) (hi : IsValidIntrId i)
    (priority : ℕ) :
    g.byte (m.store (g.slot id) 1 (priority &&& gicPriMask)) i =
      Function.update (g.byte m) id (priority &&& gicPriMask) i := by
  by_cases hsame : i = id
  · have hmask : priority &&& gicPriMask < 256 := Nat.and_lt_two_pow priority (n := 8) (by decide)
    rw [hsame, Function.update_self, byte, ← Nat.add_zero (g.slot id), m.store_inside Nat.one_pos,
      pow_zero, Nat.div_one, UInt8.toNat_ofNat', Nat.mod_eq_of_lt hmask]
  · have hslot : g.slot i ≠ g.slot id := fun h => hsame (hg.slot_injective hi hid h)
    rw [Function.update_of_ne hsame, byte, m.store_outside (by omega), byte]

/-- The getter returns the byte of its interrupt on the third generation, and on the second that of the
first interrupt in the same word. -/
theorem Ready.get_eq (hg : g.Ready) {id : ℕ} (hid : IsValidIntrId id) :
    g.armGicGetIntrPriority m id = some (g.byte m (g.readId id)) := by
  have hasserts := hg.asserts hid
  cases hgen : g.gicv3Detected with
  | false =>
    have hword : (id >>> 2) <<< 2 = id / 4 * 4 := by rw [Nat.shiftLeft_eq, Nat.shiftRight_eq_div_pow]
    have hlow : m.load (g.gicdBaseAddr + gicdIpriorityr + id / 4 * 4) 4 &&& gicPriMask =
        m.load (g.gicdBaseAddr + gicdIpriorityr + id / 4 * 4) 1 :=
      (Nat.and_two_pow_sub_one_eq_mod _ 8).trans (m.load_mod _ 1 3)
    simp [armGicGetIntrPriority, gicv2GicdGetIpriorityr, gicdGetIpriorityr, gicdReadIpriorityr, hgen,
      hasserts, hword, hlow, byte, slot, readId, ByteMemory.load_one]
  | true =>
    have hrdist := hg.redistributor hgen
    by_cases hprivate : id < 32 <;>
      simp [armGicGetIntrPriority, gicv3GetIpriorityr, hgen, hasserts, hprivate, hrdist, byte, slot,
        readId, ByteMemory.load_one]

end Gic

/-! ## Histories of calls -/

/-- A call of the setter: the interrupt and the priority. -/
abbrev Call := ℕ × ℕ

/-- The priorities after a call. -/
def assign (priorities : ℕ → ℕ) (c : Call) : ℕ → ℕ :=
  Function.update priorities c.1 (c.2 &&& gicPriMask)

/-- Calls in order. -/
def Gic.setAll (g : Gic) (m : ByteMemory) (calls : List Call) : Option ByteMemory :=
  calls.foldlM (fun m c => g.armGicSetIntrPriority m c.1 c.2) m

section

variable {g : Gic} {m : ByteMemory} {priorities : ℕ → ℕ}

/-- The registers hold the priorities of the interrupts there are. -/
def Gic.Holds (g : Gic) (m : ByteMemory) (priorities : ℕ → ℕ) : Prop :=
  ∀ id, IsValidIntrId id → g.byte m id = priorities id

/-- A call returns and sets one priority. -/
theorem Gic.Ready.set_holds (hg : g.Ready) (h : g.Holds m priorities) {c : Call}
    (hc : IsValidIntrId c.1) :
    ∃ m', g.armGicSetIntrPriority m c.1 c.2 = some m' ∧ g.Holds m' (assign priorities c) := by
  refine ⟨_, hg.set_eq hc c.2, fun id hid => ?_⟩
  rw [hg.byte_set hc hid, assign]
  by_cases hsame : id = c.1
  · rw [hsame, Function.update_self, Function.update_self]
  · rw [Function.update_of_ne hsame, Function.update_of_ne hsame, h id hid]

/-- Every call of a history returns, and each sets one priority. -/
theorem Gic.Ready.setAll_holds (hg : g.Ready) {calls : List Call} (h : g.Holds m priorities)
    (hcalls : ∀ c ∈ calls, IsValidIntrId c.1) :
    ∃ m', g.setAll m calls = some m' ∧ g.Holds m' (calls.foldl assign priorities) := by
  induction calls generalizing m priorities with
  | nil => exact ⟨m, rfl, h⟩
  | cons c calls ih =>
    obtain ⟨next, hnext, hholds⟩ := hg.set_holds h (hcalls c List.mem_cons_self)
    obtain ⟨m', hrest, hend⟩ := ih hholds fun d hd => hcalls d (List.mem_cons_of_mem c hd)
    refine ⟨m', ?_, hend⟩
    rw [Gic.setAll, List.foldlM_cons, hnext]
    exact hrest

/-- The getter of an interrupt reads its own byte on the third generation, and on the second for the
first interrupt of each word. -/
theorem Gic.readId_eq_iff {id : ℕ} : g.readId id = id ↔ g.gicv3Detected = true ∨ id % 4 = 0 := by
  rw [Gic.readId]
  cases g.gicv3Detected with
  | false =>
    simp only [Bool.false_eq_true, if_false, false_or]
    omega
  | true => simp

/-- The interrupt that is read is one there is. -/
theorem Gic.readId_valid {id : ℕ} (hid : IsValidIntrId id) : IsValidIntrId (g.readId id) := by
  unfold IsValidIntrId Gic.readId at *
  split <;> omega

end

/-- **Whatever the registers hold at the start, the getter of an interrupt returns the last priority that
was set for it, or its first byte, and is not changed by a call for another interrupt, exactly on the third
generation or for the first interrupt of a word.** -/
theorem armGicGetIntrPriority_iff {g : Gic} (hg : g.Ready) (id : ℕ) (hid : IsValidIntrId id) :
    ((∀ (m : ByteMemory) (calls : List Call), (∀ c ∈ calls, IsValidIntrId c.1) →
          ∃ m', g.setAll m calls = some m' ∧
            g.armGicGetIntrPriority m' id = some (calls.foldl assign (g.byte m) id)) ∧
        ∀ (m : ByteMemory) (other priority : ℕ), IsValidIntrId other → other ≠ id →
          ∃ m', g.armGicSetIntrPriority m other priority = some m' ∧
            g.armGicGetIntrPriority m' id = g.armGicGetIntrPriority m id) ↔
      g.gicv3Detected = true ∨ id % 4 = 0 := by
  rw [← Gic.readId_eq_iff]
  constructor
  · rintro ⟨hlast, -⟩
    by_contra hother
    -- without any call, a byte of one and zeros around it
    have hslot : g.slot (g.readId id) ≠ g.slot id :=
      fun h => hother (hg.slot_injective (Gic.readId_valid hid) hid h)
    obtain ⟨m', hm', hget⟩ := hlast (fun x => if x = g.slot id then 1 else 0) [] (by simp)
    cases hm'
    rw [hg.get_eq hid] at hget
    simp [Gic.byte, hslot] at hget
  · intro hown
    constructor
    · intro m calls hcalls
      have hinitial : g.Holds m (g.byte m) := fun _ _ => rfl
      obtain ⟨m', hrun, hholds⟩ := hg.setAll_holds hinitial hcalls
      refine ⟨m', hrun, ?_⟩
      rw [hg.get_eq hid, hown, hholds id hid]
    · intro m other priority hvalid hne
      refine ⟨_, hg.set_eq hvalid priority, ?_⟩
      rw [hg.get_eq hid, hg.get_eq hid, hown, hg.byte_set hvalid hid, Function.update_of_ne hne.symm]

/-- The first core of the platform, on either generation. -/
def firstGic (gicv3Detected : Bool) : Gic := ⟨gicv3Detected, 0x2f000000, fun _ => 0x2f100000, 0x81000000⟩

/-- Its drivers have been set up. -/
theorem firstGic_ready (gicv3Detected : Bool) : (firstGic gicv3Detected).Ready where
  distributor := by cases gicv3Detected <;> decide
  redistributor := by cases gicv3Detected <;> decide
  apart := by cases gicv3Detected <;> decide

/-- Two calls for a shared interrupt of the third generation. -/
theorem armGicGetIntrPriority_third_generation :
    ∃ m', (firstGic true).setAll (fun _ => 0) [(33, 0x1a0), (33, 0x80)] = some m' ∧
      (firstGic true).armGicGetIntrPriority m' 33 = some 0x80 := by
  obtain ⟨m', hrun, hget⟩ :=
    ((armGicGetIntrPriority_iff (firstGic_ready true) 33 (by decide)).mpr (Or.inl rfl)).1 (fun _ => 0)
      [(33, 0x1a0), (33, 0x80)] (by decide)
  refine ⟨m', hrun, hget.trans ?_⟩
  simp [assign, gicPriMask]

/-- On the second generation the priority of interrupt 33 reads as that of interrupt 32. -/
theorem armGicGetIntrPriority_second_generation :
    ∃ m', (firstGic false).setAll (fun _ => 0) [(33, 0x80), (32, 0x40)] = some m' ∧
      (firstGic false).armGicGetIntrPriority m' 33 = some 0x40 :=
  ⟨_, rfl, by decide⟩

end Priority

end FfaAcs.Driver
