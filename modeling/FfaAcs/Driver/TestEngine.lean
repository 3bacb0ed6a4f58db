import FfaAcs.Machine.WordArithmetic
import FfaAcs.Platform.Libc

/-!
# The SMMU test engine

`smmuv3_configure_testengine` lets the engine copy a buffer page by page, one frame of registers for
each page. It polls the command register of a frame until the engine has halted. At the end it compares
the buffers.

The engine is a device with a state of its own, which changes with each access to a register. Nothing is
assumed about what it does to memory.
-/

namespace FfaAcs.Driver

open Machine Platform

/-- `pal_mmio_write32` or `pal_mmio_write64`. -/
structure MmioWrite where
  addr : ℕ
  bits : ℕ
  value : ℕ
deriving DecidableEq, Repr

/-- A device on the bus. A read may change its state, and `memory` is what the CPU then finds in
memory. -/
structure Engine (σ : Type) where
  write : σ → MmioWrite → σ
  read : σ → ℕ → ℕ × σ
  memory : σ → ByteMemory

/-- The arguments of `smmuv3_configure_testengine`. -/
structure DmaRequest where
  streamId : ℕ
  source : ℕ
  dest : ℕ
  size : ℕ
  secure : Bool

/-- What `smmuv3_configure_testengine` returns. -/
inductive PalStatus
  | success
  | error
deriving DecidableEq, Repr

/-- `PAGE_SIZE_4K`. -/
def pageSize4k : ℕ := 0x1000

/-- `TIME_OUT`. -/
def timeOut : ℕ := 0x100000

/-- `ENGINE_HALTED`. -/
def engineHalted : ℕ := 1

/-- `ENGINE_MEMCPY`. -/
def engineMemcpy : ℕ := 2

/-- A privileged frame. -/
def privilegedFrame (i : ℕ) : ℕ := 0x2bff0000 + i * 0x80

/-- A user frame. The command register is the first one. -/
def userFrame (i : ℕ) : ℕ := 0x2bfe0000 + i * 0x80

namespace DmaRequest

variable (c : DmaRequest)

/-- The number of frames. The size is cut to 32 bits before it is divided. -/
def numFrames : ℕ := wrap32 c.size / pageSize4k

/-- Where the page of a frame begins. -/
def begin (i : ℕ) : ℕ := wrap64 (c.source + wrap32 (i * pageSize4k))

/-- How a frame is set up, the command last. -/
def frameWrites (i : ℕ) : List MmioWrite :=
  [ ⟨privilegedFrame i + 0x0, 32, if c.secure then 0 else 1⟩,
    ⟨privilegedFrame i + 0x4, 32, 0⟩,
    ⟨privilegedFrame i + 0x8, 32, c.streamId⟩,
    ⟨privilegedFrame i + 0xC, 32, 0xFFFFFFFF⟩,
    ⟨userFrame i + 0x4, 32, 0⟩,
    ⟨userFrame i + 0x24, 32, 0⟩,
    ⟨userFrame i + 0x28, 64, c.begin i⟩,
    ⟨userFrame i + 0x30, 64, wrap64 (c.begin i + (pageSize4k - 1))⟩,
    ⟨userFrame i + 0x38, 32, 0x1⟩,
    ⟨userFrame i + 0x40, 64, wrap64 (c.dest + wrap32 (i * pageSize4k))⟩,
    ⟨userFrame i + 0x0, 32, engineMemcpy⟩ ]

end DmaRequest

/-- How the wait for a frame ends. -/
inductive Wait
  | halted
  | failed
  | timeout
deriving DecidableEq, Repr

section

variable {σ : Type} (e : Engine σ) (c : DmaRequest)

/-- The polling loop. The number is the counter after it has been decremented, so that the loop ends
when it is zero. -/
def waitHalted (cmd : ℕ) : ℕ → σ → Wait × σ
  | 0, s => (.timeout, s)
  | t + 1, s =>
    let r := e.read s cmd
    if r.1 = engineMemcpy then waitHalted cmd t r.2
    else if r.1 ≠ engineHalted then (.failed, r.2)
    else (.halted, r.2)

/-- One round of the loop over the frames. -/
def transferFrame (i : ℕ) (s : σ) : Wait × σ :=
  waitHalted e (userFrame i) (timeOut - 1) ((c.frameWrites i).foldl e.write s)

/-- The loop over the frames from frame `i` on, with the value of `begin`. -/
def transferFrames : ℕ → ℕ → ℕ → σ → Option ℕ × σ
  | 0, _, first, s => (some first, s)
  | todo + 1, i, _, s =>
    match transferFrame e c i s with
    | (.halted, s) => transferFrames todo (i + 1) (c.begin i) s
    | (_, s) => (none, s)

/-- What a call returns, the addresses that its comparison reads, and the state it leaves. -/
structure Configured (σ : Type) where
  status : PalStatus
  reads : List ℕ
  final : σ

/-- `smmuv3_configure_testengine`. -/
def smmuv3ConfigureTestengine (s : σ) : Configured σ :=
  if c.source = 0 ∨ c.dest = 0 then ⟨.error, [], s⟩
  else if c.numFrames < 1 then ⟨.error, [], s⟩
  else
    match transferFrames e c c.numFrames 0 0 s with
    | (none, s) => ⟨.error, [], s⟩
    | (some first, s) =>
      ⟨if memcmp (e.memory s) first c.dest c.size ≠ 0 then .error else .success,
        memcmpReads (e.memory s) first c.dest c.size, s⟩

/-! ## Waiting for the engine -/

/-- The state of the engine after its command register has been read a number of times. -/
def Engine.polled (cmd k : ℕ) (s : σ) : σ := (fun t => (e.read t cmd).2)^[k] s

/-- The command register says that the engine copies, and then that it has halted, before the loop ends. -/
def Engine.HaltsWithin (cmd t : ℕ) (s : σ) : Prop :=
  ∃ k < t, (∀ j < k, (e.read (e.polled cmd j s) cmd).1 = engineMemcpy) ∧
    (e.read (e.polled cmd k s) cmd).1 = engineHalted

variable {e c}

/-- The wait for an engine that halts in time succeeds. -/
theorem waitHalted_of_haltsWithin {cmd t : ℕ} {s : σ} (h : e.HaltsWithin cmd t s) :
    (waitHalted e cmd t s).1 = .halted := by
  induction t generalizing s with
  | zero =>
    obtain ⟨k, hk, -⟩ := h
    omega
  | succ t ih =>
    obtain ⟨k, hk, hcopies, hhalted⟩ := h
    rw [waitHalted]
    cases k with
    | zero =>
      have hread : (e.read s cmd).1 = engineHalted := hhalted
      simp [hread, engineHalted, engineMemcpy]
    | succ k =>
      have hread : (e.read s cmd).1 = engineMemcpy := hcopies 0 (by omega)
      simp only [hread, if_true]
      exact ih ⟨k, by omega, fun j hj => hcopies (j + 1) (by omega), hhalted⟩

variable (e c)

/-- The state before a frame is set up, if all frames before it were transferred. -/
def stateBefore (s : σ) : ℕ → σ
  | 0 => s
  | i + 1 => (transferFrame e c i (stateBefore s i)).2

/-- Each frame ends in `ENGINE_HALTED` before the timeout. -/
def Engine.Halts (s : σ) : Prop :=
  ∀ i < c.numFrames, e.HaltsWithin (userFrame i) (timeOut - 1)
    ((c.frameWrites i).foldl e.write (stateBefore e c s i))

variable {e c}

/-- The loop ends with the last frame, and `begin` is left where that frame begins. -/
theorem transferFrames_of_halted (todo i first : ℕ) {s : σ}
    (h : ∀ j, i ≤ j → j < i + todo → (transferFrame e c j (stateBefore e c s j)).1 = .halted) :
    transferFrames e c todo i first (stateBefore e c s i) =
      (some (if todo = 0 then first else c.begin (i + todo - 1)), stateBefore e c s (i + todo)) := by
  induction todo generalizing i first with
  | zero => rfl
  | succ todo ih =>
    have hhead := h i le_rfl (by omega)
    have hrest := ih (i + 1) (c.begin i) fun j hlow hhigh => h j (by omega) (by omega)
    rw [transferFrames]
    rcases hframe : transferFrame e c i (stateBefore e c s i) with ⟨wait, next⟩
    rw [hframe] at hhead
    simp only at hhead
    subst hhead
    have hnext : next = stateBefore e c s (i + 1) := by rw [stateBefore, hframe]
    simp only [hnext, hrest]
    have hindex : i + 1 + todo = i + (todo + 1) := by omega
    rw [hindex]
    cases todo with
    | zero => rfl
    | succ todo => rfl

/-- A call compares the buffers from where the last frame begins. -/
theorem configure_of_halts {s : σ} (hsource : c.source ≠ 0) (hdest : c.dest ≠ 0)
    (hframes : 0 < c.numFrames) (h : e.Halts c s) :
    smmuv3ConfigureTestengine e c s =
      let m := e.memory (stateBefore e c s c.numFrames)
      ⟨if memcmp m (c.begin (c.numFrames - 1)) c.dest c.size ≠ 0 then .error else .success,
        memcmpReads m (c.begin (c.numFrames - 1)) c.dest c.size,
        stateBefore e c s c.numFrames⟩ := by
  have hloop := transferFrames_of_halted (e := e) (c := c) (s := s) c.numFrames 0 0
    fun j _ hj => waitHalted_of_haltsWithin (h j (by omega))
  rw [if_neg (by omega), Nat.zero_add] at hloop
  rw [smmuv3ConfigureTestengine, if_neg (by tauto), if_neg (by omega)]
  rw [stateBefore] at hloop
  rw [hloop]

end

/-! ## Comparing the buffers -/

/-- What the call is for: it succeeds exactly if the engine has copied the buffer, and reads nothing but
the two buffers to find out. -/
structure Compares {σ : Type} (e : Engine σ) (c : DmaRequest) (s : σ) : Prop where
  status : (smmuv3ConfigureTestengine e c s).status = .success ↔
    ∀ i < c.size, e.memory (stateBefore e c s c.numFrames) (c.dest + i) =
      e.memory (stateBefore e c s c.numFrames) (c.source + i)
  reads : ∀ x ∈ (smmuv3ConfigureTestengine e c s).reads,
    (c.source ≤ x ∧ x < c.source + c.size) ∨ (c.dest ≤ x ∧ x < c.dest + c.size)

/-- The status is success exactly if the comparison found no difference. -/
theorem status_eq_success_iff {diff : ℤ} :
    (if diff ≠ 0 then PalStatus.error else PalStatus.success) = .success ↔ diff = 0 := by
  by_cases h : diff = 0 <;> simp [h]

/-- An engine that halts at once and leaves memory as it is. -/
def idle (m : ByteMemory) : Engine Unit where
  write s _ := s
  read s _ := (engineHalted, s)
  memory _ := m

/-- An engine that does nothing halts. -/
theorem idle_halts (m : ByteMemory) (c : DmaRequest) : (idle m).Halts c () :=
  fun _ _ => ⟨0, by decide, fun j hj => absurd hj (Nat.not_lt_zero j), rfl⟩

/-- A memory in which the comparison of the second operand with a later part of the first misleads. -/
def misleading (source dest step : ℕ) : ByteMemory := fun x =>
  if source = dest then if x = source + step then 1 else 0
  else if dest < source then if dest ≤ x ∧ (x - dest) % (source + step - dest) = 0 then 1 else 0
  else if x = source then 1 else 0

/-- If a comparison starts a step too late, there is a memory for which it gives the wrong answer. -/
theorem misleading_spec (source dest step : ℕ) {size : ℕ} (hstep : 0 < step) (hsize : 0 < size) :
    ¬((∀ i < size, misleading source dest step (source + step + i) = misleading source dest step (dest + i)) ↔
      ∀ i < size, misleading source dest step (dest + i) = misleading source dest step (source + i)) := by
  rcases Nat.lt_trichotomy source dest with hlt | rfl | hgt
  · -- the byte at the source differs, and the comparison does not see it
    have hbyte (x : ℕ) : misleading source dest step x = if x = source then 1 else 0 := by
      rw [misleading, if_neg (by omega), if_neg (by omega)]
    simp only [hbyte]
    intro hiff
    have hsame := hiff.mp (fun i _ => by rw [if_neg (by omega), if_neg (by omega)]) 0 hsize
    rw [if_neg (by omega), if_pos (by omega)] at hsame
    exact absurd hsame (by decide)
  · -- a buffer is equal to itself, but not to itself a step later
    have hbyte (x : ℕ) : misleading source source step x = if x = source + step then 1 else 0 := by
      rw [misleading, if_pos rfl]
    simp only [hbyte]
    intro hiff
    have hsame := hiff.mpr (fun _ _ => trivial) 0 hsize
    rw [if_pos (by omega), if_neg (by omega)] at hsame
    exact absurd hsame (by decide)
  · -- the memory repeats itself from the destination to where the comparison starts
    obtain ⟨gap, rfl⟩ : ∃ gap, source = dest + gap := ⟨source - dest, by omega⟩
    have hbyte (i : ℕ) :
        misleading (dest + gap) dest step (dest + i) = if i % (gap + step) = 0 then 1 else 0 := by
      have hperiod : dest + gap + step - dest = gap + step := by omega
      have hoffset : dest + i - dest = i := by omega
      rw [misleading, if_neg (by omega), if_pos (by omega), hperiod, hoffset]
      simp
    have hlater (i : ℕ) : dest + gap + step + i = dest + (i + (gap + step)) := by omega
    simp only [hlater]
    simp only [Nat.add_assoc dest gap, hbyte, Nat.add_mod_right]
    intro hiff
    have hsame := hiff.mp (fun _ _ => trivial) 0 hsize
    rw [Nat.add_zero, Nat.zero_mod, if_pos rfl, Nat.mod_eq_of_lt (by omega), if_neg (by omega)] at hsame
    exact absurd hsame (by decide)

/-- For every request of whole pages: the call compares the buffers as it should, whatever the engine
does, exactly if there is one page. -/
theorem testengine_compares_iff (c : DmaRequest) (hpages : 4096 ∣ c.size) (hpos : 0 < c.size)
    (hsize : c.size < 2 ^ 32) (hsource : c.source ≠ 0) (hdest : c.dest ≠ 0)
    (hroom : c.source + c.size ≤ 2 ^ 64) :
    (∀ (σ : Type) (e : Engine σ) (s : σ), e.Halts c s → Compares e c s) ↔ c.size = 4096 := by
  have hframes : c.numFrames * 4096 = c.size := by
    rw [DmaRequest.numFrames, wrap32_of_lt hsize, pageSize4k, Nat.div_mul_cancel hpages]
  have hbegin : c.begin (c.numFrames - 1) = c.source + (c.size - 4096) := by
    have hlast : (c.numFrames - 1) * pageSize4k = c.size - 4096 := by
      rw [Nat.sub_mul, Nat.one_mul, pageSize4k, hframes]
    rw [DmaRequest.begin, hlast, wrap32_of_lt (by omega), wrap64_of_lt (by omega)]
  have hcall {σ : Type} {e : Engine σ} {s : σ} (h : e.Halts c s) :=
    configure_of_halts hsource hdest (by omega) h
  simp only [hbegin] at hcall
  constructor
  · intro hall
    by_contra hmore
    have hstatus := (hall Unit (idle (misleading c.source c.dest (c.size - 4096))) () (idle_halts _ c)).status
    rw [hcall (idle_halts _ c)] at hstatus
    refine misleading_spec c.source c.dest (c.size - 4096) (by omega) hpos ?_
    rw [← memcmp_eq_zero_iff, ← status_eq_success_iff]
    exact hstatus
  · intro hone σ e s h
    have hstart : c.source + (c.size - 4096) = c.source := by omega
    have hcall := hcall h
    rw [hstart] at hcall
    constructor
    · rw [hcall]
      simp only [status_eq_success_iff, memcmp_eq_zero_iff]
      exact forall₂_congr fun i _ => eq_comm
    · rw [hcall]
      exact fun x hx => memcmpReads_within _ hx

/-! ## An engine that copies -/

/-- The registers of the engine and the memory. -/
structure Copier where
  regs : ℕ → ℕ
  mem : ByteMemory

/-- The engine as its header describes it, for a stride of one. The command register is the first of its
frame, and the copy is done when the command has been written. -/
def copier : Engine Copier where
  write s w :=
    if w.addr % 0x80 = 0 ∧ w.value = engineMemcpy then
      let first := s.regs (w.addr + 0x28)
      let last := s.regs (w.addr + 0x30)
      { s with mem := memcpy s.mem (s.regs (w.addr + 0x40)) first (last + 1 - first) }
    else { s with regs := Function.update s.regs w.addr w.value }
  read s _ := (engineHalted, s)
  memory s := s.mem

/-- The copying engine halts at once. -/
theorem copier_halts (c : DmaRequest) (s : Copier) : copier.Halts c s :=
  fun _ _ => ⟨0, by decide, fun j hj => absurd hj (Nat.not_lt_zero j), rfl⟩

/-- The memory of the copying engine is the one it copies in. -/
theorem memory_copier (s : Copier) : copier.memory s = s.mem := rfl

/-- Two pages from `0x10000` to `0x20000`. -/
def twoPages : DmaRequest := ⟨0, 0x10000, 0x20000, 0x2000, false⟩

/-- The second page of the source is filled with ones. -/
def secondPageSet : Copier := ⟨fun _ => 0, fun x => if 0x11000 ≤ x ∧ x < 0x12000 then 1 else 0⟩

/-- The wait for this engine ends at once. -/
theorem waitHalted_copier (cmd : ℕ) (s : Copier) : waitHalted copier cmd (timeOut - 1) s = (.halted, s) := by
  have hcount : timeOut - 1 = 0xffffe + 1 := rfl
  rw [hcount, waitHalted]
  rfl

/-- What one frame does. -/
theorem transferFrame_copier {i : ℕ} (hi : i < 2) (s : Copier) :
    (transferFrame copier twoPages i s).2.mem =
      memcpy s.mem (0x20000 + i * 0x1000) (0x10000 + i * 0x1000) 0x1000 := by
  rw [transferFrame, waitHalted_copier]
  interval_cases i <;>
    simp [DmaRequest.frameWrites, DmaRequest.begin, twoPages, copier, privilegedFrame, userFrame,
      engineMemcpy, pageSize4k, wrap64, wrap32, Function.update]

/-- The engine has copied both pages. -/
theorem copier_memory : copier.memory (stateBefore copier twoPages secondPageSet 2) =
    memcpy (memcpy secondPageSet.mem 0x20000 0x10000 0x1000) 0x21000 0x11000 0x1000 := by
  have hframe (i : ℕ) (hi : i < 2) : (stateBefore copier twoPages secondPageSet (i + 1)).mem =
      memcpy (stateBefore copier twoPages secondPageSet i).mem (0x20000 + i * 0x1000)
        (0x10000 + i * 0x1000) 0x1000 := transferFrame_copier hi _
  have hfirst := hframe 0 (by decide)
  have hsecond := hframe 1 (by decide)
  simp only [Nat.reduceMul, Nat.reduceAdd, stateBefore.eq_1] at hfirst hsecond
  rw [memory_copier, hsecond, hfirst]

/-- The engine copies two pages, and the call reports an error. -/
theorem testengine_rejects_copy :
    copier.Halts twoPages secondPageSet ∧
      (∀ i < twoPages.size,
        copier.memory (stateBefore copier twoPages secondPageSet twoPages.numFrames) (twoPages.dest + i) =
          copier.memory (stateBefore copier twoPages secondPageSet twoPages.numFrames) (twoPages.source + i)) ∧
      (smmuv3ConfigureTestengine copier twoPages secondPageSet).status = .error := by
  have hframes : twoPages.numFrames = 2 := rfl
  have hsource (i : ℕ) (hi : i < 0x2000) :
      copier.memory (stateBefore copier twoPages secondPageSet 2) (0x10000 + i) =
        secondPageSet.mem (0x10000 + i) := by
    rw [copier_memory, memcpy_outside _ (by omega), memcpy_outside _ (by omega)]
  have hdest (i : ℕ) (hi : i < 0x2000) :
      copier.memory (stateBefore copier twoPages secondPageSet 2) (0x20000 + i) =
        secondPageSet.mem (0x10000 + i) := by
    rw [copier_memory]
    by_cases hpage : i < 0x1000
    · rw [memcpy_outside _ (by omega), memcpy_inside _ (by omega) hpage]
    · obtain ⟨j, rfl⟩ := Nat.exists_eq_add_of_le (Nat.le_of_not_lt hpage)
      rw [← Nat.add_assoc, memcpy_inside _ (by omega) (by omega), memcpy_outside _ (by omega),
        ← Nat.add_assoc]
  refine ⟨copier_halts _ _, fun i hi => ?_, ?_⟩
  · rw [hframes]
    exact (hdest i hi).trans (hsource i hi).symm
  · have hcall := configure_of_halts (e := copier) (c := twoPages) (s := secondPageSet) (by decide) (by decide)
      (by decide) (copier_halts _ _)
    have hlast : twoPages.begin (2 - 1) = 0x11000 := rfl
    simp only [hframes, hlast] at hcall
    rw [hcall]
    dsimp only
    rw [if_pos]
    rw [Ne, memcmp_eq_zero_iff]
    intro hsame
    have hbyte : secondPageSet.mem (0x10000 + 0x1000) = secondPageSet.mem (0x10000 + 0) :=
      (hsource 0x1000 (by decide)).symm.trans ((hsame 0 (by decide)).trans (hdest 0 (by decide)))
    exact absurd hbyte (by decide)

/-- The test of one page compares all of it. -/
theorem testengine_compares_one_page :
    Compares copier ⟨0, 0x10000, 0x20000, 0x1000, false⟩ secondPageSet :=
  (testengine_compares_iff ⟨0, 0x10000, 0x20000, 0x1000, false⟩ (by decide) (by decide) (by decide)
    (by decide) (by decide) (by decide)).mpr rfl Copier copier secondPageSet (copier_halts _ _)

end FfaAcs.Driver
