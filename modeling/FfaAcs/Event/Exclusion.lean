import Mathlib.Tactic
import FfaAcs.Event.Semaphore

/-!
# One CPU at a time, and no event lost or made up

The lock word is zero exactly when no CPU is between a lock and its unlock, and at most one CPU is.
While a CPU is there, nobody else writes the counter, so what it has read still holds when it
stores. The events sent are therefore the events consumed and those the counter still holds.
-/

namespace FfaAcs.Event

open Function Machine

variable {C : Type*} [DecidableEq C] {s t : State C} {c d : C} {noOfCpus : UInt32}

/-! ## What an instruction does -/

/-- The instructions, each with the place it is executed at and the state it leaves. -/
inductive Executes (s : State C) (c : C) : State C → Prop
  | sleep (hpc : s.pc c = .poll) (hcnt : s.cnt = 0) : Executes s c (s.goto c .wfe)
  | hurry (hpc : s.pc c = .poll) : Executes s c (s.goto c (.sevl .wait))
  | awake (hpc : s.pc c = .wfe) : Executes s c ((s.setEvent c false).goto c .poll)
  | sevl (k : Task) (hpc : s.pc c = .sevl k) :
    Executes s c ((s.setEvent c true).goto c (.lockWfe k))
  | lockAwake (k : Task) (hpc : s.pc c = .lockWfe k) :
    Executes s c ((s.setEvent c false).goto c (.ldaxr k))
  | free (k : Task) (hpc : s.pc c = .ldaxr k) (hlock : s.lock = 0) :
    Executes s c ((s.setMonitor c true).goto c (.stxr k))
  | held (k : Task) (hpc : s.pc c = .ldaxr k) (hlock : s.lock ≠ 0) :
    Executes s c ((s.setMonitor c true).goto c (.lockWfe k))
  | acquire (k : Task) (hpc : s.pc c = .stxr k) (hmonitor : s.monitor c = true) :
    Executes s c ((s.writeLock c 1).goto c k.locked)
  | again (k : Task) (hpc : s.pc c = .stxr k) : Executes s c (s.goto c (.ldaxr k))
  | stolen (hpc : s.pc c = .check) : Executes s c (s.goto c (.unlock .wait false))
  | present (hpc : s.pc c = .check) (hcnt : s.cnt ≠ 0) : Executes s c (s.goto c (.load .wait))
  | load (k : Task) (hpc : s.pc c = .load k) : Executes s c (s.goto c (.store k s.cnt))
  | store (k : Task) (v : UInt32) (hpc : s.pc c = .store k v) :
    Executes s c ((s.writeCnt v k).goto c (.unlock k k.receives))
  | unlock (k : Task) (received : Bool) (hpc : s.pc c = .unlock k received) :
    Executes s c (s.release c k received)
  | sev (hpc : s.pc c = .sev) : Executes s c { s.goto c .idle with event := fun _ => true }

/-- Every step of the model is the execution of one of these instructions. -/
theorem executes_of_instr (h : instr s c = some t) : Executes s c t := by
  unfold instr at h
  cases hpc : s.pc c with
  | idle => simp [hpc] at h
  | poll =>
    simp only [hpc, Option.some.injEq] at h
    subst h
    split_ifs with hcnt
    · exact .sleep hpc hcnt
    · exact .hurry hpc
  | wfe =>
    simp only [hpc, Option.ite_none_right_eq_some, Option.some.injEq] at h
    exact h.2 ▸ .awake hpc
  | sevl k =>
    simp only [hpc, Option.some.injEq] at h
    exact h ▸ .sevl k hpc
  | lockWfe k =>
    simp only [hpc, Option.ite_none_right_eq_some, Option.some.injEq] at h
    exact h.2 ▸ .lockAwake k hpc
  | ldaxr k =>
    simp only [hpc, Option.some.injEq] at h
    subst h
    split_ifs with hlock
    · exact .free k hpc hlock
    · exact .held k hpc hlock
  | stxr k =>
    simp only [hpc] at h
    split_ifs at h with hmonitor
    · exact Option.some.inj h ▸ .acquire k hpc hmonitor
    · exact Option.some.inj h ▸ .again k hpc
  | check =>
    simp only [hpc, Option.some.injEq] at h
    subst h
    split_ifs with hcnt
    · exact .stolen hpc
    · exact .present hpc hcnt
  | load k =>
    simp only [hpc, Option.some.injEq] at h
    exact h ▸ .load k hpc
  | store k v =>
    simp only [hpc, Option.some.injEq] at h
    exact h ▸ .store k v hpc
  | unlock k received =>
    simp only [hpc, Option.some.injEq] at h
    exact h ▸ .unlock k received hpc
  | sev =>
    simp only [hpc, Option.some.injEq] at h
    exact h ▸ .sev hpc

/-- The steps: a call begins, an instruction is executed, an exclusive store fails, or the hardware
sets an event register or drops a monitor. -/
theorem step_cases {l : Label C} (h : Step noOfCpus s l t) :
    (∃ c k, l = .call c k ∧ s.pc c = .idle ∧ t = s.goto c (k.entry noOfCpus)) ∨
      (∃ c, l = .run c ∧ Executes s c t) ∨
      (∃ c k, l = .fail c ∧ s.pc c = .stxr k ∧ t = (s.setMonitor c false).goto c (.ldaxr k)) ∨
      (∃ c, l = .wake c ∧ t = s.setEvent c true) ∨
      (∃ c, l = .lose c ∧ t = (s.setMonitor c false).setEvent c true) := by
  unfold Step step at h
  cases l with
  | call c k =>
    simp only [Option.ite_none_right_eq_some, Option.some.injEq] at h
    exact .inl ⟨c, k, rfl, h.1, h.2.symm⟩
  | run c => exact .inr (.inl ⟨c, rfl, executes_of_instr h⟩)
  | fail c =>
    simp only at h
    split at h
    · next k hpc => exact .inr (.inr (.inl ⟨c, k, rfl, hpc, (Option.some.inj h).symm⟩))
    · cases h
  | wake c => exact .inr (.inr (.inr (.inl ⟨c, rfl, (Option.some.inj h).symm⟩)))
  | lose c => exact .inr (.inr (.inr (.inr ⟨c, rfl, (Option.some.inj h).symm⟩)))

/-! ## Mutual exclusion -/

/-- The places between a spin-lock and its unlock. -/
def Pc.critical : Pc → Bool
  | .check | .load _ | .store _ _ | .unlock _ _ => true
  | _ => false

/-- At most one CPU is between a lock and its unlock; the lock word says whether one is; and a CPU
whose exclusive store can succeed finds the lock free. -/
structure Exclusion (s : State C) (owner : Option C) : Prop where
  free : s.lock = 0 ↔ owner = none
  critical : ∀ c, (s.pc c).critical = true ↔ owner = some c
  reserved : ∀ c k, s.pc c = .stxr k → s.monitor c = true → s.lock = 0

omit [DecidableEq C] in
/-- Nobody has the lock at the start. -/
theorem exclusion_init (event monitor : C → Bool) : Exclusion (State.init event monitor) none where
  free := by simp [State.init]
  critical c := by simp [State.init, Pc.critical]
  reserved c k h := by simp [State.init] at h

/-- A CPU that goes on on the same side of the lock leaves the owner as it is. -/
theorem Exclusion.goto {owner : Option C} (h : Exclusion s owner) {p : Pc}
    (hside : p.critical = (s.pc c).critical) (hstxr : ∀ k, p = .stxr k → s.lock = 0) :
    Exclusion (s.goto c p) owner where
  free := h.free
  critical d := by
    rw [← h.critical d]
    by_cases hd : d = c
    · subst hd
      simp [State.goto, hside]
    · simp [State.goto, hd]
  reserved d k hpc hmonitor := by
    by_cases hd : d = c
    · subst hd
      exact hstxr k (by simpa [State.goto] using hpc)
    · exact h.reserved d k (by simpa [State.goto, hd] using hpc) hmonitor

/-- An event register has nothing to do with the lock. -/
theorem Exclusion.setEvent {owner : Option C} (h : Exclusion s owner) (b : Bool) :
    Exclusion (s.setEvent c b) owner := ⟨h.free, h.critical, h.reserved⟩

/-- A monitor may be cleared at any time, and set unless its CPU is at the exclusive store. -/
theorem Exclusion.setMonitor {owner : Option C} (h : Exclusion s owner) {b : Bool}
    (hset : b = true → ∀ k, s.pc c ≠ .stxr k) : Exclusion (s.setMonitor c b) owner where
  free := h.free
  critical := h.critical
  reserved d k hpc hmonitor := by
    by_cases hd : d = c
    · subst hd
      exact absurd hpc (hset (by simpa [State.setMonitor] using hmonitor) k)
    · exact h.reserved d k hpc (by simpa [State.setMonitor, hd] using hmonitor)

omit [DecidableEq C] in
/-- The counter has nothing to do with the lock. -/
theorem Exclusion.writeCnt {owner : Option C} (h : Exclusion s owner) (v : UInt32) (k : Task) :
    Exclusion (s.writeCnt v k) owner := by
  cases k <;> exact ⟨h.free, h.critical, h.reserved⟩

/-- An exclusive store that succeeds makes its CPU the owner. -/
theorem Exclusion.acquire {owner : Option C} (h : Exclusion s owner) {k : Task}
    (hpc : s.pc c = .stxr k) (hmonitor : s.monitor c = true) :
    Exclusion ((s.writeLock c 1).goto c k.locked) (some c) := by
  have hnone := h.free.mp (h.reserved c k hpc hmonitor)
  refine ⟨by simp [State.goto, State.writeLock], fun d => ?_, fun d k _ hset => ?_⟩
  · have hd := h.critical d
    rw [hnone] at hd
    by_cases hdc : d = c
    · subst hdc
      cases k <;> simp [State.goto, Task.locked, Pc.critical]
    · simpa [State.goto, State.writeLock, hdc, Ne.symm hdc] using hd
  · simp [State.goto, State.writeLock] at hset

/-- The unlock ends the ownership. -/
theorem Exclusion.release {owner : Option C} (h : Exclusion s owner) {k : Task} {received : Bool}
    (hpc : s.pc c = .unlock k received) : Exclusion (s.release c k received) none := by
  have howner := (h.critical c).mp (by rw [hpc]; rfl)
  refine ⟨by simp [State.release, State.goto, State.writeLock], fun d => ?_, fun d k _ hset => ?_⟩
  · have hd := h.critical d
    rw [howner] at hd
    by_cases hdc : d = c
    · subst hdc
      cases k <;> cases received <;> simp [State.release, State.goto, Task.unlocked, Pc.critical]
    · simpa [State.release, State.goto, State.writeLock, hdc, Ne.symm hdc] using hd
  · simp [State.release, State.goto, State.writeLock] at hset

/-- Every instruction keeps the exclusion. -/
theorem Exclusion.executes {owner : Option C} (h : Exclusion s owner) (hstep : Executes s c t) :
    ∃ owner', Exclusion t owner' := by
  cases hstep with
  | sleep hpc | hurry hpc | stolen hpc | present hpc | load k hpc | again k hpc =>
    exact ⟨owner, h.goto (by rw [hpc]; rfl) (by simp)⟩
  | awake hpc | sevl k hpc | lockAwake k hpc =>
    exact ⟨owner, (h.setEvent _).goto (by simp only [State.setEvent, hpc]; rfl) (by simp)⟩
  | free k hpc hlock =>
    have hset := h.setMonitor (c := c) (b := true) fun _ k => by simp [hpc]
    exact ⟨owner, hset.goto (by simp only [State.setMonitor, hpc]; rfl) fun _ _ => hlock⟩
  | held k hpc =>
    have hset := h.setMonitor (c := c) (b := true) fun _ k => by simp [hpc]
    exact ⟨owner, hset.goto (by simp only [State.setMonitor, hpc]; rfl) (by simp)⟩
  | acquire k hpc hmonitor => exact ⟨some c, h.acquire hpc hmonitor⟩
  | store k v hpc =>
    refine ⟨owner, (h.writeCnt v k).goto ?_ (by simp)⟩
    cases k <;> simp only [State.writeCnt, hpc] <;> rfl
  | unlock k received hpc => exact ⟨none, h.release hpc⟩
  | sev hpc =>
    obtain ⟨hfree, hcritical, hreserved⟩ := h.goto (c := c) (p := .idle) (by rw [hpc]; rfl) (by simp)
    exact ⟨owner, hfree, hcritical, hreserved⟩

/-- Every step of a CPU or of its surroundings keeps the exclusion. -/
theorem Exclusion.step {owner : Option C} {l : Label C} (h : Exclusion s owner)
    (hstep : Step noOfCpus s l t) : ∃ owner', Exclusion t owner' := by
  rcases step_cases hstep with ⟨c, k, -, hpc, rfl⟩ | ⟨c, -, hexecutes⟩ | ⟨c, k, -, hpc, rfl⟩ |
    ⟨c, -, rfl⟩ | ⟨c, -, rfl⟩
  · refine ⟨owner, h.goto ?_ fun k' => ?_⟩
    · cases k <;> rw [hpc] <;> rfl
    · cases k <;> simp [Call.entry]
  · exact h.executes hexecutes
  · have hclear := h.setMonitor (c := c) (b := false) (by simp)
    exact ⟨owner, hclear.goto (by simp only [State.setMonitor, hpc]; rfl) (by simp)⟩
  · exact ⟨owner, h.setEvent true⟩
  · exact ⟨owner, (h.setMonitor (by simp)).setEvent true⟩

omit [DecidableEq C] in
/-- The CPUs other than the one with the lock are not between a lock and its unlock. -/
theorem Exclusion.not_critical {owner : Option C} (h : Exclusion s owner)
    (hc : (s.pc c).critical = true) (hd : d ≠ c) : (s.pc d).critical = false := by
  have howner := (h.critical c).mp hc
  by_contra hcritical
  have hsame := (h.critical d).mp (by simpa using hcritical)
  rw [howner, Option.some.injEq] at hsame
  exact hd hsame.symm

/-! ## Counting -/

/-- What a CPU with the lock knows of the counters at each place. -/
def Pc.knows (cnt : UInt32) (returned consumed : ℕ) : Pc → Prop
  | .check | .load (.send _) => returned = consumed
  | .load .wait => cnt ≠ 0 ∧ returned = consumed
  | .store (.send _) v => cnt = v ∧ returned = consumed
  | .store .wait v => cnt = v ∧ v ≠ 0 ∧ returned = consumed
  | .unlock _ received => returned + received.toNat = consumed
  | _ => True

section

variable {cnt v inc : UInt32} {returned consumed : ℕ} {t : Task} {received : Bool}

/-- At the check, every consumed event belongs to a wait that has returned. -/
@[simp] theorem Pc.knows_check : Pc.check.knows cnt returned consumed ↔ returned = consumed := Iff.rfl

/-- So it is for a sender that is about to read the counter. -/
@[simp] theorem Pc.knows_load_send :
    (Pc.load (.send inc)).knows cnt returned consumed ↔ returned = consumed := Iff.rfl

/-- A waiter that is about to read the counter has found it to be more than zero. -/
@[simp] theorem Pc.knows_load_wait :
    (Pc.load .wait).knows cnt returned consumed ↔ cnt ≠ 0 ∧ returned = consumed := Iff.rfl

/-- A sender that is about to write the counter has read its present value. -/
@[simp] theorem Pc.knows_store_send :
    (Pc.store (.send inc) v).knows cnt returned consumed ↔ cnt = v ∧ returned = consumed := Iff.rfl

/-- A waiter that is about to write the counter has read its present value, which is more than zero. -/
@[simp] theorem Pc.knows_store_wait :
    (Pc.store .wait v).knows cnt returned consumed ↔ cnt = v ∧ v ≠ 0 ∧ returned = consumed := Iff.rfl

/-- Before the unlock, the event that was just consumed is the only one whose wait has not returned. -/
@[simp] theorem Pc.knows_unlock :
    (Pc.unlock t received).knows cnt returned consumed ↔ returned + received.toNat = consumed := Iff.rfl

end

/-- Without the lock nothing is known of the counters. -/
theorem Pc.knows_of_not_critical {p : Pc} {cnt : UInt32} {returned consumed : ℕ}
    (h : p.critical = false) : p.knows cnt returned consumed := by
  cases p <;> trivial

/-- Every event sent is consumed or still counted, and every event consumed belongs to a wait that
has returned or is about to. -/
structure Counting (s : State C) : Prop where
  knows : ∀ c, (s.pc c).knows s.cnt s.returned s.consumed
  settled : s.lock = 0 → s.returned = s.consumed
  modulo : (s.cnt.toNat + s.consumed) % 2 ^ 32 = s.sent % 2 ^ 32
  exact : s.sent < 2 ^ 32 → s.cnt.toNat + s.consumed = s.sent

omit [DecidableEq C] in
/-- Nothing has been sent at the start. -/
theorem counting_init (event monitor : C → Bool) : Counting (State.init event monitor) where
  knows _ := trivial
  settled _ := rfl
  modulo := rfl
  exact _ := rfl

/-- A CPU may go on to a place where it knows what it has to know. -/
theorem Counting.goto (h : Counting s) {p : Pc} (hp : p.knows s.cnt s.returned s.consumed) :
    Counting (s.goto c p) where
  knows d := by
    by_cases hd : d = c
    · subst hd
      simpa [State.goto] using hp
    · simpa [State.goto, hd] using h.knows d
  settled := h.settled
  modulo := h.modulo
  exact := h.exact

/-- An event register is not counted. -/
theorem Counting.setEvent (h : Counting s) (b : Bool) : Counting (s.setEvent c b) :=
  ⟨h.knows, h.settled, h.modulo, h.exact⟩

/-- A monitor is not counted. -/
theorem Counting.setMonitor (h : Counting s) (b : Bool) : Counting (s.setMonitor c b) :=
  ⟨h.knows, h.settled, h.modulo, h.exact⟩

/-- Whoever gets the lock finds every consumed event returned. -/
theorem Counting.acquire {owner : Option C} (h : Counting s) (hex : Exclusion s owner) {k : Task}
    (hpc : s.pc c = .stxr k) (hmonitor : s.monitor c = true) :
    Counting ((s.writeLock c 1).goto c k.locked) := by
  have hsettled := h.settled (hex.reserved c k hpc hmonitor)
  have hwritten : Counting (s.writeLock c 1) :=
    ⟨h.knows, fun hzero => by simp [State.writeLock] at hzero, h.modulo, h.exact⟩
  refine hwritten.goto ?_
  cases k <;> exact hsettled

/-- The store adds what is sent, or takes one event away; the value it is computed from is still the
one in the counter. -/
theorem Counting.store {owner : Option C} (h : Counting s) (hex : Exclusion s owner) {k : Task}
    {v : UInt32} (hpc : s.pc c = .store k v) :
    Counting ((s.writeCnt v k).goto c (.unlock k k.receives)) := by
  have hcritical : (s.pc c).critical = true := by rw [hpc]; rfl
  have hlock : s.lock ≠ 0 := by
    rw [Ne, hex.free, (hex.critical c).mp hcritical]
    simp
  have hknows := h.knows c
  rw [hpc] at hknows
  -- the others do not have the lock, so they know nothing that the store could make false
  have hothers : ∀ cnt returned consumed d, (Pc.unlock k k.receives).knows cnt returned consumed →
      (update s.pc c (.unlock k k.receives) d).knows cnt returned consumed := by
    intro cnt returned consumed d hp
    by_cases hd : d = c
    · subst hd
      simpa using hp
    · refine Pc.knows_of_not_critical ?_
      simpa [hd] using hex.not_critical hcritical hd
  cases k with
  | send inc =>
    obtain ⟨rfl, hreturned⟩ := hknows
    have hafter : (Pc.unlock (.send inc) false).knows (s.cnt + inc) s.returned s.consumed := hreturned
    refine ⟨fun d => hothers _ _ _ d hafter,
      fun hzero => absurd hzero hlock, ?_, fun hsent => ?_⟩
    · have hmod := h.modulo
      simp only [State.goto, State.writeCnt, UInt32.toNat_add]
      omega
    · simp only [State.goto, State.writeCnt, UInt32.toNat_add] at hsent ⊢
      have hexact := h.exact (by omega)
      omega
  | wait =>
    obtain ⟨rfl, hpos, hreturned⟩ := hknows
    have hcnt : (s.cnt - 1).toNat + 1 = s.cnt.toNat := by
      have hne : s.cnt.toNat ≠ 0 := fun hzero => hpos (UInt32.toNat_inj.mp hzero)
      have hone : (1 : UInt32) ≤ s.cnt := by
        rw [UInt32.le_iff_toNat_le]
        exact Nat.one_le_iff_ne_zero.mpr hne
      rw [UInt32.toNat_sub_of_le _ _ hone]
      have hvalue : (1 : UInt32).toNat = 1 := rfl
      omega
    have hafter : (Pc.unlock .wait true).knows (s.cnt - 1) s.returned (s.consumed + 1) :=
      congrArg (· + 1) hreturned
    refine ⟨fun d => hothers _ _ _ d hafter,
      fun hzero => absurd hzero hlock, ?_, fun hsent => ?_⟩
    · have hmod := h.modulo
      simp only [State.goto, State.writeCnt]
      omega
    · simp only [State.goto, State.writeCnt] at hsent ⊢
      have hexact := h.exact hsent
      omega

/-- With the unlock of a waiter that has consumed an event, its wait returns. -/
theorem Counting.release {owner : Option C} (h : Counting s) (hex : Exclusion s owner) {k : Task}
    {received : Bool} (hpc : s.pc c = .unlock k received) :
    Counting (s.release c k received) := by
  have hknows := h.knows c
  rw [hpc] at hknows
  have hreturned : (s.release c k received).returned = s.consumed := by
    cases received <;> simpa [State.release] using hknows
  refine ⟨fun d => Pc.knows_of_not_critical ?_, fun _ => hreturned, h.modulo, h.exact⟩
  have hfree := (hex.release hpc).critical d
  simpa using hfree

/-- Every instruction keeps the count. -/
theorem Counting.executes {owner : Option C} (h : Counting s) (hex : Exclusion s owner)
    (hstep : Executes s c t) : Counting t := by
  cases hstep with
  | sleep | hurry | again => exact h.goto trivial
  | awake | sevl | lockAwake => exact (h.setEvent _).goto trivial
  | free | held => exact (h.setMonitor _).goto trivial
  | acquire k hpc hmonitor => exact h.acquire hex hpc hmonitor
  | stolen hpc | present hpc =>
    have hknows := h.knows c
    rw [hpc] at hknows
    refine h.goto ?_
    simp_all
  | load k hpc =>
    have hknows := h.knows c
    rw [hpc] at hknows
    refine h.goto ?_
    cases k <;> simp_all
  | store k v hpc => exact h.store hex hpc
  | unlock k received hpc => exact h.release hex hpc
  | sev =>
    obtain ⟨hknows, hsettled, hmodulo, hexact⟩ := h.goto (c := c) (p := .idle) trivial
    exact ⟨hknows, hsettled, hmodulo, hexact⟩

/-- Every step keeps the count. -/
theorem Counting.step {owner : Option C} {l : Label C} (h : Counting s) (hex : Exclusion s owner)
    (hstep : Step noOfCpus s l t) : Counting t := by
  rcases step_cases hstep with ⟨c, k, -, -, rfl⟩ | ⟨c, -, hexecutes⟩ | ⟨c, k, -, -, rfl⟩ |
    ⟨c, -, rfl⟩ | ⟨c, -, rfl⟩
  · refine h.goto ?_
    cases k <;> trivial
  · exact h.executes hex hexecutes
  · exact (h.setMonitor false).goto trivial
  · exact h.setEvent true
  · exact (h.setMonitor false).setEvent true

end FfaAcs.Event
