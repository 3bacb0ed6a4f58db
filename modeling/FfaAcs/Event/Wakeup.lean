import Mathlib.Data.List.GetD
import FfaAcs.Event.Exclusion
import FfaAcs.Machine.Fairness

/-!
# No waiter sleeps through an event

A waiter that sleeps has seen a counter of zero. If the counter is not zero any more, the sender
that raised it has not reached its SEV yet, and its SEV wakes everybody. A CPU that sleeps for the
lock has its monitor on a lock word that is taken, and the write that frees the word wakes it. So a
sleeping waiter depends on a CPU that never sleeps itself before it has done its part, and under
any schedule that lets that CPU go on the waiter wakes up.
-/

namespace FfaAcs.Event

open Function Machine

variable {C : Type*} [DecidableEq C] {s t : State C} {c d w : C} {noOfCpus : UInt32}

/-- The places of a sender that has raised the counter and not yet reached the end of its SEV. -/
def Pc.owes : Pc → Bool
  | .unlock (.send _) _ | .sev => true
  | _ => false

/-- A CPU at the check owes no wake-up. -/
@[simp] theorem Pc.owes_check : Pc.check.owes = false := rfl

/-- A CPU that reads the counter owes no wake-up. -/
@[simp] theorem Pc.owes_load (t : Task) : (Pc.load t).owes = false := rfl

/-- A CPU that writes the counter owes no wake-up yet. -/
@[simp] theorem Pc.owes_store (t : Task) (v : UInt32) : (Pc.store t v).owes = false := rfl

/-- A wake-up is owed between the increment of a sender and its SEV. -/
theorem Pc.owes_iff {p : Pc} :
    p.owes = true ↔ p = .sev ∨ ∃ inc received, p = .unlock (.send inc) received := by
  cases p with
  | unlock k received =>
    cases k with
    | send inc => exact iff_of_true rfl (.inr ⟨inc, received, rfl⟩)
    | wait => exact iff_of_false Bool.false_ne_true (by simp)
  | sev => exact iff_of_true rfl (.inl rfl)
  | _ => exact iff_of_false Bool.false_ne_true (by simp)

/-- Whom a sleeping CPU can count on: a sender before its SEV, or the CPU with the lock. -/
structure Waking (s : State C) : Prop where
  sender : ∀ c, s.pc c = .wfe → s.event c = false → s.cnt ≠ 0 → ∃ d, (s.pc d).owes = true
  holder : ∀ c k, s.pc c = .lockWfe k → s.event c = false → s.monitor c = true ∧ s.lock ≠ 0

omit [DecidableEq C] in
/-- Nobody sleeps at the start. -/
theorem waking_init (event monitor : C → Bool) : Waking (State.init event monitor) where
  sender c h := by simp [State.init] at h
  holder c k h := by simp [State.init] at h

/-- A CPU may go on unless it forgets a wake-up that it owes or goes to sleep without cause. -/
theorem Waking.goto (h : Waking s) {p : Pc} (howes : (s.pc c).owes = true → p.owes = true)
    (hwfe : p = .wfe → s.cnt = 0)
    (hlock : ∀ k, p = .lockWfe k → s.event c = false → s.monitor c = true ∧ s.lock ≠ 0) :
    Waking (s.goto c p) where
  sender e hpc hevent hcnt := by
    by_cases he : e = c
    · subst he
      exact absurd (hwfe (by simpa [State.goto] using hpc)) hcnt
    · obtain ⟨d, hd⟩ := h.sender e (by simpa [State.goto, he] using hpc) hevent hcnt
      refine ⟨d, ?_⟩
      by_cases hdc : d = c
      · subst hdc
        simpa [State.goto] using howes hd
      · simpa [State.goto, hdc] using hd
  holder e k hpc hevent := by
    by_cases he : e = c
    · subst he
      exact hlock k (by simpa [State.goto] using hpc) hevent
    · exact h.holder e k (by simpa [State.goto, he] using hpc) hevent

/-- An event register may be set at any time. It is cleared at a place that is no WFE. -/
theorem Waking.setEvent (h : Waking s) {b : Bool}
    (hplace : b = false → s.pc c ≠ .wfe ∧ ∀ k, s.pc c ≠ .lockWfe k) : Waking (s.setEvent c b) where
  sender e hpc hevent hcnt := by
    by_cases he : e = c
    · subst he
      exact absurd hpc (hplace (by simpa [State.setEvent] using hevent)).1
    · exact h.sender e hpc (by simpa [State.setEvent, he] using hevent) hcnt
  holder e k hpc hevent := by
    by_cases he : e = c
    · subst he
      exact absurd hpc ((hplace (by simpa [State.setEvent] using hevent)).2 k)
    · exact h.holder e k hpc (by simpa [State.setEvent, he] using hevent)

/-- A monitor is lost by a CPU that does not sleep for the lock. -/
theorem Waking.setMonitor (h : Waking s) {b : Bool}
    (hplace : b = false → s.event c = true ∨ ∀ k, s.pc c ≠ .lockWfe k) :
    Waking (s.setMonitor c b) where
  sender := h.sender
  holder e k hpc hevent := by
    obtain ⟨hmonitor, hlock⟩ := h.holder e k hpc hevent
    refine ⟨?_, hlock⟩
    by_cases he : e = c
    · subst he
      by_contra hclear
      rcases hplace (by simpa [State.setMonitor] using hclear) with hset | hpc'
      · simp [State.setMonitor, hset] at hevent
      · exact hpc' k hpc
    · simpa [State.setMonitor, he] using hmonitor

/-- Whoever sleeps for the lock is woken by a write to it. -/
theorem Waking.writeLock (h : Waking s) (hpc : ∀ k, s.pc c ≠ .lockWfe k) (v : UInt32) :
    Waking (s.writeLock c v) where
  sender e hpc' hevent hcnt := by
    simp only [State.writeLock, Bool.or_eq_false_iff] at hevent
    exact h.sender e hpc' hevent.1 hcnt
  holder e k hpc' hevent := by
    simp only [State.writeLock, Bool.or_eq_false_iff, Bool.and_eq_false_iff, decide_eq_false_iff_not,
      not_not] at hevent
    have hmonitor := (h.holder e k hpc' hevent.1).1
    rcases hevent.2 with rfl | hclear
    · exact absurd hpc' (hpc k)
    · rw [hclear] at hmonitor
      cases hmonitor

/-- A sender that has counted an event owes the wake-up; a waiter consumes one. -/
theorem Waking.store (h : Waking s) (hcount : Counting s) {k : Task} {v : UInt32}
    (hpc : s.pc c = .store k v) : Waking ((s.writeCnt v k).goto c (.unlock k k.receives)) := by
  have hknows := hcount.knows c
  rw [hpc] at hknows
  cases k with
  | send inc =>
    refine ⟨fun e _ _ _ => ⟨c, by simp [State.goto, Pc.owes_iff]⟩, fun e k hpc' hevent => ?_⟩
    by_cases he : e = c
    · subst he
      simp [State.goto] at hpc'
    · exact h.holder e k (by simpa [State.goto, State.writeCnt, he] using hpc') hevent
  | wait =>
    -- the counter was not zero before, so the sender that is owed to a sleeper is there already
    have hwritten : Waking (s.writeCnt v .wait) :=
      ⟨fun e hpc' hevent _ => h.sender e hpc' hevent (by rw [hknows.1]; exact hknows.2.1), h.holder⟩
    exact hwritten.goto (by simp [State.writeCnt, hpc, Pc.owes_iff]) (by simp) (by simp)

/-- The store of the unlock wakes whoever waits for the lock. -/
theorem Waking.release (h : Waking s) {k : Task} {received : Bool}
    (hpc : s.pc c = .unlock k received) : Waking (s.release c k received) := by
  have hwritten := h.writeLock (c := c) (by simp [hpc]) 0
  have hgone : Waking ((s.writeLock c 0).goto c (k.unlocked received)) := by
    cases k <;> cases received <;>
      exact hwritten.goto (by simp [State.writeLock, hpc, Pc.owes_iff, Task.unlocked])
        (by simp [Task.unlocked]) (by simp [Task.unlocked])
  exact ⟨hgone.sender, hgone.holder⟩

/-- After every instruction a sleeping CPU can still count on another one. -/
theorem Waking.executes (h : Waking s) (hcount : Counting s) (hstep : Executes s c t) :
    Waking t := by
  cases hstep with
  | sleep hpc hcnt => exact h.goto (by simp [hpc, Pc.owes_iff]) (fun _ => hcnt) (by simp)
  | hurry hpc | again k hpc | stolen hpc | present hpc | load k hpc =>
    exact h.goto (by simp [hpc, Pc.owes_iff]) (by simp) (by simp)
  | awake hpc =>
    have hgone := h.goto (c := c) (p := .poll) (by simp [hpc, Pc.owes_iff]) (by simp) (by simp)
    exact hgone.setEvent (b := false) (by simp [State.goto])
  | sevl k hpc =>
    have hset := h.setEvent (c := c) (b := true) (by simp)
    exact hset.goto (by simp [State.setEvent, hpc, Pc.owes_iff]) (by simp) (by simp [State.setEvent])
  | lockAwake k hpc =>
    have hgone := h.goto (c := c) (p := .ldaxr k) (by simp [hpc, Pc.owes_iff]) (by simp) (by simp)
    exact hgone.setEvent (b := false) (by simp [State.goto])
  | free k hpc =>
    have hset := h.setMonitor (c := c) (b := true) (by simp)
    exact hset.goto (by simp [State.setMonitor, hpc, Pc.owes_iff]) (by simp) (by simp)
  | held k hpc hlock =>
    have hset := h.setMonitor (c := c) (b := true) (by simp)
    exact hset.goto (by simp [State.setMonitor, hpc, Pc.owes_iff]) (by simp)
      fun _ _ _ => ⟨by simp [State.setMonitor], hlock⟩
  | acquire k hpc =>
    have hwritten := h.writeLock (c := c) (by simp [hpc]) 1
    cases k <;>
      exact hwritten.goto (by simp [State.writeLock, hpc, Pc.owes_iff]) (by simp [Task.locked])
        (by simp [Task.locked])
  | store k v hpc => exact h.store hcount hpc
  | unlock k received hpc => exact h.release hpc
  | sev => exact ⟨fun _ _ hevent => by simp at hevent, fun _ _ _ hevent => by simp at hevent⟩

/-- After every step a sleeping CPU can still count on another one. -/
theorem Waking.step {l : Label C} (h : Waking s) (hcount : Counting s)
    (hstep : Step noOfCpus s l t) : Waking t := by
  rcases step_cases hstep with ⟨c, k, -, hpc, rfl⟩ | ⟨c, -, hexecutes⟩ | ⟨c, k, -, hpc, rfl⟩ |
    ⟨c, -, rfl⟩ | ⟨c, -, rfl⟩
  · cases k <;> exact h.goto (by simp [hpc, Pc.owes_iff]) (by simp [Call.entry]) (by simp [Call.entry])
  · exact h.executes hcount hexecutes
  · have hgone := h.goto (c := c) (p := .ldaxr k) (by simp [hpc, Pc.owes_iff]) (by simp) (by simp)
    exact hgone.setMonitor (b := false) (by simp [State.goto])
  · exact h.setEvent (by simp)
  · exact (h.setEvent (c := c) (b := true) (by simp)).setMonitor (b := false)
      (by simp [State.setEvent])

/-! ## Every run -/

/-- What holds after every run. -/
structure Sound (s : State C) : Prop where
  exclusion : ∃ owner, Exclusion s owner
  counting : Counting s
  waking : Waking s

/-- All three invariants hold along every run. -/
theorem sound_of_run {event monitor : C → Bool} {ls : List (Label C)}
    (hrun : Run (Step noOfCpus) (State.init event monitor) ls s) : Sound s := by
  refine hrun.invariant (P := Sound) ?_ fun s l t hs hstep => ?_
  · exact ⟨⟨none, exclusion_init event monitor⟩, counting_init event monitor,
      waking_init event monitor⟩
  · obtain ⟨owner, hex⟩ := hs.exclusion
    exact ⟨hex.step hstep, hs.counting.step hex hstep, hs.waking.step hs.counting hstep⟩

/-! ## Every fair execution -/

/-- A waiter stands at a WFE and its event register is clear. -/
def Blocked (s : State C) (c : C) : Prop :=
  (s.pc c = .wfe ∨ s.pc c = .lockWfe .wait) ∧ s.event c = false

/-- A CPU can execute its next instruction. -/
def Enabled (c : C) (s : State C) : Prop := (instr s c).isSome = true

/-- The instructions a CPU still has to execute up to its unlock. -/
def Pc.ahead : Pc → ℕ
  | .check => 4
  | .load _ => 3
  | .store _ _ => 2
  | .unlock _ _ => 1
  | _ => 0

/-- A step does not move the CPUs that it is not a step of. -/
theorem pc_of_not_actor {l : Label C} (hstep : Step noOfCpus s l t) (hd : l.actor ≠ some d) :
    t.pc d = s.pc d := by
  rcases step_cases hstep with ⟨c, k, rfl, -, rfl⟩ | ⟨c, rfl, hexecutes⟩ | ⟨c, k, rfl, -, rfl⟩ |
    ⟨c, rfl, rfl⟩ | ⟨c, rfl, rfl⟩
  · have hne : d ≠ c := fun h => hd (by rw [h]; rfl)
    simp [State.goto, hne]
  · have hne : d ≠ c := fun h => hd (by rw [h]; rfl)
    cases hexecutes with
    | store k => cases k <;> simp [State.goto, State.writeCnt, hne]
    | _ => simp [State.goto, State.setEvent, State.setMonitor, State.writeLock, State.release, hne]
  · have hne : d ≠ c := fun h => hd (by rw [h]; rfl)
    simp [State.goto, State.setMonitor, hne]
  · rfl
  · rfl

/-- A blocked waiter takes no step. -/
theorem Blocked.not_actor {l : Label C} (hw : Blocked s w) (hstep : Step noOfCpus s l t) :
    l.actor ≠ some w := by
  obtain ⟨hpc, hevent⟩ := hw
  intro hactor
  cases l with
  | wake c | lose c => cases hactor
  | call c k =>
    cases hactor
    rcases hpc with hpc | hpc <;> simp [Step, step, hpc] at hstep
  | run c =>
    cases hactor
    rcases hpc with hpc | hpc <;> simp [Step, step, instr, hpc, hevent] at hstep
  | fail c =>
    cases hactor
    rcases hpc with hpc | hpc <;> simp [Step, step, hpc] at hstep

/-- A CPU with the lock, or with an SEV to do, goes on. It ends the critical section with its unlock
and its debt with its SEV. -/
theorem goes_on {l : Label C} (hstep : Step noOfCpus s l t) (hactor : l.actor = some d)
    (hd : (s.pc d).critical = true ∨ (s.pc d).owes = true) :
    (∃ k received, s.pc d = .unlock k received ∧ t = s.release d k received) ∨
      (s.pc d = .sev ∧ ∀ c, t.event c = true) ∨
      ((s.pc d).owes = false ∧ (t.pc d).critical = true ∧ (t.pc d).ahead < (s.pc d).ahead) := by
  rcases step_cases hstep with ⟨c, k, rfl, hpc, rfl⟩ | ⟨c, rfl, hexecutes⟩ | ⟨c, k, rfl, hpc, rfl⟩ |
    ⟨c, rfl, rfl⟩ | ⟨c, rfl, rfl⟩
  · cases hactor
    simp [hpc, Pc.critical, Pc.owes_iff] at hd
  · cases hactor
    cases hexecutes with
    | unlock k received hpc => exact .inl ⟨k, received, hpc, rfl⟩
    | sev hpc => exact .inr (.inl ⟨hpc, fun _ => rfl⟩)
    | stolen hpc | present hpc | load k hpc =>
      exact .inr (.inr (by simp [State.goto, hpc, Pc.critical, Pc.ahead]))
    | store k v hpc =>
      refine .inr (.inr ?_)
      cases k <;> simp [State.goto, hpc, Pc.critical, Pc.ahead]
    | sleep hpc | hurry hpc | awake hpc => simp [hpc, Pc.critical, Pc.owes_iff] at hd
    | sevl k hpc | lockAwake k hpc | free k hpc => simp [hpc, Pc.critical, Pc.owes_iff] at hd
    | held k hpc | acquire k hpc | again k hpc => simp [hpc, Pc.critical, Pc.owes_iff] at hd
  · cases hactor
    simp [hpc, Pc.critical, Pc.owes_iff] at hd
  · cases hactor
  · cases hactor

/-- A CPU that has the lock or owes a wake-up can take a step. -/
theorem enabled_of_waker (hd : (s.pc d).critical = true ∨ (s.pc d).owes = true) : Enabled d s := by
  cases hpc : s.pc d with
  | check | load k | store k v | unlock k received | sev => simp [Enabled, instr, hpc]
  | idle | poll | wfe | sevl k | lockWfe k | ldaxr k | stxr k =>
    simp [hpc, Pc.critical, Pc.owes_iff] at hd

omit [DecidableEq C] in
/-- A blocked waiter has a CPU to count on if the counter is not zero. -/
theorem Sound.waker (h : Sound s) (hw : Blocked s w) (hcnt : s.cnt ≠ 0) :
    (s.pc w = .wfe ∧ ∃ d, (s.pc d).owes = true) ∨
      (s.pc w = .lockWfe .wait ∧ ∃ d, (s.pc d).critical = true) := by
  obtain ⟨hpc | hpc, hevent⟩ := hw
  · exact .inl ⟨hpc, h.waking.sender w hpc hevent hcnt⟩
  · obtain ⟨owner, hex⟩ := h.exclusion
    obtain ⟨-, hlock⟩ := h.waking.holder w _ hpc hevent
    obtain ⟨d, rfl⟩ := Option.ne_none_iff_exists'.mp (mt hex.free.mpr hlock)
    exact .inr ⟨hpc, d, (hex.critical d).mpr rfl⟩

omit [DecidableEq C] in
/-- No event is returned that has not been consumed. -/
theorem Counting.returned_le {owner : Option C} (h : Counting s) (hex : Exclusion s owner) :
    s.returned ≤ s.consumed := by
  cases owner with
  | none => exact (h.settled (hex.free.mpr rfl)).le
  | some c =>
    have hcritical := (hex.critical c).mpr rfl
    have hknows := h.knows c
    cases hpc : s.pc c with
    | check =>
      rw [hpc] at hknows
      exact Nat.le_of_eq hknows
    | load k =>
      rw [hpc] at hknows
      cases k with
      | send inc => exact Nat.le_of_eq hknows
      | wait => exact Nat.le_of_eq hknows.2
    | store k v =>
      rw [hpc] at hknows
      cases k with
      | send inc => exact Nat.le_of_eq hknows.2
      | wait => exact Nat.le_of_eq hknows.2.2
    | unlock k received =>
      rw [hpc] at hknows
      exact le_of_add_le_left (Nat.le_of_eq hknows)
    | idle | poll | wfe | sevl k | lockWfe k | ldaxr k | stxr k | sev =>
      simp [hpc, Pc.critical] at hcritical

section

variable {event monitor : C → Bool} {e : Execution (Step noOfCpus) (State.init event monitor)}

/-- A sender that owes its SEV gets there, and its SEV wakes the waiter if nothing did before. -/
theorem woken_by_sev (hfair : e.Fair Enabled Label.actor) (d : C) (n : ℕ)
    (hstart : Blocked (e.state n) w ∧ ((e.state n).pc d).owes = true) :
    ∃ m, n ≤ m ∧ ¬Blocked (e.state m) w := by
  refine hfair.leads d (fun s => Blocked s w ∧ (s.pc d).owes = true) (fun s => ¬Blocked s w)
    (fun s => (s.pc d).ahead) (fun m h => enabled_of_waker (.inr h.2)) (fun m h => ?_) n hstart
  by_cases hblocked : Blocked (e.state (m + 1)) w
  · refine .inr ?_
    by_cases hactor : (e.label m).actor = some d
    · rcases goes_on (e.step m) hactor (.inr h.2) with ⟨k, received, hpc, hnext⟩ | ⟨-, hevent⟩ |
        ⟨hno, -⟩
      · have hsender := h.2
        rw [hpc] at hsender
        cases k with
        | send inc =>
          have hsev : (e.state (m + 1)).pc d = .sev := by
            rw [hnext]
            simp [State.release, State.goto, Task.unlocked]
          have hless : ((e.state (m + 1)).pc d).ahead < ((e.state m).pc d).ahead := by
            rw [hsev, hpc]
            exact Nat.zero_lt_one
          exact ⟨⟨hblocked, by rw [hsev]; rfl⟩, hless.le, fun _ => hless⟩
        | wait => cases hsender
      · rw [Blocked, hevent w] at hblocked
        cases hblocked.2
      · rw [h.2] at hno
        cases hno
    · have hsame := pc_of_not_actor (e.step m) hactor
      exact ⟨⟨hblocked, by rw [hsame]; exact h.2⟩, by rw [hsame], fun hd => absurd hd hactor⟩
  · exact .inl hblocked

/-- The CPU with the lock gets to its unlock, which wakes the CPUs that sleep for the lock. -/
theorem woken_by_unlock (hfair : e.Fair Enabled Label.actor) (d : C) (n : ℕ)
    (hstart : (Blocked (e.state n) w ∧ (e.state n).pc w = .lockWfe .wait) ∧
      ((e.state n).pc d).critical = true) :
    ∃ m, n ≤ m ∧ ¬Blocked (e.state m) w := by
  refine hfair.leads d
    (fun s => (Blocked s w ∧ s.pc w = .lockWfe .wait) ∧ (s.pc d).critical = true)
    (fun s => ¬Blocked s w) (fun s => (s.pc d).ahead) (fun m h => enabled_of_waker (.inl h.2))
    (fun m h => ?_) n hstart
  obtain ⟨⟨hw, hpc⟩, hcritical⟩ := h
  by_cases hblocked : Blocked (e.state (m + 1)) w
  · have hstays := (pc_of_not_actor (e.step m) (hw.not_actor (e.step m))).trans hpc
    refine .inr ?_
    by_cases hactor : (e.label m).actor = some d
    · rcases goes_on (e.step m) hactor (.inl hcritical) with ⟨k, received, hunlock, hnext⟩ |
        ⟨-, hevent⟩ | ⟨-, hnext, hless⟩
      · obtain ⟨ls, hrun⟩ := e.run m
        obtain ⟨hmonitor, -⟩ := (sound_of_run hrun).waking.holder w _ hpc hw.2
        have hne : w ≠ d := by
          rintro rfl
          rw [hpc] at hunlock
          cases hunlock
        have hset : (e.state (m + 1)).event w = true := by
          rw [hnext]
          simp [State.release, State.goto, State.writeLock, hne, hmonitor]
        rw [Blocked, hset] at hblocked
        cases hblocked.2
      · rw [Blocked, hevent w] at hblocked
        cases hblocked.2
      · exact ⟨⟨⟨hblocked, hstays⟩, hnext⟩, hless.le, fun _ => hless⟩
    · have hsame := pc_of_not_actor (e.step m) hactor
      exact ⟨⟨⟨hblocked, hstays⟩, by rw [hsame]; exact hcritical⟩, by rw [hsame],
        fun hd => absurd hd hactor⟩
  · exact .inl hblocked

end

/-- **Events are neither lost nor made up.** After every run: while the lock is free, the counter and
the events consumed make up the events sent, modulo `2 ^ 32`; at most one CPU is between a lock and
its unlock; as long as fewer than `2 ^ 32` events are sent, no more waits have returned than events
were sent; and a waiter that is blocked in WFE while the counter is not zero has another CPU that
can go on and that has yet to do the SEV or the unlock which wakes it. In every execution that is
fair to the CPUs, such a waiter does not stay blocked. -/
theorem event_semaphore_sound (noOfCpus : UInt32) (event monitor : C → Bool) :
    (∀ ls s, Run (Step noOfCpus) (State.init event monitor) ls s →
      (s.lock = 0 → (s.cnt.toNat + s.consumed) % 2 ^ 32 = s.sent % 2 ^ 32) ∧
        (∀ c d, (s.pc c).critical = true → (s.pc d).critical = true → c = d) ∧
        (s.sent < 2 ^ 32 → s.returned ≤ s.sent) ∧
        ∀ w, Blocked s w → s.cnt ≠ 0 →
          ∃ d, Enabled d s ∧ ((s.pc d).owes = true ∨ (s.pc d).critical = true)) ∧
      ∀ e : Execution (Step noOfCpus) (State.init event monitor), e.Fair Enabled Label.actor →
        ∀ n w, Blocked (e.state n) w → (e.state n).cnt ≠ 0 → ∃ m, n ≤ m ∧ ¬Blocked (e.state m) w := by
  refine ⟨fun ls s hrun => ?_, fun e hfair n w hw hcnt => ?_⟩
  · have hsound := sound_of_run hrun
    obtain ⟨owner, hex⟩ := hsound.exclusion
    refine ⟨fun _ => hsound.counting.modulo, fun c d hc hd => ?_, fun hsent => ?_, fun w hw hcnt => ?_⟩
    · have hsame := ((hex.critical c).mp hc).symm.trans ((hex.critical d).mp hd)
      exact Option.some.inj hsame
    · have hreturned := hsound.counting.returned_le hex
      have hexact := hsound.counting.exact hsent
      omega
    · rcases hsound.waker hw hcnt with ⟨-, d, hd⟩ | ⟨-, d, hd⟩
      · exact ⟨d, enabled_of_waker (.inr hd), .inl hd⟩
      · exact ⟨d, enabled_of_waker (.inl hd), .inr hd⟩
  · obtain ⟨ls, hrun⟩ := e.run n
    rcases (sound_of_run hrun).waker hw hcnt with ⟨-, d, hd⟩ | ⟨hpc, d, hd⟩
    · exact woken_by_sev hfair d n ⟨hw, hd⟩
    · exact woken_by_unlock hfair d n ⟨⟨hw, hpc⟩, hd⟩

/-- One CPU waits, the other sends it an event. -/
def oneEvent : List (Label Bool) :=
  [.call false .waitForEvent, .run false, .call true .sendEvent] ++ List.replicate 8 (.run true) ++
    List.replicate 10 (.run false)

def oneEventLabel (n : ℕ) : Label Bool := oneEvent.getD n (.wake false)

def oneEventState : ℕ → State Bool
  | 0 => .init (fun _ => false) fun _ => false
  | n + 1 => (step 2 (oneEventState n) (oneEventLabel n)).getD (oneEventState n)

/-- Both calls have returned, and only event registers change from then on. -/
theorem oneEvent_ends (n : ℕ) (c : Bool) : (oneEventState (21 + n)).pc c = .idle := by
  induction n with
  | zero => cases c <;> decide +kernel
  | succ n ih =>
    have hlabel : oneEventLabel (21 + n) = .wake false := List.getD_eq_default _ _ (Nat.le_add_right _ _)
    rw [← Nat.add_assoc, oneEventState, hlabel]
    exact ih

/-- The execution with one event takes steps of the model. -/
theorem oneEvent_step (n : ℕ) : Step 2 (oneEventState n) (oneEventLabel n) (oneEventState (n + 1)) := by
  have hsome : (step 2 (oneEventState n) (oneEventLabel n)).isSome = true := by
    rcases Nat.lt_or_ge n 21 with hn | hn
    · have hall : ∀ n < 21, (step 2 (oneEventState n) (oneEventLabel n)).isSome = true := by
        decide +kernel
      exact hall n hn
    · have hlabel : oneEventLabel n = .wake false := List.getD_eq_default _ _ hn
      rw [hlabel]
      rfl
  obtain ⟨t, ht⟩ := Option.isSome_iff_exists.mp hsome
  rw [Step, oneEventState, ht]
  rfl

def oneEventExecution :
    Execution (Step 2) (State.init (fun _ : Bool => false) fun _ => false) where
  state := oneEventState
  label := oneEventLabel
  start := rfl
  step := oneEvent_step

/-- The execution with one event is fair. -/
theorem oneEvent_fair : oneEventExecution.Fair Enabled Label.actor := by
  intro c n henabled
  have hidle := henabled (21 + n) (Nat.le_add_left _ _)
  simp [Enabled, instr, oneEventExecution, oneEvent_ends] at hidle

/-- The waiter sleeps while the sender has raised the counter and not yet unlocked; it wakes up. -/
theorem event_semaphore_sound_of_one_event :
    (oneEventState 9).returned ≤ (oneEventState 9).sent ∧ (oneEventState 9).sent = 1 ∧
      Blocked (oneEventState 9) false ∧ ∃ m, 9 ≤ m ∧ ¬Blocked (oneEventState m) false := by
  have hblocked : Blocked (oneEventState 9) false :=
    ⟨.inl (by decide +kernel), by decide +kernel⟩
  have hsent : (oneEventState 9).sent = 1 := by decide +kernel
  have hsound := event_semaphore_sound 2 (fun _ : Bool => false) fun _ => false
  obtain ⟨ls, hrun⟩ := oneEventExecution.run 9
  refine ⟨(hsound.1 ls _ hrun).2.2.1 ?_, hsent, hblocked, ?_⟩
  · exact hsent.trans_lt (by norm_num)
  · exact hsound.2 oneEventExecution oneEvent_fair 9 false hblocked (by decide +kernel)

end FfaAcs.Event
