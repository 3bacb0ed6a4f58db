import Mathlib.Logic.Function.Basic
import FfaAcs.Machine.Runs

/-!
# Events between CPUs

An event is a counter under a spin lock. Senders add to the counter and wake everybody with SEV;
a waiter looks at the counter without the lock, sleeps in WFE while it is zero, and otherwise takes
the lock and looks again. The model runs any number of CPUs, instruction by instruction where they
touch what they share: the counter, the lock word, the exclusive monitor and the event register of
each CPU.

A write to the lock word clears the monitors, and a CPU whose monitor another CPU clears gets an
event. Nothing else is promised: an exclusive store may fail and a monitor may be lost for no
reason, and WFE may be left without a cause. Memory is coherent, so barriers and cache maintenance
are not steps.
-/

namespace FfaAcs.Event

open Function

/-- The calls that a program makes on an event. -/
inductive Call
  | sendEvent
  | sendEventTo (cpusCount : UInt32)
  | sendEventToAll
  | waitForEvent
deriving DecidableEq, Repr

/-- What a CPU takes the lock for: to add to the counter, or to consume an event. -/
inductive Task
  | send (inc : UInt32)
  | wait
deriving DecidableEq, Repr

/-- The next instruction of a CPU that touches anything shared. -/
inductive Pc
  /-- Between two calls. -/
  | idle
  /-- `val_wait_for_event` before it looks at the counter without the lock. -/
  | poll
  /-- `val_wait_for_event` at its WFE, after it has seen zero. -/
  | wfe
  /-- `pal_spin_lock` from its SEVL to its STXR. -/
  | sevl (t : Task)
  | lockWfe (t : Task)
  | ldaxr (t : Task)
  | stxr (t : Task)
  /-- `val_wait_for_event` with the lock, before it looks at the counter again. -/
  | check
  /-- The load and the store of `event->cnt += inc` and of `--event->cnt`. -/
  | load (t : Task)
  | store (t : Task) (v : UInt32)
  /-- `pal_spin_unlock`, with `event_received` of a waiter. -/
  | unlock (t : Task) (received : Bool)
  /-- `send_event_common` at its SEV. -/
  | sev
deriving DecidableEq, Repr

/-- What the CPUs share, where they are, and three counts that no CPU reads: the events sent, the
events consumed, and the waits that have returned. -/
structure State (C : Type*) where
  cnt : UInt32
  lock : UInt32
  pc : C → Pc
  event : C → Bool
  monitor : C → Bool
  sent : ℕ
  consumed : ℕ
  returned : ℕ

variable {C : Type*} [DecidableEq C]

namespace State

/-- `val_init_event`: no call is under way; registers and monitors hold anything. -/
def init (event monitor : C → Bool) : State C :=
  ⟨0, 0, fun _ => .idle, event, monitor, 0, 0, 0⟩

def goto (s : State C) (c : C) (p : Pc) : State C := { s with pc := update s.pc c p }

def setEvent (s : State C) (c : C) (b : Bool) : State C := { s with event := update s.event c b }

def setMonitor (s : State C) (c : C) (b : Bool) : State C :=
  { s with monitor := update s.monitor c b }

/-- A write to the lock word by `c` clears all monitors and is an event for the other CPUs that had
theirs set. -/
def writeLock (s : State C) (c : C) (v : UInt32) : State C :=
  { s with
    lock := v
    monitor := fun _ => false
    event := fun d => s.event d || (decide (d ≠ c) && s.monitor d) }

/-- The store of the new counter value. -/
def writeCnt (s : State C) (v : UInt32) : Task → State C
  | .send inc => { s with cnt := v + inc, sent := s.sent + inc.toNat }
  | .wait => { s with cnt := v - 1, consumed := s.consumed + 1 }

end State

/-- Where a CPU goes on with the lock. -/
def Task.locked : Task → Pc
  | .send inc => .load (.send inc)
  | .wait => .check

/-- Whether the store of a task means that its caller has received an event. -/
def Task.receives : Task → Bool
  | .send _ => false
  | .wait => true

/-- Where a CPU goes on after the unlock: a sender at its SEV, a waiter at the end of its call or at
the next round of its loop. -/
def Task.unlocked : Task → Bool → Pc
  | .send _, _ => .sev
  | .wait, true => .idle
  | .wait, false => .poll

/-- The unlock of a task, which ends a wait that has received its event. -/
def State.release (s : State C) (c : C) (t : Task) (received : Bool) : State C :=
  { (s.writeLock c 0).goto c (t.unlocked received) with
    returned := if received then s.returned + 1 else s.returned }

/-- The next instruction of a CPU, if there is one and it is not waiting for an event. -/
def instr (s : State C) (c : C) : Option (State C) :=
  match s.pc c with
  | .idle => none
  | .poll => some (s.goto c (if s.cnt = 0 then .wfe else .sevl .wait))
  | .wfe => if s.event c then some ((s.setEvent c false).goto c .poll) else none
  | .sevl t => some ((s.setEvent c true).goto c (.lockWfe t))
  | .lockWfe t => if s.event c then some ((s.setEvent c false).goto c (.ldaxr t)) else none
  | .ldaxr t => some ((s.setMonitor c true).goto c (if s.lock = 0 then .stxr t else .lockWfe t))
  | .stxr t =>
    if s.monitor c then some ((s.writeLock c 1).goto c t.locked) else some (s.goto c (.ldaxr t))
  | .check => some (s.goto c (if s.cnt = 0 then .unlock .wait false else .load .wait))
  | .load t => some (s.goto c (.store t s.cnt))
  | .store t v => some ((s.writeCnt v t).goto c (.unlock t t.receives))
  | .unlock t received => some (s.release c t received)
  | .sev => some { s.goto c .idle with event := fun _ => true }

/-- The first instruction of a call. -/
def Call.entry (noOfCpus : UInt32) : Call → Pc
  | .sendEvent => .sevl (.send 1)
  | .sendEventTo cpusCount => .sevl (.send cpusCount)
  | .sendEventToAll => .sevl (.send noOfCpus)
  | .waitForEvent => .poll

/-- What happens next: a CPU begins a call or executes its next instruction, or its exclusive store
fails, or it gets an event or loses its monitor without a cause. -/
inductive Label (C : Type*)
  | call (c : C) (k : Call)
  | run (c : C)
  | fail (c : C)
  | wake (c : C)
  | lose (c : C)

/-- The CPU whose program a label advances. -/
def Label.actor : Label C → Option C
  | .call c _ | .run c | .fail c => some c
  | .wake _ | .lose _ => none

/-- One step of all CPUs. -/
def step (noOfCpus : UInt32) (s : State C) : Label C → Option (State C)
  | .call c k => if s.pc c = .idle then some (s.goto c (k.entry noOfCpus)) else none
  | .run c => instr s c
  | .fail c =>
    match s.pc c with
    | .stxr t => some ((s.setMonitor c false).goto c (.ldaxr t))
    | _ => none
  | .wake c => some (s.setEvent c true)
  | .lose c => some ((s.setMonitor c false).setEvent c true)

/-- The steps of any programs under any interleaving: a CPU between two calls may begin any call. -/
def Step (noOfCpus : UInt32) (s : State C) (l : Label C) (t : State C) : Prop :=
  step noOfCpus s l = some t

end FfaAcs.Event
