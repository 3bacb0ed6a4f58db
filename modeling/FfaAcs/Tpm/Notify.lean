import FfaAcs.Tpm.System

/-!
# The notification protocol

A history of events says who is registered, how often a client was signalled and how often deferred
work was finished. `Tracks` relates the history and the notification variables of the service to a
phase of the protocol. Every request moves from phase to phase, so the history of a run and the
variables always agree: one signal for each piece of deferred work, to the client that is
registered, and one FINISH_NOTIFIED for each signal.
-/

namespace FfaAcs.Tpm

open Machine

/-! ## Histories -/

/-- A call of FFA_NOTIFICATION_SET that the relayer accepted. -/
def Event.isSignal : Event → Bool
  | .notificationSet _ _ _ _ _ accepted => accepted
  | _ => false

/-- A FINISH_NOTIFIED that was not refused. -/
def Event.isFinish : Event → Bool
  | .answered r response =>
    r.func = crbFinishNotified ∧ response.status ≠ .notsup ∧ response.status ≠ .denied
  | _ => false

/-- A successful registration of the client. -/
def Event.Registers (client : ℕ) : Event → Prop
  | .answered r response =>
    r.func = crbRegisterNotification ∧ response.status = .ok ∧ r.sender = client
  | _ => False

/-- A successful unregistration by the client. -/
def Event.Unregisters (client : ℕ) : Event → Prop
  | .answered r response =>
    r.func = crbUnregisterNotification ∧ response.status = .ok ∧ r.sender = client
  | _ => False

/-- What is known of the registered client after an event: `f` of the request by which it registered. -/
def Event.nextOf {α : Type} (f : Request → α) : Event → Option α → Option α
  | .answered r response, known =>
    if response.status = .ok then
      if r.func = crbRegisterNotification then some (f r)
      else if r.func = crbUnregisterNotification then none
      else known
    else known
  | _, known => known

/-- What is known of the registered client after a history. -/
def registeredOf {α : Type} (f : Request → α) (es : List Event) : Option α :=
  es.foldl (fun known e => e.nextOf f known) none

/-- The number of accepted signals. -/
def signals (es : List Event) : ℕ := es.countP Event.isSignal

/-- The number of FINISH_NOTIFIED requests that were not refused. -/
def finishes (es : List Event) : ℕ := es.countP Event.isFinish

/-- The client that is registered after a history. -/
def registeredClient (es : List Event) : Option ℕ := registeredOf Request.sender es

/-- Every element of a list meets `P` behind the elements before it. -/
def Along {α : Type*} (P : List α → α → Prop) (es : List α) : Prop :=
  ∀ pre e post, es = pre ++ e :: post → P pre e

/-- An accepted signal goes to the client that is registered at that moment. -/
def SignalsRegistered (pre : List Event) : Event → Prop
  | .notificationSet _ arg1 _ _ _ true => registeredClient pre = some (arg1 % 2 ^ 16)
  | _ => True

/-- Every accepted signal goes to the client that is registered at that moment. -/
def Addressed (es : List Event) : Prop := Along SignalsRegistered es

/-- An event that changes nothing in the protocol: a signal that the relayer refused, the execution
of a command, or a start. -/
def Event.Neutral : Event → Prop
  | .notificationSet _ _ _ _ _ accepted => accepted = false
  | .answered .. => False
  | _ => True

namespace Event.Neutral

variable {e : Event}

/-- A neutral event is no signal. -/
theorem isSignal_eq (h : e.Neutral) : e.isSignal = false := by
  cases e with
  | notificationSet => exact h
  | answered => exact absurd h id
  | _ => rfl

/-- A neutral event is no FINISH_NOTIFIED. -/
theorem isFinish_eq (h : e.Neutral) : e.isFinish = false := by
  cases e with
  | answered => exact absurd h id
  | _ => rfl

/-- A neutral event registers nobody. -/
theorem nextOf_eq {α : Type} (h : e.Neutral) (f : Request → α) (known : Option α) :
    e.nextOf f known = known := by
  cases e with
  | answered => exact absurd h id
  | _ => rfl

/-- A neutral event is not an accepted signal to anybody. -/
theorem signalsRegistered (h : e.Neutral) (pre : List Event) : SignalsRegistered pre e := by
  cases e with
  | notificationSet shift arg1 arg2 arg3 arg4 accepted =>
    obtain rfl : accepted = false := h
    exact trivial
  | answered => exact absurd h id
  | _ => exact trivial

end Event.Neutral

/-- One more element at the end. -/
theorem Along.snoc {α : Type*} {P : List α → α → Prop} {es : List α} (h : Along P es) {e : α}
    (he : P es e) : Along P (es ++ [e]) := by
  intro pre e' post hsplit
  cases post using List.reverseRecOn with
  | nil =>
    obtain ⟨rfl, hlast⟩ := List.append_inj' hsplit rfl
    exact List.singleton_inj.1 hlast ▸ he
  | append_singleton post last =>
    rw [← List.cons_append, ← List.append_assoc] at hsplit
    exact h pre e' post (List.append_inj' hsplit rfl).1

section

variable (es : List Event) {new : List Event}

/-- The last event counts if it is a signal. -/
theorem signals_concat (e : Event) : signals (es ++ [e]) = signals es + e.isSignal.toNat := by
  rw [signals, List.countP_append, ← signals, List.countP_singleton]
  cases e.isSignal <;> rfl

/-- The last event counts if it finishes something. -/
theorem finishes_concat (e : Event) : finishes (es ++ [e]) = finishes es + e.isFinish.toNat := by
  rw [finishes, List.countP_append, ← finishes, List.countP_singleton]
  cases e.isFinish <;> rfl

/-- Neutral events do not count as signals. -/
theorem signals_append_neutral (hnew : ∀ e ∈ new, e.Neutral) : signals (es ++ new) = signals es := by
  have hnone : new.countP Event.isSignal = 0 :=
    List.countP_eq_zero.2 fun e he => by simp [(hnew e he).isSignal_eq]
  rw [signals, List.countP_append, hnone, Nat.add_zero, signals]

/-- Neutral events do not finish anything. -/
theorem finishes_append_neutral (hnew : ∀ e ∈ new, e.Neutral) : finishes (es ++ new) = finishes es := by
  have hnone : new.countP Event.isFinish = 0 :=
    List.countP_eq_zero.2 fun e he => by simp [(hnew e he).isFinish_eq]
  rw [finishes, List.countP_append, hnone, Nat.add_zero, finishes]

/-- The last event says what is known. -/
theorem registeredOf_concat {α : Type} (f : Request → α) (e : Event) :
    registeredOf f (es ++ [e]) = e.nextOf f (registeredOf f es) := by
  rw [registeredOf, List.foldl_concat, ← registeredOf]

/-- Neutral events do not register anybody. -/
theorem registeredOf_append_neutral {α : Type} (f : Request → α) (hnew : ∀ e ∈ new, e.Neutral) :
    registeredOf f (es ++ new) = registeredOf f es := by
  rw [registeredOf, List.foldl_append, ← registeredOf]
  exact List.foldlRecOn (motive := fun known => known = registeredOf f es) new _ rfl
    fun known hknown e he => ((hnew e he).nextOf_eq f known).trans hknown

variable {es}

/-- Neutral events are no accepted signals. -/
theorem Addressed.append_neutral (h : Addressed es) (hnew : ∀ e ∈ new, e.Neutral) :
    Addressed (es ++ new) := by
  induction new using List.reverseRecOn with
  | nil => rwa [List.append_nil]
  | append_singleton new e ih =>
    rw [← List.append_assoc]
    exact (ih fun e he => hnew e (by simp [he])).snoc ((hnew e (by simp)).signalsRegistered _)

/-- A client can only be registered at the end if it registers on the way. -/
theorem exists_registers {client : ℕ} (h : registeredClient es = some client) :
    ∃ e ∈ es, e.Registers client := by
  induction es using List.reverseRecOn with
  | nil => exact absurd h (by simp [registeredClient, registeredOf])
  | append_singleton es e ih =>
    rw [registeredClient, registeredOf_concat] at h
    by_cases hkept : registeredClient es = some client
    · obtain ⟨e', he', hregisters⟩ := ih hkept
      exact ⟨e', by simp [he'], hregisters⟩
    · refine ⟨e, by simp, ?_⟩
      cases e with
      | answered r response =>
        simp only [Event.nextOf] at h
        split_ifs at h with hok hregister hunregister
        · exact ⟨hregister, hok, by simpa using h⟩
        · exact absurd h hkept
        · exact absurd h hkept
      | _ => exact absurd h hkept

/-- After a client unregisters it is not signalled before it registers again. -/
theorem Addressed.exists_registers_between (h : Addressed es) {client : ℕ} {pre mid post : List Event}
    {e : Event} {shift arg1 arg2 arg3 arg4 : ℕ} (he : e.Unregisters client)
    (hes : es = pre ++ e :: mid ++ .notificationSet shift arg1 arg2 arg3 arg4 true :: post)
    (hclient : arg1 % 2 ^ 16 = client) : ∃ e' ∈ mid, e'.Registers client := by
  have hregistered : registeredClient (pre ++ e :: mid) = some (arg1 % 2 ^ 16) := h _ _ post hes
  rw [hclient, registeredClient, registeredOf, List.foldl_append, List.foldl_cons] at hregistered
  cases e with
  | answered r response =>
    obtain ⟨hfunc, hok, -⟩ := he
    have hnone : ∀ known, (Event.answered r response).nextOf Request.sender known = none := by
      intro known
      simp [Event.nextOf, hfunc, hok, crbUnregisterNotification, crbRegisterNotification]
    rw [hnone] at hregistered
    exact exists_registers hregistered
  | _ => exact absurd he id

end

/-! ## Phases and histories -/

/-- The client of a phase. -/
def Phase.client : Phase → Option ℕ
  | .unregistered => none
  | .registered r => some r.client
  | .deferred r _ => some r.client

/-- The number of notifications outstanding in a phase. -/
def Phase.outstanding : Phase → ℕ
  | .deferred .. => 1
  | _ => 0

/-- The service is in phase `φ`, and its history agrees. -/
structure Tracks {σ : Type*} (s : Service σ) (φ : Phase) : Prop where
  phase : s.notif.InPhase φ
  balance : signals s.events = finishes s.events + φ.outstanding
  client : registeredClient s.events = φ.client
  addressed : Addressed s.events

namespace Notification.InPhase

variable {n : Notification} {φ : Phase}

/-- The phase of variables without a client. -/
theorem eq_unregistered (h : n.InPhase φ) (hfree : n.registered = false) : φ = .unregistered := by
  cases φ with
  | unregistered => rfl
  | registered r => exact absurd (h.1.1.symm.trans hfree) (by decide)
  | deferred r w => cases w <;> exact absurd (h.1.1.symm.trans hfree) (by decide)

/-- The phase of variables with a client and nothing outstanding. -/
theorem exists_registered (h : n.InPhase φ) (hregistered : n.registered = true)
    (hdone : n.outstanding = false) : ∃ r, φ = .registered r := by
  cases φ with
  | unregistered =>
    rw [InPhase] at h
    rw [h] at hregistered
    exact absurd hregistered (by decide)
  | registered r => exact ⟨r, rfl⟩
  | deferred r w => cases w <;> exact absurd (h.2.1.symm.trans hdone) (by decide)

/-- The phase of variables with a notification outstanding. -/
theorem exists_deferred (h : n.InPhase φ) (hout : n.outstanding = true) : ∃ r w, φ = .deferred r w := by
  cases φ with
  | unregistered =>
    rw [InPhase] at h
    rw [h] at hout
    exact absurd hout (by decide)
  | registered r => exact absurd (h.2.1.symm.trans hout) (by decide)
  | deferred r w => exact ⟨r, w, rfl⟩

/-- With a notification outstanding exactly one kind of work is pending. -/
theorem pending_of_outstanding (h : n.InPhase φ) (hout : n.outstanding = true) :
    n.pendingLocalityValid = !n.pendingCommandValid := by
  obtain ⟨r, w, rfl⟩ := h.exists_deferred hout
  cases w with
  | locality l ctrl => rw [h.2.2.1, h.2.2.2.1]; rfl
  | command l size cmd => rw [h.2.2.1, h.2.2.2.1]; rfl

/-- The locality of pending LOC_CTRL data. -/
theorem pendingLocality_le (h : n.InPhase φ) (hout : n.outstanding = true)
    (hvalid : n.pendingLocalityValid = true) : n.pendingLocality ≤ crbLocalityMax := by
  obtain ⟨r, w, rfl⟩ := h.exists_deferred hout
  cases w with
  | locality l ctrl =>
    rw [h.2.2.2.2.1]
    exact Nat.le_of_lt_succ l.isLt
  | command l size cmd => exact absurd (h.2.2.1.symm.trans hvalid) (by decide)

/-- The locality of a pending command. -/
theorem pendingCommandLocality_le (h : n.InPhase φ) (hout : n.outstanding = true)
    (hvalid : n.pendingCommandValid = true) : n.pendingCommandLocality ≤ crbLocalityMax := by
  obtain ⟨r, w, rfl⟩ := h.exists_deferred hout
  cases w with
  | locality l ctrl => exact absurd (h.2.2.2.1.symm.trans hvalid) (by decide)
  | command l size cmd =>
    rw [h.2.2.2.2.1]
    exact Nat.le_of_lt_succ l.isLt

/-- The registration of a phase that has one. -/
theorem holds {r : Registration} (h : n.InPhase φ) (hφ : φ = .registered r ∨ ∃ w, φ = .deferred r w) :
    n.Holds r := by
  rcases hφ with rfl | ⟨w, rfl⟩
  · exact h.1
  · cases w <;> exact h.1

end Notification.InPhase

section

variable {σ : Type*} {pal : Pal σ} {env : Env} {r : Request} {s t : Service σ} {result : Result}
  {φ φ' : Phase}

/-- A request that adds only neutral events, with its answer. -/
theorem Tracks.note (h : Tracks s φ) (new : List Event) (hevents : t.events = s.events ++ new)
    (hnew : ∀ e ∈ new, e.Neutral) (hphase : t.notif.InPhase φ')
    (hbalance : φ.outstanding =
      φ'.outstanding + (Event.isFinish (.answered r (respond r result))).toNat)
    (hclient : Event.nextOf Request.sender (.answered r (respond r result)) φ.client = φ'.client) :
    Tracks (t.noteEvent (.answered r (respond r result))) φ' := by
  have hnote : (t.noteEvent (.answered r (respond r result))).events =
      s.events ++ new ++ [.answered r (respond r result)] := by rw [Service.noteEvent, hevents]
  refine ⟨hphase, ?_, ?_, ?_⟩
  · have hcount := h.balance
    rw [hnote, signals_concat, finishes_concat, signals_append_neutral s.events hnew,
      finishes_append_neutral s.events hnew]
    simp only [Event.isSignal, Bool.toNat_false]
    omega
  · rw [hnote, registeredClient, registeredOf_concat, registeredOf_append_neutral _ _ hnew,
      ← registeredClient, h.client, hclient]
  · rw [hnote]
    exact (h.addressed.append_neutral hnew).snoc trivial

/-- The answer to a START finishes nothing and registers nobody. -/
theorem answered_start (result : Result) (hfunc : r.func = crbStart) :
    Event.isFinish (.answered r (respond r result)) = false ∧
      ∀ client, Event.nextOf Request.sender (.answered r (respond r result)) client = client := by
  simp [Event.isFinish, Event.nextOf, hfunc, crbStart, crbFinishNotified,
    crbRegisterNotification, crbUnregisterNotification]

/-- A START that is not deferred, with its answer. -/
theorem Tracks.start (h : Tracks s φ) (hfunc : r.func = crbStart) {new : List Event}
    (hevents : t.events = s.events ++ new) (hnew : ∀ e ∈ new, e.Neutral)
    (hphase : t.notif.InPhase φ) : Tracks (t.noteEvent (.answered r (respond r result))) φ := by
  obtain ⟨hfinish, hclient⟩ := answered_start result hfunc
  exact h.note new hevents hnew hphase (by rw [hfinish]; rfl) (hclient φ.client)

/-- A FINISH_NOTIFIED that is not refused, with its answer. -/
theorem Tracks.finish {reg : Registration} {w : Work} (h : Tracks s (.deferred reg w))
    (hfunc : r.func = crbFinishNotified)
    (hstatus : result.status = .ok ∨ result.status = .invCrbCtrlData) {new : List Event}
    (hevents : t.events = s.events ++ new) (hnew : ∀ e ∈ new, e.Neutral)
    (hphase : t.notif.InPhase (.registered reg)) :
    Tracks (t.noteEvent (.answered r (respond r result))) (.registered reg) := by
  have hanswer : Event.isFinish (.answered r (respond r result)) = true ∧
      ∀ client, Event.nextOf Request.sender (.answered r (respond r result)) client = client := by
    rcases hstatus with hstatus | hstatus <;>
      simp [Event.isFinish, Event.nextOf, hfunc, respond, hstatus, crbFinishNotified,
        crbRegisterNotification, crbUnregisterNotification]
  exact h.note new hevents hnew hphase (by rw [hanswer.1]; rfl) (hanswer.2 (some reg.client))

/-- The answer to a request that neither registers nor unregisters leaves what is known. -/
theorem nextOf_answered_of_ne {α : Type} (f : Request → α) (result : Result) (known : Option α)
    (hregister : r.func = crbRegisterNotification → result.status ≠ .ok)
    (hunregister : r.func = crbUnregisterNotification → result.status ≠ .ok) :
    Event.nextOf f (.answered r (respond r result)) known = known := by
  by_cases hok : result.status = .ok
  · have hneither : r.func ≠ crbRegisterNotification ∧ r.func ≠ crbUnregisterNotification :=
      ⟨fun hfunc => hregister hfunc hok, fun hfunc => hunregister hfunc hok⟩
    simp [Event.nextOf, hneither]
  · simp [Event.nextOf, respond, hok]

/-- A request without any effect, with its answer. -/
theorem Tracks.quiet (h : Tracks s φ) (hphase : t.notif = s.notif) (hevents : t.events = s.events)
    (hregister : r.func = crbRegisterNotification → result.status ≠ .ok)
    (hunregister : r.func = crbUnregisterNotification → result.status ≠ .ok)
    (hfinish : r.func = crbFinishNotified → result.status = .notsup ∨ result.status = .denied) :
    Tracks (t.noteEvent (.answered r (respond r result))) φ := by
  have hno : Event.isFinish (.answered r (respond r result)) = false := by
    refine decide_eq_false ?_
    rintro ⟨hfunc, hnotsup, hdenied⟩
    exact (hfinish hfunc).elim hnotsup hdenied
  exact h.note [] (by simp [hevents]) (by simp) (hphase ▸ h.phase) (by rw [hno]; rfl)
    (nextOf_answered_of_ne _ result φ.client hregister hunregister)

/-- The relayer's answer to a signal decides nothing about its sender and receiver. -/
theorem sender_of_signal (r : Request) : (r.receiver * 2 ^ 16 ||| r.sender) % 2 ^ 16 = r.sender := by
  rw [Nat.or_mod_two_pow, Nat.mul_mod_left, Nat.zero_or, Request.sender, Nat.mod_mod]

/-- A START that is deferred, with its answer. -/
theorem Tracks.defer {reg : Registration} (h : Tracks s (.registered reg)) (hmay : mayDefer s r = true)
    (hset : env.setSucceeds = true) (hfunc : r.func = crbStart) {w : Work}
    (hevents : t.events = s.events ++ [signalEvent env s.notif r.sender r.receiver])
    (hphase : t.notif.InPhase (.deferred reg w)) :
    Tracks (t.noteEvent (.answered r (respond r result))) (.deferred reg w) := by
  have hnote : (t.noteEvent (.answered r (respond r result))).events =
      s.events ++ [signalEvent env s.notif r.sender r.receiver] ++ [.answered r (respond r result)] := by
    rw [Service.noteEvent, hevents]
  have hsender : reg.client = r.sender := by
    simp only [mayDefer, Bool.decide_and, Bool.and_eq_true, decide_eq_true_eq] at hmay
    exact (h.phase.1.2.1).symm.trans hmay.2.1
  have hother := answered_start result hfunc
  have hsignal : Event.isSignal (signalEvent env s.notif r.sender r.receiver) = true := hset
  refine ⟨hphase, ?_, ?_, ?_⟩
  · have hcount := h.balance
    rw [hnote, signals_concat, signals_concat, finishes_concat, finishes_concat, hother.1, hsignal]
    exact congrArg (· + 1) hcount
  · rw [hnote, registeredClient, registeredOf_concat, registeredOf_concat, hother.2]
    exact h.client
  · rw [hnote]
    refine (h.addressed.snoc ?_).snoc trivial
    rw [signalEvent, hset]
    change registeredClient s.events = some ((r.receiver * 2 ^ 16 ||| r.sender) % 2 ^ 16)
    rw [h.client, sender_of_signal]
    exact congrArg some hsender

/-- Refused signals are neutral. -/
theorem neutral_of_refused {sig : List Event}
    (hsig : ∀ e ∈ sig, e = signalEvent env s.notif r.sender r.receiver ∧ env.setSucceeds = false ∧
      mayDefer s r = true) : ∀ e ∈ sig, e.Neutral := by
  intro e he
  obtain ⟨rfl, hset, -⟩ := hsig e he
  exact hset

/-- The record of a command is neutral. -/
theorem neutral_executeEvents (m : ByteMemory) (active l size : ℕ) :
    ∀ e ∈ executeEvents m active l size, e.Neutral := by
  intro e he
  rw [executeEvents] at he
  split at he
  · exact absurd he (by simp)
  · rw [List.mem_singleton.1 he]
    exact trivial

/-- A command is answered with CRB_OK or with CRB_INV_CRB_CTRL_DATA. -/
theorem commandResult_status (executed : Option Executed) :
    (commandResult executed).status = .ok ∨ (commandResult executed).status = .invCrbCtrlData := by
  cases executed with
  | none => exact .inr rfl
  | some executed => exact .inl rfl

/-- The phase of a client that may be deferred. -/
theorem Notification.InPhase.exists_of_mayDefer (h : s.notif.InPhase φ) (hmay : mayDefer s r = true) :
    ∃ reg, φ = .registered reg := by
  simp only [mayDefer, Bool.decide_and, Bool.and_eq_true, decide_eq_true_eq] at hmay
  exact h.exists_registered hmay.1 hmay.2.2.2

/-- **Every request moves from phase to phase.** -/
theorem Tracks.effect (h : Tracks s φ) (heffect : Effect pal env r s t result) :
    ∃ φ', Tracks (t.noteEvent (.answered r (respond r result))) φ' := by
  cases heffect with
  | quiet acc _ hstart hregister hunregister hfinish =>
    exact ⟨φ, h.quiet rfl rfl hregister hunregister fun hfunc => (hfinish hfunc).1⟩
  | register hfunc hfree hid =>
    obtain rfl := h.phase.eq_unregistered hfree
    have hcleared : s.notif = .cleared := h.phase
    refine ⟨.registered ⟨r.sender, r.receiver, r.arg6⟩, h.note [] (by simp) (by simp) ?_ ?_ ?_⟩
    · rw [hcleared]
      exact ⟨⟨rfl, rfl, rfl, rfl⟩, rfl, rfl, rfl⟩
    · simp [Event.isFinish, hfunc, Phase.outstanding, crbRegisterNotification, crbFinishNotified]
    · simp [Event.nextOf, hfunc, respond, Phase.client]
  | unregister hfunc hregistered hclient hdone =>
    obtain ⟨reg, rfl⟩ := h.phase.exists_registered hregistered hdone
    refine ⟨.unregistered, h.note [] (by simp) (by simp) rfl ?_ ?_⟩
    · simp [Event.isFinish, hfunc, Phase.outstanding, crbUnregisterNotification, crbFinishNotified]
    · simp [Event.nextOf, hfunc, respond, Phase.client, crbUnregisterNotification,
        crbRegisterNotification]
  | locality l n sig acc hstart hphase hsig =>
    exact ⟨φ, h.start hstart.func rfl (neutral_of_refused hsig) (hphase φ h.phase)⟩
  | command l size cmd n sig acc hstart hsize hcmd heligible hphase hsig =>
    refine ⟨φ, h.start hstart.func (List.append_assoc ..) ?_ (hphase φ h.phase)⟩
    intro e he
    rcases List.mem_append.1 he with he | he
    · exact neutral_of_refused hsig e he
    · exact neutral_executeEvents _ _ _ _ e he
  | deferLocality l acc hstart hmay hsupported hset =>
    obtain ⟨reg, rfl⟩ := h.phase.exists_of_mayDefer hmay
    obtain ⟨hholds, -, -, hcommand⟩ := h.phase
    exact ⟨_, h.defer hmay hset hstart.func rfl
      (w := .locality ⟨l, Nat.lt_succ_of_le hstart.bound⟩ _) ⟨hholds, rfl, rfl, hcommand, rfl, rfl⟩⟩
  | deferCommand l acc hstart hmay heligible hsupported hset =>
    obtain ⟨reg, rfl⟩ := h.phase.exists_of_mayDefer hmay
    obtain ⟨hholds, -, hlocality, -⟩ := h.phase
    exact ⟨_, h.defer hmay hset hstart.func rfl
      (w := .command ⟨l, Nat.lt_succ_of_le hstart.bound⟩ _ _) ⟨hholds, rfl, hlocality, rfl, rfl, rfl, rfl⟩⟩
  | finishLocality acc hfunc hregistered hclient hout hvalid =>
    obtain ⟨reg, w, rfl⟩ := h.phase.exists_deferred hout
    have hcommand : s.notif.pendingCommandValid = false := by
      simpa [hvalid] using h.phase.pending_of_outstanding hout
    have hholds : s.notif.Holds reg := h.phase.holds (.inr ⟨w, rfl⟩)
    exact ⟨.registered reg, h.finish hfunc (.inl rfl) (List.append_nil _).symm (by simp)
      ⟨hholds, rfl, rfl, hcommand⟩⟩
  | finishCommand l size cmd acc hfunc hregistered hclient hout hinvalid hvalid hl hsize hcmd =>
    obtain ⟨reg, w, rfl⟩ := h.phase.exists_deferred hout
    have hholds : s.notif.Holds reg := h.phase.holds (.inr ⟨w, rfl⟩)
    exact ⟨.registered reg, h.finish hfunc (commandResult_status _) rfl
      (neutral_executeEvents _ _ _ _) ⟨hholds, rfl, hinvalid, rfl⟩⟩
  | finishNothing acc hfunc hregistered hclient hout hlocality hcommand =>
    have hpending := h.phase.pending_of_outstanding hout
    rw [hlocality, hcommand] at hpending
    exact absurd hpending (by decide)

/-- A write of a client does not touch the protocol. -/
theorem Tracks.clientWrite (h : Tracks s φ) (w : ClientWrite) : Tracks (s.clientWrite w) φ := by
  have hneutral : ∃ new, (s.clientWrite w).events = s.events ++ new ∧ ∀ e ∈ new, e.Neutral := by
    cases w with
    | ctrlStart l v =>
      refine ⟨_, rfl, ?_⟩
      intro e he
      split at he
      · rw [List.mem_singleton.1 he]
        exact trivial
      · exact absurd he (by simp)
    | _ => exact ⟨[], (List.append_nil _).symm, by simp⟩
  obtain ⟨new, hevents, hnew⟩ := hneutral
  refine ⟨?_, ?_, ?_, ?_⟩
  · cases w <;> exact h.phase
  · rw [hevents, signals_append_neutral _ hnew, finishes_append_neutral _ hnew, h.balance]
  · rw [hevents, registeredClient, registeredOf_append_neutral _ _ hnew, ← registeredClient, h.client]
  · rw [hevents]
    exact h.addressed.append_neutral hnew

/-- The service starts unregistered. -/
theorem tracks_start (m : ByteMemory) (tpm : σ) : Tracks (Service.start m tpm) .unregistered :=
  ⟨rfl, rfl, rfl, fun pre _ post h => absurd h (by simp [Service.start])⟩

/-- The service is in some phase after every run. -/
theorem tracks_run (pal : Pal σ) (m : ByteMemory) (tpm : σ) (inputs : List Input) :
    ∃ φ, Tracks (run pal (.start m tpm) inputs) φ := by
  refine run_induction (P := fun _ s => ∃ φ, Tracks s φ) ⟨_, tracks_start m tpm⟩ ?_ ?_ inputs
  · rintro pre s w - ⟨φ, h⟩
    exact ⟨φ, h.clientWrite w⟩
  · rintro pre s env r t result - ⟨φ, h⟩ heffect
    exact h.effect heffect

/-- The request reaches the last branch of FINISH_NOTIFIED, for which nothing is pending. -/
def FinishesNothing (env : Env) (s : Service σ) (r : Request) : Prop :=
  r.func = crbFinishNotified ∧ env.notifSupported = true ∧ s.notif.registered = true ∧
    s.notif.client = r.sender ∧ s.notif.outstanding = true ∧ s.notif.pendingLocalityValid = false ∧
    s.notif.pendingCommandValid = false

/-- What holds of the notification variables and the history after every request. -/
structure NotificationSound (s : Service σ) : Prop where
  registered_of_outstanding : s.notif.outstanding = true → s.notif.registered = true
  outstanding_iff : s.notif.outstanding = true ↔
    (s.notif.pendingLocalityValid = true ∧ s.notif.pendingCommandValid = false ∨
      s.notif.pendingLocalityValid = false ∧ s.notif.pendingCommandValid = true)
  nothing_pending : s.notif.outstanding = false →
    s.notif.pendingLocalityValid = false ∧ s.notif.pendingCommandValid = false
  cleared : s.notif.registered = false → s.notif = .cleared
  balance : signals s.events = finishes s.events + s.notif.outstanding.toNat
  client : registeredClient s.events = if s.notif.registered then some s.notif.client else none
  addressed : Addressed s.events
  silent : ∀ pre e mid shift arg1 arg2 arg3 arg4 post,
    s.events = pre ++ e :: mid ++ .notificationSet shift arg1 arg2 arg3 arg4 true :: post →
      e.Unregisters (arg1 % 2 ^ 16) → ∃ e' ∈ mid, e'.Registers (arg1 % 2 ^ 16)
  finishes_something : ∀ env r, ¬FinishesNothing env s r

/-- A tracked service is sound. -/
theorem Tracks.sound (h : Tracks s φ) : NotificationSound s := by
  have hsilent : ∀ pre e mid shift arg1 arg2 arg3 arg4 post,
      s.events = pre ++ e :: mid ++ .notificationSet shift arg1 arg2 arg3 arg4 true :: post →
        e.Unregisters (arg1 % 2 ^ 16) → ∃ e' ∈ mid, e'.Registers (arg1 % 2 ^ 16) :=
    fun pre e mid shift arg1 arg2 arg3 arg4 post hes he => h.addressed.exists_registers_between he hes rfl
  have hfinish : ∀ env r, ¬FinishesNothing env s r := by
    rintro env r ⟨-, -, -, -, hout, hlocality, hcommand⟩
    have hpending := h.phase.pending_of_outstanding hout
    rw [hlocality, hcommand] at hpending
    exact absurd hpending (by decide)
  have hbalance := h.balance
  have hclient := h.client
  cases φ with
  | unregistered =>
    have hcleared : s.notif = .cleared := h.phase
    refine ⟨?_, ?_, ?_, fun _ => hcleared, ?_, ?_, h.addressed, hsilent, hfinish⟩ <;> rw [hcleared]
    · decide
    · decide
    · decide
    · exact hbalance
    · exact hclient
  | registered reg =>
    obtain ⟨⟨hregistered, hreg, -⟩, hdone, hlocality, hcommand⟩ := h.phase
    refine ⟨?_, ?_, fun _ => ⟨hlocality, hcommand⟩, ?_, ?_, ?_, h.addressed, hsilent, hfinish⟩
    · simp [hdone]
    · simp [hdone, hlocality, hcommand]
    · simp [hregistered]
    · rw [hdone]
      exact hbalance
    · rw [hregistered, hreg]
      exact hclient
  | deferred reg w =>
    have hholds := h.phase.holds (.inr ⟨w, rfl⟩)
    have hout : s.notif.outstanding = true := by cases w <;> exact h.phase.2.1
    have hpending := h.phase.pending_of_outstanding hout
    refine ⟨fun _ => hholds.1, ?_, ?_, ?_, ?_, ?_, h.addressed, hsilent, hfinish⟩
    · cases hcommand : s.notif.pendingCommandValid <;> simp [hout, hpending, hcommand]
    · simp [hout]
    · simp [hholds.1]
    · rw [hout]
      exact hbalance
    · rw [hholds.1, hholds.2.1]
      exact hclient

/-- **One signal to the registered client for each piece of deferred work, and one
FINISH_NOTIFIED for each signal, after every run.** -/
theorem notification_sound_of_run (pal : Pal σ) (m : ByteMemory) (tpm : σ) (inputs : List Input) :
    NotificationSound (run pal (.start m tpm) inputs) := by
  obtain ⟨φ, h⟩ := tracks_run pal m tpm inputs
  exact h.sound

end

end FfaAcs.Tpm
