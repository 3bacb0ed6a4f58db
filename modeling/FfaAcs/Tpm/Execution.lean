import FfaAcs.Tpm.Deferral

/-!
# When commands are executed

A START(COMMAND) tests the registers of its locality and then executes the command, or saves it. A
saved command is executed by FINISH_NOTIFIED without a second test. So a command is executed only
for a granted locality exactly if the locality of every saved command is still active when the
command is completed; and a command may be executed twice for one start, because CTRL_START stays
set while the command is saved.
-/

namespace FfaAcs.Tpm

open Machine

/-! ## Granted localities -/

/-- Every command is executed while its locality is active and granted. -/
def ExecutesGranted (es : List Event) : Prop :=
  ∀ l size active granted, Event.execute l size active granted ∈ es → active = l ∧ granted = true

/-- Two histories execute granted commands only if both do. -/
theorem executesGranted_append {es new : List Event} :
    ExecutesGranted (es ++ new) ↔ ExecutesGranted es ∧ ExecutesGranted new := by
  constructor
  · intro h
    exact ⟨fun l size active granted he => h l size active granted (List.mem_append_left _ he),
      fun l size active granted he => h l size active granted (List.mem_append_right _ he)⟩
  · rintro ⟨hes, hnew⟩ l size active granted he
    rcases List.mem_append.1 he with he | he
    · exact hes l size active granted he
    · exact hnew l size active granted he

/-- A history without commands. -/
theorem executesGranted_of_forall {es : List Event}
    (h : ∀ l size active granted, Event.execute l size active granted ∉ es) : ExecutesGranted es :=
  fun l size active granted he => absurd he (h l size active granted)

section

variable {σ : Type*} {pal : Pal σ} {env : Env} {r : Request} {s t : Service σ} {result : Result}

/-- The request completes a deferred command that fits the buffer. -/
def CompletesCommand (env : Env) (s : Service σ) (r : Request) : Prop :=
  r.func = crbFinishNotified ∧ env.notifSupported = true ∧ s.notif.registered = true ∧
    s.notif.client = r.sender ∧ s.notif.outstanding = true ∧ s.notif.pendingLocalityValid = false ∧
    s.notif.pendingCommandValid = true ∧ s.notif.pendingCommandSize ≤ crbDataBufferSize

/-- The record of one command. -/
theorem executesGranted_executeEvents {m : ByteMemory} {active l size : ℕ} :
    ExecutesGranted (executeEvents m active l size) ↔
      (size ≤ crbDataBufferSize → active = l ∧ granted m l = true) := by
  unfold executeEvents
  split
  case isTrue hsize =>
    refine iff_of_true (executesGranted_of_forall (by simp)) ?_
    intro hfits
    omega
  case isFalse hsize =>
    constructor
    · intro h _
      exact h l size active (granted m l) (by simp)
    · intro h l' size' active' granted' he
      have hsame := List.mem_singleton.1 he
      simp only [Event.execute.injEq] at hsame
      obtain ⟨rfl, rfl, rfl, rfl⟩ := hsame
      exact h (by omega)

/-- What a request executes: granted commands only, unless it completes a deferred command whose
locality is no longer active. -/
theorem Effect.executesGranted (h : Effect pal env r s t result) {φ : Phase} (hφ : s.notif.InPhase φ)
    (hreports : Reports (fun granted active => active = true → granted = true) s) :
    ∃ new, t.events = s.events ++ new ∧ (ExecutesGranted new ↔
      (CompletesCommand env s r → s.active = s.notif.pendingCommandLocality)) := by
  -- a request that is no FINISH_NOTIFIED completes nothing
  have hother (hfunc : r.func ≠ crbFinishNotified) :
      CompletesCommand env s r → s.active = s.notif.pendingCommandLocality := fun hc => absurd hc.1 hfunc
  have hnone : ExecutesGranted [] := executesGranted_of_forall (by simp)
  have hsignal (env' : Env) (n : Notification) (client service : ℕ) :
      ExecutesGranted [signalEvent env' n client service] :=
    executesGranted_of_forall (by simp [signalEvent])
  cases h with
  | quiet acc _ hstart hregister hunregister hfinish =>
    refine ⟨[], (List.append_nil _).symm, iff_of_true hnone ?_⟩
    rintro ⟨hfunc, hsupported, hregistered, hclient, hout, -⟩
    rcases (hfinish hfunc).2 with h | h | h | h
    · exact absurd (hsupported.symm.trans h) (by decide)
    · exact absurd (hregistered.symm.trans h) (by decide)
    · exact absurd hclient h
    · exact absurd (hout.symm.trans h) (by decide)
  | register hfunc => exact ⟨[], (List.append_nil _).symm, iff_of_true hnone (hother (by rw [hfunc]; decide))⟩
  | unregister hfunc =>
    exact ⟨[], (List.append_nil _).symm, iff_of_true hnone (hother (by rw [hfunc]; decide))⟩
  | locality l n sig acc hstart hphase hsig =>
    refine ⟨sig, rfl, iff_of_true (executesGranted_of_forall ?_) (hother (by rw [hstart.func]; decide))⟩
    intro l size active granted he
    have hevent := (hsig _ he).1
    simp [signalEvent] at hevent
  | command l size cmd n sig acc hstart hsize hcmd heligible hphase hsig =>
    refine ⟨sig ++ executeEvents s.mem s.active l size, List.append_assoc .., ?_⟩
    refine iff_of_true (executesGranted_append.2 ⟨executesGranted_of_forall ?_, ?_⟩)
      (hother (by rw [hstart.func]; decide))
    · intro l size active granted he
      have hevent := (hsig _ he).1
      simp [signalEvent] at hevent
    · exact executesGranted_executeEvents.2 fun _ => ⟨heligible.1, heligible.2.1⟩
  | deferLocality l acc hstart hmay hsupported hset =>
    exact ⟨_, rfl, iff_of_true (hsignal _ _ _ _) (hother (by rw [hstart.func]; decide))⟩
  | deferCommand l acc hstart hmay heligible hsupported hset =>
    exact ⟨_, rfl, iff_of_true (hsignal _ _ _ _) (hother (by rw [hstart.func]; decide))⟩
  | finishLocality acc hfunc hregistered hclient hout hvalid =>
    refine ⟨[], (List.append_nil _).symm, iff_of_true hnone ?_⟩
    rintro ⟨-, -, -, -, -, hinvalid, -⟩
    exact absurd (hvalid.symm.trans hinvalid) (by decide)
  | finishCommand l size cmd acc hfunc hregistered hclient hout hinvalid hvalid hl hsize hcmd
      hsupported =>
    refine ⟨_, rfl, executesGranted_executeEvents.trans ?_⟩
    subst hl hsize
    constructor
    · intro h hcompletes
      exact (h hcompletes.2.2.2.2.2.2.2).1
    · intro h hfits
      have hactive := h ⟨hfunc, hsupported, hregistered, hclient, hout, hinvalid, hvalid, hfits⟩
      have hgranted := hreports _ (hφ.pendingCommandLocality_le hout hvalid) (decide_eq_true hactive)
      exact ⟨hactive, hgranted⟩
  | finishNothing acc hfunc hregistered hclient hout hlocality hcommand =>
    refine ⟨[], (List.append_nil _).symm, iff_of_true hnone ?_⟩
    rintro ⟨-, -, -, -, -, -, hvalid, -⟩
    exact absurd (hcommand.symm.trans hvalid) (by decide)

/-- The locality of every deferred command of a run is active when the command is completed. -/
def CompletesActive (pal : Pal σ) (s₀ : Service σ) (inputs : List Input) : Prop :=
  ∀ pre env r post, inputs = pre ++ .request env r :: post →
    CompletesCommand env (run pal s₀ pre) r →
      (run pal s₀ pre).active = (run pal s₀ pre).notif.pendingCommandLocality

/-- A condition on all requests of a run, with one more step at the end. -/
theorem forall_request_concat {Q : List Input → Env → Request → Prop} {pre : List Input} {i : Input} :
    (∀ pre' env r post, pre ++ [i] = pre' ++ .request env r :: post → Q pre' env r) ↔
      (∀ pre' env r post, pre = pre' ++ .request env r :: post → Q pre' env r) ∧
        ∀ env r, i = .request env r → Q pre env r := by
  constructor
  · intro h
    constructor
    · intro pre' env r post hpre
      exact h pre' env r (post ++ [i]) (by rw [hpre]; simp)
    · intro env r hi
      exact h pre env r [] (by rw [hi])
  · rintro ⟨hpre, hlast⟩ pre' env r post hsplit
    cases post using List.reverseRecOn with
    | nil =>
      obtain ⟨rfl, hi⟩ := List.append_inj' hsplit rfl
      exact hlast env r (List.singleton_inj.1 hi)
    | append_singleton post last =>
      rw [← List.cons_append, ← List.append_assoc] at hsplit
      exact hpre pre' env r post (List.append_inj' hsplit rfl).1

/-- **Commands are executed for granted localities only, exactly if the locality of every deferred
command is still active when the command is completed.** -/
theorem executes_granted_iff (pal : Pal σ) (m : ByteMemory) (tpm : σ) (inputs : List Input) :
    ExecutesGranted (run pal (.start m tpm) inputs).events ↔
      CompletesActive pal (.start m tpm) inputs := by
  have hreports : Reports (fun granted active => active = true → granted = true)
      (Service.start m tpm) := by
    intro k hk hactive
    have hnone : crbLocalityMax + 1 = k := of_decide_eq_true hactive
    omega
  refine run_induction (P := fun pre s => ExecutesGranted s.events ↔
    CompletesActive pal (.start m tpm) pre) ?_ ?_ ?_ inputs
  · refine iff_of_true (executesGranted_of_forall (by simp [Service.start])) ?_
    intro pre env r post hnil
    exact absurd hnil (by simp)
  · rintro pre s w - ih
    have hevents : ∃ new, (s.clientWrite w).events = s.events ++ new ∧ ExecutesGranted new := by
      cases w with
      | ctrlStart l v =>
        refine ⟨_, rfl, executesGranted_of_forall ?_⟩
        intro l size active granted
        split <;> simp
      | _ => exact ⟨[], (List.append_nil _).symm, executesGranted_of_forall (by simp)⟩
    obtain ⟨new, hevents, hnew⟩ := hevents
    rw [hevents, executesGranted_append, ih, CompletesActive, CompletesActive, forall_request_concat]
    simp [hnew]
  · rintro pre s env r t result rfl ih heffect
    obtain ⟨φ, htracks⟩ := tracks_run pal m tpm pre
    have hrun := reports_run (fun b h => h) pal tpm hreports pre
    obtain ⟨new, hevents, hnew⟩ := heffect.executesGranted htracks.phase hrun
    have hanswer : ExecutesGranted [Event.answered r (respond r result)] :=
      executesGranted_of_forall (by simp)
    rw [Service.noteEvent, hevents, executesGranted_append, executesGranted_append, ih, hnew,
      CompletesActive, CompletesActive, forall_request_concat]
    simp [hanswer]

/-- Locality 3 is granted, a command of ten bytes for it is deferred, the locality is relinquished
while the notification is outstanding, and the command is completed. -/
def relinquishedRun : List Input :=
  [.write (.locCtrl 3 1), .request signalling (requestTo crbStart crbStartTypeLocalityRequest 3),
    .request signalling (requestTo crbRegisterNotification 0 5), .write (.data 3 ⟨5, by decide⟩ 10),
    .write (.ctrlStart 3 1), .request signalling (requestTo crbStart crbStartTypeCommand 3),
    .write (.locCtrl 3 2), .request signalling (requestTo crbStart crbStartTypeLocalityRequest 3),
    .request signalling (requestTo crbFinishNotified 0 0)]

/-- The command of that run is executed while no locality is active and Granted is clear. -/
theorem executes_after_relinquish :
    ¬ExecutesGranted (run zeroPal (.start zeroCrb ()) relinquishedRun).events := by
  intro h
  have hexecuted : Event.execute 3 10 5 false ∈
      (run zeroPal (.start zeroCrb ()) relinquishedRun).events := by
    decide +kernel
  exact absurd (h 3 10 5 false hexecuted).2 (by decide)

end

/-! ## One execution for each start -/

/-- A command of locality `l` was executed. -/
def Event.isExecute (l : ℕ) : Event → Bool
  | .execute k _ _ _ => k = l
  | _ => false

/-- A client changed CTRL_START of locality `l` from clear to set. -/
def Event.isStart (l : ℕ) : Event → Bool
  | .startSet k => k = l
  | _ => false

/-- Whether CTRL_START of locality `l` was set since the last accepted signal, after an event. -/
def Event.nextFresh (l : ℕ) : Event → Bool → Bool
  | .notificationSet _ _ _ _ _ accepted, fresh => !accepted && fresh
  | .startSet k, fresh => fresh || k = l
  | _, fresh => fresh

/-- The number of commands executed for locality `l`. -/
def executions (l : ℕ) (es : List Event) : ℕ := es.countP (Event.isExecute l)

/-- The number of times a client changed CTRL_START of locality `l` from clear to set. -/
def starts (l : ℕ) (es : List Event) : ℕ := es.countP (Event.isStart l)

/-- CTRL_START of locality `l` was set since the last accepted signal. -/
def freshStart (l : ℕ) (es : List Event) : Bool := es.foldl (fun fresh e => e.nextFresh l fresh) false

/-- An event that does not count for locality `l`. -/
def Event.Idle (l : ℕ) (e : Event) : Prop :=
  e.isExecute l = false ∧ e.isStart l = false ∧ ∀ fresh, e.nextFresh l fresh = fresh

section

variable {l : ℕ} (es : List Event) {new : List Event}

/-- The last event counts if it executes a command. -/
theorem executions_concat (e : Event) :
    executions l (es ++ [e]) = executions l es + (e.isExecute l).toNat := by
  rw [executions, List.countP_append, ← executions, List.countP_singleton]
  cases e.isExecute l <;> rfl

/-- The last event counts if it is a start. -/
theorem starts_concat (e : Event) : starts l (es ++ [e]) = starts l es + (e.isStart l).toNat := by
  rw [starts, List.countP_append, ← starts, List.countP_singleton]
  cases e.isStart l <;> rfl

/-- The last event decides about fresh starts. -/
theorem freshStart_concat (e : Event) :
    freshStart l (es ++ [e]) = e.nextFresh l (freshStart l es) := List.foldl_concat ..

/-- Idle events count for nothing. -/
theorem idle_append (hnew : ∀ e ∈ new, e.Idle l) : executions l (es ++ new) = executions l es ∧
    starts l (es ++ new) = starts l es ∧ freshStart l (es ++ new) = freshStart l es := by
  induction new using List.reverseRecOn with
  | nil => simp
  | append_singleton new e ih =>
    obtain ⟨hexecutions, hstarts, hfresh⟩ := ih fun e he => hnew e (by simp [he])
    obtain ⟨hexecute, hstart, hkeeps⟩ := hnew e (by simp)
    rw [← List.append_assoc, executions_concat, starts_concat, freshStart_concat, hexecute, hstart,
      hkeeps]
    exact ⟨hexecutions, hstarts, hfresh⟩

end

section

variable {σ : Type*} {pal : Pal σ} {env : Env} {r : Request} {s t : Service σ} {result : Result}
  {l : ℕ}

/-- A command for locality `l` is deferred. -/
def pendingFor (l : ℕ) (n : Notification) : Bool :=
  n.pendingCommandValid && n.pendingCommandLocality == l

/-- A start of locality `l` that no command was executed or deferred for yet. -/
def unserved (l : ℕ) (s : Service σ) : Bool :=
  started s.mem l && (!pendingFor l s.notif || freshStart l s.events)

/-- Executed commands, the deferred command and the start that is not served yet are covered by
starts. -/
def Covered (l : ℕ) (s : Service σ) : Prop :=
  executions l s.events + (pendingFor l s.notif).toNat + (unserved l s).toNat ≤ starts l s.events

/-- The request executes a command for locality `l` at once while a command for it is deferred, and
CTRL_START was not set again since. -/
def Repeats (l : ℕ) (s : Service σ) (r : Request) : Prop :=
  r.Starts crbStartTypeCommand l ∧ s.Eligible l ∧ commandSize s.mem l ≤ crbDataBufferSize ∧
    pendingFor l s.notif = true ∧ freshStart l s.events = false

/-- The platform executes every command and gives a response that fits the buffer. -/
def AlwaysSucceeds (pal : Pal σ) : Prop := ∀ tpm size cmd, (pal tpm size cmd).1.executed ≠ none

/-- A deferred command is a matter of the phase. -/
theorem pendingFor_congr {φ : Phase} {n n' : Notification} (h : n.InPhase φ) (h' : n'.InPhase φ) :
    pendingFor l n = pendingFor l n' := by
  cases φ with
  | unregistered => rw [Notification.InPhase] at h h'; rw [h, h']
  | registered reg => rw [pendingFor, pendingFor, h.2.2.2, h'.2.2.2]; rfl
  | deferred reg w =>
    cases w with
    | locality k ctrl => rw [pendingFor, pendingFor, h.2.2.2.1, h'.2.2.2.1]; rfl
    | command k size cmd =>
      rw [pendingFor, pendingFor, h.2.2.2.1, h'.2.2.2.1, h.2.2.2.2.1, h'.2.2.2.2.1]

/-- A step that executes, defers and starts nothing for locality `l` keeps the account. -/
theorem Covered.idle (h : Covered l s) (new : List Event) (hevents : t.events = s.events ++ new)
    (hnew : ∀ e ∈ new, e.Idle l) (hpending : pendingFor l t.notif = pendingFor l s.notif)
    (hstarted : started t.mem l = started s.mem l) : Covered l t := by
  obtain ⟨hexecutions, hstarts, hfresh⟩ := idle_append s.events hnew
  rw [Covered, unserved, hevents, hexecutions, hstarts, hfresh, hpending, hstarted]
  exact h

/-- A refused signal is idle. -/
theorem idle_of_refused {sig : List Event}
    (hsig : ∀ e ∈ sig, e = signalEvent env s.notif r.sender r.receiver ∧ env.setSucceeds = false ∧
      mayDefer s r = true) : ∀ e ∈ sig, e.Idle l := by
  intro e he
  obtain ⟨rfl, hset, -⟩ := hsig e he
  refine ⟨rfl, rfl, fun fresh => ?_⟩
  simp [signalEvent, Event.nextFresh, hset]

/-- The record of a command for another locality is idle. -/
theorem idle_executeEvents_of_ne {m : ByteMemory} {active k size : ℕ} (hk : k ≠ l) :
    ∀ e ∈ executeEvents m active k size, e.Idle l := by
  intro e he
  rw [executeEvents] at he
  split at he
  · exact absurd he (by simp)
  · rw [List.mem_singleton.1 he]
    exact ⟨decide_eq_false hk, rfl, fun _ => rfl⟩

/-- Applying LOC_CTRL data does not touch CTRL_START. -/
theorem started_applyMem {m : ByteMemory} {active k ctrl : ℕ} :
    started (applyMem m active k ctrl) l = started m l := started_store_locSts ..

/-- A command for another locality does not touch CTRL_START. -/
theorem started_publishMem_of_ne {m : ByteMemory} {k : ℕ} (hk : k ≠ l) (executed : Option Executed) :
    started (publishMem m k executed) l = started m l := by
  cases executed with
  | none => rfl
  | some executed =>
    rw [publishMem, started_store_ctrlStart_of_ne _ _ _ _ hk, started_blit m k l executed.fits]

/-- A command that was executed clears CTRL_START. -/
theorem started_publishMem_same {m : ByteMemory} {executed : Option Executed} (h : executed ≠ none) :
    started (publishMem m l executed) l = false := by
  cases executed with
  | none => exact absurd rfl h
  | some executed => rw [publishMem, started_store_ctrlStart_same]; rfl

/-- A command that fits the buffer is executed by a platform that always succeeds. -/
theorem AlwaysSucceeds.execute_ne (hpal : AlwaysSucceeds pal) {tpm : σ} {size : ℕ} {cmd : ℕ → UInt8}
    (hsize : size ≤ crbDataBufferSize) : (execute pal tpm size cmd).1 ≠ none := by
  rw [execute, if_neg (by omega)]
  exact hpal tpm size cmd

/-- A command that does not fit the buffer leaves no trace. -/
theorem runCommand_too_long {size : ℕ} (cmd : ℕ → UInt8) (hsize : ¬size ≤ crbDataBufferSize) (k : ℕ) :
    runCommand pal s k size cmd = s := by
  have hlong : size > crbDataBufferSize := by omega
  simp only [runCommand, execute, executeEvents, if_pos hlong, publishMem, List.append_nil]

/-- A command of locality `l` that is executed turns a start that was not served, or the deferred
command, into an execution. -/
theorem Covered.runCommand (hpal : AlwaysSucceeds pal) {size : ℕ} {cmd : ℕ → UInt8}
    (hsize : size ≤ crbDataBufferSize)
    (h : executions l s.events + 1 + (pendingFor l s.notif).toNat ≤ starts l s.events) :
    Covered l (runCommand pal s l size cmd) := by
  have hevents : (Tpm.runCommand pal s l size cmd).events =
      s.events ++ [.execute l size s.active (granted s.mem l)] := by
    simp only [Tpm.runCommand, executeEvents, if_neg (show ¬size > crbDataBufferSize by omega)]
  have hstarted : started (Tpm.runCommand pal s l size cmd).mem l = false :=
    started_publishMem_same (hpal.execute_ne hsize)
  have hnotif : (Tpm.runCommand pal s l size cmd).notif = s.notif := rfl
  have hexecute : (Event.execute l size s.active (granted s.mem l)).isExecute l = true :=
    decide_eq_true rfl
  rw [Covered, unserved, hevents, hstarted, hnotif, executions_concat, starts_concat, hexecute]
  simp only [Event.isStart, Bool.false_and, Bool.toNat_false, Bool.toNat_true]
  omega

/-- A command of another locality does not change the account. -/
theorem Covered.runCommand_of_ne (h : Covered l s) {k size : ℕ} {cmd : ℕ → UInt8} (hk : k ≠ l) :
    Covered l (Tpm.runCommand pal s k size cmd) :=
  h.idle _ rfl (idle_executeEvents_of_ne hk) rfl (started_publishMem_of_ne hk _)

/-- Forgetting a deferred command keeps the account: its start may be served once more. -/
theorem Covered.forget (h : Covered l s) (hevents : t.events = s.events)
    (hstarted : started t.mem l = started s.mem l) (hnone : pendingFor l t.notif = false) :
    Covered l t := by
  rw [Covered, unserved] at h ⊢
  rw [hevents, hstarted, hnone]
  cases hstart : started s.mem l <;> cases hpending : pendingFor l s.notif <;>
    simp [hstart, hpending] at h ⊢ <;> omega

/-- A START that is deferred turns a start that was not served into a deferred command, or leaves the
account alone. -/
theorem Covered.defer (h : Covered l s) (hset : env.setSucceeds = true)
    (hevents : t.events = s.events ++ [signalEvent env s.notif r.sender r.receiver])
    (hstarted : started t.mem l = started s.mem l) (hnone : pendingFor l s.notif = false)
    (hserved : pendingFor l t.notif = true → started s.mem l = true) : Covered l t := by
  have hfresh : freshStart l t.events = false := by
    rw [hevents, freshStart_concat]
    simp [signalEvent, Event.nextFresh, hset]
  have hcount : executions l t.events = executions l s.events ∧ starts l t.events = starts l s.events := by
    rw [hevents, executions_concat, starts_concat]
    exact ⟨rfl, rfl⟩
  have hbefore := h
  rw [Covered, unserved, hnone] at hbefore
  rw [Covered, unserved, hfresh, hstarted, hcount.1, hcount.2]
  cases hpending : pendingFor l t.notif with
  | false => simpa using hbefore
  | true => simpa [hserved hpending] using hbefore

/-- A request keeps the account, unless it executes a deferred command again. -/
theorem Covered.effect (hpal : AlwaysSucceeds pal) (h : Covered l s)
    (heffect : Effect pal env r s t result) {φ : Phase} (hφ : s.notif.InPhase φ)
    (hno : ¬Repeats l s r) : Covered l t := by
  have hidle {t : Service σ} (hevents : t.events = s.events)
      (hpending : pendingFor l t.notif = pendingFor l s.notif)
      (hstarted : started t.mem l = started s.mem l) : Covered l t :=
    h.idle [] (hevents.trans (List.append_nil _).symm) (by simp) hpending hstarted
  cases heffect with
  | quiet acc _ hstart hregister hunregister hfinish => exact hidle rfl rfl rfl
  | register hfunc hfree hid => exact hidle rfl rfl rfl
  | unregister hfunc hregistered hclient hdone =>
    obtain ⟨reg, rfl⟩ := hφ.exists_registered hregistered hdone
    exact h.forget rfl rfl rfl
  | locality k n sig acc hstart hphase hsig =>
    refine h.idle _ rfl (idle_of_refused hsig) (pendingFor_congr (hphase φ hφ) hφ) ?_
    rw [started_applyMem, started_store_locCtrl]
  | command k size cmd n sig acc hstart hsize hcmd heligible hphase hsig =>
    have hsig' : Covered l { s with notif := n, events := s.events ++ sig, accesses := acc } :=
      h.idle _ rfl (idle_of_refused hsig) (pendingFor_congr (hphase φ hφ) hφ) rfl
    by_cases hk : k = l
    · subst hk
      by_cases hfits : size ≤ crbDataBufferSize
      · -- the start is not served yet, since this is no repetition
        have hunserved : unserved k { s with notif := n, events := s.events ++ sig, accesses := acc } =
            true := by
          have hfresh := (idle_append (l := k) s.events (idle_of_refused hsig)).2.2
          rw [unserved, hfresh, pendingFor_congr (hphase φ hφ) hφ, heligible.2.2, Bool.true_and]
          cases hpending : pendingFor k s.notif with
          | false => rfl
          | true =>
            by_contra hstale
            exact hno ⟨hstart, heligible, hsize ▸ hfits, hpending, by simpa using hstale⟩
        apply Covered.runCommand hpal hfits
        rw [Covered, hunserved, Bool.toNat_true] at hsig'
        omega
      · rw [runCommand_too_long cmd hfits]
        exact hsig'
    · exact hsig'.runCommand_of_ne hk
  | deferLocality k acc hstart hmay hsupported hset =>
    obtain ⟨reg, rfl⟩ := hφ.exists_of_mayDefer hmay
    have hnone : pendingFor l s.notif = false := by rw [pendingFor, hφ.2.2.2]; rfl
    refine h.defer hset rfl (started_store_locCtrl ..) hnone ?_
    intro hpending
    exact absurd (hnone.symm.trans hpending) (by decide)
  | deferCommand k acc hstart hmay heligible hsupported hset =>
    obtain ⟨reg, rfl⟩ := hφ.exists_of_mayDefer hmay
    have hnone : pendingFor l s.notif = false := by rw [pendingFor, hφ.2.2.2]; rfl
    refine h.defer hset rfl rfl hnone ?_
    intro hpending
    have hk : k = l := by simpa [pendingFor] using hpending
    exact hk ▸ heligible.2.2
  | finishLocality acc hfunc hregistered hclient hout hvalid =>
    exact hidle rfl rfl started_applyMem
  | finishCommand k size cmd acc hfunc hregistered hclient hout hinvalid hvalid hl hsize hcmd =>
    have hcompletes : ∀ s' : Service σ, s'.events = s.events → s'.mem = s.mem →
        pendingFor l s'.notif = false → Covered l (Tpm.runCommand pal s' k size cmd) := by
      intro s' hevents hmem hnone
      have hforgotten : Covered l s' := h.forget hevents (by rw [hmem]) hnone
      by_cases hk : k = l
      · have hpending : pendingFor l s.notif = true := by
          rw [pendingFor, hvalid, ← hl, hk]
          simp
        subst hk
        by_cases hfits : size ≤ crbDataBufferSize
        · apply Covered.runCommand hpal hfits
          rw [Covered, hpending, Bool.toNat_true] at h
          rw [hevents, hnone, Bool.toNat_false]
          omega
        · rw [runCommand_too_long cmd hfits]
          exact hforgotten
      · exact hforgotten.runCommand_of_ne hk
    exact hcompletes _ rfl rfl rfl
  | finishNothing acc hfunc hregistered hclient hout hlocality hcommand => exact hidle rfl rfl rfl

/-- A client that sets CTRL_START adds a start. -/
theorem Covered.clientWrite (h : Covered l s) (w : ClientWrite) : Covered l (s.clientWrite w) := by
  cases w with
  | locCtrl k v =>
    exact h.idle [] (List.append_nil _).symm (by simp) rfl (started_store_locCtrl ..)
  | data k i b =>
    exact h.idle [] (List.append_nil _).symm (by simp) rfl (started_poke s.mem k l i.isLt)
  | ctrlStart k v =>
    by_cases hk : (k : ℕ) = l
    · have hstarted : started (s.clientWrite (.ctrlStart k v)).mem l = decide (v % 2 = 1) := by
        rw [Service.clientWrite, hk, started_store_ctrlStart_same]
      have hnotif : (s.clientWrite (.ctrlStart k v)).notif = s.notif := rfl
      by_cases hset : started s.mem l = false ∧ v % 2 = 1
      · have hevents : (s.clientWrite (.ctrlStart k v)).events = s.events ++ [.startSet k] := by
          simp only [Service.clientWrite, hk, hset.1, hset.2, and_self, if_true]
        have hstart : (Event.startSet k).isStart l = true := decide_eq_true hk
        have hone := Bool.toNat_le (unserved l (s.clientWrite (.ctrlStart k v)))
        rw [Covered] at h ⊢
        rw [hevents, hnotif, executions_concat, starts_concat, hstart]
        simp only [Event.isExecute, Bool.toNat_false, Bool.toNat_true]
        omega
      · have hevents : (s.clientWrite (.ctrlStart k v)).events = s.events := by
          simp only [Service.clientWrite, hk, hset, if_false, List.append_nil]
        rw [Covered, unserved] at h ⊢
        rw [hevents, hnotif, hstarted]
        by_cases hodd : v % 2 = 1
        · have hbefore : started s.mem l = true := by
            by_contra hclear
            exact hset ⟨by simpa using hclear, hodd⟩
          rw [hbefore] at h
          simpa [hodd] using h
        · simp only [hodd, decide_false, Bool.false_and, Bool.toNat_false]
          omega
    · refine h.idle _ rfl ?_ rfl (started_store_ctrlStart_of_ne _ _ _ _ hk)
      intro e he
      split at he
      · rw [List.mem_singleton.1 he]
        refine ⟨rfl, decide_eq_false hk, fun fresh => ?_⟩
        simp [Event.nextFresh, hk]
      · exact absurd he (by simp)

/-- **With a platform that always succeeds, and CTRL_START clear at the start, no locality has more
executions than starts, unless a START(COMMAND) repeats a deferred command.** -/
theorem executions_le_starts (pal : Pal σ) (hpal : AlwaysSucceeds pal) (m : ByteMemory) (tpm : σ)
    (l : ℕ) (hclear : started m l = false) (inputs : List Input)
    (hno : ∀ pre env r post, inputs = pre ++ .request env r :: post →
      ¬Repeats l (run pal (.start m tpm) pre) r) :
    executions l (run pal (.start m tpm) inputs).events ≤
      starts l (run pal (.start m tpm) inputs).events := by
  have hcovered : Covered l (run pal (.start m tpm) inputs) := by
    refine run_induction (P := fun pre s => (∀ pre' env r post, pre = pre' ++ .request env r :: post →
      ¬Repeats l (run pal (.start m tpm) pre') r) → Covered l s) ?_ ?_ ?_ inputs hno
    · intro _
      simp [Covered, unserved, Service.start, hclear, executions, starts, pendingFor,
        Notification.cleared]
    · intro pre s w _ ih hno
      exact (ih (forall_request_concat.1 hno).1).clientWrite w
    · rintro pre s env r t result rfl ih heffect hno
      obtain ⟨hbefore, hlast⟩ := forall_request_concat.1 hno
      obtain ⟨φ, htracks⟩ := tracks_run pal m tpm pre
      have ht : Covered l t := (ih hbefore).effect hpal heffect htracks.phase (hlast env r rfl)
      exact ht.idle _ rfl (by simp [Event.Idle, Event.isExecute, Event.isStart, Event.nextFresh]) rfl rfl
  rw [Covered] at hcovered
  omega

/-- Locality 3 is granted and its command is executed at once. -/
def executedRun : List Input :=
  [.write (.locCtrl 3 1), .request signalling (requestTo crbStart crbStartTypeLocalityRequest 3),
    .write (.ctrlStart 3 1), .request signalling (requestTo crbStart crbStartTypeCommand 3)]

/-- One start, one execution. -/
theorem executions_le_starts_of_execute :
    executions 3 (run zeroPal (.start zeroCrb ()) executedRun).events = 1 ∧
    executions 3 (run zeroPal (.start zeroCrb ()) executedRun).events ≤
      starts 3 (run zeroPal (.start zeroCrb ()) executedRun).events := by
  have hpal : AlwaysSucceeds zeroPal := by
    intro tpm size cmd
    simp [zeroPal, PalReply.executed, crbDataBufferSize]
  have hnone : ∀ n < 4, pendingFor 3 (run zeroPal (.start zeroCrb ()) (executedRun.take n)).notif =
      false := by
    decide +kernel
  refine ⟨by decide +kernel,
    executions_le_starts zeroPal hpal zeroCrb () 3 (by decide +kernel) executedRun ?_⟩
  intro pre env r post hsplit hrepeats
  have hlength : pre.length < 4 := by
    have hcount : executedRun.length = (pre ++ .request env r :: post).length := by rw [← hsplit]
    simp only [executedRun, List.length_append, List.length_cons, List.length_nil] at hcount
    omega
  have hpre : executedRun.take pre.length = pre := by
    rw [hsplit]
    exact List.take_left
  have hpending := hnone pre.length hlength
  rw [hpre, hrepeats.2.2.2.1] at hpending
  exact absurd hpending (by decide)

/-- Locality 3 is granted, its command of ten bytes is deferred, and a second START(COMMAND) comes
before the command is completed. -/
def repeatedRun : List Input :=
  [.write (.locCtrl 3 1), .request signalling (requestTo crbStart crbStartTypeLocalityRequest 3),
    .request signalling (requestTo crbRegisterNotification 0 5),
    .write (.data 3 ⟨5, by decide⟩ 10), .write (.ctrlStart 3 1),
    .request signalling (requestTo crbStart crbStartTypeCommand 3),
    .request signalling (requestTo crbStart crbStartTypeCommand 3),
    .request signalling (requestTo crbFinishNotified 0 0)]

/-- In that run one start is executed twice. -/
theorem executed_twice_for_one_start :
    starts 3 (run zeroPal (.start zeroCrb ()) repeatedRun).events = 1 ∧
      executions 3 (run zeroPal (.start zeroCrb ()) repeatedRun).events = 2 := by
  constructor <;> decide +kernel

end

end FfaAcs.Tpm
