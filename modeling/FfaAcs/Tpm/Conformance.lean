import FfaAcs.Tpm.Surrounded

/-!
# The TPM tests accept the service

In all surroundings that do what the tests rely on, every test of the TPM service succeeds, or is skipped
if there are no notifications. It leaves the service and its surroundings as it has found them, so the tests
can be run in any order and any number of times. The platform's TPM has to answer the three commands of the
tests as they expect. That there are such surroundings is shown by a relayer of a few lines at the end.
-/

namespace FfaAcs.Tpm

open Machine Client

section

variable {σ ε α : Type} {pal : Pal σ} {f : Surrounded ε} {φ : Phase} {granted : Bool} {e : Held}
  {D : ℕ → (ℕ → UInt8) → Prop} {Q : Model σ × ε → Prop}

/-! ## Tests of requests and localities -/

/-- Nothing is held for the client. -/
def idle : Held := ⟨false, false, false, false, false, false⟩

/-- The state between two tests. -/
abbrev Clean (f : Surrounded ε) : Model σ × ε → Prop := At f .unregistered false idle anyData

/-- The data buffer does not matter between two tests. -/
theorem At.clean {x : Model σ × ε} (hx : At f .unregistered false idle D x) : Clean f x :=
  hx.imp fun _ _ _ => trivial

/-- A test with this verdict, from any state between two tests to another. -/
abbrev Ends (f : Surrounded ε) (pal : Pal σ) (p : Client Verdict) (verdict : Verdict) : Prop :=
  Returns f pal (Clean f) p verdict (Clean f)

/-- The test's locality is requested. -/
theorem sendLocality_grants : Returns f pal (At f .unregistered granted e D)
    (sendLocality f.clientId f.tpmSpId locCtrlRequestAccess) .success (At f .unregistered true e D) :=
  sendLocality_returns

/-- The test's locality is given back. -/
theorem sendLocality_relinquishes : Returns f pal (At f .unregistered granted e D)
    (sendLocality f.clientId f.tpmSpId locCtrlRelinquish) .success (At f .unregistered false e D) :=
  sendLocality_returns

/-- The service has the version that the client knows. -/
theorem getInterfaceVersionClient_ends : Ends f pal getInterfaceVersionClient .success := by
  have hsend : Returns f pal (Clean f) (valTpmSendAbi f.clientId f.tpmSpId crbGetInterfaceVersion 0 0 0)
      (respond (f.request crbGetInterfaceVersion 0 0) ⟨.okResultsReturned, crbServiceVersion, 0⟩).args
      (Clean f) :=
    valTpmSendAbi_returns fun x hx => ⟨rfl, hx.quiet⟩
  have hzero : ¬((0 : ℕ) ≠ 0 ∨ (0 : ℕ) ≠ 0) := by decide
  have hmajor : ¬wrap32 crbServiceVersion >>> 16 ≠ 1 := by decide
  refine valTpmGetEndpointIds_returns.bind (.skip (by decide) ?_)
  refine hsend.bind (.skip (not_not.mpr rfl) (.skip (not_not.mpr rfl) ?_))
  refine .skip hzero (.skip hmajor (.skip (Nat.not_lt_zero _) ?_))
  exact .pure fun _ hx => hx

/-- Both answers to the question for notifications are accepted. -/
theorem getFeatureInfoClient_ends : Ends f pal getFeatureInfoClient .success := by
  refine valTpmGetEndpointIds_returns.bind (.skip (by decide) ?_)
  refine (featureInfo_returns f pal).bind ?_
  cases f.supported <;> exact .pure fun _ hx => hx

/-- A feature that does not exist is an invalid argument. -/
theorem getFeatureInfoInvalidClient_ends : Ends f pal getFeatureInfoInvalidClient .success := by
  refine valTpmGetEndpointIds_returns.bind (.skip (by decide) ?_)
  refine .guard (request_returns .invarg fun _ _ => ⟨rfl, rfl⟩) (by decide) ?_
  exact .pure fun _ hx => hx

/-- A function that does not exist is not one. -/
theorem tpmCrbUnknownFunctionIdClient_ends : Ends f pal tpmCrbUnknownFunctionIdClient .success := by
  refine valTpmGetEndpointIds_returns.bind (.skip (by decide) ?_)
  refine .guard (request_returns .nofunc fun _ _ => ⟨rfl, rfl⟩) (by decide) ?_
  exact .pure fun _ hx => hx

/-- The locality is requested twice and given back once. -/
theorem startLocalityFlowBody_returns : Returns f pal (At f .unregistered false e D)
    (startLocalityFlowBody f.clientId f.tpmSpId) (.success, false) (At f .unregistered false e D) := by
  refine .guard sendLocality_grants (by decide) (.guard readGranted_returns (by decide) ?_)
  refine .guard sendLocality_grants (by decide) (.guard readGranted_returns (by decide) ?_)
  refine .guard sendLocality_relinquishes (by decide) (.guard readGranted_returns (by decide) ?_)
  exact .pure fun _ hx => hx

/-- LOC_CTRL is cleared before the test. -/
theorem writeLocCtrl_keeps {v : ℕ} :
    Returns f pal (At f φ granted e D) (writeLocCtrl v) () (At f φ granted e D) :=
  writeLocCtrl_returns.mono (fun _ hx => hx) fun _ hx => hx.1

/-- The locality is granted and given back. -/
theorem startLocalityFlowClient_ends : Ends f pal startLocalityFlowClient .success := by
  refine valTpmGetEndpointIds_returns.bind (.skip (by decide) ?_)
  refine writeLocCtrl_keeps.bind ?_
  refine .guard relinquish_returns (by decide) (.guard readGranted_returns (by decide) ?_)
  refine startLocalityFlowBody_returns.bind (.skip (by decide) ?_)
  exact .pure fun _ hx => hx

/-- The test's locality is relinquished if it is granted. -/
theorem tpmRelinquishIfGranted_returns : Returns f pal (At f .unregistered granted e D)
    (tpmRelinquishIfGranted f.clientId f.tpmSpId) .success (At f .unregistered false e D) := by
  cases granted with
  | false => exact readGranted_returns.bind (.take rfl (.pure fun _ hx => hx))
  | true =>
    refine .guard readGranted_returns (by decide) ?_
    refine .guard sendLocality_relinquishes (by decide) (.guard readGranted_returns (by decide) ?_)
    exact .pure fun _ hx => hx

/-- LOC_CTRL data without a meaning is accepted and has no effect. -/
theorem startLocalityCtrlDataClient_ends : Ends f pal startLocalityCtrlDataClient .success := by
  refine valTpmGetEndpointIds_returns.bind (.skip (by decide) ?_)
  refine .guard tpmRelinquishIfGranted_returns (by decide) ?_
  refine .guard sendLocality_returns (by decide) (.guard readGranted_returns (by decide) ?_)
  refine .guard sendLocality_returns (by decide) ?_
  refine .guard tpmRelinquishIfGranted_returns (by decide) ?_
  exact .pure fun _ hx => hx

/-- Four requests with invalid arguments. -/
theorem startLocalityInvalidArgsClient_ends : Ends f pal startLocalityInvalidArgsClient .success := by
  refine valTpmGetEndpointIds_returns.bind (.skip (by decide) ?_)
  refine .guard (request_returns .invarg fun _ _ => ⟨rfl, rfl⟩) (by decide) ?_
  refine .guard (request_returns .invarg fun _ _ => ⟨rfl, rfl⟩) (by decide) ?_
  refine .guard (request_returns .invarg fun _ _ => ⟨rfl, rfl⟩) (by decide) ?_
  refine .guard (request_returns .invarg fun _ _ => ⟨rfl, rfl⟩) (by decide) ?_
  exact .pure fun _ hx => hx

/-- A locality that is not granted can be given back. -/
theorem startLocalityRelinquishInactiveClient_ends :
    Ends f pal startLocalityRelinquishInactiveClient .success := by
  refine valTpmGetEndpointIds_returns.bind (.skip (by decide) ?_)
  refine .guard sendLocality_relinquishes (by decide) (.guard readGranted_returns (by decide) ?_)
  refine .guard sendLocality_relinquishes (by decide) (.guard readGranted_returns (by decide) ?_)
  exact .pure fun _ hx => hx

/-! ## Tests of commands -/

/-- The GetCapability command states its size. -/
theorem getCapability_states : States getCapability tpmGetCapabilityCmdSize := ⟨by decide, by decide⟩

/-- The unsupported command states its size. -/
theorem unsupportedCommand_states : States tpmPrepareUnsupportedCommand 10 := ⟨by decide, by decide⟩

/-- The GetCapability command without its last argument. -/
def malformedCommand : ℕ → UInt8 :=
  valTpmPrepareGetCapability tpmPrepareUnsupportedCommand tpmMalformedGetCapabilityCmdSize

/-- The malformed command states its size. -/
theorem malformedCommand_states : States malformedCommand tpmMalformedGetCapabilityCmdSize :=
  ⟨by decide, by decide⟩

/-- The platform's TPM answers the commands of the tests as they expect. -/
structure Answers (pal : Pal σ) : Prop where
  getCapability : Responds pal getCapability tpmGetCapabilityCmdSize 0
  unsupported : Responds pal tpmPrepareUnsupportedCommand 10 0x143
  malformed : Responds pal malformedCommand tpmMalformedGetCapabilityCmdSize (0x9a + 0x40 + 0x300)

/-- CTRL_START of a command that has been answered. -/
theorem readStopped_returns {rc : ℕ} :
    Returns f pal (At f φ granted e (Answered rc)) readStarted false (At f φ granted e (Answered rc)) := by
  refine (readStarted_returns (c := 0) (D := fun c d => Answered rc c d)).mono
    (fun _ hx => hx.imp fun _ _ hd => ⟨hd.1, hd⟩) fun _ hx => hx.imp fun _ _ hd => hd.2

/-- CTRL_START of a command that has been placed. -/
theorem readPlaced_returns {cmd : ℕ → UInt8} {size : ℕ} :
    Returns f pal (At f φ granted e (Placed cmd size)) readStarted true
      (At f φ granted e (Placed cmd size)) :=
  readStarted_returns

/-- The response of a command is read and its code is used. -/
theorem Returns.response {rc : ℕ} {next : Option (ℕ × ℕ) → Client α} {a : α}
    (hnext : ∀ n, Returns f pal (At f φ granted e (Answered rc)) (next (some (n, rc))) a Q) :
    Returns f pal (At f φ granted e (Answered rc)) (readResponse >>= next) a Q := by
  refine Program.Spec.bind readResponse_returns fun rsp => .assume ?_
  rintro ⟨n, rfl⟩
  exact hnext n

/-- A command of the active locality is executed. -/
theorem startCommandClient_ends (hpal : Answers pal) : Ends f pal startCommandClient .success := by
  refine valTpmGetEndpointIds_returns.bind (.skip (by decide) ?_)
  refine .guard sendLocality_grants (by decide) (.guard readGranted_returns (by decide) ?_)
  refine (placeCommand_returns (by decide)).bind ?_
  refine .guard (sendStart_executes getCapability_states hpal.getCapability) (by decide) ?_
  refine .guard readStopped_returns (by decide) (.response fun _ => .skip (by decide) ?_)
  refine .guard relinquish_returns (by decide) (.guard readGranted_returns (by decide) ?_)
  exact .pure fun _ hx => hx.clean

/-- A command that the TPM refuses has a response with its code. -/
theorem tpmRunInvalidCommand_returns {cmd : ℕ → UInt8} {size rc : ℕ} (hsize : size ≤ crbDataBufferSize)
    (hcmd : States cmd size) (hpal : Responds pal cmd size rc) : Returns f pal (At f .unregistered true e D)
      (tpmRunInvalidCommand f.clientId f.tpmSpId cmd size rc) .success
      (At f .unregistered true e anyData) := by
  refine (copyToDataBuffer_returns le_rfl).bind ((placeCommand_returns hsize).bind ?_)
  refine .guard (sendStart_executes hcmd hpal) (by decide) (.guard readStopped_returns (by decide) ?_)
  refine .response fun _ => .skip (not_not.mpr rfl) ?_
  exact .pure fun _ hx => hx.imp fun _ _ _ => trivial

/-- Two commands that the TPM refuses. -/
theorem startCommandInvalidBufferClient_ends (hpal : Answers pal) :
    Ends f pal startCommandInvalidBufferClient .success := by
  have hunsupported : Returns f pal (At f .unregistered true idle anyData)
      (tpmRunInvalidCommand f.clientId f.tpmSpId tpmPrepareUnsupportedCommand 10 0x143) .success
      (At f .unregistered true idle anyData) :=
    tpmRunInvalidCommand_returns (by decide) unsupportedCommand_states hpal.unsupported
  have hmalformed : Returns f pal (At f .unregistered true idle anyData)
      (tpmRunInvalidCommand f.clientId f.tpmSpId malformedCommand tpmMalformedGetCapabilityCmdSize
        (0x9a + 0x40 + 0x300)) .success (At f .unregistered true idle anyData) :=
    tpmRunInvalidCommand_returns (by decide) malformedCommand_states hpal.malformed
  refine valTpmGetEndpointIds_returns.bind (.skip (by decide) ?_)
  refine .guard sendLocality_grants (by decide) (.guard readGranted_returns (by decide) ?_)
  refine .guard hunsupported (by decide) (.guard hmalformed (by decide) ?_)
  refine .guard relinquish_returns (by decide) (.guard readGranted_returns (by decide) ?_)
  exact .pure fun _ hx => hx

/-- A command for a locality that does not exist. -/
theorem startCommandInvalidLocalityClient_ends :
    Ends f pal startCommandInvalidLocalityClient .success := by
  refine valTpmGetEndpointIds_returns.bind (.skip (by decide) ?_)
  refine (placeCommand_returns (by decide)).bind ?_
  refine (request_returns .invarg fun _ _ => ⟨rfl, rfl⟩).bind ?_
  refine writeCtrlStart_returns.bind (.skip (by decide) ?_)
  exact .pure fun _ hx => hx.clean

/-- The command is still in the data buffer. -/
theorem getCapability_unchanged {d : ℕ → UInt8} (hd : Holds getCapability tpmGetCapabilityCmdSize d) :
    ∀ i ∈ getCapabilityBytes, d i = getCapability i := by
  intro i hi
  refine hd i ?_
  obtain ⟨k, hk, rfl⟩ := List.mem_take_iff_getElem.mp hi
  simp at hk ⊢
  omega

/-- Neither a command without CTRL_START nor one of a locality that is not active is executed. -/
theorem startCommandNoExecuteClient_ends : Ends f pal startCommandNoExecuteClient .success := by
  refine valTpmGetEndpointIds_returns.bind (.skip (by decide) ?_)
  refine .guard sendLocality_grants (by decide) (.guard readGranted_returns (by decide) ?_)
  -- first without CTRL_START
  refine (copyToDataBuffer_returns (by decide)).bind (writeCtrlStart_returns.bind ?_)
  refine .guard (sendStart_ignored (.inr fun c d hd => by rw [hd.1]; decide)) (by decide) ?_
  refine ctrlStart_returns.bind (.skip (by decide) ?_)
  refine .guard (tpmBufferMatches_returns _ fun c d hd => getCapability_unchanged
    (hd.2.elim fun _ h => h)) (by decide) ?_
  -- then without the locality
  refine .guard relinquish_returns (by decide) (.guard readGranted_returns (by decide) ?_)
  refine (placeCommand_returns (by decide)).bind ?_
  refine .guard (sendStart_ignored (.inl rfl)) (by decide) (.guard readGranted_returns (by decide) ?_)
  refine .guard readPlaced_returns (by decide) ?_
  refine .guard (tpmBufferMatches_returns _ fun c d hd => getCapability_unchanged hd.2) (by decide) ?_
  refine writeCtrlStart_returns.bind ?_
  exact .pure fun _ hx => hx.clean

/-! ## Tests of notifications -/

/-- What is held for the client once the bitmap is bound. -/
def Setup.bound (f : Setup) (handler : Bool) : Held := ⟨f.build.hasBitmap, true, handler, false, false, false⟩

/-- The context after the cleanup. -/
def Setup.cleared (f : Setup) (sri : Bool) : Context :=
  { f.context false false false sri false with sriRegistered := false }

/-- Notifications are supported, and the notification is bound. -/
theorem setUp_returns (hsupported : f.supported = true) :
    Returns f pal (At f .unregistered granted idle D)
      (setUp f.build (f.context false false false false false))
      (.success, f.context f.build.hasBitmap true false false false)
      (At f .unregistered granted (f.bound false) D) := by
  have hfeature : Returns f pal (At f .unregistered granted idle D)
      (valTpmNotificationFeatureSupported f.clientId f.tpmSpId) .success
      (At f .unregistered granted idle D) := by
    have h : Returns f pal (At f .unregistered granted idle D)
        (valTpmNotificationFeatureSupported f.clientId f.tpmSpId) _ (At f .unregistered granted idle D) :=
      valTpmNotificationFeatureSupported_returns f pal
    rwa [hsupported] at h
  refine hfeature.bind (.skip (by decide) (.skip (by decide) ?_))
  refine (valTpmNotificationCreateBitmap_returns rfl).bind (.skip (by decide) (.skip (by decide) ?_))
  refine (valTpmNotificationBind_returns rfl rfl).bind (.skip (by decide) (.skip (by decide) ?_))
  exact .pure fun _ hx => hx

/-- Notifications are not supported. -/
theorem setUp_skips (hsupported : f.supported = false) {ctx : Context}
    (hctx : ctx.clientId = f.clientId ∧ ctx.tpmSpId = f.tpmSpId) :
    Returns f pal (At f φ granted e D) (setUp f.build ctx) (.skipCheck, ctx) (At f φ granted e D) := by
  have hfeature : Returns f pal (At f φ granted e D)
      (valTpmNotificationFeatureSupported ctx.clientId ctx.tpmSpId) .skipCheck (At f φ granted e D) := by
    rw [hctx.1, hctx.2]
    have h : Returns f pal (At f φ granted e D)
        (valTpmNotificationFeatureSupported f.clientId f.tpmSpId) _ (At f φ granted e D) :=
      valTpmNotificationFeatureSupported_returns f pal
    rwa [hsupported] at h
  exact hfeature.bind (.take rfl (.pure fun _ hx => hx))

/-- The phase of a client that is registered, or is not. -/
def Setup.phase (f : Setup) (registered : Bool) : Phase :=
  if registered then .registered f.registration else .unregistered

/-- The registration ends, if there is one. -/
theorem unregisterIfRegistered_returns {c b r sri en : Bool} (hsupported : f.supported = true) :
    Returns f pal (At f (f.phase r) granted e D) (unregisterIfRegistered (f.context c b r sri en))
      (.success, f.context c b false sri en) (At f .unregistered granted e D) := by
  cases r with
  | false => exact .skip (by change ¬false = true; decide) (.pure fun _ hx => hx)
  | true => exact .take rfl (valTpmNotificationUnregister_returns hsupported)

/-- The notification is unbound. -/
theorem unbindIfBound_returns {c r sri en : Bool} (he : e.bound = true) (hpending : e.pending = false) :
    Returns f pal (At f φ granted e D) (unbindIfBound (f.context c true r sri en))
      (.success, f.context c false r sri en) (At f φ granted { e with bound := false } D) := by
  refine .take rfl (Program.Spec.bind (issue_gives (fun h => { h with bound := false }) (fun _ _ => rfl)
    (fun _ => rfl) fun y hy => f.unbind y (hy.bound.trans he) (hy.pending.trans hpending)) fun payload =>
    .assume fun hpayload => ?_)
  rw [if_neg hpayload]
  exact Returns.pure fun _ hx => hx

/-- The bitmap is destroyed, where the build has one. -/
theorem destroyIfCreated_returns {b r sri en : Bool} (he : e.bitmap = f.build.hasBitmap)
    (hbound : e.bound = false) :
    Returns f pal (At f φ granted e D) (destroyIfCreated f.build (f.context f.build.hasBitmap b r sri en))
      (.success, f.context false b r sri en) (At f φ granted { e with bitmap := false } D) := by
  rw [destroyIfCreated]
  cases hbitmap : f.build.hasBitmap with
  | false =>
    refine .skip (fun h => Bool.false_ne_true h.1) (.pure fun x hx => ?_)
    rwa [← hbitmap, ← he]
  | true =>
    have hdestroy : Returns f pal (At f φ granted e D) (valTpmNotificationBitmapDestroy f.clientId) .success
        (At f φ granted { e with bitmap := false } D) := by
      refine Program.Spec.bind (issue_gives (fun h => { h with bitmap := false }) (fun _ _ => rfl)
        (fun _ => rfl) fun y hy => f.bitmapDestroy y (hy.bitmap.trans (he.trans hbitmap))
          (hy.bound.trans hbound)) fun payload => .assume fun hpayload => ?_
      rw [if_neg hpayload]
      exact Returns.pure fun _ hx => hx
    exact .take ⟨rfl, rfl⟩ (hdestroy.bind (.pure fun _ hx => hx))

/-- The handler of the interrupt is unregistered, if there is one. -/
theorem unregisterHandlerIfRegistered_returns {sri : Bool} (hsri : sri = true → f.build.hasSri = true)
    (he : e.handler = sri) : Returns f pal (At f φ granted e D)
      (unregisterHandlerIfRegistered f.build (f.context false false false sri false))
      (.success, f.cleared sri) (At f φ granted { e with handler := false } D) := by
  rw [unregisterHandlerIfRegistered]
  cases sri with
  | false =>
    refine .skip (fun h => Bool.false_ne_true h.2) (.pure fun x hx => ?_)
    rwa [← he]
  | true =>
    refine .take ⟨hsri rfl, rfl⟩ (Program.Spec.bind (issue_gives (fun h => { h with handler := false })
      (fun _ _ => rfl) (fun _ => rfl) fun y hy => f.irqUnregister y (hy.handler.trans he)) fun answer =>
      .assume ?_)
    rintro rfl
    exact Returns.pure fun _ hx => hx

/-- The cleanup releases all that a test has acquired. -/
theorem valTpmNotificationCleanup_returns {r sri : Bool} (hsupported : f.supported = true)
    (hsri : sri = true → f.build.hasSri = true) : Returns f pal (At f (f.phase r) granted (f.bound sri) D)
      (valTpmNotificationCleanup f.build (f.context f.build.hasBitmap true r sri false))
      (.success, f.cleared sri) (At f .unregistered granted idle D) := by
  have hdisable : Returns f pal (At f (f.phase r) granted (f.bound sri) D)
      (disableIfEnabled f.build (f.context f.build.hasBitmap true r sri false))
      (f.context f.build.hasBitmap true r sri false) (At f (f.phase r) granted (f.bound sri) D) :=
    .skip (fun h => Bool.false_ne_true h.2) (.pure fun _ hx => hx)
  refine hdisable.bind ((unregisterIfRegistered_returns hsupported).bind ?_)
  refine (unbindIfBound_returns rfl rfl).bind ((destroyIfCreated_returns rfl rfl).bind ?_)
  refine (unregisterHandlerIfRegistered_returns hsri rfl).bind ?_
  exact .pure fun _ hx => hx

/-- The same after a test that has ended its registration itself. -/
theorem cleanUp_unregistered {sri : Bool} (hsupported : f.supported = true)
    (hsri : sri = true → f.build.hasSri = true) :
    Returns f pal (At f .unregistered granted (f.bound sri) D)
      (valTpmNotificationCleanup f.build (f.context f.build.hasBitmap true false sri false))
      (.success, f.cleared sri) (At f .unregistered granted idle D) :=
  valTpmNotificationCleanup_returns (r := false) hsupported hsri

/-- What the notification tests return. -/
def Setup.verdict (f : Setup) : Verdict := if f.supported then .success else .skipCheck

/-- A test whose body succeeds. -/
theorem notificationTest_ends {body : Context → Client (Verdict × Context)} {n : ℕ} {r : Bool}
    (hbody : f.supported = true → Returns f pal (At f .unregistered false (f.bound false) anyData)
      (body (f.context f.build.hasBitmap true false false false))
      (.success, f.context f.build.hasBitmap true r false false)
      (At f (f.phase r) false (f.bound false) anyData)) :
    Ends f pal (notificationTest f.build body n) f.verdict := by
  refine valTpmNotificationInit_returns.bind (.skip (by decide) ?_)
  cases hsupported : f.supported with
  | false =>
    rw [Setup.verdict, hsupported]
    exact (setUp_skips hsupported ⟨rfl, rfl⟩).bind (.take (by decide) (.pure fun _ hx => hx))
  | true =>
    rw [Setup.verdict, hsupported]
    refine (setUp_returns hsupported).bind (.skip (by decide) ?_)
    refine (hbody hsupported).bind ?_
    refine (valTpmNotificationCleanup_returns hsupported fun h => absurd h Bool.false_ne_true).bind ?_
    exact .pure fun _ hx => hx

/-- Three registrations with invalid arguments. -/
theorem registerNotificationInvalidClient_ends :
    Ends f pal (registerNotificationInvalidClient f.build) f.verdict := by
  refine notificationTest_ends (r := false) fun _ => ?_
  refine (registerInvalid_returns (by decide) (by decide)).bind (.skip (by decide) ?_)
  refine (registerInvalid_returns (by decide) (by decide)).bind (.skip (by decide) ?_)
  refine (registerInvalid_returns (by decide) (by decide)).bind (.skip (by decide) ?_)
  exact .pure fun _ hx => hx

/-- A second registration is refused. -/
theorem registerNotificationDuplicateClient_ends :
    Ends f pal (registerNotificationDuplicateClient f.build) f.verdict := by
  refine notificationTest_ends (r := true) fun hsupported => ?_
  refine (registerNotification_returns hsupported).bind (.skip (by decide) ?_)
  refine (registerAgain_returns hsupported).bind (.skip (by decide) ?_)
  exact .pure fun _ hx => hx

/-- FINISH_NOTIFIED without a notification is denied. -/
theorem finishNotifiedNoNotificationClient_ends :
    Ends f pal (finishNotifiedNoNotificationClient f.build) f.verdict := by
  refine notificationTest_ends (r := true) fun hsupported => ?_
  refine (registerNotification_returns hsupported).bind (.skip (by decide) ?_)
  refine .guard (finishDenied_returns hsupported) (by decide) ?_
  exact .pure fun _ hx => hx

/-- A client that is not registered cannot be unregistered. -/
theorem unregisterNotificationDeniedClient_ends :
    Ends f pal unregisterNotificationDeniedClient f.verdict := by
  refine valTpmNotificationInit_returns.bind (.skip (by decide) ?_)
  refine (valTpmNotificationFeatureSupported_returns f pal).bind ?_
  cases hsupported : f.supported with
  | false =>
    rw [Setup.verdict, hsupported]
    exact .take rfl (.pure fun _ hx => hx)
  | true =>
    rw [Setup.verdict, hsupported]
    refine .skip (by decide) (.skip (by decide) ?_)
    refine (unregisterDenied_returns hsupported).bind (.skip (by decide) ?_)
    exact .pure fun _ hx => hx

/-- A client that is no longer registered is not notified. -/
theorem notificationAfterUnregisterBody_returns (hsupported : f.supported = true) :
    Returns f pal (At f .unregistered false (f.bound false) D)
      (notificationAfterUnregisterBody (f.context f.build.hasBitmap true false false false))
      (.success, f.context f.build.hasBitmap true false false false)
      (At f .unregistered false (f.bound false) D) := by
  refine (registerNotification_returns hsupported).bind (.skip (by decide) ?_)
  refine (valTpmNotificationUnregister_returns hsupported).bind (.skip (by decide) ?_)
  refine .guard sendLocality_grants (by decide) (.guard readGranted_returns (by decide) ?_)
  refine .guard valTpmCheckPendingNotification_returns (by decide) ?_
  refine .guard sendLocality_relinquishes (by decide) ?_
  exact .pure fun _ hx => hx

/-- The same, with its setup and its cleanup. -/
theorem notificationAfterUnregisterClient_ends :
    Ends f pal (notificationAfterUnregisterClient f.build) f.verdict := by
  refine writeLocCtrl_keeps.bind (valTpmNotificationInit_returns.bind (.skip (by decide) ?_))
  cases hsupported : f.supported with
  | false =>
    rw [Setup.verdict, hsupported]
    exact (setUp_skips hsupported ⟨rfl, rfl⟩).bind (.take (by decide) (.pure fun _ hx => hx))
  | true =>
    rw [Setup.verdict, hsupported]
    refine (setUp_returns hsupported).bind (.skip (by decide) ?_)
    refine (notificationAfterUnregisterBody_returns hsupported).bind ?_
    refine (cleanUp_unregistered hsupported fun h => absurd h Bool.false_ne_true).bind ?_
    refine .guard readGranted_returns (by decide) ?_
    exact .pure fun _ hx => hx

/-! ## Tests with an interrupt -/

/-- The handler of the interrupt is registered, and the notification is bound. -/
theorem interruptSetUp_returns {undo : Context → Client Unit} {n : ℕ} :
    Returns f pal (At f .unregistered granted idle D)
      (interruptSetUp f.build undo n (f.context false false false false false))
      (.success, f.context f.build.hasBitmap true false f.build.hasSri false)
      (At f .unregistered granted (f.bound f.build.hasSri) D) := by
  refine (valTpmNotificationSetupInterrupt_returns rfl).bind (.skip (by decide) ?_)
  refine (valTpmNotificationCreateBitmap_returns rfl).bind (.skip (by decide) ?_)
  refine (valTpmNotificationBind_returns rfl rfl).bind (.skip (by decide) ?_)
  exact .pure fun _ hx => hx

/-- What is held for the client while it waits for its notification. -/
def Setup.awaiting (f : Setup) : Held := { f.bound f.build.hasSri with enabled := f.build.hasSri }

/-- The interrupt has been taken by the time the client looks for it. -/
theorem awaiting_seen (f : Setup) (hsri : f.build.hasSri = true) : f.awaiting.notified.seen = true := by
  simp [Held.notified, Setup.awaiting, Setup.bound, hsri]

/-- A locality request is deferred until the client has seen its notification. -/
theorem notificationStartLocalityBody_returns (hsupported : f.supported = true) :
    Returns f pal (At f .unregistered false (f.bound f.build.hasSri) D)
      (notificationStartLocalityBody f.build (f.context f.build.hasBitmap true false f.build.hasSri false))
      (.success, f.context f.build.hasBitmap true false f.build.hasSri false)
      (At f .unregistered false (f.bound f.build.hasSri) D) := by
  refine (registerNotification_returns hsupported).bind (.skip (by decide) ?_)
  refine (valTpmNotificationPrepareInterrupt_returns rfl).bind (.skip (by decide) ?_)
  refine .guard (sendLocality_defers hsupported rfl) (by decide) ?_
  -- the notification arrives
  refine (valTpmNotificationCompleteInterrupt_returns rfl (awaiting_seen f.toSetup)).bind ?_
  refine .skip (by decide) (.guard valTpmCheckPendingNotification_returns (by decide) ?_)
  -- the request takes effect with FINISH_NOTIFIED only
  refine .guard readGranted_returns (by decide) ?_
  refine .guard (finishLocality_returns hsupported) (by decide) (.guard readGranted_returns (by decide) ?_)
  refine (valTpmNotificationUnregister_returns hsupported).bind (.skip (by decide) ?_)
  refine .guard sendLocality_relinquishes (by decide) (.guard readGranted_returns (by decide) ?_)
  exact .pure fun _ hx => hx.forget

/-- There is nothing to clean up. -/
theorem cleanUp_fresh : Returns f pal (At f φ granted e D)
    (cleanUp f.build (f.context false false false false false)) () (At f φ granted e D) := by
  refine Returns.bind (a := (.success, f.context false false false false false))
    (Q := At f φ granted e D) ?_ (.pure fun _ hx => hx)
  refine Returns.bind (.skip (fun h => Bool.false_ne_true h.2) (.pure fun _ hx => hx)) ?_
  refine Returns.bind (.skip (by change ¬false = true; decide) (.pure fun _ hx => hx)) ?_
  refine Returns.bind (.skip (by change ¬false = true; decide) (.pure fun _ hx => hx)) ?_
  refine Returns.bind (.skip (fun h => Bool.false_ne_true h.2) (.pure fun _ hx => hx)) ?_
  refine Returns.bind (.skip (fun h => Bool.false_ne_true h.2) (.pure fun _ hx => hx)) ?_
  exact .pure fun _ hx => hx

/-- The same, with its setup and its cleanup. -/
theorem notificationStartLocalityClient_ends :
    Ends f pal (notificationStartLocalityClient f.build) f.verdict := by
  refine writeLocCtrl_keeps.bind (valTpmNotificationInit_returns.bind (.skip (by decide) ?_))
  refine (valTpmNotificationFeatureSupported_returns f pal).bind ?_
  cases hsupported : f.supported with
  | false =>
    rw [Setup.verdict, hsupported]
    exact .take (by decide) (cleanUp_fresh.bind (.pure fun _ hx => hx))
  | true =>
    rw [Setup.verdict, hsupported]
    refine .skip (by decide) (interruptSetUp_returns.bind (.skip (by decide) ?_))
    refine (notificationStartLocalityBody_returns hsupported).bind ?_
    refine (cleanUp_unregistered hsupported id).bind ?_
    refine Returns.bind (.guard readGranted_returns (by decide) (.pure fun _ hx => hx)) ?_
    exact .pure fun _ hx => hx

/-- A command is deferred until the client has seen its notification. -/
theorem notificationStartCommandBody_returns (hpal : Answers pal) (hsupported : f.supported = true) :
    Returns f pal (At f .unregistered true (f.bound f.build.hasSri) D)
      (notificationStartCommandBody f.build (f.context f.build.hasBitmap true false f.build.hasSri false))
      (.success, f.context f.build.hasBitmap true false f.build.hasSri false)
      (At f .unregistered true (f.bound f.build.hasSri) (Answered 0)) := by
  refine (registerNotification_returns hsupported).bind (.skip (by decide) ?_)
  refine (valTpmNotificationPrepareInterrupt_returns rfl).bind (.skip (by decide) ?_)
  refine (placeCommand_returns (by decide)).bind ?_
  refine .guard (sendStart_defers getCapability_states hsupported rfl) (by decide) ?_
  -- the command is saved in the service
  refine .exists fun buffer hbuffer => .guard readPlaced_returns (by decide) ?_
  refine (valTpmNotificationCompleteInterrupt_returns rfl (awaiting_seen f.toSetup)).bind ?_
  refine .skip (by decide) (.guard valTpmCheckPendingNotification_returns (by decide) ?_)
  -- it is executed with FINISH_NOTIFIED only
  refine .guard (finishCommand_returns hbuffer hpal.getCapability hsupported) (by decide) ?_
  refine .guard readStopped_returns (by decide) (.response fun _ => .skip (by decide) ?_)
  refine (valTpmNotificationUnregister_returns hsupported).bind (.skip (by decide) ?_)
  exact .pure fun _ hx => hx.forget

/-- The locality is given back at the end of the test. -/
theorem stopAtEnd_returns {ctx : Context} (hctx : ctx.clientId = f.clientId ∧ ctx.tpmSpId = f.tpmSpId) :
    Returns f pal (At f .unregistered true e (Answered 0)) (stopAtEnd ctx .success) .success
      (At f .unregistered false e (Answered 0)) := by
  rw [stopAtEnd, hctx.1, hctx.2]
  refine .guard readStopped_returns (by decide) ?_
  refine .guard relinquish_returns (by decide) (.guard readGranted_returns (by decide) ?_)
  exact .pure fun _ hx => hx

/-- The same, with its setup and its cleanup. -/
theorem notificationStartCommandClient_ends (hpal : Answers pal) :
    Ends f pal (notificationStartCommandClient f.build) f.verdict := by
  refine valTpmNotificationInit_returns.bind (.skip (by decide) ?_)
  refine (valTpmNotificationFeatureSupported_returns f pal).bind ?_
  cases hsupported : f.supported with
  | false =>
    rw [Setup.verdict, hsupported]
    exact .take (by decide) (cleanUp_fresh.bind (.pure fun _ hx => hx))
  | true =>
    rw [Setup.verdict, hsupported]
    refine .skip (by decide) ?_
    refine .guard sendLocality_grants (by decide) (.guard readGranted_returns (by decide) ?_)
    refine interruptSetUp_returns.bind (.skip (by decide) ?_)
    refine (notificationStartCommandBody_returns hpal hsupported).bind ?_
    refine (cleanUp_unregistered hsupported id).bind ?_
    refine (stopAtEnd_returns ⟨rfl, rfl⟩).bind ?_
    exact .pure fun _ hx => hx.clean

/-! ## The suite -/

/-- What a test returns. -/
def TpmTest.expected (f : Setup) : TpmTest → Verdict
  | registerNotificationInvalid | registerNotificationDuplicate | finishNotifiedNoNotification
  | unregisterNotificationDenied | notificationAfterUnregister | notificationStartLocality
  | notificationStartCommand => f.verdict
  | _ => .success

/-- Each test ends as it should. -/
theorem TpmTest.client_ends (hpal : Answers pal) (test : TpmTest) :
    Ends f pal (test.client f.build) (test.expected f.toSetup) := by
  cases test with
  | getInterfaceVersion => exact getInterfaceVersionClient_ends
  | getFeatureInfo => exact getFeatureInfoClient_ends
  | getFeatureInfoInvalid => exact getFeatureInfoInvalidClient_ends
  | unknownFunctionId => exact tpmCrbUnknownFunctionIdClient_ends
  | startLocalityFlow => exact startLocalityFlowClient_ends
  | startLocalityCtrlData => exact startLocalityCtrlDataClient_ends
  | startLocalityInvalidArgs => exact startLocalityInvalidArgsClient_ends
  | startLocalityRelinquishInactive => exact startLocalityRelinquishInactiveClient_ends
  | startCommand => exact startCommandClient_ends hpal
  | startCommandInvalidBuffer => exact startCommandInvalidBufferClient_ends hpal
  | startCommandInvalidLocality => exact startCommandInvalidLocalityClient_ends
  | startCommandNoExecute => exact startCommandNoExecuteClient_ends
  | registerNotificationInvalid => exact registerNotificationInvalidClient_ends
  | registerNotificationDuplicate => exact registerNotificationDuplicateClient_ends
  | finishNotifiedNoNotification => exact finishNotifiedNoNotificationClient_ends
  | unregisterNotificationDenied => exact unregisterNotificationDeniedClient_ends
  | notificationAfterUnregister => exact notificationAfterUnregisterClient_ends
  | notificationStartLocality => exact notificationStartLocalityClient_ends
  | notificationStartCommand => exact notificationStartCommandClient_ends hpal

/-- One test after the other. -/
theorem suite_returns (f : Surrounded ε) (hpal : Answers pal) (tests : List TpmTest) :
    Returns f pal (Clean f) (suite f.build tests) (tests.map (TpmTest.expected f.toSetup)) (Clean f) := by
  induction tests with
  | nil => exact .pure fun _ hx => hx
  | cons test rest ih => exact (test.client_ends hpal).bind (ih.bind (.pure fun _ hx => hx))

/-- A service that has just started is clean. -/
theorem clean_initial {m : ByteMemory} (hm : Tpm.granted m tpmTestLocality = false) (tpm : σ) {y : ε}
    (hy : idle.Within (f.held y)) : Clean f (Model.initial m tpm, y) := by
  refine ⟨rfl, rfl, ?_, hy, trivial⟩
  rw [Tpm.granted, decide_eq_false_iff_not] at hm
  exact iff_of_false hm Bool.false_ne_true

/-- Any tests in any order, run against the service from its start, in any surroundings that do what the
tests rely on and hold nothing for the client: each test succeeds, or is skipped if it needs notifications
and there are none. Afterwards no locality is active, no client is registered, the test's locality is not
granted, and nothing is held for the client. -/
theorem suite_passes (f : Surrounded ε) (pal : Pal σ) (hpal : Answers pal) (m : ByteMemory)
    (hm : Tpm.granted m tpmTestLocality = false) (tpm : σ) (y : ε) (hy : idle.Within (f.held y))
    (tests : List TpmTest) :
    let run := (suite f.build tests).run (attach (serviceMachine pal) f.around) (Service.start m tpm, y)
    run.1 = tests.map (TpmTest.expected f.toSetup) ∧ run.2.1.active > crbLocalityMax ∧
      run.2.1.notif = .cleared ∧ Tpm.granted run.2.1.mem tpmTestLocality = false ∧
      idle.Within (f.held run.2.2) := by
  obtain ⟨hverdicts, hstate, haround⟩ := ((serviceMachine_simulates pal).attach f.around).run
    (suite f.build tests) (s := (Service.start m tpm, y)) (t := (Model.initial m tpm, y))
    ⟨represents_initial m tpm, rfl⟩
  obtain ⟨hexpected, hclean⟩ := suite_returns f hpal tests _ (clean_initial hm tpm hy)
  refine ⟨hverdicts.trans hexpected, ?_, ?_, ?_, haround ▸ hclean.held⟩
  · rw [hstate.active, activeNumber_gt_iff]
    exact hclean.active
  · have hphase := hstate.phase
    rwa [hclean.phase] at hphase
  · rw [Tpm.granted, decide_eq_false_iff_not]
    intro hgranted
    refine Bool.false_ne_true (hclean.locSts.mp ?_)
    rw [← hstate.regs]
    exact hgranted

end

/-! ## A relayer -/

/-- A response that is only a header. -/
def responseHeader (rc : ℕ) : ℕ → UInt8 :=
  valTpmBe32Write (valTpmBe32Write (valTpmBe16Write (fun _ => 0) 0 tpm2StNoSessions) 2 tpmRspHeaderSize) 6 rc

/-- The response code of a TPM that implements `TPM2_GetCapability` and nothing else. -/
def capabilityCode (size : ℕ) (cmd : ℕ → UInt8) : ℕ :=
  if valTpmBe32Read cmd 6 ≠ 0x17a then 0x143
  else if size < tpmGetCapabilityCmdSize then 0x9a + 0x40 + 0x300
  else 0

/-- That TPM. -/
def capabilityPal : Pal Unit := fun _ size cmd =>
  (⟨true, some (responseHeader (capabilityCode size cmd)), tpmRspHeaderSize⟩, ())

/-- That TPM answers with its response code. -/
theorem capabilityPal_responds {cmd : ℕ → UInt8} {size rc : ℕ} (hlong : 10 ≤ size)
    (hshort : size ≤ crbDataBufferSize)
    (hrc : capabilityCode size cmd = rc)
    (hheader : valTpmValidateResponseHeader (responseHeader rc) crbDataBufferSize =
      some (tpmRspHeaderSize, rc)) :
    Responds capabilityPal cmd size rc := by
  intro tpm buffer hbuffer
  have hcode : capabilityCode size buffer = rc := by
    rw [← hrc, capabilityCode, capabilityCode, valTpmBe32Read, valTpmBe32Read, hbuffer 6 (by omega),
      hbuffer (6 + 1) (by omega), hbuffer (6 + 2) (by omega), hbuffer (6 + 3) (by omega)]
  refine ⟨⟨responseHeader rc, tpmRspHeaderSize, valTpmBe32Read (responseHeader rc) 6, by decide⟩, ?_,
    le_rfl, _, hheader⟩
  rw [execute, if_neg (Nat.not_lt.mpr hshort), capabilityPal, hcode]
  rfl

/-- That TPM answers the commands of the tests. -/
theorem capabilityPal_answers : Answers capabilityPal where
  getCapability := capabilityPal_responds (by decide) (by decide) (by decide) (by decide)
  unsupported := capabilityPal_responds (by decide) (by decide) (by decide) (by decide)
  malformed := capabilityPal_responds (by decide) (by decide) (by decide) (by decide)

/-- `FFA_SUCCESS_32`. -/
def ffaSuccess32 : ℕ := 0x84000061

/-- A relayer and an interrupt controller that keep what is held for the client, and no more. -/
structure Relayer extends Setup where
  delaySri : Bool

namespace Relayer

/-- A call that has succeeded. -/
def success : Args := { Args.zero with fid := ffaSuccess32 }

/-- Success is not an error. -/
theorem success_ne_error : success.fid ≠ ffaError32 := by decide

/-- A call that has failed with this error. -/
def failure (error : ℕ) : Args := { Args.zero with fid := ffaError32, arg2 := error }

/-- The error of a call that is denied. -/
def denied : ℕ := 0xfffffffa

/-- An FF-A call of the client. -/
def call (f : Relayer) (e : Held) : FfaCall → Args × Held
  | .notificationBitmapCreate =>
    if e.bitmap then (failure denied, e) else (success, { e with bitmap := true })
  | .notificationBitmapDestroy =>
    if e.bitmap ∧ e.bound = false then (success, { e with bitmap := false }) else (failure denied, e)
  | .notificationBind =>
    if (e.bitmap ∨ f.build.hypervisor) ∧ e.bound = false then (success, { e with bound := true })
    else (failure denied, e)
  | .notificationUnbind =>
    if e.bound ∧ e.pending = false then (success, { e with bound := false }) else (failure denied, e)
  | .notificationGet =>
    (if e.pending then { success with arg2 := valTpmNotificationBitmap } else failure ffaErrorNodata,
      { e with pending := false })
  | .features => ({ success with arg2 := f.sriId }, e)

/-- The commands of the client that do not reach the service. -/
def handle (f : Relayer) : Handler outside Held
  | .ids, e => (some (f.clientId, f.tpmSpId), e)
  | .ffa call _, e => f.call e call
  | .irqRegister _, e => if e.handler then (false, e) else (true, { e with handler := true })
  | .irqUnregister _, e => (e.handler, { e with handler := false })
  | .irqEnable _ _, e => ((), { e with enabled := true })
  | .irqDisable _, e => ((), { e with enabled := false })
  | .sriClear, e => ((), { e with seen := false })
  | .sriSeen, e => (e.seen, e)
  | .write _, e => ((), e)
  | .locSts _, e | .ctrlStart _, e => ((0 : ℕ), e)
  | .data _ _, e => ((0 : UInt8), e)
  | .direct _, e => (failure denied, e)

/-- A notification is set. -/
def observe (e : Held) : Event → Held
  | .notificationSet .. => e.notified
  | _ => e

/-- The service can set a notification that is bound. -/
def env (f : Relayer) (e : Held) : Env := ⟨f.supported, e.bound, f.delaySri, 0⟩

/-- The relayer and the interrupt controller as surroundings. -/
def surroundings (f : Relayer) : Surroundings Held where
  handle := f.handle
  deliver e _ := some (f.env e)
  observe e events := events.foldl observe e

/-- They do what the tests rely on. -/
def surrounded (f : Relayer) : Surrounded Held where
  toSetup := f.toSetup
  around := f.surroundings
  held := id
  env e _ := f.env e
  ids e := ⟨rfl, .refl e⟩
  bitmapCreate e he := by
    simp only [Surroundings.Gives, surroundings, handle, call, id_eq] at he ⊢
    rw [if_neg (by rw [he]; decide)]
    exact ⟨success_ne_error, .refl _⟩
  bitmapDestroy e he hbound := by
    simp only [Surroundings.Gives, surroundings, handle, call, id_eq] at he hbound ⊢
    rw [if_pos ⟨he, hbound⟩]
    exact ⟨success_ne_error, .refl _⟩
  bind e he hbound := by
    simp only [Surroundings.Gives, surroundings, handle, call, id_eq] at he hbound ⊢
    rw [if_pos ⟨he, hbound⟩]
    exact ⟨success_ne_error, .refl _⟩
  unbind e he hpending := by
    simp only [Surroundings.Gives, surroundings, handle, call, id_eq] at he hpending ⊢
    rw [if_pos ⟨he, hpending⟩]
    exact ⟨success_ne_error, .refl _⟩
  get e := by
    simp only [Surroundings.Gives, surroundings, handle, call, id_eq]
    refine ⟨?_, .refl _⟩
    cases e.pending with
    | false => exact .inr ⟨rfl, by decide, rfl⟩
    | true => exact .inl ⟨by decide, by decide⟩
  features e := ⟨⟨success_ne_error, Nat.mod_eq_of_lt f.sriId_lt⟩, .refl _⟩
  irqRegister e he := by
    simp only [Surroundings.Gives, surroundings, handle, id_eq] at he ⊢
    rw [he]
    exact ⟨rfl, .refl _⟩
  irqUnregister e he := ⟨he, .refl _⟩
  irqEnable e := ⟨trivial, .refl _⟩
  irqDisable e := ⟨trivial, .refl _⟩
  sriClear e := ⟨trivial, .refl _⟩
  sriSeen e := ⟨id, .refl _⟩
  deliver _ _ _ _ _ := rfl
  env_supported _ _ := rfl
  env_setSucceeds _ _ hbound := hbound
  observe_quiet e := .refl e
  observe_notification _ _ _ := .refl _

end Relayer

/-- Two endpoints with notifications, and a relayer that delays the interrupt. -/
def notifying : Relayer := ⟨⟨1, 0x8001, by decide, by decide, ⟨false, false⟩, true, 8, by norm_num⟩, true⟩

/-- The tests pass in the surroundings of such a relayer. -/
theorem suite_passes_notifying :
    let f := notifying.surrounded
    let tests := [.notificationStartCommand, .startCommandInvalidBuffer, .notificationStartCommand]
    let run := (suite f.build tests).run (attach (serviceMachine capabilityPal) f.around)
      (Service.start (fun _ => 0) (), idle)
    run.1 = [.success, .success, .success] ∧ run.2.1.active > crbLocalityMax ∧ run.2.1.notif = .cleared ∧
      Tpm.granted run.2.1.mem tpmTestLocality = false ∧ idle.Within (f.held run.2.2) :=
  suite_passes notifying.surrounded capabilityPal capabilityPal_answers (fun _ => 0) (by decide) () idle
    (.refl idle) _

end FfaAcs.Tpm
