import FfaAcs.Tpm.Client

/-!
# The TPM tests

The client functions of the tests of the TPM service, one program each. A test that jumps to its
cleanup has a program for the part before the label and one for the whole. Log messages are left out,
with the reads of registers that only serve them.
-/

namespace FfaAcs.Tpm

open Machine Client

/-- What a test returns: `VAL_SUCCESS`, `VAL_SKIP_CHECK` or `VAL_ERROR_POINT(n)`. -/
inductive Verdict
  | success
  | skipCheck
  | errorPoint (n : ℕ)
deriving DecidableEq, Repr

/-- `TPM_TEST_LOCALITY`. -/
def tpmTestLocality : Locality := 0

/-! ## Parts of the tests -/

/-- LOC_STS of the test's locality has Granted set. -/
def readGranted : Client Bool := do
  let sts ← issue (.locSts tpmTestLocality)
  return sts &&& locStsGranted ≠ 0

/-- CTRL_START of the test's locality is set. -/
def readStarted : Client Bool := do
  let ctrl ← issue (.ctrlStart tpmTestLocality)
  return ctrl &&& crbCtrlStart ≠ 0

/-- Write LOC_CTRL of the test's locality. -/
def writeLocCtrl (v : ℕ) : Client Unit := issue (.write (.locCtrl tpmTestLocality v))

/-- Write CTRL_START of the test's locality. -/
def writeCtrlStart (v : ℕ) : Client Unit := issue (.write (.ctrlStart tpmTestLocality v))

/-- START of a type for the test's locality, which is expected to be accepted. -/
def sendStart (senderId tpmSpId type : ℕ) : Client ValStatus :=
  valTpmSendAndExpect senderId tpmSpId crbStart type (tpmTestLocality : ℕ) 0 CrbStatus.ok.code

/-- Write LOC_CTRL and send START(LOCALITY_REQUEST). -/
def sendLocality (senderId tpmSpId ctrl : ℕ) : Client ValStatus := do
  writeLocCtrl ctrl
  sendStart senderId tpmSpId crbStartTypeLocalityRequest

/-- `val_tpm_relinquish_locality` of the test's locality. -/
def relinquish (senderId tpmSpId : ℕ) : Client ValStatus :=
  valTpmRelinquishLocality senderId tpmSpId tpmTestLocality

/-! ## Queries -/

/-- `get_interface_version_client`. -/
def getInterfaceVersionClient : Client Verdict := do
  let (status, senderId, tpmSpId) ← valTpmGetEndpointIds
  if status ≠ .success then
    return .errorPoint 1
  let payload ← valTpmSendAbi senderId tpmSpId crbGetInterfaceVersion 0 0 0
  if payload.fid ≠ ffaMsgSendDirectResp64 then
    return .errorPoint 3
  if wrap32 payload.arg4 ≠ CrbStatus.okResultsReturned.code then
    return .errorPoint 4
  if wrap32 payload.arg6 ≠ 0 ∨ wrap32 payload.arg7 ≠ 0 then
    return .errorPoint 5
  if wrap32 payload.arg5 >>> 16 ≠ 1 then
    return .errorPoint 6
  -- the minor version of the client is 0
  if wrap32 payload.arg5 &&& 0xffff < 0 then
    return .errorPoint 7
  return .success

/-- `get_feature_info_client`. -/
def getFeatureInfoClient : Client Verdict := do
  let (status, senderId, tpmSpId) ← valTpmGetEndpointIds
  if status ≠ .success then
    return .errorPoint 1
  let payload ← valTpmSendAbi senderId tpmSpId crbGetFeatureInfo crbFeatureNotification 0 0
  if payload.fid ≠ ffaMsgSendDirectResp64 then
    return .errorPoint 3
  if wrap32 payload.arg4 ≠ CrbStatus.ok.code ∧ wrap32 payload.arg4 ≠ CrbStatus.notsup.code then
    return .errorPoint 4
  return .success

/-- `get_feature_info_invalid_client`. -/
def getFeatureInfoInvalidClient : Client Verdict := do
  let (status, senderId, tpmSpId) ← valTpmGetEndpointIds
  if status ≠ .success then
    return .errorPoint 1
  if (← valTpmSendAndExpect senderId tpmSpId crbGetFeatureInfo 0xffffffff 0 0 CrbStatus.invarg.code) ≠
      .success then
    return .errorPoint 2
  return .success

/-- `tpm_crb_unknown_function_id_client`. -/
def tpmCrbUnknownFunctionIdClient : Client Verdict := do
  let (status, senderId, tpmSpId) ← valTpmGetEndpointIds
  if status ≠ .success then
    return .errorPoint 1
  if (← valTpmSendAndExpect senderId tpmSpId 0x0f00ffff 0 0 0 CrbStatus.nofunc.code) ≠ .success then
    return .errorPoint 2
  return .success

/-! ## Localities -/

/-- `start_locality_flow_client` from the request on: the verdict, and `locality_granted`. -/
def startLocalityFlowBody (senderId tpmSpId : ℕ) : Client (Verdict × Bool) := do
  if (← sendLocality senderId tpmSpId locCtrlRequestAccess) ≠ .success then
    return (.errorPoint 4, false)
  if (← readGranted) = false then
    return (.errorPoint 5, true)
  if (← sendLocality senderId tpmSpId locCtrlRequestAccess) ≠ .success then
    return (.errorPoint 6, true)
  if (← readGranted) = false then
    return (.errorPoint 7, true)
  if (← sendLocality senderId tpmSpId locCtrlRelinquish) ≠ .success then
    return (.errorPoint 8, true)
  if (← readGranted) then
    return (.errorPoint 9, false)
  return (.success, false)

/-- `start_locality_flow_client`. -/
def startLocalityFlowClient : Client Verdict := do
  let (status, senderId, tpmSpId) ← valTpmGetEndpointIds
  if status ≠ .success then
    return .errorPoint 1
  writeLocCtrl 0
  if (← relinquish senderId tpmSpId) ≠ .success then
    return .errorPoint 2
  if (← readGranted) then
    return .errorPoint 3
  let (verdict, localityGranted) ← startLocalityFlowBody senderId tpmSpId
  if localityGranted then
    if (← readGranted) then
      if (← sendLocality senderId tpmSpId locCtrlRelinquish) ≠ .success then
        if verdict = .success then
          return .errorPoint 10
  return verdict

/-- `tpm_relinquish_if_granted`. -/
def tpmRelinquishIfGranted (senderId tpmSpId : ℕ) : Client ValStatus := do
  if (← readGranted) = false then
    return .success
  if (← sendLocality senderId tpmSpId locCtrlRelinquish) ≠ .success then
    return .error
  if (← readGranted) then
    return .error
  return .success

/-- `start_locality_ctrl_data_client`. -/
def startLocalityCtrlDataClient : Client Verdict := do
  let (status, senderId, tpmSpId) ← valTpmGetEndpointIds
  if status ≠ .success then
    return .errorPoint 1
  if (← tpmRelinquishIfGranted senderId tpmSpId) ≠ .success then
    return .errorPoint 2
  if (← sendLocality senderId tpmSpId 0) ≠ .success then
    return .errorPoint 3
  if (← readGranted) then
    let _ ← tpmRelinquishIfGranted senderId tpmSpId
    return .errorPoint 4
  if (← sendLocality senderId tpmSpId (locCtrlRequestAccess ||| locCtrlRelinquish)) ≠ .success then
    let _ ← tpmRelinquishIfGranted senderId tpmSpId
    return .errorPoint 5
  if (← tpmRelinquishIfGranted senderId tpmSpId) ≠ .success then
    return .errorPoint 6
  return .success

/-- `start_locality_invalid_args_client`. -/
def startLocalityInvalidArgsClient : Client Verdict := do
  let (status, senderId, tpmSpId) ← valTpmGetEndpointIds
  if status ≠ .success then
    return .errorPoint 1
  if (← valTpmSendAndExpect senderId tpmSpId crbStart crbStartTypeLocalityRequest (crbLocalityMax + 1) 0
      CrbStatus.invarg.code) ≠ .success then
    return .errorPoint 2
  if (← valTpmSendAndExpect senderId tpmSpId crbStart 2 (tpmTestLocality : ℕ) 0
      CrbStatus.invarg.code) ≠ .success then
    return .errorPoint 3
  if (← valTpmSendAndExpect senderId tpmSpId crbStart (crbStartTypeLocalityRequest ||| 0x100)
      (tpmTestLocality : ℕ) 0 CrbStatus.invarg.code) ≠ .success then
    return .errorPoint 4
  if (← valTpmSendAndExpect senderId tpmSpId crbStart crbStartTypeLocalityRequest
      ((tpmTestLocality : ℕ) ||| 0x100) 0 CrbStatus.invarg.code) ≠ .success then
    return .errorPoint 5
  return .success

/-- `start_locality_relinquish_inactive_client`. -/
def startLocalityRelinquishInactiveClient : Client Verdict := do
  let (status, senderId, tpmSpId) ← valTpmGetEndpointIds
  if status ≠ .success then
    return .errorPoint 1
  if (← sendLocality senderId tpmSpId locCtrlRelinquish) ≠ .success then
    return .errorPoint 2
  if (← readGranted) then
    let _ ← sendLocality senderId tpmSpId locCtrlRelinquish
    return .errorPoint 3
  if (← sendLocality senderId tpmSpId locCtrlRelinquish) ≠ .success then
    return .errorPoint 4
  if (← readGranted) then
    let _ ← sendLocality senderId tpmSpId locCtrlRelinquish
    return .errorPoint 5
  return .success

/-! ## Commands -/

/-- Write a command to the data buffer of the test's locality and set CTRL_START. -/
def placeCommand (cmd : ℕ → UInt8) (size : ℕ) : Client Unit := do
  copyToDataBuffer tpmTestLocality cmd size
  writeCtrlStart crbCtrlStart

/-- The buffer of a GetCapability command. -/
def getCapability : ℕ → UInt8 := valTpmPrepareGetCapability (fun _ => 0) tpmGetCapabilityCmdSize

/-- Read the response and validate its header. -/
def readResponse : Client (Option (ℕ × ℕ)) := do
  let rsp ← copyFromDataBuffer tpmTestLocality fun _ => 0
  return valTpmValidateResponseHeader rsp crbDataBufferSize

/-- `start_command_client`. -/
def startCommandClient : Client Verdict := do
  let (status, senderId, tpmSpId) ← valTpmGetEndpointIds
  if status ≠ .success then
    return .errorPoint 1
  if (← sendLocality senderId tpmSpId locCtrlRequestAccess) ≠ .success then
    return .errorPoint 2
  if (← readGranted) = false then
    let _ ← relinquish senderId tpmSpId
    return .errorPoint 3
  placeCommand getCapability tpmGetCapabilityCmdSize
  if (← sendStart senderId tpmSpId crbStartTypeCommand) ≠ .success then
    writeCtrlStart 0
    let _ ← relinquish senderId tpmSpId
    return .errorPoint 4
  if (← readStarted) then
    writeCtrlStart 0
    let _ ← relinquish senderId tpmSpId
    return .errorPoint 5
  match ← readResponse with
  | none =>
    let _ ← relinquish senderId tpmSpId
    return .errorPoint 6
  | some (_, rc) =>
    if rc ≠ 0 then
      let _ ← relinquish senderId tpmSpId
      return .errorPoint 7
    if (← relinquish senderId tpmSpId) ≠ .success then
      return .errorPoint 8
    if (← readGranted) then
      return .errorPoint 9
    return .success

/-- `tpm_prepare_unsupported_command`. -/
def tpmPrepareUnsupportedCommand : ℕ → UInt8 :=
  valTpmBe32Write (valTpmBe32Write (valTpmBe16Write (fun _ => 0) 0 tpm2StNoSessions) 2 10) 6 0x1ff

/-- `tpm_run_invalid_command`. -/
def tpmRunInvalidCommand (senderId tpmSpId : ℕ) (cmd : ℕ → UInt8) (cmdSize expectedRc : ℕ) :
    Client ValStatus := do
  -- `tpm_clear_crb_buffer`
  copyToDataBuffer tpmTestLocality (fun _ => 0) crbDataBufferSize
  placeCommand cmd cmdSize
  if (← sendStart senderId tpmSpId crbStartTypeCommand) ≠ .success then
    writeCtrlStart 0
    return .error
  if (← readStarted) then
    writeCtrlStart 0
    return .error
  match ← readResponse with
  | none => return .error
  | some (_, rc) => if rc ≠ expectedRc then return .error else return .success

/-- `start_command_invalid_buffer_client`. -/
def startCommandInvalidBufferClient : Client Verdict := do
  let (status, senderId, tpmSpId) ← valTpmGetEndpointIds
  if status ≠ .success then
    return .errorPoint 1
  if (← sendLocality senderId tpmSpId locCtrlRequestAccess) ≠ .success then
    return .errorPoint 2
  if (← readGranted) = false then
    let _ ← relinquish senderId tpmSpId
    return .errorPoint 3
  if (← tpmRunInvalidCommand senderId tpmSpId tpmPrepareUnsupportedCommand 10 0x143) ≠ .success then
    let _ ← relinquish senderId tpmSpId
    return .errorPoint 4
  if (← tpmRunInvalidCommand senderId tpmSpId
      (valTpmPrepareGetCapability tpmPrepareUnsupportedCommand tpmMalformedGetCapabilityCmdSize)
      tpmMalformedGetCapabilityCmdSize (0x9a + 0x40 + 0x300)) ≠ .success then
    let _ ← relinquish senderId tpmSpId
    return .errorPoint 5
  if (← relinquish senderId tpmSpId) ≠ .success then
    return .errorPoint 6
  if (← readGranted) then
    return .errorPoint 7
  return .success

/-- `start_command_invalid_locality_client`. -/
def startCommandInvalidLocalityClient : Client Verdict := do
  let (status, senderId, tpmSpId) ← valTpmGetEndpointIds
  if status ≠ .success then
    return .errorPoint 1
  placeCommand getCapability tpmGetCapabilityCmdSize
  let status ← valTpmSendAndExpect senderId tpmSpId crbStart crbStartTypeCommand (crbLocalityMax + 1) 0
    CrbStatus.invarg.code
  writeCtrlStart 0
  if status ≠ .success then
    return .errorPoint 2
  return .success

/-- `tpm_buffer_matches`, which stops at the first difference. -/
def tpmBufferMatches (expected : ℕ → UInt8) : List (Fin crbDataBufferSize) → Client ValStatus
  | [] => return .success
  | i :: rest => do
    if (← issue (.data tpmTestLocality i)) ≠ expected i then
      return .error
    tpmBufferMatches expected rest

/-- The bytes of a GetCapability command. -/
def getCapabilityBytes : List (Fin crbDataBufferSize) :=
  (List.finRange crbDataBufferSize).take tpmGetCapabilityCmdSize

/-- `start_command_no_execute_client`. -/
def startCommandNoExecuteClient : Client Verdict := do
  let (status, senderId, tpmSpId) ← valTpmGetEndpointIds
  if status ≠ .success then
    return .errorPoint 1
  if (← sendLocality senderId tpmSpId locCtrlRequestAccess) ≠ .success then
    return .errorPoint 2
  if (← readGranted) = false then
    let _ ← relinquish senderId tpmSpId
    return .errorPoint 3
  copyToDataBuffer tpmTestLocality getCapability tpmGetCapabilityCmdSize
  writeCtrlStart 0
  if (← sendStart senderId tpmSpId crbStartTypeCommand) ≠ .success then
    let _ ← relinquish senderId tpmSpId
    return .errorPoint 4
  if (← issue (.ctrlStart tpmTestLocality)) ≠ 0 then
    let _ ← relinquish senderId tpmSpId
    return .errorPoint 5
  if (← tpmBufferMatches getCapability getCapabilityBytes) ≠ .success then
    let _ ← relinquish senderId tpmSpId
    return .errorPoint 6
  if (← relinquish senderId tpmSpId) ≠ .success then
    return .errorPoint 7
  if (← readGranted) then
    return .errorPoint 8
  placeCommand getCapability tpmGetCapabilityCmdSize
  if (← sendStart senderId tpmSpId crbStartTypeCommand) ≠ .success then
    writeCtrlStart 0
    return .errorPoint 9
  if (← readGranted) then
    writeCtrlStart 0
    let _ ← relinquish senderId tpmSpId
    return .errorPoint 10
  if (← readStarted) = false then
    writeCtrlStart 0
    return .errorPoint 11
  if (← tpmBufferMatches getCapability getCapabilityBytes) ≠ .success then
    writeCtrlStart 0
    return .errorPoint 12
  writeCtrlStart 0
  return .success

/-! ## Notifications -/

/-- Register the notification of the tests and expect success. -/
def registerNotification (ctx : Context) : Client (ValStatus × Context) :=
  valTpmNotificationRegister ctx crbNotificationTypeGlobal 0 valTpmNotificationId CrbStatus.ok.code

/-- What a test returns after its cleanup: its own verdict, unless only the cleanup has failed. -/
def verdictAfter (verdict : Verdict) (cleanupStatus : ValStatus) (n : ℕ) : Verdict :=
  if verdict ≠ .success then verdict
  else if cleanupStatus ≠ .success then .errorPoint n
  else .success

/-- The beginning that most notification tests share: the context once its bitmap is bound, or a verdict
at once. The points are those of the feature check, the bitmap and the binding. -/
def setUp (build : Build) (ctx : Context) : Client (Verdict × Context) := do
  let status ← valTpmNotificationFeatureSupported ctx.clientId ctx.tpmSpId
  if status = .skipCheck then
    return (.skipCheck, ctx)
  if status ≠ .success then
    return (.errorPoint 2, ctx)
  let (status, ctx) ← valTpmNotificationCreateBitmap build ctx
  if status = .skipCheck then
    return (.skipCheck, ctx)
  if status ≠ .success then
    return (.errorPoint 3, ctx)
  let (status, ctx) ← valTpmNotificationBind ctx
  if status = .skipCheck then
    let (_, ctx) ← valTpmNotificationCleanup build ctx
    return (.skipCheck, ctx)
  if status ≠ .success then
    let (_, ctx) ← valTpmNotificationCleanup build ctx
    return (.errorPoint 4, ctx)
  return (.success, ctx)

/-- A test that initialises its context, sets up its bitmap, does `body` and cleans up. -/
def notificationTest (build : Build) (body : Context → Client (Verdict × Context)) (n : ℕ) :
    Client Verdict := do
  let (status, ctx) ← valTpmNotificationInit
  if status ≠ .success then
    return .errorPoint 1
  let (verdict, ctx) ← setUp build ctx
  if verdict ≠ .success then
    return verdict
  let (verdict, ctx) ← body ctx
  let (cleanupStatus, _) ← valTpmNotificationCleanup build ctx
  return verdictAfter verdict cleanupStatus n

/-- `register_notification_invalid_client` between its set-up and its cleanup. -/
def registerNotificationInvalidBody (ctx : Context) : Client (Verdict × Context) := do
  let (status, ctx) ← valTpmNotificationRegister ctx crbNotificationTypeGlobal 1 valTpmNotificationId
    CrbStatus.invarg.code
  if status ≠ .success then
    return (.errorPoint 5, ctx)
  let (status, ctx) ← valTpmNotificationRegister ctx crbNotificationTypeGlobal 0 (crbNotificationIdMask + 1)
    CrbStatus.invarg.code
  if status ≠ .success then
    return (.errorPoint 6, ctx)
  let (status, ctx) ← valTpmNotificationRegister ctx 2 0 valTpmNotificationId CrbStatus.invarg.code
  if status ≠ .success then
    return (.errorPoint 7, ctx)
  return (.success, ctx)

/-- `register_notification_invalid_client`. -/
def registerNotificationInvalidClient (build : Build) : Client Verdict :=
  notificationTest build registerNotificationInvalidBody 8

/-- `register_notification_duplicate_client` between its set-up and its cleanup. -/
def registerNotificationDuplicateBody (ctx : Context) : Client (Verdict × Context) := do
  let (status, ctx) ← registerNotification ctx
  if status ≠ .success then
    return (.errorPoint 5, ctx)
  let (status, ctx) ← valTpmNotificationRegister ctx crbNotificationTypeGlobal 0 valTpmNotificationId
    CrbStatus.already.code
  if status ≠ .success then
    return (.errorPoint 6, ctx)
  return (.success, ctx)

/-- `register_notification_duplicate_client`. -/
def registerNotificationDuplicateClient (build : Build) : Client Verdict :=
  notificationTest build registerNotificationDuplicateBody 7

/-- `finish_notified_no_notification_client` between its set-up and its cleanup. -/
def finishNotifiedNoNotificationBody (ctx : Context) : Client (Verdict × Context) := do
  let (status, ctx) ← registerNotification ctx
  if status ≠ .success then
    return (.errorPoint 5, ctx)
  if (← valTpmFinishNotified ctx.clientId ctx.tpmSpId CrbStatus.denied.code) ≠ .success then
    return (.errorPoint 6, ctx)
  return (.success, ctx)

/-- `finish_notified_no_notification_client`. -/
def finishNotifiedNoNotificationClient (build : Build) : Client Verdict :=
  notificationTest build finishNotifiedNoNotificationBody 7

/-- `unregister_notification_denied_client`. -/
def unregisterNotificationDeniedClient : Client Verdict := do
  let (status, ctx) ← valTpmNotificationInit
  if status ≠ .success then
    return .errorPoint 1
  let status ← valTpmNotificationFeatureSupported ctx.clientId ctx.tpmSpId
  if status = .skipCheck then
    return .skipCheck
  if status ≠ .success then
    return .errorPoint 2
  let (status, _) ← valTpmNotificationUnregister ctx CrbStatus.denied.code
  if status ≠ .success then
    return .errorPoint 3
  return .success

/-- `notification_after_unregister_client` between its set-up and its cleanup. -/
def notificationAfterUnregisterBody (ctx : Context) : Client (Verdict × Context) := do
  let (status, ctx) ← registerNotification ctx
  if status ≠ .success then
    return (.errorPoint 5, ctx)
  let (status, ctx) ← valTpmNotificationUnregister ctx CrbStatus.ok.code
  if status ≠ .success then
    return (.errorPoint 6, ctx)
  if (← sendLocality ctx.clientId ctx.tpmSpId locCtrlRequestAccess) ≠ .success then
    return (.errorPoint 7, ctx)
  if (← readGranted) = false then
    return (.errorPoint 8, ctx)
  if (← valTpmCheckPendingNotification ctx false) ≠ .success then
    return (.errorPoint 9, ctx)
  if (← sendLocality ctx.clientId ctx.tpmSpId locCtrlRelinquish) ≠ .success then
    return (.errorPoint 10, ctx)
  return (.success, ctx)

/-- `notification_after_unregister_client`. -/
def notificationAfterUnregisterClient (build : Build) : Client Verdict := do
  writeLocCtrl 0
  let (status, ctx) ← valTpmNotificationInit
  if status ≠ .success then
    return .errorPoint 1
  let (verdict, ctx) ← setUp build ctx
  if verdict ≠ .success then
    return verdict
  let (verdict, ctx) ← notificationAfterUnregisterBody ctx
  let (cleanupStatus, ctx) ← valTpmNotificationCleanup build ctx
  if (← readGranted) then
    if (← sendLocality ctx.clientId ctx.tpmSpId locCtrlRelinquish) ≠ .success then
      return verdictAfter (if verdict = .success then .errorPoint 12 else verdict) cleanupStatus 13
  return verdictAfter verdict cleanupStatus 13

/-- What a test returns when a step of its set-up has not succeeded. -/
def failedStep (status : ValStatus) (n : ℕ) : Verdict :=
  if status = .skipCheck then .skipCheck else .errorPoint n

/-- The set-up of the tests that wait for an interrupt: the handler, the bitmap and the binding. The
points are numbered from `n`, and a step that does not succeed undoes the others. -/
def interruptSetUp (build : Build) (undo : Context → Client Unit) (n : ℕ) (ctx : Context) :
    Client (Verdict × Context) := do
  let (status, ctx) ← valTpmNotificationSetupInterrupt build ctx
  if status ≠ .success then
    undo ctx
    return (failedStep status n, ctx)
  let (status, ctx) ← valTpmNotificationCreateBitmap build ctx
  if status ≠ .success then
    undo ctx
    return (failedStep status (n + 1), ctx)
  let (status, ctx) ← valTpmNotificationBind ctx
  if status ≠ .success then
    undo ctx
    return (failedStep status (n + 2), ctx)
  return (.success, ctx)

/-- Clean up and ignore the result. -/
def cleanUp (build : Build) (ctx : Context) : Client Unit := do
  let _ ← valTpmNotificationCleanup build ctx
  return

/-- `notification_start_locality_client` between its set-up and its cleanup. -/
def notificationStartLocalityBody (build : Build) (ctx : Context) : Client (Verdict × Context) := do
  let (status, ctx) ← registerNotification ctx
  if status ≠ .success then
    return (.errorPoint 6, ctx)
  let (status, ctx) ← valTpmNotificationPrepareInterrupt build ctx
  if status ≠ .success then
    return (.errorPoint 7, ctx)
  if (← sendLocality ctx.clientId ctx.tpmSpId locCtrlRequestAccess) ≠ .success then
    return (.errorPoint 8, ctx)
  let (status, ctx) ← valTpmNotificationCompleteInterrupt build ctx
  if status ≠ .success then
    return (.errorPoint 9, ctx)
  if (← valTpmCheckPendingNotification ctx true) ≠ .success then
    return (.errorPoint 10, ctx)
  if (← readGranted) then
    return (.errorPoint 11, ctx)
  if (← valTpmFinishNotified ctx.clientId ctx.tpmSpId CrbStatus.ok.code) ≠ .success then
    return (.errorPoint 12, ctx)
  if (← readGranted) = false then
    return (.errorPoint 13, ctx)
  let (status, ctx) ← valTpmNotificationUnregister ctx CrbStatus.ok.code
  if status ≠ .success then
    return (.errorPoint 14, ctx)
  if (← sendLocality ctx.clientId ctx.tpmSpId locCtrlRelinquish) ≠ .success then
    return (.errorPoint 15, ctx)
  if (← readGranted) then
    return (.errorPoint 16, ctx)
  return (.success, ctx)

/-- The end of `notification_start_locality_client`: relinquish the locality if it is still granted. -/
def relinquishAtEnd (ctx : Context) (verdict : Verdict) : Client Verdict := do
  if (← readGranted) then
    if (← sendLocality ctx.clientId ctx.tpmSpId locCtrlRelinquish) ≠ .success then
      return if verdict = .success then .errorPoint 17 else verdict
    if (← readGranted) then
      return if verdict = .success then .errorPoint 18 else verdict
  return verdict

/-- `notification_start_locality_client`. -/
def notificationStartLocalityClient (build : Build) : Client Verdict := do
  writeLocCtrl 0
  let (status, ctx) ← valTpmNotificationInit
  if status ≠ .success then
    return .errorPoint 1
  let status ← valTpmNotificationFeatureSupported ctx.clientId ctx.tpmSpId
  if status ≠ .success then
    cleanUp build ctx
    return failedStep status 2
  let (verdict, ctx) ← interruptSetUp build (cleanUp build) 3 ctx
  if verdict ≠ .success then
    return verdict
  let (verdict, ctx) ← notificationStartLocalityBody build ctx
  let (cleanupStatus, ctx) ← valTpmNotificationCleanup build ctx
  return verdictAfter (← relinquishAtEnd ctx verdict) cleanupStatus 19

/-- Relinquish the locality, clean up, and ignore the results. -/
def relinquishAndCleanUp (build : Build) (ctx : Context) : Client Unit := do
  let _ ← relinquish ctx.clientId ctx.tpmSpId
  cleanUp build ctx

/-- `notification_start_command_client` between its set-up and its cleanup. -/
def notificationStartCommandBody (build : Build) (ctx : Context) : Client (Verdict × Context) := do
  let (status, ctx) ← registerNotification ctx
  if status ≠ .success then
    return (.errorPoint 8, ctx)
  let (status, ctx) ← valTpmNotificationPrepareInterrupt build ctx
  if status ≠ .success then
    return (.errorPoint 9, ctx)
  placeCommand getCapability tpmGetCapabilityCmdSize
  if (← sendStart ctx.clientId ctx.tpmSpId crbStartTypeCommand) ≠ .success then
    return (.errorPoint 10, ctx)
  if (← readStarted) = false then
    return (.errorPoint 11, ctx)
  let (status, ctx) ← valTpmNotificationCompleteInterrupt build ctx
  if status ≠ .success then
    return (.errorPoint 12, ctx)
  if (← valTpmCheckPendingNotification ctx true) ≠ .success then
    return (.errorPoint 13, ctx)
  if (← valTpmFinishNotified ctx.clientId ctx.tpmSpId CrbStatus.ok.code) ≠ .success then
    return (.errorPoint 14, ctx)
  if (← readStarted) then
    return (.errorPoint 15, ctx)
  match ← readResponse with
  | none => return (.errorPoint 16, ctx)
  | some (_, rc) =>
    if rc ≠ 0 then
      return (.errorPoint 17, ctx)
    let (status, ctx) ← valTpmNotificationUnregister ctx CrbStatus.ok.code
    if status ≠ .success then
      return (.errorPoint 18, ctx)
    return (.success, ctx)

/-- The end of `notification_start_command_client`: clear CTRL_START and relinquish the locality. -/
def stopAtEnd (ctx : Context) (verdict : Verdict) : Client Verdict := do
  if (← readStarted) then
    writeCtrlStart 0
  if (← relinquish ctx.clientId ctx.tpmSpId) ≠ .success then
    return if verdict = .success then .errorPoint 19 else verdict
  if (← readGranted) then
    return if verdict = .success then .errorPoint 20 else verdict
  return verdict

/-- `notification_start_command_client`. Its locality is granted whenever it gets to its end. -/
def notificationStartCommandClient (build : Build) : Client Verdict := do
  let (status, ctx) ← valTpmNotificationInit
  if status ≠ .success then
    return .errorPoint 1
  let status ← valTpmNotificationFeatureSupported ctx.clientId ctx.tpmSpId
  if status ≠ .success then
    cleanUp build ctx
    return failedStep status 2
  if (← sendLocality ctx.clientId ctx.tpmSpId locCtrlRequestAccess) ≠ .success then
    cleanUp build ctx
    return .errorPoint 3
  if (← readGranted) = false then
    relinquishAndCleanUp build ctx
    return .errorPoint 4
  let (verdict, ctx) ← interruptSetUp build (relinquishAndCleanUp build) 5 ctx
  if verdict ≠ .success then
    return verdict
  let (verdict, ctx) ← notificationStartCommandBody build ctx
  let (cleanupStatus, ctx) ← valTpmNotificationCleanup build ctx
  return verdictAfter (← stopAtEnd ctx verdict) cleanupStatus 21

/-! ## The suite -/

/-- The tests of the TPM service. -/
inductive TpmTest
  | getInterfaceVersion
  | getFeatureInfo
  | getFeatureInfoInvalid
  | unknownFunctionId
  | startLocalityFlow
  | startLocalityCtrlData
  | startLocalityInvalidArgs
  | startLocalityRelinquishInactive
  | startCommand
  | startCommandInvalidBuffer
  | startCommandInvalidLocality
  | startCommandNoExecute
  | registerNotificationInvalid
  | registerNotificationDuplicate
  | finishNotifiedNoNotification
  | unregisterNotificationDenied
  | notificationAfterUnregister
  | notificationStartLocality
  | notificationStartCommand
deriving DecidableEq, Repr

/-- The client function of a test. -/
def TpmTest.client (build : Build) : TpmTest → Client Verdict
  | getInterfaceVersion => getInterfaceVersionClient
  | getFeatureInfo => getFeatureInfoClient
  | getFeatureInfoInvalid => getFeatureInfoInvalidClient
  | unknownFunctionId => tpmCrbUnknownFunctionIdClient
  | startLocalityFlow => startLocalityFlowClient
  | startLocalityCtrlData => startLocalityCtrlDataClient
  | startLocalityInvalidArgs => startLocalityInvalidArgsClient
  | startLocalityRelinquishInactive => startLocalityRelinquishInactiveClient
  | startCommand => startCommandClient
  | startCommandInvalidBuffer => startCommandInvalidBufferClient
  | startCommandInvalidLocality => startCommandInvalidLocalityClient
  | startCommandNoExecute => startCommandNoExecuteClient
  | registerNotificationInvalid => registerNotificationInvalidClient build
  | registerNotificationDuplicate => registerNotificationDuplicateClient build
  | finishNotifiedNoNotification => finishNotifiedNoNotificationClient build
  | unregisterNotificationDenied => unregisterNotificationDeniedClient
  | notificationAfterUnregister => notificationAfterUnregisterClient build
  | notificationStartLocality => notificationStartLocalityClient build
  | notificationStartCommand => notificationStartCommandClient build

/-- Tests one after the other, and what each of them returns. -/
def suite (build : Build) : List TpmTest → Client (List Verdict)
  | [] => return []
  | test :: rest => do
    let verdict ← test.client build
    return verdict :: (← suite build rest)

end FfaAcs.Tpm
