import FfaAcs.Machine.Programs
import FfaAcs.Tpm.Notify

/-!
# The clients of the TPM service

The client library of the TPM tests, as programs over the commands that reach outside of the client:
the CRB memory, FF-A calls, the interrupt controller and the variable that the interrupt handler sets.
A direct request goes to the service if the framework delivers it. Everything else that the framework
does is left open.

The notification context is passed and returned as a value. The platform without a hypervisor has a
notification bitmap per client, and the bare-metal client of it an interrupt as well.
-/

namespace FfaAcs.Tpm

open Machine

/-! ## Commands -/

/-- The registers of an FF-A call, and of its answer. -/
structure Args where
  fid : ℕ
  arg1 : ℕ
  arg2 : ℕ
  arg3 : ℕ
  arg4 : ℕ
  arg5 : ℕ
  arg6 : ℕ
  arg7 : ℕ
deriving DecidableEq, Repr

/-- All registers zero. -/
def Args.zero : Args := ⟨0, 0, 0, 0, 0, 0, 0, 0⟩

/-- The FF-A calls of the library other than the direct request. -/
inductive FfaCall
  | notificationBitmapCreate
  | notificationBitmapDestroy
  | notificationBind
  | notificationUnbind
  | notificationGet
  | features
deriving DecidableEq, Repr

/-- What a client does outside of itself. -/
inductive Command
  /-- `val_get_endpoint_info` and `val_get_curr_endpoint_id`. -/
  | ids
  | write (w : ClientWrite)
  | locSts (l : Locality)
  | ctrlStart (l : Locality)
  | data (l : Locality) (i : Fin crbDataBufferSize)
  | direct (args : Args)
  | ffa (call : FfaCall) (args : Args)
  | irqRegister (irqNum : ℕ)
  | irqUnregister (irqNum : ℕ)
  | irqEnable (irqNum irqPriority : ℕ)
  | irqDisable (irqNum : ℕ)
  | sriClear
  | sriSeen
deriving DecidableEq, Repr

/-- What a command answers. The endpoint table may be missing, and a handler may be refused. -/
@[reducible] def Command.Answer : Command → Type
  | ids => Option (ℕ × ℕ)
  | write _ => Unit
  | locSts _ => ℕ
  | ctrlStart _ => ℕ
  | data _ _ => UInt8
  | direct _ => Args
  | ffa _ _ => Args
  | irqRegister _ => Bool
  | irqUnregister _ => Bool
  | irqEnable _ _ => Unit
  | irqDisable _ => Unit
  | sriClear => Unit
  | sriSeen => Bool

/-- The interface of a client. -/
def outside : Interface := ⟨Command, Command.Answer⟩

/-- The programs of a client. -/
abbrev Client (α : Type) := Program outside α

namespace Client

/-- Issue a command. -/
def issue (c : Command) : Client c.Answer := Program.command (I := outside) c

end Client

open Client

/-- What the library returns: `VAL_SUCCESS`, `VAL_ERROR` or `VAL_SKIP_CHECK`. -/
inductive ValStatus
  | success
  | error
  | skipCheck
deriving DecidableEq, Repr

/-- The configuration: `PLATFORM_NS_HYPERVISOR_PRESENT` and `TARGET_LINUX`. -/
structure Build where
  hypervisor : Bool
  linux : Bool
deriving DecidableEq, Repr

/-- The client has a notification bitmap of its own. -/
def Build.hasBitmap (b : Build) : Bool := !b.hypervisor

/-- The client handles the schedule receiver interrupt. -/
def Build.hasSri (b : Build) : Bool := !b.hypervisor && !b.linux

/-- `val_tpm_notification_context_t`. -/
structure Context where
  clientId : ℕ
  tpmSpId : ℕ
  bitmap : ℕ
  bitmapCreated : Bool
  bound : Bool
  registered : Bool
  sriId : ℕ
  sriRegistered : Bool
  sriEnabled : Bool
deriving DecidableEq, Repr

/-! ## Constants -/

/-- `FFA_MSG_SEND_DIRECT_RESP_32`. -/
def ffaMsgSendDirectResp32 : ℕ := 0x84000070

/-- `FFA_MSG_SEND_DIRECT_RESP_64`. -/
def ffaMsgSendDirectResp64 : ℕ := 0xC4000070

/-- `FFA_ERROR_32`. -/
def ffaError32 : ℕ := 0x84000060

/-- `FFA_ERROR_NOT_SUPPORTED`. -/
def ffaErrorNotSupported : ℕ := 0xffffffff

/-- `FFA_ERROR_NODATA`. -/
def ffaErrorNodata : ℕ := 0xfffffff7

/-- `FFA_FEATURE_SRI`. -/
def ffaFeatureSri : ℕ := 2

/-- `FFA_NOTIFICATIONS_FLAG_BITMAP_SP`. -/
def ffaNotificationsFlagBitmapSp : ℕ := 1

/-- `VAL_TPM_NOTIFICATION_ID`. -/
def valTpmNotificationId : ℕ := 1

/-- `VAL_TPM_NOTIFICATION_BITMAP`. -/
def valTpmNotificationBitmap : ℕ := 1 <<< valTpmNotificationId

/-- `VAL_TPM_NOTIFICATION_VCPU_COUNT`. -/
def valTpmNotificationVcpuCount : ℕ := 1

/-! ## Requests -/

/-- `val_tpm_get_endpoint_ids`, with the zeros of the caller if there is no table. -/
def valTpmGetEndpointIds : Client (ValStatus × ℕ × ℕ) := do
  match ← issue .ids with
  | none => return (.error, 0, 0)
  | some (clientId, tpmSpId) => return (.success, clientId, tpmSpId)

/-- `val_tpm_send_abi`. -/
def valTpmSendAbi (senderId tpmSpId functionId arg0 arg1 arg2 : ℕ) : Client Args :=
  issue (.direct { Args.zero with
    arg1 := senderId <<< 16 ||| tpmSpId
    arg4 := functionId
    arg5 := arg0
    arg6 := arg1
    arg7 := arg2 })

/-- `val_tpm_send_and_expect`. -/
def valTpmSendAndExpect (senderId tpmSpId functionId arg0 arg1 arg2 expectedStatus : ℕ) :
    Client ValStatus := do
  let payload ← valTpmSendAbi senderId tpmSpId functionId arg0 arg1 arg2
  if payload.fid ≠ ffaMsgSendDirectResp64 then
    return .error
  if wrap32 payload.arg4 ≠ expectedStatus then
    return .error
  return .success

/-- `val_tpm_relinquish_locality`. -/
def valTpmRelinquishLocality (senderId tpmSpId : ℕ) (locality : Locality) : Client ValStatus := do
  issue (.write (.locCtrl locality locCtrlRelinquish))
  valTpmSendAndExpect senderId tpmSpId crbStart crbStartTypeLocalityRequest locality 0 CrbStatus.ok.code

/-- `val_tpm_finish_notified`. -/
def valTpmFinishNotified (senderId tpmSpId expectedStatus : ℕ) : Client ValStatus :=
  valTpmSendAndExpect senderId tpmSpId crbFinishNotified 0 0 0 expectedStatus

/-! ## Commands of the TPM -/

/-- `TPM2_ST_NO_SESSIONS`. -/
def tpm2StNoSessions : ℕ := 0x8001

/-- `TPM_RSP_HEADER_SIZE`. -/
def tpmRspHeaderSize : ℕ := 10

/-- `TPM_GET_CAPABILITY_CMD_SIZE`. -/
def tpmGetCapabilityCmdSize : ℕ := 22

/-- `TPM_MALFORMED_GET_CAPABILITY_CMD_SIZE`. -/
def tpmMalformedGetCapabilityCmdSize : ℕ := 18

/-- `val_tpm_be16_read`. -/
def valTpmBe16Read (p : ℕ → UInt8) (offset : ℕ) : ℕ :=
  (p offset).toNat * 2 ^ 8 + (p (offset + 1)).toNat

/-- `val_tpm_be16_write`. -/
def valTpmBe16Write (p : ℕ → UInt8) (offset v : ℕ) : ℕ → UInt8 :=
  Function.update (Function.update p offset (UInt8.ofNat (v >>> 8))) (offset + 1) (UInt8.ofNat v)

/-- `val_tpm_be32_write`. -/
def valTpmBe32Write (p : ℕ → UInt8) (offset v : ℕ) : ℕ → UInt8 :=
  Function.update (Function.update (Function.update (Function.update p offset (UInt8.ofNat (v >>> 24)))
    (offset + 1) (UInt8.ofNat (v >>> 16))) (offset + 2) (UInt8.ofNat (v >>> 8))) (offset + 3) (UInt8.ofNat v)

/-- `val_tpm_prepare_get_capability` -/
def valTpmPrepareGetCapability (cmd : ℕ → UInt8) (cmdSize : ℕ) : ℕ → UInt8 :=
  let cmd := fun i => if i < cmdSize then 0 else cmd i
  if cmdSize < tpmMalformedGetCapabilityCmdSize then cmd
  else
    let cmd := valTpmBe16Write cmd 0 tpm2StNoSessions
    let cmd := valTpmBe32Write cmd 2 cmdSize
    let cmd := valTpmBe32Write cmd 6 0x17a
    let cmd := valTpmBe32Write cmd 10 6
    let cmd := valTpmBe32Write cmd 14 0x100
    if cmdSize ≥ tpmGetCapabilityCmdSize then valTpmBe32Write cmd 18 1 else cmd

/-- `val_tpm_validate_response_header`: the size and the code of a valid response. -/
def valTpmValidateResponseHeader (rsp : ℕ → UInt8) (rspBufSize : ℕ) : Option (ℕ × ℕ) :=
  if rspBufSize < tpmRspHeaderSize then none
  else if valTpmBe16Read rsp 0 ≠ tpm2StNoSessions then none
  else
    let size := valTpmBe32Read rsp 2
    if size < tpmRspHeaderSize ∨ size > rspBufSize then none
    else some (size, valTpmBe32Read rsp 6)

/-- `val_tpm_crb_copy_to_mmio` into the data buffer of a locality. -/
def copyToDataBuffer (l : Locality) (src : ℕ → UInt8) (size : ℕ) : Client Unit :=
  ((List.finRange crbDataBufferSize).take size).forM fun i => issue (.write (.data l i (src i)))

/-- Read some bytes of the data buffer over the bytes of an array. -/
def readDataBuffer (l : Locality) : List (Fin crbDataBufferSize) → (ℕ → UInt8) → Client (ℕ → UInt8)
  | [], dst => return dst
  | i :: rest, dst => do
    let byte ← issue (.data l i)
    readDataBuffer l rest (Function.update dst i byte)

/-- `val_tpm_crb_copy_from_mmio` of the whole data buffer of a locality. -/
def copyFromDataBuffer (l : Locality) (dst : ℕ → UInt8) : Client (ℕ → UInt8) :=
  readDataBuffer l (List.finRange crbDataBufferSize) dst

/-! ## Notifications -/

/-- `val_tpm_notification_feature_supported`. -/
def valTpmNotificationFeatureSupported (senderId tpmSpId : ℕ) : Client ValStatus := do
  let payload ← valTpmSendAbi senderId tpmSpId crbGetFeatureInfo crbFeatureNotification 0 0
  if payload.fid ≠ ffaMsgSendDirectResp64 then
    return .error
  if wrap32 payload.arg4 = CrbStatus.ok.code then
    return .success
  if wrap32 payload.arg4 = CrbStatus.notsup.code ∨ wrap32 payload.arg4 = CrbStatus.nofunc.code then
    return .skipCheck
  return .error

/-- `val_tpm_notification_init`. -/
def valTpmNotificationInit : Client (ValStatus × Context) := do
  let (status, clientId, tpmSpId) ← valTpmGetEndpointIds
  return (status, ⟨clientId, tpmSpId, valTpmNotificationBitmap, false, false, false, 0, false, false⟩)

/-- `val_tpm_notification_create_bitmap`. -/
def valTpmNotificationCreateBitmap (build : Build) (ctx : Context) : Client (ValStatus × Context) := do
  if build.hasBitmap = false then
    return (.success, ctx)
  let payload ← issue (.ffa .notificationBitmapCreate
    { Args.zero with arg1 := ctx.clientId, arg2 := valTpmNotificationVcpuCount })
  if payload.fid = ffaError32 then
    if wrap32 payload.arg2 = ffaErrorNotSupported then
      return (.skipCheck, ctx)
    return (.error, ctx)
  return (.success, { ctx with bitmapCreated := true })

/-- `val_tpm_notification_bitmap_destroy`. -/
def valTpmNotificationBitmapDestroy (clientId : ℕ) : Client ValStatus := do
  let payload ← issue (.ffa .notificationBitmapDestroy { Args.zero with arg1 := clientId })
  if payload.fid = ffaError32 then
    return .error
  return .success

/-- The registers of a call for the bitmap of a context. -/
def Context.bindArgs (ctx : Context) : Args :=
  { Args.zero with
    arg1 := ctx.tpmSpId <<< 16 ||| ctx.clientId
    arg3 := ctx.bitmap &&& 0xffffffff
    arg4 := wrap32 (ctx.bitmap >>> 32) }

/-- `val_tpm_notification_bind`. -/
def valTpmNotificationBind (ctx : Context) : Client (ValStatus × Context) := do
  let payload ← issue (.ffa .notificationBind ctx.bindArgs)
  if payload.fid = ffaError32 then
    if wrap32 payload.arg2 = ffaErrorNotSupported then
      return (.skipCheck, ctx)
    return (.error, ctx)
  return (.success, { ctx with bound := true })

/-- `val_tpm_notification_unbind`. -/
def valTpmNotificationUnbind (ctx : Context) : Client (ValStatus × Context) := do
  let payload ← issue (.ffa .notificationUnbind ctx.bindArgs)
  if payload.fid = ffaError32 then
    return (.error, ctx)
  return (.success, { ctx with bound := false })

/-- `val_tpm_notification_setup_interrupt`. -/
def valTpmNotificationSetupInterrupt (build : Build) (ctx : Context) : Client (ValStatus × Context) := do
  if build.hasSri = false then
    return (.success, ctx)
  let payload ← issue (.ffa .features { Args.zero with arg1 := ffaFeatureSri })
  if payload.fid = ffaError32 then
    return (.skipCheck, ctx)
  let ctx := { ctx with sriId := wrap32 payload.arg2 }
  if (← issue (.irqRegister ctx.sriId)) = false then
    return (.error, ctx)
  issue .sriClear
  return (.success, { ctx with sriRegistered := true })

/-- `val_tpm_notification_prepare_interrupt`. -/
def valTpmNotificationPrepareInterrupt (build : Build) (ctx : Context) : Client (ValStatus × Context) := do
  if build.hasSri = false then
    return (.success, ctx)
  if ctx.sriRegistered = false then
    return (.error, ctx)
  issue .sriClear
  issue (.irqEnable ctx.sriId 0xA)
  return (.success, { ctx with sriEnabled := true })

/-- Disable the interrupt of a context. -/
def disableSri (ctx : Context) : Client Context := do
  issue (.irqDisable ctx.sriId)
  return { ctx with sriEnabled := false }

/-- `val_tpm_notification_complete_interrupt`. -/
def valTpmNotificationCompleteInterrupt (build : Build) (ctx : Context) : Client (ValStatus × Context) := do
  if build.hasSri = false then
    return (.success, ctx)
  if ctx.sriRegistered = false then
    return (.error, ctx)
  if (← issue .sriSeen) = false then
    if ctx.sriEnabled then
      return (.error, ← disableSri ctx)
    return (.error, ctx)
  return (.success, ← disableSri ctx)

/-- `val_tpm_notification_register`. -/
def valTpmNotificationRegister (ctx : Context) (notificationType vcpuId notificationId expectedStatus : ℕ) :
    Client (ValStatus × Context) := do
  if vcpuId &&& 0xffff0000 ≠ 0 then
    return (.error, ctx)
  let arg0 := wrap32 (notificationType <<< 16) ||| (vcpuId &&& 0xffff)
  let status ← valTpmSendAndExpect ctx.clientId ctx.tpmSpId crbRegisterNotification arg0 notificationId 0
    expectedStatus
  if status = .success ∧ expectedStatus = CrbStatus.ok.code then
    return (status, { ctx with registered := true })
  return (status, ctx)

/-- `val_tpm_notification_unregister`. -/
def valTpmNotificationUnregister (ctx : Context) (expectedStatus : ℕ) : Client (ValStatus × Context) := do
  let status ← valTpmSendAndExpect ctx.clientId ctx.tpmSpId crbUnregisterNotification 0 0 0 expectedStatus
  if status = .success ∧ expectedStatus = CrbStatus.ok.code then
    return (status, { ctx with registered := false })
  return (status, ctx)

/-- The bits of `ctx.bitmap` that a successful FFA_NOTIFICATION_GET has returned. -/
def Context.pendingBits (ctx : Context) (payload : Args) : ℕ :=
  (wrap32 payload.arg3 <<< 32 ||| wrap32 payload.arg2) &&& ctx.bitmap

/-- `val_tpm_check_pending_notification`. -/
def valTpmCheckPendingNotification (ctx : Context) (expectedPresent : Bool) : Client ValStatus := do
  let payload ← issue (.ffa .notificationGet
    { Args.zero with arg1 := ctx.clientId, arg2 := ffaNotificationsFlagBitmapSp })
  if payload.fid = ffaError32 then
    if expectedPresent = false ∧ wrap32 payload.arg2 = ffaErrorNodata then
      return .success
    return .error
  if expectedPresent = decide (ctx.pendingBits payload ≠ 0) then
    return .success
  return .error

/-- The first of two results that is not a success, the second one first. -/
def laterFailure (cleanupStatus status : ValStatus) : ValStatus :=
  if status ≠ .success then status else cleanupStatus

/-- Unregister, if the context says that the client is registered. -/
def unregisterIfRegistered (ctx : Context) : Client (ValStatus × Context) :=
  if ctx.registered then valTpmNotificationUnregister ctx CrbStatus.ok.code else return (.success, ctx)

/-- Unbind, if the context says that the bitmap is bound. -/
def unbindIfBound (ctx : Context) : Client (ValStatus × Context) :=
  if ctx.bound then valTpmNotificationUnbind ctx else return (.success, ctx)

/-- Destroy the bitmap, if the context says that there is one. The context forgets it in any case. -/
def destroyIfCreated (build : Build) (ctx : Context) : Client (ValStatus × Context) := do
  if build.hasBitmap ∧ ctx.bitmapCreated then
    let status ← valTpmNotificationBitmapDestroy ctx.clientId
    return (status, { ctx with bitmapCreated := false })
  return (.success, ctx)

/-- Unregister the handler, if the context says that there is one. The context forgets it in any case. -/
def unregisterHandlerIfRegistered (build : Build) (ctx : Context) : Client (ValStatus × Context) := do
  if build.hasSri ∧ ctx.sriRegistered then
    let unregistered ← issue (.irqUnregister ctx.sriId)
    return (if unregistered then .success else .error, { ctx with sriRegistered := false })
  return (.success, ctx)

/-- Disable the interrupt, if the context says that it is enabled. -/
def disableIfEnabled (build : Build) (ctx : Context) : Client Context :=
  if build.hasSri ∧ ctx.sriEnabled then disableSri ctx else return ctx

/-- `val_tpm_notification_cleanup`. -/
def valTpmNotificationCleanup (build : Build) (ctx : Context) : Client (ValStatus × Context) := do
  let ctx ← disableIfEnabled build ctx
  let (status, ctx) ← unregisterIfRegistered ctx
  let cleanupStatus := laterFailure .success status
  let (status, ctx) ← unbindIfBound ctx
  let cleanupStatus := laterFailure cleanupStatus status
  let (status, ctx) ← destroyIfCreated build ctx
  let cleanupStatus := laterFailure cleanupStatus status
  let (status, ctx) ← unregisterHandlerIfRegistered build ctx
  return (laterFailure cleanupStatus status, ctx)

/-! ## The machine -/

/-- A service as its clients see it: what it keeps in the CRB memory, and how it answers requests. With a
response come the calls of FFA_NOTIFICATION_SET that the service has made and the relayer accepted. -/
structure ServiceMachine (S : Type) where
  write : S → ClientWrite → S
  locSts : S → Locality → ℕ
  ctrlStart : S → Locality → ℕ
  data : S → Locality → Fin crbDataBufferSize → UInt8
  request : Env → S → Request → S × Response × List Event

/-- What surrounds the client and the service. Its state is arbitrary. It says whether a direct request
is delivered, and what the service then finds around it; it sees the notifications that the service
sets; and it carries out all other commands. -/
structure Surroundings (ε : Type) where
  handle : Handler outside ε
  deliver : ε → Args → Option Env
  observe : ε → List Event → ε

/-- The request that the service sees of a direct request of the client. -/
def Args.request (args : Args) : Request := ⟨ffaMsgSendDirectReq64, args.arg1, args.arg4, args.arg5, args.arg6⟩

/-- What the client sees of a response. -/
def Response.args (response : Response) : Args :=
  { Args.zero with
    fid := if response.is64 then ffaMsgSendDirectResp64 else ffaMsgSendDirectResp32
    arg1 := response.arg1
    arg4 := response.status.code
    arg5 := response.value
    arg6 := response.rc }

section

variable {S ε : Type}

/-- A command that does not reach the service. -/
def elsewhere (around : Surroundings ε) (c : Command) (x : S × ε) : c.Answer × S × ε :=
  ((around.handle c x.2).1, x.1, (around.handle c x.2).2)

/-- The commands, carried out on a service and its surroundings. -/
def attach (m : ServiceMachine S) (around : Surroundings ε) : Handler outside (S × ε)
  | .write w, x => ((), m.write x.1 w, x.2)
  | .locSts l, x => (m.locSts x.1 l, x)
  | .ctrlStart l, x => (m.ctrlStart x.1 l, x)
  | .data l i, x => (m.data x.1 l i, x)
  | .direct args, x =>
    match around.deliver x.2 args with
    | none => elsewhere around (.direct args) x
    | some env =>
      let answer := m.request env x.1 args.request
      (answer.2.1.args, answer.1, around.observe x.2 answer.2.2)
  | .ids, x => elsewhere around .ids x
  | .ffa call args, x => elsewhere around (.ffa call args) x
  | .irqRegister n, x => elsewhere around (.irqRegister n) x
  | .irqUnregister n, x => elsewhere around (.irqUnregister n) x
  | .irqEnable n p, x => elsewhere around (.irqEnable n p) x
  | .irqDisable n, x => elsewhere around (.irqDisable n) x
  | .sriClear, x => elsewhere around .sriClear x
  | .sriSeen, x => elsewhere around .sriSeen x

/-- Related services look alike to a client. -/
structure ServiceMachine.Simulates {T : Type} (R : S → T → Prop) (m : ServiceMachine S)
    (n : ServiceMachine T) : Prop where
  write : ∀ s t w, R s t → R (m.write s w) (n.write t w)
  locSts : ∀ s t l, R s t → m.locSts s l = n.locSts t l
  ctrlStart : ∀ s t l, R s t → m.ctrlStart s l = n.ctrlStart t l
  data : ∀ s t l i, R s t → m.data s l i = n.data t l i
  request : ∀ env s t r, R s t →
    (m.request env s r).2 = (n.request env t r).2 ∧ R (m.request env s r).1 (n.request env t r).1

/-- Services that look alike to a client do so in all surroundings. -/
theorem ServiceMachine.Simulates.attach {T : Type} {R : S → T → Prop} {m : ServiceMachine S}
    {n : ServiceMachine T} (h : m.Simulates R n) (around : Surroundings ε) :
    Program.Simulates (fun x y => R x.1 y.1 ∧ x.2 = y.2) (attach m around) (attach n around) := by
  rintro c ⟨s, e⟩ ⟨t, e'⟩ ⟨hR, rfl⟩
  cases c with
  | write w => exact ⟨rfl, h.write s t w hR, rfl⟩
  | locSts l => exact ⟨h.locSts s t l hR, hR, rfl⟩
  | ctrlStart l => exact ⟨h.ctrlStart s t l hR, hR, rfl⟩
  | data l i => exact ⟨h.data s t l i hR, hR, rfl⟩
  | direct args =>
    simp only [Tpm.attach]
    split
    · exact ⟨rfl, hR, rfl⟩
    · rename_i env _
      obtain ⟨hanswer, hnext⟩ := h.request env s t args.request hR
      exact ⟨by rw [hanswer], hnext, by rw [hanswer]⟩
  | _ => exact ⟨rfl, hR, rfl⟩

end

section

variable {σ : Type}

/-- The accepted calls of FFA_NOTIFICATION_SET among events. -/
def notifications (es : List Event) : List Event := es.filter Event.isSignal

/-- The service of the model as its clients see it. -/
def serviceMachine (pal : Pal σ) : ServiceMachine (Service σ) where
  write := Service.clientWrite
  locSts s l := s.mem.load (valTpmCrbLocSts l) 4
  ctrlStart s l := s.mem.load (valTpmCrbCtrlStart l) 4
  data s l i := s.mem (valTpmCrbDataBuffer l + i)
  request env s r :=
    let answer := valTpmCrbServiceHandleRequest pal env s r
    (answer.1, answer.2, notifications (answer.1.events.drop s.events.length))

end

end FfaAcs.Tpm
