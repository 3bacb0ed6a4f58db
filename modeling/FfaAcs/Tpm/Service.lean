import FfaAcs.Tpm.Crb
import FfaAcs.Machine.WordArithmetic

/-!
# The TPM service

The request handler of the TPM partition with its static variables, the CRB memory and the TPM
behind the platform layer. The platform's `pal_tpm_execute_command` is a parameter. So are, for
each request, whether the partition advertises notifications, whether the relayer accepts
FFA_NOTIFICATION_SET, and what the compiled code makes of a shift that C leaves undefined.

The state also keeps two records that the code does not have: the MMIO accesses in order, and
the calls the service makes, the requests it answers and the starts its clients signal.
-/

namespace FfaAcs.Tpm

open Machine

/-- The status codes of the service. -/
inductive CrbStatus
  | ok
  | okResultsReturned
  | nofunc
  | notsup
  | invarg
  | invCrbCtrlData
  | already
  | denied
deriving DecidableEq, Repr

/-- The values of the status codes. -/
def CrbStatus.code : CrbStatus → ℕ
  | .ok => 0x05000001
  | .okResultsReturned => 0x05000002
  | .nofunc => 0x8e000001
  | .notsup => 0x8e000002
  | .invarg => 0x8e000005
  | .invCrbCtrlData => 0x8e000006
  | .already => 0x8e000009
  | .denied => 0x8e00000a

/-- `CRB_GET_INTERFACE_VERSION`. -/
def crbGetInterfaceVersion : ℕ := 0x0f000001

/-- `CRB_GET_FEATURE_INFO`. -/
def crbGetFeatureInfo : ℕ := 0x0f000101

/-- `CRB_START`. -/
def crbStart : ℕ := 0x0f000201

/-- `CRB_REGISTER_NOTIFICATION`. -/
def crbRegisterNotification : ℕ := 0x0f000301

/-- `CRB_UNREGISTER_NOTIFICATION`. -/
def crbUnregisterNotification : ℕ := 0x0f000401

/-- `CRB_FINISH_NOTIFIED`. -/
def crbFinishNotified : ℕ := 0x0f000501

/-- `CRB_SERVICE_VERSION`. -/
def crbServiceVersion : ℕ := 0x10000

/-- `CRB_FEATURE_NOTIFICATION`. -/
def crbFeatureNotification : ℕ := 0xfea70000

/-- `CRB_START_TYPE_COMMAND`. -/
def crbStartTypeCommand : ℕ := 0

/-- `CRB_START_TYPE_LOCALITY_REQUEST`. -/
def crbStartTypeLocalityRequest : ℕ := 1

/-- `CRB_NOTIFICATION_ID_MASK`. -/
def crbNotificationIdMask : ℕ := 0xff

/-- `CRB_NOTIFICATION_TYPE_GLOBAL`. -/
def crbNotificationTypeGlobal : ℕ := 0

/-- `FFA_NOTIFICATIONS_FLAG_DELAY_SRI`. -/
def ffaNotificationsFlagDelaySri : ℕ := 0x2

/-- `FFA_MSG_SEND_DIRECT_REQ_64`. -/
def ffaMsgSendDirectReq64 : ℕ := 0xC400006F

/-- The registers of a direct request that the service reads. -/
structure Request where
  fid : ℕ
  arg1 : ℕ
  arg4 : ℕ
  arg5 : ℕ
  arg6 : ℕ
deriving DecidableEq, Repr

/-- The sender of a request. -/
def Request.sender (r : Request) : ℕ := r.arg1 / 2 ^ 16 % 2 ^ 16

/-- The receiver of a request. -/
def Request.receiver (r : Request) : ℕ := r.arg1 % 2 ^ 16

/-- The function a request asks for. -/
def Request.func (r : Request) : ℕ := wrap32 r.arg4

/-- The direct response: its width and the registers that are not zero. -/
structure Response where
  is64 : Bool
  arg1 : ℕ
  status : CrbStatus
  value : ℕ
  rc : ℕ
deriving DecidableEq, Repr

/-- What the service finds around it while it handles one request. C does not define a shift of a
64-bit number by 64 or more, so what such a shift gives is found around the service too. -/
structure Env where
  notifSupported : Bool
  setSucceeds : Bool
  delaySri : Bool
  longShift : UInt64
deriving DecidableEq, Repr

/-- The answer of `pal_tpm_execute_command`: its status, the response and its size. The response
pointer may be NULL. -/
structure PalReply where
  success : Bool
  rsp : Option (ℕ → UInt8)
  rspSize : ℕ

/-- A response that passes the check of its size fits the buffer. -/
theorem PalReply.fits_of_not_gt (reply : PalReply) (h : ¬reply.rspSize > crbDataBufferSize) :
    reply.rspSize ≤ crbDataBufferSize := Nat.not_lt.1 h

/-- The platform's TPM: its state, the command size and the command buffer give its answer. -/
abbrev Pal (σ : Type*) := σ → ℕ → (ℕ → UInt8) → PalReply × σ

/-- The static variables of the notification registration and of the deferred work. -/
structure Notification where
  client : ℕ
  service : ℕ
  id : ℕ
  registered : Bool
  outstanding : Bool
  pendingLocalityValid : Bool
  pendingLocality : ℕ
  pendingLocalityCtrl : ℕ
  pendingCommandValid : Bool
  pendingCommandLocality : ℕ
  pendingCommandSize : ℕ
  pendingCmd : ℕ → UInt8

/-- All variables zero. -/
def Notification.cleared : Notification :=
  ⟨0, 0, 0, false, false, false, 0, 0, false, 0, 0, fun _ => 0⟩

/-- One access to the CRB memory. -/
inductive Access
  | read (addr width : ℕ)
  | write (addr width : ℕ)
deriving DecidableEq, Repr

/-- What the service and its clients do that the properties speak about. A `notificationSet`
carries the shift and the registers of the call and whether the relayer accepted it; an `execute`
carries the locality, the active locality and Granted of that locality at the moment of the call. -/
inductive Event
  | notificationSet (shift arg1 arg2 arg3 arg4 : ℕ) (accepted : Bool)
  | execute (locality size active : ℕ) (granted : Bool)
  | answered (request : Request) (response : Response)
  | startSet (locality : ℕ)
deriving DecidableEq, Repr

/-- The state of the service, its CRB memory and the TPM. -/
structure Service (σ : Type*) where
  mem : ByteMemory
  tpm : σ
  active : ℕ
  notif : Notification
  accesses : List Access
  events : List Event

/-- The service before its first request. -/
def Service.start {σ : Type*} (m : ByteMemory) (tpm : σ) : Service σ :=
  ⟨m, tpm, crbLocalityMax + 1, .cleared, [], []⟩

section

variable {σ : Type*}

/-- Record an MMIO read. -/
def Service.noteRead (s : Service σ) (addr width : ℕ) : Service σ :=
  { s with accesses := s.accesses ++ [.read addr width] }

/-- Record an event. -/
def Service.noteEvent (s : Service σ) (e : Event) : Service σ := { s with events := s.events ++ [e] }

/-- `val_tpm_crb_write32`. -/
def Service.write32 (s : Service σ) (addr v : ℕ) : Service σ :=
  { s with mem := s.mem.store addr 4 v, accesses := s.accesses ++ [.write addr 4] }

/-- `val_tpm_copy_to_mmio`: write `size` bytes, one at a time. -/
def valTpmCopyToMmio (s : Service σ) (dst : ℕ) (src : ℕ → UInt8) (size : ℕ) : Service σ :=
  { s with
    mem := s.mem.blit dst size src
    accesses := s.accesses ++ (List.range size).map fun i => .write (dst + i) 1 }

/-- The array that `val_tpm_copy_from_mmio` leaves in a buffer of `size` bytes. -/
def mmioBytes (m : ByteMemory) (src size : ℕ) : ℕ → UInt8 := fun i => if i < size then m (src + i) else 0

/-- The reads of `val_tpm_copy_from_mmio`, one byte at a time. -/
def noteCopyFromMmio (s : Service σ) (src size : ℕ) : Service σ :=
  { s with accesses := s.accesses ++ (List.range size).map fun i => .read (src + i) 1 }

/-- What `val_tpm_execute_command_buffer` gives back with CRB_OK: the response, its size and the
response code. The response fits the data buffer. -/
structure Executed where
  rsp : ℕ → UInt8
  rspSize : ℕ
  rc : ℕ
  fits : rspSize ≤ crbDataBufferSize

/-- Execute a command through the platform. A buffer other than `g_tpm_cmd` is first copied into
it, with zeros behind its `cmdSize` bytes; `fresh` says that the command is already there. The
locality is only recorded. -/
def valTpmExecuteCommandBuffer (pal : Pal σ) (s : Service σ) (locality : ℕ) (cmd : ℕ → UInt8)
    (cmdSize : ℕ) (fresh : Bool) : Service σ × Option Executed :=
  if cmdSize > crbDataBufferSize then (s, none)
  else
    let tpmCmd := if fresh then cmd else fun i => if i < cmdSize then cmd i else 0
    let s := s.noteEvent (.execute locality cmdSize s.active (granted s.mem locality))
    let (reply, tpm) := pal s.tpm cmdSize tpmCmd
    let s := { s with tpm := tpm }
    match reply.success, reply.rsp with
    | true, some rsp =>
      if hsize : reply.rspSize > crbDataBufferSize then (s, none)
      else
        let rc := if reply.rspSize ≥ 10 then valTpmBe32Read rsp 6 else CrbStatus.invCrbCtrlData.code
        (s, some ⟨rsp, reply.rspSize, rc, reply.fits_of_not_gt hsize⟩)
    | _, _ => (s, none)

/-- Whether START(COMMAND) can be deferred: the locality is active and granted, and CTRL_START is
set. The registers are read one after the other until one of them says no. -/
def valTpmCrbCommandNotifyEligible (s : Service σ) (locality : ℕ) : Service σ × Bool :=
  if s.active ≠ locality then (s, false)
  else
    let s := s.noteRead (valTpmCrbLocSts locality) 4
    if granted s.mem locality = false then (s, false)
    else (s.noteRead (valTpmCrbCtrlStart locality) 4, started s.mem locality)

/-- Apply saved LOC_CTRL data. -/
def valTpmCrbApplyLocalityRequest (s : Service σ) (locality ctrl : ℕ) : Service σ × CrbStatus :=
  let locSts := valTpmCrbLocSts locality
  let ctrlBits := ctrl &&& locCtrlValidMask
  if ctrlBits = 0 then
    (s.write32 locSts (if s.active = locality then locStsGranted else 0), .ok)
  else if ctrlBits &&& locCtrlRequestAccess ≠ 0 then
    if s.active > crbLocalityMax ∨ s.active = locality then
      ({ s with active := locality }.write32 locSts locStsGranted, .ok)
    else (s.write32 locSts 0, .ok)
  else if s.active = locality then
    ({ s.write32 locSts 0 with active := crbLocalityMax + 1 }, .ok)
  else (s.write32 locSts 0, .ok)

/-- START(LOCALITY_REQUEST) at once: take LOC_CTRL, clear it and apply it. -/
def valTpmCrbStartLocalityRequest (s : Service σ) (locality : ℕ) : Service σ × CrbStatus :=
  let locCtrl := valTpmCrbLocCtrl locality
  let ctrl := s.mem.load locCtrl 4
  let s := s.noteRead locCtrl 4
  let s := s.write32 locCtrl 0
  valTpmCrbApplyLocalityRequest s locality ctrl

/-- Forget the registration and all deferred work. -/
def valTpmClearNotificationRegistration (s : Service σ) : Service σ := { s with notif := .cleared }

/-- `1ULL << id`. -/
def notificationBitmap (env : Env) (id : ℕ) : ℕ := if id < 64 then 2 ^ id else env.longShift.toNat

/-- The call of FFA_NOTIFICATION_SET for the registered notification. -/
def signalEvent (env : Env) (n : Notification) (client service : ℕ) : Event :=
  let bitmap := notificationBitmap env n.id
  .notificationSet n.id (service * 2 ^ 16 ||| client)
    (crbNotificationTypeGlobal ||| if env.delaySri then ffaNotificationsFlagDelaySri else 0)
    (bitmap &&& 0xffffffff) (wrap32 (bitmap / 2 ^ 32)) env.setSucceeds

/-- Signal the registered client, if it is the one given and has no notification outstanding. -/
def valTpmSignalNotification (env : Env) (s : Service σ) (client service : ℕ) : Service σ × Bool :=
  if env.notifSupported = false ∨ s.notif.registered = false ∨ s.notif.outstanding = true ∨
      s.notif.client ≠ client ∨ s.notif.service ≠ service then (s, false)
  else
    let s := s.noteEvent (signalEvent env s.notif client service)
    if env.setSucceeds then ({ s with notif := { s.notif with outstanding := true } }, true)
    else (s, false)

/-- The outcome of a function that may return results: status, `value` and `rc`. -/
structure Result where
  status : CrbStatus
  value : ℕ
  rc : ℕ
deriving DecidableEq, Repr

/-- Write the response and clear CTRL_START, or report that the command could not be executed. -/
def publishResponse (locality : ℕ) : Service σ × Option Executed → Service σ × Result
  | (s, none) => (s, ⟨.invCrbCtrlData, 0, 0⟩)
  | (s, some r) =>
    let s := valTpmCopyToMmio s (valTpmCrbDataBuffer locality) r.rsp r.rspSize
    (s.write32 (valTpmCrbCtrlStart locality) 0, ⟨.ok, r.rspSize, r.rc⟩)

/-- START(COMMAND) at once. The tests are those of the deferral, in the same order. -/
def valTpmCrbStartCommand (pal : Pal σ) (s : Service σ) (locality : ℕ) : Service σ × Result :=
  let (s, eligible) := valTpmCrbCommandNotifyEligible s locality
  if eligible = false then (s, ⟨.ok, 0, 0⟩)
  else
    let cmd := mmioBytes s.mem (valTpmCrbDataBuffer locality) crbDataBufferSize
    let s := noteCopyFromMmio s (valTpmCrbDataBuffer locality) crbDataBufferSize
    publishResponse locality
      (valTpmExecuteCommandBuffer pal s locality cmd (valTpmBe32Read cmd 2) true)

/-- Complete a deferred START(COMMAND) from the saved command. -/
def valTpmCrbCompletePendingCommand (pal : Pal σ) (s : Service σ) (locality cmdSize : ℕ) :
    Service σ × Result :=
  publishResponse locality
    (valTpmExecuteCommandBuffer pal s locality s.notif.pendingCmd cmdSize false)

/-- The sender is the registered client, addresses the registered service and has no notification
outstanding. -/
def mayDefer (s : Service σ) (r : Request) : Bool :=
  s.notif.registered ∧ s.notif.client = r.sender ∧ s.notif.service = r.receiver ∧
    s.notif.outstanding = false

/-- Take LOC_CTRL, clear it and save what it held. -/
def saveLocalityRequest (s : Service σ) (locality : ℕ) : Service σ :=
  let locCtrl := valTpmCrbLocCtrl locality
  let ctrl := s.mem.load locCtrl 4
  let s := s.noteRead locCtrl 4
  let s := s.write32 locCtrl 0
  { s with notif := { s.notif with
    pendingLocality := locality
    pendingLocalityCtrl := ctrl
    pendingLocalityValid := true } }

/-- Apply the saved LOC_CTRL data at once, because the client could not be signalled. -/
def applySavedLocality (s : Service σ) (locality : ℕ) : Service σ × Result :=
  let s := { s with notif := { s.notif with pendingLocalityValid := false } }
  let (s, status) := valTpmCrbApplyLocalityRequest s locality s.notif.pendingLocalityCtrl
  ({ s with notif := { s.notif with pendingLocalityCtrl := 0 } }, ⟨status, 0, 0⟩)

/-- The branch of the handler for START(LOCALITY_REQUEST). -/
def handleStartLocality (env : Env) (s : Service σ) (r : Request) : Service σ × Result :=
  let locality := wrap32 r.arg6
  if mayDefer s r then
    match valTpmSignalNotification env (saveLocalityRequest s locality) r.sender r.receiver with
    | (s, true) => (s, ⟨.ok, 0, 0⟩)
    | (s, false) => applySavedLocality s locality
  else
    let (s, status) := valTpmCrbStartLocalityRequest s locality
    (s, ⟨status, 0, 0⟩)

/-- Read the command of a locality and save it. -/
def saveCommand (s : Service σ) (locality : ℕ) : Service σ :=
  let cmd := mmioBytes s.mem (valTpmCrbDataBuffer locality) crbDataBufferSize
  let s := noteCopyFromMmio s (valTpmCrbDataBuffer locality) crbDataBufferSize
  { s with notif := { s.notif with
    pendingCommandLocality := locality
    pendingCmd := cmd
    pendingCommandSize := valTpmBe32Read cmd 2
    pendingCommandValid := true } }

/-- Drop the saved command and execute the one in the buffer at once, because the client could not
be signalled. -/
def executeUnsaved (pal : Pal σ) (s : Service σ) (locality : ℕ) : Service σ × Result :=
  let s := { s with notif := { s.notif with
    pendingCommandValid := false
    pendingCommandSize := 0
    pendingCmd := fun _ => 0 } }
  valTpmCrbStartCommand pal s locality

/-- The branch of the handler for START(COMMAND). -/
def handleStartCommand (pal : Pal σ) (env : Env) (s : Service σ) (r : Request) :
    Service σ × Result :=
  let locality := wrap32 r.arg6
  match if mayDefer s r then valTpmCrbCommandNotifyEligible s locality else (s, false) with
  | (s, true) =>
    match valTpmSignalNotification env (saveCommand s locality) r.sender r.receiver with
    | (s, true) => (s, ⟨.ok, 0, 0⟩)
    | (s, false) => executeUnsaved pal s locality
  | (s, false) => valTpmCrbStartCommand pal s locality

/-- The branch of the handler for REGISTER_NOTIFICATION. -/
def handleRegister (env : Env) (s : Service σ) (r : Request) : Service σ × Result :=
  if r.arg5 > 0x1ffff ∨ r.arg6 > crbNotificationIdMask ∨
      wrap32 r.arg5 / 2 ^ 16 ≠ crbNotificationTypeGlobal ∨ wrap32 r.arg5 % 2 ^ 16 ≠ 0 then
    (s, ⟨.invarg, 0, 0⟩)
  else if env.notifSupported = false then (s, ⟨.notsup, 0, 0⟩)
  else if s.notif.registered then (s, ⟨.already, 0, 0⟩)
  else
    ({ s with notif := { s.notif with
        client := r.sender
        service := r.receiver
        id := wrap32 r.arg6
        registered := true
        outstanding := false } }, ⟨.ok, 0, 0⟩)

/-- The branch of the handler for UNREGISTER_NOTIFICATION. -/
def handleUnregister (env : Env) (s : Service σ) (r : Request) : Service σ × Result :=
  if env.notifSupported = false then (s, ⟨.notsup, 0, 0⟩)
  else if s.notif.registered = false ∨ s.notif.client ≠ r.sender then (s, ⟨.denied, 0, 0⟩)
  else if s.notif.outstanding then (s, ⟨.denied, 0, 0⟩)
  else (valTpmClearNotificationRegistration s, ⟨.ok, 0, 0⟩)

/-- Complete the deferred work: saved LOC_CTRL data first, then a saved command. -/
def completePending (pal : Pal σ) (s : Service σ) : Service σ × Result :=
  if s.notif.pendingLocalityValid then
    let (s, status) := valTpmCrbApplyLocalityRequest s s.notif.pendingLocality
      s.notif.pendingLocalityCtrl
    ({ s with notif := { s.notif with
        pendingLocalityValid := false
        pendingLocality := 0
        pendingLocalityCtrl := 0 } }, ⟨status, 0, 0⟩)
  else if s.notif.pendingCommandValid then
    let (s, result) := valTpmCrbCompletePendingCommand pal s s.notif.pendingCommandLocality
      s.notif.pendingCommandSize
    ({ s with notif := { s.notif with
        pendingCommandValid := false
        pendingCommandLocality := 0
        pendingCommandSize := 0
        pendingCmd := fun _ => 0 } }, result)
  else (s, ⟨.ok, 0, 0⟩)

/-- The branch of the handler for FINISH_NOTIFIED. -/
def handleFinish (pal : Pal σ) (env : Env) (s : Service σ) (r : Request) : Service σ × Result :=
  if env.notifSupported = false then (s, ⟨.notsup, 0, 0⟩)
  else if s.notif.registered = false ∨ s.notif.client ≠ r.sender ∨ s.notif.outstanding = false then
    (s, ⟨.denied, 0, 0⟩)
  else
    let (s, result) := completePending pal s
    ({ s with notif := { s.notif with outstanding := false } }, result)

/-- The dispatch of the handler on the requested function. -/
def dispatch (pal : Pal σ) (env : Env) (s : Service σ) (r : Request) : Service σ × Result :=
  if r.func = crbGetInterfaceVersion then (s, ⟨.okResultsReturned, crbServiceVersion, 0⟩)
  else if r.func = crbGetFeatureInfo then
    if wrap32 r.arg5 = crbFeatureNotification then
      (s, ⟨if env.notifSupported then .ok else .notsup, 0, 0⟩)
    else (s, ⟨.invarg, 0, 0⟩)
  else if r.func = crbStart then
    if r.arg5 > 0xff ∨ r.arg6 > crbLocalityMax then (s, ⟨.invarg, 0, 0⟩)
    else if wrap32 r.arg5 = crbStartTypeLocalityRequest then handleStartLocality env s r
    else if wrap32 r.arg5 = crbStartTypeCommand then handleStartCommand pal env s r
    else (s, ⟨.invarg, 0, 0⟩)
  else if r.func = crbRegisterNotification then handleRegister env s r
  else if r.func = crbUnregisterNotification then handleUnregister env s r
  else if r.func = crbFinishNotified then handleFinish pal env s r
  else (s, ⟨.nofunc, 0, 0⟩)

/-- The direct response to a request. -/
def respond (r : Request) (result : Result) : Response where
  is64 := r.fid = ffaMsgSendDirectReq64
  arg1 := r.receiver * 2 ^ 16 ||| r.sender
  status := result.status
  value := result.value
  rc := result.rc

/-- Handle one request and respond to it. -/
def valTpmCrbServiceHandleRequest (pal : Pal σ) (env : Env) (s : Service σ) (r : Request) :
    Service σ × Response :=
  let (s, result) := dispatch pal env s r
  (s.noteEvent (.answered r (respond r result)), respond r result)

end

end FfaAcs.Tpm
