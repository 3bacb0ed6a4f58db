import FfaAcs.Sync.EndpointInfo
import FfaAcs.Machine.Runs

/-!
# The endpoint table synchronisation

At the start of a test run the dispatcher VM1 sends its endpoint table to every secure partition
it found. `val_send_sync_ep_info` sends each entry as two direct requests. A partition takes the
first one in `val_wait_for_test_fn_req`, keeps its four words and responds from the middle of
`val_sync_ep_info_service`; the second request resumes it there, and it updates the entry and
responds once more from its main loop.

Both sides are modelled by their control points, the places where they are blocked in an FF-A
call or about to make one. A step of the system is a step of VM1's loops or one of its requests
together with the response. The relayer either refuses a request, so that VM1 gets FFA_ERROR, or
delivers it; it delivers the low halves of the registers and accepts a response only from the
partition that was asked. The other services of the main loop and the tests are not modelled:
a partition that enters one of them is `serving` and does not respond.
-/

namespace FfaAcs.Sync

open Machine

/-- `FFA_ERROR_32`. -/
def ffaError32 : BitVec 64 := 0x84000060

/-- `FFA_MSG_SEND_DIRECT_REQ_32`. -/
def ffaMsgSendDirectReq32 : BitVec 64 := 0x8400006F

/-- `FFA_MSG_SEND_DIRECT_RESP_32`. -/
def ffaMsgSendDirectResp32 : BitVec 64 := 0x84000070

/-- `FFA_MSG_SEND_DIRECT_REQ_64`. -/
def ffaMsgSendDirectReq64 : BitVec 64 := 0xC400006F

/-- `EP_INFO_SYNC_SERVICE`. -/
def epInfoSyncService : BitVec 32 := 0xFFEE

/-- `CRB_FUNCTION_ID_MASK`. -/
def crbFunctionIdMask : BitVec 32 := 0xffff0000

/-- `CRB_FUNCTION_ID_BASE`. -/
def crbFunctionIdBase : BitVec 32 := 0x0f000000

/-- `VAL_PARTITION_NOT_PRESENT`. -/
def valPartitionNotPresent : BitVec 4 := 0

/-- The builds: with the test partitions, with the TPM partition alone, and without a secure
partition. -/
inductive Build
  | partitions
  | tpmCrb
  | noSecure
deriving DecidableEq, Repr

/-- `VAL_S_EP_COUNT`. -/
def Build.valSEpCount : Build → ℕ
  | .partitions => 4
  | .tpmCrb => 1
  | .noSecure => 0

/-- The logical identifier `VM1`. -/
def Build.vm1 : Build → ℕ
  | .partitions => 5
  | .tpmCrb => 2
  | .noSecure => 5

/-- Whether a secure partition first looks for requests to the TPM service. -/
def Build.tpmService : Build → Bool
  | .tpmCrb => true
  | _ => false

/-- The part of `ffa_args_t` that 32-bit direct messages use. -/
structure FfaArgs where
  fid : BitVec 64
  arg1 : BitVec 64
  arg2 : BitVec 64
  arg3 : BitVec 64
  arg4 : BitVec 64
  arg5 : BitVec 64
  arg6 : BitVec 64
  arg7 : BitVec 64
deriving DecidableEq

/-- Cleared arguments. -/
def FfaArgs.zero : FfaArgs := ⟨0, 0, 0, 0, 0, 0, 0, 0⟩

/-- `SENDER_ID`, as an endpoint identifier. -/
def senderId (arg1 : BitVec 64) : BitVec 16 := ((arg1 >>> 16) &&& 0xffff).setWidth 16

/-- `RECEIVER_ID`, as an endpoint identifier. -/
def receiverId (arg1 : BitVec 64) : BitVec 16 := (arg1 &&& 0xffff).setWidth 16

/-- The two identifiers of a message, the source in the upper half. -/
def endpoints (source destination : BitVec 16) : BitVec 64 :=
  ((source.setWidth 32 <<< 16) ||| destination.setWidth 32).setWidth 64

/-- The words `arg4` to `arg7`, as a partition reads them. -/
def FfaArgs.words (m : FfaArgs) : Fin 4 → BitVec 32 :=
  ![m.arg4.setWidth 32, m.arg5.setWidth 32, m.arg6.setWidth 32, m.arg7.setWidth 32]

/-- A request of `val_send_sync_ep_info`: the words of one half of entry `j`, to partition `i`. -/
def syncRequest (b : Build) (table : Table) (i j : ℕ) (words : Fin 4 → BitVec 32) : FfaArgs where
  fid := ffaMsgSendDirectReq32
  arg1 := endpoints (table b.vm1).id (table i).id
  arg2 := 0
  arg3 := ((BitVec.ofNat 32 j <<< 16) ||| epInfoSyncService).setWidth 64
  arg4 := (words 0).setWidth 64
  arg5 := (words 1).setWidth 64
  arg6 := (words 2).setWidth 64
  arg7 := (words 3).setWidth 64

/-- The control points of a secure partition. -/
inductive Receiver
  /-- In `val_wait_for_test_fn_req`, blocked until the next request. -/
  | waiting
  /-- In `val_sync_ep_info_service`, blocked after its response to the first half. -/
  | syncing (index : ℕ) (first : Fin 4 → BitVec 32) (myId targetId : BitVec 16)
  /-- In another service or a test. -/
  | serving (request : FfaArgs)
  /-- `val_wait_for_test_fn_req` has returned. -/
  | stopped
  /-- After `VAL_PANIC`. -/
  | panicked
deriving DecidableEq

/-- `val_tpm_crb_service_is_request`. -/
def valTpmCrbServiceIsRequest (m : FfaArgs) : Bool :=
  (m.fid = ffaMsgSendDirectReq64 || m.fid = ffaMsgSendDirectReq32) &&
    (m.arg4.setWidth 32 &&& crbFunctionIdMask) = crbFunctionIdBase

/-- The response of a partition, with all other registers cleared. -/
def respond (source destination : BitVec 16) : FfaArgs :=
  { FfaArgs.zero with fid := ffaMsgSendDirectResp32, arg1 := endpoints source destination }

/-- The assignments at the end of `val_sync_ep_info_service`, in order. -/
def updateEntry (entry info : EndpointInfo) : EndpointInfo :=
  let entry := { entry with name := info.name }
  let entry := { entry with id := info.id }
  let entry := { entry with isValid := info.isValid }
  let entry := { entry with id := info.id }
  let entry := { entry with isSecure := info.isSecure }
  let entry := { entry with tg0 := info.tg0 }
  let entry := { entry with elInfo := info.elInfo }
  let entry := { entry with ecCount := info.ecCount }
  let entry := { entry with epProperties := info.epProperties }
  { entry with uuid := info.uuid }

/-- What a partition does from the message that resumes it to its next response: its control
point and its table after that, and the response if there is one. -/
def resume (tpmService : Bool) (table : Table) :
    Receiver → FfaArgs → Receiver × Table × Option FfaArgs
  | .waiting, m =>
    if tpmService && valTpmCrbServiceIsRequest m then (.serving m, table, none)
    else if m.fid ≠ ffaMsgSendDirectReq32 then (.stopped, table, none)
    else if m.arg3.setWidth 32 &&& 0xffff = epInfoSyncService then
      -- the service names its own identifier `sender` and the requester's `receiver`
      (.syncing (m.arg3.setWidth 32 >>> 16).toNat m.words (receiverId m.arg1) (senderId m.arg1),
        table, some (respond (receiverId m.arg1) (senderId m.arg1)))
    else (.serving m, table, none)
  | .syncing index first myId targetId, m =>
    if m.fid = ffaError32 then (.panicked, table, none)
    else
      (.waiting,
        Function.update table index
          (updateEntry (table index) (EndpointInfo.ofHalves first m.words)),
        some (respond myId targetId))
  | r, _ => (r, table, none)

/-- The control points of `val_send_sync_ep_info`. -/
inductive Vm1
  /-- At the head of the loop over the partitions. -/
  | outer (i : ℕ)
  /-- At the head of the loop over the entries. -/
  | inner (i j : ℕ)
  /-- Before the second request; the first one returned with `fid`. -/
  | half (i j : ℕ) (fid : BitVec 64)
  /-- The function has returned. -/
  | returned
  /-- After `VAL_PANIC`. -/
  | panicked
deriving DecidableEq

/-- VM1's control point, and the control point and the table of every endpoint. -/
structure System where
  vm1 : Vm1
  receivers : BitVec 16 → Receiver
  tables : BitVec 16 → Table

/-- The relayer passes a message on: the low halves of `arg1` and of `arg3` to `arg7` arrive. -/
structure Delivered (fid : BitVec 64) (m m' : FfaArgs) : Prop where
  fid : m'.fid = fid
  arg1 : m'.arg1.setWidth 32 = m.arg1.setWidth 32
  arg3 : m'.arg3.setWidth 32 = m.arg3.setWidth 32
  arg4 : m'.arg4.setWidth 32 = m.arg4.setWidth 32
  arg5 : m'.arg5.setWidth 32 = m.arg5.setWidth 32
  arg6 : m'.arg6.setWidth 32 = m.arg6.setWidth 32
  arg7 : m'.arg7.setWidth 32 = m.arg7.setWidth 32

/-- What a partition does with a delivered request. -/
def System.serve (s : System) (e : BitVec 16) (r : Receiver) (table : Table) : System :=
  { s with
    receivers := Function.update s.receivers e r
    tables := Function.update s.tables e table }

/-- A direct request of VM1, to the endpoint its `arg1` names, and the arguments it returns with. -/
inductive Call (b : Build) (s : System) (m : FfaArgs) : FfaArgs → System → Prop
  /-- The relayer refuses the request. -/
  | refused {reply : FfaArgs} : reply.fid = ffaError32 → Call b s m reply s
  /-- The relayer delivers the request and then the response. -/
  | answered {e : BitVec 16} {m' resp reply : FfaArgs} {r : Receiver} {table : Table} :
    e = receiverId m.arg1 → Delivered ffaMsgSendDirectReq32 m m' →
    resume b.tpmService (s.tables e) (s.receivers e) m' = (r, table, some resp) →
    receiverId resp.arg1 = senderId m.arg1 → senderId resp.arg1 = e →
    Delivered ffaMsgSendDirectResp32 resp reply → Call b s m reply (s.serve e r table)

/-- The kinds of steps. -/
inductive Event
  | control
  | request
deriving DecidableEq

/-- The steps of `val_send_sync_ep_info` with the table `T` of VM1. -/
inductive Step (b : Build) (T : Table) (s : System) : Event → System → Prop
  /-- A partition that is not present is skipped. -/
  | skip {i : ℕ} : s.vm1 = .outer i → i ≤ b.valSEpCount →
    (T i).isValid = valPartitionNotPresent → Step b T s .control { s with vm1 := .outer (i + 1) }
  /-- The entries are sent to a partition that is present. -/
  | enter {i : ℕ} : s.vm1 = .outer i → i ≤ b.valSEpCount →
    (T i).isValid ≠ valPartitionNotPresent → Step b T s .control { s with vm1 := .inner i 1 }
  /-- All partitions have been visited. -/
  | finish {i : ℕ} : s.vm1 = .outer i → b.valSEpCount < i →
    Step b T s .control { s with vm1 := .returned }
  /-- The first half of an entry. -/
  | first {i j : ℕ} {reply : FfaArgs} {s' : System} : s.vm1 = .inner i j → j ≤ b.valSEpCount + 1 →
    Call b s (syncRequest b T i j (T j).firstHalf) reply s' →
    Step b T s .request { s' with vm1 := .half i j reply.fid }
  /-- The second half of an entry, and the check for errors of both requests. -/
  | second {i j : ℕ} {fid : BitVec 64} {reply : FfaArgs} {s' : System} : s.vm1 = .half i j fid →
    Call b s (syncRequest b T i j (T j).secondHalf) reply s' →
    Step b T s .request
      { s' with vm1 := if fid = ffaError32 ∨ reply.fid = ffaError32 then .panicked
                       else .inner i (j + 1) }
  /-- All entries have been sent. -/
  | leave {i j : ℕ} : s.vm1 = .inner i j → b.valSEpCount + 1 < j →
    Step b T s .control { s with vm1 := .outer (i + 1) }

end FfaAcs.Sync
