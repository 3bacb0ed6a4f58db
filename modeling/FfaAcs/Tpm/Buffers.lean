import FfaAcs.Machine.Arrays
import FfaAcs.Tpm.Mmio

/-!
# The arrays of the service

The service works on three arrays of 1024 bytes: the command, the response and the command it has
deferred. Here its functions are written once more with these arrays and with every access to them
checked, where the model of the service has functions of bytes. The sizes in these accesses come from
the client and from the platform. The checked service never fails and does what the service does, so no
access leaves its array.

The platform may write its response into the array of the service or somewhere else; a flag of each
request says which.
-/

namespace FfaAcs.Tpm

open Machine

/-- An array of `VAL_TPM_CRB_DATA_BUFFER_SIZE` bytes. -/
abbrev Bytes := Fin crbDataBufferSize → UInt8

/-- `g_tpm_cmd`, `g_tpm_rsp` and `g_tpm_notification_pending_cmd`. -/
structure Arrays where
  cmd : Bytes
  rsp : Bytes
  pendingCmd : Bytes

/-- The arrays before the first request. -/
def Arrays.zero : Arrays := ⟨fun _ => 0, fun _ => 0, fun _ => 0⟩

/-- The bytes of an array, with zeros behind it. -/
def content (b : Bytes) (i : ℕ) : UInt8 := (readAt b i).getD 0

/-! ## The service with checked accesses -/

/-- `val_memset` of a whole array with 0. -/
def memsetZero (b : Bytes) : Option Bytes := fillFrom (fun _ => some 0) b 0 crbDataBufferSize

/-- `val_tpm_copy_from_mmio`. -/
def copyFromMmioChecked (m : ByteMemory) (dst : Bytes) (src size : ℕ) : Option Bytes :=
  fillFrom (fun i => some (m (src + i))) dst 0 size

/-- `val_tpm_copy`. -/
def copyChecked (dst : Bytes) (src : ℕ → Option UInt8) (size : ℕ) : Option Bytes := fillFrom src dst 0 size

/-- `val_tpm_be32_read` -/
def be32ReadChecked (b : Bytes) (offset : ℕ) : Option ℕ := do
  let b₀ ← readAt b offset
  let b₁ ← readAt b (offset + 1)
  let b₂ ← readAt b (offset + 2)
  let b₃ ← readAt b (offset + 3)
  some (b₀.toNat * 2 ^ 24 + b₁.toNat * 2 ^ 16 + b₂.toNat * 2 ^ 8 + b₃.toNat)

/-- A byte of a response behind a pointer of the platform, which has `size` bytes. -/
def replyByte (bytes : ℕ → UInt8) (size i : ℕ) : Option UInt8 := if i < size then some (bytes i) else none

section

variable {σ : Type} (pal : Pal σ) (inPlace : Bool)

/-- `val_tpm_copy_to_mmio`, from byte `i` on. -/
def copyToMmioChecked (dst : ℕ) (src : Bytes) (s : Service σ) (i : ℕ) : ℕ → Option (Service σ)
  | 0 => some s
  | count + 1 => do
    let b ← readAt src i
    copyToMmioChecked dst src
      { s with mem := s.mem.poke (dst + i) b, accesses := s.accesses ++ [.write (dst + i) 1] } (i + 1) count

/-- Bring the command into `g_tpm_cmd`, if it is not there yet. -/
def loadCommand (a : Arrays) (cmdSize : ℕ) (fresh : Bool) : Option Bytes :=
  if fresh then some a.cmd
  else do
    let zeroed ← memsetZero a.cmd
    copyChecked zeroed (readAt a.pendingCmd) cmdSize

/-- Bring the response into `g_tpm_rsp`, if it is not there yet. -/
def loadResponse (rsp : Bytes) (bytes : ℕ → UInt8) (rspSize : ℕ) : Option Bytes :=
  if inPlace then some fun i => bytes i.val else copyChecked rsp (replyByte bytes rspSize) rspSize

/-- The response code, if the response has a header. -/
def responseCode (rsp : Bytes) (rspSize : ℕ) : Option ℕ :=
  if rspSize ≥ 10 then be32ReadChecked rsp 6 else some CrbStatus.invCrbCtrlData.code

/-- `val_tpm_execute_command_buffer` for `g_tpm_cmd`, if `fresh`, and for the deferred command. With
CRB_OK it returns the size of the response, which stands in `g_tpm_rsp`, and the response code. -/
def executeCommandBufferChecked (a : Arrays) (s : Service σ) (locality cmdSize : ℕ) (fresh : Bool) :
    Option (Arrays × Service σ × Option (ℕ × ℕ)) :=
  if cmdSize > crbDataBufferSize then some (a, s, none)
  else do
    let cmd ← loadCommand a cmdSize fresh
    let rsp ← memsetZero a.rsp
    let s := s.noteEvent (.execute locality cmdSize s.active (granted s.mem locality))
    let (reply, tpm) := pal s.tpm cmdSize (content cmd)
    let s := { s with tpm := tpm }
    match reply.success, reply.rsp with
    | true, some bytes =>
      if reply.rspSize > crbDataBufferSize then some ({ a with cmd := cmd, rsp := rsp }, s, none)
      else do
        let rsp ← loadResponse inPlace rsp bytes reply.rspSize
        let rc ← responseCode rsp reply.rspSize
        some ({ a with cmd := cmd, rsp := rsp }, s, some (reply.rspSize, rc))
    | _, _ => some ({ a with cmd := cmd, rsp := rsp }, s, none)

/-- Write the response and clear CTRL_START, or report that the command could not be executed. -/
def publishChecked (locality : ℕ) :
    Arrays × Service σ × Option (ℕ × ℕ) → Option (Arrays × Service σ × Result)
  | (a, s, none) => some (a, s, ⟨.invCrbCtrlData, 0, 0⟩)
  | (a, s, some (rspSize, rc)) => do
    let s ← copyToMmioChecked (valTpmCrbDataBuffer locality) a.rsp s 0 rspSize
    some (a, s.write32 (valTpmCrbCtrlStart locality) 0, ⟨.ok, rspSize, rc⟩)

/-- START(COMMAND) at once. -/
def startCommandChecked (a : Arrays) (s : Service σ) (locality : ℕ) :
    Option (Arrays × Service σ × Result) :=
  let (s, eligible) := valTpmCrbCommandNotifyEligible s locality
  if eligible = false then some (a, s, ⟨.ok, 0, 0⟩)
  else do
    let cmd ← copyFromMmioChecked s.mem a.cmd (valTpmCrbDataBuffer locality) crbDataBufferSize
    let s := noteCopyFromMmio s (valTpmCrbDataBuffer locality) crbDataBufferSize
    let cmdSize ← be32ReadChecked cmd 2
    let executed ← executeCommandBufferChecked pal inPlace { a with cmd := cmd } s locality cmdSize true
    publishChecked locality executed

/-- Complete a deferred START(COMMAND). -/
def completePendingCommandChecked (a : Arrays) (s : Service σ) (locality cmdSize : ℕ) :
    Option (Arrays × Service σ × Result) := do
  let executed ← executeCommandBufferChecked pal inPlace a s locality cmdSize false
  publishChecked locality executed

/-- Read the command of a locality and save it. -/
def saveCommandChecked (a : Arrays) (s : Service σ) (locality : ℕ) : Option (Arrays × Service σ) := do
  let cmd ← copyFromMmioChecked s.mem a.pendingCmd (valTpmCrbDataBuffer locality) crbDataBufferSize
  let s := noteCopyFromMmio s (valTpmCrbDataBuffer locality) crbDataBufferSize
  let cmdSize ← be32ReadChecked cmd 2
  some ({ a with pendingCmd := cmd }, { s with notif := { s.notif with
    pendingCommandLocality := locality
    pendingCmd := content cmd
    pendingCommandSize := cmdSize
    pendingCommandValid := true } })

/-- Drop the saved command and execute the one in the buffer. -/
def executeUnsavedChecked (a : Arrays) (s : Service σ) (locality : ℕ) :
    Option (Arrays × Service σ × Result) := do
  let cmd ← memsetZero a.pendingCmd
  let s := { s with notif := { s.notif with
    pendingCommandValid := false
    pendingCommandSize := 0
    pendingCmd := content cmd } }
  startCommandChecked pal inPlace { a with pendingCmd := cmd } s locality

/-- The branch of the handler for START(COMMAND). -/
def handleStartCommandChecked (env : Env) (a : Arrays) (s : Service σ) (r : Request) :
    Option (Arrays × Service σ × Result) :=
  let locality := wrap32 r.arg6
  match if mayDefer s r then valTpmCrbCommandNotifyEligible s locality else (s, false) with
  | (s, true) => do
    let (a, s) ← saveCommandChecked a s locality
    match valTpmSignalNotification env s r.sender r.receiver with
    | (s, true) => some (a, s, ⟨.ok, 0, 0⟩)
    | (s, false) => executeUnsavedChecked pal inPlace a s locality
  | (s, false) => startCommandChecked pal inPlace a s locality

/-- The branch of the handler for UNREGISTER_NOTIFICATION. -/
def handleUnregisterChecked (env : Env) (a : Arrays) (s : Service σ) (r : Request) :
    Option (Arrays × Service σ × Result) :=
  if env.notifSupported = false then some (a, s, ⟨.notsup, 0, 0⟩)
  else if s.notif.registered = false ∨ s.notif.client ≠ r.sender then some (a, s, ⟨.denied, 0, 0⟩)
  else if s.notif.outstanding then some (a, s, ⟨.denied, 0, 0⟩)
  else do
    let cmd ← memsetZero a.pendingCmd
    some ({ a with pendingCmd := cmd },
      { s with notif := { Notification.cleared with pendingCmd := content cmd } }, ⟨.ok, 0, 0⟩)

/-- Complete the deferred work. -/
def completePendingChecked (a : Arrays) (s : Service σ) : Option (Arrays × Service σ × Result) :=
  if s.notif.pendingLocalityValid then
    let (s, status) := valTpmCrbApplyLocalityRequest s s.notif.pendingLocality
      s.notif.pendingLocalityCtrl
    some (a, { s with notif := { s.notif with
        pendingLocalityValid := false
        pendingLocality := 0
        pendingLocalityCtrl := 0 } }, ⟨status, 0, 0⟩)
  else if s.notif.pendingCommandValid then do
    let (a, s, result) ← completePendingCommandChecked pal inPlace a s s.notif.pendingCommandLocality
      s.notif.pendingCommandSize
    let cmd ← memsetZero a.pendingCmd
    some ({ a with pendingCmd := cmd }, { s with notif := { s.notif with
        pendingCommandValid := false
        pendingCommandLocality := 0
        pendingCommandSize := 0
        pendingCmd := content cmd } }, result)
  else some (a, s, ⟨.ok, 0, 0⟩)

/-- The branch of the handler for FINISH_NOTIFIED. -/
def handleFinishChecked (env : Env) (a : Arrays) (s : Service σ) (r : Request) :
    Option (Arrays × Service σ × Result) :=
  if env.notifSupported = false then some (a, s, ⟨.notsup, 0, 0⟩)
  else if s.notif.registered = false ∨ s.notif.client ≠ r.sender ∨ s.notif.outstanding = false then
    some (a, s, ⟨.denied, 0, 0⟩)
  else do
    let (a, s, result) ← completePendingChecked pal inPlace a s
    some (a, { s with notif := { s.notif with outstanding := false } }, result)

/-- The dispatch of the handler. The branches that do not use an array are those of the service. -/
def dispatchChecked (env : Env) (a : Arrays) (s : Service σ) (r : Request) :
    Option (Arrays × Service σ × Result) :=
  if r.func = crbStart ∧ ¬(r.arg5 > 0xff ∨ r.arg6 > crbLocalityMax) ∧
      wrap32 r.arg5 = crbStartTypeCommand then handleStartCommandChecked pal inPlace env a s r
  else if r.func = crbUnregisterNotification then handleUnregisterChecked env a s r
  else if r.func = crbFinishNotified then handleFinishChecked pal inPlace env a s r
  else some (a, dispatch pal env s r)

/-- Handle one request and respond to it. -/
def handleRequestChecked (env : Env) (a : Arrays) (s : Service σ) (r : Request) :
    Option (Arrays × Service σ × Response) := do
  let (a, s, result) ← dispatchChecked pal inPlace env a s r
  some (a, s.noteEvent (.answered r (respond r result)), respond r result)

end

/-! ## The checked accesses succeed -/

section

variable (b : Bytes)

/-- A byte of an array. -/
theorem content_of_lt {i : ℕ} (h : i < crbDataBufferSize) : content b i = b ⟨i, h⟩ := by
  rw [content, readAt_of_lt b h, Option.getD_some]

/-- There are zeros behind an array. -/
theorem content_of_le {i : ℕ} (h : crbDataBufferSize ≤ i) : content b i = 0 := by
  rw [content, readAt, dif_neg (by omega), Option.getD_none]

/-- A read inside an array, in terms of its content. -/
theorem readAt_eq_content {i : ℕ} (h : i < crbDataBufferSize) : readAt b i = some (content b i) := by
  rw [content_of_lt b h, readAt_of_lt b h]

/-- Clearing an array. -/
theorem memsetZero_eq : memsetZero b = some fun _ => 0 := by
  rw [memsetZero, fillFrom_eq (fun _ => 0) b 0 crbDataBufferSize (fun _ _ _ => rfl) (by omega),
    Option.some_inj]
  funext j
  exact if_pos ⟨Nat.zero_le _, by omega⟩

/-- The content of a cleared array. -/
theorem content_zero : content (fun _ => 0) = fun _ => 0 := by
  funext i
  by_cases h : i < crbDataBufferSize
  · rw [content_of_lt _ h]
  · rw [content_of_le _ (by omega)]

/-- Reading the data buffer of a locality. -/
theorem copyFromMmioChecked_eq (m : ByteMemory) (src : ℕ) :
    ∃ b', copyFromMmioChecked m b src crbDataBufferSize = some b' ∧
      content b' = mmioBytes m src crbDataBufferSize := by
  refine ⟨_, fillFrom_eq (fun i => m (src + i)) b 0 crbDataBufferSize (fun _ _ _ => rfl) (by omega), ?_⟩
  funext i
  by_cases h : i < crbDataBufferSize
  · rw [content_of_lt _ h, mmioBytes, if_pos h]
    exact if_pos ⟨Nat.zero_le _, by omega⟩
  · rw [content_of_le _ (by omega), mmioBytes, if_neg h]

/-- A copy that fits the array from a source that has the bytes. -/
theorem copyChecked_eq (src : ℕ → Option UInt8) (f : ℕ → UInt8) {size : ℕ}
    (hsrc : ∀ i < size, src i = some (f i)) (hsize : size ≤ crbDataBufferSize) :
    ∃ b', copyChecked b src size = some b' ∧
      ∀ i < crbDataBufferSize, content b' i = if i < size then f i else content b i := by
  refine ⟨_, fillFrom_eq f b 0 size (fun i _ hi => hsrc i (by omega)) (by omega), fun i hi => ?_⟩
  rw [content_of_lt _ hi, content_of_lt b hi]
  exact if_congr (by simp) rfl rfl

/-- A big-endian number inside an array. -/
theorem be32ReadChecked_eq (offset : ℕ) (h : offset + 4 ≤ crbDataBufferSize) :
    be32ReadChecked b offset = some (valTpmBe32Read (content b) offset) := by
  rw [be32ReadChecked, readAt_eq_content b (by omega), readAt_eq_content b (by omega),
    readAt_eq_content b (by omega), readAt_eq_content b (by omega)]
  rfl

/-- A big-endian number depends on its four bytes. -/
theorem valTpmBe32Read_congr {f g : ℕ → UInt8} {offset : ℕ}
    (h : ∀ i, offset ≤ i → i < offset + 4 → f i = g i) :
    valTpmBe32Read f offset = valTpmBe32Read g offset := by
  rw [valTpmBe32Read, valTpmBe32Read, h offset (by omega) (by omega), h (offset + 1) (by omega) (by omega),
    h (offset + 2) (by omega) (by omega), h (offset + 3) (by omega) (by omega)]

variable {σ : Type}

/-- Writing a part of an array to the CRB memory. -/
theorem copyToMmioChecked_eq (dst : ℕ) (s : Service σ) (i count : ℕ)
    (h : i + count ≤ crbDataBufferSize) :
    copyToMmioChecked dst b s i count = some { s with
      mem := fun x => if dst + i ≤ x ∧ x < dst + i + count then content b (x - dst) else s.mem x
      accesses := s.accesses ++ (List.range' i count).map fun k => .write (dst + k) 1 } := by
  induction count generalizing s i with
  | zero =>
    have hmem : s.mem = fun x => if dst + i ≤ x ∧ x < dst + i + 0 then content b (x - dst) else s.mem x := by
      funext x
      exact (if_neg (by omega)).symm
    rw [copyToMmioChecked, ← hmem]
    simp
  | succ count ih =>
    rw [copyToMmioChecked, readAt_eq_content b (by omega), Option.bind_eq_bind, Option.bind_some,
      ih _ (i + 1) (by omega), Option.some_inj, List.range'_succ, List.map_cons]
    congr 1
    · funext x
      simp only [ByteMemory.poke]
      by_cases hx : x = dst + i
      · rw [if_neg (by omega), if_pos hx, if_pos (by omega), hx, Nat.add_sub_cancel_left]
      · rw [if_neg hx]
        exact if_congr (by omega) rfl rfl
    · rw [List.append_assoc]
      rfl

end

/-! ## The checked service is the service -/

section

variable {σ : Type} (pal : Pal σ) (inPlace : Bool) {a : Arrays} {s : Service σ}

/-- The array of the deferred command holds what the service has for it. -/
def Matches (a : Arrays) (s : Service σ) : Prop := s.notif.pendingCmd = content a.pendingCmd

/-- The checked computation succeeds with the result of the service, and the arrays match it again. -/
def Simulates (x : Option (Arrays × Service σ × Result)) (y : Service σ × Result) : Prop :=
  ∃ a, x = some (a, y) ∧ Matches a y.1

/-- The command that is handed to the platform. -/
theorem loadCommand_eq {size : ℕ} (hsize : size ≤ crbDataBufferSize) (fresh : Bool) :
    ∃ cmd, loadCommand a size fresh = some cmd ∧ content cmd = if fresh then content a.cmd
      else fun i => if i < size then content a.pendingCmd i else 0 := by
  cases fresh with
  | true => exact ⟨a.cmd, rfl, rfl⟩
  | false =>
    obtain ⟨cmd, hcmd, hcontent⟩ := copyChecked_eq (fun _ => 0) (readAt a.pendingCmd)
      (content a.pendingCmd) (fun i hi => readAt_eq_content _ (by omega)) hsize
    refine ⟨cmd, ?_, ?_⟩
    · rw [loadCommand, if_neg Bool.false_ne_true, memsetZero_eq]
      exact hcmd
    · rw [if_neg Bool.false_ne_true]
      funext i
      by_cases hi : i < crbDataBufferSize
      · rw [hcontent i hi, content_zero]
      · rw [content_of_le _ (by omega), if_neg (by omega)]

/-- The response that the platform leaves, and its code. -/
theorem loadResponse_eq (rsp : Bytes) (bytes : ℕ → UInt8) {size : ℕ} (hsize : size ≤ crbDataBufferSize) :
    ∃ rsp', loadResponse inPlace rsp bytes size = some rsp' ∧ (∀ i < size, content rsp' i = bytes i) ∧
      responseCode rsp' size =
        some (if size ≥ 10 then valTpmBe32Read bytes 6 else CrbStatus.invCrbCtrlData.code) := by
  have hcode (rsp' : Bytes) (hbytes : ∀ i < size, content rsp' i = bytes i) :
      responseCode rsp' size =
        some (if size ≥ 10 then valTpmBe32Read bytes 6 else CrbStatus.invCrbCtrlData.code) := by
    unfold responseCode
    split
    case isTrue hheader =>
      rw [be32ReadChecked_eq rsp' _ (by decide), valTpmBe32Read_congr fun i _ hi => hbytes i (by omega)]
    case isFalse hheader => rfl
  cases inPlace with
  | true =>
    have hbytes : ∀ i < size, content (fun i => bytes i.val) i = bytes i :=
      fun i hi => content_of_lt _ (hi.trans_le hsize)
    exact ⟨_, rfl, hbytes, hcode _ hbytes⟩
  | false =>
    obtain ⟨rsp', hrsp, hcontent⟩ := copyChecked_eq rsp (replyByte bytes size) bytes
      (fun i hi => if_pos hi) hsize
    have hbytes : ∀ i < size, content rsp' i = bytes i := fun i hi => by
      rw [hcontent i (by omega), if_pos hi]
    exact ⟨rsp', hrsp, hbytes, hcode rsp' hbytes⟩

/-- Publishing what stands in the response array. -/
theorem publishChecked_some (l : ℕ) (executed : Executed)
    (hrsp : ∀ i < executed.rspSize, content a.rsp i = executed.rsp i) :
    publishChecked l (a, s, some (executed.rspSize, executed.rc)) =
      some (a, publishResponse l (s, some executed)) := by
  have hmem : (fun x => if valTpmCrbDataBuffer l + 0 ≤ x ∧ x < valTpmCrbDataBuffer l + 0 + executed.rspSize then
        content a.rsp (x - valTpmCrbDataBuffer l) else s.mem x) =
      s.mem.blit (valTpmCrbDataBuffer l) executed.rspSize executed.rsp := by
    funext x
    rw [ByteMemory.blit]
    split
    case isTrue hx => rw [if_pos (by omega), hrsp _ (by omega)]
    case isFalse hx => rw [if_neg (by omega)]
  rw [publishChecked, copyToMmioChecked_eq a.rsp (valTpmCrbDataBuffer l) s 0 executed.rspSize
    (by have := executed.fits; omega), hmem, ← List.range_eq_range']
  rfl

/-- Executing a command and publishing its response. -/
theorem publish_execute_checked (l size : ℕ) (fresh : Bool) {cmd : ℕ → UInt8}
    (hcmd : cmd = if fresh then content a.cmd else content a.pendingCmd) :
    ∃ a', (executeCommandBufferChecked pal inPlace a s l size fresh).bind (publishChecked l) =
        some (a', publishResponse l (valTpmExecuteCommandBuffer pal s l cmd size fresh)) ∧
      a'.pendingCmd = a.pendingCmd := by
  unfold executeCommandBufferChecked valTpmExecuteCommandBuffer
  by_cases hlong : size > crbDataBufferSize
  · rw [if_pos hlong, if_pos hlong]
    exact ⟨a, rfl, rfl⟩
  rw [if_neg hlong, if_neg hlong]
  obtain ⟨tpmCmd, hchecked, hcontent⟩ := loadCommand_eq (a := a) (Nat.not_lt.1 hlong) fresh
  have hsame : content tpmCmd = if fresh then cmd else fun i => if i < size then cmd i else 0 := by
    rw [hcontent, hcmd]
    cases fresh <;> rfl
  simp only [hchecked, Option.bind_eq_bind, Option.bind_some, memsetZero_eq, hsame]
  rcases pal (s.noteEvent _).tpm size _ with ⟨⟨success, rsp, rspSize⟩, tpm⟩
  cases success with
  | false => exact ⟨_, rfl, rfl⟩
  | true =>
    cases rsp with
    | none => exact ⟨_, rfl, rfl⟩
    | some bytes =>
      dsimp only
      by_cases hbig : rspSize > crbDataBufferSize
      · rw [if_pos hbig, dif_pos hbig]
        exact ⟨_, rfl, rfl⟩
      rw [if_neg hbig, dif_neg hbig]
      obtain ⟨rsp', hrsp, hbytes, hcode⟩ :=
        loadResponse_eq inPlace (fun _ => 0) bytes (Nat.not_lt.1 hbig)
      rw [hrsp, Option.bind_some, hcode, Option.bind_some, Option.bind_some]
      exact ⟨_, publishChecked_some l ⟨bytes, rspSize, _, Nat.not_lt.1 hbig⟩ hbytes, rfl⟩

/-- Executing a command keeps the notification variables. -/
theorem publish_execute_notif (l size : ℕ) (cmd : ℕ → UInt8) (fresh : Bool) :
    (publishResponse l (valTpmExecuteCommandBuffer pal s l cmd size fresh)).1.notif = s.notif := by
  obtain ⟨acc, heq⟩ := publish_execute_eq pal s l cmd size fresh
  rw [heq, runCommand]

/-- Testing whether a command can be executed keeps the notification variables. -/
theorem commandNotifyEligible_notif (l : ℕ) :
    (valTpmCrbCommandNotifyEligible s l).1.notif = s.notif := by
  obtain ⟨acc, heq⟩ := commandNotifyEligible_eq s l
  rw [heq]

/-- START(COMMAND) at once. -/
theorem startCommandChecked_simulates (h : Matches a s) (l : ℕ) :
    Simulates (startCommandChecked pal inPlace a s l) (valTpmCrbStartCommand pal s l) := by
  have hchecked : Matches a (valTpmCrbCommandNotifyEligible s l).1 := by
    rw [Matches, commandNotifyEligible_notif]
    exact h
  unfold startCommandChecked valTpmCrbStartCommand
  generalize valTpmCrbCommandNotifyEligible s l = checked at hchecked ⊢
  obtain ⟨t, eligible⟩ := checked
  cases eligible with
  | false => exact ⟨a, rfl, hchecked⟩
  | true =>
    obtain ⟨cmd, hcopy, hcontent⟩ := copyFromMmioChecked_eq a.cmd t.mem (valTpmCrbDataBuffer l)
    have hsize := be32ReadChecked_eq cmd 2 (by decide)
    simp only [Bool.true_eq_false, if_false]
    rw [hcopy, Option.bind_eq_bind, Option.bind_some, hsize, Option.bind_eq_bind, Option.bind_some, hcontent]
    generalize mmioBytes t.mem (valTpmCrbDataBuffer l) crbDataBufferSize = command at hcontent ⊢
    generalize valTpmBe32Read command 2 = size
    obtain ⟨a', hpublish, hpending⟩ := publish_execute_checked pal inPlace
      (a := { a with cmd := cmd }) (s := noteCopyFromMmio t (valTpmCrbDataBuffer l) crbDataBufferSize) l
      size true hcontent.symm
    refine ⟨a', hpublish, ?_⟩
    rw [Matches, publish_execute_notif, hpending]
    exact hchecked

/-- Saving a command. -/
theorem saveCommandChecked_eq (l : ℕ) :
    ∃ a', saveCommandChecked a s l = some (a', saveCommand s l) ∧ Matches a' (saveCommand s l) := by
  obtain ⟨cmd, hcopy, hcontent⟩ := copyFromMmioChecked_eq a.pendingCmd s.mem (valTpmCrbDataBuffer l)
  unfold saveCommandChecked saveCommand
  simp only [hcopy, be32ReadChecked_eq cmd 2 (by decide), hcontent, Option.bind_eq_bind,
    Option.bind_some]
  exact ⟨_, rfl, hcontent.symm⟩

/-- Signalling a client keeps the deferred command. -/
theorem Matches.signal (h : Matches a s) (env : Env) (client service : ℕ) :
    Matches a (valTpmSignalNotification env s client service).1 := by
  unfold valTpmSignalNotification
  dsimp only
  split_ifs
  all_goals exact h

/-- START(COMMAND). -/
theorem handleStartCommandChecked_simulates (h : Matches a s) (env : Env) (r : Request) :
    Simulates (handleStartCommandChecked pal inPlace env a s r) (handleStartCommand pal env s r) := by
  unfold handleStartCommandChecked handleStartCommand
  dsimp only
  have hchecked : Matches a (if mayDefer s r then valTpmCrbCommandNotifyEligible s (wrap32 r.arg6)
      else (s, false)).1 := by
    split
    · rw [Matches, commandNotifyEligible_notif]
      exact h
    · exact h
  generalize (if mayDefer s r then valTpmCrbCommandNotifyEligible s (wrap32 r.arg6) else (s, false)) =
    checked at hchecked ⊢
  obtain ⟨t, eligible⟩ := checked
  cases eligible with
  | false => exact startCommandChecked_simulates pal inPlace hchecked _
  | true =>
    obtain ⟨a', hsave, hmatch⟩ := saveCommandChecked_eq (a := a) (s := t) (wrap32 r.arg6)
    have hsignalled := hmatch.signal env r.sender r.receiver
    simp only [hsave, Option.bind_eq_bind, Option.bind_some]
    generalize valTpmSignalNotification env (saveCommand t (wrap32 r.arg6)) r.sender r.receiver =
      signalled at hsignalled ⊢
    obtain ⟨u, signalled⟩ := signalled
    cases signalled with
    | true => exact ⟨a', rfl, hsignalled⟩
    | false =>
      simp only [executeUnsavedChecked, memsetZero_eq, Option.bind_eq_bind, Option.bind_some,
        content_zero]
      exact startCommandChecked_simulates pal inPlace (by rw [Matches, content_zero]) _

/-- UNREGISTER_NOTIFICATION. -/
theorem handleUnregisterChecked_simulates (h : Matches a s) (env : Env) (r : Request) :
    Simulates (handleUnregisterChecked env a s r) (handleUnregister env s r) := by
  unfold handleUnregisterChecked handleUnregister
  split_ifs
  · exact ⟨a, rfl, h⟩
  · exact ⟨a, rfl, h⟩
  · exact ⟨a, rfl, h⟩
  · simp only [memsetZero_eq, Option.bind_eq_bind, Option.bind_some, content_zero]
    exact ⟨_, rfl, content_zero.symm⟩

/-- Applying LOC_CTRL data keeps the notification variables. -/
theorem applyLocalityRequest_notif (l ctrl : ℕ) :
    (valTpmCrbApplyLocalityRequest s l ctrl).1.notif = s.notif := by
  obtain ⟨acc, heq⟩ := applyLocalityRequest_eq s l ctrl
  rw [heq]

/-- Completing the deferred work. -/
theorem completePendingChecked_simulates (h : Matches a s) :
    Simulates (completePendingChecked pal inPlace a s) (completePending pal s) := by
  unfold completePendingChecked completePending
  split_ifs
  · refine ⟨a, rfl, ?_⟩
    have hnotif := applyLocalityRequest_notif (s := s) s.notif.pendingLocality s.notif.pendingLocalityCtrl
    exact (congrArg Notification.pendingCmd hnotif).trans h
  · obtain ⟨a', hpublish, hpending⟩ := publish_execute_checked pal inPlace (a := a) (s := s)
      s.notif.pendingCommandLocality s.notif.pendingCommandSize false h
    have hcomplete : completePendingCommandChecked pal inPlace a s s.notif.pendingCommandLocality
        s.notif.pendingCommandSize = some (a', valTpmCrbCompletePendingCommand pal s
          s.notif.pendingCommandLocality s.notif.pendingCommandSize) := hpublish
    simp only [hcomplete, memsetZero_eq, Option.bind_eq_bind, Option.bind_some, content_zero]
    exact ⟨_, rfl, content_zero.symm⟩
  · exact ⟨a, rfl, h⟩

/-- FINISH_NOTIFIED. -/
theorem handleFinishChecked_simulates (h : Matches a s) (env : Env) (r : Request) :
    Simulates (handleFinishChecked pal inPlace env a s r) (handleFinish pal env s r) := by
  unfold handleFinishChecked handleFinish
  split_ifs
  · exact ⟨a, rfl, h⟩
  · exact ⟨a, rfl, h⟩
  · obtain ⟨a', hcomplete, hmatch⟩ := completePendingChecked_simulates pal inPlace h
    simp only [hcomplete, Option.bind_eq_bind, Option.bind_some]
    exact ⟨a', rfl, hmatch⟩

/-- The branches that use no array keep the deferred command. -/
theorem Matches.dispatch (h : Matches a s) (env : Env) (r : Request)
    (hcommand : ¬(r.func = crbStart ∧ ¬(r.arg5 > 0xff ∨ r.arg6 > crbLocalityMax) ∧
      wrap32 r.arg5 = crbStartTypeCommand))
    (hunregister : r.func ≠ crbUnregisterNotification) (hfinish : r.func ≠ crbFinishNotified) :
    Matches a (dispatch pal env s r).1 := by
  have hregister : Matches a (handleRegister env s r).1 := by
    unfold handleRegister
    split_ifs
    all_goals exact h
  have hlocality : Matches a (handleStartLocality env s r).1 := by
    unfold handleStartLocality
    split
    · have hsaved : Matches a (saveLocalityRequest s (wrap32 r.arg6)) := h
      have hsignalled := hsaved.signal env r.sender r.receiver
      dsimp only
      generalize valTpmSignalNotification env (saveLocalityRequest s (wrap32 r.arg6)) r.sender
        r.receiver = signalled at hsignalled ⊢
      obtain ⟨t, signalled⟩ := signalled
      cases signalled with
      | true => exact hsignalled
      | false =>
        obtain ⟨acc, heq⟩ := applySavedLocality_eq t (wrap32 r.arg6)
        have happlied : Matches a (applySavedLocality t (wrap32 r.arg6)).1 := by
          rw [heq]
          exact hsignalled
        exact happlied
    · obtain ⟨acc, heq⟩ := startLocalityRequest_eq s (wrap32 r.arg6)
      dsimp only
      rw [heq]
      exact h
  unfold Tpm.dispatch
  split_ifs
  all_goals first
    | exact h
    | assumption
    | contradiction
    | exact absurd ⟨by assumption, by assumption, by assumption⟩ hcommand

/-- The handler up to its response. -/
theorem dispatchChecked_simulates (h : Matches a s) (env : Env) (r : Request) :
    Simulates (dispatchChecked pal inPlace env a s r) (dispatch pal env s r) := by
  unfold dispatchChecked
  split_ifs with hcommand hunregister hfinish
  · obtain ⟨hstart, hargs, htype⟩ := hcommand
    have hdispatch : dispatch pal env s r = handleStartCommand pal env s r := by
      simp [dispatch, hstart, hargs, htype, crbStart, crbGetInterfaceVersion, crbGetFeatureInfo,
        crbStartTypeCommand, crbStartTypeLocalityRequest]
    rw [hdispatch]
    exact handleStartCommandChecked_simulates pal inPlace h env r
  · have hdispatch : dispatch pal env s r = handleUnregister env s r := by
      simp [dispatch, hunregister, crbStart, crbGetInterfaceVersion, crbGetFeatureInfo,
        crbRegisterNotification, crbUnregisterNotification]
    rw [hdispatch]
    exact handleUnregisterChecked_simulates h env r
  · have hdispatch : dispatch pal env s r = handleFinish pal env s r := by
      simp [dispatch, hfinish, crbStart, crbGetInterfaceVersion, crbGetFeatureInfo,
        crbRegisterNotification, crbUnregisterNotification, crbFinishNotified]
    rw [hdispatch]
    exact handleFinishChecked_simulates pal inPlace h env r
  · exact ⟨a, rfl, h.dispatch pal env r hcommand hunregister hfinish⟩

/-- One step of a run with the arrays. The flag says where the platform leaves a response. -/
def stepChecked (x : Arrays × Service σ) : Input × Bool → Option (Arrays × Service σ)
  | (.write w, _) => some (x.1, x.2.clientWrite w)
  | (.request env r, inPlace) => do
    let (a, s, _) ← handleRequestChecked pal inPlace env x.1 x.2 r
    some (a, s)

/-- A whole run with the arrays. -/
def runChecked (x : Arrays × Service σ) (inputs : List (Input × Bool)) : Option (Arrays × Service σ) :=
  inputs.foldlM (stepChecked pal) x

/-- Every step with the arrays succeeds and does what the service does. -/
theorem stepChecked_eq (h : Matches a s) (i : Input × Bool) :
    ∃ a', stepChecked pal (a, s) i = some (a', step pal s i.1) ∧ Matches a' (step pal s i.1) := by
  obtain ⟨i, inPlace⟩ := i
  cases i with
  | write w =>
    refine ⟨a, rfl, ?_⟩
    cases w <;> exact h
  | request env r =>
    obtain ⟨a', hdispatch, hmatch⟩ := dispatchChecked_simulates pal inPlace h env r
    refine ⟨a', ?_, hmatch⟩
    simp only [stepChecked, handleRequestChecked, hdispatch, Option.bind_eq_bind, Option.bind_some]
    rfl

/-- So does every run. -/
theorem runChecked_eq (h : Matches a s) (inputs : List (Input × Bool)) :
    ∃ a', runChecked pal (a, s) inputs = some (a', run pal s (inputs.map Prod.fst)) := by
  induction inputs generalizing a s with
  | nil => exact ⟨a, rfl⟩
  | cons i inputs ih =>
    obtain ⟨a', hstep, hmatch⟩ := stepChecked_eq pal h i
    obtain ⟨a'', hrun⟩ := ih hmatch
    refine ⟨a'', ?_⟩
    rw [runChecked, List.foldlM_cons, hstep, Option.bind_eq_bind, Option.bind_some]
    exact hrun

end

/-! ## What a request modifies -/

section

variable {σ : Type*} {pal : Pal σ} {env : Env} {r : Request} {s t : Service σ} {result : Result}

/-- The locality of a locality request: that of a START, or the one recorded as pending. -/
def LocalityRequestFor (s : Service σ) (r : Request) (l : ℕ) : Prop :=
  r.Starts crbStartTypeLocalityRequest l ∨
    r.func = crbFinishNotified ∧ s.notif.pendingLocalityValid = true ∧ s.notif.pendingLocality = l

/-- The locality of a command: that of a START, or the one recorded as pending. -/
def CommandFor (s : Service σ) (r : Request) (l : ℕ) : Prop :=
  r.Starts crbStartTypeCommand l ∨
    r.func = crbFinishNotified ∧ s.notif.pendingCommandValid = true ∧ s.notif.pendingCommandLocality = l

/-- The bytes that a request may modify: LOC_CTRL and LOC_STS for a locality request, and CTRL_START
and the bytes of the response in the data buffer for a command. -/
inductive MayModify (s : Service σ) (r : Request) (rspSize x : ℕ) : Prop
  | locality (l : ℕ) (hl : LocalityRequestFor s r l)
    (hx : valTpmCrbLocCtrl l ≤ x ∧ x < valTpmCrbLocCtrl l + 4 ∨
      valTpmCrbLocSts l ≤ x ∧ x < valTpmCrbLocSts l + 4)
  | command (l : ℕ) (hl : CommandFor s r l) (hsize : rspSize ≤ crbDataBufferSize)
    (hx : valTpmCrbCtrlStart l ≤ x ∧ x < valTpmCrbCtrlStart l + 4 ∨
      valTpmCrbDataBuffer l ≤ x ∧ x < valTpmCrbDataBuffer l + rspSize)

/-- A byte that a write changes lies in its range. -/
theorem mem_of_store_ne {m : ByteMemory} {addr v x : ℕ} (h : m.store addr 4 v x ≠ m x) :
    addr ≤ x ∧ x < addr + 4 := by
  by_contra hout
  exact h (ByteMemory.store_outside m (by omega))

/-- Applying LOC_CTRL data modifies LOC_STS. -/
theorem mem_of_applyMem_ne {m : ByteMemory} {active l ctrl x : ℕ} (h : applyMem m active l ctrl x ≠ m x) :
    valTpmCrbLocSts l ≤ x ∧ x < valTpmCrbLocSts l + 4 := mem_of_store_ne h

/-- A command modifies CTRL_START and the bytes of its response. -/
theorem mem_of_publishMem_ne {m : ByteMemory} {l x : ℕ} {executed : Option Executed}
    (h : publishMem m l executed x ≠ m x) : (commandResult executed).value ≤ crbDataBufferSize ∧
      (valTpmCrbCtrlStart l ≤ x ∧ x < valTpmCrbCtrlStart l + 4 ∨
        valTpmCrbDataBuffer l ≤ x ∧ x < valTpmCrbDataBuffer l + (commandResult executed).value) := by
  cases executed with
  | none => exact absurd rfl h
  | some executed =>
    refine ⟨executed.fits, ?_⟩
    by_contra hout
    rw [not_or] at hout
    have hdata : x < valTpmCrbDataBuffer l ∨ valTpmCrbDataBuffer l + executed.rspSize ≤ x := by
      have hout := hout.2
      simp only [commandResult] at hout
      omega
    refine h ?_
    rw [publishMem, ByteMemory.store_outside _ (by omega), ByteMemory.blit_outside m hdata]

/-- The effects of a request on the CRB memory. -/
theorem Effect.mayModify (h : Effect pal env r s t result) {x : ℕ} (hx : t.mem x ≠ s.mem x) :
    MayModify s r result.value x := by
  cases h with
  | locality l n sig acc hstart =>
    refine .locality l (.inl hstart) ?_
    by_cases hctrl : s.mem.store (valTpmCrbLocCtrl l) 4 0 x = s.mem x
    · exact .inr (mem_of_applyMem_ne fun h => hx (h.trans hctrl))
    · exact .inl (mem_of_store_ne hctrl)
  | command l size cmd n sig acc hstart =>
    obtain ⟨hsize, hrange⟩ := mem_of_publishMem_ne hx
    exact .command l (.inl hstart) hsize hrange
  | deferLocality l acc hstart => exact .locality l (.inl hstart) (.inl (mem_of_store_ne hx))
  | finishLocality acc hfunc hregistered hclient hout hvalid =>
    exact .locality _ (.inr ⟨hfunc, hvalid, rfl⟩) (.inr (mem_of_applyMem_ne hx))
  | finishCommand l size cmd acc hfunc hregistered hclient hout hinvalid hvalid hl =>
    obtain ⟨hsize, hrange⟩ := mem_of_publishMem_ne hx
    exact .command l (.inr ⟨hfunc, hvalid, hl.symm⟩) hsize hrange
  | _ => exact absurd rfl hx

end

/-- **The service stays inside its arrays and inside the locality of each request.** A run with every
array access checked succeeds, for all sizes that clients and platform give, and does what the service
does. After every run a request modifies in the CRB memory only what it is for, and it accesses only
the page of its locality. -/
theorem requests_in_bounds {σ : Type} (pal : Pal σ) (m : ByteMemory) (tpm : σ)
    (inputs : List (Input × Bool)) :
    let s := run pal (.start m tpm) (inputs.map Prod.fst)
    (∃ a, runChecked pal (.zero, .start m tpm) inputs = some (a, s)) ∧
      ∀ env r,
        let handled := valTpmCrbServiceHandleRequest pal env s r
        (∀ x, handled.1.mem x ≠ s.mem x → MayModify s r handled.2.value x) ∧
          ∀ access ∈ accessesOf pal env s r, access.InPage (targetLocality s r) := by
  have hstart : Matches .zero (Service.start m tpm) := content_zero.symm
  refine ⟨runChecked_eq pal hstart inputs, fun env r => ⟨fun x hx => ?_, ?_⟩⟩
  · exact (dispatch_effect pal env _ r).mayModify hx
  · exact accessesOf_inPage pal env _ r

end FfaAcs.Tpm
