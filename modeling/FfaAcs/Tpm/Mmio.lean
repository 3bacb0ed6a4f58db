import FfaAcs.Tpm.Execution

/-!
# The MMIO accesses of a request

All accesses of a request lie in the page of one locality: that of the START, or that of the deferred
work. The partition maps one page, the one of locality 0, but the service accepts localities 0 to 4.
-/

namespace FfaAcs.Tpm

open Machine

/-- `PLATFORM_TPM_CRB_BASE`. -/
def platformTpmCrbBase : ℕ := 0x88f00000

/-- `PLATFORM_TPM_CRB_SIZE`. -/
def platformTpmCrbSize : ℕ := 0x1000

/-- The first address of an access. -/
def Access.addr : Access → ℕ
  | .read addr _ => addr
  | .write addr _ => addr

/-- The number of bytes of an access. -/
def Access.width : Access → ℕ
  | .read _ width => width
  | .write _ width => width

/-- The access lies in the region that the TPM partition maps. -/
def Access.Mapped (a : Access) : Prop :=
  platformTpmCrbBase ≤ a.addr ∧ a.addr + a.width ≤ platformTpmCrbBase + platformTpmCrbSize

instance (a : Access) : Decidable a.Mapped := inferInstanceAs (Decidable (_ ∧ _))

/-- The access is not empty and lies in the page of locality `l`. -/
def Access.InPage (l : ℕ) (a : Access) : Prop :=
  valTpmCrbLocalityBase l ≤ a.addr ∧ 0 < a.width ∧
    a.addr + a.width ≤ valTpmCrbLocalityBase l + crbLocalitySize

/-- An access in the page of a locality is mapped exactly for locality 0. -/
theorem Access.InPage.mapped_iff {l : ℕ} {a : Access} (h : a.InPage l) : a.Mapped ↔ l = 0 := by
  have hsize : crbLocalitySize = 4096 := rfl
  have hbase : valTpmCrbLocalityBase l = platformTpmCrbBase + l * 4096 := rfl
  have hmapped : platformTpmCrbSize = 4096 := rfl
  obtain ⟨hlow, hwidth, hhigh⟩ := h
  rw [Access.Mapped]
  constructor
  · rintro ⟨-, hend⟩
    omega
  · rintro rfl
    omega

section

variable {σ : Type*} {s t u : Service σ} {l : ℕ}

/-- All accesses between the two states lie in the page of locality `l`. -/
def Touches (l : ℕ) (s t : Service σ) : Prop :=
  ∃ new, t.accesses = s.accesses ++ new ∧ ∀ a ∈ new, a.InPage l

/-- Executing a command makes no access. -/
theorem executeCommandBuffer_accesses (pal : Pal σ) (k : ℕ) (cmd : ℕ → UInt8) (size : ℕ) (fresh : Bool) :
    (valTpmExecuteCommandBuffer pal s k cmd size fresh).1.accesses = s.accesses := by
  unfold valTpmExecuteCommandBuffer
  split
  case isTrue hsize => rfl
  case isFalse hsize =>
    generalize (if fresh then cmd else fun i => if i < size then cmd i else 0) = tpmCmd
    rcases hreply : pal s.tpm size tpmCmd with ⟨⟨success, rsp, rspSize⟩, tpm⟩
    simp only [Service.noteEvent, hreply]
    cases success with
    | false => rfl
    | true =>
      cases rsp with
      | none => rfl
      | some rsp =>
        dsimp only
        split_ifs <;> rfl

namespace Touches

/-- No access. -/
theorem none (h : t.accesses = s.accesses) : Touches l s t :=
  ⟨[], by rw [h, List.append_nil], by simp⟩

/-- One part after another. -/
theorem trans (hst : Touches l s t) (htu : Touches l t u) : Touches l s u := by
  obtain ⟨new, hnew, hin⟩ := hst
  obtain ⟨new', hnew', hin'⟩ := htu
  refine ⟨new ++ new', by rw [hnew', hnew, List.append_assoc], ?_⟩
  intro a ha
  rcases List.mem_append.1 ha with ha | ha
  · exact hin a ha
  · exact hin' a ha

/-- A read of a register. -/
theorem read {offset : ℕ} (hoffset : offset + 4 ≤ crbLocalitySize) :
    Touches l s (s.noteRead (valTpmCrbLocalityBase l + offset) 4) := by
  refine ⟨_, rfl, ?_⟩
  intro a ha
  rw [List.mem_singleton.1 ha]
  refine ⟨?_, ?_, ?_⟩ <;> simp only [Access.addr, Access.width] <;> omega

/-- A write to a register. -/
theorem write {offset v : ℕ} (hoffset : offset + 4 ≤ crbLocalitySize) :
    Touches l s (s.write32 (valTpmCrbLocalityBase l + offset) v) := by
  refine ⟨_, rfl, ?_⟩
  intro a ha
  rw [List.mem_singleton.1 ha]
  refine ⟨?_, ?_, ?_⟩ <;> simp only [Access.addr, Access.width] <;> omega

/-- Bytes of the data buffer lie in the page. -/
theorem dataBuffer_inPage {i : ℕ} (hi : i < crbDataBufferSize) (a : Access)
    (haddr : a.addr = valTpmCrbDataBuffer l + i) (hwidth : a.width = 1) : a.InPage l := by
  have hsize : crbDataBufferSize = 1024 := rfl
  have hpage : crbLocalitySize = 4096 := rfl
  have hbuffer : valTpmCrbDataBuffer l = valTpmCrbLocalityBase l + 128 := rfl
  refine ⟨?_, ?_, ?_⟩ <;> omega

/-- Reading the data buffer. -/
theorem copyFrom {size : ℕ} (hsize : size ≤ crbDataBufferSize) :
    Touches l s (noteCopyFromMmio s (valTpmCrbDataBuffer l) size) := by
  refine ⟨_, rfl, ?_⟩
  intro a ha
  obtain ⟨i, hi, rfl⟩ := List.mem_map.1 ha
  exact dataBuffer_inPage ((List.mem_range.1 hi).trans_le hsize) _ rfl rfl

/-- Writing the data buffer. -/
theorem copyTo {size : ℕ} (hsize : size ≤ crbDataBufferSize) (src : ℕ → UInt8) :
    Touches l s (valTpmCopyToMmio s (valTpmCrbDataBuffer l) src size) := by
  refine ⟨_, rfl, ?_⟩
  intro a ha
  obtain ⟨i, hi, rfl⟩ := List.mem_map.1 ha
  exact dataBuffer_inPage ((List.mem_range.1 hi).trans_le hsize) _ rfl rfl

/-- Applying LOC_CTRL data. -/
theorem applyLocalityRequest (ctrl : ℕ) :
    Touches l s (valTpmCrbApplyLocalityRequest s l ctrl).1 := by
  have hoffset : 0x00c + 4 ≤ crbLocalitySize := by decide
  unfold valTpmCrbApplyLocalityRequest
  dsimp only
  split_ifs
  · exact write hoffset
  · exact write hoffset
  · exact write hoffset
  · exact write hoffset
  · exact write (v := 0) hoffset
  · exact write hoffset

/-- Testing whether a command can be executed. -/
theorem commandNotifyEligible : Touches l s (valTpmCrbCommandNotifyEligible s l).1 := by
  have hsts : Touches l s (s.noteRead (valTpmCrbLocSts l) 4) := read (by decide)
  unfold valTpmCrbCommandNotifyEligible
  dsimp only
  split_ifs
  · exact none rfl
  · exact hsts
  · exact hsts.trans (read (by decide))

/-- Publishing a response. -/
theorem publishResponse (x : Service σ × Option Executed) : Touches l x.1 (publishResponse l x).1 := by
  obtain ⟨s, executed⟩ := x
  cases executed with
  | none => exact none rfl
  | some executed => exact (copyTo executed.fits executed.rsp).trans (write (by decide))

/-- Executing a command. -/
theorem executeCommandBuffer (pal : Pal σ) (k : ℕ) (cmd : ℕ → UInt8) (size : ℕ) (fresh : Bool) :
    Touches l s (valTpmExecuteCommandBuffer pal s k cmd size fresh).1 :=
  none (executeCommandBuffer_accesses pal k cmd size fresh)

/-- START(COMMAND) at once, after the test whether it can be executed. -/
theorem startCommand_rest (pal : Pal σ) :
    Touches l (valTpmCrbCommandNotifyEligible s l).1 (valTpmCrbStartCommand pal s l).1 := by
  unfold valTpmCrbStartCommand
  rcases valTpmCrbCommandNotifyEligible s l with ⟨t, eligible⟩
  cases eligible with
  | false => exact none rfl
  | true =>
    have hcopy : Touches l t (noteCopyFromMmio t (valTpmCrbDataBuffer l) crbDataBufferSize) :=
      copyFrom le_rfl
    simp only [Bool.true_eq_false, if_false]
    generalize noteCopyFromMmio t (valTpmCrbDataBuffer l) crbDataBufferSize = u at hcopy ⊢
    generalize mmioBytes t.mem (valTpmCrbDataBuffer l) crbDataBufferSize = cmd
    generalize valTpmBe32Read cmd 2 = size
    have hexecute : Touches l u (valTpmExecuteCommandBuffer pal u l cmd size true).1 :=
      executeCommandBuffer pal l cmd size true
    exact hcopy.trans (hexecute.trans (publishResponse _))

/-- START(COMMAND) at once. -/
theorem startCommand (pal : Pal σ) : Touches l s (valTpmCrbStartCommand pal s l).1 :=
  commandNotifyEligible.trans (startCommand_rest pal)

/-- Signalling a client makes no access. -/
theorem signalNotification (env : Env) (client service : ℕ) :
    (valTpmSignalNotification env s client service).1.accesses = s.accesses := by
  unfold valTpmSignalNotification
  dsimp only
  split_ifs <;> rfl

/-- START(LOCALITY_REQUEST), after its first read. -/
theorem startLocality_rest (env : Env) {r : Request} (hl : wrap32 r.arg6 = l) :
    Touches l (s.noteRead (valTpmCrbLocCtrl l) 4) (handleStartLocality env s r).1 := by
  unfold handleStartLocality
  rw [hl]
  split
  case isTrue hmay =>
    have hsave : Touches l (s.noteRead (valTpmCrbLocCtrl l) 4) (saveLocalityRequest s l) :=
      write (v := 0) (by decide)
    have hsignal := signalNotification (s := saveLocalityRequest s l) env r.sender r.receiver
    dsimp only
    rcases hresult : valTpmSignalNotification env (saveLocalityRequest s l) r.sender r.receiver
      with ⟨t, signalled⟩
    rw [hresult] at hsignal
    have ht : Touches l (s.noteRead (valTpmCrbLocCtrl l) 4) t := hsave.trans (none hsignal)
    cases signalled with
    | true => exact ht
    | false => exact ht.trans (applyLocalityRequest t.notif.pendingLocalityCtrl)
  case isFalse hmay => exact (write (v := 0) (by decide)).trans (applyLocalityRequest _)

/-- START(LOCALITY_REQUEST). -/
theorem startLocality (env : Env) {r : Request} (hl : wrap32 r.arg6 = l) :
    Touches l s (handleStartLocality env s r).1 :=
  (read (by decide)).trans (startLocality_rest env hl)

/-- START(COMMAND), after the test whether it can be executed. -/
theorem handleStartCommand_rest (pal : Pal σ) (env : Env) {r : Request} (hl : wrap32 r.arg6 = l) :
    Touches l (valTpmCrbCommandNotifyEligible s l).1 (handleStartCommand pal env s r).1 := by
  unfold handleStartCommand
  rw [hl]
  dsimp only
  split_ifs with hmay
  · generalize valTpmCrbCommandNotifyEligible s l = checked
    obtain ⟨t, eligible⟩ := checked
    cases eligible with
    | false => exact startCommand pal
    | true =>
      have hsave : Touches l t (saveCommand t l) := copyFrom le_rfl
      have hsignal := signalNotification (s := saveCommand t l) env r.sender r.receiver
      dsimp only
      generalize saveCommand t l = u at hsave hsignal ⊢
      rcases hresult : valTpmSignalNotification env u r.sender r.receiver with ⟨v, signalled⟩
      rw [hresult] at hsignal
      have hv : Touches l t v := hsave.trans (none hsignal)
      cases signalled with
      | true => exact hv
      | false =>
        have hdrop : Touches l v { v with notif := { v.notif with
            pendingCommandValid := false, pendingCommandSize := 0, pendingCmd := fun _ => 0 } } := none rfl
        exact hv.trans (hdrop.trans (startCommand pal))
  · exact startCommand_rest pal

/-- START(COMMAND). -/
theorem startCommandRequest (pal : Pal σ) (env : Env) {r : Request} (hl : wrap32 r.arg6 = l) :
    Touches l s (handleStartCommand pal env s r).1 :=
  commandNotifyEligible.trans (handleStartCommand_rest pal env hl)

/-- FINISH_NOTIFIED. -/
theorem completePending (pal : Pal σ)
    (hl : (if s.notif.pendingLocalityValid then s.notif.pendingLocality
      else s.notif.pendingCommandLocality) = l) : Touches l s (completePending pal s).1 := by
  unfold Tpm.completePending
  cases hlocality : s.notif.pendingLocalityValid with
  | true =>
    have hpending : s.notif.pendingLocality = l := by simpa [hlocality] using hl
    rw [if_pos rfl, hpending]
    exact applyLocalityRequest s.notif.pendingLocalityCtrl
  | false =>
    have hpending : s.notif.pendingCommandLocality = l := by simpa [hlocality] using hl
    rw [if_neg Bool.false_ne_true, hpending]
    split
    · generalize s.notif.pendingCommandSize = size
      have hexecute : Touches l s
          (valTpmExecuteCommandBuffer pal s l s.notif.pendingCmd size false).1 :=
        executeCommandBuffer pal l _ size false
      exact hexecute.trans (publishResponse _)
    · exact none rfl

end Touches

/-- The locality that a request is for: that of a START, and otherwise that of the deferred work. -/
def targetLocality (s : Service σ) (r : Request) : ℕ :=
  if r.func = crbStart then r.arg6
  else if s.notif.pendingLocalityValid then s.notif.pendingLocality
  else s.notif.pendingCommandLocality

/-- A START with a valid locality is for that locality. -/
theorem wrap32_eq_targetLocality {s : Service σ} {r : Request} (hstart : r.func = crbStart)
    (hbound : r.arg6 ≤ crbLocalityMax) : wrap32 r.arg6 = targetLocality s r := by
  rw [targetLocality, if_pos hstart]
  exact wrap32_of_lt (hbound.trans_lt (by decide))

/-- All accesses of a request lie in the page of its locality. -/
theorem touches_dispatch (pal : Pal σ) (env : Env) (s : Service σ) (r : Request) :
    Touches (targetLocality s r) s (dispatch pal env s r).1 := by
  unfold dispatch
  by_cases hversion : r.func = crbGetInterfaceVersion
  · rw [if_pos hversion]
    exact .none rfl
  rw [if_neg hversion]
  by_cases hfeature : r.func = crbGetFeatureInfo
  · rw [if_pos hfeature]
    split <;> exact .none rfl
  rw [if_neg hfeature]
  split_ifs with hstart hargs hlocality hcommand hregister hunregister hfinish
  · exact .none rfl
  · exact .startLocality env (wrap32_eq_targetLocality hstart (by omega))
  · exact .startCommandRequest pal env (wrap32_eq_targetLocality hstart (by omega))
  · exact .none rfl
  · unfold handleRegister
    split_ifs <;> exact .none rfl
  · unfold handleUnregister
    split_ifs <;> exact .none rfl
  · unfold handleFinish
    split_ifs
    · exact .none rfl
    · exact .none rfl
    · have hpending : Touches (targetLocality s r) s (completePending pal s).1 :=
        .completePending pal (by rw [targetLocality, if_neg hstart])
      exact hpending
  · exact .none rfl

/-- The accesses that a request makes. -/
def accessesOf (pal : Pal σ) (env : Env) (s : Service σ) (r : Request) : List Access :=
  (valTpmCrbServiceHandleRequest pal env s r).1.accesses.drop s.accesses.length

/-- They lie in the page of its locality. -/
theorem accessesOf_inPage (pal : Pal σ) (env : Env) (s : Service σ) (r : Request) :
    ∀ a ∈ accessesOf pal env s r, a.InPage (targetLocality s r) := by
  obtain ⟨new, hnew, hpage⟩ := touches_dispatch pal env s r
  have haccesses : accessesOf pal env s r = new := by
    have hhandled : (valTpmCrbServiceHandleRequest pal env s r).1.accesses = s.accesses ++ new := hnew
    rw [accessesOf, hhandled, List.drop_left]
  rw [haccesses]
  exact hpage

/-! ## Requests that make an access -/

/-- There are accesses between the two states. -/
def Grows (s t : Service σ) : Prop := s.accesses.length < t.accesses.length

/-- Accesses stay on the record. -/
theorem Grows.trans_touches (hst : Grows s t) (htu : Touches l t u) : Grows s u := by
  obtain ⟨new, hnew, -⟩ := htu
  rw [Grows, hnew, List.length_append]
  exact Nat.lt_add_right _ hst

/-- The test whether a command can be executed reads LOC_STS of the active locality. -/
theorem grows_commandNotifyEligible (hactive : s.active = l) :
    Grows s (valTpmCrbCommandNotifyEligible s l).1 := by
  have hread : Grows s (s.noteRead (valTpmCrbLocSts l) 4) := by simp [Grows, Service.noteRead]
  rw [valTpmCrbCommandNotifyEligible, if_neg (not_not.mpr hactive)]
  dsimp only
  split_ifs
  · exact hread
  · exact hread.trans_touches (Touches.read (by decide))

/-- A command of a locality that is not active is ignored. -/
theorem handleStartCommand_inactive (pal : Pal σ) (env : Env) {r : Request}
    (hinactive : s.active ≠ wrap32 r.arg6) : (handleStartCommand pal env s r).1 = s := by
  have hcheck : valTpmCrbCommandNotifyEligible s (wrap32 r.arg6) = (s, false) := if_pos hinactive
  have hstart : valTpmCrbStartCommand pal s (wrap32 r.arg6) = (s, ⟨.ok, 0, 0⟩) := by
    rw [valTpmCrbStartCommand, hcheck]
    rfl
  rw [handleStartCommand, hcheck, ite_self]
  exact congrArg Prod.fst hstart

/-- The platform executes a saved command: the command fits the buffer, and so does the response that the
platform gives. -/
def Executes (pal : Pal σ) (tpm : σ) (cmd : ℕ → UInt8) (size : ℕ) : Prop :=
  let reply := (pal tpm size fun i => if i < size then cmd i else 0).1
  size ≤ crbDataBufferSize ∧ reply.success = true ∧ reply.rsp ≠ none ∧ reply.rspSize ≤ crbDataBufferSize

/-- There is a response to a saved command exactly if the platform executes it. -/
theorem executeCommandBuffer_eq_none_iff (pal : Pal σ) (s : Service σ) (cmd : ℕ → UInt8) (size : ℕ) :
    (valTpmExecuteCommandBuffer pal s l cmd size false).2 = none ↔ ¬Executes pal s.tpm cmd size := by
  unfold valTpmExecuteCommandBuffer Executes
  split
  case isTrue hsize => simp [Nat.not_le.mpr hsize]
  case isFalse hsize =>
    obtain ⟨success, rsp, rspSize, tpm, hreply⟩ : ∃ success rsp rspSize tpm,
        pal s.tpm size (fun i => if i < size then cmd i else 0) = (⟨success, rsp, rspSize⟩, tpm) :=
      ⟨_, _, _, _, rfl⟩
    simp only [Bool.false_eq_true, if_false, Service.noteEvent, hreply]
    cases success with
    | false => simp
    | true =>
      cases rsp with
      | none => simp
      | some rsp =>
        dsimp only
        split_ifs with hfits
        · simp [Nat.not_le.mpr hfits]
        · simp [Nat.not_lt.mp hsize, Nat.not_lt.mp hfits]

/-- The deferred work makes accesses if it applies LOC_CTRL data or publishes a response. -/
def PendingAccesses (pal : Pal σ) (s : Service σ) : Prop :=
  s.notif.pendingLocalityValid = true ∨ s.notif.pendingCommandValid = true ∧
    Executes pal s.tpm s.notif.pendingCmd s.notif.pendingCommandSize

/-- Applying LOC_CTRL data writes LOC_STS. -/
theorem grows_applyLocalityRequest (ctrl : ℕ) : Grows s (valTpmCrbApplyLocalityRequest s l ctrl).1 := by
  unfold valTpmCrbApplyLocalityRequest
  dsimp only
  split_ifs <;> simp [Grows, Service.write32]

/-- Publishing a response writes CTRL_START; without a response nothing is written. -/
theorem grows_publishResponse_iff (x : Service σ × Option Executed) (hx : x.1.accesses = s.accesses) :
    Grows s (publishResponse l x).1 ↔ x.2 ≠ none := by
  obtain ⟨t, executed⟩ := x
  cases executed with
  | none => simp_all [publishResponse, Grows]
  | some executed =>
    simp_all [publishResponse, Grows, Service.write32, valTpmCopyToMmio]

/-- The accesses of the deferred work. -/
theorem grows_completePending_iff (pal : Pal σ) (s : Service σ) :
    Grows s (completePending pal s).1 ↔ PendingAccesses pal s := by
  unfold completePending PendingAccesses
  cases hlocality : s.notif.pendingLocalityValid with
  | true =>
    have happly := grows_applyLocalityRequest (s := s) (l := s.notif.pendingLocality)
      s.notif.pendingLocalityCtrl
    rw [if_pos rfl]
    exact iff_of_true happly (.inl rfl)
  | false =>
    rw [if_neg Bool.false_ne_true]
    cases hcommand : s.notif.pendingCommandValid with
    | true =>
      have hsame : (valTpmExecuteCommandBuffer pal s s.notif.pendingCommandLocality s.notif.pendingCmd
          s.notif.pendingCommandSize false).1.accesses = s.accesses :=
        executeCommandBuffer_accesses pal _ _ _ _
      have hpublish : Grows s (valTpmCrbCompletePendingCommand pal s s.notif.pendingCommandLocality
          s.notif.pendingCommandSize).1 ↔ _ := grows_publishResponse_iff _ hsame
      have hexecutes := executeCommandBuffer_eq_none_iff (l := s.notif.pendingCommandLocality) pal s
        s.notif.pendingCmd s.notif.pendingCommandSize
      rw [if_pos rfl]
      refine hpublish.trans ?_
      simp [hexecutes]
    | false => simp [Grows]

/-- **The requests that make an access**: START(LOCALITY_REQUEST), START(COMMAND) of the active locality,
and FINISH_NOTIFIED of the client that was notified if its deferred work makes one. -/
def MakesAccess (pal : Pal σ) (env : Env) (s : Service σ) (r : Request) : Prop :=
  (r.func = crbStart ∧ r.arg5 ≤ 0xff ∧ r.arg6 ≤ crbLocalityMax ∧
    (r.arg5 = crbStartTypeLocalityRequest ∨ r.arg5 = crbStartTypeCommand ∧ s.active = r.arg6)) ∨
  (r.func = crbFinishNotified ∧ env.notifSupported = true ∧ s.notif.registered = true ∧
    s.notif.client = r.sender ∧ s.notif.outstanding = true ∧ PendingAccesses pal s)

/-- An accepted START makes an access if it is for a locality request or for the active locality. -/
theorem grows_start_iff (pal : Pal σ) (env : Env) {r : Request} (hstart : r.func = crbStart)
    (htype : r.arg5 ≤ 0xff) (hbound : r.arg6 ≤ crbLocalityMax) : Grows s (dispatch pal env s r).1 ↔
      r.arg5 = crbStartTypeLocalityRequest ∨ r.arg5 = crbStartTypeCommand ∧ s.active = r.arg6 := by
  have harg5 : wrap32 r.arg5 = r.arg5 := wrap32_of_lt (htype.trans_lt (by decide))
  have harg6 : wrap32 r.arg6 = r.arg6 := wrap32_of_lt (hbound.trans_lt (by decide))
  rw [dispatch, hstart, if_neg (by decide), if_neg (by decide), if_pos rfl, if_neg (by omega), harg5]
  split_ifs with hlocality hcommand
  · have hread : Grows s (s.noteRead (valTpmCrbLocCtrl r.arg6) 4) := by simp [Grows, Service.noteRead]
    exact iff_of_true (hread.trans_touches (Touches.startLocality_rest env harg6)) (.inl hlocality)
  · by_cases hactive : s.active = r.arg6
    · have hcheck := grows_commandNotifyEligible hactive
      exact iff_of_true (hcheck.trans_touches (Touches.handleStartCommand_rest pal env harg6))
        (.inr ⟨hcommand, hactive⟩)
    · rw [handleStartCommand_inactive pal env (by rwa [harg6])]
      exact iff_of_false (Nat.lt_irrefl _) (by tauto)
  · exact iff_of_false (Nat.lt_irrefl _) (by tauto)

/-- A FINISH_NOTIFIED makes the accesses of the deferred work, if it is accepted. -/
theorem grows_finish_iff (pal : Pal σ) (env : Env) (r : Request) : Grows s (handleFinish pal env s r).1 ↔
      env.notifSupported = true ∧ s.notif.registered = true ∧ s.notif.client = r.sender ∧
        s.notif.outstanding = true ∧ PendingAccesses pal s := by
  rw [← grows_completePending_iff, handleFinish]
  split_ifs with hsupported hdenied
  · exact iff_of_false (Nat.lt_irrefl _) (by simp [hsupported])
  · refine iff_of_false (Nat.lt_irrefl _) ?_
    rintro ⟨-, hregistered, hclient, houtstanding, -⟩
    simp_all
  · simp only [not_or, Bool.not_eq_false, not_not] at hsupported hdenied
    simp only [hsupported, hdenied, true_and]
    rfl

/-- The record grows exactly by the requests that make an access. -/
theorem grows_dispatch_iff (pal : Pal σ) (env : Env) (s : Service σ) (r : Request) :
    Grows s (dispatch pal env s r).1 ↔ MakesAccess pal env s r := by
  by_cases hstart : r.func = crbStart
  · have hother : r.func ≠ crbFinishNotified := by rw [hstart]; decide
    by_cases hargs : r.arg5 ≤ 0xff ∧ r.arg6 ≤ crbLocalityMax
    · rw [grows_start_iff pal env hstart hargs.1 hargs.2]
      rw [MakesAccess]
      tauto
    · rw [dispatch, hstart, if_neg (by decide), if_neg (by decide), if_pos rfl, if_pos (by omega)]
      refine iff_of_false (Nat.lt_irrefl _) ?_
      rintro (⟨-, htype, hbound, -⟩ | ⟨hfinish, -⟩)
      · exact hargs ⟨htype, hbound⟩
      · exact hother hfinish
  by_cases hfinish : r.func = crbFinishNotified
  · have hdispatch : dispatch pal env s r = handleFinish pal env s r := by
      rw [dispatch, hfinish, if_neg (by decide), if_neg (by decide), if_neg (by decide), if_neg (by decide),
        if_neg (by decide), if_pos rfl]
    rw [hdispatch, grows_finish_iff, MakesAccess]
    tauto
  · refine iff_of_false ?_ (by simp [MakesAccess, hstart, hfinish])
    unfold dispatch handleRegister handleUnregister
    split_ifs <;> exact Nat.lt_irrefl _

/-- A request makes no access exactly if it is none of those. -/
theorem accessesOf_eq_nil_iff (pal : Pal σ) (env : Env) (s : Service σ) (r : Request) :
    accessesOf pal env s r = [] ↔ ¬MakesAccess pal env s r := by
  rw [← grows_dispatch_iff, accessesOf, List.drop_eq_nil_iff]
  exact Nat.not_lt.symm

/-- **The accesses of a request are mapped exactly if the request is for locality 0 or makes none.** -/
theorem accesses_mapped_iff (pal : Pal σ) (env : Env) (s : Service σ) (r : Request) :
    (∀ a ∈ accessesOf pal env s r, a.Mapped) ↔ targetLocality s r = 0 ∨ ¬MakesAccess pal env s r := by
  have hpage := accessesOf_inPage pal env s r
  rw [← accessesOf_eq_nil_iff]
  constructor
  · intro hmapped
    rcases List.eq_nil_or_concat (accessesOf pal env s r) with hnone | ⟨new, a, hnew⟩
    · exact .inr hnone
    · have ha : a ∈ accessesOf pal env s r := by simp [hnew]
      exact .inl ((hpage a ha).mapped_iff.1 (hmapped a ha))
  · rintro (hzero | hnone) a ha
    · exact (hpage a ha).mapped_iff.2 hzero
    · rw [hnone] at ha
      exact absurd ha (by simp)

end

/-- A request for locality 1 is accepted, and its first read is behind the mapped page. -/
theorem locality_one_not_mapped :
    (valTpmCrbServiceHandleRequest zeroPal signalling (.start zeroCrb ())
      (requestTo crbStart crbStartTypeLocalityRequest 1)).2.status = .ok ∧
    ∃ a ∈ accessesOf zeroPal signalling (.start zeroCrb ())
      (requestTo crbStart crbStartTypeLocalityRequest 1), ¬a.Mapped := by
  constructor <;> decide +kernel

end FfaAcs.Tpm
