import FfaAcs.Tpm.Service

/-!
# What one request can do

The handler has many paths but only a few effects. `Phase` is the abstract state of the
notification protocol: no client, a registered client, or a registered client with deferred
work and one notification outstanding. `Effect` lists what a request does to the active locality,
the CRB memory, the TPM, the notification variables and the record of events. Every property of
the service is proved from this list; the handler is unfolded only here.
-/

namespace FfaAcs.Tpm

open Machine

/-! ## The notification protocol -/

/-- A registered client: itself, the service it registered with and its notification. -/
structure Registration where
  client : ℕ
  service : ℕ
  id : ℕ
deriving DecidableEq, Repr

/-- Deferred work: LOC_CTRL data, or a command. -/
inductive Work
  | locality (locality : Locality) (ctrl : ℕ)
  | command (locality : Locality) (size : ℕ) (cmd : ℕ → UInt8)

/-- The abstract state of the notification protocol. -/
inductive Phase
  | unregistered
  | registered (r : Registration)
  | deferred (r : Registration) (w : Work)

/-- The registration variables hold `r`. -/
def Notification.Holds (n : Notification) (r : Registration) : Prop :=
  n.registered = true ∧ n.client = r.client ∧ n.service = r.service ∧ n.id = r.id

/-- The notification variables are in the given phase. -/
def Notification.InPhase (n : Notification) : Phase → Prop
  | .unregistered => n = .cleared
  | .registered r => n.Holds r ∧ n.outstanding = false ∧ n.pendingLocalityValid = false ∧
      n.pendingCommandValid = false
  | .deferred r (.locality l ctrl) => n.Holds r ∧ n.outstanding = true ∧
      n.pendingLocalityValid = true ∧ n.pendingCommandValid = false ∧ n.pendingLocality = l ∧
      n.pendingLocalityCtrl = ctrl
  | .deferred r (.command l size cmd) => n.Holds r ∧ n.outstanding = true ∧
      n.pendingLocalityValid = false ∧ n.pendingCommandValid = true ∧ n.pendingCommandLocality = l ∧
      n.pendingCommandSize = size ∧ n.pendingCmd = cmd

/-! ## Localities and commands -/

/-- The active locality after LOC_CTRL data `ctrl` is applied for locality `l`. -/
def nextActive (active l ctrl : ℕ) : ℕ :=
  if ctrl &&& locCtrlValidMask = 0 then active
  else if ctrl &&& locCtrlValidMask &&& locCtrlRequestAccess ≠ 0 then
    if active > crbLocalityMax ∨ active = l then l else active
  else if active = l then crbLocalityMax + 1 else active

/-- The value that LOC_STS of `l` gets when `ctrl` is applied. -/
def nextGrant (active l ctrl : ℕ) : ℕ :=
  if ctrl &&& locCtrlValidMask = 0 then if active = l then 1 else 0
  else if ctrl &&& locCtrlValidMask &&& locCtrlRequestAccess ≠ 0 then
    if active > crbLocalityMax ∨ active = l then 1 else 0
  else 0

/-- The CRB memory after LOC_CTRL data is applied. -/
def applyMem (m : ByteMemory) (active l ctrl : ℕ) : ByteMemory :=
  m.store (valTpmCrbLocSts l) 4 (nextGrant active l ctrl)

/-- After LOC_CTRL data is applied, LOC_STS of the locality says whether it is active. -/
theorem nextGrant_eq {active l ctrl : ℕ} (hl : l ≤ crbLocalityMax) :
    nextGrant active l ctrl = if nextActive active l ctrl = l then 1 else 0 := by
  unfold nextGrant nextActive
  split_ifs <;> omega

/-- The bits of LOC_CTRL data that count. -/
theorem ctrl_bits (ctrl : ℕ) : ctrl &&& locCtrlValidMask = ctrl % 4 ∧
    ctrl % 4 &&& locCtrlRequestAccess = ctrl % 2 := by
  refine ⟨Nat.and_two_pow_sub_one_eq_mod ctrl 2, ?_⟩
  rw [locCtrlRequestAccess, Nat.and_one_is_mod]
  omega

/-- The active locality changes only to one that asks for access while none is active, or by a
relinquish for the active one. -/
theorem nextActive_ne {active l ctrl : ℕ} (h : nextActive active l ctrl ≠ active) :
    (active > crbLocalityMax ∧ nextActive active l ctrl = l ∧ ctrl % 2 = 1) ∨
      (active = l ∧ nextActive active l ctrl = crbLocalityMax + 1 ∧ ctrl % 4 = locCtrlRelinquish) := by
  have hrelinquish : locCtrlRelinquish = 2 := rfl
  unfold nextActive at h ⊢
  simp only [ctrl_bits] at h ⊢
  split_ifs at h ⊢ <;> omega

/-- What the platform's answer to a command amounts to. -/
def PalReply.executed (reply : PalReply) : Option Executed :=
  match reply.success, reply.rsp with
  | true, some rsp =>
    if hsize : reply.rspSize > crbDataBufferSize then none
    else some ⟨rsp, reply.rspSize,
      if reply.rspSize ≥ 10 then valTpmBe32Read rsp 6 else CrbStatus.invCrbCtrlData.code,
      reply.fits_of_not_gt hsize⟩
  | _, _ => none

/-- The CRB memory after a command of locality `l` was executed with this outcome. -/
def publishMem (m : ByteMemory) (l : ℕ) : Option Executed → ByteMemory
  | none => m
  | some r => (m.blit (valTpmCrbDataBuffer l) r.rspSize r.rsp).store (valTpmCrbCtrlStart l) 4 0

/-- The response to a command with this outcome. -/
def commandResult : Option Executed → Result
  | none => ⟨.invCrbCtrlData, 0, 0⟩
  | some r => ⟨.ok, r.rspSize, r.rc⟩

section

variable {σ : Type*}

/-- What becomes of a command of `size` bytes, and the TPM after it. A command that does not fit the
buffer is not handed to the platform. -/
def execute (pal : Pal σ) (tpm : σ) (size : ℕ) (cmd : ℕ → UInt8) : Option Executed × σ :=
  if size > crbDataBufferSize then (none, tpm)
  else ((pal tpm size cmd).1.executed, (pal tpm size cmd).2)

/-- The record of a command of locality `l`. -/
def executeEvents (m : ByteMemory) (active l size : ℕ) : List Event :=
  if size > crbDataBufferSize then [] else [.execute l size active (granted m l)]

/-- The state after a command of locality `l`. -/
def runCommand (pal : Pal σ) (s : Service σ) (l size : ℕ) (cmd : ℕ → UInt8) : Service σ where
  mem := publishMem s.mem l (execute pal s.tpm size cmd).1
  tpm := (execute pal s.tpm size cmd).2
  active := s.active
  notif := s.notif
  accesses := s.accesses
  events := s.events ++ executeEvents s.mem s.active l size

/-- A locality whose command can be executed now. -/
def Service.Eligible (s : Service σ) (l : ℕ) : Prop :=
  s.active = l ∧ granted s.mem l = true ∧ started s.mem l = true

instance (s : Service σ) (l : ℕ) : Decidable (s.Eligible l) := inferInstanceAs (Decidable (_ ∧ _))

/-- The command in the data buffer of a locality. -/
def commandIn (m : ByteMemory) (l : ℕ) : ℕ → UInt8 := mmioBytes m (valTpmCrbDataBuffer l) crbDataBufferSize

/-- The size that the command in the data buffer of a locality states. -/
def commandSize (m : ByteMemory) (l : ℕ) : ℕ := valTpmBe32Read (commandIn m l) 2

/-- The saved command as it is handed to the platform, with zeros behind its stated size. -/
def savedCommand (n : Notification) : ℕ → UInt8 :=
  fun i => if i < n.pendingCommandSize then n.pendingCmd i else 0

/-- A valid START of the given type for locality `l`. -/
structure Request.Starts (r : Request) (type l : ℕ) : Prop where
  func : r.func = crbStart
  type : wrap32 r.arg5 = type
  short : r.arg5 ≤ 0xff
  locality : r.arg6 = l
  bound : l ≤ crbLocalityMax

/-- The locality of a valid START fits in 32 bits. -/
theorem Request.Starts.wrap32_locality {r : Request} {type l : ℕ} (h : r.Starts type l) :
    wrap32 r.arg6 = r.arg6 :=
  wrap32_of_lt (h.locality ▸ h.bound.trans_lt (by decide))

/-- A START that has no effect: its arguments are not valid, or it is for a command that the CRB
state does not allow. -/
def StartsNothing (s : Service σ) (r : Request) (result : Result) : Prop :=
  (∀ type l, r.Starts type l → type ≠ crbStartTypeLocalityRequest ∧ type ≠ crbStartTypeCommand) ∧
      result = ⟨.invarg, 0, 0⟩ ∨
    r.Starts crbStartTypeCommand r.arg6 ∧ ¬s.Eligible r.arg6 ∧ result = ⟨.ok, 0, 0⟩

/-- The effects of a request. The accesses to the CRB memory are left open. The two immediate
effects also cover a deferral whose signal failed: then the call is recorded in `sig`, and the
variables `n` keep their phase. -/
inductive Effect (pal : Pal σ) (env : Env) (r : Request) (s : Service σ) : Service σ → Result → Prop
  /-- Queries, refusals, and commands that the CRB state does not allow. -/
  | quiet (acc : List Access) (result : Result)
    (hstart : r.func = crbStart → StartsNothing s r result)
    (hregister : r.func = crbRegisterNotification → result.status ≠ .ok)
    (hunregister : r.func = crbUnregisterNotification → result.status ≠ .ok)
    (hfinish : r.func = crbFinishNotified → (result.status = .notsup ∨ result.status = .denied) ∧
      (env.notifSupported = false ∨ s.notif.registered = false ∨ s.notif.client ≠ r.sender ∨
        s.notif.outstanding = false)) :
    Effect pal env r s { s with accesses := acc } result
  | register (hfunc : r.func = crbRegisterNotification) (hfree : s.notif.registered = false)
    (hid : r.arg6 ≤ crbNotificationIdMask) :
    Effect pal env r s { s with notif := { s.notif with
      client := r.sender, service := r.receiver, id := r.arg6, registered := true,
      outstanding := false } } ⟨.ok, 0, 0⟩
  | unregister (hfunc : r.func = crbUnregisterNotification) (hregistered : s.notif.registered = true)
    (hclient : s.notif.client = r.sender) (hdone : s.notif.outstanding = false) :
    Effect pal env r s { s with notif := .cleared } ⟨.ok, 0, 0⟩
  /-- START(LOCALITY_REQUEST) applied at once. -/
  | locality (l : ℕ) (n : Notification) (sig : List Event) (acc : List Access)
    (hstart : r.Starts crbStartTypeLocalityRequest l)
    (hphase : ∀ φ, s.notif.InPhase φ → n.InPhase φ)
    (hsig : ∀ e ∈ sig, e = signalEvent env s.notif r.sender r.receiver ∧ env.setSucceeds = false ∧
      mayDefer s r = true) :
    Effect pal env r s { s with
      active := nextActive s.active l (s.mem.load (valTpmCrbLocCtrl l) 4)
      mem := applyMem (s.mem.store (valTpmCrbLocCtrl l) 4 0) s.active l
        (s.mem.load (valTpmCrbLocCtrl l) 4)
      notif := n
      events := s.events ++ sig
      accesses := acc } ⟨.ok, 0, 0⟩
  /-- START(COMMAND) executed at once. -/
  | command (l size : ℕ) (cmd : ℕ → UInt8) (n : Notification) (sig : List Event)
    (acc : List Access) (hstart : r.Starts crbStartTypeCommand l)
    (hsize : size = commandSize s.mem l) (hcmd : cmd = commandIn s.mem l)
    (heligible : s.Eligible l) (hphase : ∀ φ, s.notif.InPhase φ → n.InPhase φ)
    (hsig : ∀ e ∈ sig, e = signalEvent env s.notif r.sender r.receiver ∧ env.setSucceeds = false ∧
      mayDefer s r = true) :
    Effect pal env r s
      (runCommand pal { s with notif := n, events := s.events ++ sig, accesses := acc } l size cmd)
      (commandResult (execute pal s.tpm size cmd).1)
  /-- START(LOCALITY_REQUEST) deferred. -/
  | deferLocality (l : ℕ) (acc : List Access) (hstart : r.Starts crbStartTypeLocalityRequest l)
    (hmay : mayDefer s r = true) (hsupported : env.notifSupported = true)
    (hset : env.setSucceeds = true) :
    Effect pal env r s { s with
      mem := s.mem.store (valTpmCrbLocCtrl l) 4 0
      notif := { s.notif with
        pendingLocality := l, pendingLocalityCtrl := s.mem.load (valTpmCrbLocCtrl l) 4,
        pendingLocalityValid := true, outstanding := true }
      events := s.events ++ [signalEvent env s.notif r.sender r.receiver]
      accesses := acc } ⟨.ok, 0, 0⟩
  /-- START(COMMAND) deferred. -/
  | deferCommand (l : ℕ) (acc : List Access) (hstart : r.Starts crbStartTypeCommand l)
    (hmay : mayDefer s r = true) (heligible : s.Eligible l) (hsupported : env.notifSupported = true)
    (hset : env.setSucceeds = true) :
    Effect pal env r s { s with
      notif := { s.notif with
        pendingCommandLocality := l, pendingCmd := commandIn s.mem l,
        pendingCommandSize := commandSize s.mem l, pendingCommandValid := true,
        outstanding := true }
      events := s.events ++ [signalEvent env s.notif r.sender r.receiver]
      accesses := acc } ⟨.ok, 0, 0⟩
  /-- FINISH_NOTIFIED of a deferred locality request. -/
  | finishLocality (acc : List Access) (hfunc : r.func = crbFinishNotified)
    (hregistered : s.notif.registered = true) (hclient : s.notif.client = r.sender)
    (hout : s.notif.outstanding = true) (hvalid : s.notif.pendingLocalityValid = true)
    (hsupported : env.notifSupported = true) :
    Effect pal env r s { s with
      active := nextActive s.active s.notif.pendingLocality s.notif.pendingLocalityCtrl
      mem := applyMem s.mem s.active s.notif.pendingLocality s.notif.pendingLocalityCtrl
      notif := { s.notif with
        pendingLocalityValid := false, pendingLocality := 0, pendingLocalityCtrl := 0,
        outstanding := false }
      accesses := acc } ⟨.ok, 0, 0⟩
  /-- FINISH_NOTIFIED of a deferred command. -/
  | finishCommand (l size : ℕ) (cmd : ℕ → UInt8) (acc : List Access)
    (hfunc : r.func = crbFinishNotified) (hregistered : s.notif.registered = true)
    (hclient : s.notif.client = r.sender) (hout : s.notif.outstanding = true)
    (hinvalid : s.notif.pendingLocalityValid = false) (hvalid : s.notif.pendingCommandValid = true)
    (hl : l = s.notif.pendingCommandLocality) (hsize : size = s.notif.pendingCommandSize)
    (hcmd : cmd = savedCommand s.notif) (hsupported : env.notifSupported = true) :
    Effect pal env r s
      (runCommand pal { s with
        notif := { s.notif with
          pendingCommandValid := false, pendingCommandLocality := 0, pendingCommandSize := 0,
          pendingCmd := fun _ => 0, outstanding := false }
        accesses := acc } l size cmd)
      (commandResult (execute pal s.tpm size cmd).1)
  /-- FINISH_NOTIFIED with nothing to finish. -/
  | finishNothing (acc : List Access) (hfunc : r.func = crbFinishNotified)
    (hregistered : s.notif.registered = true) (hclient : s.notif.client = r.sender)
    (hout : s.notif.outstanding = true) (hlocality : s.notif.pendingLocalityValid = false)
    (hcommand : s.notif.pendingCommandValid = false) (hsupported : env.notifSupported = true) :
    Effect pal env r s { s with
      notif := { s.notif with outstanding := false }
      accesses := acc } ⟨.ok, 0, 0⟩

/-! ## The functions of the service, up to the accesses they make -/

section

variable (pal : Pal σ) (env : Env) (s : Service σ) (r : Request) (l : ℕ)

/-- Applying LOC_CTRL data. -/
theorem applyLocalityRequest_eq (ctrl : ℕ) : ∃ acc, valTpmCrbApplyLocalityRequest s l ctrl =
    ({ s with
      active := nextActive s.active l ctrl
      mem := applyMem s.mem s.active l ctrl
      accesses := acc }, .ok) := by
  simp only [valTpmCrbApplyLocalityRequest, nextActive, applyMem, nextGrant]
  split_ifs <;> exact ⟨_, rfl⟩

/-- START(LOCALITY_REQUEST) at once. -/
theorem startLocalityRequest_eq : ∃ acc, valTpmCrbStartLocalityRequest s l =
    ({ s with
      active := nextActive s.active l (s.mem.load (valTpmCrbLocCtrl l) 4)
      mem := applyMem (s.mem.store (valTpmCrbLocCtrl l) 4 0) s.active l
        (s.mem.load (valTpmCrbLocCtrl l) 4)
      accesses := acc }, .ok) := by
  exact applyLocalityRequest_eq _ l _

/-- The test of the three registers. -/
theorem commandNotifyEligible_eq : ∃ acc, valTpmCrbCommandNotifyEligible s l =
    ({ s with accesses := acc }, decide (s.Eligible l)) := by
  unfold valTpmCrbCommandNotifyEligible Service.Eligible
  by_cases hactive : s.active = l
  · by_cases hgranted : granted s.mem l = true
    · exact ⟨_, by simp [hactive, hgranted, Service.noteRead]; rfl⟩
    · exact ⟨_, by simp [hactive, hgranted, Service.noteRead]; rfl⟩
  · exact ⟨s.accesses, by simp [hactive]⟩

/-- Executing a command and publishing the response. -/
theorem publish_execute_eq (cmd : ℕ → UInt8) (size : ℕ) (fresh : Bool) : ∃ acc,
    publishResponse l (valTpmExecuteCommandBuffer pal s l cmd size fresh) =
      ({ runCommand pal s l size (if fresh then cmd else fun i => if i < size then cmd i else 0) with
          accesses := acc },
        commandResult (execute pal s.tpm size
          (if fresh then cmd else fun i => if i < size then cmd i else 0)).1) := by
  unfold valTpmExecuteCommandBuffer runCommand execute executeEvents
  generalize (if fresh then cmd else fun i => if i < size then cmd i else 0) = tpmCmd
  split_ifs with h
  · exact ⟨s.accesses, by simp [publishResponse, publishMem, commandResult]⟩
  · rcases hreply : pal s.tpm size tpmCmd with ⟨⟨success, rsp, rspSize⟩, tpm⟩
    simp only [Service.noteEvent, hreply, PalReply.executed]
    rcases success with _ | _
    · exact ⟨_, rfl⟩
    rcases rsp with _ | rsp
    · exact ⟨_, rfl⟩
    dsimp only
    split_ifs <;> exact ⟨_, rfl⟩

/-- Reading a buffer makes accesses only. -/
theorem noteCopyFromMmio_eq (acc : List Access) (src size : ℕ) : ∃ acc',
    noteCopyFromMmio { s with accesses := acc } src size = { s with accesses := acc' } := ⟨_, rfl⟩

/-- START(COMMAND) at once, for a locality whose command can be executed. -/
theorem startCommand_eligible (h : s.Eligible l) {size : ℕ} {cmd : ℕ → UInt8}
    (hsize : size = commandSize s.mem l) (hcmd : cmd = commandIn s.mem l) :
    ∃ acc, valTpmCrbStartCommand pal s l =
      ({ runCommand pal s l size cmd with accesses := acc },
        commandResult (execute pal s.tpm size cmd).1) := by
  obtain ⟨acc, heligible⟩ := commandNotifyEligible_eq s l
  obtain ⟨acc₁, hcopy⟩ := noteCopyFromMmio_eq s acc (valTpmCrbDataBuffer l) crbDataBufferSize
  unfold valTpmCrbStartCommand
  rw [heligible]
  simp only [h, decide_true, Bool.true_eq_false, if_false, hcopy]
  rw [← commandIn, ← commandSize, ← hsize, ← hcmd]
  exact publish_execute_eq pal { s with accesses := acc₁ } l cmd size true

/-- START(COMMAND) at once, for any other locality. -/
theorem startCommand_not_eligible (h : ¬s.Eligible l) : ∃ acc, valTpmCrbStartCommand pal s l =
    ({ s with accesses := acc }, ⟨.ok, 0, 0⟩) := by
  obtain ⟨acc, heligible⟩ := commandNotifyEligible_eq s l
  unfold valTpmCrbStartCommand
  rw [heligible]
  exact ⟨acc, by simp [h]⟩

/-- Signalling a client that may be deferred: the call is made if notifications are supported,
and it counts if the relayer accepts it. -/
theorem signalNotification_eq (hmay : mayDefer s r = true) :
    valTpmSignalNotification env s r.sender r.receiver =
      if env.notifSupported = false then (s, false)
      else if env.setSucceeds = false then
        (s.noteEvent (signalEvent env s.notif r.sender r.receiver), false)
      else ({ s with
        notif := { s.notif with outstanding := true }
        events := s.events ++ [signalEvent env s.notif r.sender r.receiver] }, true) := by
  simp only [mayDefer, Bool.decide_and, Bool.and_eq_true, decide_eq_true_eq] at hmay
  obtain ⟨hregistered, hclient, hservice, hout⟩ := hmay
  cases hsupported : env.notifSupported <;> cases hset : env.setSucceeds <;>
    simp [valTpmSignalNotification, hsupported, hset, hregistered, hclient, hservice, hout,
      Service.noteEvent]

/-- A deferral that fails leaves variables in the same phase. -/
theorem inPhase_of_mayDefer (hmay : mayDefer s r = true) {n : Notification}
    (hn : n.registered = s.notif.registered ∧ n.client = s.notif.client ∧
      n.service = s.notif.service ∧ n.id = s.notif.id ∧ n.outstanding = s.notif.outstanding)
    (hlocality : s.notif.pendingLocalityValid = false → n.pendingLocalityValid = false)
    (hcommand : s.notif.pendingCommandValid = false → n.pendingCommandValid = false) (φ : Phase)
    (hphase : s.notif.InPhase φ) : n.InPhase φ := by
  simp only [mayDefer, Bool.decide_and, Bool.and_eq_true, decide_eq_true_eq] at hmay
  obtain ⟨hregistered, -, -, hout⟩ := hmay
  obtain ⟨h1, h2, h3, h4, h5⟩ := hn
  cases φ with
  | unregistered => rw [Notification.InPhase] at hphase; rw [hphase] at hregistered; contradiction
  | registered reg =>
    obtain ⟨hholds, hdone, hloc, hcmd⟩ := hphase
    refine ⟨?_, h5.trans hdone, hlocality hloc, hcommand hcmd⟩
    simpa only [Notification.Holds, h1, h2, h3, h4] using hholds
  | deferred reg w =>
    cases w <;> exact absurd (hout.symm.trans hphase.2.1) (by decide)

/-- Saving LOC_CTRL data. -/
theorem saveLocalityRequest_eq : ∃ acc, saveLocalityRequest s l = { s with
    mem := s.mem.store (valTpmCrbLocCtrl l) 4 0
    notif := { s.notif with
      pendingLocality := l, pendingLocalityCtrl := s.mem.load (valTpmCrbLocCtrl l) 4,
      pendingLocalityValid := true }
    accesses := acc } :=
  ⟨_, rfl⟩

/-- Applying LOC_CTRL data that was saved. -/
theorem applySavedLocality_eq : ∃ acc, applySavedLocality s l =
    ({ s with
      active := nextActive s.active l s.notif.pendingLocalityCtrl
      mem := applyMem s.mem s.active l s.notif.pendingLocalityCtrl
      notif := { s.notif with pendingLocalityValid := false, pendingLocalityCtrl := 0 }
      accesses := acc }, ⟨.ok, 0, 0⟩) := by
  obtain ⟨acc, heq⟩ := applyLocalityRequest_eq
    { s with notif := { s.notif with pendingLocalityValid := false } } l s.notif.pendingLocalityCtrl
  dsimp only at heq
  exact ⟨acc, by simp only [applySavedLocality, heq]⟩

/-- START(LOCALITY_REQUEST) whose deferral failed, with or without a call to the relayer. -/
theorem failedLocality_effect (hstart : r.Starts crbStartTypeLocalityRequest l)
    (hmay : mayDefer s r = true) (acc : List Access) (sig : List Event)
    (hsig : ∀ e ∈ sig, e = signalEvent env s.notif r.sender r.receiver ∧ env.setSucceeds = false ∧
      mayDefer s r = true) :
    ∀ t, t = { s with
        mem := s.mem.store (valTpmCrbLocCtrl l) 4 0
        notif := { s.notif with
          pendingLocality := l, pendingLocalityCtrl := s.mem.load (valTpmCrbLocCtrl l) 4,
          pendingLocalityValid := true }
        events := s.events ++ sig
        accesses := acc } →
      Effect pal env r s (applySavedLocality t l).1 (applySavedLocality t l).2 := by
  rintro t rfl
  obtain ⟨acc', heq⟩ := applySavedLocality_eq { s with
    mem := s.mem.store (valTpmCrbLocCtrl l) 4 0
    notif := { s.notif with
      pendingLocality := l, pendingLocalityCtrl := s.mem.load (valTpmCrbLocCtrl l) 4,
      pendingLocalityValid := true }
    events := s.events ++ sig
    accesses := acc } l
  rw [heq]
  exact .locality l _ sig acc' hstart
    (inPhase_of_mayDefer s r hmay ⟨rfl, rfl, rfl, rfl, rfl⟩ (fun _ => rfl) id) hsig

/-- START(LOCALITY_REQUEST). -/
theorem handleStartLocality_effect (hstart : r.Starts crbStartTypeLocalityRequest r.arg6) :
    Effect pal env r s (handleStartLocality env s r).1 (handleStartLocality env s r).2 := by
  have hl := hstart.wrap32_locality
  unfold handleStartLocality
  rw [hl]
  split
  case isTrue hmay =>
    obtain ⟨acc, hsave⟩ := saveLocalityRequest_eq s r.arg6
    dsimp only
    rw [hsave, signalNotification_eq env _ r (by exact hmay)]
    split_ifs with hsupported hset
    · exact failedLocality_effect pal env s r r.arg6 hstart hmay acc [] (by simp) _
        (by rw [List.append_nil])
    · exact failedLocality_effect pal env s r r.arg6 hstart hmay acc
        [signalEvent env s.notif r.sender r.receiver] (by simpa using ⟨hset, hmay⟩) _ rfl
    · exact .deferLocality r.arg6 acc hstart hmay (by simpa using hsupported) (by simpa using hset)
  case isFalse hmay =>
    obtain ⟨acc, heq⟩ := startLocalityRequest_eq s r.arg6
    have heffect : Effect pal env r s _ _ :=
      .locality r.arg6 s.notif [] acc hstart (fun _ h => h) (by simp)
    rw [List.append_nil] at heffect
    dsimp only
    rw [heq]
    exact heffect

/-- Saving a command. -/
theorem saveCommand_eq : ∃ acc, saveCommand s l = { s with
    notif := { s.notif with
      pendingCommandLocality := l, pendingCmd := commandIn s.mem l,
      pendingCommandSize := commandSize s.mem l, pendingCommandValid := true }
    accesses := acc } :=
  ⟨_, rfl⟩

/-- A command executed at once has the effect of its outcome, or none if the registers do not
allow it. -/
theorem commandNow_effect (hstart : r.Starts crbStartTypeCommand l)
    (heligible : s.Eligible l) (n : Notification) (sig : List Event) (acc : List Access)
    (hphase : ∀ φ, s.notif.InPhase φ → n.InPhase φ)
    (hsig : ∀ e ∈ sig, e = signalEvent env s.notif r.sender r.receiver ∧ env.setSucceeds = false ∧
      mayDefer s r = true) :
    ∀ t, t = { s with notif := n, events := s.events ++ sig, accesses := acc } →
      Effect pal env r s (valTpmCrbStartCommand pal t l).1 (valTpmCrbStartCommand pal t l).2 := by
  rintro t rfl
  obtain ⟨size, hsize⟩ : ∃ size, size = commandSize s.mem l := ⟨_, rfl⟩
  obtain ⟨cmd, hcmd⟩ : ∃ cmd, cmd = commandIn s.mem l := ⟨_, rfl⟩
  obtain ⟨acc', heq⟩ := startCommand_eligible pal
    { s with notif := n, events := s.events ++ sig, accesses := acc } l heligible hsize hcmd
  rw [heq]
  exact .command l size cmd n sig acc' hstart hsize hcmd heligible hphase hsig

/-- A START that has no effect. -/
theorem Effect.quiet_start {pal : Pal σ} {env : Env} {r : Request} {s : Service σ}
    (acc : List Access) {result : Result} (hfunc : r.func = crbStart) (h : StartsNothing s r result) :
    Effect pal env r s { s with accesses := acc } result :=
  .quiet acc result (fun _ => h) (fun h' => absurd (hfunc.symm.trans h') (by decide))
    (fun h' => absurd (hfunc.symm.trans h') (by decide))
    (fun h' => absurd (hfunc.symm.trans h') (by decide))

/-- START(COMMAND) without a deferral. -/
theorem startCommand_effect (hstart : r.Starts crbStartTypeCommand r.arg6) (acc : List Access) :
    Effect pal env r s (valTpmCrbStartCommand pal { s with accesses := acc } r.arg6).1
      (valTpmCrbStartCommand pal { s with accesses := acc } r.arg6).2 := by
  by_cases h : s.Eligible r.arg6
  · exact commandNow_effect pal env s r r.arg6 hstart h s.notif [] acc (fun _ hφ => hφ) (by simp) _
      (by rw [List.append_nil])
  · obtain ⟨acc', heq⟩ := startCommand_not_eligible pal { s with accesses := acc } r.arg6 h
    rw [heq]
    exact .quiet_start acc' hstart.func (.inr ⟨hstart, h, rfl⟩)

/-- START(COMMAND). -/
theorem handleStartCommand_effect (hstart : r.Starts crbStartTypeCommand r.arg6) :
    Effect pal env r s (handleStartCommand pal env s r).1 (handleStartCommand pal env s r).2 := by
  have hl := hstart.wrap32_locality
  unfold handleStartCommand
  rw [hl]
  dsimp only
  by_cases hmay : mayDefer s r = true
  · obtain ⟨acc, heligible⟩ := commandNotifyEligible_eq s r.arg6
    rw [if_pos hmay, heligible]
    by_cases h : s.Eligible r.arg6
    · obtain ⟨acc', hsave⟩ := saveCommand_eq { s with accesses := acc } r.arg6
      rw [decide_eq_true h]
      dsimp only
      rw [hsave, signalNotification_eq env _ r (by exact hmay)]
      have hphase : ∀ φ, s.notif.InPhase φ → Notification.InPhase { s.notif with
          pendingCommandLocality := r.arg6, pendingCommandValid := false, pendingCommandSize := 0,
          pendingCmd := fun _ => 0 } φ :=
        inPhase_of_mayDefer s r hmay ⟨rfl, rfl, rfl, rfl, rfl⟩ id (fun _ => rfl)
      split_ifs with hsupported hset
      · exact commandNow_effect pal env s r r.arg6 hstart h _ [] acc' hphase (by simp) _
          (by rw [List.append_nil])
      · exact commandNow_effect pal env s r r.arg6 hstart h _
          [signalEvent env s.notif r.sender r.receiver] acc' hphase (by simpa using ⟨hset, hmay⟩) _ rfl
      · exact .deferCommand r.arg6 acc' hstart hmay h (by simpa using hsupported) (by simpa using hset)
    · rw [decide_eq_false h]
      exact startCommand_effect pal env s r hstart acc
  · rw [if_neg hmay]
    exact startCommand_effect pal env s r hstart s.accesses

/-- REGISTER_NOTIFICATION. -/
theorem handleRegister_effect (hfunc : r.func = crbRegisterNotification) :
    Effect pal env r s (handleRegister env s r).1 (handleRegister env s r).2 := by
  have hquiet (status : CrbStatus) (hstatus : status ≠ .ok) : Effect pal env r s s ⟨status, 0, 0⟩ :=
    .quiet s.accesses _ (fun h => absurd (hfunc.symm.trans h) (by decide)) (fun _ => hstatus)
      (fun h => absurd (hfunc.symm.trans h) (by decide))
      (fun h => absurd (hfunc.symm.trans h) (by decide))
  unfold handleRegister
  split_ifs with hargs hsupported hregistered
  · exact hquiet .invarg (by decide)
  · exact hquiet .notsup (by decide)
  · exact hquiet .already (by decide)
  · simp only [not_or, not_lt] at hargs
    have hid : wrap32 r.arg6 = r.arg6 := Nat.mod_eq_of_lt (hargs.2.1.trans_lt (by decide))
    rw [hid]
    exact .register hfunc (by simpa using hregistered) hargs.2.1

/-- UNREGISTER_NOTIFICATION. -/
theorem handleUnregister_effect (hfunc : r.func = crbUnregisterNotification) :
    Effect pal env r s (handleUnregister env s r).1 (handleUnregister env s r).2 := by
  have hquiet (status : CrbStatus) (hstatus : status ≠ .ok) : Effect pal env r s s ⟨status, 0, 0⟩ :=
    .quiet s.accesses _ (fun h => absurd (hfunc.symm.trans h) (by decide))
      (fun h => absurd (hfunc.symm.trans h) (by decide)) (fun _ => hstatus)
      (fun h => absurd (hfunc.symm.trans h) (by decide))
  unfold handleUnregister
  split_ifs with hsupported hother hout
  · exact hquiet .notsup (by decide)
  · exact hquiet .denied (by decide)
  · exact hquiet .denied (by decide)
  · simp only [not_or, Bool.not_eq_false, ne_eq, Decidable.not_not] at hother
    exact .unregister hfunc hother.1 hother.2 (by simpa using hout)

/-- FINISH_NOTIFIED. -/
theorem handleFinish_effect (hfunc : r.func = crbFinishNotified) :
    Effect pal env r s (handleFinish pal env s r).1 (handleFinish pal env s r).2 := by
  have hquiet (status : CrbStatus) (hstatus : status = .notsup ∨ status = .denied)
      (hrefused : env.notifSupported = false ∨ s.notif.registered = false ∨
        s.notif.client ≠ r.sender ∨ s.notif.outstanding = false) :
      Effect pal env r s s ⟨status, 0, 0⟩ :=
    .quiet s.accesses _ (fun h => absurd (hfunc.symm.trans h) (by decide))
      (fun h => absurd (hfunc.symm.trans h) (by decide))
      (fun h => absurd (hfunc.symm.trans h) (by decide)) (fun _ => ⟨hstatus, hrefused⟩)
  unfold handleFinish
  split_ifs with hsupported hother
  · exact hquiet .notsup (.inl rfl) (.inl hsupported)
  · exact hquiet .denied (.inr rfl) (.inr hother)
  · simp only [not_or, Bool.not_eq_false, ne_eq, Decidable.not_not] at hother
    obtain ⟨hregistered, hclient, hout⟩ := hother
    unfold completePending
    split_ifs with hlocality hcommand
    · obtain ⟨acc, heq⟩ := applyLocalityRequest_eq s s.notif.pendingLocality
        s.notif.pendingLocalityCtrl
      rw [heq]
      exact .finishLocality acc hfunc hregistered hclient hout hlocality (by simpa using hsupported)
    · obtain ⟨size, hsize⟩ : ∃ size, size = s.notif.pendingCommandSize := ⟨_, rfl⟩
      obtain ⟨acc, heq⟩ := publish_execute_eq pal s s.notif.pendingCommandLocality
        s.notif.pendingCmd size false
      rw [valTpmCrbCompletePendingCommand, ← hsize, heq]
      exact .finishCommand _ size _ acc hfunc hregistered hclient hout (by simpa using hlocality)
        hcommand rfl hsize (by simp only [hsize]; rfl) (by simpa using hsupported)
    · exact .finishNothing s.accesses hfunc hregistered hclient hout (by simpa using hlocality)
        (by simpa using hcommand) (by simpa using hsupported)

/-- **Every request has one of the listed effects.** -/
theorem dispatch_effect :
    Effect pal env r s (dispatch pal env s r).1 (dispatch pal env s r).2 := by
  have hquiet (result : Result) (h₁ : r.func ≠ crbStart) (h₂ : r.func ≠ crbRegisterNotification)
      (h₃ : r.func ≠ crbUnregisterNotification) (h₄ : r.func ≠ crbFinishNotified) :
      Effect pal env r s s result :=
    .quiet s.accesses result (absurd · h₁) (absurd · h₂) (absurd · h₃) (absurd · h₄)
  unfold dispatch
  by_cases hversion : r.func = crbGetInterfaceVersion
  · rw [if_pos hversion]
    rw [hversion] at hquiet
    exact hquiet _ (by decide) (by decide) (by decide) (by decide)
  rw [if_neg hversion]
  by_cases hfeature : r.func = crbGetFeatureInfo
  · rw [if_pos hfeature]
    rw [hfeature] at hquiet
    split_ifs <;> exact hquiet _ (by decide) (by decide) (by decide) (by decide)
  rw [if_neg hfeature]
  split_ifs with hstart hargs hlocality hcommand hregister hunregister hfinish
  · exact .quiet_start s.accesses hstart (.inl ⟨fun type l h => absurd h.short (by
      have hl := h.locality
      have hbound := h.bound
      omega), rfl⟩)
  · exact handleStartLocality_effect pal env s r ⟨hstart, hlocality, by omega, rfl, by omega⟩
  · exact handleStartCommand_effect pal env s r ⟨hstart, hcommand, by omega, rfl, by omega⟩
  · exact .quiet_start s.accesses hstart (.inl ⟨fun type l h => ⟨h.type ▸ hlocality, h.type ▸ hcommand⟩, rfl⟩)
  · exact handleRegister_effect pal env s r hregister
  · exact handleUnregister_effect pal env s r hunregister
  · exact handleFinish_effect pal env s r hfinish
  · exact hquiet _ hstart hregister hunregister hfinish

end

end

end FfaAcs.Tpm
