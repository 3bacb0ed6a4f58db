import FfaAcs.Tpm.Locality

/-!
# The platform's TPM

The platform layer initialises the TPM library with the first command and hands commands to it. The
library itself is a parameter. A command passes three tests of the size that it states on its way
to the library: the service and its command buffer take at most 1024 bytes, and the platform takes
no empty command.
-/

namespace FfaAcs.Tpm

open Machine

/-- What the TPM library gives back: the response pointer, which may be NULL, and the response size. -/
structure LibraryReply where
  response : Option (ℕ → UInt8)
  responseSize : ℕ

/-- The functions of the TPM library over its state. `manufacture` returns whether it succeeded;
`executeCommand` takes the size and the bytes of a command and the size of the response buffer. -/
structure Library (τ : Type*) where
  init : τ → τ
  needsManufacture : τ → Bool
  manufacture : τ → Bool × τ
  executeCommand : τ → ℕ → (ℕ → UInt8) → ℕ → LibraryReply × τ

/-- `g_pal_tpm_initialized`, `g_tpm_nv_ready` and the state of the library. -/
structure Platform (τ : Type*) where
  initialized : Bool
  nvReady : Bool
  library : τ
deriving DecidableEq

/-- The startup command, TPM_CC_Startup with TPM_SU_CLEAR. -/
def startupClearCmd : List UInt8 := [0x80, 0x01, 0, 0, 0, 0x0c, 0, 0, 0x01, 0x44, 0, 0]

/-- The only response to the startup command that counts as success. -/
def startupRsp : List UInt8 := [0x80, 0x01, 0, 0, 0, 0x0a, 0, 0, 0, 0]

section

variable {τ : Type*} (lib : Library τ)

/-- `_plat__NVEnable`, which cannot fail. -/
def platNVEnable (p : Platform τ) : ℤ × Platform τ := (0, { p with nvReady := true })

/-- Start the library up. -/
def palTpmStartup (p : Platform τ) : Bool × Platform τ :=
  let (reply, library) := lib.executeCommand p.library startupClearCmd.length
    (fun i => startupClearCmd.getD i 0) 10
  let p := { p with library := library }
  match reply.response with
  | none => (false, p)
  | some response =>
    if reply.responseSize ≠ 10 ∨ (List.range 10).map response ≠ startupRsp then (false, p) else (true, p)

/-- Initialise the library, once. -/
def palTpmInit (p : Platform τ) : Bool × Platform τ :=
  if p.initialized then (true, p)
  else
    let (enabled, p) := platNVEnable p
    if enabled < 0 then (false, p)
    else
      let p := { p with library := lib.init p.library }
      let (manufactured, library) :=
        if lib.needsManufacture p.library then lib.manufacture p.library else (true, p.library)
      let p := { p with library := library }
      if manufactured = false then (false, p)
      else
        match palTpmStartup lib p with
        | (false, p) => (false, p)
        | (true, p) => (true, { p with initialized := true })

/-- Hand a command to the library. The request and the response buffer may be NULL. -/
def palTpmExecuteCommand (p : Platform τ) (requestSize : ℕ) (request : Option (ℕ → UInt8))
    (responseSize : ℕ) (response : Option (ℕ → UInt8)) : PalReply × Platform τ :=
  match request with
  | none => (⟨false, response, responseSize⟩, p)
  | some bytes =>
    if requestSize = 0 ∨ response.isNone ∨ responseSize = 0 then (⟨false, response, responseSize⟩, p)
    else
      match palTpmInit lib p with
      | (false, p) => (⟨false, response, responseSize⟩, p)
      | (true, p) =>
        let (reply, library) := lib.executeCommand p.library requestSize bytes responseSize
        let p := { p with library := library }
        if reply.response.isNone ∨ reply.responseSize = 0 then
          (⟨false, reply.response, reply.responseSize⟩, p)
        else (⟨true, reply.response, reply.responseSize⟩, p)

/-- The platform as the service calls it: with `g_tpm_cmd`, and with `g_tpm_rsp` filled with zeros. -/
def palOf : Pal (Platform τ) := fun p size cmd =>
  palTpmExecuteCommand lib p size (some cmd) crbDataBufferSize (some fun _ => 0)

/-- The library answers every command with 10 to 1024 bytes. -/
def Library.Answers : Prop := ∀ t size cmd, ∃ rsp rspSize,
  (lib.executeCommand t size cmd crbDataBufferSize).1 = ⟨some rsp, rspSize⟩ ∧ 10 ≤ rspSize ∧
    rspSize ≤ crbDataBufferSize

/-- The library's answer to a command that reaches it in this state of the platform. -/
def Library.answer (p : Platform τ) (size : ℕ) (cmd : ℕ → UInt8) : LibraryReply :=
  (lib.executeCommand (palTpmInit lib p).2.library size cmd crbDataBufferSize).1

variable {lib}

variable (lib) in
/-- The platform refuses an empty command. -/
theorem palOf_empty (p : Platform τ) (cmd : ℕ → UInt8) : (palOf lib p 0 cmd).1.executed = none := rfl

/-- Every other command reaches the library, and its answer comes back. -/
theorem palOf_answered (hanswers : lib.Answers) {p : Platform τ} (hinit : (palTpmInit lib p).1 = true)
    {size : ℕ} (hsize : size ≠ 0) (cmd : ℕ → UInt8) :
    ∃ executed, (palOf lib p size cmd).1.executed = some executed ∧
      lib.answer p size cmd = ⟨some executed.rsp, executed.rspSize⟩ := by
  obtain ⟨rsp, rspSize, hreply, hlow, hhigh⟩ := hanswers (palTpmInit lib p).2.library size cmd
  rcases hp : palTpmInit lib p with ⟨initialised, p'⟩
  rw [hp] at hinit hreply
  obtain rfl : initialised = true := hinit
  have hcount : rspSize ≠ 0 := by omega
  have hpal : (palOf lib p size cmd).1 = ⟨true, some rsp, rspSize⟩ := by
    have hpasses : ¬(size = 0 ∨ (some fun _ : ℕ => (0 : UInt8)).isNone = true ∨ crbDataBufferSize = 0) := by
      simp [hsize, crbDataBufferSize]
    simp only [palOf, palTpmExecuteCommand, if_neg hpasses, hp, hreply]
    simp [hcount]
  refine ⟨⟨rsp, rspSize, valTpmBe32Read rsp 6, hhigh⟩, ?_, ?_⟩
  · rw [hpal]
    simp only [PalReply.executed, dif_neg hhigh.not_gt, if_pos hlow]
  · rw [Library.answer, hp]
    exact hreply

/-- What becomes of a command: the library's answer if the stated size is one of 1 to 1024. -/
theorem execute_palOf_iff (hanswers : lib.Answers) {p : Platform τ}
    (hinit : (palTpmInit lib p).1 = true) (size : ℕ) (cmd : ℕ → UInt8) :
    (∃ executed, (execute (palOf lib) p size cmd).1 = some executed ∧
        lib.answer p size cmd = ⟨some executed.rsp, executed.rspSize⟩) ∧ 1 ≤ size ∧
        size ≤ crbDataBufferSize ∨
      (execute (palOf lib) p size cmd).1 = none ∧ ¬(1 ≤ size ∧ size ≤ crbDataBufferSize) := by
  unfold execute
  by_cases hlong : size > crbDataBufferSize
  · rw [if_pos hlong]
    exact .inr ⟨rfl, by omega⟩
  rw [if_neg hlong]
  by_cases hempty : size = 0
  · exact .inr ⟨hempty ▸ palOf_empty lib p cmd, by omega⟩
  · exact .inl ⟨palOf_answered hanswers hinit hempty cmd, by omega, by omega⟩

/-- START(COMMAND) for `l` was answered as a command: with CRB_OK, CTRL_START cleared and the
library's response in the data buffer. -/
structure CommandAnswered (lib : Library τ) (s t : Service (Platform τ)) (response : Response) (l : ℕ) :
    Prop where
  status : response.status = .ok
  cleared : t.mem.load (valTpmCrbCtrlStart l) 4 = 0
  published : ∃ rsp, lib.answer s.tpm (commandSize s.mem l) (commandIn s.mem l) =
      ⟨some rsp, response.value⟩ ∧ ∀ i < response.value, t.mem (valTpmCrbDataBuffer l + i) = rsp i

/-- A published response stands in the data buffer, and CTRL_START is clear. -/
theorem publishMem_some (m : ByteMemory) (l : ℕ) (executed : Executed) :
    (publishMem m l (some executed)).load (valTpmCrbCtrlStart l) 4 = 0 ∧
      ∀ i < executed.rspSize, publishMem m l (some executed) (valTpmCrbDataBuffer l + i) =
        executed.rsp i := by
  have haddr := crb_addresses l
  refine ⟨ByteMemory.load_store_same .., fun i hi => ?_⟩
  rw [publishMem, ByteMemory.store_outside _ (by omega)]
  simp [ByteMemory.blit, hi]

/-- A START(COMMAND) that is not deferred, for a locality whose command can be executed. -/
theorem Effect.command_now {σ : Type*} {pal : Pal σ} {env : Env} {r : Request} {s t : Service σ}
    {result : Result} {l : ℕ} (h : Effect pal env r s t result) (hstart : r.Starts crbStartTypeCommand l)
    (heligible : s.Eligible l)
    (hnow : ¬(mayDefer s r = true ∧ env.notifSupported = true ∧ env.setSucceeds = true)) :
    ∃ size cmd, size = commandSize s.mem l ∧ cmd = commandIn s.mem l ∧
      t.mem = publishMem s.mem l (execute pal s.tpm size cmd).1 ∧
      result = commandResult (execute pal s.tpm size cmd).1 := by
  have hfunc := hstart.func
  cases h with
  | quiet acc _ hquiet =>
    rcases hquiet hfunc with ⟨hnone, -⟩ | ⟨hcommand, hno, -⟩
    · exact absurd rfl (hnone _ _ hstart).2
    · exact absurd (hstart.locality ▸ heligible) hno
  | register hfunc' => exact absurd (hfunc.symm.trans hfunc') (by decide)
  | unregister hfunc' => exact absurd (hfunc.symm.trans hfunc') (by decide)
  | locality l' n sig acc hstart' => exact absurd (hstart.type.symm.trans hstart'.type) (by decide)
  | command l' size cmd n sig acc hstart' hsize hcmd =>
    obtain rfl := hstart.locality.symm.trans hstart'.locality
    exact ⟨size, cmd, hsize, hcmd, rfl, rfl⟩
  | deferLocality l' acc hstart' => exact absurd (hstart.type.symm.trans hstart'.type) (by decide)
  | deferCommand l' acc hstart' hmay heligible' hsupported hset =>
    exact absurd ⟨hmay, hsupported, hset⟩ hnow
  | finishLocality acc hfunc' => exact absurd (hfunc.symm.trans hfunc') (by decide)
  | finishCommand l' size cmd acc hfunc' => exact absurd (hfunc.symm.trans hfunc') (by decide)
  | finishNothing acc hfunc' => exact absurd (hfunc.symm.trans hfunc') (by decide)

/-- **START(COMMAND) is answered as a command exactly if the command states a size from 1 to 1024.**
This holds in every state in which the command can be executed and is not deferred, if the library
answers every command and its initialisation succeeds. -/
theorem start_command_answered_iff (hanswers : lib.Answers) (s : Service (Platform τ)) (env : Env)
    (r : Request) (l : ℕ) (hstart : r.Starts crbStartTypeCommand l) (heligible : s.Eligible l)
    (hnow : ¬(mayDefer s r = true ∧ env.notifSupported = true ∧ env.setSucceeds = true))
    (hinit : (palTpmInit lib s.tpm).1 = true) :
    CommandAnswered lib s (valTpmCrbServiceHandleRequest (palOf lib) env s r).1
        (valTpmCrbServiceHandleRequest (palOf lib) env s r).2 l ↔
      1 ≤ commandSize s.mem l ∧ commandSize s.mem l ≤ crbDataBufferSize := by
  obtain ⟨size, cmd, hsize, hcmd, hmem, hresult⟩ :=
    (dispatch_effect (palOf lib) env s r).command_now hstart heligible hnow
  rw [← hsize]
  rcases execute_palOf_iff hanswers hinit size cmd with ⟨⟨executed, hexecute, hanswer⟩, hfits⟩ |
    ⟨hexecute, hunfit⟩
  · rw [hexecute] at hmem hresult
    obtain ⟨hcleared, hpublished⟩ := publishMem_some s.mem l executed
    have hvalue : (valTpmCrbServiceHandleRequest (palOf lib) env s r).2.value = executed.rspSize :=
      congrArg Result.value hresult
    have hhandled : (valTpmCrbServiceHandleRequest (palOf lib) env s r).1.mem =
        publishMem s.mem l (some executed) := hmem
    refine iff_of_true ⟨congrArg Result.status hresult, hhandled ▸ hcleared, executed.rsp, ?_, ?_⟩ hfits
    · rw [hvalue, ← hsize, ← hcmd, hanswer]
    · rw [hvalue, hhandled]
      exact hpublished
  · refine iff_of_false (fun hanswered => ?_) hunfit
    have hstatus : (valTpmCrbServiceHandleRequest (palOf lib) env s r).2.status = .invCrbCtrlData := by
      rw [hexecute] at hresult
      exact congrArg Result.status hresult
    exact absurd (hanswered.status.symm.trans hstatus) (by decide)

end

/-- A library that answers every command with the response of a successful startup. -/
def echoLibrary : Library Unit where
  init := id
  needsManufacture := fun _ => true
  manufacture := fun _ => (true, ())
  executeCommand := fun _ _ _ _ => (⟨some fun i => startupRsp.getD i 0, 10⟩, ())

/-- The platform before the first command. -/
def coldPlatform : Platform Unit := ⟨false, false, ()⟩

/-- The low byte of the size that a command states. -/
theorem sizeByte_lt : 5 < crbDataBufferSize := by decide

/-- Locality 0 is granted, a command that states the given size stands in its buffer, and CTRL_START
is set. -/
def commandRun (size : UInt8) : List Input :=
  [.write (.locCtrl 0 1), .request signalling (requestTo crbStart crbStartTypeLocalityRequest 0),
    .write (.data 0 ⟨5, sizeByte_lt⟩ size), .write (.ctrlStart 0 1)]

/-- The state in which the command is started. -/
def commandReady (size : UInt8) : Service (Platform Unit) :=
  run (palOf echoLibrary) (.start zeroCrb coldPlatform) (commandRun size)

/-- The library answers every command with ten bytes. -/
theorem echoLibrary_answers : echoLibrary.Answers :=
  fun _ _ _ => ⟨_, 10, rfl, by decide, by decide⟩

/-- A command that states 10 bytes is answered. -/
theorem start_command_answered_of_ten :
    CommandAnswered echoLibrary (commandReady 10)
      (valTpmCrbServiceHandleRequest (palOf echoLibrary) signalling (commandReady 10)
        (requestTo crbStart crbStartTypeCommand 0)).1
      (valTpmCrbServiceHandleRequest (palOf echoLibrary) signalling (commandReady 10)
        (requestTo crbStart crbStartTypeCommand 0)).2 0 :=
  (start_command_answered_iff echoLibrary_answers (commandReady 10) signalling
    (requestTo crbStart crbStartTypeCommand 0) 0
    ⟨by decide, by decide, by decide, by decide, by decide⟩ (by decide +kernel) (by decide +kernel)
    (by decide +kernel)).2 (by decide +kernel)

/-- A command that states 0 bytes is not handed to the library: the service reports an error of its
own, and CTRL_START stays set. -/
theorem start_command_refused_of_zero :
    (commandReady 0).Eligible 0 ∧
      (valTpmCrbServiceHandleRequest (palOf echoLibrary) signalling (commandReady 0)
        (requestTo crbStart crbStartTypeCommand 0)).2.status = .invCrbCtrlData ∧
      started (valTpmCrbServiceHandleRequest (palOf echoLibrary) signalling (commandReady 0)
        (requestTo crbStart crbStartTypeCommand 0)).1.mem 0 = true ∧
      ¬CommandAnswered echoLibrary (commandReady 0)
        (valTpmCrbServiceHandleRequest (palOf echoLibrary) signalling (commandReady 0)
          (requestTo crbStart crbStartTypeCommand 0)).1
        (valTpmCrbServiceHandleRequest (palOf echoLibrary) signalling (commandReady 0)
          (requestTo crbStart crbStartTypeCommand 0)).2 0 := by
  have hstatus : (valTpmCrbServiceHandleRequest (palOf echoLibrary) signalling (commandReady 0)
      (requestTo crbStart crbStartTypeCommand 0)).2.status = .invCrbCtrlData := by decide +kernel
  refine ⟨by decide +kernel, hstatus, by decide +kernel, fun hanswered => ?_⟩
  exact absurd (hanswered.status.symm.trans hstatus) (by decide)

end FfaAcs.Tpm
