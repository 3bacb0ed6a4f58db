import FfaAcs.Tpm.Locality

/-!
# Deferral is transparent

A START that is deferred and then finished leaves the CRB memory, the active locality and the TPM as
a START that is carried out at once, and FINISH_NOTIFIED answers what that START would have
answered. `startOutcome` is the START without notifications; both paths of the service are compared
with it.
-/

namespace FfaAcs.Tpm

open Machine

/-- What a request leaves behind, apart from the notification variables. -/
structure Outcome (σ : Type*) where
  mem : ByteMemory
  active : ℕ
  tpm : σ
  result : Result

section

variable {σ : Type*} {pal : Pal σ} {env : Env} {r : Request} {s t : Service σ} {result : Result}

/-- The outcome of a request that leaves the service in state `s`. -/
def Service.outcome (s : Service σ) (result : Result) : Outcome σ := ⟨s.mem, s.active, s.tpm, result⟩

/-- The outcome of LOC_CTRL data that is applied at once. -/
def localityOutcome (s : Service σ) (l : ℕ) : Outcome σ where
  mem := applyMem (s.mem.store (valTpmCrbLocCtrl l) 4 0) s.active l (s.mem.load (valTpmCrbLocCtrl l) 4)
  active := nextActive s.active l (s.mem.load (valTpmCrbLocCtrl l) 4)
  tpm := s.tpm
  result := ⟨.ok, 0, 0⟩

/-- The outcome of a command that is executed at once. -/
def commandOutcome (pal : Pal σ) (s : Service σ) (l size : ℕ) (cmd : ℕ → UInt8) : Outcome σ where
  mem := publishMem s.mem l (execute pal s.tpm size cmd).1
  active := s.active
  tpm := (execute pal s.tpm size cmd).2
  result := commandResult (execute pal s.tpm size cmd).1

/-- A START without notifications. -/
def startOutcome (pal : Pal σ) (s : Service σ) (r : Request) : Outcome σ :=
  if r.arg5 > 0xff ∨ r.arg6 > crbLocalityMax then s.outcome ⟨.invarg, 0, 0⟩
  else if wrap32 r.arg5 = crbStartTypeLocalityRequest then localityOutcome s r.arg6
  else if wrap32 r.arg5 = crbStartTypeCommand then
    if s.Eligible r.arg6 then
      commandOutcome pal s r.arg6 (commandSize s.mem r.arg6) (commandIn s.mem r.arg6)
    else s.outcome ⟨.ok, 0, 0⟩
  else s.outcome ⟨.invarg, 0, 0⟩

/-- The outcome of a START of LOC_CTRL data. -/
theorem startOutcome_locality {l : ℕ} (h : r.Starts crbStartTypeLocalityRequest l) :
    startOutcome pal s r = localityOutcome s l := by
  obtain ⟨-, htype, hshort, rfl, hbound⟩ := h
  rw [startOutcome, if_neg (by omega), if_pos htype]

/-- The outcome of a START of a command that can be executed. -/
theorem startOutcome_command {l : ℕ} (h : r.Starts crbStartTypeCommand l) (heligible : s.Eligible l) :
    startOutcome pal s r = commandOutcome pal s l (commandSize s.mem l) (commandIn s.mem l) := by
  obtain ⟨-, htype, hshort, rfl, hbound⟩ := h
  have hother : ¬wrap32 r.arg5 = crbStartTypeLocalityRequest := by
    rw [htype]
    decide
  rw [startOutcome, if_neg (by omega), if_neg hother, if_pos htype, if_pos heligible]

/-- A START that has no effect. -/
theorem startOutcome_nothing (hfunc : r.func = crbStart) (h : StartsNothing s r result) :
    startOutcome pal s r = s.outcome result := by
  unfold startOutcome
  rcases h with ⟨hinvalid, rfl⟩ | ⟨⟨-, htype, hshort, -, hbound⟩, hnot, rfl⟩
  · by_cases hargs : r.arg5 > 0xff ∨ r.arg6 > crbLocalityMax
    · rw [if_pos hargs]
    · have hneither := hinvalid _ r.arg6 ⟨hfunc, rfl, by omega, rfl, by omega⟩
      rw [if_neg hargs, if_neg hneither.1, if_neg hneither.2]
  · have hother : ¬wrap32 r.arg5 = crbStartTypeLocalityRequest := by
      rw [htype]
      decide
    rw [if_neg (by omega), if_neg hother, if_pos htype, if_neg hnot]

/-- A START that is not deferred has the outcome of a START without notifications. -/
theorem Effect.outcome_of_start (h : Effect pal env r s t result) (hfunc : r.func = crbStart)
    (hdone : t.notif.outstanding = false) : t.outcome result = startOutcome pal s r := by
  cases h with
  | quiet acc _ hstart hregister hunregister hfinish =>
    exact (startOutcome_nothing hfunc (hstart hfunc)).symm
  | register hfunc' => exact absurd (hfunc.symm.trans hfunc') (by decide)
  | unregister hfunc' => exact absurd (hfunc.symm.trans hfunc') (by decide)
  | locality l n sig acc hstart hphase hsig => exact (startOutcome_locality hstart).symm
  | command l size cmd n sig acc hstart hsize hcmd heligible hphase hsig =>
    rw [startOutcome_command hstart heligible, ← hsize, ← hcmd]
    rfl
  | deferLocality l acc hstart hmay hsupported hset => exact absurd hdone (by simp)
  | deferCommand l acc hstart hmay heligible hsupported hset => exact absurd hdone (by simp)
  | finishLocality acc hfunc' => exact absurd (hfunc.symm.trans hfunc') (by decide)
  | finishCommand l size cmd acc hfunc' => exact absurd (hfunc.symm.trans hfunc') (by decide)
  | finishNothing acc hfunc' => exact absurd (hfunc.symm.trans hfunc') (by decide)

/-- The TPM depends only on its own state, the size of a command and that many bytes of it. -/
def ReadsCommand (pal : Pal σ) : Prop :=
  ∀ tpm size cmd cmd', (∀ i < size, cmd i = cmd' i) → pal tpm size cmd = pal tpm size cmd'

/-- The saved copy of a command has the outcome of the command. -/
theorem ReadsCommand.execute_eq (h : ReadsCommand pal) (tpm : σ) {size : ℕ} {cmd cmd' : ℕ → UInt8}
    (hcmd : ∀ i < size, cmd i = cmd' i) : execute pal tpm size cmd = execute pal tpm size cmd' := by
  rw [execute, execute, h tpm size cmd cmd' hcmd]

/-- Commands that agree on their stated size have the same outcome, in states that agree. -/
theorem commandOutcome_congr (hpal : ReadsCommand pal) {l size : ℕ} {cmd cmd' : ℕ → UInt8}
    (hcmd : ∀ i < size, cmd i = cmd' i) :
    commandOutcome pal s l size cmd = commandOutcome pal s l size cmd' := by
  simp only [commandOutcome, hpal.execute_eq s.tpm hcmd]

/-- A client that may be deferred is the sender. -/
theorem client_of_mayDefer (hmay : mayDefer s r = true) : s.notif.client = r.sender := by
  simp only [mayDefer, Bool.decide_and, Bool.and_eq_true, decide_eq_true_eq] at hmay
  exact hmay.2.1

/-- The outcome of a FINISH_NOTIFIED that is not refused. -/
theorem Effect.outcome_of_finish (h : Effect pal env r s t result)
    (hfunc : r.func = crbFinishNotified) (hsupported : env.notifSupported = true)
    (hregistered : s.notif.registered = true) (hclient : s.notif.client = r.sender)
    (hout : s.notif.outstanding = true) :
    (s.notif.pendingLocalityValid = true → t.outcome result =
      ⟨applyMem s.mem s.active s.notif.pendingLocality s.notif.pendingLocalityCtrl,
        nextActive s.active s.notif.pendingLocality s.notif.pendingLocalityCtrl, s.tpm,
        ⟨.ok, 0, 0⟩⟩) ∧
    (s.notif.pendingLocalityValid = false → s.notif.pendingCommandValid = true →
      t.outcome result = commandOutcome pal s s.notif.pendingCommandLocality
        s.notif.pendingCommandSize (savedCommand s.notif)) := by
  cases h with
  | quiet acc _ hstart hregister hunregister hfinish =>
    rcases (hfinish hfunc).2 with h | h | h | h
    · exact absurd (hsupported.symm.trans h) (by decide)
    · exact absurd (hregistered.symm.trans h) (by decide)
    · exact absurd hclient h
    · exact absurd (hout.symm.trans h) (by decide)
  | register hfunc' => exact absurd (hfunc.symm.trans hfunc') (by decide)
  | unregister hfunc' => exact absurd (hfunc.symm.trans hfunc') (by decide)
  | locality l n sig acc hstart => exact absurd (hfunc.symm.trans hstart.func) (by decide)
  | command l size cmd n sig acc hstart => exact absurd (hfunc.symm.trans hstart.func) (by decide)
  | deferLocality l acc hstart => exact absurd (hfunc.symm.trans hstart.func) (by decide)
  | deferCommand l acc hstart => exact absurd (hfunc.symm.trans hstart.func) (by decide)
  | finishLocality acc _ _ _ _ hvalid =>
    exact ⟨fun _ => rfl, fun hno => absurd (hvalid.symm.trans hno) (by decide)⟩
  | finishCommand l size cmd acc _ _ _ _ hinvalid hvalid hl hsize hcmd =>
    refine ⟨fun hyes => absurd (hinvalid.symm.trans hyes) (by decide), fun _ _ => ?_⟩
    rw [← hl, ← hsize, ← hcmd]
    rfl
  | finishNothing acc _ _ _ _ hlocality hcommand =>
    exact ⟨fun hyes => absurd (hlocality.symm.trans hyes) (by decide),
      fun _ hyes => absurd (hcommand.symm.trans hyes) (by decide)⟩

/-- A START that is deferred and then finished has the outcome of a START without notifications. -/
theorem Effect.outcome_of_deferred (hpal : ReadsCommand pal) {reg : Registration}
    (hφ : s.notif.InPhase (.registered reg)) (h : Effect pal env r s t result)
    (hfunc : r.func = crbStart) (hout : t.notif.outstanding = true) {env' : Env} {f : Request}
    {u : Service σ} {result' : Result} {e : Event} (h' : Effect pal env' f (t.noteEvent e) u result')
    (hfinish : f.func = crbFinishNotified) (hsender : f.sender = r.sender)
    (hsame : env'.notifSupported = env.notifSupported) :
    u.outcome result' = startOutcome pal s r := by
  cases h with
  | quiet acc _ hstart hregister hunregister hno =>
    exact absurd (hφ.2.1.symm.trans hout) (by decide)
  | register hfunc' => exact absurd (hfunc.symm.trans hfunc') (by decide)
  | unregister hfunc' => exact absurd (hfunc.symm.trans hfunc') (by decide)
  | locality l n sig acc hstart hphase hsig =>
    exact absurd ((hphase _ hφ).2.1.symm.trans hout) (by decide)
  | command l size cmd n sig acc hstart hsize hcmd heligible hphase hsig =>
    exact absurd ((hphase _ hφ).2.1.symm.trans hout) (by decide)
  | deferLocality l acc hstart hmay hsupported hset =>
    have hclient := client_of_mayDefer hmay
    rw [startOutcome_locality hstart]
    exact (h'.outcome_of_finish hfinish (hsame.trans hsupported) hφ.1.1
      (hclient.trans hsender.symm) rfl).1 rfl
  | deferCommand l acc hstart hmay heligible hsupported hset =>
    have hclient := client_of_mayDefer hmay
    rw [startOutcome_command hstart heligible,
      (h'.outcome_of_finish hfinish (hsame.trans hsupported) hφ.1.1
        (hclient.trans hsender.symm) rfl).2 hφ.2.2.1 rfl]
    exact commandOutcome_congr hpal fun i hi => if_pos hi
  | finishLocality acc hfunc' => exact absurd (hfunc.symm.trans hfunc') (by decide)
  | finishCommand l size cmd acc hfunc' => exact absurd (hfunc.symm.trans hfunc') (by decide)
  | finishNothing acc hfunc' => exact absurd (hfunc.symm.trans hfunc') (by decide)

/-- A START leaves the phase as it is or is deferred. -/
theorem Effect.phase_of_start (h : Effect pal env r s t result) (hfunc : r.func = crbStart) {φ : Phase}
    (hφ : s.notif.InPhase φ) :
    t.notif.InPhase φ ∨ t.notif.outstanding = true ∧ mayDefer s r = true := by
  cases h with
  | quiet acc _ hstart hregister hunregister hfinish => exact .inl hφ
  | register hfunc' => exact absurd (hfunc.symm.trans hfunc') (by decide)
  | unregister hfunc' => exact absurd (hfunc.symm.trans hfunc') (by decide)
  | locality l n sig acc hstart hphase hsig => exact .inl (hphase φ hφ)
  | command l size cmd n sig acc hstart hsize hcmd heligible hphase hsig => exact .inl (hphase φ hφ)
  | deferLocality l acc hstart hmay hsupported hset => exact .inr ⟨rfl, hmay⟩
  | deferCommand l acc hstart hmay heligible hsupported hset => exact .inr ⟨rfl, hmay⟩
  | finishLocality acc hfunc' => exact absurd (hfunc.symm.trans hfunc') (by decide)
  | finishCommand l size cmd acc hfunc' => exact absurd (hfunc.symm.trans hfunc') (by decide)
  | finishNothing acc hfunc' => exact absurd (hfunc.symm.trans hfunc') (by decide)

/-- A START without a registered client is not deferred. -/
theorem Effect.outcome_of_unregistered (h : Effect pal env r s t result) (hfunc : r.func = crbStart)
    (hcleared : s.notif = .cleared) : t.outcome result = startOutcome pal s r := by
  apply h.outcome_of_start hfunc
  have hφ : s.notif.InPhase .unregistered := hcleared
  rcases h.phase_of_start hfunc hφ with hsame | ⟨-, hmay⟩
  · rw [Notification.InPhase] at hsame
    rw [hsame]
    rfl
  · simp [mayDefer, hcleared, Notification.cleared] at hmay

/-- The outcome of a request with its response. -/
def answeredOutcome (answer : Service σ × Response) : Outcome σ :=
  answer.1.outcome ⟨answer.2.status, answer.2.value, answer.2.rc⟩

/-- **A deferred START and the FINISH_NOTIFIED after it do what the START does without a registered
client; a START that is not deferred does so at once and leaves nothing pending.** -/
theorem deferral_transparent (pal : Pal σ) (hpal : ReadsCommand pal) (s : Service σ)
    (hreach : ∃ m tpm inputs, s.notif = (run pal (.start m tpm) inputs).notif)
    (hregistered : s.notif.registered = true) (hdone : s.notif.outstanding = false) (r : Request)
    (hfunc : r.func = crbStart) (env env' : Env) :
    ((valTpmCrbServiceHandleRequest pal env s r).1.notif.outstanding = true →
      ∀ env'' f, f.func = crbFinishNotified → f.sender = r.sender →
        env''.notifSupported = env.notifSupported →
        answeredOutcome (valTpmCrbServiceHandleRequest pal env''
          (valTpmCrbServiceHandleRequest pal env s r).1 f) =
        answeredOutcome (valTpmCrbServiceHandleRequest pal env' { s with notif := .cleared } r)) ∧
    ((valTpmCrbServiceHandleRequest pal env s r).1.notif.outstanding = false →
      answeredOutcome (valTpmCrbServiceHandleRequest pal env s r) =
        answeredOutcome (valTpmCrbServiceHandleRequest pal env' { s with notif := .cleared } r) ∧
      (valTpmCrbServiceHandleRequest pal env s r).1.notif.pendingLocalityValid = false ∧
      (valTpmCrbServiceHandleRequest pal env s r).1.notif.pendingCommandValid = false) := by
  obtain ⟨m, tpm, inputs, hreach⟩ := hreach
  obtain ⟨φ, htracks⟩ := tracks_run pal m tpm inputs
  have hφ : s.notif.InPhase φ := hreach ▸ htracks.phase
  obtain ⟨reg, rfl⟩ := hφ.exists_registered hregistered hdone
  have heffect := dispatch_effect pal env s r
  -- the same START without a registered client
  have hplain : answeredOutcome (valTpmCrbServiceHandleRequest pal env' { s with notif := .cleared } r) =
      startOutcome pal s r :=
    (dispatch_effect pal env' { s with notif := .cleared } r).outcome_of_unregistered hfunc rfl
  rw [hplain]
  refine ⟨?_, ?_⟩
  · intro hout env'' f hfinish hsender hsame
    have heffect' := dispatch_effect pal env'' (valTpmCrbServiceHandleRequest pal env s r).1 f
    have houtcome := heffect.outcome_of_deferred hpal hφ hfunc hout heffect' hfinish hsender hsame
    exact houtcome
  · intro hno
    refine ⟨heffect.outcome_of_start hfunc hno, ?_⟩
    rcases heffect.phase_of_start hfunc hφ with hphase | ⟨hout, -⟩
    · exact hphase.2.2
    · exact absurd (hout.symm.trans hno) (by decide)

/-- A client registers and leaves a request for locality 3 in LOC_CTRL. -/
def registeredRun : List Input :=
  [.request signalling (requestTo crbRegisterNotification 0 5), .write (.locCtrl 3 1)]

/-- The request for locality 3 is deferred, and finishing it grants the locality. -/
theorem deferral_transparent_of_request_access :
    (valTpmCrbServiceHandleRequest zeroPal signalling (run zeroPal (.start zeroCrb ()) registeredRun)
      (requestTo crbStart crbStartTypeLocalityRequest 3)).1.notif.outstanding = true ∧
    answeredOutcome (valTpmCrbServiceHandleRequest zeroPal signalling
      (valTpmCrbServiceHandleRequest zeroPal signalling (run zeroPal (.start zeroCrb ()) registeredRun)
        (requestTo crbStart crbStartTypeLocalityRequest 3)).1 (requestTo crbFinishNotified 0 0)) =
    answeredOutcome (valTpmCrbServiceHandleRequest zeroPal signalling
      { run zeroPal (.start zeroCrb ()) registeredRun with notif := .cleared }
      (requestTo crbStart crbStartTypeLocalityRequest 3)) :=
  have hout : (valTpmCrbServiceHandleRequest zeroPal signalling
      (run zeroPal (.start zeroCrb ()) registeredRun)
      (requestTo crbStart crbStartTypeLocalityRequest 3)).1.notif.outstanding = true := by
    decide +kernel
  ⟨hout, (deferral_transparent zeroPal (fun _ _ _ _ _ => rfl)
    (run zeroPal (.start zeroCrb ()) registeredRun) ⟨zeroCrb, (), registeredRun, rfl⟩
    (by decide +kernel) (by decide +kernel) (requestTo crbStart crbStartTypeLocalityRequest 3)
    (by decide) signalling signalling).1 hout signalling (requestTo crbFinishNotified 0 0)
    (by decide) rfl rfl⟩

end

end FfaAcs.Tpm
