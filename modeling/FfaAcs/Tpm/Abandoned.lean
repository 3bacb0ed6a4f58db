import FfaAcs.Tpm.Registers
import FfaAcs.Tpm.Release

/-!
# Deferrals that are left behind

A notification test that stops between START and FINISH_NOTIFIED leaves work with the service that waits
for its client. The cleanup asks the service to unregister the client, and the service refuses as long as
the notification is outstanding. No test finishes a notification unless it has registered before, and the
service refuses a second registration. So no later test gets the service out of this phase, and every test
that has to register fails.
-/

namespace FfaAcs.Tpm

open Machine Client

section

variable {σ ε α : Type} {pal : Pal σ} {around : Surroundings ε} {reg : Registration} {w : Work}
  {build : Build} {ctx : Context}

/-- The service of the model waits for the client. -/
def Waits (reg : Registration) (w : Work) (x : Model σ × ε) : Prop := x.1.phase = .deferred reg w

/-- Nothing else can wait. -/
theorem notifiable_of_deferred {a : Model σ} (h : a.phase = .deferred reg w) (env : Env) (r : Request) :
    a.notifiable env r = none := by
  rw [Model.notifiable, h]

/-- Only FINISH_NOTIFIED ends the deferral. -/
theorem handle_phase_of_deferred {a : Model σ} (h : a.phase = .deferred reg w) (env : Env) {r : Request}
    (hr : r.func ≠ crbFinishNotified) : (a.handle pal env r).1.phase = .deferred reg w := by
  have hstart : (a.start pal env r).1.phase = .deferred reg w := by
    unfold Model.start
    split_ifs
    · rw [Model.startLocality, notifiable_of_deferred h]
      exact h
    · rw [Model.startCommand, notifiable_of_deferred h]
      split_ifs <;> exact h
    · exact h
    · exact h
  have hregister : (a.register env r).1.phase = .deferred reg w := by
    unfold Model.register
    rw [h]
    split_ifs <;> exact h
  have hunregister : (a.unregister env r).1.phase = .deferred reg w := by
    unfold Model.unregister
    rw [h]
    split_ifs <;> exact h
  unfold Model.handle
  split_ifs <;> first | exact h | exact hstart | exact hregister | exact hunregister

/-- A command that does not finish the notification. -/
theorem attach_waits {c : Command} (hc : Unfinishing c) {x : Model σ × ε} (hx : Waits reg w x) :
    Waits reg w (attach (Model.machine pal) around c x).2 := by
  cases c with
  | write write => cases write <;> exact hx
  | direct args =>
    simp only [attach]
    split
    · exact hx
    · exact handle_phase_of_deferred hx _ hc
  | _ => exact hx

/-- Programs that do not finish the notification. -/
theorem unfinishing_waits {p : Client α} (hp : p.Issues Unfinishing) :
    Program.Spec (attach (Model.machine pal) around) (Waits reg w) p fun _ => Waits reg w :=
  hp.keeps fun _ _ hc hx => attach_waits hc hx

/-! ## Programs that do not finish a notification -/

/-- A plain program does not finish a notification. -/
theorem plain_unfinishing {p : Client α} (hp : p.Issues Plain) : p.Issues Unfinishing :=
  hp.mono fun _ hc => hc.2

/-- A plain program keeps the service waiting. -/
theorem plain_waits {p : Client α} (hp : p.Issues Plain) :
    Program.Spec (attach (Model.machine pal) around) (Waits reg w) p fun _ => Waits reg w :=
  unfinishing_waits (plain_unfinishing hp)

/-- A command that is no direct request. -/
theorem issue_unfinishing {c : Command} (hc : ∀ args, c ≠ .direct args) : (issue c).Issues Unfinishing := by
  refine .command ?_
  cases c with
  | direct args => exact absurd rfl (hc args)
  | _ => trivial

/-- Creating the bitmap finishes no notification. -/
theorem valTpmNotificationCreateBitmap_unfinishing :
    (valTpmNotificationCreateBitmap build ctx).Issues Unfinishing := by
  refine .ite (.pure _) ?_
  exact .guard (issue_unfinishing nofun) (fun _ => .ite (.pure _) (.pure _)) fun _ => .pure _

/-- Binding finishes no notification. -/
theorem valTpmNotificationBind_unfinishing : (valTpmNotificationBind ctx).Issues Unfinishing :=
  .guard (issue_unfinishing nofun) (fun _ => .ite (.pure _) (.pure _)) fun _ => .pure _

/-- Setting up the interrupt finishes no notification. -/
theorem valTpmNotificationSetupInterrupt_unfinishing :
    (valTpmNotificationSetupInterrupt build ctx).Issues Unfinishing := by
  refine .ite (.pure _) (.check (issue_unfinishing nofun) fun _ => ?_)
  refine .bind (issue_unfinishing nofun) fun _ => .ite (.pure _) ?_
  exact .bind (issue_unfinishing nofun) fun _ => .pure _

/-- A registration finishes no notification. -/
theorem valTpmNotificationRegister_unfinishing {type vcpuId id expected : ℕ} :
    (valTpmNotificationRegister ctx type vcpuId id expected).Issues Unfinishing := by
  refine .ite (.pure _) (.bind (valTpmSendAndExpect_issues (.command ?_)) fun _ => ?_)
  · exact show wrap32 crbRegisterNotification ≠ _ by decide
  · exact .ite (.pure _) (.pure _)

/-- The end of a registration finishes no notification. -/
theorem valTpmNotificationUnregister_unfinishing {expected : ℕ} :
    (valTpmNotificationUnregister ctx expected).Issues Unfinishing := by
  refine .bind (valTpmSendAndExpect_issues (.command ?_)) fun _ => .ite (.pure _) (.pure _)
  exact show wrap32 crbUnregisterNotification ≠ _ by decide

/-- The cleanup finishes no notification. -/
theorem valTpmNotificationCleanup_unfinishing : (valTpmNotificationCleanup build ctx).Issues Unfinishing := by
  refine .bind (.ite (.bind (issue_unfinishing nofun) fun _ => .pure _) (.pure _)) fun ctx₁ => ?_
  refine .bind (.ite valTpmNotificationUnregister_unfinishing (.pure _)) fun (_, ctx₂) => ?_
  refine .bind (.ite (.check (issue_unfinishing nofun) fun _ => .pure _) (.pure _)) fun (_, ctx₃) => ?_
  refine .bind (.ite (.bind (.check (issue_unfinishing nofun) fun _ => .pure _) fun _ => .pure _)
    (.pure _)) fun (_, ctx₄) => ?_
  exact .bind (.ite (.bind (issue_unfinishing nofun) fun _ => .pure _) (.pure _)) fun (_, _) => .pure _

/-- The set-up of a test finishes no notification. -/
theorem setUp_unfinishing : (setUp build ctx).Issues Unfinishing := by
  refine .bind (plain_unfinishing valTpmNotificationFeatureSupported_plain) fun _ => ?_
  refine .ite (.pure _) (.ite (.pure _) ?_)
  refine .bind valTpmNotificationCreateBitmap_unfinishing fun (_, _) => .ite (.pure _) (.ite (.pure _) ?_)
  refine .bind valTpmNotificationBind_unfinishing fun (_, _) => ?_
  refine .ite (.bind valTpmNotificationCleanup_unfinishing fun (_, _) => .pure _) ?_
  exact .ite (.bind valTpmNotificationCleanup_unfinishing fun (_, _) => .pure _) (.pure _)

/-- The cleanup without its result finishes no notification. -/
theorem cleanUp_unfinishing : (cleanUp build ctx).Issues Unfinishing :=
  .bind valTpmNotificationCleanup_unfinishing fun _ => .pure _

/-- Nor does the cleanup that gives back the locality first. -/
theorem relinquishAndCleanUp_unfinishing : (relinquishAndCleanUp build ctx).Issues Unfinishing :=
  .bind (plain_unfinishing relinquish_plain) fun _ => cleanUp_unfinishing

/-- The set-up of a test with an interrupt finishes no notification. -/
theorem interruptSetUp_unfinishing {undo : Context → Client Unit}
    (hundo : ∀ ctx, (undo ctx).Issues Unfinishing) {n : ℕ} :
    (interruptSetUp build undo n ctx).Issues Unfinishing := by
  refine .bind valTpmNotificationSetupInterrupt_unfinishing fun (_, _) => ?_
  refine .ite (.bind (hundo _) fun _ => .pure _) ?_
  refine .bind valTpmNotificationCreateBitmap_unfinishing fun (_, _) => ?_
  refine .ite (.bind (hundo _) fun _ => .pure _) ?_
  refine .bind valTpmNotificationBind_unfinishing fun (_, _) => ?_
  exact .ite (.bind (hundo _) fun _ => .pure _) (.pure _)

/-- The test that registers with invalid arguments finishes no notification. -/
theorem registerNotificationInvalidClient_unfinishing :
    (registerNotificationInvalidClient build).Issues Unfinishing := by
  refine .bind (plain_unfinishing valTpmNotificationInit_plain) fun (_, _) => .ite (.pure _) ?_
  refine .bind setUp_unfinishing fun (_, _) => .ite (.pure _) ?_
  refine .bind ?_ fun (_, _) => .bind valTpmNotificationCleanup_unfinishing fun (_, _) => .pure _
  refine .bind valTpmNotificationRegister_unfinishing fun (_, _) => .ite (.pure _) ?_
  refine .bind valTpmNotificationRegister_unfinishing fun (_, _) => .ite (.pure _) ?_
  exact .bind valTpmNotificationRegister_unfinishing fun (_, _) => .ite (.pure _) (.pure _)

/-- The test that ends a registration that does not exist finishes no notification. -/
theorem unregisterNotificationDeniedClient_unfinishing :
    unregisterNotificationDeniedClient.Issues Unfinishing := by
  refine .bind (plain_unfinishing valTpmNotificationInit_plain) fun (_, _) => .ite (.pure _) ?_
  refine .bind (plain_unfinishing valTpmNotificationFeatureSupported_plain) fun _ => ?_
  refine .ite (.pure _) (.ite (.pure _) ?_)
  exact .bind valTpmNotificationUnregister_unfinishing fun (_, _) => .ite (.pure _) (.pure _)

/-! ## Tests that register -/

/-- Direct requests get to the service. -/
def Surroundings.Delivers (around : Surroundings ε) : Prop := ∀ e args, (around.deliver e args).isSome = true

/-- A waiting service does not register a client. -/
theorem register_status_of_deferred {a : Model σ} (h : a.phase = .deferred reg w) (env : Env) (r : Request) :
    (a.register env r).2.status ≠ .ok := by
  unfold Model.register
  rw [h]
  split_ifs <;> nofun

/-- What a client sees of a response. -/
theorem expected_of_ne {response : Response} (h : response.status ≠ .ok) :
    wrap32 response.args.arg4 ≠ CrbStatus.ok.code := by
  change wrap32 response.status.code ≠ _
  cases hstatus : response.status <;> first | exact absurd hstatus h | decide

/-- The answer to a registration. -/
theorem register_refused (hdeliver : around.Delivers) {senderId tpmSpId arg0 arg1 arg2 : ℕ} :
    Program.Spec (attach (Model.machine pal) around) (Waits reg w)
      (valTpmSendAbi senderId tpmSpId crbRegisterNotification arg0 arg1 arg2) fun payload x =>
        wrap32 payload.arg4 ≠ CrbStatus.ok.code ∧ Waits reg w x := by
  rw [valTpmSendAbi]
  generalize hargs : ({ Args.zero with
    arg1 := senderId <<< 16 ||| tpmSpId
    arg4 := crbRegisterNotification
    arg5 := arg0
    arg6 := arg1
    arg7 := arg2 } : Args) = args
  have hfunc : args.request.func = crbRegisterNotification := by
    rw [← hargs]
    rfl
  have hunfinishing : Unfinishing (.direct args) := by
    rw [Unfinishing, hfunc]
    decide
  refine .command fun x hx => ⟨?_, attach_waits hunfinishing hx⟩
  obtain ⟨env, henv⟩ := Option.isSome_iff_exists.mp (hdeliver x.2 args)
  simp only [attach, henv]
  refine expected_of_ne ?_
  have hhandle : x.1.handle pal env args.request = Model.quietly (x.1.register env args.request) := by
    simp only [Model.handle, hfunc]
    rfl
  change (x.1.handle pal env args.request).2.1.status ≠ .ok
  rw [hhandle]
  exact register_status_of_deferred hx env _

/-- The library reports that the registration was refused. -/
theorem registerNotification_refused (hdeliver : around.Delivers) :
    Program.Spec (attach (Model.machine pal) around) (Waits reg w) (registerNotification ctx) fun r x =>
      r.1 ≠ .success ∧ Waits reg w x := by
  rw [registerNotification, valTpmNotificationRegister, if_neg (by decide)]
  refine Program.Spec.bind (Q := fun status x => status ≠ .success ∧ Waits reg w x) ?_ fun status =>
    .assume fun hstatus => ?_
  · refine (register_refused hdeliver).bind fun payload => .assume fun hpayload => ?_
    refine .ite (fun _ => .pure _ fun _ hx => ⟨nofun, hx⟩) fun _ => ?_
    refine .ite (fun _ => .pure _ fun _ hx => ⟨nofun, hx⟩) fun hexpected => ?_
    exact absurd (not_not.mp hexpected) hpayload
  · exact .ite (fun hall => absurd hall.1 hstatus) fun _ => .pure _ fun _ hx => ⟨hstatus, hx⟩

/-- A test that does not succeed and keeps the service waiting. -/
def Fails (pal : Pal σ) (around : Surroundings ε) (reg : Registration) (w : Work) (p : Client Verdict) :
    Prop :=
  Program.Spec (attach (Model.machine pal) around) (Waits reg w) p fun verdict x =>
    verdict ≠ .success ∧ Waits reg w x

/-- The test ends here. -/
theorem fails_pure {verdict : Verdict} (hverdict : verdict ≠ .success) :
    Fails pal around reg w (pure verdict) :=
  .pure _ fun _ hx => ⟨hverdict, hx⟩

/-- A cleanup does not turn a failure into a success. -/
theorem verdictAfter_ne_success {verdict : Verdict} (hverdict : verdict ≠ .success) (status : ValStatus)
    (n : ℕ) : verdictAfter verdict status n ≠ .success := by
  rwa [verdictAfter, if_pos hverdict]

/-- A body that registers first. -/
def FailsIn (pal : Pal σ) (around : Surroundings ε) (reg : Registration) (w : Work)
    (p : Client (Verdict × Context)) : Prop :=
  Program.Spec (attach (Model.machine pal) around) (Waits reg w) p fun r x => r.1 ≠ .success ∧ Waits reg w x

/-- A body that stops when its registration is refused. -/
theorem register_failsIn (hdeliver : around.Delivers) {n : ℕ}
    {next : ValStatus × Context → Client (Verdict × Context)}
    (hnext : ∀ status ctx, status ≠ .success → next (status, ctx) = pure (.errorPoint n, ctx)) :
    FailsIn pal around reg w (registerNotification ctx >>= next) := by
  refine (registerNotification_refused hdeliver).bind fun (status, ctx') => .assume fun hstatus => ?_
  rw [hnext status ctx' hstatus]
  exact .pure _ fun _ hx => ⟨nofun, hx⟩

/-- A test whose body fails. -/
theorem notificationTest_fails {body : Context → Client (Verdict × Context)} {n : ℕ}
    (hbody : ∀ ctx, FailsIn pal around reg w (body ctx)) :
    Fails pal around reg w (notificationTest build body n) := by
  refine (plain_waits valTpmNotificationInit_plain).bind fun (_, _) => ?_
  refine .ite (fun _ => fails_pure nofun) fun _ => ?_
  refine (unfinishing_waits setUp_unfinishing).bind fun (_, _) => ?_
  refine .ite (fun hverdict => fails_pure hverdict) fun _ => ?_
  refine (hbody _).bind fun (_, _) => .assume fun hverdict => ?_
  refine (unfinishing_waits valTpmNotificationCleanup_unfinishing).bind fun (_, _) => ?_
  exact fails_pure (verdictAfter_ne_success hverdict _ _)

/-- The test that looks for a notification after the end of the registration fails. -/
theorem notificationAfterUnregisterClient_fails (hdeliver : around.Delivers) :
    Fails pal around reg w (notificationAfterUnregisterClient build) := by
  have hbody (ctx : Context) : FailsIn pal around reg w (notificationAfterUnregisterBody ctx) :=
    register_failsIn hdeliver fun _ _ hstatus => if_pos hstatus
  refine (plain_waits (write_plain _)).bind fun _ => ?_
  refine (plain_waits valTpmNotificationInit_plain).bind fun (_, _) => ?_
  refine .ite (fun _ => fails_pure nofun) fun _ => ?_
  refine (unfinishing_waits setUp_unfinishing).bind fun (_, ctx) => ?_
  refine .ite (fun hverdict => fails_pure hverdict) fun _ => ?_
  refine (hbody ctx).bind fun (verdict, _) => .assume fun hverdict => ?_
  have hafter (status : ValStatus) (n : ℕ) := verdictAfter_ne_success hverdict status n
  refine (unfinishing_waits valTpmNotificationCleanup_unfinishing).bind fun (_, _) => ?_
  refine (plain_waits readGranted_plain).guard (fun _ _ => ?_) fun _ _ => fails_pure (hafter _ _)
  refine (plain_waits sendLocality_plain).guard (fun _ _ => ?_) fun _ _ => fails_pure (hafter _ _)
  rw [if_neg hverdict]
  exact fails_pure (hafter _ _)

/-- Giving back the locality at the end keeps the failure. -/
theorem relinquishAtEnd_fails {verdict : Verdict} (hverdict : verdict ≠ .success) :
    Fails pal around reg w (relinquishAtEnd ctx verdict) := by
  rw [relinquishAtEnd, if_neg hverdict, if_neg hverdict]
  refine (plain_waits readGranted_plain).guard (fun _ _ => ?_) fun _ _ => fails_pure hverdict
  refine (plain_waits sendLocality_plain).guard (fun _ _ => fails_pure hverdict) fun _ _ => ?_
  exact (plain_waits readGranted_plain).guard (fun _ _ => fails_pure hverdict) fun _ _ => fails_pure hverdict

/-- The test that is notified of a locality request fails. -/
theorem notificationStartLocalityClient_fails (hdeliver : around.Delivers) :
    Fails pal around reg w (notificationStartLocalityClient build) := by
  have hbody (ctx : Context) : FailsIn pal around reg w (notificationStartLocalityBody build ctx) :=
    register_failsIn hdeliver fun _ _ hstatus => if_pos hstatus
  refine (plain_waits (write_plain _)).bind fun _ => ?_
  refine (plain_waits valTpmNotificationInit_plain).bind fun (_, _) => ?_
  refine .ite (fun _ => fails_pure nofun) fun _ => ?_
  refine (plain_waits valTpmNotificationFeatureSupported_plain).guard (fun _ _ => ?_) fun _ _ => ?_
  · exact (unfinishing_waits cleanUp_unfinishing).bind fun _ => fails_pure (failedStep_ne_success _ _)
  refine (unfinishing_waits (interruptSetUp_unfinishing fun _ => cleanUp_unfinishing)).bind fun (_, ctx) => ?_
  refine .ite (fun hverdict => fails_pure hverdict) fun _ => ?_
  refine (hbody ctx).bind fun (_, _) => .assume fun hverdict => ?_
  refine (unfinishing_waits valTpmNotificationCleanup_unfinishing).bind fun (_, _) => ?_
  refine (relinquishAtEnd_fails hverdict).bind fun _ => .assume fun hverdict => ?_
  exact fails_pure (verdictAfter_ne_success hverdict _ _)

/-- Clearing CTRL_START and giving back the locality at the end keeps the failure. -/
theorem stopAtEnd_fails {verdict : Verdict} (hverdict : verdict ≠ .success) :
    Fails pal around reg w (stopAtEnd ctx verdict) := by
  have hrest : Fails pal around reg w (do
      if (← relinquish ctx.clientId ctx.tpmSpId) ≠ .success then
        return if verdict = .success then .errorPoint 19 else verdict
      if (← readGranted) then
        return if verdict = .success then .errorPoint 20 else verdict
      return verdict) := by
    rw [if_neg hverdict, if_neg hverdict]
    refine (plain_waits relinquish_plain).guard (fun _ _ => fails_pure hverdict) fun _ _ => ?_
    exact (plain_waits readGranted_plain).guard (fun _ _ => fails_pure hverdict) fun _ _ =>
      fails_pure hverdict
  refine (plain_waits readStarted_plain).guard (fun _ _ => ?_) fun _ _ => hrest
  exact (plain_waits (write_plain _)).bind fun _ => hrest

/-- The test that is notified of a command fails. -/
theorem notificationStartCommandClient_fails (hdeliver : around.Delivers) :
    Fails pal around reg w (notificationStartCommandClient build) := by
  have hbody (ctx : Context) : FailsIn pal around reg w (notificationStartCommandBody build ctx) :=
    register_failsIn hdeliver fun _ _ hstatus => if_pos hstatus
  refine (plain_waits valTpmNotificationInit_plain).bind fun (_, _) => ?_
  refine .ite (fun _ => fails_pure nofun) fun _ => ?_
  refine (plain_waits valTpmNotificationFeatureSupported_plain).guard (fun _ _ => ?_) fun _ _ => ?_
  · exact (unfinishing_waits cleanUp_unfinishing).bind fun _ => fails_pure (failedStep_ne_success _ _)
  refine (plain_waits sendLocality_plain).guard (fun _ _ => ?_) fun _ _ => ?_
  · exact (unfinishing_waits cleanUp_unfinishing).bind fun _ => fails_pure nofun
  refine (plain_waits readGranted_plain).guard (fun _ _ => ?_) fun _ _ => ?_
  · exact (unfinishing_waits relinquishAndCleanUp_unfinishing).bind fun _ => fails_pure nofun
  refine (unfinishing_waits (interruptSetUp_unfinishing fun _ => relinquishAndCleanUp_unfinishing)).bind
    fun (_, ctx) => ?_
  refine .ite (fun hverdict => fails_pure hverdict) fun _ => ?_
  refine (hbody ctx).bind fun (_, _) => .assume fun hverdict => ?_
  refine (unfinishing_waits valTpmNotificationCleanup_unfinishing).bind fun (_, _) => ?_
  refine (stopAtEnd_fails hverdict).bind fun _ => .assume fun hverdict => ?_
  exact fails_pure (verdictAfter_ne_success hverdict _ _)

/-! ## The suite -/

/-- The tests that have to register. -/
def TpmTest.registers : TpmTest → Bool
  | registerNotificationDuplicate | finishNotifiedNoNotification | notificationAfterUnregister
  | notificationStartLocality | notificationStartCommand => true
  | _ => false

/-- Each test that has to register fails. -/
theorem TpmTest.client_fails (hdeliver : around.Delivers) {test : TpmTest} (htest : test.registers = true) :
    Fails pal around reg w (test.client build) := by
  cases test with
  | registerNotificationDuplicate =>
    exact notificationTest_fails fun _ => register_failsIn hdeliver fun _ _ hstatus => if_pos hstatus
  | finishNotifiedNoNotification =>
    exact notificationTest_fails fun _ => register_failsIn hdeliver fun _ _ hstatus => if_pos hstatus
  | notificationAfterUnregister => exact notificationAfterUnregisterClient_fails hdeliver
  | notificationStartLocality => exact notificationStartLocalityClient_fails hdeliver
  | notificationStartCommand => exact notificationStartCommandClient_fails hdeliver
  | _ => exact absurd htest (by decide)

/-- The other tests do not finish a notification. -/
theorem TpmTest.client_unfinishing (build : Build) {test : TpmTest} (htest : test.registers = false) :
    (test.client build).Issues Unfinishing := by
  cases test with
  | getInterfaceVersion => exact plain_unfinishing getInterfaceVersionClient_plain
  | getFeatureInfo => exact plain_unfinishing getFeatureInfoClient_plain
  | getFeatureInfoInvalid => exact plain_unfinishing getFeatureInfoInvalidClient_plain
  | unknownFunctionId => exact plain_unfinishing tpmCrbUnknownFunctionIdClient_plain
  | startLocalityFlow => exact plain_unfinishing startLocalityFlowClient_plain
  | startLocalityCtrlData => exact plain_unfinishing startLocalityCtrlDataClient_plain
  | startLocalityInvalidArgs => exact plain_unfinishing startLocalityInvalidArgsClient_plain
  | startLocalityRelinquishInactive => exact plain_unfinishing startLocalityRelinquishInactiveClient_plain
  | startCommand => exact plain_unfinishing startCommandClient_plain
  | startCommandInvalidBuffer => exact plain_unfinishing startCommandInvalidBufferClient_plain
  | startCommandInvalidLocality => exact plain_unfinishing startCommandInvalidLocalityClient_plain
  | startCommandNoExecute => exact plain_unfinishing startCommandNoExecuteClient_plain
  | registerNotificationInvalid => exact registerNotificationInvalidClient_unfinishing
  | unregisterNotificationDenied => exact unregisterNotificationDeniedClient_unfinishing
  | _ => exact absurd htest (by decide)

/-- The tests that have to register have not succeeded. -/
def RegistrationsFailed : List TpmTest → List Verdict → Prop :=
  List.Forall₂ fun test verdict => test.registers = true → verdict ≠ .success

/-- Tests that are run while the service waits. -/
theorem suite_waits (pal : Pal σ) (hdeliver : around.Delivers) (build : Build) (tests : List TpmTest) :
    Program.Spec (attach (Model.machine pal) around) (Waits reg w) (suite build tests) fun verdicts x =>
      RegistrationsFailed tests verdicts ∧ Waits reg w x := by
  induction tests with
  | nil => exact .pure _ fun _ hx => ⟨.nil, hx⟩
  | cons test rest ih =>
    have htest : Program.Spec (attach (Model.machine pal) around) (Waits reg w) (test.client build)
        fun verdict x => (test.registers = true → verdict ≠ .success) ∧ Waits reg w x := by
      cases hregisters : test.registers with
      | true =>
        have hfails : Fails pal around reg w (test.client build) := TpmTest.client_fails hdeliver hregisters
        exact hfails.mono (fun _ hx => hx) fun _ _ hx => ⟨fun _ => hx.1, hx.2⟩
      | false =>
        have hkeeps := TpmTest.client_unfinishing build hregisters
        exact (unfinishing_waits hkeeps).mono (fun _ hx => hx) fun _ _ hx => ⟨nofun, hx⟩
    exact htest.bind fun _ => .assume fun hverdict => ih.bind fun _ => .assume fun hrest =>
      .pure _ fun _ hx => ⟨.cons hverdict hrest, hx⟩

/-- Whatever a client has done since the service started: if a notification is outstanding then, no tests
of the suite, in any order, get the service out of this phase, and all of them that have to register
fail. -/
theorem abandoned_deferral_blocks (pal : Pal σ) (around : Surroundings ε) (hdeliver : around.Delivers)
    (before : Client α) (build : Build) (tests : List TpmTest) (m : ByteMemory) (tpm : σ) (e : ε)
    (hout : (before.run (attach (serviceMachine pal) around) (Service.start m tpm, e)).2.1.notif.outstanding =
      true) :
    let left := (before.run (attach (serviceMachine pal) around) (Service.start m tpm, e)).2
    let later := (suite build tests).run (attach (serviceMachine pal) around) left
    RegistrationsFailed tests later.1 ∧
      ∃ reg w, left.1.notif.InPhase (.deferred reg w) ∧ later.2.1.notif.InPhase (.deferred reg w) := by
  have hsim := (serviceMachine_simulates pal).attach around
  obtain ⟨-, hstate, henv⟩ := hsim.run before (s := (Service.start m tpm, e)) (t := (Model.initial m tpm, e))
    ⟨represents_initial m tpm, rfl⟩
  obtain ⟨reg, w, hphase⟩ := hstate.phase.exists_deferred hout
  obtain ⟨hverdicts, hstate', -⟩ := hsim.run (suite build tests) ⟨hstate, henv⟩
  obtain ⟨hfailed, hwaits⟩ := suite_waits pal hdeliver build tests _ hphase
  refine ⟨hverdicts ▸ hfailed, reg, w, hphase ▸ hstate.phase, ?_⟩
  have hin := hstate'.phase
  rwa [hwaits] at hin

end

/-- Surroundings that grant every request, but the interrupt of a notification never gets to its handler. -/
def deaf : Surroundings Unit where
  handle
    | .sriSeen, _ => (false, ())
    | c, _ => granting c ()
  deliver _ _ := some ⟨true, true, false, 0⟩
  observe _ _ := ()

/-- A TPM that executes no command. -/
def brokenPal : Pal Unit := fun _ _ _ => (⟨false, none, 0⟩, ())

/-- The test of a notified locality request leaves its deferral behind if the interrupt does not arrive.
From then on it fails, and so does the test of a duplicate registration. -/
theorem abandoned_by_startLocality :
    let left := ((notificationStartLocalityClient ⟨false, false⟩).run (attach (serviceMachine brokenPal) deaf)
      (Service.start (fun _ => 0) (), ())).2
    let tests := [.notificationStartLocality, .getFeatureInfo, .registerNotificationDuplicate]
    let later := (suite ⟨false, false⟩ tests).run (attach (serviceMachine brokenPal) deaf) left
    left.1.notif.outstanding = true ∧ RegistrationsFailed tests later.1 ∧
      ∃ reg w, left.1.notif.InPhase (.deferred reg w) ∧ later.2.1.notif.InPhase (.deferred reg w) :=
  ⟨by decide, abandoned_deferral_blocks brokenPal deaf (fun _ _ => rfl) _ _ _ _ _ _ (by decide)⟩

end FfaAcs.Tpm
