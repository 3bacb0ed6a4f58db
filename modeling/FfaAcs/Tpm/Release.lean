import FfaAcs.Tpm.Tests

/-!
# What the TPM tests leave behind

A notification test acquires a bitmap, a binding, a registration, a handler and an interrupt, and it can
stop after any of its steps. Here a machine records what the client holds: what it has acquired and not
given back, and of each such resource whether its release was asked for and refused. The flags of the
notification context cover what no release was asked for, at every point of every test. So the cleanup
asks for everything, whatever the machine answers, and what the client still holds after it was refused.

One registration can be missed: the test that registers with invalid arguments does not expect to be
registered, and its flag stays down if it is.
-/

namespace FfaAcs.Tpm

open Machine Client

/-! ## Resources -/

/-- What a client acquires outside of itself. -/
inductive Resource
  | bitmap (clientId : ℕ)
  | binding (args : Args)
  | registration (parties : ℕ)
  | handler (irqNum : ℕ)
  | interrupt (irqNum : ℕ)
deriving DecidableEq, Repr

/-- What the client has acquired by a command with this answer. -/
def acquired : (c : Command) → c.Answer → Option Resource
  | .ffa .notificationBitmapCreate args, answer =>
    if answer.fid = ffaError32 then none else some (.bitmap args.arg1)
  | .ffa .notificationBind args, answer => if answer.fid = ffaError32 then none else some (.binding args)
  | .direct args, answer =>
    if args.arg4 = crbRegisterNotification ∧ answer.fid = ffaMsgSendDirectResp64 ∧
      wrap32 answer.arg4 = CrbStatus.ok.code then some (.registration args.arg1) else none
  | .irqRegister n, answer => if answer then some (.handler n) else none
  | .irqEnable n _, _ => some (.interrupt n)
  | _, _ => none

/-- By a direct request the client acquires a registration, if the service grants it. -/
theorem acquired_direct {args answer : Args} {r : Resource} (h : acquired (.direct args) answer = some r) :
    (args.arg4 = crbRegisterNotification ∧ answer.fid = ffaMsgSendDirectResp64 ∧
      wrap32 answer.arg4 = CrbStatus.ok.code) ∧ r = .registration args.arg1 := by
  obtain ⟨hgranted, hr⟩ := Option.ite_none_right_eq_some.mp h
  exact ⟨hgranted, (Option.some.inj hr).symm⟩

/-- The resource that a command asks to be released. -/
def asksRelease : Command → Option Resource
  | .ffa .notificationBitmapDestroy args => some (.bitmap args.arg1)
  | .ffa .notificationUnbind args => some (.binding args)
  | .direct args => if args.arg4 = crbUnregisterNotification then some (.registration args.arg1) else none
  | .irqUnregister n => some (.handler n)
  | .irqDisable n => some (.interrupt n)
  | _ => none

/-- The answer to a release says that it is granted. Disabling an interrupt has no answer. -/
def releaseGranted : (c : Command) → c.Answer → Bool
  | .ffa _ _, answer => answer.fid ≠ ffaError32
  | .direct _, answer => answer.fid = ffaMsgSendDirectResp64 ∧ wrap32 answer.arg4 = CrbStatus.ok.code
  | .irqUnregister _, answer => answer
  | _, _ => true

/-- A resource that the client holds, and whether its release has been refused. -/
structure Holding where
  resource : Resource
  refused : Bool
deriving DecidableEq, Repr

/-- What becomes of a holding by a command: a granted release ends it, and a refused one is noted. -/
def Holding.after (c : Command) (answer : c.Answer) (e : Holding) : Option Holding :=
  if asksRelease c = some e.resource then
    if releaseGranted c answer then none else some { e with refused := true }
  else some e

/-- What the client holds after a command. -/
def hold (held : List Holding) (c : Command) (answer : c.Answer) : List Holding :=
  (acquired c answer).toList.map (⟨·, false⟩) ++ held.filterMap (Holding.after c answer)

/-- A machine that records what the client holds. -/
def holding {S : Type} (h : Handler outside S) : Handler outside (S × List Holding) :=
  Program.recording (I := outside) hold h

/-- The resources that a context has flags for. -/
def Context.Owns (build : Build) (ctx : Context) : Resource → Prop
  | .bitmap clientId => build.hasBitmap = true ∧ ctx.bitmapCreated = true ∧ clientId = ctx.clientId
  | .binding args => ctx.bound = true ∧ args = ctx.bindArgs
  | .registration parties => ctx.registered = true ∧ parties = ctx.clientId <<< 16 ||| ctx.tpmSpId
  | .handler n => build.hasSri = true ∧ ctx.sriRegistered = true ∧ n = ctx.sriId
  | .interrupt n => build.hasSri = true ∧ ctx.sriEnabled = true ∧ n = ctx.sriId

/-- What may be held: what the context has flags for and, if `loose`, any registration. -/
def Context.Allows (build : Build) (loose : Bool) (ctx : Context) (r : Resource) : Prop :=
  ctx.Owns build r ∨ loose = true ∧ ∃ parties, r = .registration parties

section

variable {S α β : Type} {h : Handler outside S} {V W : Resource → Prop} {build : Build} {loose : Bool}
  {ctx : Context}

/-- All resources that are held without having been refused their release are of this kind. -/
def Within (W : Resource → Prop) (x : S × List Holding) : Prop :=
  ∀ e ∈ x.2, e.refused = false → W e.resource

/-- Resources of one kind are of a wider kind. -/
theorem Within.mono {x : S × List Holding} (hx : Within V x) (hVW : ∀ r, V r → W r) : Within W x :=
  fun e he hkept => hVW _ (hx e he hkept)

/-- A command by which nothing was acquired. -/
theorem Within.refused {x : S × List Holding} {c : Command} {answer : c.Answer}
    (hx : Within (fun r => acquired c answer = some r ∨ V r ∧ asksRelease c ≠ some r) x)
    (hanswer : acquired c answer = none) : Within V x :=
  hx.mono fun _ hr => hr.elim (fun heq => nomatch hanswer.symm.trans heq) And.left

/-- What is held after a command was acquired by it or was held before. -/
theorem mem_hold {held : List Holding} {c : Command} {answer : c.Answer} {e : Holding}
    (he : e ∈ hold held c answer) : acquired c answer = some e.resource ∧ e.refused = false ∨
      e ∈ held ∧ asksRelease c ≠ some e.resource ∨ e.refused = true ∧ releaseGranted c answer = false ∧
        asksRelease c = some e.resource := by
  rcases List.mem_append.mp he with he | he
  · obtain ⟨r, hr, rfl⟩ := List.mem_map.mp he
    exact .inl ⟨Option.mem_toList.mp hr, rfl⟩
  · obtain ⟨e₀, he₀, hafter⟩ := List.mem_filterMap.mp he
    rw [Holding.after] at hafter
    split_ifs at hafter with hasked hgranted
    · obtain rfl := Option.some.inj hafter
      exact .inr (.inr ⟨rfl, Bool.eq_false_iff.mpr hgranted, hasked⟩)
    · obtain rfl := Option.some.inj hafter
      exact .inr (.inl ⟨he₀, hasked⟩)

/-- What one command does to the record. -/
theorem issue_within (c : Command) : Program.Spec (holding h) (Within W) (issue c) fun answer =>
    Within fun r => acquired c answer = some r ∨ W r ∧ asksRelease c ≠ some r := by
  intro x hx e he hkept
  rcases mem_hold he with ⟨hacquired, -⟩ | ⟨hheld, hasked⟩ | ⟨hrefused, -⟩
  · exact .inl hacquired
  · exact .inr ⟨hx e hheld hkept, hasked⟩
  · exact absurd (hkept.symm.trans hrefused) Bool.false_ne_true

/-- The end of a program. -/
theorem pure_within (a : α) {Q : α → Resource → Prop} (hVQ : ∀ r, V r → Q a r) :
    Program.Spec (holding h) (Within V) (pure a) fun a => Within (Q a) :=
  .pure a fun _ hx => hx.mono hVQ

/-- A command that has nothing to do with resources. -/
def Neutral : Command → Prop
  | .ffa call _ => call = .notificationGet ∨ call = .features
  | .direct args => args.arg4 ≠ crbRegisterNotification ∧ args.arg4 ≠ crbUnregisterNotification
  | .irqRegister _ | .irqUnregister _ | .irqEnable _ _ | .irqDisable _ => False
  | _ => True

/-- Nothing is acquired or released by a neutral command. -/
theorem Neutral.eq_none {c : Command} (hc : Neutral c) :
    (∀ answer, acquired c answer = none) ∧ asksRelease c = none := by
  cases c with
  | ffa call args => rcases hc with rfl | rfl <;> exact ⟨fun _ => rfl, rfl⟩
  | direct args =>
    exact ⟨fun _ => if_neg fun hall => hc.1 hall.1, if_neg hc.2⟩
  | irqRegister | irqUnregister | irqEnable | irqDisable => exact hc.elim
  | _ => exact ⟨fun _ => rfl, rfl⟩

/-- Programs of neutral commands leave the record alone. -/
theorem neutral_within {p : Client α} (hp : p.Issues Neutral) :
    Program.Spec (holding h) (Within W) p fun _ => Within W := by
  refine hp.keeps fun c x hc hx => ?_
  have hx' := issue_within (h := h) c x hx
  exact hx'.refused (hc.eq_none.1 _)

/-- A neutral command leaves the record alone. -/
theorem issue_neutral {c : Command} (hc : Neutral c) :
    Program.Spec (holding h) (Within W) (issue c) fun _ => Within W :=
  neutral_within (.command hc)

/-! ## Plain programs -/

/-- A command that does not finish a notification. -/
def Unfinishing : Command → Prop
  | .direct args => args.request.func ≠ crbFinishNotified
  | _ => True

/-- A command that has nothing to do with resources or notifications. -/
def Plain (c : Command) : Prop := Neutral c ∧ Unfinishing c

section

variable {senderId tpmSpId functionId arg0 arg1 arg2 expectedStatus : ℕ}

/-- A request that is neither of a registration nor of FINISH_NOTIFIED is plain. -/
theorem valTpmSendAbi_plain (hregister : functionId ≠ crbRegisterNotification)
    (hunregister : functionId ≠ crbUnregisterNotification) (hfinish : wrap32 functionId ≠ crbFinishNotified) :
    (valTpmSendAbi senderId tpmSpId functionId arg0 arg1 arg2).Issues Plain :=
  .command ⟨⟨hregister, hunregister⟩, hfinish⟩

/-- A request whose answer is compared issues what the request does. -/
theorem valTpmSendAndExpect_issues {K : Command → Prop}
    (h : (valTpmSendAbi senderId tpmSpId functionId arg0 arg1 arg2).Issues K) :
    (valTpmSendAndExpect senderId tpmSpId functionId arg0 arg1 arg2 expectedStatus).Issues K :=
  h.check fun _ => .ite (.pure _) (.pure _)

/-- START is plain. -/
theorem sendStart_plain {type : ℕ} : (sendStart senderId tpmSpId type).Issues Plain :=
  valTpmSendAndExpect_issues (valTpmSendAbi_plain (by decide) (by decide) (by decide))

/-- A write to a register is plain. -/
theorem write_plain (w : ClientWrite) : (issue (.write w)).Issues Plain :=
  .command ⟨trivial, trivial⟩

/-- A locality request is plain. -/
theorem sendLocality_plain {ctrl : ℕ} : (sendLocality senderId tpmSpId ctrl).Issues Plain :=
  .bind (write_plain _) fun _ => sendStart_plain

/-- Relinquishing a locality is plain. -/
theorem relinquish_plain : (relinquish senderId tpmSpId).Issues Plain :=
  .bind (write_plain _) fun _ => sendStart_plain

/-- Reading LOC_STS is plain. -/
theorem readGranted_plain : readGranted.Issues Plain :=
  .bind (.command ⟨trivial, trivial⟩) fun _ => .pure _

/-- Reading CTRL_START is plain. -/
theorem readStarted_plain : readStarted.Issues Plain :=
  .bind (.command ⟨trivial, trivial⟩) fun _ => .pure _

/-- Reading the data buffer is plain. -/
theorem data_plain (l : Locality) (i : Fin crbDataBufferSize) : (issue (.data l i)).Issues Plain :=
  .command ⟨trivial, trivial⟩

/-- Looking up the endpoints is plain. -/
theorem valTpmGetEndpointIds_plain : valTpmGetEndpointIds.Issues Plain := by
  refine .bind (.command ⟨trivial, trivial⟩) fun ids => ?_
  cases ids with
  | none => exact .pure _
  | some ids => exact .pure _

/-- Initialising a context is plain. -/
theorem valTpmNotificationInit_plain : valTpmNotificationInit.Issues Plain :=
  .bind valTpmGetEndpointIds_plain fun _ => .pure _

/-- Asking for notifications is plain. -/
theorem valTpmNotificationFeatureSupported_plain :
    (valTpmNotificationFeatureSupported senderId tpmSpId).Issues Plain := by
  refine .check (valTpmSendAbi_plain (by decide) (by decide) (by decide)) fun _ => ?_
  exact .ite (.pure _) (.ite (.pure _) (.pure _))

/-- Looking for a notification is plain. -/
theorem valTpmCheckPendingNotification_plain {expectedPresent : Bool} :
    (valTpmCheckPendingNotification ctx expectedPresent).Issues Plain :=
  .guard (.command ⟨.inl rfl, trivial⟩) (fun _ => .ite (.pure _) (.pure _)) fun _ =>
    .ite (.pure _) (.pure _)

/-- Copying to the data buffer is plain. -/
theorem copyToDataBuffer_plain (l : Locality) (src : ℕ → UInt8) (size : ℕ) :
    (copyToDataBuffer l src size).Issues Plain :=
  .forM (fun _ => write_plain _) _

/-- Placing a command is plain. -/
theorem placeCommand_plain (cmd : ℕ → UInt8) (size : ℕ) : (placeCommand cmd size).Issues Plain :=
  .bind (copyToDataBuffer_plain _ _ _) fun _ => write_plain _

/-- Copying from the data buffer is plain. -/
theorem readDataBuffer_plain (l : Locality) (is : List (Fin crbDataBufferSize)) (dst : ℕ → UInt8) :
    (readDataBuffer l is dst).Issues Plain := by
  induction is generalizing dst with
  | nil => exact .pure _
  | cons i rest ih => exact .bind (data_plain l i) fun _ => ih _

/-- Reading a response is plain. -/
theorem readResponse_plain : readResponse.Issues Plain := by
  unfold readResponse copyFromDataBuffer
  exact .bind (readDataBuffer_plain _ _ _) fun _ => .pure _

/-- Comparing the data buffer is plain. -/
theorem tpmBufferMatches_plain (expected : ℕ → UInt8) (is : List (Fin crbDataBufferSize)) :
    (tpmBufferMatches expected is).Issues Plain := by
  induction is with
  | nil => exact .pure _
  | cons i rest ih => exact .check (data_plain _ i) fun _ => ih

/-- Relinquishing a locality that is granted is plain. -/
theorem tpmRelinquishIfGranted_plain : (tpmRelinquishIfGranted senderId tpmSpId).Issues Plain := by
  refine .check readGranted_plain fun _ => ?_
  refine .check sendLocality_plain fun _ => ?_
  exact .check readGranted_plain fun _ => .pure _

/-- Running a command that the TPM refuses is plain. -/
theorem tpmRunInvalidCommand_plain {cmd : ℕ → UInt8} {cmdSize expectedRc : ℕ} :
    (tpmRunInvalidCommand senderId tpmSpId cmd cmdSize expectedRc).Issues Plain := by
  refine .bind (copyToDataBuffer_plain _ _ _) fun _ => ?_
  refine .bind (placeCommand_plain _ _) fun _ => ?_
  refine .guard sendStart_plain (fun _ => .bind (write_plain _) fun _ => .pure _) fun _ => ?_
  refine .guard readStarted_plain (fun _ => .bind (write_plain _) fun _ => .pure _) fun _ => ?_
  refine .bind readResponse_plain fun rsp => ?_
  cases rsp with
  | none => exact .pure _
  | some rsp => exact .ite (.pure _) (.pure _)

/-- Relinquish the locality and report an error. -/
theorem relinquishAndFail_plain (n : ℕ) : (do
    let _ ← relinquish senderId tpmSpId
    return Verdict.errorPoint n : Client Verdict).Issues Plain :=
  .bind relinquish_plain fun _ => .pure _

/-- Clear CTRL_START and report an error. -/
theorem stopAndFail_plain (n : ℕ) : (do
    writeCtrlStart 0
    return Verdict.errorPoint n : Client Verdict).Issues Plain :=
  .bind (write_plain _) fun _ => .pure _

/-- Clear CTRL_START, relinquish the locality and report an error. -/
theorem stopRelinquishAndFail_plain (n : ℕ) : (do
    writeCtrlStart 0
    let _ ← relinquish senderId tpmSpId
    return Verdict.errorPoint n : Client Verdict).Issues Plain :=
  .bind (write_plain _) fun _ => relinquishAndFail_plain n

end

/-! ## Plain tests -/

/-- The test of the version is plain. -/
theorem getInterfaceVersionClient_plain : getInterfaceVersionClient.Issues Plain := by
  refine .bind valTpmGetEndpointIds_plain fun (_, _, _) => .ite (.pure _) ?_
  refine .check (valTpmSendAbi_plain (by decide) (by decide) (by decide)) fun _ => ?_
  refine .ite (.pure _) (.ite (.pure _) ?_)
  exact .ite (.pure _) (.ite (.pure _) (.pure _))

/-- The test of the features is plain. -/
theorem getFeatureInfoClient_plain : getFeatureInfoClient.Issues Plain := by
  refine .bind valTpmGetEndpointIds_plain fun (_, _, _) => .ite (.pure _) ?_
  refine .check (valTpmSendAbi_plain (by decide) (by decide) (by decide)) fun _ => ?_
  exact .ite (.pure _) (.pure _)

/-- The test of a feature that does not exist is plain. -/
theorem getFeatureInfoInvalidClient_plain : getFeatureInfoInvalidClient.Issues Plain := by
  refine .bind valTpmGetEndpointIds_plain fun (_, _, _) => .ite (.pure _) ?_
  refine .check (valTpmSendAndExpect_issues ?_) fun _ => .pure _
  exact valTpmSendAbi_plain (by decide) (by decide) (by decide)

/-- The test of a function that does not exist is plain. -/
theorem tpmCrbUnknownFunctionIdClient_plain : tpmCrbUnknownFunctionIdClient.Issues Plain := by
  refine .bind valTpmGetEndpointIds_plain fun (_, _, _) => .ite (.pure _) ?_
  refine .check (valTpmSendAndExpect_issues ?_) fun _ => .pure _
  exact valTpmSendAbi_plain (by decide) (by decide) (by decide)

/-- The three requests of the locality test are plain. -/
theorem startLocalityFlowBody_plain {senderId tpmSpId : ℕ} :
    (startLocalityFlowBody senderId tpmSpId).Issues Plain := by
  refine .check sendLocality_plain fun _ => .check readGranted_plain fun _ => ?_
  refine .check sendLocality_plain fun _ => .check readGranted_plain fun _ => ?_
  refine .check sendLocality_plain fun _ => .check readGranted_plain fun _ => ?_
  exact .pure _

/-- The locality test is plain. -/
theorem startLocalityFlowClient_plain : startLocalityFlowClient.Issues Plain := by
  refine .bind valTpmGetEndpointIds_plain fun (_, senderId, tpmSpId) => .ite (.pure _) ?_
  refine .bind (write_plain _) fun _ => ?_
  refine .check relinquish_plain fun _ => .check readGranted_plain fun _ => ?_
  refine .bind startLocalityFlowBody_plain fun (_, _) => .ite ?_ (.pure _)
  -- the locality is given back
  refine .guard readGranted_plain (fun _ => ?_) fun _ => .pure _
  exact .guard sendLocality_plain (fun _ => .ite (.pure _) (.pure _)) fun _ => .pure _

/-- The test of LOC_CTRL data without a meaning is plain. -/
theorem startLocalityCtrlDataClient_plain : startLocalityCtrlDataClient.Issues Plain := by
  refine .bind valTpmGetEndpointIds_plain fun (_, _, _) => .ite (.pure _) ?_
  refine .check tpmRelinquishIfGranted_plain fun _ => ?_
  refine .check sendLocality_plain fun _ => ?_
  refine .guard readGranted_plain (fun _ => .bind tpmRelinquishIfGranted_plain fun _ => .pure _) fun _ => ?_
  refine .guard sendLocality_plain (fun _ => .bind tpmRelinquishIfGranted_plain fun _ => .pure _) fun _ => ?_
  exact .check tpmRelinquishIfGranted_plain fun _ => .pure _

/-- The test of requests with invalid arguments is plain. -/
theorem startLocalityInvalidArgsClient_plain : startLocalityInvalidArgsClient.Issues Plain := by
  have hsend {senderId tpmSpId arg0 arg1 arg2 expectedStatus : ℕ} :
      (valTpmSendAndExpect senderId tpmSpId crbStart arg0 arg1 arg2 expectedStatus).Issues Plain :=
    valTpmSendAndExpect_issues (valTpmSendAbi_plain (by decide) (by decide) (by decide))
  refine .bind valTpmGetEndpointIds_plain fun (_, _, _) => .ite (.pure _) ?_
  refine .check hsend fun _ => .check hsend fun _ => ?_
  exact .check hsend fun _ => .check hsend fun _ => .pure _

/-- The test that gives back a locality that is not granted is plain. -/
theorem startLocalityRelinquishInactiveClient_plain :
    startLocalityRelinquishInactiveClient.Issues Plain := by
  refine .bind valTpmGetEndpointIds_plain fun (_, _, _) => .ite (.pure _) ?_
  refine .check sendLocality_plain fun _ => ?_
  refine .guard readGranted_plain (fun _ => .bind sendLocality_plain fun _ => .pure _) fun _ => ?_
  refine .check sendLocality_plain fun _ => ?_
  exact .guard readGranted_plain (fun _ => .bind sendLocality_plain fun _ => .pure _) fun _ => .pure _

/-- The command test is plain. -/
theorem startCommandClient_plain : startCommandClient.Issues Plain := by
  refine .bind valTpmGetEndpointIds_plain fun (_, _, _) => .ite (.pure _) ?_
  refine .check sendLocality_plain fun _ => ?_
  refine .guard readGranted_plain (fun _ => relinquishAndFail_plain 3) fun _ => ?_
  refine .bind (placeCommand_plain _ _) fun _ => ?_
  refine .guard sendStart_plain (fun _ => stopRelinquishAndFail_plain 4) fun _ => ?_
  refine .guard readStarted_plain (fun _ => stopRelinquishAndFail_plain 5) fun _ => ?_
  refine .bind readResponse_plain fun rsp => ?_
  cases rsp with
  | none => exact relinquishAndFail_plain 6
  | some rsp =>
    refine .ite (relinquishAndFail_plain 7) ?_
    exact .check relinquish_plain fun _ => .check readGranted_plain fun _ => .pure _

/-- The test of commands that the TPM refuses is plain. -/
theorem startCommandInvalidBufferClient_plain : startCommandInvalidBufferClient.Issues Plain := by
  refine .bind valTpmGetEndpointIds_plain fun (_, _, _) => .ite (.pure _) ?_
  refine .check sendLocality_plain fun _ => ?_
  refine .guard readGranted_plain (fun _ => relinquishAndFail_plain 3) fun _ => ?_
  refine .guard tpmRunInvalidCommand_plain (fun _ => relinquishAndFail_plain 4) fun _ => ?_
  refine .guard tpmRunInvalidCommand_plain (fun _ => relinquishAndFail_plain 5) fun _ => ?_
  exact .check relinquish_plain fun _ => .check readGranted_plain fun _ => .pure _

/-- The test of a command for a locality that does not exist is plain. -/
theorem startCommandInvalidLocalityClient_plain : startCommandInvalidLocalityClient.Issues Plain := by
  refine .bind valTpmGetEndpointIds_plain fun (_, _, _) => .ite (.pure _) ?_
  refine .bind (placeCommand_plain _ _) fun _ => ?_
  refine .bind (valTpmSendAndExpect_issues ?_) fun _ => ?_
  · exact valTpmSendAbi_plain (by decide) (by decide) (by decide)
  · exact .bind (write_plain _) fun _ => .ite (.pure _) (.pure _)

/-- The test of commands that must not be executed is plain. -/
theorem startCommandNoExecuteClient_plain : startCommandNoExecuteClient.Issues Plain := by
  refine .bind valTpmGetEndpointIds_plain fun (_, _, _) => .ite (.pure _) ?_
  -- the locality is requested, and a command is sent without CTRL_START
  refine .check sendLocality_plain fun _ => ?_
  refine .guard readGranted_plain (fun _ => relinquishAndFail_plain 3) fun _ => ?_
  refine .bind (copyToDataBuffer_plain _ _ _) fun _ => .bind (write_plain _) fun _ => ?_
  refine .guard sendStart_plain (fun _ => relinquishAndFail_plain 4) fun _ => ?_
  refine .guard (.command ⟨trivial, trivial⟩) (fun _ => relinquishAndFail_plain 5) fun _ => ?_
  refine .guard (tpmBufferMatches_plain _ _) (fun _ => relinquishAndFail_plain 6) fun _ => ?_
  -- the locality is given back, and a command is sent without it
  refine .check relinquish_plain fun _ => .check readGranted_plain fun _ => ?_
  refine .bind (placeCommand_plain _ _) fun _ => ?_
  refine .guard sendStart_plain (fun _ => stopAndFail_plain 9) fun _ => ?_
  refine .guard readGranted_plain (fun _ => stopRelinquishAndFail_plain 10) fun _ => ?_
  refine .guard readStarted_plain (fun _ => stopAndFail_plain 11) fun _ => ?_
  refine .guard (tpmBufferMatches_plain _ _) (fun _ => stopAndFail_plain 12) fun _ => ?_
  exact .bind (write_plain _) fun _ => .pure _

/-! ## The context covers the record -/

/-- The programs that end with a context that allows what is held. -/
def Covers (h : Handler outside S) (build : Build) (loose : Bool) (ctx : Context) (p : Client (α × Context)) :
    Prop :=
  Program.Spec (holding h) (Within (ctx.Allows build loose)) p fun r => Within (r.2.Allows build loose)

/-- The end of a program that keeps its context. -/
theorem covers_pure (a : α) : Covers h build loose ctx (pure (a, ctx)) :=
  pure_within _ fun _ hr => hr

/-- A bitmap is created or the context stays as it is. -/
theorem valTpmNotificationCreateBitmap_within : Program.Spec (holding h) (Within (ctx.Allows build loose))
    (valTpmNotificationCreateBitmap build ctx) fun r x =>
      (r.1 ≠ .success → r.2 = ctx) ∧ Within (r.2.Allows build loose) x := by
  refine .ite (fun _ => .pure _ fun _ hx => ⟨fun _ => rfl, hx⟩) fun hbitmap =>
    (issue_within _).bind fun payload => .ite ?_ ?_
  · intro herror
    have hnone (args : Args) : acquired (.ffa .notificationBitmapCreate args) payload = none := if_pos herror
    exact .ite (fun _ => .pure _ fun _ hx => ⟨fun _ => rfl, hx.refused (hnone _)⟩) fun _ =>
      .pure _ fun _ hx => ⟨fun _ => rfl, hx.refused (hnone _)⟩
  · intro hok
    have hsome (args : Args) : acquired (.ffa .notificationBitmapCreate args) payload =
        some (.bitmap args.arg1) := if_neg hok
    refine .pure _ fun x hx => ⟨fun hfailed => absurd rfl hfailed, hx.mono fun r hr => ?_⟩
    rw [hsome, Option.some_inj] at hr
    rcases hr with rfl | ⟨hr, -⟩
    · exact .inl ⟨by simpa using hbitmap, rfl, rfl⟩
    · refine hr.imp_left fun hr => ?_
      cases r with
      | bitmap clientId => exact ⟨hr.1, rfl, hr.2.2⟩
      | _ => exact hr

/-- The binding is covered by its flag. -/
theorem valTpmNotificationBind_covers : Covers h build loose ctx (valTpmNotificationBind ctx) := by
  refine (issue_within _).bind fun payload => .ite ?_ ?_
  · intro herror
    have hnone : acquired (.ffa .notificationBind ctx.bindArgs) payload = none := if_pos herror
    exact .ite (fun _ => .pure _ fun _ hx => hx.refused hnone) fun _ => .pure _ fun _ hx => hx.refused hnone
  · intro hok
    have hsome : acquired (.ffa .notificationBind ctx.bindArgs) payload = some (.binding ctx.bindArgs) :=
      if_neg hok
    refine pure_within _ fun r hr => ?_
    rw [hsome, Option.some_inj] at hr
    rcases hr with rfl | ⟨hr, -⟩
    · exact .inl ⟨rfl, rfl⟩
    · refine hr.imp_left fun hr => ?_
      cases r with
      | binding args => exact ⟨rfl, hr.2⟩
      | _ => exact hr

/-- The interrupt is set up in a context that has none. -/
theorem valTpmNotificationSetupInterrupt_covers (hfree : ctx.sriRegistered = false ∧ ctx.sriEnabled = false) :
    Covers h build loose ctx (valTpmNotificationSetupInterrupt build ctx) := by
  have hsame (n : ℕ) (r : Resource) (hr : ctx.Allows build loose r) :
      Context.Allows build loose { ctx with sriId := n } r := by
    refine hr.imp_left fun hr => ?_
    cases r with
    | handler => exact absurd hr.2.1 (by rw [hfree.1]; decide)
    | interrupt => exact absurd hr.2.1 (by rw [hfree.2]; decide)
    | _ => exact hr
  refine .ite (fun _ => covers_pure _) fun hsri =>
    (issue_neutral (c := .ffa .features _) (.inr rfl)).bind fun payload => ?_
  refine .ite (fun _ => covers_pure _) fun _ => (issue_within _).bind fun answer => .ite ?_ ?_
  · intro hrefused
    have hnone (n : ℕ) : acquired (.irqRegister n) answer = none := if_neg (by simpa using hrefused)
    refine pure_within _ fun r hr => ?_
    rw [hnone] at hr
    exact hr.elim (fun heq => nomatch heq) fun hr => hsame _ r hr.1
  · intro haccepted
    have hsome (n : ℕ) : acquired (.irqRegister n) answer = some (.handler n) :=
      if_pos (by simpa using haccepted)
    refine (issue_neutral (c := .sriClear) trivial).bind fun _ => pure_within _ fun r hr => ?_
    rw [hsome, Option.some_inj] at hr
    rcases hr with rfl | ⟨hr, -⟩
    · exact .inl ⟨by simpa using hsri, rfl, rfl⟩
    · refine (hsame (wrap32 payload.arg2) r hr).imp_left fun hr => ?_
      cases r with
      | handler n => exact ⟨hr.1, rfl, hr.2.2⟩
      | _ => exact hr

/-- The interrupt that is enabled is covered by its flag. -/
theorem valTpmNotificationPrepareInterrupt_covers :
    Covers h build loose ctx (valTpmNotificationPrepareInterrupt build ctx) := by
  refine .ite (fun _ => covers_pure _) fun hsri => .ite (fun _ => covers_pure _) fun _ =>
    (issue_neutral (c := .sriClear) trivial).bind fun _ => (issue_within _).bind fun _ => ?_
  refine pure_within _ fun r hr => ?_
  rcases hr with heq | ⟨hr, -⟩
  · obtain rfl := Option.some.inj heq
    exact .inl ⟨by simpa using hsri, rfl, rfl⟩
  · refine hr.imp_left fun hr => ?_
    cases r with
    | interrupt n => exact ⟨hr.1, rfl, hr.2.2⟩
    | _ => exact hr

/-- The interrupt that is disabled is the one of the context. -/
theorem disableSri_covers : Program.Spec (holding h) (Within (ctx.Allows build loose)) (disableSri ctx)
    fun ctx' => Within (ctx'.Allows build loose) := by
  refine (issue_within _).bind fun _ => pure_within _ fun r hr => ?_
  rcases hr with heq | ⟨hr, hkept⟩
  · exact nomatch heq
  · refine hr.imp_left fun hr => ?_
    cases r with
    | interrupt n => exact absurd (congrArg (some ∘ Resource.interrupt) hr.2.2.symm) hkept
    | _ => exact hr

/-- The interrupt is disabled with its flag. -/
theorem valTpmNotificationCompleteInterrupt_covers :
    Covers h build loose ctx (valTpmNotificationCompleteInterrupt build ctx) := by
  have hdisable {status : ValStatus} : Covers h build loose ctx (do
      let ctx ← disableSri ctx
      return (status, ctx)) :=
    disableSri_covers.bind fun _ => pure_within _ fun _ hr => hr
  refine .ite (fun _ => covers_pure _) fun _ => .ite (fun _ => covers_pure _) fun _ => ?_
  refine (issue_neutral (c := .sriSeen) trivial).bind fun _ => .ite (fun _ => ?_) fun _ => hdisable
  exact .ite (fun _ => hdisable) fun _ => covers_pure _

/-- The answer to a registration that was not expected to succeed may leave one behind. -/
theorem register_within {senderId tpmSpId arg0 arg1 arg2 expectedStatus : ℕ} :
    Program.Spec (holding h) (Within W)
      (valTpmSendAndExpect senderId tpmSpId crbRegisterNotification arg0 arg1 arg2 expectedStatus)
      fun status =>
      Within fun r => W r ∨ r = .registration (senderId <<< 16 ||| tpmSpId) ∧
        (expectedStatus = CrbStatus.ok.code → status = .success) := by
  refine (issue_within _).bind fun payload => .ite ?_ fun hresp => .ite ?_ ?_
  · intro hresp
    refine pure_within _ fun r hr => .inl (hr.elim (fun heq => ?_) And.left)
    exact absurd (acquired_direct heq).1.2.1 hresp
  · intro hother
    refine pure_within _ fun r hr => hr.symm.imp And.left fun heq => ?_
    obtain ⟨⟨-, -, hok⟩, rfl⟩ := acquired_direct heq
    exact ⟨rfl, fun hexpected => absurd (hok.trans hexpected.symm) hother⟩
  · intro _
    refine pure_within _ fun r hr => hr.symm.imp And.left fun heq => ?_
    exact ⟨(acquired_direct heq).2, fun _ => rfl⟩

/-- A registration is covered if it is expected to succeed, if there is one already, or if we are loose. -/
theorem valTpmNotificationRegister_within {notificationType vcpuId notificationId expectedStatus : ℕ}
    (hexpected : expectedStatus = CrbStatus.ok.code ∨ ctx.registered = true ∨ loose = true) :
    Program.Spec (holding h) (Within (ctx.Allows build loose))
      (valTpmNotificationRegister ctx notificationType vcpuId notificationId expectedStatus) fun r x =>
        (r.1 = .success → expectedStatus = CrbStatus.ok.code → r.2.registered = true) ∧
          Within (r.2.Allows build loose) x := by
  refine .ite (fun _ => .pure _ fun _ hx => ⟨nofun, hx⟩) fun _ =>
    register_within.bind fun status => .ite ?_ ?_
  · intro _
    refine .pure _ fun x hx => ⟨fun _ _ => rfl, hx.mono fun r hr => ?_⟩
    rcases hr with hr | ⟨rfl, -⟩
    · refine hr.imp_left fun hr => ?_
      cases r with
      | registration parties => exact ⟨rfl, hr.2⟩
      | _ => exact hr
    · exact .inl ⟨rfl, rfl⟩
  · intro hflag
    refine .pure _ fun x hx => ⟨fun hs hok => absurd ⟨hs, hok⟩ hflag, hx.mono fun r hr => ?_⟩
    rcases hr with hr | ⟨rfl, hsuccess⟩
    · exact hr
    · rcases hexpected with hok | hregistered | hloose
      · exact absurd ⟨hsuccess hok, hok⟩ hflag
      · exact .inl ⟨hregistered, rfl⟩
      · exact .inr ⟨hloose, _, rfl⟩

/-- A registration that succeeds is covered by its flag. -/
theorem registerNotification_within : Program.Spec (holding h) (Within (ctx.Allows build loose))
    (registerNotification ctx) fun r x =>
      (r.1 = .success → r.2.registered = true) ∧ Within (r.2.Allows build loose) x :=
  (valTpmNotificationRegister_within (.inl rfl)).mono (fun _ hx => hx) fun _ _ hx =>
    ⟨fun hs => hx.1 hs rfl, hx.2⟩

/-- A registration is covered by its flag. -/
theorem registerNotification_covers : Covers h build loose ctx (registerNotification ctx) :=
  registerNotification_within.mono (fun _ hx => hx) fun _ _ hx => hx.2

/-! ## Releases -/

/-- A command that releases a resource. -/
theorem releasing_within {c : Command} {own : Resource} (hreleased : asksRelease c = some own)
    (hacquired : ∀ answer, acquired c answer = none) :
    Program.Spec (holding h) (Within W) (issue c) fun _ => Within fun r => W r ∧ r ≠ own := by
  refine (issue_within c).mono (fun _ hx => hx) fun answer x hx => hx.mono fun r hr => ?_
  rw [hacquired, hreleased] at hr
  exact hr.elim (fun heq => nomatch heq) fun hr => ⟨hr.1, fun heq => hr.2 (congrArg some heq.symm)⟩

/-- The end of a registration is asked for. -/
theorem unregister_within {senderId tpmSpId expectedStatus : ℕ} : Program.Spec (holding h) (Within W)
    (valTpmSendAndExpect senderId tpmSpId crbUnregisterNotification 0 0 0 expectedStatus) fun _ =>
    Within fun r => W r ∧ r ≠ .registration (senderId <<< 16 ||| tpmSpId) := by
  refine (releasing_within rfl fun _ => rfl).bind fun _ => ?_
  refine .ite (fun _ => pure_within _ fun _ hr => hr) fun _ => ?_
  exact .ite (fun _ => pure_within _ fun _ hr => hr) fun _ => pure_within _ fun _ hr => hr

/-- What is left of `W` once the context has released its own, if it had a flag for it. -/
def Without (W : Resource → Prop) (flag : Bool) (own r : Resource) : Prop := W r ∧ (flag = true → r ≠ own)

/-- The registration of the context is asked to end, and only its flag changes. -/
theorem valTpmNotificationUnregister_within {expectedStatus : ℕ} : Program.Spec (holding h) (Within W)
    (valTpmNotificationUnregister ctx expectedStatus) fun r x => (∃ b, r.2 = { ctx with registered := b }) ∧
      Within (fun r => W r ∧ r ≠ .registration (ctx.clientId <<< 16 ||| ctx.tpmSpId)) x :=
  unregister_within.bind fun _ => .ite (fun _ => .pure _ fun _ hx => ⟨⟨_, rfl⟩, hx⟩) fun _ =>
    .pure _ fun _ hx => ⟨⟨_, rfl⟩, hx⟩

/-- What is left after the end of a registration is covered. -/
theorem valTpmNotificationUnregister_covers {expectedStatus : ℕ} :
    Covers h build loose ctx (valTpmNotificationUnregister ctx expectedStatus) := by
  refine valTpmNotificationUnregister_within.mono (fun _ hx => hx) fun r x hx => ?_
  obtain ⟨⟨b, heq⟩, hx⟩ := hx
  refine hx.mono fun r hr => ?_
  rw [heq]
  refine hr.1.imp_left fun howns => ?_
  cases r with
  | registration parties => exact absurd (congrArg Resource.registration howns.2) hr.2
  | _ => exact howns

section

variable (W)

/-- The interrupt of the context is disabled. -/
theorem disableIfEnabled_releases : Program.Spec (holding h) (Within W) (disableIfEnabled build ctx)
    fun ctx' x => (∃ b, ctx' = { ctx with sriEnabled := b }) ∧
      Within (Without W (build.hasSri && ctx.sriEnabled) (.interrupt ctx.sriId)) x := by
  refine .ite (fun hflag => ?_) fun hflag => ?_
  · exact (releasing_within rfl fun _ => rfl).bind fun _ =>
      .pure _ fun _ hx => ⟨⟨_, rfl⟩, hx.mono fun r hr => ⟨hr.1, fun _ => hr.2⟩⟩
  · refine .pure _ fun _ hx => ⟨⟨_, rfl⟩, hx.mono fun r hr => ⟨hr, fun hset => absurd ?_ hflag⟩⟩
    simpa using hset

/-- The registration of the context is asked to end. -/
theorem unregisterIfRegistered_releases : Program.Spec (holding h) (Within W) (unregisterIfRegistered ctx)
    fun r x => (∃ b, r.2 = { ctx with registered := b }) ∧
      Within (Without W ctx.registered (.registration (ctx.clientId <<< 16 ||| ctx.tpmSpId))) x := by
  refine .ite (fun hflag => ?_) fun hflag => ?_
  · exact valTpmNotificationUnregister_within.mono (fun _ hx => hx) fun r x hx =>
      ⟨hx.1, hx.2.mono fun r hr => ⟨hr.1, fun _ => hr.2⟩⟩
  · exact .pure _ fun _ hx => ⟨⟨_, rfl⟩, hx.mono fun r hr => ⟨hr, fun hset => absurd hset hflag⟩⟩

/-- The binding of the context is asked to end. -/
theorem unbindIfBound_releases : Program.Spec (holding h) (Within W) (unbindIfBound ctx)
    fun r x => (∃ b, r.2 = { ctx with bound := b }) ∧
      Within (Without W ctx.bound (.binding ctx.bindArgs)) x := by
  refine .ite (fun hflag => ?_) fun hflag => ?_
  · exact (releasing_within rfl fun _ => rfl).bind fun _ => .ite
      (fun _ => .pure _ fun _ hx => ⟨⟨_, rfl⟩, hx.mono fun r hr => ⟨hr.1, fun _ => hr.2⟩⟩) fun _ =>
      .pure _ fun _ hx => ⟨⟨_, rfl⟩, hx.mono fun r hr => ⟨hr.1, fun _ => hr.2⟩⟩
  · exact .pure _ fun _ hx => ⟨⟨_, rfl⟩, hx.mono fun r hr => ⟨hr, fun hset => absurd hset hflag⟩⟩

/-- The bitmap of the context is asked to be destroyed. -/
theorem destroyIfCreated_releases : Program.Spec (holding h) (Within W) (destroyIfCreated build ctx)
    fun r x => (∃ b, r.2 = { ctx with bitmapCreated := b }) ∧
      Within (Without W (build.hasBitmap && ctx.bitmapCreated) (.bitmap ctx.clientId)) x := by
  refine .ite (fun hflag => ?_) fun hflag => ?_
  · refine Program.Spec.bind (Q := fun _ => Within fun r => W r ∧ r ≠ .bitmap ctx.clientId) ?_ fun _ =>
      .pure _ fun _ hx => ⟨⟨_, rfl⟩, hx.mono fun r hr => ⟨hr.1, fun _ => hr.2⟩⟩
    exact (releasing_within rfl fun _ => rfl).bind fun _ => .ite (fun _ => .pure _ fun _ hx => hx) fun _ =>
      .pure _ fun _ hx => hx
  · refine .pure _ fun _ hx => ⟨⟨_, rfl⟩, hx.mono fun r hr => ⟨hr, fun hset => absurd ?_ hflag⟩⟩
    simpa using hset

/-- The handler of the context is asked to be unregistered. -/
theorem unregisterHandlerIfRegistered_releases : Program.Spec (holding h) (Within W)
    (unregisterHandlerIfRegistered build ctx) fun _ =>
      Within (Without W (build.hasSri && ctx.sriRegistered) (.handler ctx.sriId)) := by
  refine .ite (fun hflag => ?_) fun hflag => ?_
  · exact (releasing_within rfl fun _ => rfl).bind fun _ =>
      .pure _ fun _ hx => hx.mono fun r hr => ⟨hr.1, fun _ => hr.2⟩
  · refine .pure _ fun _ hx => hx.mono fun r hr => ⟨hr, fun hset => absurd ?_ hflag⟩
    simpa using hset

end

/-- After the cleanup nothing is held, but for a registration if we are loose. -/
theorem valTpmNotificationCleanup_releases : Program.Spec (holding h) (Within (ctx.Allows build loose))
    (valTpmNotificationCleanup build ctx) fun _ =>
      Within fun r => loose = true ∧ ∃ parties, r = .registration parties := by
  refine (disableIfEnabled_releases _).bind fun ctx₁ => .assume ?_
  rintro ⟨b₁, rfl⟩
  refine (unregisterIfRegistered_releases _).bind fun ⟨status₂, ctx₂⟩ => .assume ?_
  rintro ⟨b₂, rfl⟩
  refine (unbindIfBound_releases _).bind fun ⟨status₃, ctx₃⟩ => .assume ?_
  rintro ⟨b₃, rfl⟩
  refine (destroyIfCreated_releases _).bind fun ⟨status₄, ctx₄⟩ => .assume ?_
  rintro ⟨b₄, rfl⟩
  refine (unregisterHandlerIfRegistered_releases _).bind fun ⟨status₅, ctx₅⟩ => pure_within _ fun r hr => ?_
  obtain ⟨⟨⟨⟨⟨hallows, hinterrupt⟩, hregistration⟩, hbinding⟩, hbitmap⟩, hhandler⟩ := hr
  refine hallows.resolve_left fun howns => ?_
  cases r with
  | bitmap clientId => exact hbitmap (by simp [howns.1, howns.2.1]) (congrArg Resource.bitmap howns.2.2)
  | binding args => exact hbinding howns.1 (congrArg Resource.binding howns.2)
  | registration parties => exact hregistration howns.1 (congrArg Resource.registration howns.2)
  | handler n => exact hhandler (by simp [howns.1, howns.2.1]) (congrArg Resource.handler howns.2.2)
  | interrupt n => exact hinterrupt (by simp [howns.1, howns.2.1]) (congrArg Resource.interrupt howns.2.2)

/-! ## Notification tests -/

/-- What may be left behind. -/
def Settled (loose : Bool) (r : Resource) : Prop := loose = true ∧ ∃ parties, r = .registration parties

/-- No flag of the context is set. -/
structure Context.Fresh (ctx : Context) : Prop where
  bitmapCreated : ctx.bitmapCreated = false
  bound : ctx.bound = false
  registered : ctx.registered = false
  sriRegistered : ctx.sriRegistered = false
  sriEnabled : ctx.sriEnabled = false

/-- A fresh context covers nothing. -/
theorem Context.Fresh.allows_iff (hfresh : ctx.Fresh) (r : Resource) :
    ctx.Allows build loose r ↔ Settled loose r := by
  refine or_iff_right fun howns => ?_
  cases r <;> simp [Context.Owns, hfresh.bitmapCreated, hfresh.bound, hfresh.registered,
    hfresh.sriRegistered, hfresh.sriEnabled] at howns

/-- A test starts with a fresh context. -/
theorem valTpmNotificationInit_fresh (build : Build) : Program.Spec (holding h) (Within (Settled loose))
    valTpmNotificationInit fun r x => r.2.Fresh ∧ Within (r.2.Allows build loose) x := by
  refine (neutral_within (valTpmGetEndpointIds_plain.mono fun _ hc => hc.1)).bind
    fun (_, clientId, tpmSpId) =>
    .pure _ fun x hx => ?_
  have hfresh : Context.Fresh
      ⟨clientId, tpmSpId, valTpmNotificationBitmap, false, false, false, 0, false, false⟩ :=
    ⟨rfl, rfl, rfl, rfl, rfl⟩
  exact ⟨hfresh, hx.mono fun r hr => (hfresh.allows_iff r).mpr hr⟩

/-- A set-up ends in a context that covers what is held, or with nothing held. -/
def SetsUp (h : Handler outside S) (build : Build) (loose : Bool) (ctx : Context)
    (p : Client (Verdict × Context)) : Prop :=
  Program.Spec (holding h) (Within (ctx.Allows build loose)) p fun r x =>
    Within (if r.1 = .success then r.2.Allows build loose else Settled loose) x

/-- The set-up is complete. -/
theorem setsUp_done : SetsUp h build loose ctx (pure (.success, ctx)) := fun _ hx => hx

/-- The set-up stops. -/
theorem setsUp_stop {verdict : Verdict} (hverdict : verdict ≠ .success) {ctx' : Context} :
    Program.Spec (holding h) (Within (Settled loose)) (pure (verdict, ctx')) fun r x =>
      Within (if r.1 = .success then r.2.Allows build loose else Settled loose) x := by
  refine .pure _ fun x hx => ?_
  rwa [if_neg hverdict]

/-- The set-up of a test without an interrupt. -/
theorem setUp_setsUp (hfresh : ctx.Fresh) : SetsUp h build loose ctx (setUp build ctx) := by
  -- Stopping before the bitmap has been created needs no cleanup.
  have hstop {verdict : Verdict} (hverdict : verdict ≠ .success) :
      SetsUp h build loose ctx (pure (verdict, ctx)) :=
    (setsUp_stop hverdict).mono (fun _ hx => hx.mono fun r hr => (hfresh.allows_iff r).mp hr) fun _ _ hx => hx
  have hundo {ctx' : Context} {verdict : Verdict} (hverdict : verdict ≠ .success) :
      SetsUp h build loose ctx' (valTpmNotificationCleanup build ctx' >>= fun r => pure (verdict, r.2)) :=
    valTpmNotificationCleanup_releases.bind fun _ => setsUp_stop hverdict
  refine (neutral_within (valTpmNotificationFeatureSupported_plain.mono fun _ hc => hc.1)).bind fun status =>
    .ite (fun _ => hstop nofun) fun _ => .ite (fun _ => hstop nofun) fun _ => ?_
  refine valTpmNotificationCreateBitmap_within.bind fun (status, ctx₁) => .assume fun hctx => ?_
  dsimp only at hctx ⊢
  split_ifs with hskip hfailed
  · obtain rfl := hctx (by rw [hskip]; nofun)
    exact hstop nofun
  · obtain rfl := hctx hfailed
    exact hstop nofun
  · exact valTpmNotificationBind_covers.bind fun (_, _) => .ite (fun _ => hundo nofun) fun _ =>
      .ite (fun _ => hundo nofun) fun _ => setsUp_done

/-- A test that starts and ends with nothing held. -/
def Settles (h : Handler outside S) (loose : Bool) (p : Client α) : Prop :=
  Program.Spec (holding h) (Within (Settled loose)) p fun _ => Within (Settled loose)

/-- A step of a body that leaves the context alone. -/
theorem plain_covers {p : Client α} (hp : p.Issues Plain) :
    Program.Spec (holding h) (Within (ctx.Allows build loose)) p fun _ => Within (ctx.Allows build loose) :=
  neutral_within (hp.mono fun _ hc => hc.1)

/-- FINISH_NOTIFIED leaves the context alone. -/
theorem valTpmFinishNotified_covers {expectedStatus : ℕ} :
    Program.Spec (holding h) (Within (ctx.Allows build loose))
      (valTpmFinishNotified ctx.clientId ctx.tpmSpId expectedStatus) fun _ =>
      Within (ctx.Allows build loose) :=
  neutral_within (valTpmSendAndExpect_issues
    (.command ⟨show crbFinishNotified ≠ _ by decide, show crbFinishNotified ≠ _ by decide⟩))

/-- The answer to a plain step that leaves the context alone may end the body. -/
theorem plain_check {β : Type} {p : Client α} {b : α → Prop} [DecidablePred b] {stop : α → β}
    {next : α → Client (β × Context)} (hp : p.Issues Plain)
    (hnext : ∀ a, Covers h build loose ctx (next a)) :
    Covers h build loose ctx (p >>= fun a => if b a then pure (stop a, ctx) else next a) :=
  (plain_covers hp).guard (fun _ _ => covers_pure _) fun a _ => hnext a

/-- The body that registers with invalid arguments, if we are loose. -/
theorem registerNotificationInvalidBody_covers :
    Covers h build true ctx (registerNotificationInvalidBody ctx) := by
  have hregister {ctx : Context} {type vcpuId id expected : ℕ} :
      Covers h build true ctx (valTpmNotificationRegister ctx type vcpuId id expected) :=
    (valTpmNotificationRegister_within (.inr (.inr rfl))).mono (fun _ hx => hx) fun _ _ hx => hx.2
  refine hregister.bind fun (_, _) => .ite (fun _ => covers_pure _) fun _ => ?_
  refine hregister.bind fun (_, _) => .ite (fun _ => covers_pure _) fun _ => ?_
  exact hregister.bind fun (_, _) => .ite (fun _ => covers_pure _) fun _ => covers_pure _

/-- The body that registers twice. -/
theorem registerNotificationDuplicateBody_covers :
    Covers h build loose ctx (registerNotificationDuplicateBody ctx) := by
  refine registerNotification_within.bind fun (status, ctx₁) => .assume fun hregistered => ?_
  refine .ite (fun _ => covers_pure _) fun hsuccess => ?_
  have hagain := hregistered (not_not.mp hsuccess)
  refine (valTpmNotificationRegister_within (.inr (.inl hagain))).bind fun (_, ctx₂) => .assume fun _ => ?_
  exact .ite (fun _ => covers_pure _) fun _ => covers_pure _

/-- The body that finishes a notification that does not exist. -/
theorem finishNotifiedNoNotificationBody_covers :
    Covers h build loose ctx (finishNotifiedNoNotificationBody ctx) := by
  refine registerNotification_covers.bind fun (_, _) => .ite (fun _ => covers_pure _) fun _ => ?_
  exact valTpmFinishNotified_covers.guard (fun _ _ => covers_pure _) fun _ _ => covers_pure _

/-- The body that looks for a notification after the end of the registration. -/
theorem notificationAfterUnregisterBody_covers :
    Covers h build loose ctx (notificationAfterUnregisterBody ctx) := by
  refine registerNotification_covers.bind fun (_, _) => .ite (fun _ => covers_pure _) fun _ => ?_
  refine valTpmNotificationUnregister_covers.bind fun (_, _) => .ite (fun _ => covers_pure _) fun _ => ?_
  refine plain_check sendLocality_plain fun _ => plain_check readGranted_plain fun _ => ?_
  refine plain_check valTpmCheckPendingNotification_plain fun _ => ?_
  exact plain_check sendLocality_plain fun _ => covers_pure _

/-- The body that is notified of a locality request. -/
theorem notificationStartLocalityBody_covers :
    Covers h build loose ctx (notificationStartLocalityBody build ctx) := by
  refine registerNotification_covers.bind fun (_, _) => .ite (fun _ => covers_pure _) fun _ => ?_
  refine valTpmNotificationPrepareInterrupt_covers.bind fun (_, _) => ?_
  refine .ite (fun _ => covers_pure _) fun _ => plain_check sendLocality_plain fun _ => ?_
  -- the notification
  refine valTpmNotificationCompleteInterrupt_covers.bind fun (_, _) => ?_
  refine .ite (fun _ => covers_pure _) fun _ => ?_
  refine plain_check valTpmCheckPendingNotification_plain fun _ => ?_
  -- the end of the request
  refine plain_check readGranted_plain fun _ => ?_
  refine valTpmFinishNotified_covers.guard (fun _ _ => covers_pure _) fun _ _ => ?_
  refine plain_check readGranted_plain fun _ => ?_
  -- the end of the test
  refine valTpmNotificationUnregister_covers.bind fun (_, _) => .ite (fun _ => covers_pure _) fun _ => ?_
  exact plain_check sendLocality_plain fun _ => plain_check readGranted_plain fun _ => covers_pure _

/-- The body that is notified of a command. -/
theorem notificationStartCommandBody_covers :
    Covers h build loose ctx (notificationStartCommandBody build ctx) := by
  refine registerNotification_covers.bind fun (_, _) => .ite (fun _ => covers_pure _) fun _ => ?_
  refine valTpmNotificationPrepareInterrupt_covers.bind fun (_, _) => ?_
  refine .ite (fun _ => covers_pure _) fun _ => (plain_covers (placeCommand_plain _ _)).bind fun _ => ?_
  refine plain_check sendStart_plain fun _ => plain_check readStarted_plain fun _ => ?_
  -- the notification
  refine valTpmNotificationCompleteInterrupt_covers.bind fun (_, _) => ?_
  refine .ite (fun _ => covers_pure _) fun _ => ?_
  refine plain_check valTpmCheckPendingNotification_plain fun _ => ?_
  -- the end of the command and its response
  refine valTpmFinishNotified_covers.guard (fun _ _ => covers_pure _) fun _ _ => ?_
  refine plain_check readStarted_plain fun _ => (plain_covers readResponse_plain).bind fun rsp => ?_
  cases rsp with
  | none => exact covers_pure _
  | some rsp =>
    refine .ite (fun _ => covers_pure _) fun _ => ?_
    refine valTpmNotificationUnregister_covers.bind fun (_, _) => ?_
    exact .ite (fun _ => covers_pure _) fun _ => covers_pure _

/-! ## Tests with an interrupt -/

/-- A way to undo a set-up. -/
def Undoes (h : Handler outside S) (build : Build) (loose : Bool) (undo : Context → Client Unit) : Prop :=
  ∀ ctx, Program.Spec (holding h) (Within (ctx.Allows build loose)) (undo ctx) fun _ => Within (Settled loose)

/-- The cleanup undoes a set-up. -/
theorem cleanUp_undoes : Undoes h build loose (cleanUp build) :=
  fun _ => valTpmNotificationCleanup_releases.bind fun _ => pure_within _ fun _ hr => hr

/-- So does the cleanup that gives back the locality first. -/
theorem relinquishAndCleanUp_undoes : Undoes h build loose (relinquishAndCleanUp build) :=
  fun ctx => (plain_covers relinquish_plain).bind fun _ => cleanUp_undoes ctx

/-- A step that has failed is not a success. -/
theorem failedStep_ne_success (status : ValStatus) (n : ℕ) : failedStep status n ≠ .success := by
  unfold failedStep
  split_ifs <;> nofun

/-- The set-up of a test with an interrupt. -/
theorem interruptSetUp_setsUp {undo : Context → Client Unit} (hundo : Undoes h build loose undo) {n : ℕ}
    (hfresh : ctx.Fresh) : SetsUp h build loose ctx (interruptSetUp build undo n ctx) := by
  have hfailed {ctx : Context} {status : ValStatus} {k : ℕ} : SetsUp h build loose ctx (do
      undo ctx
      return (failedStep status k, ctx)) :=
    (hundo ctx).bind fun _ => setsUp_stop (failedStep_ne_success _ _)
  refine (valTpmNotificationSetupInterrupt_covers ⟨hfresh.sriRegistered, hfresh.sriEnabled⟩).bind
    fun (_, _) => .ite (fun _ => hfailed) fun _ => ?_
  refine valTpmNotificationCreateBitmap_within.bind fun (_, _) => .assume fun _ =>
    .ite (fun _ => hfailed) fun _ => ?_
  exact valTpmNotificationBind_covers.bind fun (_, _) => .ite (fun _ => hfailed) fun _ => setsUp_done

/-- A plain end of a test. -/
theorem plain_settles {p : Client α} (hp : p.Issues Plain) : Settles h loose p :=
  neutral_within (hp.mono fun _ hc => hc.1)

/-- A test goes on with a context that it has initialised. -/
theorem settles_of_fresh {status : ValStatus} {stop : Verdict} {p : Client Verdict}
    (hp : ctx.Fresh → Program.Spec (holding h) (Within (ctx.Allows build loose)) p fun _ =>
      Within (Settled loose)) :
    Program.Spec (holding h) (fun x => ctx.Fresh ∧ Within (ctx.Allows build loose) x)
      (if status ≠ .success then pure stop else p) fun _ => Within (Settled loose) :=
  .assume fun hfresh =>
    .ite (fun _ => pure_within _ fun r hr => (hfresh.allows_iff r).mp hr) fun _ => hp hfresh

/-- A test goes on after its set-up, or stops where the set-up has stopped. -/
theorem settles_of_setUp {verdict : Verdict} {p : Client Verdict}
    (hp : Program.Spec (holding h) (Within (ctx.Allows build loose)) p fun _ => Within (Settled loose)) :
    Program.Spec (holding h) (Within (if verdict = .success then ctx.Allows build loose else Settled loose))
      (if verdict ≠ .success then pure verdict else p) fun _ => Within (Settled loose) := by
  refine .ite (fun hstop => ?_) fun hverdict => ?_
  · rw [if_neg hstop]
    exact pure_within _ fun _ hr => hr
  · rwa [if_pos (not_not.mp hverdict)]

/-- A test undoes its set-up and stops. -/
theorem Undoes.stops {undo : Context → Client Unit} (hundo : Undoes h build loose undo) {verdict : Verdict} :
    Program.Spec (holding h) (Within (ctx.Allows build loose)) (undo ctx >>= fun _ => pure verdict) fun _ =>
      Within (Settled loose) :=
  (hundo ctx).bind fun _ => pure_within _ fun _ hr => hr

/-- A test of a body that keeps its context covers what it holds. -/
theorem notificationTest_settles {body : Context → Client (Verdict × Context)} {n : ℕ}
    (hbody : ∀ ctx, Covers h build loose ctx (body ctx)) :
    Settles h loose (notificationTest build body n) := by
  refine (valTpmNotificationInit_fresh build).bind fun (_, _) => settles_of_fresh fun hfresh => ?_
  refine (setUp_setsUp hfresh).bind fun (_, ctx) => settles_of_setUp ?_
  refine (hbody ctx).bind fun (_, _) => ?_
  exact valTpmNotificationCleanup_releases.bind fun (_, _) => pure_within _ fun _ hr => hr

/-- The test that looks for a notification after the end of the registration. -/
theorem notificationAfterUnregisterClient_settles :
    Settles h loose (notificationAfterUnregisterClient build) := by
  refine (plain_settles (write_plain _)).bind fun _ => ?_
  refine (valTpmNotificationInit_fresh build).bind fun (_, _) => settles_of_fresh fun hfresh => ?_
  refine (setUp_setsUp hfresh).bind fun (_, _) => settles_of_setUp ?_
  refine notificationAfterUnregisterBody_covers.bind fun (_, _) => ?_
  refine valTpmNotificationCleanup_releases.bind fun (_, _) => plain_settles ?_
  exact .guard readGranted_plain (fun _ => .check sendLocality_plain fun _ => .pure _) fun _ => .pure _

/-- The test that is notified of a locality request. -/
theorem notificationStartLocalityClient_settles :
    Settles h loose (notificationStartLocalityClient build) := by
  refine (plain_settles (write_plain _)).bind fun _ => ?_
  refine (valTpmNotificationInit_fresh build).bind fun (_, _) => settles_of_fresh fun hfresh => ?_
  refine (plain_covers valTpmNotificationFeatureSupported_plain).guard (fun _ _ => cleanUp_undoes.stops)
    fun _ _ => ?_
  refine (interruptSetUp_setsUp cleanUp_undoes hfresh).bind fun (_, _) => settles_of_setUp ?_
  refine notificationStartLocalityBody_covers.bind fun (_, _) => ?_
  refine valTpmNotificationCleanup_releases.bind fun (_, _) => plain_settles (.bind ?_ fun _ => .pure _)
  -- the locality is given back
  refine .guard readGranted_plain (fun _ => ?_) fun _ => .pure _
  exact .check sendLocality_plain fun _ => .check readGranted_plain fun _ => .pure _

/-- The test that is notified of a command. -/
theorem notificationStartCommandClient_settles : Settles h loose (notificationStartCommandClient build) := by
  refine (valTpmNotificationInit_fresh build).bind fun (_, _) => settles_of_fresh fun hfresh => ?_
  refine (plain_covers valTpmNotificationFeatureSupported_plain).guard (fun _ _ => cleanUp_undoes.stops)
    fun _ _ => ?_
  refine (plain_covers sendLocality_plain).guard (fun _ _ => cleanUp_undoes.stops) fun _ _ => ?_
  refine (plain_covers readGranted_plain).guard (fun _ _ => relinquishAndCleanUp_undoes.stops) fun _ _ => ?_
  refine (interruptSetUp_setsUp relinquishAndCleanUp_undoes hfresh).bind fun (_, _) => settles_of_setUp ?_
  refine notificationStartCommandBody_covers.bind fun (_, _) => ?_
  refine valTpmNotificationCleanup_releases.bind fun (_, _) => plain_settles (.bind ?_ fun _ => .pure _)
  -- CTRL_START is cleared, and the locality is given back
  refine .guard readStarted_plain (fun _ => .bind (write_plain _) fun _ => ?_) fun _ => ?_
  · exact .check relinquish_plain fun _ => .check readGranted_plain fun _ => .pure _
  · exact .check relinquish_plain fun _ => .check readGranted_plain fun _ => .pure _

/-- The test that ends a registration that does not exist. -/
theorem unregisterNotificationDeniedClient_settles : Settles h loose unregisterNotificationDeniedClient := by
  have hstop {verdict : Verdict} : Settles h loose (pure verdict) := .pure _ fun _ hx => hx
  refine (plain_settles valTpmNotificationInit_plain).bind fun (_, ctx) => ?_
  refine .ite (fun _ => hstop) fun _ => ?_
  refine (plain_settles valTpmNotificationFeatureSupported_plain).bind fun _ => ?_
  refine .ite (fun _ => hstop) fun _ => .ite (fun _ => hstop) fun _ => ?_
  refine valTpmNotificationUnregister_within.bind fun (_, _) => .assume fun _ => ?_
  exact .ite (fun _ => pure_within _ fun _ hr => hr.1) fun _ => pure_within _ fun _ hr => hr.1

/-- Every test leaves nothing behind, but for the registration of the one with invalid arguments. -/
theorem TpmTest.client_settles (test : TpmTest)
    (hloose : test = .registerNotificationInvalid → loose = true) :
    Settles h loose (test.client build) := by
  cases test with
  | getInterfaceVersion => exact plain_settles getInterfaceVersionClient_plain
  | getFeatureInfo => exact plain_settles getFeatureInfoClient_plain
  | getFeatureInfoInvalid => exact plain_settles getFeatureInfoInvalidClient_plain
  | unknownFunctionId => exact plain_settles tpmCrbUnknownFunctionIdClient_plain
  | startLocalityFlow => exact plain_settles startLocalityFlowClient_plain
  | startLocalityCtrlData => exact plain_settles startLocalityCtrlDataClient_plain
  | startLocalityInvalidArgs => exact plain_settles startLocalityInvalidArgsClient_plain
  | startLocalityRelinquishInactive => exact plain_settles startLocalityRelinquishInactiveClient_plain
  | startCommand => exact plain_settles startCommandClient_plain
  | startCommandInvalidBuffer => exact plain_settles startCommandInvalidBufferClient_plain
  | startCommandInvalidLocality => exact plain_settles startCommandInvalidLocalityClient_plain
  | startCommandNoExecute => exact plain_settles startCommandNoExecuteClient_plain
  | registerNotificationInvalid =>
    obtain rfl := hloose rfl
    exact notificationTest_settles fun _ => registerNotificationInvalidBody_covers
  | registerNotificationDuplicate =>
    exact notificationTest_settles fun _ => registerNotificationDuplicateBody_covers
  | finishNotifiedNoNotification =>
    exact notificationTest_settles fun _ => finishNotifiedNoNotificationBody_covers
  | unregisterNotificationDenied => exact unregisterNotificationDeniedClient_settles
  | notificationAfterUnregister => exact notificationAfterUnregisterClient_settles
  | notificationStartLocality => exact notificationStartLocalityClient_settles
  | notificationStartCommand => exact notificationStartCommandClient_settles

/-- One test after the other. -/
theorem suite_settles (h : Handler outside S) (build : Build) (tests : List TpmTest)
    (hloose : .registerNotificationInvalid ∈ tests → loose = true) :
    Settles h loose (suite build tests) := by
  induction tests with
  | nil => exact .pure _ fun _ hx => hx
  | cons test rest ih =>
    have htest : Settles h loose (test.client build) :=
      test.client_settles fun heq => hloose (heq ▸ List.mem_cons_self)
    exact htest.bind fun _ => (ih fun hmem => hloose (List.mem_cons_of_mem _ hmem)).bind fun _ =>
      .pure _ fun _ hx => hx

/-- Where every release is granted, no release of what is held was refused. -/
theorem granted_keeps (hgranted : ∀ c s, asksRelease c ≠ none → releaseGranted c (h c s).1 = true)
    (p : Client α) : Program.Spec (holding h) (fun x => ∀ e ∈ x.2, e.refused = false) p fun _ x =>
      ∀ e ∈ x.2, e.refused = false := by
  refine (Program.Issues.any p).keeps fun c x _ hx e he => ?_
  rcases mem_hold he with ⟨-, hnew⟩ | ⟨hheld, -⟩ | ⟨-, hrefused, hasked⟩
  · exact hnew
  · exact hx e hheld
  · have hno := hgranted c x.1 (by rw [hasked]; exact Option.some_ne_none _)
    exact absurd (hno.symm.trans hrefused) Bool.noConfusion

/-- Whatever runs the tests, and whatever it answers: all that the client still holds after any tests in
any order, it has asked to be released and was refused. The exception is a registration that was granted
to the test with invalid arguments. Where every release is granted, tests without that one leave nothing
behind. -/
theorem suite_releases_all (h : Handler outside S) (build : Build) (tests : List TpmTest) (s : S) :
    let held := ((suite build tests).run (holding h) (s, [])).2.2
    (∀ e ∈ held, e.refused = true ∨ ∃ parties, e.resource = .registration parties) ∧
      (.registerNotificationInvalid ∉ tests → (∀ e ∈ held, e.refused = true) ∧
        ((∀ c s, asksRelease c ≠ none → releaseGranted c (h c s).1 = true) → held = [])) := by
  have hsettles (loose : Bool) (hloose : .registerNotificationInvalid ∈ tests → loose = true) :=
    suite_settles h build tests hloose (s, []) fun r hr => nomatch hr
  have hrefused (hvalid : .registerNotificationInvalid ∉ tests) :
      ∀ e ∈ ((suite build tests).run (holding h) (s, [])).2.2, e.refused = true := by
    intro e he
    by_contra hkept
    have hloose := hsettles false (fun hmem => absurd hmem hvalid) e he (Bool.eq_false_iff.mpr hkept)
    exact Bool.false_ne_true hloose.1
  refine ⟨fun e he => or_iff_not_imp_left.mpr fun hkept => ?_, fun hvalid =>
    ⟨hrefused hvalid, fun hgranted => ?_⟩⟩
  · exact (hsettles true (fun _ => rfl) e he (Bool.eq_false_iff.mpr hkept)).2
  · refine List.eq_nil_iff_forall_not_mem.mpr fun e he => Bool.false_ne_true ?_
    have hkept := granted_keeps hgranted (suite build tests) (s, []) (fun e he => nomatch he) e he
    exact hkept.symm.trans (hrefused hvalid e he)

end

/-- A machine that grants every request. -/
def granting : Handler outside Unit
  | .ids, _ => (some (1, 2), ())
  | .direct _, _ => ({ Args.zero with fid := ffaMsgSendDirectResp64, arg4 := CrbStatus.ok.code }, ())
  | .write _, _ | .irqEnable _ _, _ | .irqDisable _, _ | .sriClear, _ => ((), ())
  | .locSts _, _ | .ctrlStart _, _ => ((0 : ℕ), ())
  | .data _ _, _ => ((0 : UInt8), ())
  | .ffa _ _, _ => (Args.zero, ())
  | .irqRegister _, _ | .irqUnregister _, _ | .sriSeen, _ => (true, ())

-- The exception is real: the registration with an invalid VCPU is granted, and the client does not ask for
-- its release.
example : ((suite ⟨false, false⟩ [.registerNotificationInvalid]).run (holding granting) ((), [])).2.2 =
    [⟨.registration 0x10002, false⟩] := by decide

end FfaAcs.Tpm
