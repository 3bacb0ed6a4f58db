import FfaAcs.Tpm.Registers
import FfaAcs.Tpm.Tests

/-!
# What the TPM tests rely on

The TPM tests run against the service of this repository. What is around the two of them, the relayer, the
interrupt controller and the platform's TPM, is not part of it. So what the tests rely on is stated as
hypotheses: which calls of the client succeed and when, that requests are delivered, and that a
notification arrives. Nothing is asked of these surroundings in any other situation.

Under these hypotheses each function of the client library has one rule here. It says what the function
returns and how it changes the phase of the notifications, the active locality and what is held for the
client.
-/

namespace FfaAcs.Tpm

open Machine Client

/-! ## The surroundings -/

/-- The two endpoints, the build, whether notifications are supported, and the number of the schedule
receiver interrupt. -/
structure Setup where
  clientId : ℕ
  tpmSpId : ℕ
  clientId_lt : clientId < 2 ^ 16
  tpmSpId_lt : tpmSpId < 2 ^ 16
  build : Build
  supported : Bool
  sriId : ℕ
  sriId_lt : sriId < 2 ^ 32

namespace Setup

/-- The registers of a request of the client. -/
def args (f : Setup) (functionId arg0 arg1 arg2 : ℕ) : Args :=
  { Args.zero with
    arg1 := f.clientId <<< 16 ||| f.tpmSpId
    arg4 := functionId
    arg5 := arg0
    arg6 := arg1
    arg7 := arg2 }

/-- The registers of a call for the notification of the client. -/
def bindArgs (f : Setup) : Args :=
  { Args.zero with
    arg1 := f.tpmSpId <<< 16 ||| f.clientId
    arg3 := valTpmNotificationBitmap &&& 0xffffffff
    arg4 := wrap32 (valTpmNotificationBitmap >>> 32) }

/-- The call by which the service notifies the client. -/
def notification (f : Setup) (flags : ℕ) : Event :=
  .notificationSet valTpmNotificationId (f.tpmSpId * 2 ^ 16 ||| f.clientId) flags valTpmNotificationBitmap 0
    true

end Setup

/-- What is held for the client outside of it: its bitmap, the binding, the handler of the schedule
receiver interrupt, whether this interrupt is enabled, whether its notification is pending, and whether the
handler has run since it was last asked to forget. -/
structure Held where
  bitmap : Bool
  bound : Bool
  handler : Bool
  enabled : Bool
  pending : Bool
  seen : Bool
deriving DecidableEq, Repr

/-- `h` is `e`, but the handler may have run in `h` where it has not in `e`. -/
def Held.Within (e h : Held) : Prop := ∃ seen, (e.seen = true → seen = true) ∧ h = { e with seen := seen }

/-- The client has been notified: its notification is pending, and an interrupt that is enabled has been
handled. -/
def Held.notified (e : Held) : Held :=
  { e with pending := true, seen := e.seen || (e.handler && e.enabled) }

/-- A command is answered as `A` says, and `e` is held afterwards. -/
def Surroundings.Gives {ε : Type} (around : Surroundings ε) (held : ε → Held) (c : Command) (y : ε)
    (A : c.Answer → Prop) (e : Held) : Prop :=
  A (around.handle c y).1 ∧ e.Within (held (around.handle c y).2)

/-- Surroundings that do what the tests rely on. `held` says what they hold for the client, and `env` what
the service finds around it when a request reaches it. -/
structure Surrounded (ε : Type) extends Setup where
  around : Surroundings ε
  held : ε → Held
  env : ε → Args → Env
  ids : ∀ y, around.Gives held .ids y (· = some (clientId, tpmSpId)) (held y)
  /-- A client that has no bitmap gets one. -/
  bitmapCreate : ∀ y, (held y).bitmap = false →
    around.Gives held (.ffa .notificationBitmapCreate
      { Args.zero with arg1 := clientId, arg2 := valTpmNotificationVcpuCount }) y
      (·.fid ≠ ffaError32) { held y with bitmap := true }
  /-- A bitmap can be destroyed while nothing is bound in it. -/
  bitmapDestroy : ∀ y, (held y).bitmap = true → (held y).bound = false →
    around.Gives held (.ffa .notificationBitmapDestroy { Args.zero with arg1 := clientId }) y
      (·.fid ≠ ffaError32) { held y with bitmap := false }
  /-- A notification can be bound in a bitmap; a hypervisor has one for the client. -/
  bind : ∀ y, (held y).bitmap = true ∨ build.hypervisor = true → (held y).bound = false →
    around.Gives held (.ffa .notificationBind toSetup.bindArgs) y
      (·.fid ≠ ffaError32) { held y with bound := true }
  /-- A notification can be unbound while it is not pending. -/
  unbind : ∀ y, (held y).bound = true → (held y).pending = false →
    around.Gives held (.ffa .notificationUnbind toSetup.bindArgs) y
      (·.fid ≠ ffaError32) { held y with bound := false }
  /-- The pending bits are handed out, among them that of the client's notification; where it is not pending,
  the call may also fail with NO_DATA. -/
  get : ∀ y, around.Gives held (.ffa .notificationGet
      { Args.zero with arg1 := clientId, arg2 := ffaNotificationsFlagBitmapSp }) y
      (fun payload =>
        payload.fid ≠ ffaError32 ∧ (held y).pending =
          decide ((wrap32 payload.arg3 <<< 32 ||| wrap32 payload.arg2) &&& valTpmNotificationBitmap ≠ 0) ∨
        payload.fid = ffaError32 ∧ wrap32 payload.arg2 = ffaErrorNodata ∧ (held y).pending = false)
      { held y with pending := false }
  features : ∀ y, around.Gives held (.ffa .features { Args.zero with arg1 := ffaFeatureSri }) y
    (fun payload => payload.fid ≠ ffaError32 ∧ wrap32 payload.arg2 = sriId) (held y)
  irqRegister : ∀ y, (held y).handler = false →
    around.Gives held (.irqRegister sriId) y (· = true) { held y with handler := true }
  irqUnregister : ∀ y, (held y).handler = true →
    around.Gives held (.irqUnregister sriId) y (· = true) { held y with handler := false }
  irqEnable : ∀ y, around.Gives held (.irqEnable sriId 0xA) y (fun _ => True) { held y with enabled := true }
  irqDisable : ∀ y, around.Gives held (.irqDisable sriId) y (fun _ => True) { held y with enabled := false }
  sriClear : ∀ y, around.Gives held .sriClear y (fun _ => True) { held y with seen := false }
  sriSeen : ∀ y, around.Gives held .sriSeen y (fun answer => (held y).seen = true → answer = true) (held y)
  /-- Requests of the client to the service are delivered. -/
  deliver : ∀ y functionId arg0 arg1 arg2, around.deliver y (toSetup.args functionId arg0 arg1 arg2) =
    some (env y (toSetup.args functionId arg0 arg1 arg2))
  env_supported : ∀ y args, (env y args).notifSupported = supported
  /-- The service can set a notification that is bound. -/
  env_setSucceeds : ∀ y args, (held y).bound = true → (env y args).setSucceeds = true
  /-- A request by which nobody is notified changes nothing for the client. -/
  observe_quiet : ∀ y, (held y).Within (held (around.observe y []))
  /-- A notification arrives. -/
  observe_notification : ∀ y flags, (held y).bound = true →
    (held y).notified.Within (held (around.observe y [toSetup.notification flags]))

namespace Held.Within

variable {e h k : Held}

/-- The same is held. -/
theorem refl (e : Held) : e.Within e := ⟨e.seen, id, rfl⟩

/-- The handler may run more than once. -/
theorem trans (heh : e.Within h) (hhk : h.Within k) : e.Within k := by
  obtain ⟨seen, hseen, rfl⟩ := heh
  obtain ⟨seen', hseen', rfl⟩ := hhk
  exact ⟨seen', fun he => hseen' (hseen he), rfl⟩

/-- Whether the handler has run can be forgotten. -/
theorem forget (heh : e.Within h) : ({ e with seen := false } : Held).Within h := by
  obtain ⟨seen, -, rfl⟩ := heh
  exact ⟨seen, fun hseen => absurd hseen Bool.false_ne_true, rfl⟩

/-- The bitmap is the same. -/
theorem bitmap (heh : e.Within h) : h.bitmap = e.bitmap := by
  obtain ⟨seen, -, rfl⟩ := heh
  rfl

/-- The binding is the same. -/
theorem bound (heh : e.Within h) : h.bound = e.bound := by
  obtain ⟨seen, -, rfl⟩ := heh
  rfl

/-- The handler is the same. -/
theorem handler (heh : e.Within h) : h.handler = e.handler := by
  obtain ⟨seen, -, rfl⟩ := heh
  rfl

/-- What is pending is the same. -/
theorem pending (heh : e.Within h) : h.pending = e.pending := by
  obtain ⟨seen, -, rfl⟩ := heh
  rfl

/-- A handler that has run stays one that has. -/
theorem seen (heh : e.Within h) (he : e.seen = true) : h.seen = true := by
  obtain ⟨seen, hseen, rfl⟩ := heh
  exact hseen he

/-- A notification arrives in both. -/
theorem notified (heh : e.Within h) : e.notified.Within h.notified := by
  obtain ⟨seen, hseen, rfl⟩ := heh
  refine ⟨seen || (e.handler && e.enabled), fun hnotified => ?_, rfl⟩
  rw [Held.notified, Bool.or_eq_true] at hnotified
  rw [Bool.or_eq_true]
  exact hnotified.imp_left hseen

end Held.Within

/-! ## States -/

section

variable {σ ε α β : Type} {pal : Pal σ} {f : Surrounded ε} {φ : Phase} {granted : Bool} {e e' : Held}
  {D D' : ℕ → (ℕ → UInt8) → Prop}

/-- The service and its surroundings run together. -/
abbrev Surrounded.machine (f : Surrounded ε) (pal : Pal σ) : Handler outside (Model σ × ε) :=
  attach (Model.machine pal) f.around

/-- A phase of a test: the phase of the notifications, whether the test's locality is the active one, what
is held for the client, and what holds of CTRL_START and the data buffer. -/
structure At (f : Surrounded ε) (φ : Phase) (granted : Bool) (e : Held) (D : ℕ → (ℕ → UInt8) → Prop)
    (x : Model σ × ε) : Prop where
  phase : x.1.phase = φ
  active : x.1.active = if granted then some tpmTestLocality else none
  locSts : (x.1.regs tpmTestLocality).locSts &&& locStsGranted ≠ 0 ↔ granted = true
  held : e.Within (f.held x.2)
  regs : D (x.1.regs tpmTestLocality).ctrlStart (x.1.regs tpmTestLocality).data

namespace At

variable {x : Model σ × ε}

/-- Less is known of the registers. -/
theorem imp (hx : At f φ granted e D x) (hD : ∀ c d, D c d → D' c d) : At f φ granted e D' x :=
  ⟨hx.phase, hx.active, hx.locSts, hx.held, hD _ _ hx.regs⟩

/-- Nobody has been notified. -/
theorem quiet (hx : At f φ granted e D x) : At f φ granted e D (x.1, f.around.observe x.2 []) :=
  ⟨hx.phase, hx.active, hx.locSts, hx.held.trans (f.observe_quiet x.2), hx.regs⟩

/-- The client has been notified. -/
theorem notified (hx : At f φ granted e D x) (hbound : e.bound = true) (flags : ℕ) :
    At f φ granted e.notified D (x.1, f.around.observe x.2 [f.notification flags]) := by
  have hafter := f.observe_notification x.2 flags (hx.held.bound.trans hbound)
  exact ⟨hx.phase, hx.active, hx.locSts, hx.held.notified.trans hafter, hx.regs⟩

/-- Whether the handler has run is forgotten. -/
theorem forget (hx : At f φ granted e D x) : At f φ granted { e with seen := false } D x :=
  ⟨hx.phase, hx.active, hx.locSts, hx.held.forget, hx.regs⟩

end At

/-- Nothing is known of the data buffer. -/
def anyData (_ : ℕ) (_ : ℕ → UInt8) : Prop := True

/-- A program whose result is this one. -/
def Returns (f : Surrounded ε) (pal : Pal σ) (P : Model σ × ε → Prop) (p : Client α) (a : α)
    (Q : Model σ × ε → Prop) : Prop :=
  Program.Spec (f.machine pal) P p fun b x => b = a ∧ Q x

namespace Returns

variable {P Q R : Model σ × ε → Prop}

/-- A program that has finished. -/
theorem pure {a : α} (hPQ : ∀ x, P x → Q x) : Returns f pal P (pure a) a Q :=
  Program.Spec.pure _ fun x hx => ⟨rfl, hPQ x hx⟩

/-- One program after another. -/
theorem bind {p : Client α} {a : α} {next : α → Client β} {b : β} (hp : Returns f pal P p a Q)
    (hnext : Returns f pal Q (next a) b R) : Returns f pal P (p >>= next) b R :=
  Program.Spec.bind hp fun _ => .assume fun heq => heq ▸ hnext

/-- The rule of consequence. -/
theorem mono {p : Client α} {a : α} {P' Q' : Model σ × ε → Prop} (hp : Returns f pal P p a Q)
    (hP : ∀ x, P' x → P x) (hQ : ∀ x, Q x → Q' x) : Returns f pal P' p a Q' :=
  Program.Spec.mono hp hP fun _ x hx => ⟨hx.1, hQ x hx.2⟩

/-- A step whose result does not stop the program. -/
theorem guard {p : Client α} {a : α} {b : α → Prop} [DecidablePred b]
    {stop next : α → Client β} {v : β}
    (hp : Returns f pal P p a Q) (ha : ¬b a) (hnext : Returns f pal Q (next a) v R) :
    Returns f pal P (p >>= fun a => if b a then stop a else next a) v R := by
  refine hp.bind ?_
  rwa [if_neg ha]

/-- A branch that is not taken. -/
theorem skip {b : Prop} [Decidable b] {p q : Client α} {a : α} (hb : ¬b)
    (hq : Returns f pal P q a Q) :
    Returns f pal P (if b then p else q) a Q := by
  rwa [if_neg hb]

/-- A branch that is taken. -/
theorem take {b : Prop} [Decidable b] {p q : Client α} {a : α} (hb : b) (hp : Returns f pal P p a Q) :
    Returns f pal P (if b then p else q) a Q := by
  rwa [if_pos hb]

end Returns

/-- A precondition with a parameter. -/
theorem Returns.exists {γ : Type} {A : γ → Prop} {P : γ → Model σ × ε → Prop} {p : Client α} {a : α}
    (hp : ∀ c, A c → Returns f pal (P c) p a Q) : Returns f pal (fun x => ∃ c, A c ∧ P c x) p a Q :=
  fun x ⟨c, hA, hx⟩ => hp c hA x hx

variable {P Q R : Model σ × ε → Prop}

/-! ## Registers -/

/-- The registers of the test's locality after a change of others. -/
theorem At.setRegs {x : Model σ × ε} (hx : At f φ granted e D x) (g : Registers → Registers)
    (hlocSts : ∀ regs, (g regs).locSts = regs.locSts)
    (hD : ∀ regs : Registers, D regs.ctrlStart regs.data → D' (g regs).ctrlStart (g regs).data) :
    At f φ granted e D' (x.1.setRegs tpmTestLocality g, x.2) := by
  refine ⟨hx.phase, hx.active, ?_, hx.held, ?_⟩
  · simp only [Model.setRegs, Function.update_self, hlocSts]
    exact hx.locSts
  · simp only [Model.setRegs, Function.update_self]
    exact hD _ hx.regs

/-- LOC_CTRL holds what was written. -/
theorem writeLocCtrl_returns {v : ℕ} : Returns f pal (At f φ granted e D) (writeLocCtrl v) () fun x =>
    At f φ granted e D x ∧ (x.1.regs tpmTestLocality).locCtrl = wrap32 v := by
  refine .command fun x hx => ⟨rfl, hx.setRegs (fun regs => { regs with locCtrl := wrap32 v }) (fun _ => rfl)
    fun _ h => h, ?_⟩
  simp [attach, Model.machine, Model.write, Model.setRegs]

/-- CTRL_START holds what was written. -/
theorem writeCtrlStart_returns {v : ℕ} : Returns f pal (At f φ granted e D) (writeCtrlStart v) ()
    (At f φ granted e fun c d => c = wrap32 v ∧ ∃ c', D c' d) :=
  .command fun _ hx => ⟨rfl, hx.setRegs (fun regs => { regs with ctrlStart := wrap32 v }) (fun _ => rfl)
    fun _ h => ⟨rfl, _, h⟩⟩

/-- LOC_STS says whether the locality is granted. -/
theorem readGranted_returns :
    Returns f pal (At f φ granted e D) readGranted granted (At f φ granted e D) := by
  refine Program.Spec.bind
    (Q := fun sts x => ((sts : ℕ) &&& locStsGranted ≠ 0 ↔ granted = true) ∧ At f φ granted e D x)
    (.command fun x hx => ⟨hx.locSts, hx⟩) fun sts => .assume fun hsts => .pure _ fun x hx => ⟨?_, hx⟩
  rw [Bool.eq_iff_iff, ← hsts, decide_eq_true_iff]

/-- CTRL_START is read. -/
theorem ctrlStart_returns {c : ℕ} : Returns f pal (At f φ granted e fun c' d => c' = c ∧ D c' d)
    (issue (.ctrlStart tpmTestLocality)) c (At f φ granted e fun c' d => c' = c ∧ D c' d) :=
  .command fun _ hx => ⟨hx.regs.1, hx⟩

/-- CTRL_START says whether a command waits. -/
theorem readStarted_returns {c : ℕ} : Returns f pal (At f φ granted e fun c' d => c' = c ∧ D c' d) readStarted
    (decide (c &&& crbCtrlStart ≠ 0)) (At f φ granted e fun c' d => c' = c ∧ D c' d) :=
  ctrlStart_returns.bind (.pure fun _ hx => hx)

/-! ## Requests -/

/-- The request that the service sees. -/
def Setup.request (f : Setup) (functionId arg0 arg1 : ℕ) : Request :=
  ⟨ffaMsgSendDirectReq64, f.clientId <<< 16 ||| f.tpmSpId, functionId, arg0, arg1⟩

/-- The two endpoints in one register. -/
theorem Setup.parties (f : Setup) : f.clientId <<< 16 ||| f.tpmSpId = f.clientId * 2 ^ 16 + f.tpmSpId := by
  rw [← Nat.shiftLeft_add_eq_or_of_lt f.tpmSpId_lt, Nat.shiftLeft_eq]

/-- The client sends the request. -/
@[simp] theorem Setup.request_sender (f : Setup) (functionId arg0 arg1 : ℕ) :
    (f.request functionId arg0 arg1).sender = f.clientId := by
  have hclient := f.clientId_lt
  have htpm := f.tpmSpId_lt
  simp only [Request.sender, Setup.request, f.parties]
  omega

/-- The service receives the request. -/
@[simp] theorem Setup.request_receiver (f : Setup) (functionId arg0 arg1 : ℕ) :
    (f.request functionId arg0 arg1).receiver = f.tpmSpId := by
  have htpm := f.tpmSpId_lt
  simp only [Request.receiver, Setup.request, f.parties]
  omega

/-- A status fits its register. -/
theorem CrbStatus.wrap32_code (status : CrbStatus) : wrap32 status.code = status.code := by
  cases status <;> decide

section

variable {functionId arg0 arg1 arg2 : ℕ}

/-- What the service finds around it when a request of the client reaches it. -/
def Surrounded.envOf (f : Surrounded ε) (functionId arg0 arg1 arg2 : ℕ) (y : ε) : Env :=
  f.env y (f.args functionId arg0 arg1 arg2)

/-- A request and the state after it. -/
def Surrounded.handled (f : Surrounded ε) (pal : Pal σ) (functionId arg0 arg1 arg2 : ℕ) (x : Model σ × ε) :
    Result × Model σ × ε :=
  let answer := x.1.handle pal (f.envOf functionId arg0 arg1 arg2 x.2) (f.request functionId arg0 arg1)
  (answer.2.1, answer.1, f.around.observe x.2 answer.2.2)

/-- A request of the client is delivered and answered. -/
theorem valTpmSendAbi_run (x : Model σ × ε) :
    (valTpmSendAbi f.clientId f.tpmSpId functionId arg0 arg1 arg2).run (f.machine pal) x =
      ((respond (f.request functionId arg0 arg1) (f.handled pal functionId arg0 arg1 arg2 x).1).args,
        (f.handled pal functionId arg0 arg1 arg2 x).2) := by
  change attach (Model.machine pal) f.around (.direct (f.args functionId arg0 arg1 arg2)) x = _
  simp only [attach, f.deliver]
  rfl

/-- A request whose answer is used as a whole. -/
theorem valTpmSendAbi_returns {result : Result}
    (hreq : ∀ x, P x → (f.handled pal functionId arg0 arg1 arg2 x).1 = result ∧
      Q (f.handled pal functionId arg0 arg1 arg2 x).2) :
    Returns f pal P (valTpmSendAbi f.clientId f.tpmSpId functionId arg0 arg1 arg2)
      (respond (f.request functionId arg0 arg1) result).args Q := by
  intro x hx
  rw [valTpmSendAbi_run, (hreq x hx).1]
  exact ⟨rfl, (hreq x hx).2⟩

/-- A request that is answered with the expected status. -/
theorem valTpmSendAndExpect_returns {status : CrbStatus}
    (hreq : ∀ x, P x → (f.handled pal functionId arg0 arg1 arg2 x).1.status = status ∧
      Q (f.handled pal functionId arg0 arg1 arg2 x).2) :
    Returns f pal P (valTpmSendAndExpect f.clientId f.tpmSpId functionId arg0 arg1 arg2 status.code)
      .success Q := by
  refine Program.Spec.bind (Q := fun payload x =>
    (payload.fid = ffaMsgSendDirectResp64 ∧ wrap32 payload.arg4 = status.code) ∧ Q x) ?_ fun payload =>
    .assume fun hpayload => ?_
  · intro x hx
    rw [valTpmSendAbi_run]
    have hstatus := congrArg (fun s => wrap32 s.code) (hreq x hx).1
    exact ⟨⟨rfl, hstatus.trans status.wrap32_code⟩, (hreq x hx).2⟩
  · rw [if_neg (not_not.mpr hpayload.1), if_neg (not_not.mpr hpayload.2)]
    exact Program.Spec.pure _ fun _ hx => ⟨rfl, hx⟩

/-- A request that is answered and changes nothing. -/
theorem request_returns (status : CrbStatus)
    (hreq : ∀ x : Model σ × ε, At f φ granted e D x →
      (f.handled pal functionId arg0 arg1 arg2 x).1.status = status ∧
        (f.handled pal functionId arg0 arg1 arg2 x).2 = (x.1, f.around.observe x.2 [])) :
    Returns f pal (At f φ granted e D)
      (valTpmSendAndExpect f.clientId f.tpmSpId functionId arg0 arg1 arg2 status.code) .success
      (At f φ granted e D) :=
  valTpmSendAndExpect_returns fun x hx => ⟨(hreq x hx).1, (hreq x hx).2.symm ▸ hx.quiet⟩

end

/-- The test's locality after LOC_CTRL data has been applied to it. -/
def grantedAfter (granted : Bool) (ctrl : ℕ) : Bool :=
  if ctrl % 2 = 1 then true else if ctrl % 4 = locCtrlRelinquish then false else granted

/-- The holder of the CRB after LOC_CTRL data has been applied to the test's locality. -/
theorem nextHolder_eq (granted : Bool) (ctrl : ℕ) :
    Model.nextHolder (if granted then some tpmTestLocality else none) tpmTestLocality ctrl =
      if grantedAfter granted ctrl then some tpmTestLocality else none := by
  unfold Model.nextHolder grantedAfter
  cases granted <;> (simp only [Bool.false_eq_true, if_true, if_false]; split_ifs <;> simp_all)

/-- LOC_CTRL data is applied to the test's locality. -/
theorem At.applyCtrl {x : Model σ × ε} (hx : At f φ granted e D x) (ctrl : ℕ) :
    At f φ (grantedAfter granted ctrl) e D (x.1.applyCtrl tpmTestLocality ctrl, x.2) := by
  have hnext : Model.nextHolder x.1.active tpmTestLocality ctrl =
      if grantedAfter granted ctrl then some tpmTestLocality else none := by
    rw [hx.active, nextHolder_eq]
  refine ⟨hx.phase, hnext, ?_, hx.held, ?_⟩
  · simp only [Model.applyCtrl, Model.setRegs, Function.update_self, hnext]
    cases grantedAfter granted ctrl <;> decide
  · simp only [Model.applyCtrl, Model.setRegs, Function.update_self]
    exact hx.regs

/-- START for the test's locality. -/
theorem handle_start (f : Setup) (env : Env) (type : ℕ) (htype : type ≤ 0xff) (a : Model σ) :
    a.handle pal env (f.request crbStart type (tpmTestLocality : ℕ)) =
      if type = crbStartTypeLocalityRequest then
        a.startLocality env (f.request crbStart type (tpmTestLocality : ℕ)) tpmTestLocality
      else if type = crbStartTypeCommand then
        a.startCommand pal env (f.request crbStart type (tpmTestLocality : ℕ)) tpmTestLocality
      else Model.quietly (a, ⟨.invarg, 0, 0⟩) := by
  have hfunc : (f.request crbStart type (tpmTestLocality : ℕ)).func = crbStart := by
    change wrap32 crbStart = crbStart
    decide
  have hargs : (f.request crbStart type (tpmTestLocality : ℕ)).arg5 ≤ 0xff ∧
      (f.request crbStart type (tpmTestLocality : ℕ)).arg6 ≤ crbLocalityMax :=
    ⟨htype, by change 0 ≤ _; exact Nat.zero_le _⟩
  rw [Model.handle, hfunc, if_neg (by decide), if_neg (by decide), if_pos rfl, Model.start, dif_pos hargs]
  rfl

/-- START(LOCALITY_REQUEST) while the client is not registered. -/
theorem sendLocality_returns {ctrl : ℕ} : Returns f pal (At f .unregistered granted e D)
    (sendLocality f.clientId f.tpmSpId ctrl) .success
    (At f .unregistered (grantedAfter granted (wrap32 ctrl)) e D) := by
  refine writeLocCtrl_returns.bind (valTpmSendAndExpect_returns fun x hx => ?_)
  obtain ⟨hx, hctrl⟩ := hx
  have hnone (env : Env) (r : Request) : x.1.notifiable env r = none := by
    rw [Model.notifiable, hx.phase]
  rw [Surrounded.handled, handle_start _ _ _ (by decide), if_pos rfl, Model.startLocality, hnone, hctrl]
  have hcleared := hx.setRegs (fun regs => { regs with locCtrl := 0 }) (fun _ => rfl) fun _ h => h
  exact ⟨rfl, (hcleared.applyCtrl _).quiet⟩

/-- The test's locality is relinquished. -/
theorem relinquish_returns : Returns f pal (At f .unregistered granted e D) (relinquish f.clientId f.tpmSpId)
    .success (At f .unregistered false e D) := by
  have hsend : Returns f pal (At f .unregistered granted e D)
      (sendLocality f.clientId f.tpmSpId locCtrlRelinquish) .success (At f .unregistered false e D) :=
    sendLocality_returns
  exact hsend

/-- The registration of the tests. -/
def Setup.registration (f : Setup) : Registration := ⟨f.clientId, f.tpmSpId, valTpmNotificationId⟩

/-- The service notifies the client by this call. -/
theorem signal_notifies (f : Setup) {env : Env} (hset : env.setSucceeds = true) :
    Model.signal env f.registration = f.notification
      (crbNotificationTypeGlobal ||| if env.delaySri then ffaNotificationsFlagDelaySri else 0) := by
  have hbitmap : notificationBitmap env valTpmNotificationId = valTpmNotificationBitmap := rfl
  have hlow : valTpmNotificationBitmap &&& 0xffffffff = valTpmNotificationBitmap := by decide
  have hhigh : wrap32 (valTpmNotificationBitmap / 2 ^ 32) = 0 := by decide
  simp only [Model.signal, signalEvent, Setup.registration, Setup.notification, hbitmap, hlow, hhigh, hset]

/-- A registered client with a bound bitmap can be notified. -/
theorem notifiable_registered {env : Env} {a : Model σ} (f : Setup) 
    (hphase : a.phase = .registered f.registration) (hsupported : env.notifSupported = true)
    (hset : env.setSucceeds = true) (functionId arg0 arg1 : ℕ) :
    a.notifiable env (f.request functionId arg0 arg1) = some f.registration := by
  rw [Model.notifiable, hphase]
  refine if_pos ⟨?_, ?_, hsupported, hset⟩
  · rw [Setup.request_sender]
    rfl
  · rw [Setup.request_receiver]
    rfl

/-- What the service finds around it while the notification of the client is bound. -/
theorem At.env {x : Model σ × ε} (hx : At f φ granted e D x) (hbound : e.bound = true)
    (functionId arg0 arg1 arg2 : ℕ) : (f.envOf functionId arg0 arg1 arg2 x.2).setSucceeds = true :=
  f.env_setSucceeds _ _ (hx.held.bound.trans hbound)

/-- The service finds out whether notifications are supported. -/
theorem Surrounded.envOf_supported (f : Surrounded ε) (functionId arg0 arg1 arg2 : ℕ) (y : ε) :
    (f.envOf functionId arg0 arg1 arg2 y).notifSupported = f.supported :=
  f.env_supported _ _

/-- START(LOCALITY_REQUEST) of a client that is notified. -/
theorem sendLocality_defers {ctrl : ℕ} (hsupported : f.supported = true) (hbound : e.bound = true) :
    Returns f pal (At f (.registered f.registration) granted e D)
    (sendLocality f.clientId f.tpmSpId ctrl) .success
      (At f (.deferred f.registration (.locality tpmTestLocality (wrap32 ctrl))) granted e.notified D) := by
  refine writeLocCtrl_returns.bind (valTpmSendAndExpect_returns fun x hx => ?_)
  obtain ⟨hx, hctrl⟩ := hx
  have hset := hx.env hbound crbStart crbStartTypeLocalityRequest (tpmTestLocality : ℕ) 0
  rw [Surrounded.handled, handle_start _ _ _ (by decide), if_pos rfl, Model.startLocality,
    notifiable_registered _ hx.phase ((f.envOf_supported ..).trans hsupported) hset, hctrl]
  dsimp only
  rw [signal_notifies f.toSetup hset]
  have hcleared := hx.setRegs (fun regs => { regs with locCtrl := 0 }) (fun _ => rfl) fun _ h => h
  exact ⟨rfl, rfl, hcleared.active, hcleared.locSts, (hcleared.notified hbound _).held, hcleared.regs⟩

/-! ## The library -/

/-- A context of the tests. -/
def Setup.context (f : Setup) (created bound registered sri enabled : Bool) : Context :=
  ⟨f.clientId, f.tpmSpId, valTpmNotificationBitmap, created, bound, registered,
    if sri then f.sriId else 0, sri, enabled⟩

/-- A change that does not look at whether the handler has run. -/
theorem Held.Within.map {g : Held → Held} {e h : Held} (heh : e.Within h)
    (hg : ∀ (h : Held) (seen : Bool), g { h with seen := seen } = { g h with seen := seen }) :
    (g e).Within (g h) := by
  obtain ⟨seen, hseen, rfl⟩ := heh
  have hsame : (g e).seen = e.seen := by rw [hg e e.seen]
  exact ⟨seen, fun he => hseen (hsame.symm.trans he), hg e seen⟩

/-- A command that the surroundings carry out. `g` is what it does to what is held for the client. -/
theorem issue_gives {c : Command} {A : c.Answer → Prop} (g : Held → Held)
    (hg : ∀ (h : Held) (seen : Bool), g { h with seen := seen } = { g h with seen := seen })
    (hattach : ∀ x : Model σ × ε, f.machine pal c x = elsewhere f.around c x)
    (hc : ∀ y, e.Within (f.held y) → f.around.Gives f.held c y A (g (f.held y))) :
    Program.Spec (f.machine pal) (At f φ granted e D) (issue c)
      fun a x => A a ∧ At f φ granted (g e) D x := by
  refine .command fun x hx => ?_
  obtain ⟨hanswer, hheld⟩ := hc x.2 hx.held
  rw [hattach]
  exact ⟨hanswer, hx.phase, hx.active, hx.locSts, (hx.held.map hg).trans hheld, hx.regs⟩

/-- The endpoint table has both endpoints. -/
theorem valTpmGetEndpointIds_returns : Returns f pal (At f φ granted e D) valTpmGetEndpointIds
    (.success, f.clientId, f.tpmSpId) (At f φ granted e D) := by
  refine Program.Spec.bind (issue_gives id (fun _ _ => rfl) (fun _ => rfl) fun y _ => f.ids y) fun answer =>
    .assume ?_
  rintro rfl
  exact Returns.pure fun _ hx => hx

/-- A context starts with nothing acquired. -/
theorem valTpmNotificationInit_returns : Returns f pal (At f φ granted e D) valTpmNotificationInit
    (.success, f.context false false false false false) (At f φ granted e D) :=
  valTpmGetEndpointIds_returns.bind (.pure fun _ hx => hx)

/-- The service says whether notifications are supported. -/
theorem featureInfo_returns (f : Surrounded ε) (pal : Pal σ) : Returns f pal (At f φ granted e D)
    (valTpmSendAbi f.clientId f.tpmSpId crbGetFeatureInfo crbFeatureNotification 0 0)
    (respond (f.request crbGetFeatureInfo crbFeatureNotification 0)
      ⟨if f.supported then .ok else .notsup, 0, 0⟩).args (At f φ granted e D) := by
  refine valTpmSendAbi_returns fun x hx => ⟨?_, hx.quiet⟩
  rw [← f.env_supported x.2 (f.args crbGetFeatureInfo crbFeatureNotification 0 0)]
  rfl

/-- The notification tests are skipped where notifications are not supported. -/
theorem valTpmNotificationFeatureSupported_returns (f : Surrounded ε) (pal : Pal σ) :
    Returns f pal (At f φ granted e D) (valTpmNotificationFeatureSupported f.clientId f.tpmSpId)
      (if f.supported then .success else .skipCheck) (At f φ granted e D) := by
  refine (featureInfo_returns f pal).bind ?_
  cases f.supported <;> exact .pure fun _ hx => hx

/-- The bitmap is created, where the build has one. -/
theorem valTpmNotificationCreateBitmap_returns {b r sri en : Bool} (he : e.bitmap = false) :
    Returns f pal (At f φ granted e D) (valTpmNotificationCreateBitmap f.build (f.context false b r sri en))
      (.success, f.context f.build.hasBitmap b r sri en)
      (At f φ granted { e with bitmap := f.build.hasBitmap } D) := by
  rw [valTpmNotificationCreateBitmap]
  cases hbitmap : f.build.hasBitmap with
  | false =>
    refine .pure fun x hx => ?_
    rwa [← he]
  | true =>
    refine Program.Spec.bind (issue_gives (fun h => { h with bitmap := true })
      (fun _ _ => rfl) (fun _ => rfl) fun y hy => f.bitmapCreate y (hy.bitmap.trans he))
      fun payload => .assume fun hpayload => ?_
    rw [if_neg hpayload]
    exact Returns.pure fun _ hx => hx

/-- The notification is bound. -/
theorem valTpmNotificationBind_returns {c r sri en : Bool} (he : e.bitmap = f.build.hasBitmap)
    (hfree : e.bound = false) : Returns f pal (At f φ granted e D)
    (valTpmNotificationBind (f.context c false r sri en))
      (.success, f.context c true r sri en) (At f φ granted { e with bound := true } D) := by
  have hbitmap : e.bitmap = true ∨ f.build.hypervisor = true := by
    rw [he, Build.hasBitmap]
    cases f.build.hypervisor <;> decide
  refine Program.Spec.bind (issue_gives (fun h => { h with bound := true })
    (fun _ _ => rfl) (fun _ => rfl) fun y hy =>
    f.bind y (hbitmap.imp_left hy.bitmap.trans) (hy.bound.trans hfree)) fun payload =>
    .assume fun hpayload => ?_
  rw [if_neg hpayload]
  exact Returns.pure fun _ hx => hx

/-- It is forgotten whether the handler of the interrupt has run. -/
theorem sriClear_returns : Returns f pal (At f φ granted e D) (issue .sriClear) ()
    (At f φ granted { e with seen := false } D) := by
  refine .command fun x hx => ⟨rfl, hx.phase, hx.active, hx.locSts, ?_, hx.regs⟩
  have hheld := (f.sriClear x.2).2
  obtain ⟨seen, -, hx⟩ := hx.held
  rwa [hx] at hheld

/-- The handler of the interrupt is registered, where the build has the interrupt. -/
theorem valTpmNotificationSetupInterrupt_returns {c b r en : Bool} (he : e.handler = false) :
    Returns f pal (At f φ granted e D) (valTpmNotificationSetupInterrupt f.build (f.context c b r false en))
      (.success, f.context c b r f.build.hasSri en)
      (At f φ granted { e with handler := f.build.hasSri, seen := false } D) := by
  rw [valTpmNotificationSetupInterrupt]
  cases hsri : f.build.hasSri with
  | false =>
    refine .pure fun x hx => ?_
    simpa only [he] using hx.forget
  | true =>
    refine Program.Spec.bind (issue_gives id (fun _ _ => rfl) (fun _ => rfl) fun y _ => f.features y)
      fun payload => .assume fun hpayload => ?_
    rw [if_neg hpayload.1, hpayload.2]
    refine Program.Spec.bind (issue_gives (fun h => { h with handler := true })
      (fun _ _ => rfl) (fun _ => rfl) fun y hy => f.irqRegister y (hy.handler.trans he))
      fun answer => .assume ?_
    rintro rfl
    exact sriClear_returns.bind (.pure fun _ hx => hx)

/-- The interrupt is enabled, where the build has it. -/
theorem valTpmNotificationPrepareInterrupt_returns {c b r : Bool} (he : e.enabled = false) :
    Returns f pal (At f φ granted e D)
    (valTpmNotificationPrepareInterrupt f.build (f.context c b r f.build.hasSri false))
      (.success, f.context c b r f.build.hasSri f.build.hasSri)
      (At f φ granted { e with enabled := f.build.hasSri, seen := false } D) := by
  rw [valTpmNotificationPrepareInterrupt]
  cases hsri : f.build.hasSri with
  | false =>
    refine .pure fun x hx => ?_
    simpa only [he] using hx.forget
  | true =>
    refine sriClear_returns.bind (Program.Spec.bind (issue_gives (fun h => { h with enabled := true })
      (fun _ _ => rfl) (fun _ => rfl) fun y _ => f.irqEnable y) fun _ =>
      .assume fun _ => ?_)
    exact Returns.pure fun _ hx => hx

/-- The interrupt has been handled and is disabled. -/
theorem valTpmNotificationCompleteInterrupt_returns {c b r : Bool} (he : e.enabled = f.build.hasSri)
    (hseen : f.build.hasSri = true → e.seen = true) : Returns f pal (At f φ granted e D)
      (valTpmNotificationCompleteInterrupt f.build (f.context c b r f.build.hasSri f.build.hasSri))
      (.success, f.context c b r f.build.hasSri false) (At f φ granted { e with enabled := false } D) := by
  rw [valTpmNotificationCompleteInterrupt]
  cases hsri : f.build.hasSri with
  | false =>
    refine .pure fun x hx => ?_
    rwa [← hsri, ← he]
  | true =>
    have hanswer (y : ε) (hy : e.Within (f.held y)) :
        f.around.Gives f.held .sriSeen y (· = true) (f.held y) :=
      ⟨(f.sriSeen y).1 (hy.seen (hseen hsri)), (f.sriSeen y).2⟩
    refine Program.Spec.bind (issue_gives id (fun _ _ => rfl) (fun _ => rfl) hanswer) fun answer => .assume ?_
    rintro rfl
    have hdisable : Program.Spec (f.machine pal) (At f φ granted e D) (issue (.irqDisable f.sriId))
        fun _ x => True ∧ At f φ granted { e with enabled := false } D x :=
      issue_gives (fun h => { h with enabled := false }) (fun _ _ => rfl) (fun _ => rfl)
        fun y _ => f.irqDisable y
    refine Program.Spec.bind (Program.Spec.bind hdisable fun _ => .assume fun _ =>
      Returns.pure fun _ hx => hx) fun ctx => .assume ?_
    rintro rfl
    exact Returns.pure fun _ hx => hx

/-- The notification is pending, or it is not. -/
theorem valTpmCheckPendingNotification_returns {c b r sri en : Bool} : Returns f pal (At f φ granted e D)
    (valTpmCheckPendingNotification (f.context c b r sri en) e.pending) .success
    (At f φ granted { e with pending := false } D) := by
  refine Program.Spec.bind (issue_gives (fun h => { h with pending := false }) (fun _ _ => rfl)
    (fun _ => rfl) fun y hy => hy.pending ▸ f.get y) fun payload => .assume fun hpayload => ?_
  rcases hpayload with ⟨hok, hbits⟩ | ⟨herror, hnodata, hnone⟩
  · have hpresent : e.pending = decide ((f.context c b r sri en).pendingBits payload ≠ 0) := hbits
    rw [if_neg hok, if_pos hpresent]
    exact Returns.pure fun _ hx => hx
  · rw [if_pos herror, if_pos ⟨hnone, hnodata⟩]
    exact Returns.pure fun _ hx => hx

/-! ## Registrations -/

/-- A registration of the tests. -/
theorem valTpmNotificationRegister_returns (status : CrbStatus) {c b r sri en : Bool} {type vcpuId id : ℕ}
    (hvcpu : vcpuId &&& 0xffff0000 = 0)
    (hsend : Returns f pal P (valTpmSendAndExpect f.clientId f.tpmSpId crbRegisterNotification
      (wrap32 (type <<< 16) ||| (vcpuId &&& 0xffff)) id 0 status.code) .success Q) :
    Returns f pal P (valTpmNotificationRegister (f.context c b r sri en) type vcpuId id status.code)
      (.success, f.context c b (r || decide (status.code = CrbStatus.ok.code)) sri en) Q := by
  rw [valTpmNotificationRegister, if_neg (not_not.mpr hvcpu)]
  refine hsend.bind ?_
  by_cases hok : status.code = CrbStatus.ok.code
  · rw [if_pos ⟨rfl, hok⟩, decide_eq_true hok, Bool.or_true]
    exact .pure fun _ hx => hx
  · rw [if_neg fun h => hok h.2, decide_eq_false hok, Bool.or_false]
    exact .pure fun _ hx => hx

/-- What the service makes of a registration. -/
theorem handled_register (arg0 arg1 arg2 : ℕ) (x : Model σ × ε) :
    f.handled pal crbRegisterNotification arg0 arg1 arg2 x =
      if arg0 ≠ 0 ∨ arg1 > crbNotificationIdMask then (⟨.invarg, 0, 0⟩, x.1, f.around.observe x.2 [])
      else if f.supported = false then (⟨.notsup, 0, 0⟩, x.1, f.around.observe x.2 [])
      else
        match x.1.phase with
        | .unregistered => (⟨.ok, 0, 0⟩,
            { x.1 with phase := .registered ⟨f.clientId, f.tpmSpId, arg1⟩ }, f.around.observe x.2 [])
        | _ => (⟨.already, 0, 0⟩, x.1, f.around.observe x.2 []) := by
  have hhandled : f.handled pal crbRegisterNotification arg0 arg1 arg2 x =
      ((x.1.register (f.envOf crbRegisterNotification arg0 arg1 arg2 x.2)
          (f.request crbRegisterNotification arg0 arg1)).2,
        (x.1.register (f.envOf crbRegisterNotification arg0 arg1 arg2 x.2)
          (f.request crbRegisterNotification arg0 arg1)).1, f.around.observe x.2 []) := rfl
  have hregister (env : Env) : x.1.register env (f.request crbRegisterNotification arg0 arg1) =
      if arg0 ≠ 0 ∨ arg1 > crbNotificationIdMask then (x.1, ⟨.invarg, 0, 0⟩)
      else if env.notifSupported = false then (x.1, ⟨.notsup, 0, 0⟩)
      else
        match x.1.phase with
        | .unregistered =>
          ({ x.1 with phase := .registered ⟨f.clientId, f.tpmSpId, arg1⟩ }, ⟨.ok, 0, 0⟩)
        | _ => (x.1, ⟨.already, 0, 0⟩) := by
    rw [Model.register, Setup.request_sender, Setup.request_receiver]
    rfl
  rw [hhandled, hregister, f.envOf_supported]
  split_ifs
  · rfl
  · rfl
  · cases x.1.phase <;> rfl

/-- The client is registered. -/
theorem registerNotification_returns {c b sri en : Bool} (hsupported : f.supported = true) :
    Returns f pal (At f .unregistered granted e D) (registerNotification (f.context c b false sri en))
      (.success, f.context c b true sri en) (At f (.registered f.registration) granted e D) := by
  refine valTpmNotificationRegister_returns .ok (by decide) (valTpmSendAndExpect_returns fun x hx => ?_)
  rw [handled_register, if_neg (by decide), if_neg (by rw [hsupported]; decide), hx.phase]
  exact ⟨rfl, rfl, hx.active, hx.locSts, hx.quiet.held, hx.regs⟩

/-- A registration that the service has already. -/
theorem registerAgain_returns {c b sri en : Bool} (hsupported : f.supported = true) :
    Returns f pal (At f (.registered f.registration) granted e D)
      (valTpmNotificationRegister (f.context c b true sri en) crbNotificationTypeGlobal 0 valTpmNotificationId
        CrbStatus.already.code)
      (.success, f.context c b true sri en) (At f (.registered f.registration) granted e D) := by
  refine valTpmNotificationRegister_returns .already (by decide) (request_returns _ fun x hx => ?_)
  rw [handled_register, if_neg (by decide), if_neg (by rw [hsupported]; decide), hx.phase]
  exact ⟨rfl, rfl⟩

/-- A registration with invalid arguments. -/
theorem registerInvalid_returns {c b sri en : Bool} {type vcpuId id : ℕ} (hvcpu : vcpuId &&& 0xffff0000 = 0)
    (hargs : (wrap32 (type <<< 16) ||| (vcpuId &&& 0xffff)) ≠ 0 ∨ id > crbNotificationIdMask) :
    Returns f pal (At f φ granted e D)
      (valTpmNotificationRegister (f.context c b false sri en) type vcpuId id CrbStatus.invarg.code)
      (.success, f.context c b false sri en) (At f φ granted e D) := by
  refine valTpmNotificationRegister_returns .invarg hvcpu (request_returns _ fun x _ => ?_)
  rw [handled_register, if_pos hargs]
  exact ⟨rfl, rfl⟩

/-- What the service makes of the end of a registration. -/
theorem handled_unregister (x : Model σ × ε) (hsupported : f.supported = true) :
    f.handled pal crbUnregisterNotification 0 0 0 x =
      match x.1.phase with
      | .registered reg =>
        if reg.client = f.clientId then
          (⟨.ok, 0, 0⟩, { x.1 with phase := .unregistered }, f.around.observe x.2 [])
        else (⟨.denied, 0, 0⟩, x.1, f.around.observe x.2 [])
      | _ => (⟨.denied, 0, 0⟩, x.1, f.around.observe x.2 []) := by
  have hhandled : f.handled pal crbUnregisterNotification 0 0 0 x =
      ((x.1.unregister (f.envOf crbUnregisterNotification 0 0 0 x.2)
          (f.request crbUnregisterNotification 0 0)).2,
        (x.1.unregister (f.envOf crbUnregisterNotification 0 0 0 x.2)
          (f.request crbUnregisterNotification 0 0)).1, f.around.observe x.2 []) := rfl
  rw [hhandled, Model.unregister, Setup.request_sender, f.envOf_supported, hsupported,
    if_neg (show ¬true = false by decide)]
  cases x.1.phase with
  | registered reg =>
    dsimp only
    split_ifs <;> rfl
  | _ => rfl

/-- The registration ends. -/
theorem valTpmNotificationUnregister_returns {c b sri en : Bool} (hsupported : f.supported = true) :
    Returns f pal (At f (.registered f.registration) granted e D)
      (valTpmNotificationUnregister (f.context c b true sri en) CrbStatus.ok.code)
      (.success, f.context c b false sri en) (At f .unregistered granted e D) := by
  have hsend : Returns f pal (At f (.registered f.registration) granted e D)
      (valTpmSendAndExpect f.clientId f.tpmSpId crbUnregisterNotification 0 0 0 CrbStatus.ok.code) .success
      (At f .unregistered granted e D) := by
    refine valTpmSendAndExpect_returns fun x hx => ?_
    rw [handled_unregister x hsupported, hx.phase]
    dsimp only
    rw [if_pos (show f.registration.client = f.clientId from rfl)]
    exact ⟨rfl, rfl, hx.active, hx.locSts, hx.quiet.held, hx.regs⟩
  exact hsend.bind (.pure fun _ hx => hx)

/-- The client is not registered. -/
theorem unregisterDenied_returns {c b r sri en : Bool} (hsupported : f.supported = true) :
    Returns f pal (At f .unregistered granted e D)
      (valTpmNotificationUnregister (f.context c b r sri en) CrbStatus.denied.code)
      (.success, f.context c b r sri en) (At f .unregistered granted e D) := by
  have hsend : Returns f pal (At f .unregistered granted e D)
      (valTpmSendAndExpect f.clientId f.tpmSpId crbUnregisterNotification 0 0 0 CrbStatus.denied.code)
      .success (At f .unregistered granted e D) := by
    refine request_returns _ fun x hx => ?_
    rw [handled_unregister x hsupported, hx.phase]
    exact ⟨rfl, rfl⟩
  exact hsend.bind (.pure fun _ hx => hx)

/-- What the service makes of FINISH_NOTIFIED of the client. -/
theorem handled_finish (x : Model σ × ε) (hsupported : f.supported = true) :
    f.handled pal crbFinishNotified 0 0 0 x =
      match x.1.phase with
      | .deferred reg w =>
        if reg.client = f.clientId then
          match w with
          | .locality l ctrl => (⟨.ok, 0, 0⟩,
              Model.applyCtrl { x.1 with phase := .registered reg } l ctrl, f.around.observe x.2 [])
          | .command l size cmd =>
            let answer := Model.command pal { x.1 with phase := .registered reg } l size fun i =>
              if i < size then cmd i else 0
            (answer.2, answer.1, f.around.observe x.2 [])
        else (⟨.denied, 0, 0⟩, x.1, f.around.observe x.2 [])
      | _ => (⟨.denied, 0, 0⟩, x.1, f.around.observe x.2 []) := by
  have hhandled : f.handled pal crbFinishNotified 0 0 0 x =
      ((x.1.finish pal (f.envOf crbFinishNotified 0 0 0 x.2) (f.request crbFinishNotified 0 0)).2,
        (x.1.finish pal (f.envOf crbFinishNotified 0 0 0 x.2) (f.request crbFinishNotified 0 0)).1,
        f.around.observe x.2 []) := rfl
  rw [hhandled, Model.finish, Setup.request_sender, f.envOf_supported, hsupported,
    if_neg (show ¬true = false by decide)]
  cases x.1.phase with
  | deferred reg w =>
    dsimp only
    split_ifs
    · cases w <;> rfl
    · rfl
  | _ => rfl

/-- There is no notification to finish. -/
theorem finishDenied_returns (hsupported : f.supported = true) :
    Returns f pal (At f (.registered f.registration) granted e D)
      (valTpmFinishNotified f.clientId f.tpmSpId CrbStatus.denied.code) .success
      (At f (.registered f.registration) granted e D) := by
  refine request_returns _ fun x hx => ?_
  rw [handled_finish x hsupported, hx.phase]
  exact ⟨rfl, rfl⟩

/-- The registration is what is left of a notification that has been finished. -/
theorem At.finished {w : Work} {x : Model σ × ε} (hx : At f (.deferred f.registration w) granted e D x) :
    At f (.registered f.registration) granted e D
      ({ x.1 with phase := .registered f.registration }, f.around.observe x.2 []) :=
  ⟨rfl, hx.active, hx.locSts, hx.quiet.held, hx.regs⟩

/-- The work of a deferred locality request. -/
theorem finishLocality_returns {ctrl : ℕ} (hsupported : f.supported = true) :
    Returns f pal (At f (.deferred f.registration (.locality tpmTestLocality ctrl)) granted e D)
      (valTpmFinishNotified f.clientId f.tpmSpId CrbStatus.ok.code) .success
      (At f (.registered f.registration) (grantedAfter granted ctrl) e D) := by
  refine valTpmSendAndExpect_returns fun x hx => ?_
  rw [handled_finish x hsupported, hx.phase]
  dsimp only
  rw [if_pos (show f.registration.client = f.clientId from rfl)]
  exact ⟨rfl, hx.finished.applyCtrl ctrl⟩

/-! ## Commands of the TPM -/

/-- The first bytes of the data buffer. -/
def Holds (cmd : ℕ → UInt8) (size : ℕ) (d : ℕ → UInt8) : Prop := ∀ i < size, d i = cmd i

/-- Bytes are written to the data buffer. -/
theorem copyBytes_returns {src : ℕ → UInt8} (is : List (Fin crbDataBufferSize)) (done : ℕ → Prop) :
    Returns f pal (At f φ granted e fun _ d => ∀ i, done i → d i = src i)
      (is.forM fun i => issue (.write (.data tpmTestLocality i (src i)))) ()
      (At f φ granted e fun _ d => ∀ i, (done i ∨ ∃ j ∈ is, i = j) → d i = src i) := by
  induction is generalizing done with
  | nil => exact .pure fun x hx => hx.imp fun _ d hd i hi => hd i (by simpa using hi)
  | cons i rest ih =>
    have hwrite : Returns f pal (At f φ granted e fun _ d => ∀ i, done i → d i = src i)
        (issue (.write (.data tpmTestLocality i (src i)))) ()
        (At f φ granted e fun _ d => ∀ j, (done j ∨ j = i) → d j = src j) := by
      refine .command fun x hx => ⟨rfl, hx.setRegs
        (fun regs => { regs with data := Function.update regs.data i (src i) }) (fun _ => rfl) ?_⟩
      intro regs hd j hj
      by_cases hji : j = i
      · rw [hji]
        exact Function.update_self _ _ _
      · rw [← hd j (hj.resolve_right hji)]
        exact Function.update_of_ne hji _ _
    refine hwrite.bind ((ih _).mono (fun _ hx => hx) fun x hx => hx.imp fun _ d hd j hj => hd j ?_)
    simp only [List.mem_cons, exists_eq_or_imp] at hj
    tauto

/-- A buffer is copied to the data buffer. -/
theorem copyToDataBuffer_returns {src : ℕ → UInt8} {size : ℕ} (hsize : size ≤ crbDataBufferSize) :
    Returns f pal (At f φ granted e D) (copyToDataBuffer tpmTestLocality src size) ()
      (At f φ granted e fun _ d => Holds src size d) := by
  refine (copyBytes_returns _ fun _ => False).mono (fun x hx => hx.imp fun _ _ _ _ hi => hi.elim)
    fun x hx => hx.imp fun _ d hd i hi => hd i (.inr ⟨⟨i, hi.trans_le hsize⟩, ?_, rfl⟩)
  rw [List.mem_take_iff_getElem]
  exact ⟨i, by simpa using ⟨hi, hi.trans_le hsize⟩, by simp⟩

/-- A command is in the data buffer and CTRL_START is set. -/
def Placed (cmd : ℕ → UInt8) (size c : ℕ) (d : ℕ → UInt8) : Prop := c = crbCtrlStart ∧ Holds cmd size d

/-- A command is placed. -/
theorem placeCommand_returns {cmd : ℕ → UInt8} {size : ℕ} (hsize : size ≤ crbDataBufferSize) :
    Returns f pal (At f φ granted e D) (placeCommand cmd size) () (At f φ granted e (Placed cmd size)) :=
  (copyToDataBuffer_returns hsize).bind (writeCtrlStart_returns.mono (fun _ hx => hx) fun _ hx =>
    hx.imp fun _ _ hd => ⟨hd.1, hd.2.elim fun _ h => h⟩)

/-- Bytes are read from the data buffer. -/
theorem readBytes_returns (f : Surrounded ε) (pal : Pal σ) {d : ℕ → UInt8} (is : List (Fin crbDataBufferSize))
    (dst : ℕ → UInt8) : Program.Spec (f.machine pal) (At f φ granted e fun c' d' => D c' d' ∧ d' = d)
      (readDataBuffer tpmTestLocality is dst) fun rsp x =>
        ((∀ i, (∃ j ∈ is, i = ↑j) → rsp i = d i) ∧ ∀ i, (¬∃ j ∈ is, i = ↑j) → rsp i = dst i) ∧
          At f φ granted e (fun c' d' => D c' d' ∧ d' = d) x := by
  induction is generalizing dst with
  | nil => exact .pure _ fun x hx => ⟨⟨fun i hi => by simp at hi, fun _ _ => rfl⟩, hx⟩
  | cons i rest ih =>
    refine Program.Spec.bind
      (Q := fun byte x => byte = d i ∧ At f φ granted e (fun c' d' => D c' d' ∧ d' = d) x)
      (.command fun x hx => ⟨congrFun hx.regs.2 i, hx⟩) fun byte => .assume fun hbyte => ?_
    refine (ih _).mono (fun _ hx => hx) fun rsp x hx => ⟨⟨fun j hj => ?_, fun j hj => ?_⟩, hx.2⟩
    · by_cases hrest : ∃ k ∈ rest, j = ↑k
      · exact hx.1.1 j hrest
      · have hji : j = i := by
          simp only [List.mem_cons, exists_eq_or_imp] at hj
          exact hj.resolve_right hrest
        rw [hx.1.2 j hrest, hji, Function.update_self, hbyte]
    · simp only [List.mem_cons, exists_eq_or_imp, not_or] at hj
      rw [hx.1.2 j hj.2, Function.update_of_ne hj.1]

/-- A response header in the data buffer. -/
def Answered (rc c : ℕ) (d : ℕ → UInt8) : Prop :=
  c = 0 ∧ ∃ n, valTpmValidateResponseHeader d crbDataBufferSize = some (n, rc)

/-- The header depends on its own bytes only. -/
theorem valTpmValidateResponseHeader_congr {rsp rsp' : ℕ → UInt8} (h : ∀ i < tpmRspHeaderSize, rsp' i = rsp i)
    (size : ℕ) : valTpmValidateResponseHeader rsp' size = valTpmValidateResponseHeader rsp size := by
  have hbe16 : valTpmBe16Read rsp' 0 = valTpmBe16Read rsp 0 := by
    rw [valTpmBe16Read, valTpmBe16Read, h 0 (by decide), h (0 + 1) (by decide)]
  have hbe32 (k : ℕ) (hk : k + 3 < tpmRspHeaderSize) : valTpmBe32Read rsp' k = valTpmBe32Read rsp k := by
    rw [valTpmBe32Read, valTpmBe32Read, h k (by omega), h (k + 1) (by omega), h (k + 2) (by omega),
      h (k + 3) hk]
  rw [valTpmValidateResponseHeader, valTpmValidateResponseHeader, hbe16, hbe32 2 (by decide),
    hbe32 6 (by decide)]

/-- The response is read back from the data buffer. -/
theorem readResponse_returns {rc : ℕ} :
    Program.Spec (f.machine pal) (At f φ granted e (Answered rc)) readResponse
    fun rsp x => (∃ n, rsp = some (n, rc)) ∧ At f φ granted e (Answered rc) x := by
  intro x hx
  have hread := readBytes_returns f pal (D := Answered rc) (d := (x.1.regs tpmTestLocality).data)
    (List.finRange crbDataBufferSize) (fun _ => 0) x
    ⟨hx.phase, hx.active, hx.locSts, hx.held, hx.regs, rfl⟩
  rw [readResponse, copyFromDataBuffer, Program.run_bind, Program.run_pure]
  generalize (readDataBuffer tpmTestLocality (List.finRange crbDataBufferSize) fun _ => 0).run _ x
    = r at hread ⊢
  obtain ⟨⟨hbytes, -⟩, hat⟩ := hread
  obtain ⟨n, hheader⟩ := hx.regs.2
  refine ⟨⟨n, ?_⟩, hat.imp fun _ _ hd => hd.1⟩
  rw [← hheader]
  refine valTpmValidateResponseHeader_congr (fun i hi => hbytes i ?_) crbDataBufferSize
  exact ⟨⟨i, hi.trans (by decide)⟩, List.mem_finRange _, rfl⟩

/-- Bytes of the data buffer are compared. -/
theorem tpmBufferMatches_returns {expected : ℕ → UInt8} (is : List (Fin crbDataBufferSize))
    (hD : ∀ c d, D c d → ∀ i ∈ is, d i = expected i) :
    Returns f pal (At f φ granted e D) (tpmBufferMatches expected is) .success (At f φ granted e D) := by
  induction is with
  | nil => exact .pure fun _ hx => hx
  | cons i rest ih =>
    refine Program.Spec.bind (Q := fun byte x => byte = expected i ∧ At f φ granted e D x)
      (.command fun x hx => ⟨hD _ _ hx.regs i List.mem_cons_self, hx⟩) fun byte => .assume fun hbyte => ?_
    rw [if_neg (not_not.mpr hbyte)]
    exact ih fun c d hd j hj => hD c d hd j (List.mem_cons_of_mem _ hj)

/-- The platform's TPM answers this command with this code. -/
def Responds (pal : Pal σ) (cmd : ℕ → UInt8) (size rc : ℕ) : Prop :=
  ∀ tpm buffer, Holds cmd size buffer → ∃ r, (execute pal tpm size buffer).1 = some r ∧
    tpmRspHeaderSize ≤ r.rspSize ∧ ∃ n, valTpmValidateResponseHeader r.rsp crbDataBufferSize = some (n, rc)

/-- A command that states its size. -/
def States (cmd : ℕ → UInt8) (size : ℕ) : Prop := valTpmBe32Read cmd 2 = size ∧ 6 ≤ size

/-- The service reads the size of a command from the data buffer. -/
theorem States.read {cmd buffer : ℕ → UInt8} {size : ℕ} (hcmd : States cmd size)
    (hbuffer : Holds cmd size buffer) :
    valTpmBe32Read buffer 2 = size := by
  obtain ⟨hsize, hlong⟩ := hcmd
  rw [← hsize, valTpmBe32Read, valTpmBe32Read, hbuffer 2 (by omega), hbuffer (2 + 1) (by omega),
    hbuffer (2 + 2) (by omega), hbuffer (2 + 3) (by omega)]

/-- A command has been executed. -/
theorem At.command {x : Model σ × ε} {cmd buffer : ℕ → UInt8} {size rc : ℕ} (hx : At f φ granted e D x)
    (hpal : Responds pal cmd size rc) (hbuffer : Holds cmd size buffer) :
    (x.1.command pal tpmTestLocality size buffer).2.status = .ok ∧
      At f φ granted e (Answered rc) ((x.1.command pal tpmTestLocality size buffer).1, x.2) := by
  obtain ⟨r, hr, hlong, n, hheader⟩ := hpal x.1.tpm buffer hbuffer
  refine ⟨?_, hx.phase, hx.active, ?_, hx.held, ?_⟩
  · rw [Model.command, hr]
    rfl
  · simp only [Model.command, Model.setRegs, Function.update_self, hr]
    exact hx.locSts
  · simp only [Model.command, Model.setRegs, Function.update_self, hr, Registers.published]
    refine ⟨rfl, n, ?_⟩
    rw [← hheader]
    exact valTpmValidateResponseHeader_congr (fun i hi => if_pos (hi.trans_le hlong)) _

/-- START(COMMAND) while the client is not registered. -/
theorem handled_startCommand {x : Model σ × ε} (hx : At f .unregistered granted e D x) :
    f.handled pal crbStart crbStartTypeCommand (tpmTestLocality : ℕ) 0 x =
      if x.1.Eligible tpmTestLocality then
        let answer := x.1.command pal tpmTestLocality (valTpmBe32Read (x.1.regs tpmTestLocality).data 2)
          (x.1.regs tpmTestLocality).data
        (answer.2, answer.1, f.around.observe x.2 [])
      else (⟨.ok, 0, 0⟩, x.1, f.around.observe x.2 []) := by
  have hnone (env : Env) (r : Request) : x.1.notifiable env r = none := by
    rw [Model.notifiable, hx.phase]
  rw [Surrounded.handled, handle_start _ _ _ (by decide), if_neg (by decide), if_pos rfl,
    Model.startCommand, hnone]
  split_ifs <;> rfl

/-- A command that the registers do not allow. -/
theorem sendStart_ignored (hstopped : granted = false ∨ ∀ c d, D c d → c &&& crbCtrlStart = 0) :
    Returns f pal (At f .unregistered granted e D) (sendStart f.clientId f.tpmSpId crbStartTypeCommand)
      .success (At f .unregistered granted e D) := by
  refine request_returns _ fun x hx => ?_
  have hineligible : ¬x.1.Eligible tpmTestLocality := by
    rintro ⟨-, hgranted, hstarted⟩
    rcases hstopped with hno | hno
    · rw [hx.locSts.mp hgranted] at hno
      contradiction
    · exact hstarted (hno _ _ hx.regs)
  rw [handled_startCommand hx, if_neg hineligible]
  exact ⟨rfl, rfl⟩

/-- The registers allow a command that has been placed. -/
theorem At.eligible {x : Model σ × ε} {cmd : ℕ → UInt8} {size : ℕ}
    (hx : At f φ true e (Placed cmd size) x) : x.1.Eligible tpmTestLocality := by
  refine ⟨hx.active, hx.locSts.mpr rfl, ?_⟩
  rw [hx.regs.1]
  decide

/-- A command that is executed at once. -/
theorem sendStart_executes {cmd : ℕ → UInt8} {size rc : ℕ} (hcmd : States cmd size)
    (hpal : Responds pal cmd size rc) : Returns f pal (At f .unregistered true e (Placed cmd size))
      (sendStart f.clientId f.tpmSpId crbStartTypeCommand) .success
      (At f .unregistered true e (Answered rc)) := by
  refine valTpmSendAndExpect_returns fun x hx => ?_
  rw [handled_startCommand hx, if_pos hx.eligible]
  dsimp only
  rw [hcmd.read hx.regs.2]
  exact hx.quiet.command hpal hx.regs.2

/-- A command that is deferred. -/
theorem sendStart_defers {cmd : ℕ → UInt8} {size : ℕ} (hcmd : States cmd size)
    (hsupported : f.supported = true) (hbound : e.bound = true) :
    Returns f pal (At f (.registered f.registration) true e (Placed cmd size))
      (sendStart f.clientId f.tpmSpId crbStartTypeCommand) .success fun x => ∃ buffer, Holds cmd size buffer ∧
        At f (.deferred f.registration (.command tpmTestLocality size buffer)) true e.notified
          (Placed cmd size) x := by
  refine valTpmSendAndExpect_returns fun x hx => ?_
  have hset := hx.env hbound crbStart crbStartTypeCommand (tpmTestLocality : ℕ) 0
  rw [Surrounded.handled, handle_start _ _ _ (by decide), if_neg (by decide), if_pos rfl,
    Model.startCommand]
  dsimp only
  rw [if_pos hx.eligible, notifiable_registered _ hx.phase ((f.envOf_supported ..).trans hsupported) hset,
    hcmd.read hx.regs.2]
  dsimp only
  rw [signal_notifies f.toSetup hset]
  exact ⟨rfl, _, hx.regs.2, rfl, hx.active, hx.locSts, (hx.notified hbound _).held, hx.regs⟩

/-- The work of a deferred command. -/
theorem finishCommand_returns {cmd buffer : ℕ → UInt8} {size rc : ℕ} (hbuffer : Holds cmd size buffer)
    (hpal : Responds pal cmd size rc) (hsupported : f.supported = true) :
    Returns f pal (At f (.deferred f.registration (.command tpmTestLocality size buffer)) granted e D)
      (valTpmFinishNotified f.clientId f.tpmSpId CrbStatus.ok.code) .success
      (At f (.registered f.registration) granted e (Answered rc)) := by
  refine valTpmSendAndExpect_returns fun x hx => ?_
  rw [handled_finish x hsupported, hx.phase]
  dsimp only
  rw [if_pos (show f.registration.client = f.clientId from rfl)]
  exact hx.finished.command hpal fun i hi => by rw [if_pos hi, hbuffer i hi]

end

end FfaAcs.Tpm
