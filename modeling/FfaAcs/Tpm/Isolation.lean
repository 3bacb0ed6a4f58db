import FfaAcs.Tpm.Notify

/-!
# Refused requests and foreign clients

A refused request changes nothing. A client that is not the registered one can start work of its own,
which runs the same code on the same variables as deferred work, but it cannot touch the registration
or what is deferred for it.
-/

namespace FfaAcs.Tpm

open Machine

/-- The statuses of refused requests. -/
def CrbStatus.Refuses : CrbStatus → Prop
  | .nofunc | .notsup | .invarg | .already | .denied => True
  | .ok | .okResultsReturned | .invCrbCtrlData => False

section

variable {σ : Type*} {pal : Pal σ} {env : Env} {r : Request} {s t : Service σ} {result : Result}

/-- A command is not refused, however it ends. -/
theorem commandResult_not_refuses (executed : Option Executed) :
    ¬(commandResult executed).status.Refuses := by
  cases executed <;> exact id

/-- A refused request has no effect. -/
theorem Effect.frame_of_refuses (h : Effect pal env r s t result) (hrefuses : result.status.Refuses) :
    t.active = s.active ∧ t.notif = s.notif ∧ t.mem = s.mem := by
  cases h with
  | quiet => exact ⟨rfl, rfl, rfl⟩
  | command => exact absurd hrefuses (commandResult_not_refuses _)
  | finishCommand => exact absurd hrefuses (commandResult_not_refuses _)
  | _ => exact absurd hrefuses id

variable (pal env s r)

/-- START(COMMAND) at once keeps the notification variables. -/
theorem startCommand_notif (l : ℕ) : (valTpmCrbStartCommand pal s l).1.notif = s.notif := by
  by_cases h : s.Eligible l
  · obtain ⟨size, hsize⟩ : ∃ size, size = commandSize s.mem l := ⟨_, rfl⟩
    obtain ⟨acc, heq⟩ := startCommand_eligible pal s l h hsize rfl
    rw [heq, runCommand]
  · obtain ⟨acc, heq⟩ := startCommand_not_eligible pal s l h
    rw [heq]

/-- START(LOCALITY_REQUEST) at once keeps the notification variables. -/
theorem startLocalityRequest_notif (l : ℕ) : (valTpmCrbStartLocalityRequest s l).1.notif = s.notif := by
  obtain ⟨acc, heq⟩ := startLocalityRequest_eq s l
  rw [heq]

variable {s r}

/-- Only the registered client's work is deferred. -/
theorem mayDefer_eq_false_of_ne (hclient : s.notif.client ≠ r.sender) : mayDefer s r = false := by
  simp [mayDefer, hclient]

/-- While a client is registered, requests of others keep the notification variables. -/
theorem dispatch_notif_of_foreign (hregistered : s.notif.registered = true)
    (hclient : s.notif.client ≠ r.sender) : (dispatch pal env s r).1.notif = s.notif := by
  have hmay := mayDefer_eq_false_of_ne hclient
  have hlocality : (handleStartLocality env s r).1.notif = s.notif := by
    unfold handleStartLocality
    rw [hmay, if_neg Bool.false_ne_true]
    exact startLocalityRequest_notif s _
  have hcommand : (handleStartCommand pal env s r).1.notif = s.notif := by
    unfold handleStartCommand
    rw [hmay]
    exact startCommand_notif pal s _
  have hregister : (handleRegister env s r).1.notif = s.notif := by
    unfold handleRegister
    split_ifs <;> rfl
  have hunregister : (handleUnregister env s r).1.notif = s.notif := by
    unfold handleUnregister
    rw [if_pos (Or.inr hclient)]
    split_ifs <;> rfl
  have hfinish : (handleFinish pal env s r).1.notif = s.notif := by
    unfold handleFinish
    rw [if_pos (c := s.notif.registered = false ∨ _) (Or.inr (Or.inl hclient))]
    split_ifs <;> rfl
  unfold dispatch
  split_ifs
  all_goals first | rfl | assumption

/-- The history names the client that the variables hold. -/
theorem Tracks.holds_client {φ : Phase} (h : Tracks s φ) {client : ℕ}
    (hclient : registeredClient s.events = some client) :
    s.notif.registered = true ∧ s.notif.client = client := by
  rw [h.client] at hclient
  have hholds (reg : Registration) (hreg : s.notif.Holds reg) (hname : some reg.client = some client) :
      s.notif.registered = true ∧ s.notif.client = client :=
    ⟨hreg.1, hreg.2.1.trans (Option.some.inj hname)⟩
  cases φ with
  | unregistered => exact absurd hclient nofun
  | registered reg => exact hholds reg (h.phase.holds (.inl rfl)) hclient
  | deferred reg w => exact hholds reg (h.phase.holds (.inr ⟨w, rfl⟩)) hclient

end

/-- **Refused requests change nothing, and foreign ones nothing of the registered client.** After any
run, a request that is refused leaves the active locality, the notification variables and the CRB
memory alone; and a request from any other than the client that registered last and is still
registered leaves the notification variables alone, whatever its answer. -/
theorem request_isolated {σ : Type*} (pal : Pal σ) (m : ByteMemory) (tpm : σ) (inputs : List Input)
    (env : Env) (r : Request) :
    let s := run pal (.start m tpm) inputs
    let handled := valTpmCrbServiceHandleRequest pal env s r
    (handled.2.status.Refuses → handled.1.active = s.active ∧ handled.1.notif = s.notif ∧
        handled.1.mem = s.mem) ∧
      ∀ client, registeredClient s.events = some client → r.sender ≠ client →
        handled.1.notif = s.notif := by
  obtain ⟨φ, htracks⟩ := tracks_run pal m tpm inputs
  refine ⟨(dispatch_effect pal env _ r).frame_of_refuses, ?_⟩
  intro client hclient hforeign
  obtain ⟨hregistered, hname⟩ := htracks.holds_client hclient
  exact dispatch_notif_of_foreign pal env hregistered (hname.trans_ne hforeign.symm)

end FfaAcs.Tpm
