import FfaAcs.Tpm.Notify

/-!
# Granted and the active locality

LOC_STS of a locality has Granted set exactly while the service holds the locality for active. The
service writes LOC_STS of a locality whenever it applies LOC_CTRL data for it, at once or when
deferred work is finished, and the active locality moves only then. `Reports` is stated for any
reflexive relation between the bit and the service's view, so that it also gives the half of the
property that needs nothing of the memory at the start.
-/

namespace FfaAcs.Tpm

open Machine

section

variable {m : ByteMemory} {active k l ctrl : ℕ}

/-- After LOC_CTRL data is applied, Granted of the locality says whether it is active. -/
theorem granted_applyMem_same (hl : l ≤ crbLocalityMax) :
    granted (applyMem m active l ctrl) l = decide (nextActive active l ctrl = l) := by
  rw [applyMem, nextGrant_eq hl]
  by_cases h : nextActive active l ctrl = l
  · rw [if_pos h, granted_store_locSts_same m l 1 le_rfl, decide_eq_true h, decide_eq_true rfl]
  · rw [if_neg h, granted_store_locSts_same m l 0 zero_le_one, decide_eq_false h]
    rfl

/-- Granted of the other localities is not touched. -/
theorem granted_applyMem_of_ne (h : l ≠ k) : granted (applyMem m active l ctrl) k = granted m k :=
  granted_store_locSts_of_ne m l k _ h

/-- LOC_CTRL data for one locality does not make another one active or inactive. -/
theorem nextActive_eq_iff_of_ne (hk : k ≤ crbLocalityMax) (h : l ≠ k) :
    nextActive active l ctrl = k ↔ active = k := by
  by_cases hsame : nextActive active l ctrl = active
  · rw [hsame]
  · rcases nextActive_ne hsame with ⟨hnone, hnext, -⟩ | ⟨hactive, hnext, -⟩ <;> omega

/-- A command does not touch Granted. -/
theorem granted_publishMem (executed : Option Executed) :
    granted (publishMem m l executed) k = granted m k := by
  cases executed with
  | none => rfl
  | some executed =>
    rw [publishMem, granted_store_ctrlStart, granted_blit m l k executed.fits]

end

section

variable {σ : Type*} {pal : Pal σ} {env : Env} {r : Request} {s t : Service σ} {result : Result}

/-- The LOC_CTRL data that a step may apply: that of the register, or that of deferred work. -/
inductive Applies (s : Service σ) : Input → ℕ → ℕ → Prop
  | start (env : Env) {r : Request} {l : ℕ} (h : r.Starts crbStartTypeLocalityRequest l) :
    Applies s (.request env r) l (s.mem.load (valTpmCrbLocCtrl l) 4)
  | finish (env : Env) {r : Request} (h : r.func = crbFinishNotified)
    (hvalid : s.notif.pendingLocalityValid = true) :
    Applies s (.request env r) s.notif.pendingLocality s.notif.pendingLocalityCtrl

/-- A step applies LOC_CTRL data for one locality at most. -/
theorem Applies.unique {i : Input} {l ctrl l' ctrl' : ℕ} (h : Applies s i l ctrl)
    (h' : Applies s i l' ctrl') : l = l' ∧ ctrl = ctrl' := by
  cases h with
  | start env hstart =>
    cases h' with
    | start _ hstart' =>
      obtain rfl := hstart.locality.symm.trans hstart'.locality
      exact ⟨rfl, rfl⟩
    | finish _ hfinish => exact absurd (hstart.func.symm.trans hfinish) (by decide)
  | finish env hfinish =>
    cases h' with
    | start _ hstart' => exact absurd (hstart'.func.symm.trans hfinish) (by decide)
    | finish _ _ => exact ⟨rfl, rfl⟩

/-- What a request does to the active locality and to Granted: nothing, or what the LOC_CTRL data it
applies says. -/
theorem Effect.active (h : Effect pal env r s t result) {φ : Phase} (hφ : s.notif.InPhase φ) :
    (t.active = s.active ∧ ∀ k, granted t.mem k = granted s.mem k) ∨
      ∃ l ctrl m, Applies s (.request env r) l ctrl ∧ l ≤ crbLocalityMax ∧
        t.active = nextActive s.active l ctrl ∧ t.mem = applyMem m s.active l ctrl ∧
        ∀ k, granted m k = granted s.mem k := by
  cases h with
  | locality l n sig acc hstart hphase hsig =>
    exact .inr ⟨l, _, _, .start env hstart, hstart.bound, rfl, rfl, fun k => granted_store_locCtrl ..⟩
  | command l size cmd n sig acc hstart hsize hcmd heligible hphase hsig =>
    exact .inl ⟨rfl, fun k => granted_publishMem _⟩
  | deferLocality l acc hstart hmay hsupported hset =>
    exact .inl ⟨rfl, fun k => granted_store_locCtrl ..⟩
  | finishLocality acc hfunc hregistered hclient hout hvalid =>
    exact .inr ⟨_, _, _, .finish env hfunc hvalid, hφ.pendingLocality_le hout hvalid, rfl, rfl,
      fun k => rfl⟩
  | finishCommand l size cmd acc hfunc hregistered hclient hout hinvalid hvalid hl hsize hcmd =>
    exact .inl ⟨rfl, fun k => granted_publishMem _⟩
  | _ => exact .inl ⟨rfl, fun k => rfl⟩

/-- Granted of every locality is related to whether the service holds it for active. -/
def Reports (Q : Bool → Bool → Prop) (s : Service σ) : Prop :=
  ∀ k ≤ crbLocalityMax, Q (granted s.mem k) (decide (s.active = k))

variable {Q : Bool → Bool → Prop}

/-- A request keeps the relation. -/
theorem Reports.effect (hQ : ∀ b, Q b b) (hs : Reports Q s) (h : Effect pal env r s t result)
    {φ : Phase} (hφ : s.notif.InPhase φ) : Reports Q t := by
  intro k hk
  rcases h.active hφ with ⟨hactive, hgranted⟩ | ⟨l, ctrl, m, -, hl, hactive, hmem, hgranted⟩
  · rw [hactive, hgranted]
    exact hs k hk
  · rw [hactive, hmem]
    by_cases hkl : l = k
    · subst hkl
      rw [granted_applyMem_same hl]
      exact hQ _
    · rw [granted_applyMem_of_ne hkl, hgranted, decide_eq_decide.2 (nextActive_eq_iff_of_ne hk hkl)]
      exact hs k hk

/-- A write of a client keeps the relation, because clients do not write LOC_STS. -/
theorem Reports.clientWrite (hs : Reports Q s) (w : ClientWrite) : Reports Q (s.clientWrite w) := by
  intro k hk
  cases w with
  | locCtrl l v =>
    rw [Service.clientWrite, granted_store_locCtrl]
    exact hs k hk
  | ctrlStart l v =>
    rw [Service.clientWrite, granted_store_ctrlStart]
    exact hs k hk
  | data l i b =>
    rw [Service.clientWrite, granted_poke s.mem l k i.isLt]
    exact hs k hk

/-- A relation that holds at the start holds after every run. -/
theorem reports_run (hQ : ∀ b, Q b b) (pal : Pal σ) {m : ByteMemory} (tpm : σ)
    (hstart : Reports Q (Service.start m tpm)) (inputs : List Input) :
    Reports Q (run pal (.start m tpm) inputs) := by
  refine run_induction (P := fun _ s => Reports Q s) hstart ?_ ?_ inputs
  · intro pre s w _ hs
    exact hs.clientWrite w
  · rintro pre s env r t result rfl hs heffect
    obtain ⟨φ, hφ⟩ := tracks_run pal m tpm pre
    have ht : Reports Q t := hs.effect hQ heffect hφ.phase
    exact ht

/-- A step changes the active locality only by the LOC_CTRL data it applies. -/
theorem step_active (pal : Pal σ) {φ : Phase} (hφ : s.notif.InPhase φ) (i : Input) :
    (step pal s i).active = s.active ∨
      ∃ l ctrl, Applies s i l ctrl ∧ (step pal s i).active = nextActive s.active l ctrl := by
  cases i with
  | write w => cases w <;> exact .inl rfl
  | request env r =>
    rcases (dispatch_effect pal env s r).active hφ with ⟨hactive, -⟩ | ⟨l, ctrl, -, h, -, hactive, -⟩
    · exact .inl hactive
    · exact .inr ⟨l, ctrl, h, hactive⟩

/-- LOC_CTRL data for a locality, requestAccess included, does not change the active locality while
another one is active. -/
theorem step_active_of_other {φ : Phase} (hφ : s.notif.InPhase φ) {i : Input} {l ctrl : ℕ}
    (h : Applies s i l ctrl) (hactive : s.active ≤ crbLocalityMax) (hother : s.active ≠ l) :
    (step pal s i).active = s.active := by
  rcases step_active pal hφ i with hsame | ⟨l', ctrl', h', hnext⟩
  · exact hsame
  · obtain ⟨rfl, rfl⟩ := h.unique h'
    rw [hnext]
    by_contra hne
    rcases nextActive_ne hne with ⟨hnone, -⟩ | ⟨hsame, -⟩ <;> omega

/-- The active locality is released only by a relinquish for it. -/
theorem step_releases {φ : Phase} (hφ : s.notif.InPhase φ) {i : Input}
    (hactive : s.active ≤ crbLocalityMax) (hne : (step pal s i).active ≠ s.active) :
    (step pal s i).active = crbLocalityMax + 1 ∧
      ∃ ctrl, Applies s i s.active ctrl ∧ ctrl &&& locCtrlValidMask = locCtrlRelinquish := by
  rcases step_active pal hφ i with hsame | ⟨l, ctrl, h, hnext⟩
  · exact absurd hsame hne
  · rw [hnext] at hne ⊢
    rcases nextActive_ne hne with ⟨hnone, -⟩ | ⟨hl, hreleased, hctrl⟩
    · omega
    · subst hl
      exact ⟨hreleased, ctrl, h, (ctrl_bits ctrl).1.trans hctrl⟩

/-- The localities of the service: Granted says which one is active, so one at most; LOC_CTRL data
for another locality does not change the active one, and only a relinquish releases it. -/
structure LocalitySound (pal : Pal σ) (s : Service σ) : Prop where
  granted_iff : ∀ l ≤ crbLocalityMax, granted s.mem l = true ↔ s.active = l
  granted_unique : ∀ k ≤ crbLocalityMax, ∀ l ≤ crbLocalityMax,
    granted s.mem k = true → granted s.mem l = true → k = l
  keeps : ∀ i l ctrl, Applies s i l ctrl → s.active ≤ crbLocalityMax → s.active ≠ l →
    (step pal s i).active = s.active
  releases : ∀ i, s.active ≤ crbLocalityMax → (step pal s i).active ≠ s.active →
    (step pal s i).active = crbLocalityMax + 1 ∧
      ∃ ctrl, Applies s i s.active ctrl ∧ ctrl &&& locCtrlValidMask = locCtrlRelinquish

/-- **Granted is set for the active locality and for no other, after every run.** -/
theorem localities_of_run (pal : Pal σ) (m : ByteMemory) (tpm : σ)
    (hclear : ∀ l ≤ crbLocalityMax, granted m l = false) (inputs : List Input) :
    LocalitySound pal (run pal (.start m tpm) inputs) := by
  have hstart : Reports (· = ·) (Service.start m tpm) := by
    intro k hk
    have hnone : crbLocalityMax + 1 ≠ k := by omega
    exact (hclear k hk).trans (decide_eq_false hnone).symm
  have hreports := reports_run (fun _ => rfl) pal tpm hstart inputs
  obtain ⟨φ, hφ⟩ := tracks_run pal m tpm inputs
  have hgranted : ∀ l ≤ crbLocalityMax,
      granted (run pal (.start m tpm) inputs).mem l = true ↔
        (run pal (.start m tpm) inputs).active = l := by
    intro l hl
    rw [hreports l hl, decide_eq_true_eq]
  refine ⟨hgranted, ?_, ?_, ?_⟩
  · intro k hk l hl hgk hgl
    exact ((hgranted k hk).1 hgk).symm.trans ((hgranted l hl).1 hgl)
  · intro i l ctrl h hactive hother
    exact step_active_of_other hφ.phase h hactive hother
  · intro i hactive hne
    exact step_releases hφ.phase hactive hne

/-- The CRB memory after a reset. -/
def zeroCrb : ByteMemory := fun _ => 0

/-- A TPM that answers every command with ten zero bytes. -/
def zeroPal : Pal Unit := fun _ _ _ => (⟨true, some fun _ => 0, 10⟩, ())

/-- A direct request from endpoint 2 to the service with identifier 1. -/
def requestTo (func arg5 arg6 : ℕ) : Request := ⟨ffaMsgSendDirectReq64, 0x20001, func, arg5, arg6⟩

/-- Notifications are supported, the relayer accepts them, and a shift takes its count modulo 64. -/
def signalling : Env := ⟨true, true, false, 1⟩

/-- A client asks for locality 3 and gets it. -/
theorem localities_of_request_access :
    (run zeroPal (.start zeroCrb ()) [.write (.locCtrl 3 1),
      .request signalling (requestTo crbStart crbStartTypeLocalityRequest 3)]).active = 3 ∧
    LocalitySound zeroPal (run zeroPal (.start zeroCrb ()) [.write (.locCtrl 3 1),
      .request signalling (requestTo crbStart crbStartTypeLocalityRequest 3)]) :=
  ⟨by decide +kernel, localities_of_run zeroPal zeroCrb () (by decide) _⟩

end

end FfaAcs.Tpm
