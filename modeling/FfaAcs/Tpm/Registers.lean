import FfaAcs.Tpm.Client

/-!
# The TPM service as its clients see it

What the service is for, without its memory, its variables and its record of accesses: five localities
with their registers, at most one of them active, a client that may be registered for notifications and
may have work that waits for it, and a TPM. No program of a client can tell the service from this model,
whatever surrounds them.
-/

namespace FfaAcs.Tpm

open Machine

/-! ## The model -/

/-- The registers and the data buffer of a locality. -/
@[ext] structure Registers where
  locCtrl : ℕ
  locSts : ℕ
  ctrlStart : ℕ
  data : ℕ → UInt8

/-- The registers once a command with this outcome has been executed. -/
def Registers.published (regs : Registers) : Option Executed → Registers
  | none => regs
  | some r => { regs with
      ctrlStart := 0
      data := fun i => if i < r.rspSize then r.rsp i else regs.data i }

/-- The state of the model. -/
structure Model (σ : Type) where
  active : Option Locality
  phase : Phase
  regs : Locality → Registers
  tpm : σ

namespace Model

variable {σ : Type}

/-- Change the registers of a locality. -/
def setRegs (a : Model σ) (l : Locality) (f : Registers → Registers) : Model σ :=
  { a with regs := Function.update a.regs l (f (a.regs l)) }

/-- A write of a client. -/
def write (a : Model σ) : ClientWrite → Model σ
  | .locCtrl l v => a.setRegs l fun regs => { regs with locCtrl := wrap32 v }
  | .ctrlStart l v => a.setRegs l fun regs => { regs with ctrlStart := wrap32 v }
  | .data l i b => a.setRegs l fun regs => { regs with data := Function.update regs.data i b }

/-- The active locality once LOC_CTRL data `ctrl` of `l` has been applied. -/
def nextHolder (active : Option Locality) (l : Locality) (ctrl : ℕ) : Option Locality :=
  if ctrl % 2 = 1 then if active = none then some l else active
  else if ctrl % 4 = locCtrlRelinquish ∧ active = some l then none
  else active

/-- Apply LOC_CTRL data. -/
def applyCtrl (a : Model σ) (l : Locality) (ctrl : ℕ) : Model σ :=
  { a.setRegs l fun regs => { regs with
      locSts := if nextHolder a.active l ctrl = some l then 1 else 0 } with
    active := nextHolder a.active l ctrl }

/-- Execute a command of a locality. -/
def command (pal : Pal σ) (a : Model σ) (l : Locality) (size : ℕ) (cmd : ℕ → UInt8) : Model σ × Result :=
  ({ a.setRegs l fun regs => regs.published (execute pal a.tpm size cmd).1 with
      tpm := (execute pal a.tpm size cmd).2 },
    commandResult (execute pal a.tpm size cmd).1)

/-- The registration of a client whose request may wait until it has been notified. -/
def notifiable (env : Env) (a : Model σ) (r : Request) : Option Registration :=
  match a.phase with
  | .registered reg =>
    if reg.client = r.sender ∧ reg.service = r.receiver ∧ env.notifSupported ∧ env.setSucceeds then some reg
    else none
  | _ => none

/-- The call that notifies a registered client. -/
def signal (env : Env) (reg : Registration) : Event :=
  signalEvent env { Notification.cleared with id := reg.id } reg.client reg.service

/-- An answer without a notification. -/
def quietly (answer : Model σ × Result) : Model σ × Result × List Event := (answer.1, answer.2, [])

/-- START(LOCALITY_REQUEST). LOC_CTRL is taken in any case. -/
def startLocality (env : Env) (a : Model σ) (r : Request) (l : Locality) : Model σ × Result × List Event :=
  let ctrl := (a.regs l).locCtrl
  let b := a.setRegs l fun regs => { regs with locCtrl := 0 }
  match a.notifiable env r with
  | some reg => ({ b with phase := .deferred reg (.locality l ctrl) }, ⟨.ok, 0, 0⟩, [signal env reg])
  | none => (b.applyCtrl l ctrl, ⟨.ok, 0, 0⟩, [])

/-- A locality whose command can be executed now. -/
def Eligible (a : Model σ) (l : Locality) : Prop :=
  a.active = some l ∧ (a.regs l).locSts &&& locStsGranted ≠ 0 ∧ (a.regs l).ctrlStart &&& crbCtrlStart ≠ 0

instance (a : Model σ) (l : Locality) : Decidable (a.Eligible l) := inferInstanceAs (Decidable (_ ∧ _))

/-- START(COMMAND). -/
def startCommand (pal : Pal σ) (env : Env) (a : Model σ) (r : Request) (l : Locality) :
    Model σ × Result × List Event :=
  let cmd := (a.regs l).data
  let size := valTpmBe32Read cmd 2
  if a.Eligible l then
    match a.notifiable env r with
    | some reg => ({ a with phase := .deferred reg (.command l size cmd) }, ⟨.ok, 0, 0⟩, [signal env reg])
    | none => quietly (a.command pal l size cmd)
  else (a, ⟨.ok, 0, 0⟩, [])

/-- START. -/
def start (pal : Pal σ) (env : Env) (a : Model σ) (r : Request) : Model σ × Result × List Event :=
  if h : r.arg5 ≤ 0xff ∧ r.arg6 ≤ crbLocalityMax then
    let l : Locality := ⟨r.arg6, Nat.lt_succ_of_le h.2⟩
    if r.arg5 = crbStartTypeLocalityRequest then a.startLocality env r l
    else if r.arg5 = crbStartTypeCommand then a.startCommand pal env r l
    else quietly (a, ⟨.invarg, 0, 0⟩)
  else quietly (a, ⟨.invarg, 0, 0⟩)

/-- REGISTER_NOTIFICATION. -/
def register (env : Env) (a : Model σ) (r : Request) : Model σ × Result :=
  if r.arg5 ≠ 0 ∨ r.arg6 > crbNotificationIdMask then (a, ⟨.invarg, 0, 0⟩)
  else if env.notifSupported = false then (a, ⟨.notsup, 0, 0⟩)
  else
    match a.phase with
    | .unregistered => ({ a with phase := .registered ⟨r.sender, r.receiver, r.arg6⟩ }, ⟨.ok, 0, 0⟩)
    | _ => (a, ⟨.already, 0, 0⟩)

/-- UNREGISTER_NOTIFICATION. -/
def unregister (env : Env) (a : Model σ) (r : Request) : Model σ × Result :=
  if env.notifSupported = false then (a, ⟨.notsup, 0, 0⟩)
  else
    match a.phase with
    | .registered reg =>
      if reg.client = r.sender then ({ a with phase := .unregistered }, ⟨.ok, 0, 0⟩)
      else (a, ⟨.denied, 0, 0⟩)
    | _ => (a, ⟨.denied, 0, 0⟩)

/-- FINISH_NOTIFIED: do what waits for the client. -/
def finish (pal : Pal σ) (env : Env) (a : Model σ) (r : Request) : Model σ × Result :=
  if env.notifSupported = false then (a, ⟨.notsup, 0, 0⟩)
  else
    match a.phase with
    | .deferred reg w =>
      if reg.client = r.sender then
        let b := { a with phase := .registered reg }
        match w with
        | .locality l ctrl => (b.applyCtrl l ctrl, ⟨.ok, 0, 0⟩)
        | .command l size cmd => b.command pal l size fun i => if i < size then cmd i else 0
      else (a, ⟨.denied, 0, 0⟩)
    | _ => (a, ⟨.denied, 0, 0⟩)

/-- Handle a request. -/
def handle (pal : Pal σ) (env : Env) (a : Model σ) (r : Request) : Model σ × Result × List Event :=
  if r.func = crbGetInterfaceVersion then quietly (a, ⟨.okResultsReturned, crbServiceVersion, 0⟩)
  else if r.func = crbGetFeatureInfo then
    if wrap32 r.arg5 = crbFeatureNotification then
      quietly (a, ⟨if env.notifSupported then .ok else .notsup, 0, 0⟩)
    else quietly (a, ⟨.invarg, 0, 0⟩)
  else if r.func = crbStart then a.start pal env r
  else if r.func = crbRegisterNotification then quietly (a.register env r)
  else if r.func = crbUnregisterNotification then quietly (a.unregister env r)
  else if r.func = crbFinishNotified then quietly (a.finish pal env r)
  else quietly (a, ⟨.nofunc, 0, 0⟩)

/-- The model as its clients see it. -/
def machine (pal : Pal σ) : ServiceMachine (Model σ) where
  write := write
  locSts a l := (a.regs l).locSts
  ctrlStart a l := (a.regs l).ctrlStart
  data a l i := (a.regs l).data i
  request env a r :=
    let answer := a.handle pal env r
    (answer.1, respond r answer.2.1, answer.2.2)

end Model

/-! ## The registers in memory -/

/-- The registers of a locality in the CRB memory. -/
def regsOf (m : ByteMemory) (l : Locality) : Registers :=
  ⟨m.load (valTpmCrbLocCtrl l) 4, m.load (valTpmCrbLocSts l) 4, m.load (valTpmCrbCtrlStart l) 4, commandIn m l⟩

section

variable {m : ByteMemory} {l : Locality}

/-- The data buffer as far as memory has not changed. -/
theorem commandIn_congr {m' : ByteMemory} {k : Locality}
    (h : ∀ x, valTpmCrbDataBuffer k ≤ x → x < valTpmCrbDataBuffer k + crbDataBufferSize → m' x = m x) :
    commandIn m' k = commandIn m k := by
  funext i
  unfold commandIn mmioBytes
  split_ifs with hi
  · exact h _ (by omega) (by omega)
  · rfl

/-- A change in the page of a locality leaves the registers of all others alone. -/
theorem regsOf_eq_update {m' : ByteMemory} {regs : Registers} (hsame : regsOf m' l = regs)
    (hother : ∀ x, x < valTpmCrbLocalityBase l ∨ valTpmCrbLocalityBase l + crbLocalitySize ≤ x → m' x = m x) :
    regsOf m' = Function.update (regsOf m) l regs := by
  funext k
  by_cases hk : k = l
  · rw [hk, hsame, Function.update_self]
  · have hne : (k : ℕ) ≠ l := fun heq => hk (Fin.ext heq)
    have haddr := crb_addresses k
    have hpage : valTpmCrbLocalityBase l = crbBase + l * 4096 := rfl
    have hsize : crbLocalitySize = 4096 ∧ crbDataBufferSize = 1024 := ⟨rfl, rfl⟩
    have hpages : ∀ x, crbBase + k * 4096 ≤ x → x < crbBase + k * 4096 + 4096 → m' x = m x :=
      fun x hlow hhigh => hother x (by omega)
    rw [Function.update_of_ne hk]
    exact Registers.ext (ByteMemory.load_congr fun x _ _ => hpages x (by omega) (by omega))
      (ByteMemory.load_congr fun x _ _ => hpages x (by omega) (by omega))
      (ByteMemory.load_congr fun x _ _ => hpages x (by omega) (by omega))
      (commandIn_congr fun x _ _ => hpages x (by omega) (by omega))

/-- A store to one of the three registers. -/
theorem regsOf_store {offset v : ℕ} (hoffset : offset = 0x008 ∨ offset = 0x00c ∨ offset = 0x04c) :
    regsOf (m.store (valTpmCrbLocalityBase l + offset) 4 v) = Function.update (regsOf m) l
      { regsOf m l with
        locCtrl := if offset = 0x008 then wrap32 v else (regsOf m l).locCtrl
        locSts := if offset = 0x00c then wrap32 v else (regsOf m l).locSts
        ctrlStart := if offset = 0x04c then wrap32 v else (regsOf m l).ctrlStart } := by
  have haddr := crb_addresses l
  have hpage : valTpmCrbLocalityBase l = crbBase + l * 4096 := rfl
  have hsize : crbLocalitySize = 4096 ∧ crbDataBufferSize = 1024 := ⟨rfl, rfl⟩
  have hread {a : ℕ} (ha : a = 0x008 ∨ a = 0x00c ∨ a = 0x04c) :
      (m.store (valTpmCrbLocalityBase l + offset) 4 v).load (valTpmCrbLocalityBase l + a) 4 =
        if offset = a then wrap32 v else m.load (valTpmCrbLocalityBase l + a) 4 := by
    split_ifs with heq
    · rw [heq]
      exact ByteMemory.load_store_same m _ _ _
    · exact ByteMemory.load_store_apart m (by omega)
  refine regsOf_eq_update (Registers.ext (hread (.inl rfl)) (hread (.inr (.inl rfl)))
    (hread (.inr (.inr rfl))) ?_) fun x hx => ByteMemory.store_outside m (by omega)
  exact commandIn_congr fun x _ _ => ByteMemory.store_outside m (by omega)

/-- A write to LOC_CTRL of a locality changes that register alone. -/
theorem regsOf_store_locCtrl (v : ℕ) : regsOf (m.store (valTpmCrbLocCtrl l) 4 v) =
    Function.update (regsOf m) l { regsOf m l with locCtrl := wrap32 v } :=
  regsOf_store (.inl rfl)

/-- A write to LOC_STS of a locality changes that register alone. -/
theorem regsOf_store_locSts (v : ℕ) : regsOf (m.store (valTpmCrbLocSts l) 4 v) =
    Function.update (regsOf m) l { regsOf m l with locSts := wrap32 v } :=
  regsOf_store (.inr (.inl rfl))

/-- A write to CTRL_START of a locality changes that register alone. -/
theorem regsOf_store_ctrlStart (v : ℕ) : regsOf (m.store (valTpmCrbCtrlStart l) 4 v) =
    Function.update (regsOf m) l { regsOf m l with ctrlStart := wrap32 v } :=
  regsOf_store (.inr (.inr rfl))

/-- A change inside the data buffer. -/
theorem regsOf_blit {n : ℕ} {f : ℕ → UInt8} (hn : n ≤ crbDataBufferSize) :
    regsOf (m.blit (valTpmCrbDataBuffer l) n f) = Function.update (regsOf m) l
      { regsOf m l with data := fun i => if i < n then f i else (regsOf m l).data i } := by
  have haddr := crb_addresses l
  have hpage : valTpmCrbLocalityBase l = crbBase + l * 4096 := rfl
  have hsize : crbLocalitySize = 4096 ∧ crbDataBufferSize = 1024 := ⟨rfl, rfl⟩
  refine regsOf_eq_update (Registers.ext ?_ ?_ ?_ ?_) fun x hx => ByteMemory.blit_outside m (by omega)
  · exact ByteMemory.load_blit_apart m (by omega)
  · exact ByteMemory.load_blit_apart m (by omega)
  · exact ByteMemory.load_blit_apart m (by omega)
  · funext i
    dsimp only [regsOf, commandIn, mmioBytes]
    by_cases hi : i < crbDataBufferSize
    · rw [if_pos hi, if_pos hi]
      by_cases hlt : i < n
      · rw [if_pos hlt, ByteMemory.blit, if_pos (by omega), Nat.add_sub_cancel_left]
      · rw [if_neg hlt, ByteMemory.blit_outside m (by omega)]
    · rw [if_neg hi, if_neg (by omega), if_neg hi]

/-- A poke into the data buffer is a replacement of one byte. -/
theorem regsOf_poke (i : Fin crbDataBufferSize) (b : UInt8) :
    regsOf (m.poke (valTpmCrbDataBuffer l + i) b) = Function.update (regsOf m) l
      { regsOf m l with data := Function.update (regsOf m l).data i b } := by
  have haddr := crb_addresses l
  have hpage : valTpmCrbLocalityBase l = crbBase + l * 4096 := rfl
  have hsize : crbLocalitySize = 4096 ∧ crbDataBufferSize = 1024 := ⟨rfl, rfl⟩
  have hi := i.isLt
  refine regsOf_eq_update (Registers.ext ?_ ?_ ?_ ?_) fun x hx => ByteMemory.poke_of_ne m (by omega)
  · exact ByteMemory.load_poke_apart m (by omega)
  · exact ByteMemory.load_poke_apart m (by omega)
  · exact ByteMemory.load_poke_apart m (by omega)
  · funext j
    by_cases hj : j = i
    · simp [regsOf, commandIn, mmioBytes, hj]
    · simp only [regsOf, commandIn, mmioBytes, Function.update_of_ne hj]
      split_ifs
      · exact ByteMemory.poke_of_ne m (by omega)
      · rfl

end

/-! ## The service and the model -/

section

variable {σ : Type} {s t : Service σ} {a b : Model σ} {pal : Pal σ} {env : Env} {r : Request} {l : Locality}

/-- The number that the service has for the active locality. -/
def activeNumber : Option Locality → ℕ
  | none => crbLocalityMax + 1
  | some l => l

/-- The variable has the number of a locality exactly if that one is active. -/
theorem activeNumber_eq_iff (x : Option Locality) (l : Locality) : activeNumber x = l ↔ x = some l := by
  have hl := l.isLt
  cases x with
  | none =>
    simp only [activeNumber, reduceCtorEq, iff_false]
    omega
  | some k =>
    simp only [activeNumber, Option.some.injEq]
    exact Fin.val_inj

/-- The variable has a number that is no locality's exactly if none is active. -/
theorem activeNumber_gt_iff (x : Option Locality) : activeNumber x > crbLocalityMax ↔ x = none := by
  cases x with
  | none => simp [activeNumber]
  | some k =>
    have hk := k.isLt
    simp only [activeNumber, reduceCtorEq, iff_false]
    omega

/-- Applying LOC_CTRL data gives the active locality of the model. -/
theorem nextActive_activeNumber (x : Option Locality) (l : Locality) (ctrl : ℕ) :
    nextActive (activeNumber x) l ctrl = activeNumber (Model.nextHolder x l ctrl) := by
  have hrelinquish : locCtrlRelinquish = 2 := rfl
  have heq := activeNumber_eq_iff x l
  simp only [nextActive, Model.nextHolder, ctrl_bits, activeNumber_gt_iff, heq]
  by_cases hnone : x = none
  · subst hnone
    by_cases hodd : ctrl % 2 = 1
    · simp [hodd, activeNumber, show ctrl % 4 ≠ 0 by omega]
    · simp [hodd]
  · by_cases hsome : x = some l
    · subst hsome
      by_cases hodd : ctrl % 2 = 1
      · simp [hodd, activeNumber]
      · by_cases hzero : ctrl % 4 = 0
        · simp [hodd, hzero, hrelinquish]
        · simp [hodd, show ctrl % 4 = 2 by omega, hrelinquish, activeNumber]
    · simp [hnone, hsome]

/-- The model has the state of the service. -/
structure Represents (s : Service σ) (a : Model σ) : Prop where
  active : s.active = activeNumber a.active
  phase : s.notif.InPhase a.phase
  regs : regsOf s.mem = a.regs
  tpm : s.tpm = a.tpm

namespace Represents

/-- A change of the registers of one locality. -/
theorem setRegs (h : Represents s a) {f : Registers → Registers} (hactive : t.active = s.active)
    (hnotif : t.notif = s.notif) (htpm : t.tpm = s.tpm)
    (hregs : regsOf t.mem = Function.update (regsOf s.mem) l (f (regsOf s.mem l))) :
    Represents t (a.setRegs l f) :=
  ⟨hactive.trans h.active, hnotif ▸ h.phase, by rw [hregs, h.regs, Model.setRegs], htpm.trans h.tpm⟩

/-- A write of the client keeps the representation. -/
theorem write (h : Represents s a) (w : ClientWrite) : Represents (s.clientWrite w) (a.write w) := by
  cases w with
  | locCtrl l v =>
    exact setRegs (f := fun regs => { regs with locCtrl := wrap32 v }) h rfl rfl rfl (regsOf_store_locCtrl v)
  | ctrlStart l v =>
    exact setRegs (f := fun regs => { regs with ctrlStart := wrap32 v }) h rfl rfl rfl
      (regsOf_store_ctrlStart v)
  | data l i b =>
    exact setRegs (f := fun regs => { regs with data := Function.update regs.data i b }) h rfl rfl rfl
      (regsOf_poke i b)

/-- The variables enter another phase. -/
theorem enter (h : Represents s a) {φ : Phase} (hactive : t.active = s.active) (hmem : t.mem = s.mem)
    (htpm : t.tpm = s.tpm) (hphase : t.notif.InPhase φ) : Represents t { a with phase := φ } :=
  ⟨hactive.trans h.active, hphase, hmem ▸ h.regs, htpm.trans h.tpm⟩

/-- LOC_CTRL data is applied. -/
theorem applyCtrl (h : Represents s a) {ctrl : ℕ} (hactive : t.active = nextActive s.active l ctrl)
    (hmem : t.mem = applyMem s.mem s.active l ctrl) (hphase : t.notif.InPhase a.phase)
    (htpm : t.tpm = s.tpm) : Represents t (a.applyCtrl l ctrl) := by
  have hnext : nextActive s.active l ctrl = activeNumber (Model.nextHolder a.active l ctrl) := by
    rw [h.active, nextActive_activeNumber]
  refine ⟨hactive.trans hnext, hphase, ?_, htpm.trans h.tpm⟩
  have hgrant : wrap32 (nextGrant s.active l ctrl) =
      if Model.nextHolder a.active l ctrl = some l then 1 else 0 := by
    rw [nextGrant_eq (Nat.le_of_lt_succ l.isLt), hnext]
    simp only [activeNumber_eq_iff]
    split_ifs <;> rfl
  rw [hmem, applyMem, regsOf_store_locSts, hgrant, h.regs]
  rfl

/-- A command is executed, and the variables enter a phase. -/
theorem command (h : Represents s a) (pal : Pal σ) (l : Locality) (size : ℕ) (cmd : ℕ → UInt8)
    {n : Notification} {φ : Phase} (hphase : n.InPhase φ) (acc : List Access) :
    Represents { runCommand pal s l size cmd with notif := n, accesses := acc }
      (Model.command pal { a with phase := φ } l size cmd).1 := by
  rw [runCommand, h.tpm]
  refine ⟨h.active, hphase, ?_, rfl⟩
  simp only [Model.command, Model.setRegs, ← h.regs]
  cases (execute pal a.tpm size cmd).1 with
  | none => exact (Function.update_eq_self l _).symm
  | some r =>
    rw [publishMem, regsOf_store_ctrlStart, regsOf_blit r.fits, Function.update_self,
      Function.update_idem]
    rfl

end Represents

/-! ## Requests -/

/-- An answer of the service that started from `s`, and one of the model. -/
structure Agrees (s : Service σ) (got : Service σ × Result) (want : Model σ × Result × List Event) :
    Prop where
  state : Represents got.1 want.1
  result : got.2 = want.2.1
  events : ∃ es, got.1.events = s.events ++ es ∧ notifications es = want.2.2

/-- An answer that leaves the events alone. -/
theorem Agrees.quiet {got : Service σ × Result} {want : Model σ × Result}
    (hstate : Represents got.1 want.1) (hresult : got.2 = want.2) (hevents : got.1.events = s.events) :
    Agrees s got (Model.quietly want) :=
  ⟨hstate, hresult, [], by rw [hevents, List.append_nil], rfl⟩

/-- The flag is set in every phase but the unregistered one. -/
theorem registered_of_inPhase {n : Notification} {φ : Phase} (h : n.InPhase φ) :
    n.registered = true ↔ φ ≠ .unregistered := by
  cases φ with
  | unregistered =>
    rw [Notification.InPhase] at h
    simp [h, Notification.cleared]
  | registered reg => exact iff_of_true h.1.1 (by simp)
  | deferred reg w =>
    refine iff_of_true ?_ (by simp)
    cases w <;> exact h.1.1

/-- REGISTER_NOTIFICATION of the service is that of the model. -/
theorem handleRegister_agrees (h : Represents s a) :
    Agrees s (handleRegister env s r) (Model.quietly (a.register env r)) := by
  have hargs : (r.arg5 > 0x1ffff ∨ r.arg6 > crbNotificationIdMask ∨
      wrap32 r.arg5 / 2 ^ 16 ≠ crbNotificationTypeGlobal ∨ wrap32 r.arg5 % 2 ^ 16 ≠ 0) ↔
        (r.arg5 ≠ 0 ∨ r.arg6 > crbNotificationIdMask) := by
    rw [wrap32, crbNotificationTypeGlobal]
    omega
  unfold handleRegister Model.register
  simp only [hargs]
  split_ifs with hbad hsupported hregistered
  · exact .quiet h rfl rfl
  · exact .quiet h rfl rfl
  · have hphase := (registered_of_inPhase h.phase).mp hregistered
    cases hφ : a.phase with
    | unregistered => exact absurd hφ hphase
    | registered reg => exact .quiet h rfl rfl
    | deferred reg w => exact .quiet h rfl rfl
  · have hphase : a.phase = .unregistered := by
      by_contra hne
      exact hregistered ((registered_of_inPhase h.phase).mpr hne)
    have hcleared : s.notif = .cleared := by
      have hin := h.phase
      rwa [hphase] at hin
    rw [not_or, not_lt] at hbad
    have hid : wrap32 r.arg6 = r.arg6 := wrap32_of_lt (hbad.2.trans_lt (by decide))
    simp only [hphase]
    refine .quiet (h.enter rfl rfl rfl ?_) rfl rfl
    simp only [Notification.InPhase, Notification.Holds, hid, hcleared, Notification.cleared, and_self]

/-- UNREGISTER_NOTIFICATION of the service is that of the model. -/
theorem handleUnregister_agrees (h : Represents s a) :
    Agrees s (handleUnregister env s r) (Model.quietly (a.unregister env r)) := by
  unfold handleUnregister Model.unregister
  by_cases hsupported : env.notifSupported = false
  · rw [if_pos hsupported, if_pos hsupported]
    exact .quiet h rfl rfl
  rw [if_neg hsupported, if_neg hsupported]
  have hphase := h.phase
  cases hφ : a.phase with
  | unregistered =>
    rw [hφ, Notification.InPhase] at hphase
    simp only [hphase, Notification.cleared, true_or, if_true]
    exact .quiet h rfl rfl
  | registered reg =>
    rw [hφ] at hphase
    obtain ⟨⟨hregistered, hclient, -⟩, hdone, -⟩ := hphase
    simp only [hregistered, hclient, hdone]
    by_cases hsender : reg.client = r.sender
    · simp only [hsender, Bool.true_eq_false, ne_eq, not_true_eq_false, or_self, if_false, if_true,
        Bool.false_eq_true]
      exact .quiet (h.enter rfl rfl rfl rfl) rfl rfl
    · simp only [hsender, ne_eq, not_false_eq_true, or_true, if_true, if_false]
      exact .quiet h rfl rfl
  | deferred reg w =>
    have hout : s.notif.registered = true ∧ s.notif.outstanding = true := by
      rw [hφ] at hphase
      cases w <;> exact ⟨hphase.1.1, hphase.2.1⟩
    simp only [hout.1, hout.2, Bool.true_eq_false, false_or, if_true]
    split_ifs <;> exact .quiet h rfl rfl

/-- The record of a command has no notification in it. -/
theorem notifications_executeEvents (m : ByteMemory) (active l size : ℕ) :
    notifications (executeEvents m active l size) = [] := by
  unfold executeEvents
  split_ifs <;> rfl

/-- The record of a command in the record of the service. -/
theorem runCommand_events (s : Service σ) (pal : Pal σ) (l size : ℕ) (cmd : ℕ → UInt8) :
    (runCommand pal s l size cmd).events = s.events ++ executeEvents s.mem s.active l size := by
  rw [runCommand]

/-- A command is executed, after other events that are no notifications. -/
theorem runCommand_agrees (pal : Pal σ) (h : Represents t a) (l : Locality) (size : ℕ) (cmd : ℕ → UInt8)
    {n : Notification} {φ : Phase} (hphase : n.InPhase φ) (acc : List Access) {es : List Event}
    (hevents : t.events = s.events ++ es) (hes : notifications es = []) :
    Agrees s ({ runCommand pal t l size cmd with notif := n, accesses := acc },
      commandResult (execute pal t.tpm size cmd).1)
      (Model.quietly (Model.command pal { a with phase := φ } l size cmd)) := by
  have hstate := h.command pal l size cmd hphase acc
  have hrecord := runCommand_events t pal l size cmd
  have hresult : commandResult (execute pal t.tpm size cmd).1 =
      (Model.command pal { a with phase := φ } l size cmd).2 :=
    congrArg (fun tpm => commandResult (execute pal tpm size cmd).1) h.tpm
  rw [hresult]
  generalize Model.command pal { a with phase := φ } l size cmd = answer at hstate
  generalize runCommand pal t l size cmd = u at hstate hrecord
  refine ⟨hstate, rfl, es ++ executeEvents t.mem t.active l size, ?_, ?_⟩
  · rw [← List.append_assoc, ← hevents]
    exact hrecord
  · rw [notifications, List.filter_append]
    exact congrArg₂ (· ++ ·) hes (notifications_executeEvents t.mem t.active l size)

/-- FINISH_NOTIFIED of the service is that of the model. -/
theorem handleFinish_agrees (h : Represents s a) :
    Agrees s (handleFinish pal env s r) (Model.quietly (a.finish pal env r)) := by
  unfold handleFinish Model.finish
  by_cases hsupported : env.notifSupported = false
  · rw [if_pos hsupported, if_pos hsupported]
    exact .quiet h rfl rfl
  rw [if_neg hsupported, if_neg hsupported]
  have hphase := h.phase
  cases hφ : a.phase with
  | unregistered =>
    rw [hφ, Notification.InPhase] at hphase
    simp only [hphase, Notification.cleared, true_or, if_true]
    exact .quiet h rfl rfl
  | registered reg =>
    rw [hφ] at hphase
    simp only [hphase.2.1, or_true, if_true]
    exact .quiet h rfl rfl
  | deferred reg w =>
    rw [hφ] at hphase
    cases w with
    | locality l ctrl =>
      obtain ⟨⟨hregistered, hclient, hservice, hid⟩, hout, hvalid, hcommand, hl, hctrl⟩ := hphase
      simp only [hregistered, hclient, hout, Bool.true_eq_false, false_or, or_false, ne_eq]
      by_cases hsender : reg.client = r.sender
      · obtain ⟨acc, heq⟩ := applyLocalityRequest_eq s l ctrl
        simp only [hsender, not_true_eq_false, if_false, if_true, completePending, hvalid, hl, hctrl, heq]
        refine .quiet (Represents.applyCtrl (s := { s with notif := { s.notif with
          pendingLocalityValid := false, outstanding := false } })
          (h.enter rfl rfl rfl ?_) rfl rfl ?_ rfl) rfl rfl
        · exact ⟨⟨hregistered, hclient, hservice, hid⟩, rfl, rfl, hcommand⟩
        · exact ⟨⟨hregistered, hclient, hservice, hid⟩, rfl, rfl, hcommand⟩
      · simp only [hsender, not_false_eq_true, if_true, if_false]
        exact .quiet h rfl rfl
    | command l size cmd =>
      obtain ⟨⟨hregistered, hclient, hservice, hid⟩, hout, hlocality, hvalid, hl, hsize, hcmd⟩ := hphase
      simp only [hregistered, hclient, hout, Bool.true_eq_false, false_or, or_false, ne_eq]
      by_cases hsender : reg.client = r.sender
      · obtain ⟨acc, heq⟩ := publish_execute_eq pal s l cmd size false
        simp only [hsender, not_true_eq_false, if_false, if_true, completePending, hlocality, hvalid,
          valTpmCrbCompletePendingCommand, hl, hsize, hcmd, heq, Bool.false_eq_true]
        refine runCommand_agrees pal h l size _ ?_ acc (List.append_nil _).symm rfl
        rw [runCommand]
        exact ⟨⟨hregistered, hclient, hservice, hid⟩, rfl, hlocality, rfl⟩
      · simp only [hsender, not_false_eq_true, if_true, if_false]
        exact .quiet h rfl rfl

/-- A request may wait for its client when the client is registered. -/
theorem Represents.mayDefer_iff (h : Represents s a) : mayDefer s r = true ↔
    ∃ reg, a.phase = .registered reg ∧ reg.client = r.sender ∧ reg.service = r.receiver := by
  have hphase := h.phase
  simp only [mayDefer, decide_eq_true_eq]
  cases hφ : a.phase with
  | unregistered =>
    rw [hφ, Notification.InPhase] at hphase
    simp [hphase, Notification.cleared]
  | registered reg =>
    rw [hφ] at hphase
    obtain ⟨⟨hregistered, hclient, hservice, -⟩, hdone, -⟩ := hphase
    simp [hregistered, hclient, hservice, hdone]
  | deferred reg w =>
    have hout : s.notif.outstanding = true := by
      rw [hφ] at hphase
      cases w <;> exact hphase.2.1
    simp [hout]

/-- When the model lets a request wait. -/
theorem Model.notifiable_eq (a : Model σ) {reg : Registration} (hphase : a.phase = .registered reg)
    (hclient : reg.client = r.sender) (hservice : reg.service = r.receiver) :
    a.notifiable env r = if env.notifSupported ∧ env.setSucceeds then some reg else none := by
  simp only [Model.notifiable, hphase, hclient, hservice, true_and]

/-- A request that may not be deferred notifies nobody. -/
theorem Represents.notifiable_eq_none (h : Represents s a) (hmay : ¬mayDefer s r = true) :
    a.notifiable env r = none := by
  rw [h.mayDefer_iff] at hmay
  unfold Model.notifiable
  split
  · rename_i reg hφ
    refine if_neg fun hall => hmay ⟨reg, hφ, hall.1, hall.2.1⟩
  · rfl

/-- LOC_CTRL is taken and cleared. -/
theorem Represents.takeCtrl (h : Represents s a) (hactive : t.active = s.active)
    (hmem : t.mem = s.mem.store (valTpmCrbLocCtrl l) 4 0) (hphase : t.notif.InPhase a.phase)
    (htpm : t.tpm = s.tpm) : Represents t (a.setRegs l fun regs => { regs with locCtrl := 0 }) := by
  refine ⟨hactive.trans h.active, hphase, ?_, htpm.trans h.tpm⟩
  rw [hmem, regsOf_store_locCtrl, h.regs]
  rfl

/-- LOC_CTRL data is applied at once, whatever the record of events. -/
theorem Represents.startLocality (h : Represents s a) {n : Notification} (hphase : n.InPhase a.phase)
    (es : List Event) (acc : List Access) :
    Represents { s with
      active := nextActive s.active l (s.mem.load (valTpmCrbLocCtrl l) 4)
      mem := applyMem (s.mem.store (valTpmCrbLocCtrl l) 4 0) s.active l (s.mem.load (valTpmCrbLocCtrl l) 4)
      notif := n
      events := es
      accesses := acc }
      ((a.setRegs l fun regs => { regs with locCtrl := 0 }).applyCtrl l (a.regs l).locCtrl) := by
  have hctrl : (a.regs l).locCtrl = s.mem.load (valTpmCrbLocCtrl l) 4 := by
    rw [← h.regs]
    rfl
  rw [hctrl]
  exact (h.takeCtrl (t := { s with mem := s.mem.store (valTpmCrbLocCtrl l) 4 0, notif := n }) rfl rfl hphase
    rfl).applyCtrl rfl rfl hphase rfl

/-- A call that was not accepted is no notification. -/
theorem notifications_signal (n : Notification) (client service : ℕ) :
    notifications [signalEvent env n client service] =
      if env.setSucceeds then [signalEvent env n client service] else [] := by
  cases hset : env.setSucceeds <;> simp [notifications, signalEvent, Event.isSignal, hset]

/-- The signal of the model is the one of the service. -/
theorem signal_eq {n : Notification} {reg : Registration} (h : n.Holds reg) (hclient : reg.client = r.sender)
    (hservice : reg.service = r.receiver) :
    signalEvent env n r.sender r.receiver = Model.signal env reg := by
  simp only [Model.signal, signalEvent, h.2.2.2, hclient, hservice]

/-- START(LOCALITY_REQUEST) of the service is that of the model. -/
theorem handleStartLocality_agrees (h : Represents s a) (hl : wrap32 r.arg6 = l) :
    Agrees s (handleStartLocality env s r) (a.startLocality env r l) := by
  unfold handleStartLocality Model.startLocality
  rw [hl]
  dsimp only
  by_cases hmay : mayDefer s r = true
  · obtain ⟨reg, hφ, hclient, hservice⟩ := h.mayDefer_iff.mp hmay
    obtain ⟨acc, hsave⟩ := saveLocalityRequest_eq s l
    have hin := h.phase
    rw [hφ] at hin
    obtain ⟨hholds, hdone, hlocality, hcommand⟩ := hin
    rw [if_pos hmay, hsave, signalNotification_eq env _ r (by exact hmay), a.notifiable_eq hφ hclient hservice]
    -- The client could not be signalled, with or without a call to the relayer.
    have hfailed (es : List Event) (hes : notifications es = []) :
        Agrees s (applySavedLocality { s with
          mem := s.mem.store (valTpmCrbLocCtrl l) 4 0
          notif := { s.notif with
            pendingLocality := l, pendingLocalityCtrl := s.mem.load (valTpmCrbLocCtrl l) 4,
            pendingLocalityValid := true }
          events := s.events ++ es
          accesses := acc } l)
          ((a.setRegs l fun regs => { regs with locCtrl := 0 }).applyCtrl l (a.regs l).locCtrl,
            ⟨.ok, 0, 0⟩, []) := by
      obtain ⟨acc', heq⟩ := applySavedLocality_eq { s with
          mem := s.mem.store (valTpmCrbLocCtrl l) 4 0
          notif := { s.notif with
            pendingLocality := l, pendingLocalityCtrl := s.mem.load (valTpmCrbLocCtrl l) 4,
            pendingLocalityValid := true }
          events := s.events ++ es
          accesses := acc } l
      rw [heq]
      refine ⟨h.startLocality ?_ _ acc', rfl, es, rfl, hes⟩
      rw [hφ]
      exact ⟨hholds, hdone, rfl, hcommand⟩
    cases hsupported : env.notifSupported with
    | false =>
      have hfailed := hfailed [] rfl
      rw [List.append_nil] at hfailed
      exact hfailed
    | true =>
      cases hset : env.setSucceeds with
      | false => exact hfailed [_] (by rw [notifications_signal, hset, if_neg Bool.false_ne_true])
      | true =>
        refine ⟨(h.takeCtrl (t := { s with mem := s.mem.store (valTpmCrbLocCtrl l) 4 0 })
          rfl rfl h.phase rfl).enter rfl rfl rfl ?_, rfl, [_], rfl, ?_⟩
        · refine ⟨hholds, rfl, rfl, hcommand, rfl, ?_⟩
          rw [← h.regs]
          rfl
        · rw [notifications_signal, hset, if_pos rfl]
          exact congrArg (fun e => [e]) (signal_eq hholds hclient hservice)
  · obtain ⟨acc, heq⟩ := startLocalityRequest_eq s l
    rw [if_neg hmay, heq, h.notifiable_eq_none hmay]
    exact ⟨h.startLocality h.phase s.events acc, rfl, [], (List.append_nil _).symm, rfl⟩

/-- The service and the model execute the same commands. -/
theorem Represents.eligible_iff (h : Represents s a) : s.Eligible l ↔ a.Eligible l := by
  unfold Service.Eligible Model.Eligible granted started
  rw [h.active, activeNumber_eq_iff, ← h.regs]
  simp only [decide_eq_true_eq]
  rfl

/-- A command that the registers allow is executed at once. -/
theorem startCommand_agrees (pal : Pal σ) (h : Represents t a) (heligible : t.Eligible l)
    {es : List Event} (hevents : t.events = s.events ++ es) (hes : notifications es = []) :
    Agrees s (valTpmCrbStartCommand pal t l)
      (Model.quietly (a.command pal l (valTpmBe32Read (a.regs l).data 2) (a.regs l).data)) := by
  have hcmd : (a.regs l).data = commandIn t.mem l := by
    rw [← h.regs]
    rfl
  have hsize : valTpmBe32Read (a.regs l).data 2 = commandSize t.mem l := by
    rw [hcmd, commandSize]
  obtain ⟨acc, heq⟩ := startCommand_eligible pal t l heligible hsize hcmd
  rw [heq]
  refine runCommand_agrees pal h l _ _ ?_ acc hevents hes
  rw [runCommand]
  exact h.phase

/-- START(COMMAND) of the service is that of the model. -/
theorem handleStartCommand_agrees (h : Represents s a) (hl : wrap32 r.arg6 = l) :
    Agrees s (handleStartCommand pal env s r) (a.startCommand pal env r l) := by
  unfold handleStartCommand Model.startCommand
  rw [hl]
  dsimp only
  by_cases heligible : s.Eligible l
  · rw [if_pos (h.eligible_iff.mp heligible)]
    by_cases hmay : mayDefer s r = true
    · obtain ⟨reg, hφ, hclient, hservice⟩ := h.mayDefer_iff.mp hmay
      obtain ⟨acc, htest⟩ := commandNotifyEligible_eq s l
      obtain ⟨acc', hsave⟩ := saveCommand_eq { s with accesses := acc } l
      have hin := h.phase
      rw [hφ] at hin
      obtain ⟨hholds, hdone, hlocality, hcommand⟩ := hin
      rw [if_pos hmay, htest, decide_eq_true heligible, a.notifiable_eq hφ hclient hservice]
      dsimp only
      rw [hsave, signalNotification_eq env _ r (by exact hmay)]
      -- The saved command is dropped when the client could not be signalled.
      have hkept (es : List Event) : Represents { s with
          notif := { s.notif with
            pendingCommandLocality := l, pendingCommandValid := false, pendingCommandSize := 0,
            pendingCmd := fun _ => 0 }
          events := es
          accesses := acc' } a := by
        refine ⟨h.active, ?_, h.regs, h.tpm⟩
        rw [hφ]
        exact ⟨hholds, hdone, hlocality, rfl⟩
      cases hsupported : env.notifSupported with
      | false =>
        exact startCommand_agrees pal (hkept _) heligible (List.append_nil _).symm rfl
      | true =>
        cases hset : env.setSucceeds with
        | false =>
          exact startCommand_agrees pal (hkept _) heligible rfl
            (by rw [notifications_signal, hset, if_neg Bool.false_ne_true])
        | true =>
          refine ⟨h.enter rfl rfl rfl ?_, rfl, [_], rfl, ?_⟩
          · refine ⟨hholds, rfl, hlocality, rfl, rfl, ?_⟩
            rw [← h.regs]
            exact ⟨rfl, rfl⟩
          · rw [notifications_signal, hset, if_pos rfl]
            exact congrArg (fun e => [e]) (signal_eq hholds hclient hservice)
    · rw [if_neg hmay, h.notifiable_eq_none hmay]
      exact startCommand_agrees pal h heligible (List.append_nil _).symm rfl
  · rw [if_neg fun h' => heligible (h.eligible_iff.mpr h')]
    obtain ⟨acc, htest⟩ := commandNotifyEligible_eq s l
    have hnothing (acc : List Access) :
        Agrees s (valTpmCrbStartCommand pal { s with accesses := acc } l) (a, ⟨.ok, 0, 0⟩, []) := by
      obtain ⟨acc', heq⟩ := startCommand_not_eligible pal { s with accesses := acc } l heligible
      rw [heq]
      exact ⟨⟨h.active, h.phase, h.regs, h.tpm⟩, rfl, [], (List.append_nil _).symm, rfl⟩
    split_ifs
    · rw [htest, decide_eq_false heligible]
      exact hnothing acc
    · exact hnothing s.accesses

/-- Every request is handled by the service as by the model. -/
theorem dispatch_agrees (pal : Pal σ) (env : Env) (r : Request) (h : Represents s a) :
    Agrees s (dispatch pal env s r) (a.handle pal env r) := by
  unfold dispatch Model.handle
  by_cases hversion : r.func = crbGetInterfaceVersion
  · rw [if_pos hversion, if_pos hversion]
    exact .quiet h rfl rfl
  rw [if_neg hversion, if_neg hversion]
  by_cases hfeature : r.func = crbGetFeatureInfo
  · rw [if_pos hfeature, if_pos hfeature]
    split_ifs <;> exact .quiet h rfl rfl
  rw [if_neg hfeature, if_neg hfeature]
  by_cases hstart : r.func = crbStart
  · rw [if_pos hstart, if_pos hstart, Model.start]
    by_cases hargs : r.arg5 ≤ 0xff ∧ r.arg6 ≤ crbLocalityMax
    · have htype : wrap32 r.arg5 = r.arg5 := wrap32_of_lt (hargs.1.trans_lt (by decide))
      have hl : wrap32 r.arg6 = r.arg6 := wrap32_of_lt (hargs.2.trans_lt (by decide))
      rw [if_neg (by omega), dif_pos hargs, htype]
      split_ifs
      · exact handleStartLocality_agrees h hl
      · exact handleStartCommand_agrees h hl
      · exact .quiet h rfl rfl
    · rw [if_pos (by omega), dif_neg hargs]
      exact .quiet h rfl rfl
  rw [if_neg hstart, if_neg hstart]
  split_ifs
  · exact handleRegister_agrees h
  · exact handleUnregister_agrees h
  · exact handleFinish_agrees h
  · exact .quiet h rfl rfl

/-! ## Clients -/

/-- The service and the model look alike to a client. -/
theorem serviceMachine_simulates (pal : Pal σ) :
    (serviceMachine pal).Simulates Represents (Model.machine pal) where
  write _ _ w h := h.write w
  locSts _ _ l h := congrArg (fun regs => (regs l).locSts) h.regs
  ctrlStart _ _ l h := congrArg (fun regs => (regs l).ctrlStart) h.regs
  data s a l i h := by
    have hdata : commandIn s.mem l i = (a.regs l).data i := congrArg (fun regs => (regs l).data i) h.regs
    rw [commandIn, mmioBytes, if_pos i.isLt] at hdata
    exact hdata
  request env s a r h := by
    obtain ⟨hstate, hresult, es, hevents, hes⟩ := dispatch_agrees pal env r h
    refine ⟨Prod.ext ?_ ?_, ⟨hstate.active, hstate.phase, hstate.regs, hstate.tpm⟩⟩
    · exact congrArg (respond r) hresult
    · have hanswered (e : Response) : notifications [Event.answered r e] = [] := rfl
      dsimp only [serviceMachine, valTpmCrbServiceHandleRequest, Service.noteEvent]
      rw [hevents, List.append_assoc, List.drop_left, notifications, List.filter_append]
      exact (congrArg₂ (· ++ ·) hes (hanswered _)).trans (List.append_nil _)

/-- The model before the first request. -/
def Model.initial (m : ByteMemory) (tpm : σ) : Model σ := ⟨none, .unregistered, regsOf m, tpm⟩

/-- The service starts as the model does. -/
theorem represents_initial (m : ByteMemory) (tpm : σ) :
    Represents (Service.start m tpm) (Model.initial m tpm) :=
  ⟨rfl, rfl, rfl, rfl⟩

/-- Whatever a client does, and whatever surrounds it and the service: from the first request on it gets
from the service what it would get from the model, the surroundings see the same notifications, and the
service stays in the state of the model. -/
theorem client_sees_model {ε α : Type} (pal : Pal σ) (around : Surroundings ε) (client : Client α)
    (m : ByteMemory) (tpm : σ) (e : ε) :
    let real := client.run (attach (serviceMachine pal) around) (Service.start m tpm, e)
    let ideal := client.run (attach (Model.machine pal) around) (Model.initial m tpm, e)
    real.1 = ideal.1 ∧ Represents real.2.1 ideal.2.1 ∧ real.2.2 = ideal.2.2 :=
  ((serviceMachine_simulates pal).attach around).run client ⟨represents_initial m tpm, rfl⟩

end

end FfaAcs.Tpm
