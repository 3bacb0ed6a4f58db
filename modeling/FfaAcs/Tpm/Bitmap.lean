import FfaAcs.Tpm.Locality

/-!
# The bitmap of a notification

The service checks a notification id when a client registers and shifts by it when it signals the
client, possibly many requests later. The registered id is followed here through the history of
answers. The check lets ids up to 255 pass, but a bitmap has 64 bits.
-/

namespace FfaAcs.Tpm

open Machine

/-! ## Histories -/

/-- The notification id of the client that is registered after a history. -/
def registeredId (es : List Event) : Option ℕ := registeredOf Request.arg6 es

/-- A FFA_NOTIFICATION_SET shifts by less than 64 and carries, in its two halves, the one bit of the
registered notification. -/
def SetsOneBit (pre : List Event) : Event → Prop
  | .notificationSet shift _ _ arg3 arg4 _ =>
    shift < 64 ∧ arg3 < 2 ^ 32 ∧ arg4 < 2 ^ 32 ∧ arg3 + arg4 * 2 ^ 32 = 2 ^ shift ∧
      registeredId pre = some shift
  | _ => True

/-- If the event is an accepted registration, its id is the number of a bit. -/
def Event.RegistersBit : Event → Prop
  | .answered r response => r.func = crbRegisterNotification → response.status = .ok → r.arg6 < 64
  | _ => True

instance : DecidablePred Event.RegistersBit
  | .answered r response => inferInstanceAs
      (Decidable (r.func = crbRegisterNotification → response.status = .ok → r.arg6 < 64))
  | .notificationSet .. => inferInstanceAs (Decidable True)
  | .execute .. => inferInstanceAs (Decidable True)
  | .startSet _ => inferInstanceAs (Decidable True)

/-- The notification id that the variables hold. -/
def Notification.heldId (n : Notification) : Option ℕ := if n.registered then some n.id else none

section

variable {σ : Type*} {pal : Pal σ} {env : Env} {r : Request} {s t : Service σ} {result : Result}
  {φ : Phase}

/-- Two sets of variables in one phase hold the same id. -/
theorem Notification.InPhase.heldId_eq {n n' : Notification} (h : n.InPhase φ) (h' : n'.InPhase φ) :
    n'.heldId = n.heldId := by
  have hholds (reg : Registration) (hn : n.Holds reg) (hn' : n'.Holds reg) : n'.heldId = n.heldId := by
    simp [heldId, hn.1, hn'.1, hn.2.2.2, hn'.2.2.2]
  cases φ with
  | unregistered =>
    rw [InPhase] at h h'
    rw [h, h']
  | registered reg => exact hholds reg h.1 h'.1
  | deferred reg w => exact hholds reg (h.holds (.inr ⟨w, rfl⟩)) (h'.holds (.inr ⟨w, rfl⟩))

/-- The id in the variables changes as the answer says. -/
theorem Effect.heldId_eq (h : Effect pal env r s t result) (hphase : s.notif.InPhase φ) :
    t.notif.heldId = Event.nextOf Request.arg6 (.answered r (respond r result)) s.notif.heldId := by
  have hkept (hfunc : r.func = crbStart ∨ r.func = crbFinishNotified) :
      Event.nextOf Request.arg6 (.answered r (respond r result)) s.notif.heldId = s.notif.heldId := by
    refine nextOf_answered_of_ne _ result _ ?_ ?_
    all_goals
      intro hfunc'
      rw [hfunc'] at hfunc
      exact absurd hfunc (by decide)
  cases h with
  | quiet acc _ hstart hregister hunregister hfinish =>
    exact (nextOf_answered_of_ne _ result _ hregister hunregister).symm
  | register hfunc hfree hid => simp [Notification.heldId, Event.nextOf, respond, hfunc]
  | unregister hfunc hregistered hclient hdone =>
    simp [Notification.heldId, Notification.cleared, Event.nextOf, respond, hfunc,
      crbUnregisterNotification, crbRegisterNotification]
  | locality l n sig acc hstart hphase' hsig =>
    rw [hkept (.inl hstart.func)]
    exact hphase.heldId_eq (hphase' φ hphase)
  | command l size cmd n sig acc hstart hsize hcmd heligible hphase' hsig =>
    rw [hkept (.inl hstart.func)]
    exact hphase.heldId_eq (hphase' φ hphase)
  | deferLocality l acc hstart => exact (hkept (.inl hstart.func)).symm
  | deferCommand l acc hstart => exact (hkept (.inl hstart.func)).symm
  | finishLocality acc hfunc => exact (hkept (.inr hfunc)).symm
  | finishCommand l size cmd acc hfunc => exact (hkept (.inr hfunc)).symm
  | finishNothing acc hfunc => exact (hkept (.inr hfunc)).symm

/-- A request signals the registered client, or executes commands; nothing else is recorded before
its answer. -/
theorem Effect.events_eq (h : Effect pal env r s t result) : ∃ new, t.events = s.events ++ new ∧
    ∀ e ∈ new, e = signalEvent env s.notif r.sender r.receiver ∧ s.notif.registered = true ∨
      ∃ l size active grant, e = .execute l size active grant := by
  have hmay (h : mayDefer s r = true) : s.notif.registered = true := by
    simp only [mayDefer, Bool.decide_and, Bool.and_eq_true, decide_eq_true_eq] at h
    exact h.1
  have hexecute (m : ByteMemory) (active l size : ℕ) : ∀ e ∈ executeEvents m active l size,
      ∃ l size active grant, e = .execute l size active grant := by
    intro e he
    rw [executeEvents] at he
    split at he
    · exact absurd he (by simp)
    · exact ⟨_, _, _, _, List.mem_singleton.1 he⟩
  cases h with
  | quiet => exact ⟨[], (List.append_nil _).symm, by simp⟩
  | register => exact ⟨[], (List.append_nil _).symm, by simp⟩
  | unregister => exact ⟨[], (List.append_nil _).symm, by simp⟩
  | locality l n sig acc hstart hphase hsig =>
    exact ⟨sig, rfl, fun e he => .inl ⟨(hsig e he).1, hmay (hsig e he).2.2⟩⟩
  | command l size cmd n sig acc hstart hsize hcmd heligible hphase hsig =>
    refine ⟨_, List.append_assoc .., fun e he => ?_⟩
    rcases List.mem_append.1 he with he | he
    · exact .inl ⟨(hsig e he).1, hmay (hsig e he).2.2⟩
    · exact .inr (hexecute _ _ _ _ e he)
  | deferLocality l acc hstart hmay' =>
    exact ⟨_, rfl, fun e he => .inl ⟨List.mem_singleton.1 he, hmay hmay'⟩⟩
  | deferCommand l acc hstart hmay' =>
    exact ⟨_, rfl, fun e he => .inl ⟨List.mem_singleton.1 he, hmay hmay'⟩⟩
  | finishLocality => exact ⟨[], (List.append_nil _).symm, by simp⟩
  | finishCommand => exact ⟨_, rfl, fun e he => .inr (hexecute _ _ _ _ e he)⟩
  | finishNothing => exact ⟨[], (List.append_nil _).symm, by simp⟩

/-- The registers of a signal whose id has a bit. -/
theorem signalEvent_setsOneBit {n : Notification} {pre : List Event} (client service : ℕ)
    (hid : n.id < 64) (hpre : registeredId pre = some n.id) :
    SetsOneBit pre (signalEvent env n client service) := by
  have hpow : 2 ^ n.id < 2 ^ 64 := Nat.pow_lt_pow_right (by decide) hid
  have hbitmap : notificationBitmap env n.id = 2 ^ n.id := if_pos hid
  have hlow : notificationBitmap env n.id &&& 0xffffffff = 2 ^ n.id % 2 ^ 32 := by
    rw [hbitmap]
    exact Nat.and_two_pow_sub_one_eq_mod _ 32
  have hhigh : wrap32 (notificationBitmap env n.id / 2 ^ 32) = 2 ^ n.id / 2 ^ 32 := by
    rw [hbitmap]
    exact Nat.mod_eq_of_lt (by omega)
  simp only [signalEvent, SetsOneBit, hlow, hhigh]
  exact ⟨hid, Nat.mod_lt _ (by decide), by omega, by omega, hpre⟩

/-- The variables and the history agree on the id, it has a bit, and so has every signal. -/
structure Numbered (s : Service σ) : Prop where
  agrees : registeredId s.events = s.notif.heldId
  bound : ∀ id, s.notif.heldId = some id → id < 64
  bits : Along SetsOneBit s.events

namespace Numbered

/-- Events that register nobody and are good signals. -/
theorem append_events (h : Numbered s) {new : List Event}
    (hnew : ∀ e ∈ new, (∀ id, e.nextOf Request.arg6 id = id) ∧
      ∀ pre, registeredId pre = registeredId s.events → SetsOneBit pre e) :
    registeredId (s.events ++ new) = registeredId s.events ∧ Along SetsOneBit (s.events ++ new) := by
  induction new using List.reverseRecOn with
  | nil => exact ⟨by rw [List.append_nil], by simpa using h.bits⟩
  | append_singleton new e ih =>
    obtain ⟨hid, hbits⟩ := ih fun e he => hnew e (by simp [he])
    obtain ⟨hkeeps, hgood⟩ := hnew e (by simp)
    rw [← List.append_assoc]
    refine ⟨?_, hbits.snoc (hgood _ hid)⟩
    rw [registeredId, registeredOf_concat, hkeeps, ← registeredId, hid]

/-- A write of a client signals nobody. -/
theorem clientWrite (h : Numbered s) (w : ClientWrite) : Numbered (s.clientWrite w) := by
  cases w with
  | ctrlStart l v =>
    have hnew : ∀ e ∈ (if started s.mem l = false ∧ v % 2 = 1 then [Event.startSet l] else []),
        (∀ id, e.nextOf Request.arg6 id = id) ∧
          ∀ pre, registeredId pre = registeredId s.events → SetsOneBit pre e := by
      intro e he
      split at he
      · rw [List.mem_singleton.1 he]
        exact ⟨fun _ => rfl, fun _ _ => trivial⟩
      · exact absurd he (by simp)
    obtain ⟨hid, hbits⟩ := h.append_events hnew
    exact ⟨hid.trans h.agrees, h.bound, hbits⟩
  | _ => exact ⟨h.agrees, h.bound, h.bits⟩

/-- A request that registers no id without a bit. -/
theorem effect (h : Numbered s) (hphase : s.notif.InPhase φ) (heffect : Effect pal env r s t result)
    (hregister : Event.RegistersBit (.answered r (respond r result))) :
    Numbered (t.noteEvent (.answered r (respond r result))) := by
  obtain ⟨new, hevents, hnew⟩ := heffect.events_eq
  have hquiet : ∀ e ∈ new, (∀ id, e.nextOf Request.arg6 id = id) ∧
      ∀ pre, registeredId pre = registeredId s.events → SetsOneBit pre e := by
    intro e he
    rcases hnew e he with ⟨rfl, hregistered⟩ | ⟨l, size, active, grant, rfl⟩
    · have hheld : s.notif.heldId = some s.notif.id := by rw [Notification.heldId, hregistered, if_pos rfl]
      exact ⟨fun _ => rfl, fun pre hpre => signalEvent_setsOneBit _ _ (h.bound _ hheld)
        (hpre.trans (h.agrees.trans hheld))⟩
    · exact ⟨fun _ => rfl, fun _ _ => trivial⟩
  obtain ⟨hid, hbits⟩ := h.append_events hquiet
  have hheld := heffect.heldId_eq hphase
  refine ⟨?_, ?_, ?_⟩
  · rw [Service.noteEvent, hevents, registeredId, registeredOf_concat, ← registeredId, hid, h.agrees]
    exact hheld.symm
  · intro id hsome
    have hnext : Event.nextOf Request.arg6 (.answered r (respond r result)) s.notif.heldId = some id :=
      hheld.symm.trans hsome
    simp only [Event.nextOf] at hnext
    split_ifs at hnext with hok hfunc hunregister
    · obtain rfl := Option.some.inj hnext
      exact hregister hfunc hok
    · exact h.bound id hnext
    · exact h.bound id hnext
  · rw [Service.noteEvent, hevents]
    exact hbits.snoc trivial

end Numbered

/-- **Every FFA_NOTIFICATION_SET carries the bit of the registered notification**, in every run in
which no registration with an id from 64 on is accepted. -/
theorem sets_one_bit_of_run (pal : Pal σ) (m : ByteMemory) (tpm : σ) (inputs : List Input)
    (hregister : ∀ e ∈ (run pal (.start m tpm) inputs).events, e.RegistersBit) :
    Along SetsOneBit (run pal (.start m tpm) inputs).events := by
  have hstart : Numbered (Service.start m tpm) :=
    ⟨rfl, fun id h => absurd h (by simp [Service.start, Notification.heldId, Notification.cleared]),
      fun pre e post h => absurd h (by simp [Service.start])⟩
  refine (run_induction (P := fun _ s => (∀ e ∈ s.events, e.RegistersBit) → Numbered s)
    (fun _ => hstart) ?_ ?_ inputs hregister).bits
  · intro pre s w hs ih hafter
    refine (ih fun e he => hafter e ?_).clientWrite w
    cases w with
    | ctrlStart => exact List.mem_append_left _ he
    | _ => exact he
  · intro pre s env r t result hs ih heffect hafter
    obtain ⟨φ, htracks⟩ := tracks_run pal m tpm pre
    obtain ⟨new, hevents, -⟩ := heffect.events_eq
    refine (ih fun e he => hafter e ?_).effect (φ := φ) (hs ▸ htracks.phase) heffect (hafter _ ?_)
    · rw [Service.noteEvent, hevents]
      exact List.mem_append_left _ (List.mem_append_left _ he)
    · exact List.mem_append_right _ (List.mem_singleton_self _)

end

/-- A client registers a notification and asks for locality 0, which is deferred. -/
def signalledRun (id : ℕ) : List Input :=
  [.request signalling (requestTo crbRegisterNotification 0 id),
    .request signalling (requestTo crbStart crbStartTypeLocalityRequest 0)]

/-- The signal for notification 33 has its bit in the high half. -/
theorem sets_one_bit_of_id_33 :
    .notificationSet 33 0x10002 0 0 2 true ∈ (run zeroPal (.start zeroCrb ()) (signalledRun 33)).events ∧
      Along SetsOneBit (run zeroPal (.start zeroCrb ()) (signalledRun 33)).events :=
  ⟨by decide +kernel, sets_one_bit_of_run zeroPal zeroCrb () (signalledRun 33) (by decide +kernel)⟩

/-- The registration of notification 64 is accepted, and its signal is built with a shift by 64. Here the
shift gives bit 0, as it does where the count is taken modulo 64. -/
theorem not_sets_one_bit_of_id_64 :
    .notificationSet 64 0x10002 0 1 0 true ∈ (run zeroPal (.start zeroCrb ()) (signalledRun 64)).events ∧
      ¬Along SetsOneBit (run zeroPal (.start zeroCrb ()) (signalledRun 64)).events := by
  have hmem : .notificationSet 64 0x10002 0 1 0 true ∈
      (run zeroPal (.start zeroCrb ()) (signalledRun 64)).events := by decide +kernel
  refine ⟨hmem, fun halong => ?_⟩
  obtain ⟨pre, post, hsplit⟩ := List.append_of_mem hmem
  exact absurd (halong pre _ post hsplit).1 (by decide)

end FfaAcs.Tpm
