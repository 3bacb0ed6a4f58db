import FfaAcs.Sync.Protocol
import FfaAcs.Machine.WordArithmetic

/-!
# The tables agree after the synchronisation

The joint invariant follows VM1's control point. Between two entries every partition waits for a
request. Between the two halves of entry `j` the partition that is addressed holds the first
half of VM1's entry and the index `j`. At every point the entries that have been sent so far are
VM1's, and all others are what they were.

A name of printable characters never looks like a request to the TPM service, whose function
numbers have `0x0f` in the byte where the fourth character is.
-/

namespace FfaAcs.Sync

open Machine

section Messages

variable {b : Build} {T table : Table} {i j : ℕ} {m : FfaArgs} {w : Fin 4 → BitVec 32}
variable {x : BitVec 64} {source destination : BitVec 16}

/-- The two identifiers side by side. -/
theorem endpoints_setWidth (source destination : BitVec 16) :
    (endpoints source destination).setWidth 32 = source ++ destination := by
  unfold endpoints
  ext k hk
  grind

/-- The low halfword. -/
theorem setWidth_land_low (x : BitVec 64) : (x &&& 0xffff).setWidth 16 = x.setWidth 16 := by
  apply BitVec.eq_of_toNat_eq
  have hmask := Nat.and_two_pow_sub_one_eq_mod x.toNat 16
  simp only [BitVec.toNat_setWidth, BitVec.toNat_and]
  change (x.toNat &&& 2 ^ 16 - 1) % 2 ^ 16 = x.toNat % 2 ^ 16
  rw [hmask, Nat.mod_mod]

/-- The source of a message. -/
theorem senderId_of_append (h : x.setWidth 32 = source ++ destination) : senderId x = source := by
  rw [senderId, setWidth_land_low]
  ext k hk
  have hbit := congrArg (fun v => v.getLsbD (16 + k)) h
  grind

/-- The destination of a message. -/
theorem receiverId_of_append (h : x.setWidth 32 = source ++ destination) :
    receiverId x = destination := by
  rw [receiverId, setWidth_land_low]
  ext k hk
  have hbit := congrArg (fun v => v.getLsbD k) h
  grind

/-- The words of a delivered request. -/
theorem Delivered.words {fid : BitVec 64} (h : Delivered fid (syncRequest b T i j w) m) :
    m.words = w := by
  have hwide (v : BitVec 32) : (v.setWidth 64).setWidth 32 = v := by
    ext k hk
    grind
  funext k
  fin_cases k
  · exact h.arg4.trans (hwide (w 0))
  · exact h.arg5.trans (hwide (w 1))
  · exact h.arg6.trans (hwide (w 2))
  · exact h.arg7.trans (hwide (w 3))

/-- The identifiers of a delivered request. -/
theorem Delivered.ids {fid : BitVec 64} (h : Delivered fid (syncRequest b T i j w) m) :
    senderId m.arg1 = (T b.vm1).id ∧ receiverId m.arg1 = (T i).id := by
  have hboth : m.arg1.setWidth 32 = (T b.vm1).id ++ (T i).id :=
    h.arg1.trans (endpoints_setWidth _ _)
  exact ⟨senderId_of_append hboth, receiverId_of_append hboth⟩

/-- The service and the index of a delivered request. -/
theorem Delivered.index {fid : BitVec 64} (h : Delivered fid (syncRequest b T i j w) m)
    (hj : j < 2 ^ 16) :
    m.arg3.setWidth 32 &&& 0xffff = epInfoSyncService ∧ (m.arg3.setWidth 32 >>> 16).toNat = j := by
  have hword : (m.arg3.setWidth 32).toNat = j <<< 16 + 0xffee := by
    have hshift : (j % 2 ^ 32) <<< 16 % 2 ^ 32 = j <<< 16 := by
      rw [Nat.shiftLeft_eq, Nat.shiftLeft_eq]
      omega
    rw [h.arg3]
    simp only [syncRequest, BitVec.toNat_setWidth, BitVec.toNat_or, BitVec.toNat_shiftLeft,
      BitVec.toNat_ofNat, hshift]
    rw [← Nat.shiftLeft_add_eq_or_of_lt (by decide : epInfoSyncService.toNat < 2 ^ 16),
      Nat.shiftLeft_eq]
    have hservice : epInfoSyncService.toNat = 0xffee := rfl
    omega
  rw [Nat.shiftLeft_eq] at hword
  constructor
  · apply BitVec.eq_of_toNat_eq
    rw [BitVec.toNat_and, hword]
    change (j * 2 ^ 16 + 0xffee) &&& (2 ^ 16 - 1) = 0xffee
    rw [Nat.and_two_pow_sub_one_eq_mod]
    omega
  · rw [BitVec.toNat_ushiftRight, hword, Nat.shiftRight_eq_div_pow]
    omega

/-- A printable name does not look like a request to the TPM service. -/
theorem not_tpm_request {fid : BitVec 64} {e : EndpointInfo} (he : e.Printable)
    (h : Delivered fid (syncRequest b T i j e.firstHalf) m) :
    valTpmCrbServiceIsRequest m = false := by
  have hword : m.arg4.setWidth 32 = e.firstHalf 0 := congrFun h.words 0
  have hname := he 3
  have htop := e.firstHalf_zero_div
  have hfunction : (e.firstHalf 0 &&& crbFunctionIdMask) ≠ crbFunctionIdBase := by
    intro heq
    have hnat := congrArg BitVec.toNat heq
    rw [BitVec.toNat_and] at hnat
    change (e.firstHalf 0).toNat &&& (2 ^ 32 - 2 ^ 16) = 0x0f000000 at hnat
    rw [land_two_pow_sub (by norm_num) (e.firstHalf 0).isLt] at hnat
    have hfifteen : (e.name 3).toNat = 15 := by omega
    rcases hname with hzero | hprint
    · rw [hzero] at hfifteen
      exact absurd hfifteen (by decide)
    · omega
  rw [valTpmCrbServiceIsRequest, hword, decide_eq_false hfunction, Bool.and_false]

/-- A waiting partition takes the first half of an entry and acknowledges it. -/
theorem resume_first {tpmService : Bool} (hT : (T j).Printable) (hj : j < 2 ^ 16)
    (h : Delivered ffaMsgSendDirectReq32 (syncRequest b T i j (T j).firstHalf) m) :
    resume tpmService table .waiting m =
      (.syncing j (T j).firstHalf (T i).id (T b.vm1).id, table,
        some (respond (T i).id (T b.vm1).id)) := by
  obtain ⟨hsender, hreceiver⟩ := h.ids
  obtain ⟨hservice, hindex⟩ := h.index hj
  have hfid : ¬m.fid ≠ ffaMsgSendDirectReq32 := not_not.mpr h.fid
  simp only [resume, not_tpm_request hT h, Bool.and_false, Bool.false_eq_true, if_false, if_neg hfid,
    if_pos hservice, hindex, h.words, hsender, hreceiver]

/-- Every field of the entry is assigned. -/
theorem updateEntry_eq (entry info : EndpointInfo) : updateEntry entry info = info := rfl

/-- The partition that holds the first half takes the second one and updates the entry. -/
theorem resume_second {tpmService : Bool} {myId targetId : BitVec 16}
    (h : Delivered ffaMsgSendDirectReq32 (syncRequest b T i j (T j).secondHalf) m) :
    resume tpmService table (.syncing j (T j).firstHalf myId targetId) m =
      (.waiting, Function.update table j (T j), some (respond myId targetId)) := by
  have hfid : m.fid ≠ ffaError32 := by
    rw [h.fid]
    decide
  simp only [resume, if_neg hfid, updateEntry_eq, h.words, EndpointInfo.ofHalves_halves]

end Messages

section Invariant

variable {b : Build} {T : Table} {s₀ s s' : System} {i j : ℕ}

/-- An earlier partition that is present has this identifier. -/
def Visited (T : Table) (i : ℕ) (e : BitVec 16) : Prop :=
  ∃ i', 1 ≤ i' ∧ i' < i ∧ (T i').isValid ≠ valPartitionNotPresent ∧ (T i').id = e

/-- The entries an endpoint has taken when VM1 is at entry `j` for partition `i`. -/
def Sent (b : Build) (T : Table) (i j : ℕ) (e : BitVec 16) (k : ℕ) : Prop :=
  1 ≤ k ∧ k ≤ b.valSEpCount + 1 ∧ (Visited T i e ∨ (T i).id = e ∧ k < j)

/-- The tables when VM1 is at entry `j` for partition `i`: the entries sent are VM1's, the others
are those at the start. -/
structure TablesAt (b : Build) (T : Table) (s₀ s : System) (i j : ℕ) : Prop where
  sent : ∀ e k, Sent b T i j e k → s.tables e k = T k
  kept : ∀ e k, ¬Sent b T i j e k → s.tables e k = s₀.tables e k

/-- VM1 is at a partition it sends entries to. -/
structure Addressed (b : Build) (T : Table) (i j : ℕ) : Prop where
  pos : 1 ≤ i
  le : i ≤ b.valSEpCount
  present : (T i).isValid ≠ valPartitionNotPresent
  entry : 1 ≤ j

/-- The joint invariant of VM1 and the partitions. -/
def Inv (b : Build) (T : Table) (s₀ s : System) : Prop :=
  match s.vm1 with
  | .outer i => 1 ≤ i ∧ i ≤ b.valSEpCount + 1 ∧ TablesAt b T s₀ s i 1 ∧ ∀ e, s.receivers e = .waiting
  | .inner i j => Addressed b T i j ∧ j ≤ b.valSEpCount + 2 ∧ TablesAt b T s₀ s i j ∧
      ∀ e, s.receivers e = .waiting
  | .half i j fid => fid = ffaError32 ∨ Addressed b T i j ∧ j ≤ b.valSEpCount + 1 ∧
      TablesAt b T s₀ s i j ∧
      s.receivers (T i).id = .syncing j (T j).firstHalf (T i).id (T b.vm1).id ∧
      ∀ e, e ≠ (T i).id → s.receivers e = .waiting
  | .returned => TablesAt b T s₀ s (b.valSEpCount + 1) 1 ∧ ∀ e, s.receivers e = .waiting
  | .panicked => True

/-- A partition that is not present takes nothing. -/
theorem sent_succ_of_absent {e : BitVec 16} {k : ℕ}
    (habsent : (T i).isValid = valPartitionNotPresent) :
    Sent b T (i + 1) 1 e k ↔ Sent b T i 1 e k := by
  unfold Sent Visited
  constructor
  · rintro ⟨hk, hk', ⟨i', hi', hlt, hpresent, hid⟩ | ⟨-, hone⟩⟩
    · refine ⟨hk, hk', .inl ⟨i', hi', ?_, hpresent, hid⟩⟩
      have hne : i' ≠ i := fun h => hpresent (h ▸ habsent)
      omega
    · omega
  · rintro ⟨hk, hk', ⟨i', hi', hlt, hpresent, hid⟩ | ⟨-, hone⟩⟩
    · exact ⟨hk, hk', .inl ⟨i', hi', by omega, hpresent, hid⟩⟩
    · omega

/-- After its last entry a partition counts as visited. -/
theorem sent_succ_of_present {e : BitVec 16} {k : ℕ} (ha : Addressed b T i j)
    (hj : b.valSEpCount + 1 < j) : Sent b T (i + 1) 1 e k ↔ Sent b T i j e k := by
  unfold Sent Visited
  constructor
  · rintro ⟨hk, hk', ⟨i', hi', hlt, hpresent, hid⟩ | ⟨-, hone⟩⟩
    · rcases Nat.lt_succ_iff_lt_or_eq.mp hlt with hlt | rfl
      · exact ⟨hk, hk', .inl ⟨i', hi', hlt, hpresent, hid⟩⟩
      · exact ⟨hk, hk', .inr ⟨hid, by omega⟩⟩
    · omega
  · rintro ⟨hk, hk', ⟨i', hi', hlt, hpresent, hid⟩ | ⟨hid, -⟩⟩
    · exact ⟨hk, hk', .inl ⟨i', hi', by omega, hpresent, hid⟩⟩
    · exact ⟨hk, hk', .inl ⟨i, ha.pos, Nat.lt_succ_self i, ha.present, hid⟩⟩

/-- Sending one more entry. -/
theorem sent_next_entry {e : BitVec 16} {k : ℕ} (ha : Addressed b T i j)
    (hj : j ≤ b.valSEpCount + 1) :
    Sent b T i (j + 1) e k ↔ Sent b T i j e k ∨ e = (T i).id ∧ k = j := by
  unfold Sent
  have hone := ha.entry
  constructor
  · rintro ⟨hk, hk', hvisited | ⟨hid, hlt⟩⟩
    · exact .inl ⟨hk, hk', .inl hvisited⟩
    · rcases Nat.lt_succ_iff_lt_or_eq.mp hlt with hlt | heq
      · exact .inl ⟨hk, hk', .inr ⟨hid, hlt⟩⟩
      · exact .inr ⟨hid.symm, heq⟩
  · rintro (⟨hk, hk', hvisited | ⟨hid, hlt⟩⟩ | ⟨rfl, rfl⟩)
    · exact ⟨hk, hk', .inl hvisited⟩
    · exact ⟨hk, hk', .inr ⟨hid, by omega⟩⟩
    · exact ⟨hone, hj, .inr ⟨rfl, Nat.lt_succ_self _⟩⟩

/-- The tables depend on the entries sent only. -/
theorem TablesAt.congr {i' j' : ℕ} (h : TablesAt b T s₀ s i j) (htables : s'.tables = s.tables)
    (hsent : ∀ e k, Sent b T i' j' e k ↔ Sent b T i j e k) : TablesAt b T s₀ s' i' j' := by
  constructor
  · intro e k hek
    rw [htables]
    exact h.sent e k ((hsent e k).mp hek)
  · intro e k hek
    rw [htables]
    exact h.kept e k fun hold => hek ((hsent e k).mpr hold)

/-- The tables after the partition at hand has updated its entry. -/
theorem TablesAt.update {r : Receiver} {pc : Vm1} (h : TablesAt b T s₀ s i j)
    (ha : Addressed b T i j) (hj : j ≤ b.valSEpCount + 1) :
    TablesAt b T s₀ { s.serve (T i).id r (Function.update (s.tables (T i).id) j (T j)) with vm1 := pc }
      i (j + 1) := by
  have hat (e : BitVec 16) (k : ℕ) :
      (s.serve (T i).id r (Function.update (s.tables (T i).id) j (T j))).tables e k =
        if e = (T i).id ∧ k = j then T k else s.tables e k := by
    unfold System.serve
    by_cases he : e = (T i).id
    · subst he
      by_cases hk : k = j
      · subst hk
        simp only [Function.update_self, and_self, if_true]
      · simp only [Function.update_self, Function.update_of_ne hk, hk, and_false, if_false]
    · simp only [Function.update_of_ne he, he, false_and, if_false]
  constructor
  · intro e k hek
    change (s.serve _ r _).tables e k = T k
    rw [hat]
    split_ifs with hnew
    · rfl
    · exact h.sent e k (((sent_next_entry ha hj).mp hek).resolve_right hnew)
  · intro e k hek
    rw [sent_next_entry ha hj, not_or] at hek
    change (s.serve _ r _).tables e k = s₀.tables e k
    rw [hat, if_neg hek.2]
    exact h.kept e k hek.1

/-- What a request returns with when it is not refused. -/
theorem Call.cases {m reply : FfaArgs} (hcall : Call b s m reply s') :
    (reply.fid = ffaError32 ∧ s' = s) ∨ ∃ m' r table resp, reply.fid = ffaMsgSendDirectResp32 ∧
      Delivered ffaMsgSendDirectReq32 m m' ∧
      resume b.tpmService (s.tables (receiverId m.arg1)) (s.receivers (receiverId m.arg1)) m' =
        (r, table, some resp) ∧
      s' = s.serve (receiverId m.arg1) r table := by
  cases hcall with
  | refused hfid => exact .inl ⟨hfid, rfl⟩
  | answered he hdelivered hresume _ _ hreply =>
    subst he
    exact .inr ⟨_, _, _, _, hreply.fid, hdelivered, hresume, rfl⟩

/-- The destination of a request. -/
theorem receiverId_syncRequest (w : Fin 4 → BitVec 32) :
    receiverId (syncRequest b T i j w).arg1 = (T i).id :=
  receiverId_of_append (endpoints_setWidth _ _)

/-- The number of partitions is small. -/
theorem Build.valSEpCount_le (b : Build) : b.valSEpCount ≤ 4 := by
  cases b <;> decide

/-- Every step keeps the invariant. -/
theorem inv_step {ev : Event} (hT : ∀ j, 1 ≤ j → j ≤ b.valSEpCount + 1 → (T j).Printable)
    (hs : Inv b T s₀ s) (hstep : Step b T s ev s') : Inv b T s₀ s' := by
  have hcount := b.valSEpCount_le
  cases hstep with
  | skip hpc hi habsent =>
    simp only [Inv, hpc] at hs ⊢
    obtain ⟨hpos, -, htables, hwaiting⟩ := hs
    exact ⟨by omega, by omega, htables.congr rfl fun e k => sent_succ_of_absent habsent, hwaiting⟩
  | enter hpc hi hpresent =>
    simp only [Inv, hpc] at hs ⊢
    obtain ⟨hpos, -, htables, hwaiting⟩ := hs
    exact ⟨⟨hpos, hi, hpresent, le_rfl⟩, by omega, htables.congr rfl fun _ _ => Iff.rfl, hwaiting⟩
  | finish hpc hi =>
    simp only [Inv, hpc] at hs ⊢
    obtain ⟨hpos, hle, htables, hwaiting⟩ := hs
    obtain rfl := le_antisymm hle hi
    exact ⟨htables.congr rfl fun _ _ => Iff.rfl, hwaiting⟩
  | leave hpc hj =>
    simp only [Inv, hpc] at hs ⊢
    obtain ⟨haddressed, -, htables, hwaiting⟩ := hs
    have hpos := haddressed.pos
    have hle := haddressed.le
    exact ⟨by omega, by omega,
      htables.congr rfl fun e k => sent_succ_of_present haddressed hj, hwaiting⟩
  | first hpc hj hcall =>
    simp only [Inv, hpc] at hs ⊢
    obtain ⟨haddressed, -, htables, hwaiting⟩ := hs
    rcases hcall.cases with ⟨hrefused, -⟩ | ⟨m', r, table, resp, -, hdelivered, hresume, rfl⟩
    · exact .inl hrefused
    · -- the partition holds the first half, its table stays
      rw [receiverId_syncRequest] at hresume ⊢
      have hone := haddressed.entry
      rw [hwaiting, resume_first (hT _ hone hj) (by omega) hdelivered] at hresume
      obtain ⟨rfl, rfl, -⟩ := hresume
      refine .inr ⟨haddressed, hj, htables.congr (Function.update_eq_self _ _) fun _ _ => Iff.rfl,
        Function.update_self _ _ _, fun e he => ?_⟩
      exact (Function.update_of_ne he _ _).trans (hwaiting e)
  | @second i j fid reply s₁ hpc hcall =>
    by_cases herror : fid = ffaError32 ∨ reply.fid = ffaError32
    · simp only [Inv, if_pos herror]
    · simp only [Inv, hpc, if_neg herror] at hs ⊢
      obtain ⟨hfirst, hsecond⟩ := not_or.mp herror
      obtain ⟨haddressed, hj, htables, hsyncing, hwaiting⟩ := hs.resolve_left hfirst
      rcases hcall.cases with ⟨hrefused, -⟩ | ⟨m', r, table, resp, -, hdelivered, hresume, rfl⟩
      · exact absurd hrefused hsecond
      · -- the partition updates the entry and waits again
        rw [receiverId_syncRequest] at hresume ⊢
        rw [hsyncing, resume_second hdelivered] at hresume
        obtain ⟨rfl, rfl, -⟩ := hresume
        refine ⟨{ haddressed with entry := by omega }, by omega, htables.update haddressed hj,
          fun e => ?_⟩
        by_cases he : e = (T i).id
        · subst he
          exact Function.update_self _ _ _
        · exact (Function.update_of_ne he _ _).trans (hwaiting e he)

/-- The invariant holds when the function is called and every partition waits. -/
theorem inv_start (hpc : s₀.vm1 = .outer 1) (hwaiting : ∀ e, s₀.receivers e = .waiting) :
    Inv b T s₀ s₀ := by
  have hnone (e : BitVec 16) (k : ℕ) : ¬Sent b T 1 1 e k := by
    rintro ⟨hk, -, ⟨i', hi', hlt, -⟩ | ⟨-, hlt⟩⟩ <;> omega
  simp only [Inv, hpc]
  exact ⟨le_rfl, by omega, ⟨fun e k hek => absurd hek (hnone e k), fun _ _ _ => rfl⟩, hwaiting⟩

/-- Some run leads from one state to another. -/
def Leads (b : Build) (T : Table) (s s' : System) : Prop := ∃ evs, Run (Step b T) s evs s'

/-- One step leads to its end. -/
theorem Step.leads {ev : Event} (hstep : Step b T s ev s') : Leads b T s s' :=
  ⟨[] ++ [ev], .snoc .nil hstep⟩

/-- Runs can be joined. -/
theorem Leads.trans {s₁ s₂ s₃ : System} (h₁ : Leads b T s₁ s₂) (h₂ : Leads b T s₂ s₃) :
    Leads b T s₁ s₃ := by
  obtain ⟨evs, hrun⟩ := h₁
  obtain ⟨evs', hrun'⟩ := h₂
  exact ⟨evs ++ evs', hrun.append hrun'⟩

/-- A relayer may change nothing at all. -/
theorem Delivered.same {fid : BitVec 64} {m : FfaArgs} (h : m.fid = fid) : Delivered fid m m :=
  ⟨h, rfl, rfl, rfl, rfl, rfl, rfl⟩

/-- A request is answered when the partition it names has a response to it. -/
theorem call_answered {w : Fin 4 → BitVec 32} {r : Receiver} {table : Table}
    (hresume : resume b.tpmService (s.tables (T i).id) (s.receivers (T i).id) (syncRequest b T i j w) =
      (r, table, some (respond (T i).id (T b.vm1).id))) :
    Call b s (syncRequest b T i j w) (respond (T i).id (T b.vm1).id) (s.serve (T i).id r table) := by
  apply Call.answered (receiverId_syncRequest w).symm (Delivered.same rfl) hresume _ _
    (Delivered.same rfl)
  · exact (receiverId_of_append (endpoints_setWidth _ _)).trans
      (senderId_of_append (endpoints_setWidth _ _)).symm
  · exact senderId_of_append (endpoints_setWidth _ _)

/-- One entry can always be sent. -/
theorem leads_next_entry (hT : (T j).Printable) (hj : j ≤ b.valSEpCount + 1)
    (hpc : s.vm1 = .inner i j) (hwaiting : ∀ e, s.receivers e = .waiting) :
    ∃ s', Leads b T s s' ∧ s'.vm1 = .inner i (j + 1) ∧ ∀ e, s'.receivers e = .waiting := by
  have hcount := b.valSEpCount_le
  have hfirst := Step.first hpc hj (call_answered (by
    rw [hwaiting]
    exact resume_first hT (by omega) (Delivered.same rfl)))
  -- the state between the two halves
  obtain ⟨s₁, hstep, hpc₁, hsyncing, hothers⟩ : ∃ s₁, Step b T s .request s₁ ∧
      s₁.vm1 = .half i j ffaMsgSendDirectResp32 ∧
      s₁.receivers (T i).id = .syncing j (T j).firstHalf (T i).id (T b.vm1).id ∧
      ∀ e, e ≠ (T i).id → s₁.receivers e = .waiting :=
    ⟨_, hfirst, rfl, Function.update_self _ _ _,
      fun e he => (Function.update_of_ne he _ _).trans (hwaiting e)⟩
  have hsecond := Step.second hpc₁ (call_answered (by
    rw [hsyncing]
    exact resume_second (Delivered.same rfl)))
  refine ⟨_, hstep.leads.trans hsecond.leads, ?_, fun e => ?_⟩
  · change (if ffaMsgSendDirectResp32 = ffaError32 ∨ ffaMsgSendDirectResp32 = ffaError32 then
      Vm1.panicked else Vm1.inner i (j + 1)) = _
    exact if_neg (by decide)
  · by_cases he : e = (T i).id
    · subst he
      exact Function.update_self _ _ _
    · exact (Function.update_of_ne he _ _).trans (hothers e he)

/-- All entries can be sent to a partition. -/
theorem leads_next_partition (hT : ∀ j, 1 ≤ j → j ≤ b.valSEpCount + 1 → (T j).Printable)
    (hj : 1 ≤ j) (hj' : j ≤ b.valSEpCount + 2) (hpc : s.vm1 = .inner i j)
    (hwaiting : ∀ e, s.receivers e = .waiting) :
    ∃ s', Leads b T s s' ∧ s'.vm1 = .outer (i + 1) ∧ ∀ e, s'.receivers e = .waiting := by
  -- the induction is on the number of entries that are left
  induction hleft : b.valSEpCount + 2 - j generalizing j s with
  | zero => exact ⟨_, (Step.leave hpc (by omega)).leads, rfl, hwaiting⟩
  | succ left ih =>
    obtain ⟨s₁, hleads, hpc₁, hwaiting₁⟩ :=
      leads_next_entry (b := b) (hT j hj (by omega)) (by omega) hpc hwaiting
    obtain ⟨s₂, hleads', hend⟩ := ih (by omega) (by omega) hpc₁ hwaiting₁ (by omega)
    exact ⟨s₂, hleads.trans hleads', hend⟩

/-- The function returns when the relayer refuses no request. -/
theorem leads_returned (hT : ∀ j, 1 ≤ j → j ≤ b.valSEpCount + 1 → (T j).Printable)
    (hi : i ≤ b.valSEpCount + 1) (hpc : s.vm1 = .outer i)
    (hwaiting : ∀ e, s.receivers e = .waiting) : ∃ s', Leads b T s s' ∧ s'.vm1 = .returned := by
  -- the induction is on the number of partitions that are left
  induction hleft : b.valSEpCount + 1 - i generalizing i s with
  | zero => exact ⟨_, (Step.finish hpc (by omega)).leads, rfl⟩
  | succ left ih =>
    by_cases habsent : (T i).isValid = valPartitionNotPresent
    · obtain ⟨s₁, hleads, hend⟩ := ih (s := { s with vm1 := .outer (i + 1) }) (by omega) rfl hwaiting
        (by omega)
      exact ⟨s₁, (Step.skip hpc (by omega) habsent).leads.trans hleads, hend⟩
    · obtain ⟨s₁, hleads, hpc₁, hwaiting₁⟩ := leads_next_partition hT le_rfl (by omega)
        (s := { s with vm1 := .inner i 1 }) rfl hwaiting
      obtain ⟨s₂, hleads', hend⟩ := ih (by omega) hpc₁ hwaiting₁ (by omega)
      exact ⟨s₂, (Step.enter hpc (by omega) habsent).leads.trans (hleads.trans hleads'), hend⟩

/-- When `val_send_sync_ep_info` returns, entries 1 to `VAL_S_EP_COUNT + 1` of every partition that
VM1 marks present are VM1's and its other entries are unchanged, all other tables are untouched,
and every partition waits for a request. -/
theorem sync_ep_info_agrees {evs : List Event}
    (hT : ∀ j, 1 ≤ j → j ≤ b.valSEpCount + 1 → (T j).Printable)
    (hpc : s₀.vm1 = .outer 1) (hwaiting : ∀ e, s₀.receivers e = .waiting)
    (hrun : Run (Step b T) s₀ evs s) (hreturned : s.vm1 = .returned) :
    (∀ i, 1 ≤ i → i ≤ b.valSEpCount → (T i).isValid ≠ valPartitionNotPresent → ∀ k,
      (1 ≤ k ∧ k ≤ b.valSEpCount + 1 → s.tables (T i).id k = T k) ∧
      (¬(1 ≤ k ∧ k ≤ b.valSEpCount + 1) → s.tables (T i).id k = s₀.tables (T i).id k)) ∧
    (∀ e, (∀ i, 1 ≤ i → i ≤ b.valSEpCount → (T i).isValid ≠ valPartitionNotPresent →
      (T i).id ≠ e) → s.tables e = s₀.tables e) ∧
    ∀ e, s.receivers e = .waiting := by
  have hinv : Inv b T s₀ s :=
    hrun.invariant (inv_start hpc hwaiting) fun _ _ _ hs hstep => inv_step hT hs hstep
  simp only [Inv, hreturned] at hinv
  obtain ⟨htables, hwait⟩ := hinv
  refine ⟨fun i hpos hle hpresent k => ⟨fun hk => ?_, fun hk => ?_⟩, fun e he => ?_, hwait⟩
  · exact htables.sent _ k ⟨hk.1, hk.2, .inl ⟨i, hpos, by omega, hpresent, rfl⟩⟩
  · exact htables.kept _ k fun hsent => hk ⟨hsent.1, hsent.2.1⟩
  · funext k
    apply htables.kept
    rintro ⟨hk, -, ⟨i', hpos, hlt, hpresent, hid⟩ | ⟨-, hlt⟩⟩
    · exact he i' hpos (by omega) hpresent hid
    · omega

/-- A table of five endpoints, of which the fourth is not present. -/
def sampleTable : Table := fun k =>
  ⟨![0x53, 0x50, 0x30 + BitVec.ofNat 8 k, 0, 0], if k = 4 then 0 else 0xf, if k = 5 then 0 else 0xf,
    if k = 5 then 1 else 0x8000 + BitVec.ofNat 16 k, 0, 0x11, 1, 0x70f, ![1, 2, 3, BitVec.ofNat 32 k]⟩

/-- Partitions that wait, with tables that are all zero. -/
def sampleStart : System :=
  ⟨.outer 1, fun _ => .waiting, fun _ _ => ⟨fun _ => 0, 0, 0, 0, 0, 0, 0, 0, fun _ => 0⟩⟩

/-- The sample table reaches the first partition, and the fourth one keeps its own. -/
theorem sync_ep_info_agrees_sample :
    ∃ evs s, Run (Step .partitions sampleTable) sampleStart evs s ∧ s.vm1 = .returned ∧
      s.tables 0x8001 5 = sampleTable 5 ∧ s.tables 0x8001 6 = sampleStart.tables 0x8001 6 ∧
      s.tables 0x8004 = sampleStart.tables 0x8004 ∧ s.receivers 0x8001 = .waiting := by
  have hT : ∀ j, 1 ≤ j → j ≤ Build.partitions.valSEpCount + 1 → (sampleTable j).Printable := by
    intro j hj hle
    have hfive : j ≤ 5 := hle
    interval_cases j <;> decide
  obtain ⟨s, ⟨evs, hrun⟩, hreturned⟩ :=
    leads_returned (s := sampleStart) hT (by decide) rfl fun _ => rfl
  obtain ⟨htables, hothers, hwaiting⟩ := sync_ep_info_agrees hT rfl (fun _ => rfl) hrun hreturned
  have hfirst := htables 1 (by decide) (by decide) (by decide)
  refine ⟨evs, s, hrun, hreturned, (hfirst 5).1 (by decide), (hfirst 6).2 (by decide),
    hothers 0x8004 ?_, hwaiting 0x8001⟩
  intro i hi hle hpresent
  have hfour : i ≤ 4 := hle
  interval_cases i
  · decide
  · decide
  · decide
  · exact absurd rfl hpresent

end Invariant

end FfaAcs.Sync
