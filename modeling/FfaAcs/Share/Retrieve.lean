import FfaAcs.Share.Stale

/-!
# Retrieve requests

What `val_ffa_memory_retrieve_request_init` leaves for one receiver, and for two. The number of
receivers and their entries are filled in by the header function for one receiver, and by a loop
for several. The version 1.0 build leaves the loop out: a request for several receivers sends the
number and the entries that the buffer held.
-/

namespace FfaAcs.Share

open Machine

/-- Entry `i` of a request holds the receiver, the permissions of the request and the flags of the
receiver, and no composite region. The byte of the permissions has the data access in bits 0 and 1 and the
instruction access in bits 2 and 3. -/
structure HoldsReceiver (v : FfaVersion) (r : MemRegionInit) (m : ByteMemory) (i : ℕ)
    (a : ReceiverInit) : Prop where
  receiver : (MemoryAccess.receiver (MemoryRegion.receivers v i)).get m = a.receiver.toNat
  permissions : (MemoryAccess.permissions (MemoryRegion.receivers v i)).get m =
    r.dataAccess.code + 4 * r.instructionAccess.code
  flags : (MemoryAccess.flags (MemoryRegion.receivers v i)).get m = a.flags.toNat
  composite : (MemoryAccess.compositeMemoryRegionOffset (MemoryRegion.receivers v i)).get m = 0

/-- A retrieve request names all receivers, and its length is that of the header and their entries. -/
structure RequestsAll (v : FfaVersion) (r : MemRegionInit) (result : ByteMemory × ℕ) : Prop where
  length : result.2 = sizeofMemoryRegion v + r.allReceivers.length * sizeofMemoryAccess v
  count : MemoryRegion.receiverCount.get result.1 = r.allReceivers.length
  receivers : ∀ i (hi : i < r.allReceivers.length), HoldsReceiver v r result.1 i r.allReceivers[i]

section

variable {v : FfaVersion} {r : MemRegionInit}

/-- The number of receivers that the last loop runs over. -/
theorem length_allReceivers (r : MemRegionInit) :
    r.allReceivers.length = if r.multiShare then r.receiverCount else 1 := by
  cases hmulti : r.multiShare with
  | false => simp [MemRegionInit.allReceivers, hmulti]
  | true => simp [MemRegionInit.allReceivers, hmulti, length_sharedReceivers hmulti]

/-- The last loop assigns no field twice. -/
theorem clearAssigns_disjoint (v : FfaVersion) {k : ℕ} (hk : k ≤ 2) :
    ((clearAssigns v 0 k).map Prod.fst).Pairwise Field.Disjoint := by
  interval_cases k <;> cases v <;> decide

/-- The last loop clears the offset of every receiver. -/
theorem offset_mem_clearAssigns (v : FfaVersion) {i k : ℕ} (hk : k ≤ 2) (hi : i < k) :
    (MemoryAccess.compositeMemoryRegionOffset (MemoryRegion.receivers v i), 0) ∈ clearAssigns v 0 k := by
  interval_cases k <;> interval_cases i <;> cases v <;> decide

/-- The last loop leaves the first four bytes of every entry alone. -/
theorem clearAssigns_keeps (v : FfaVersion) {i k : ℕ} (hk : k ≤ 2) (hi : i < k) :
    ∀ w ∈ clearAssigns v 0 k, ∀ f ∈ [MemoryAccess.receiver (MemoryRegion.receivers v i),
      MemoryAccess.permissions (MemoryRegion.receivers v i),
      MemoryAccess.flags (MemoryRegion.receivers v i)], w.1.Disjoint f := by
  interval_cases k <;> interval_cases i <;> cases v <;> decide

/-- A retrieve request fills in the receivers first and clears the offsets last, except for several
receivers in version 1.0. -/
theorem retrieveAssigns_eq (handle : UInt64) (hlayout : ¬(v = .v1_0 ∧ r.multiShare = true)) :
    retrieveAssigns v r handle =
      filledAssigns v r handle.toNat ++ clearAssigns v 0 r.allReceivers.length := by
  have hfilled : (v ≠ .v1_0 ∧ r.multiShare = true) ↔ r.multiShare = true :=
    ⟨And.right, fun hmulti => ⟨fun hv => hlayout ⟨hv, hmulti⟩, hmulti⟩⟩
  simp only [retrieveAssigns, filledAssigns, length_allReceivers, hfilled]

/-- A field of the first four bytes of an entry holds what the request assigns to it. -/
theorem get_retrieve (handle : UInt64) (m : ByteMemory) (hlayout : ¬(v = .v1_0 ∧ r.multiShare = true))
    {i x : ℕ} {f : Field} (hi : i < r.allReceivers.length)
    (hf : f ∈ [MemoryAccess.receiver (MemoryRegion.receivers v i),
      MemoryAccess.permissions (MemoryRegion.receivers v i),
      MemoryAccess.flags (MemoryRegion.receivers v i)])
    (hmem : (f, x) ∈ receiverAssigns v (MemoryRegion.receivers v i)
      (permissionsOf r.dataAccess r.instructionAccess) r.allReceivers[i]) (hx : x < 256 ^ f.width) :
    f.get (assign m (retrieveAssigns v r handle)) = x := by
  rw [retrieveAssigns_eq handle hlayout, assign_append, get_assign_of_disjoint _ fun w hw =>
    clearAssigns_keeps v (length_allReceivers_le r) hi w hw f hf,
    get_assign_of_mem m (filledAssigns_disjoint v r _) (receiverAssigns_subset_filled v _ hi hmem),
    Nat.mod_eq_of_lt hx]

/-- The byte that both functions assemble from the permissions. -/
theorem permissionsOf_eq (data : DataAccess) (instruction : InstructionAccess) :
    permissionsOf data instruction = data.code + 4 * instruction.code := by
  cases data <;> cases instruction <;> decide

/-- Every entry of a request holds its receiver. -/
theorem holdsReceiver_retrieve (handle : UInt64) (m : ByteMemory)
    (hlayout : ¬(v = .v1_0 ∧ r.multiShare = true)) {i : ℕ} (hi : i < r.allReceivers.length) :
    HoldsReceiver v r (assign m (retrieveAssigns v r handle)) i r.allReceivers[i] := by
  obtain ⟨hbyte, -, -⟩ := permissionsOf_spec r.dataAccess r.instructionAccess
  have hpermissions : (MemoryAccess.permissions (MemoryRegion.receivers v i)).get
      (assign m (retrieveAssigns v r handle)) = permissionsOf r.dataAccess r.instructionAccess :=
    get_retrieve handle m hlayout hi (by simp) (by simp [receiverAssigns]) hbyte
  refine ⟨?_, ?_, ?_, ?_⟩
  · exact get_retrieve handle m hlayout hi (by simp) (by simp [receiverAssigns]) (UInt16.toNat_lt _)
  · rw [hpermissions, permissionsOf_eq]
  · exact get_retrieve handle m hlayout hi (by simp) (by simp [receiverAssigns]) (UInt8.toNat_lt _)
  · have hlength := length_allReceivers_le r
    rw [retrieveAssigns_eq handle hlayout, assign_append, get_assign_of_mem _
      (clearAssigns_disjoint v hlength) (offset_mem_clearAssigns v hlength hi), Nat.zero_mod]

end

/-- Whatever the buffer held, a retrieve request for one receiver, or for two, names all receivers
exactly when it is not one for several receivers in version 1.0. -/
theorem retrieve_requests_all_iff (v : FfaVersion) (r : MemRegionInit) (handle : UInt64)
    (hreceivers : r.multiShare = true → r.receiverCount = 2) :
    (∀ m, RequestsAll v r (valFfaMemoryRetrieveRequestInit v r handle m)) ↔
      ¬(v = .v1_0 ∧ r.multiShare = true) := by
  simp only [valFfaMemoryRetrieveRequestInit_eq]
  constructor
  · rintro hall ⟨rfl, hmulti⟩
    -- a cleared buffer says that there are no receivers
    have hcount := (hall fun _ => 0).count
    rw [length_allReceivers, if_pos hmulti, hreceivers hmulti] at hcount
    simp only [receiverCount_retrieve, hmulti, if_true] at hcount
    exact absurd hcount (by decide)
  · intro hlayout m
    have hcount : MemoryRegion.receiverCount.get (assign m (retrieveAssigns v r handle)) =
        r.allReceivers.length := by
      rw [receiverCount_retrieve, length_allReceivers]
      by_cases hmulti : r.multiShare = true
      · rw [if_pos hmulti, if_pos hmulti, if_neg fun hv => hlayout ⟨hv, hmulti⟩]
      · rw [if_neg hmulti, if_neg hmulti]
    refine ⟨?_, hcount, fun i hi => holdsReceiver_retrieve handle m hlayout hi⟩
    have hlength := length_allReceivers_le r
    have hheader : sizeofMemoryRegion v ≤ 48 := by cases v <;> decide
    have haccess : sizeofMemoryAccess v ≤ 32 := by cases v <;> decide
    simp only [hcount]
    exact wrap32_of_lt (by nlinarith)

/-- A request for the receivers 2 and 3. -/
def twoReceiverRequest : MemRegionInit :=
  { onePageRequest 4096 with
    multiShare := true
    receiverCount := 2
    receivers := fun i => ⟨2 + i.val.toUInt16, 0, ⟨0, 0⟩⟩
    receiverCount_le := by decide }

/-- In version 1.1 a request for two receivers names both. -/
theorem two_receivers_requested :
    RequestsAll .v1_1 twoReceiverRequest
      (valFfaMemoryRetrieveRequestInit .v1_1 twoReceiverRequest 0 fun _ => 0xAA) :=
  (retrieve_requests_all_iff .v1_1 twoReceiverRequest 0 (by decide)).mpr (by decide) _

/-- In version 1.0 the same request, in a cleared buffer, names none. -/
theorem two_receivers_dropped :
    (valFfaMemoryRetrieveRequestInit .v1_0 twoReceiverRequest 0 fun _ => 0).2 = 32 ∧
      MemoryRegion.receiverCount.get
        (valFfaMemoryRetrieveRequestInit .v1_0 twoReceiverRequest 0 fun _ => 0).1 = 0 ∧
      ¬RequestsAll .v1_0 twoReceiverRequest
        (valFfaMemoryRetrieveRequestInit .v1_0 twoReceiverRequest 0 fun _ => 0) := by
  have hlength : (valFfaMemoryRetrieveRequestInit .v1_0 twoReceiverRequest 0 fun _ => 0).2 = 32 := by
    decide +kernel
  refine ⟨hlength, by decide +kernel, fun hall => ?_⟩
  have hrequested := hall.length
  rw [hlength] at hrequested
  exact absurd hrequested (by decide)

end FfaAcs.Share
