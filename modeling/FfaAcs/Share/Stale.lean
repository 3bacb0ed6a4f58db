import FfaAcs.Share.RoundTrip

/-!
# Stale bytes in a transaction descriptor

Two runs of the same request on buffers with different contents should leave the same message. In
version 1.0 every byte of the header is a field. From version 1.1 on nobody writes the byte after
the attributes, and it keeps what the buffer held. A retrieve request for several receivers of
version 1.0 does not even write the number of receivers, and sends as many as the buffer said.
-/

namespace FfaAcs.Share

open Machine

/-- Two results of `val_ffa_memory_region_init` have the same fragment, or neither returns. -/
def SameFragment : Option InitResult → Option InitResult → Prop
  | some x, some y => x.fragmentLength = y.fragmentLength ∧ ∀ i < x.fragmentLength, x.mem i = y.mem i
  | none, none => True
  | _, _ => False

/-- Two results of `val_ffa_memory_retrieve_request_init` have the same message. -/
def SameRequest (x y : ByteMemory × ℕ) : Prop := x.2 = y.2 ∧ ∀ i < x.2, x.1 i = y.1 i

/-- The fragment length that `val_ffa_memory_region_init` stores. -/
def fragmentBytes (v : FfaVersion) (r : MemRegionInit) (n : ℕ) : ℕ :=
  wrap32 (compositeAt v r + sizeofComposite + copied v r n * sizeofConstituent)

section

variable {v : FfaVersion} {r : MemRegionInit} {cs : List Constituent}

/-! ## Sharing -/

/-- The constituents that are copied leave no gap. -/
theorem covers_constituents {composite i x : ℕ} (hlow : Composite.constituents composite i ≤ x)
    (hhigh : x < Composite.constituents composite (i + cs.length)) :
    Covers (constituentsAssigns composite i cs) x := by
  induction cs generalizing i with
  | nil =>
    rw [List.length_nil, Nat.add_zero] at hhigh
    omega
  | cons c cs ih =>
    rw [constituentsAssigns, covers_append]
    by_cases hnext : Composite.constituents composite (i + 1) ≤ x
    · right
      refine ih hnext ?_
      rw [List.length_cons] at hhigh
      rwa [Nat.add_right_comm]
    · left
      simp only [Composite.constituents, sizeofConstituent] at hnext hlow
      simp only [constituentAssigns, covers_cons, not_covers_nil, or_false, Constituents.address,
        Constituents.pageCount, Constituents.reserved, Composite.constituents, sizeofConstituent]
      omega

/-- The fields of a version 1.0 descriptor leave no gap. -/
theorem descriptorFields_cover {n : ℕ} (hn : n ≤ 2) :
    ∀ x < MemoryRegion.receivers .v1_0 n, ∃ f ∈ descriptorFields .v1_0 n,
      f.offset ≤ x ∧ x < f.offset + f.width := by
  interval_cases n <;> decide

/-- From version 1.1 on the byte after the attributes belongs to no field. -/
theorem descriptorFields_padding {n : ℕ} (hn : n ≤ 2) (hv : v ≠ .v1_0) :
    ∀ f ∈ descriptorFields v n, ¬(f.offset ≤ 3 ∧ 3 < f.offset + f.width) := by
  cases v with
  | v1_0 => exact absurd rfl hv
  | v1_1 => interval_cases n <;> decide
  | v1_2 => interval_cases n <;> decide

/-- A version 1.0 message has no byte that is not assigned. -/
theorem covers_message {x : ℕ}
    (hx : x < compositeAt .v1_0 r + sizeofComposite + copied .v1_0 r cs.length * sizeofConstituent) :
    Covers (messageAssigns .v1_0 r cs) x := by
  have hlength : (cs.take (copied .v1_0 r cs.length)).length = copied .v1_0 r cs.length := by
    rw [List.length_take, Nat.min_eq_left]
    unfold copied
    split <;> omega
  simp only [messageAssigns, covers_append, covers_cons, not_covers_nil, or_false,
    Composite.constituentCount, Composite.reserved0, Composite.pageCount]
  by_cases hdescriptor : x < compositeAt .v1_0 r
  · obtain ⟨f, hf, hin⟩ := descriptorFields_cover (length_allReceivers_le r) x hdescriptor
    rw [← map_descriptorAssigns, List.mem_map] at hf
    obtain ⟨w, hw, rfl⟩ := hf
    exact Or.inl (Or.inl (Or.inl ⟨w, hw, hin⟩))
  · by_cases hcomposite : x < compositeAt .v1_0 r + 16
    · omega
    · refine Or.inl (Or.inr (covers_constituents ?_ ?_))
      · simp only [Composite.constituents, sizeofComposite]
        omega
      · rw [hlength, Nat.zero_add]
        exact hx

/-- From version 1.1 on the byte after the attributes is not assigned. -/
theorem not_covers_padding (hv : v ≠ .v1_0) : ¬Covers (messageAssigns v r cs) 3 := by
  have hat := (compositeAt_bounds v r).1
  simp only [messageAssigns, covers_append, covers_cons, not_covers_nil, or_false,
    Composite.constituentCount, Composite.reserved0, Composite.pageCount, not_or]
  refine ⟨⟨⟨?_, by omega, by omega⟩, ?_⟩, by omega⟩
  · rintro ⟨w, hw, hin⟩
    refine descriptorFields_padding (length_allReceivers_le r) hv w.1 ?_ hin
    rw [← map_descriptorAssigns]
    exact List.mem_map_of_mem hw
  · refine not_covers_of_within (constituentsAssigns_within _ _ _) (Or.inl ?_)
    simp only [Composite.constituents]
    omega

/-- A fragment length is a multiple of sixteen. -/
theorem fragmentBytes_mod (v : FfaVersion) (r : MemRegionInit) (n : ℕ) :
    fragmentBytes v r n % 16 = 0 := by
  have hat : compositeAt v r % 16 = 0 := by
    rw [compositeAt, MemoryRegion.receivers]
    cases v <;> simp only [sizeofMemoryRegion, sizeofMemoryAccess] <;> omega
  simp only [fragmentBytes, sizeofComposite, sizeofConstituent, wrap32]
  omega

/-- Without a receiver the offset of the composite region is whatever the buffer held. -/
theorem getComposite_of_nil (hnone : r.allReceivers = []) (m : ByteMemory) :
    ffaMemoryRegionGetComposite v (fillDescriptor v r m) 0 = ffaMemoryRegionGetComposite v m 0 := by
  have hfields : ∀ f ∈ descriptorFields v 0,
      f.Disjoint (MemoryAccess.compositeMemoryRegionOffset (MemoryRegion.receivers v 0)) := by
    cases v <;> decide
  rw [ffaMemoryRegionGetComposite, fillDescriptor_eq, get_assign_of_disjoint]
  · rfl
  · intro w hw
    refine hfields w.1 ?_
    have hmap := map_descriptorAssigns v r
    rw [hnone, List.length_nil] at hmap
    rw [← hmap]
    exact List.mem_map_of_mem hw

/-- Without a receiver there is a buffer for which nothing is returned. -/
theorem valFfaMemoryRegionInit_of_nil (hnone : r.allReceivers = []) :
    valFfaMemoryRegionInit v r cs (fun _ => 0) = none := by
  have hzeros : ffaMemoryRegionGetComposite v (fun _ => 0) 0 = none := by cases v <;> decide
  simp only [valFfaMemoryRegionInit, getComposite_of_nil hnone, hzeros]

/-- Without a receiver one buffer makes the function return and another does not. -/
theorem not_sameFragment_of_nil (hnone : r.allReceivers = []) :
    ¬∀ m₁ m₂, SameFragment (valFfaMemoryRegionInit v r cs m₁) (valFfaMemoryRegionInit v r cs m₂) := by
  intro hsame
  have hones : ∃ c, ffaMemoryRegionGetComposite v (fun _ => 1) 0 = some c := by
    cases v <;> exact ⟨_, rfl⟩
  obtain ⟨c, hones⟩ := hones
  have hpair := hsame (fun _ => 0) fun _ => 1
  rw [valFfaMemoryRegionInit_of_nil hnone] at hpair
  simp only [valFfaMemoryRegionInit, getComposite_of_nil hnone, hones, SameFragment] at hpair

/-- Whether two runs of `val_ffa_memory_region_init` leave the same fragment. -/
theorem sameFragment_iff (hcount : cs.length < 2 ^ 32) :
    (∀ m₁ m₂, SameFragment (valFfaMemoryRegionInit v r cs m₁) (valFfaMemoryRegionInit v r cs m₂)) ↔
      r.allReceivers ≠ [] ∧ (v = .v1_0 ∨ fragmentBytes v r cs.length = 0) := by
  constructor
  · intro hsame
    have hreceiver : r.allReceivers ≠ [] := fun hnone => not_sameFragment_of_nil hnone hsame
    refine ⟨hreceiver, ?_⟩
    by_contra hstale
    rw [not_or] at hstale
    have hmod := fragmentBytes_mod v r cs.length
    -- the padding byte keeps what the two buffers held
    have hpair := hsame (fun _ => 0) fun _ => 1
    rw [valFfaMemoryRegionInit_eq v r hcount hreceiver,
      valFfaMemoryRegionInit_eq v r hcount hreceiver] at hpair
    have hbyte := hpair.2 3 (by
      change 3 < fragmentBytes v r cs.length
      omega)
    simp only [assign_of_not_covers _ (not_covers_padding hstale.1)] at hbyte
    exact absurd hbyte (by decide)
  · rintro ⟨hreceiver, hlayout⟩ m₁ m₂
    rw [valFfaMemoryRegionInit_eq v r hcount hreceiver, valFfaMemoryRegionInit_eq v r hcount hreceiver]
    refine ⟨rfl, fun x hx => ?_⟩
    change x < fragmentBytes v r cs.length at hx
    rcases hlayout with rfl | hempty
    · have hle : fragmentBytes .v1_0 r cs.length ≤ _ := Nat.mod_le _ _
      exact assign_eq_of_covers _ _ (Or.inl (covers_message (hx.trans_le hle)))
    · omega

/-! ## Retrieving -/

/-- The assignments of the last loop for `k` receivers from entry `i` on. -/
def clearAssigns (v : FfaVersion) (i : ℕ) : ℕ → List (Field × ℕ)
  | 0 => []
  | k + 1 => (MemoryAccess.compositeMemoryRegionOffset (MemoryRegion.receivers v i), 0) ::
      (MemoryAccess.reserved0 (MemoryRegion.receivers v i) v, 0) :: clearAssigns v (i + 1) k

/-- The last loop as one list. -/
theorem clearCompositeOffsets_eq (v : FfaVersion) (i k : ℕ) (m : ByteMemory) :
    clearCompositeOffsets v m i k = assign m (clearAssigns v i k) := by
  induction k generalizing m i with
  | zero => rfl
  | succ k ih => exact ih _ _

/-- The last loop assigns only fields behind the header. -/
theorem clearAssigns_behind (v : FfaVersion) (i k : ℕ) :
    ∀ w ∈ clearAssigns v i k, sizeofMemoryRegion v ≤ w.1.offset := by
  induction k generalizing i with
  | zero => simp [clearAssigns]
  | succ k ih =>
    simp only [clearAssigns, List.mem_cons]
    rintro w (rfl | rfl | hw)
    · simp only [MemoryAccess.compositeMemoryRegionOffset, MemoryRegion.receivers]
      omega
    · cases v <;> simp only [MemoryAccess.reserved0, MemoryRegion.receivers] <;> omega
    · exact ih _ w hw

/-- The assignments of a retrieve request. -/
def retrieveAssigns (v : FfaVersion) (r : MemRegionInit) (handle : UInt64) : List (Field × ℕ) :=
  headerAssigns v r (attributesOf r.type r.cacheability r.shareability) handle.toNat
      (permissionsOf r.dataAccess r.instructionAccess) ++
    (if v ≠ .v1_0 ∧ r.multiShare = true then (MemoryRegion.receiverCount, r.receiverCount) ::
      receiversAssigns v (permissionsOf r.dataAccess r.instructionAccess) 0 r.sharedReceivers else []) ++
    clearAssigns v 0 (if r.multiShare then r.receiverCount else 1)

/-- A retrieve request is its list of assignments, and its length is read from the result. -/
theorem valFfaMemoryRetrieveRequestInit_eq (v : FfaVersion) (r : MemRegionInit) (handle : UInt64)
    (m : ByteMemory) :
    valFfaMemoryRetrieveRequestInit v r handle m = (assign m (retrieveAssigns v r handle),
      wrap32 (sizeofMemoryRegion v + MemoryRegion.receiverCount.get
        (assign m (retrieveAssigns v r handle)) * sizeofMemoryAccess v)) := by
  have hmem : (valFfaMemoryRetrieveRequestInit v r handle m).1 =
      assign m (retrieveAssigns v r handle) := by
    simp only [valFfaMemoryRetrieveRequestInit, retrieveAssigns, assign_append, fillReceivers_eq,
      clearCompositeOffsets_eq, ffaMemoryRegionRetrieveInitHeader]
    split <;> split <;> rfl
  rw [← hmem]
  rfl

/-- The number of receivers that a retrieve request sends, read back from the buffer. In version 1.0
a request for several receivers sends the number that the buffer held. -/
theorem receiverCount_retrieve (v : FfaVersion) (r : MemRegionInit) (handle : UInt64)
    (m : ByteMemory) :
    MemoryRegion.receiverCount.get (assign m (retrieveAssigns v r handle)) =
      if r.multiShare = true then
        (if v = .v1_0 then MemoryRegion.receiverCount.get m else r.receiverCount)
      else 1 := by
  have hclear (i k : ℕ) : ∀ w ∈ clearAssigns v i k, w.1.Disjoint MemoryRegion.receiverCount := by
    intro w hw
    have hbehind := clearAssigns_behind v i k w hw
    have hheader : 32 ≤ sizeofMemoryRegion v := by cases v <;> decide
    exact disjoint_receiverCount (hheader.trans hbehind)
  rw [retrieveAssigns, assign_append, assign_append, get_assign_of_disjoint _ (hclear _ _)]
  cases hmulti : r.multiShare with
  | false =>
    have hreceiver (permissions : ℕ) (a : ReceiverInit) :
        ∀ w ∈ receiverAssigns v (MemoryRegion.receivers v 0) permissions a,
          w.1.Disjoint MemoryRegion.receiverCount := fun w hw =>
      disjoint_receiverCount ((le_receivers v 0).trans (receiverAssigns_within v _ permissions a w hw).1)
    simp only [Bool.false_eq_true, and_false, if_false, assign, headerAssigns, hmulti]
    rw [assign_append, assign, get_assign_of_disjoint _ (hreceiver _ _), Field.get_set_same]
    rfl
  | true =>
    cases v with
    | v1_0 =>
      simp only [ne_eq, not_true_eq_false, false_and, if_false, assign, if_true]
      refine get_assign_of_disjoint _ ?_
      simp only [headerAssigns, hmulti, if_true, List.append_nil, List.cons_append, List.nil_append,
        List.mem_cons, List.not_mem_nil, or_false, forall_eq_or_imp, forall_eq]
      decide
    | v1_1 =>
      have hcount := r.receiverCount_le hmulti
      simp only [ne_eq, reduceCtorEq, not_false_eq_true, true_and, if_true, if_false, assign]
      rw [get_assign_of_disjoint _ fun w hw => disjoint_receiverCount
        (receiversAssigns_behind _ _ _ _ w hw), Field.get_set_same]
      exact Nat.mod_eq_of_lt (hcount.trans_lt (by decide))
    | v1_2 =>
      have hcount := r.receiverCount_le hmulti
      simp only [ne_eq, reduceCtorEq, not_false_eq_true, true_and, if_true, if_false, assign]
      rw [get_assign_of_disjoint _ fun w hw => disjoint_receiverCount
        (receiversAssigns_behind _ _ _ _ w hw), Field.get_set_same]
      exact Nat.mod_eq_of_lt (hcount.trans_lt (by decide))

/-- A version 1.0 retrieve request for one receiver has no byte that is not assigned. -/
theorem covers_retrieve (handle : UInt64) (hsingle : r.multiShare = false) {x : ℕ} (hx : x < 48) :
    Covers (retrieveAssigns .v1_0 r handle) x := by
  simp only [retrieveAssigns, headerAssigns, receiverAssigns, clearAssigns, hsingle, covers_append,
    covers_cons, not_covers_nil, or_false, MemoryRegion.sender, MemoryRegion.attributes,
    MemoryRegion.reserved0, MemoryRegion.reserved1, MemoryRegion.flags, MemoryRegion.handle,
    MemoryRegion.tag, MemoryRegion.receiverCount, MemoryAccess.receiver, MemoryAccess.permissions,
    MemoryAccess.flags, MemoryAccess.reserved0, MemoryAccess.compositeMemoryRegionOffset,
    MemoryRegion.receivers, sizeofMemoryRegion, Bool.false_eq_true, and_false, if_false]
  omega

/-- From version 1.1 on a retrieve request does not assign the byte after the attributes. -/
theorem not_covers_retrieve_padding (handle : UInt64) (hv : v ≠ .v1_0) :
    ¬Covers (retrieveAssigns v r handle) 3 := by
  have hbehind {ws : List (Field × ℕ)} (h : ∀ w ∈ ws, 32 ≤ w.1.offset) : ¬Covers ws 3 := by
    rintro ⟨w, hw, hlow, -⟩
    have := h w hw
    omega
  have hreceiver (permissions : ℕ) (a : ReceiverInit) :
      ∀ w ∈ receiverAssigns v (MemoryRegion.receivers v 0) permissions a, 32 ≤ w.1.offset :=
    fun w hw => (le_receivers v 0).trans (receiverAssigns_within v _ permissions a w hw).1
  have hheader (attributes permissions : ℕ) :
      ¬Covers (headerAssigns v r attributes handle.toNat permissions) 3 := by
    have hone := hbehind (hreceiver permissions ⟨r.receiver, 0, r.impdef⟩)
    cases v with
    | v1_0 => exact absurd rfl hv
    | v1_1 | v1_2 =>
      simp only [headerAssigns, covers_append, covers_cons, not_covers_nil, or_false,
        MemoryRegion.sender, MemoryRegion.attributes, MemoryRegion.reserved,
        MemoryRegion.receiversOffset, MemoryRegion.memoryAccessDescSize, MemoryRegion.flags,
        MemoryRegion.handle, MemoryRegion.tag]
      split
      · simp
      · simp [MemoryRegion.receiverCount, hone]
  have hclear (i k : ℕ) : ¬Covers (clearAssigns v i k) 3 := by
    refine hbehind fun w hw => Nat.le_trans ?_ (clearAssigns_behind v i k w hw)
    cases v <;> decide
  rw [retrieveAssigns, covers_append, covers_append, not_or, not_or]
  refine ⟨⟨hheader _ _, ?_⟩, hclear _ _⟩
  split
  · rw [covers_cons, not_or]
    exact ⟨by simp [MemoryRegion.receiverCount], hbehind (receiversAssigns_behind _ _ _ _)⟩
  · simp

/-- Whether two runs of `val_ffa_memory_retrieve_request_init` leave the same message. -/
theorem sameRequest_iff (handle : UInt64) :
    (∀ m₁ m₂, SameRequest (valFfaMemoryRetrieveRequestInit v r handle m₁)
        (valFfaMemoryRetrieveRequestInit v r handle m₂)) ↔ v = .v1_0 ∧ r.multiShare = false := by
  simp only [valFfaMemoryRetrieveRequestInit_eq, receiverCount_retrieve, SameRequest]
  constructor
  · intro hsame
    have hversion : v = .v1_0 := by
      by_contra hv
      -- the padding byte keeps what the two buffers held
      have hbyte := (hsame (fun _ => 0) fun _ => 1).2 3 (by
        have hcount : r.multiShare = true → r.receiverCount ≤ 2 := r.receiverCount_le
        have hheader : 32 ≤ sizeofMemoryRegion v ∧ sizeofMemoryRegion v ≤ 48 := by cases v <;> decide
        have haccess : sizeofMemoryAccess v ≤ 32 := by cases v <;> decide
        rw [if_neg hv, wrap32_of_lt]
        · omega
        · split
          case isTrue hmulti => nlinarith [hcount hmulti]
          case isFalse => omega)
      simp only [assign_of_not_covers _ (not_covers_retrieve_padding handle hv)] at hbyte
      exact absurd hbyte (by decide)
    refine ⟨hversion, ?_⟩
    by_contra hmulti
    rw [Bool.not_eq_false] at hmulti
    subst hversion
    -- the length is computed from a number that the buffer held
    have hlength := (hsame (fun _ => 0) (MemoryRegion.receiverCount.set (fun _ => 0) 1)).1
    simp only [hmulti, if_true, Field.get_set_same] at hlength
    exact absurd hlength (by decide)
  · rintro ⟨rfl, hsingle⟩ m₁ m₂
    simp only [hsingle, Bool.false_eq_true, if_false, true_and]
    intro x hx
    exact assign_eq_of_covers _ _ (Or.inl (covers_retrieve handle hsingle hx))

end

/-- The bytes that are sent do not depend on what the TX buffer held exactly in version 1.0, for a
sharing request that names a receiver and for a retrieve request for one receiver. The one
exception are messages whose 32-bit fragment length has wrapped to zero. -/
theorem no_stale_bytes_iff (v : FfaVersion) (r : MemRegionInit) (handle : UInt64)
    (cs : List Constituent) (hcount : cs.length < 2 ^ 32) :
    ((∀ m₁ m₂, SameFragment (valFfaMemoryRegionInit v r cs m₁) (valFfaMemoryRegionInit v r cs m₂)) ↔
        r.allReceivers ≠ [] ∧ (v = .v1_0 ∨ fragmentBytes v r cs.length = 0)) ∧
      ((∀ m₁ m₂, SameRequest (valFfaMemoryRetrieveRequestInit v r handle m₁)
          (valFfaMemoryRetrieveRequestInit v r handle m₂)) ↔ v = .v1_0 ∧ r.multiShare = false) :=
  ⟨sameFragment_iff hcount, sameRequest_iff handle⟩

/-- In version 1.0 the message of one page is the same from a cleared buffer and a used one. -/
theorem one_page_not_stale :
    SameFragment (valFfaMemoryRegionInit .v1_0 (onePageRequest 0) [onePage] fun _ => 0)
      (valFfaMemoryRegionInit .v1_0 (onePageRequest 0) [onePage] fun _ => 0xAA) :=
  (no_stale_bytes_iff .v1_0 (onePageRequest 0) 0 [onePage] (by decide)).1.mpr
    ⟨allReceivers_ne_nil (by decide), Or.inl rfl⟩ _ _

/-- In version 1.1 byte 3 of the same message is the one that the buffer held. -/
theorem one_page_stale :
    (valFfaMemoryRegionInit .v1_1 (onePageRequest 0) [onePage] fun _ => 0).map
        (fun result => (result.fragmentLength, result.mem 3)) = some (96, 0) ∧
      (valFfaMemoryRegionInit .v1_1 (onePageRequest 0) [onePage] fun _ => 0xAA).map
        (fun result => (result.fragmentLength, result.mem 3)) = some (96, 0xAA) := by
  constructor <;> decide +kernel

end FfaAcs.Share
