import FfaAcs.Share.Descriptor
import Mathlib.Data.List.OfFn

/-!
# Filling in a transaction descriptor

`val_ffa_memory_region_init` and `val_ffa_memory_retrieve_request_init`, on a TX buffer that holds
anything. Straight-line assignments are lists, in the order of the source. The offset of the
composite region, the number of receivers and the counts are read back from the buffer where the
source reads them back. The log messages are left out.

When the request names a receiver, the result is a list of assignments that does not depend on the
buffer. Everything else about the functions is read off that list.
-/

namespace FfaAcs.Share

open Machine

/-- The entries of the array that a request for several receivers names. -/
def MemRegionInit.sharedReceivers (r : MemRegionInit) : List ReceiverInit :=
  (List.ofFn r.receivers).take r.receiverCount

/-- The assignments to one receiver, but for the offset of the composite region. -/
def receiverAssigns (v : FfaVersion) (base permissions : ℕ) (a : ReceiverInit) : List (Field × ℕ) :=
  [(MemoryAccess.receiver base, a.receiver.toNat),
    (MemoryAccess.permissions base, permissions),
    (MemoryAccess.flags base, a.flags.toNat),
    (MemoryAccess.reserved0 base v, 0)] ++
  match v with
  | .v1_0 | .v1_1 => []
  | .v1_2 =>
    [(MemoryAccess.impdef base 0, a.impdef.val0.toNat),
      (MemoryAccess.impdef base 1, a.impdef.val1.toNat)]

/-- The assignments of the two functions that fill in the header. -/
def headerAssigns (v : FfaVersion) (r : MemRegionInit) (attributes handle permissions : ℕ) :
    List (Field × ℕ) :=
  [(MemoryRegion.sender, r.sender.toNat), (MemoryRegion.attributes, attributes)] ++
  (match v with
    | .v1_0 => [(MemoryRegion.reserved0, 0), (MemoryRegion.reserved1, 0)]
    | .v1_1 | .v1_2 =>
      [(MemoryRegion.reserved 0, 0), (MemoryRegion.reserved 1, 0), (MemoryRegion.reserved 2, 0),
        (MemoryRegion.receiversOffset, epMemAccessDescArrOffset),
        (MemoryRegion.memoryAccessDescSize, sizeofMemoryAccess v)]) ++
  [(MemoryRegion.flags, r.flags.toNat), (MemoryRegion.handle, handle),
    (MemoryRegion.tag, r.tag.toNat)] ++
  if r.multiShare then []
  else (MemoryRegion.receiverCount, 1) ::
    receiverAssigns v (MemoryRegion.receivers v 0) permissions ⟨r.receiver, 0, r.impdef⟩

def ffaMemoryRegionInitHeader (v : FfaVersion) (r : MemRegionInit)
    (attributes handle permissions : ℕ) (m : ByteMemory) : ByteMemory :=
  assign m (headerAssigns v r attributes handle permissions)

def ffaMemoryRegionRetrieveInitHeader (v : FfaVersion) (r : MemRegionInit)
    (attributes handle permissions : ℕ) (m : ByteMemory) : ByteMemory :=
  assign m (headerAssigns v r attributes handle permissions)

/-- The loop over the receivers, from entry `i` on. -/
def fillReceivers (v : FfaVersion) (permissions : ℕ) (m : ByteMemory) :
    ℕ → List ReceiverInit → ByteMemory
  | _, [] => m
  | i, a :: as =>
    fillReceivers v permissions
      (assign m (receiverAssigns v (MemoryRegion.receivers v i) permissions a)) (i + 1) as

/-- The loop over the offsets of the composite region, for `k` receivers from entry `i` on. Every
round reads the number of receivers from the buffer. -/
def setCompositeOffsets (v : FfaVersion) (m : ByteMemory) (i : ℕ) : ℕ → ByteMemory
  | 0 => m
  | k + 1 =>
    setCompositeOffsets v
      ((MemoryAccess.compositeMemoryRegionOffset (MemoryRegion.receivers v i)).set m
        (wrap32 (sizeofMemoryRegion v + MemoryRegion.receiverCount.get m * sizeofMemoryAccess v)))
      (i + 1) k

/-- The assignment of a whole constituent. -/
def constituentAssigns (base : ℕ) (c : Constituent) : List (Field × ℕ) :=
  [(Constituents.address base, c.address.toNat), (Constituents.pageCount base, c.pageCount.toNat),
    (Constituents.reserved base, c.reserved.toNat)]

/-- The loop over the constituents, from constituent `i` on. -/
def copyConstituents (composite countToCopy : ℕ) (m : ByteMemory) :
    ℕ → List Constituent → ByteMemory
  | _, [] => m
  | i, c :: cs =>
    let m := if i < countToCopy
      then assign m (constituentAssigns (Composite.constituents composite i) c) else m
    let m := (Composite.pageCount composite).set m
      ((Composite.pageCount composite).get m + c.pageCount.toNat)
    copyConstituents composite countToCopy m (i + 1) cs

/-- The buffer, the two lengths and the returned number of constituents that did not fit. -/
structure InitResult where
  mem : ByteMemory
  totalLength : ℕ
  fragmentLength : ℕ
  remaining : ℕ

/-- The first part of `val_ffa_memory_region_init`: the header, the receivers and the offsets. -/
def fillDescriptor (v : FfaVersion) (r : MemRegionInit) (m : ByteMemory) : ByteMemory :=
  let permissions := permissionsOf r.dataAccess r.instructionAccess
  let attributes := attributesOf r.type r.cacheability r.shareability
  let m := ffaMemoryRegionInitHeader v r attributes 0 permissions m
  let m := if r.multiShare
    then fillReceivers v permissions (MemoryRegion.receiverCount.set m r.receiverCount) 0
      r.sharedReceivers
    else m
  if r.multiShare then setCompositeOffsets v m 0 r.receiverCount
  else (MemoryAccess.compositeMemoryRegionOffset (MemoryRegion.receivers v 0)).set m
    (wrap32 (sizeofMemoryRegion v + 1 * sizeofMemoryAccess v))

/-- `val_ffa_memory_region_init`, or `none` when it stores through a NULL composite region. -/
def valFfaMemoryRegionInit (v : FfaVersion) (r : MemRegionInit) (constituents : List Constituent)
    (m : ByteMemory) : Option InitResult :=
  let m := fillDescriptor v r m
  match ffaMemoryRegionGetComposite v m 0 with
  | none => none
  | some composite =>
    let m := assign m [(Composite.pageCount composite, 0),
      (Composite.constituentCount composite, constituents.length), (Composite.reserved0 composite, 0)]
    let constituentsOffset := wrap32
      ((MemoryAccess.compositeMemoryRegionOffset (MemoryRegion.receivers v 0)).get m + sizeofComposite)
    let fragmentMaxConstituents := wrap32
      (sub64 r.memoryRegionMaxSize.toNat constituentsOffset / sizeofConstituent)
    let countToCopy := if fragmentMaxConstituents < constituents.length
      then fragmentMaxConstituents else constituents.length
    let m := copyConstituents composite countToCopy m 0 constituents
    let constituentCount := (Composite.constituentCount composite).get m
    some {
      mem := m
      totalLength := wrap32 (constituentsOffset + constituentCount * sizeofConstituent)
      fragmentLength := wrap32 (constituentsOffset + countToCopy * sizeofConstituent)
      remaining := wrap32 (constituentCount + (2 ^ 32 - countToCopy)) }

/-- The last loop of `val_ffa_memory_retrieve_request_init`, for `k` receivers from entry `i` on. -/
def clearCompositeOffsets (v : FfaVersion) (m : ByteMemory) (i : ℕ) : ℕ → ByteMemory
  | 0 => m
  | k + 1 =>
    clearCompositeOffsets v
      (assign m [(MemoryAccess.compositeMemoryRegionOffset (MemoryRegion.receivers v i), 0),
        (MemoryAccess.reserved0 (MemoryRegion.receivers v i) v, 0)]) (i + 1) k

/-- `val_ffa_memory_retrieve_request_init`: the buffer and the returned length. The version 1.0 build
leaves out the part that fills in several receivers, but not the last loop. -/
def valFfaMemoryRetrieveRequestInit (v : FfaVersion) (r : MemRegionInit) (handle : UInt64)
    (m : ByteMemory) : ByteMemory × ℕ :=
  let permissions := permissionsOf r.dataAccess r.instructionAccess
  let attributes := attributesOf r.type r.cacheability r.shareability
  let m := ffaMemoryRegionRetrieveInitHeader v r attributes handle.toNat permissions m
  let m := if v ≠ .v1_0 ∧ r.multiShare = true
    then fillReceivers v permissions (MemoryRegion.receiverCount.set m r.receiverCount) 0
      r.sharedReceivers
    else m
  let m := if r.multiShare then clearCompositeOffsets v m 0 r.receiverCount
    else clearCompositeOffsets v m 0 1
  (m, wrap32 (sizeofMemoryRegion v + MemoryRegion.receiverCount.get m * sizeofMemoryAccess v))

/-! ## The descriptor as a list of assignments -/

/-- The receivers that the message names. -/
def MemRegionInit.allReceivers (r : MemRegionInit) : List ReceiverInit :=
  if r.multiShare then r.sharedReceivers else [⟨r.receiver, 0, r.impdef⟩]

/-- Where the composite region starts. -/
def compositeAt (v : FfaVersion) (r : MemRegionInit) : ℕ :=
  MemoryRegion.receivers v r.allReceivers.length

/-- The assignments to the receivers from entry `i` on. -/
def receiversAssigns (v : FfaVersion) (permissions : ℕ) : ℕ → List ReceiverInit → List (Field × ℕ)
  | _, [] => []
  | i, a :: as => receiverAssigns v (MemoryRegion.receivers v i) permissions a ++
      receiversAssigns v permissions (i + 1) as

/-- The loop over the receivers as one list. -/
theorem fillReceivers_eq (v : FfaVersion) (permissions i : ℕ) (as : List ReceiverInit)
    (m : ByteMemory) :
    fillReceivers v permissions m i as = assign m (receiversAssigns v permissions i as) := by
  induction as generalizing m i with
  | nil => rfl
  | cons a as ih => rw [fillReceivers, ih, receiversAssigns, assign_append]

/-- The assignments of the composite offsets for `k` receivers from entry `i` on. -/
def offsetAssigns (v : FfaVersion) (value i : ℕ) : ℕ → List (Field × ℕ)
  | 0 => []
  | k + 1 => (MemoryAccess.compositeMemoryRegionOffset (MemoryRegion.receivers v i), value) ::
      offsetAssigns v value (i + 1) k

/-- The assignments of the first part of `val_ffa_memory_region_init`. -/
def descriptorAssigns (v : FfaVersion) (r : MemRegionInit) : List (Field × ℕ) :=
  headerAssigns v r (attributesOf r.type r.cacheability r.shareability) 0
      (permissionsOf r.dataAccess r.instructionAccess) ++
    (if r.multiShare then (MemoryRegion.receiverCount, r.receiverCount) ::
      receiversAssigns v (permissionsOf r.dataAccess r.instructionAccess) 0 r.sharedReceivers else []) ++
    offsetAssigns v (compositeAt v r) 0 r.allReceivers.length

/-- The assignments that both functions make before they come to the composite region. -/
def filledAssigns (v : FfaVersion) (r : MemRegionInit) (handle : ℕ) : List (Field × ℕ) :=
  headerAssigns v r (attributesOf r.type r.cacheability r.shareability) handle
      (permissionsOf r.dataAccess r.instructionAccess) ++
    if r.multiShare then (MemoryRegion.receiverCount, r.receiverCount) ::
      receiversAssigns v (permissionsOf r.dataAccess r.instructionAccess) 0 r.sharedReceivers else []

/-- The composite offsets come last. -/
theorem descriptorAssigns_eq (v : FfaVersion) (r : MemRegionInit) :
    descriptorAssigns v r =
      filledAssigns v r 0 ++ offsetAssigns v (compositeAt v r) 0 r.allReceivers.length := rfl

/-- A request for several receivers names as many as it says. -/
theorem length_sharedReceivers {r : MemRegionInit} (h : r.multiShare = true) :
    r.sharedReceivers.length = r.receiverCount := by
  have hle := r.receiverCount_le h
  rw [MemRegionInit.sharedReceivers, List.length_take, List.length_ofFn, Nat.min_eq_left hle]

/-- A message names at most two receivers. -/
theorem length_allReceivers_le (r : MemRegionInit) : r.allReceivers.length ≤ 2 := by
  rw [MemRegionInit.allReceivers]
  split
  case isTrue h =>
    rw [length_sharedReceivers h]
    exact r.receiverCount_le h
  case isFalse => simp

/-- The composite region starts in the first hundred and twelve bytes. -/
theorem compositeAt_bounds (v : FfaVersion) (r : MemRegionInit) :
    32 ≤ compositeAt v r ∧ compositeAt v r ≤ 112 := by
  have hle := length_allReceivers_le r
  rw [compositeAt, MemoryRegion.receivers]
  cases v <;> simp only [sizeofMemoryRegion, sizeofMemoryAccess] <;> omega

/-- The fields of a receiver lie in its entry. -/
theorem receiverAssigns_within (v : FfaVersion) (base permissions : ℕ) (a : ReceiverInit) :
    ∀ w ∈ receiverAssigns v base permissions a, w.1.Within base (base + sizeofMemoryAccess v) := by
  cases v <;>
    simp [receiverAssigns, Field.Within, MemoryAccess.receiver, MemoryAccess.permissions,
      MemoryAccess.flags, MemoryAccess.reserved0, MemoryAccess.impdef, sizeofMemoryAccess]
  omega

/-- The receivers lie behind the fields that all headers have. -/
theorem le_receivers (v : FfaVersion) (i : ℕ) : 32 ≤ MemoryRegion.receivers v i := by
  rw [MemoryRegion.receivers]
  cases v <;> simp only [sizeofMemoryRegion] <;> omega

/-- So do their fields. -/
theorem receiversAssigns_behind (v : FfaVersion) (permissions i : ℕ) (as : List ReceiverInit) :
    ∀ w ∈ receiversAssigns v permissions i as, 32 ≤ w.1.offset := by
  induction as generalizing i with
  | nil => simp [receiversAssigns]
  | cons a as ih =>
    intro w hw
    rw [receiversAssigns, List.mem_append] at hw
    rcases hw with hw | hw
    · exact (le_receivers v i).trans (receiverAssigns_within v _ permissions a w hw).1
    · exact ih _ w hw

/-- A field behind the header is disjoint from the number of receivers. -/
theorem disjoint_receiverCount {f : Field} (h : 32 ≤ f.offset) :
    f.Disjoint MemoryRegion.receiverCount := Or.inr h

/-- The loop over the offsets as one list: the number of receivers stays what it is. -/
theorem setCompositeOffsets_eq (v : FfaVersion) (i k : ℕ) (m : ByteMemory) :
    setCompositeOffsets v m i k = assign m (offsetAssigns v
      (wrap32 (sizeofMemoryRegion v + MemoryRegion.receiverCount.get m * sizeofMemoryAccess v)) i k) := by
  induction k generalizing m i with
  | zero => rfl
  | succ k ih =>
    rw [setCompositeOffsets, ih, offsetAssigns, assign,
      Field.get_set_disjoint (disjoint_receiverCount ((le_receivers v i).trans (Nat.le_add_right _ 4)))]

/-- The first part of `val_ffa_memory_region_init` does not depend on the buffer. -/
theorem fillDescriptor_eq (v : FfaVersion) (r : MemRegionInit) (m : ByteMemory) :
    fillDescriptor v r m = assign m (descriptorAssigns v r) := by
  have hsmall : wrap32 (compositeAt v r) = compositeAt v r :=
    wrap32_of_lt (by have := (compositeAt_bounds v r).2; omega)
  rw [fillDescriptor, descriptorAssigns, assign_append, assign_append]
  cases hmulti : r.multiShare with
  | false =>
    have hone : compositeAt v r = sizeofMemoryRegion v + 1 * sizeofMemoryAccess v := by
      simp [compositeAt, MemRegionInit.allReceivers, hmulti, MemoryRegion.receivers]
    have hlength : r.allReceivers.length = 1 := by simp [MemRegionInit.allReceivers, hmulti]
    rw [hone] at hsmall
    simp only [Bool.false_eq_true, if_false, hlength, hsmall, hone]
    rfl
  | true =>
    have hlength : r.allReceivers.length = r.receiverCount := by
      simp [MemRegionInit.allReceivers, hmulti, length_sharedReceivers hmulti]
    have hat : compositeAt v r = sizeofMemoryRegion v + r.receiverCount * sizeofMemoryAccess v := by
      rw [compositeAt, hlength, MemoryRegion.receivers]
    have hcount : r.receiverCount % 256 ^ MemoryRegion.receiverCount.width = r.receiverCount := by
      have hle := r.receiverCount_le hmulti
      have hmax : ffaMaxMultiEndpointSupport = 2 := rfl
      exact Nat.mod_eq_of_lt (by simp only [MemoryRegion.receiverCount]; omega)
    simp only [if_true, fillReceivers_eq, setCompositeOffsets_eq]
    rw [get_assign_of_disjoint _ fun w hw => disjoint_receiverCount
      (receiversAssigns_behind _ _ _ _ w hw), Field.get_set_same, hcount, ← hat, hsmall, hlength]
    rfl

/-! ## The constituents as a list of assignments -/

/-- The assignments to the constituents from constituent `i` on. -/
def constituentsAssigns (composite : ℕ) : ℕ → List Constituent → List (Field × ℕ)
  | _, [] => []
  | i, c :: cs => constituentAssigns (Composite.constituents composite i) c ++
      constituentsAssigns composite (i + 1) cs

/-- The page count that the loop accumulates, one 32-bit sum at a time. -/
def pageTotal : ℕ → List Constituent → ℕ
  | p, [] => p
  | p, c :: cs => pageTotal (p % 2 ^ 32 + c.pageCount.toNat) cs

/-- The accumulated page count is the sum modulo `2 ^ 32`. -/
theorem pageTotal_mod (p : ℕ) (cs : List Constituent) :
    pageTotal p cs % 2 ^ 32 = (p + (cs.map fun c => c.pageCount.toNat).sum) % 2 ^ 32 := by
  induction cs generalizing p with
  | nil => simp [pageTotal]
  | cons c cs ih =>
    rw [pageTotal, ih, List.map_cons, List.sum_cons]
    omega

/-- The fields of a constituent lie in its sixteen bytes. -/
theorem constituentAssigns_within (base : ℕ) (c : Constituent) :
    ∀ w ∈ constituentAssigns base c, w.1.Within base (base + sizeofConstituent) := by
  simp [constituentAssigns, Field.Within, Constituents.address, Constituents.pageCount,
    Constituents.reserved, sizeofConstituent]

/-- The fields of the constituents lie between the first and the last one. -/
theorem constituentsAssigns_within (composite i : ℕ) (cs : List Constituent) :
    ∀ w ∈ constituentsAssigns composite i cs, w.1.Within (Composite.constituents composite i)
      (Composite.constituents composite (i + cs.length)) := by
  have hsize : sizeofConstituent = 16 := rfl
  induction cs generalizing i with
  | nil => simp [constituentsAssigns]
  | cons c cs ih =>
    intro w hw
    rw [constituentsAssigns, List.mem_append] at hw
    simp only [Field.Within, Composite.constituents, List.length_cons, hsize] at ih ⊢
    rcases hw with hw | hw
    · have hin := constituentAssigns_within _ c w hw
      simp only [Field.Within, Composite.constituents, hsize] at hin
      omega
    · have hin := ih (i + 1) w hw
      omega

/-- Constituents do not overlap each other. -/
theorem constituentsAssigns_disjoint (composite i : ℕ) (cs : List Constituent) :
    ((constituentsAssigns composite i cs).map Prod.fst).Pairwise Field.Disjoint := by
  have hsize : sizeofConstituent = 16 := rfl
  induction cs generalizing i with
  | nil => simp [constituentsAssigns]
  | cons c cs ih =>
    rw [constituentsAssigns, List.map_append, List.pairwise_append]
    refine ⟨?_, ih _, ?_⟩
    · simp only [constituentAssigns, List.map_cons, List.map_nil, List.pairwise_cons, List.mem_cons,
        List.not_mem_nil, or_false, forall_eq_or_imp, forall_eq, Field.Disjoint,
        Constituents.address, Constituents.pageCount, Constituents.reserved, false_implies,
        implies_true, List.Pairwise.nil, and_true]
      omega
    · intro f hf g hg
      obtain ⟨w, hw, rfl⟩ := List.mem_map.mp hf
      obtain ⟨u, hu, rfl⟩ := List.mem_map.mp hg
      have hfirst := constituentAssigns_within _ c w hw
      have hnext : Composite.constituents composite i + sizeofConstituent =
          Composite.constituents composite (i + 1) := by
        simp only [Composite.constituents, hsize]
        omega
      rw [hnext] at hfirst
      exact hfirst.disjoint (constituentsAssigns_within _ _ _ u hu)

/-- The constituents lie behind the page count of the composite region. -/
theorem constituentAssigns_disjoint_pageCount (composite i : ℕ) (c : Constituent) :
    ∀ w ∈ constituentAssigns (Composite.constituents composite i) c,
      w.1.Disjoint (Composite.pageCount composite) := by
  intro w hw
  obtain ⟨hlow, -⟩ := constituentAssigns_within _ c w hw
  refine Or.inr ?_
  simp only [Composite.constituents, sizeofComposite, Composite.pageCount] at hlow ⊢
  omega

/-- The loop over the constituents copies those below `k` and leaves the sum of all page counts. -/
theorem copyConstituents_eq (composite k p i : ℕ) (cs : List Constituent) (m : ByteMemory) :
    copyConstituents composite k ((Composite.pageCount composite).set m p) i cs =
      (Composite.pageCount composite).set
        (assign m (constituentsAssigns composite i (cs.take (k - i)))) (pageTotal p cs) := by
  -- the page count is the last assignment before and after every round
  induction cs generalizing m p i with
  | nil => simp [copyConstituents, constituentsAssigns, assign, pageTotal]
  | cons c cs ih =>
    have hwidth : 256 ^ (Composite.pageCount composite).width = 2 ^ 32 := by
      norm_num [Composite.pageCount]
    rw [copyConstituents]
    by_cases hcopy : i < k
    · obtain ⟨d, hd⟩ : ∃ d, k - i = d + 1 := ⟨k - i - 1, by omega⟩
      have hrest : k - (i + 1) = d := by omega
      simp only [if_pos hcopy]
      rw [assign_set_comm _ _ (constituentAssigns_disjoint_pageCount _ _ _), Field.get_set_same,
        Field.set_set_same, ih, hd, List.take_succ_cons, constituentsAssigns, assign_append, hrest,
        pageTotal, hwidth]
    · have hnone : k - i = 0 := by omega
      have hrest : k - (i + 1) = 0 := by omega
      simp only [if_neg hcopy]
      rw [Field.get_set_same, Field.set_set_same, ih, hnone, hrest, List.take_zero, List.take_zero,
        pageTotal, hwidth]
      rfl

/-! ## The whole message -/

/-- The fields of a receiver that are assigned before the offset. -/
def receiverFields (v : FfaVersion) (base : ℕ) : List Field :=
  [MemoryAccess.receiver base, MemoryAccess.permissions base, MemoryAccess.flags base,
    MemoryAccess.reserved0 base v] ++
  match v with
  | .v1_0 | .v1_1 => []
  | .v1_2 => [MemoryAccess.impdef base 0, MemoryAccess.impdef base 1]

/-- The fields of the descriptor for `n` receivers, in the order of their assignment. -/
def descriptorFields (v : FfaVersion) (n : ℕ) : List Field :=
  [MemoryRegion.sender, MemoryRegion.attributes] ++
  (match v with
    | .v1_0 => [MemoryRegion.reserved0, MemoryRegion.reserved1]
    | .v1_1 | .v1_2 =>
      [MemoryRegion.reserved 0, MemoryRegion.reserved 1, MemoryRegion.reserved 2,
        MemoryRegion.receiversOffset, MemoryRegion.memoryAccessDescSize]) ++
  [MemoryRegion.flags, MemoryRegion.handle, MemoryRegion.tag, MemoryRegion.receiverCount] ++
  (List.range n).flatMap (fun i => receiverFields v (MemoryRegion.receivers v i)) ++
  (List.range n).map fun i =>
    MemoryAccess.compositeMemoryRegionOffset (MemoryRegion.receivers v i)

/-- The fields that a request assigns, single or not. -/
theorem map_descriptorAssigns (v : FfaVersion) (r : MemRegionInit) :
    (descriptorAssigns v r).map Prod.fst = descriptorFields v r.allReceivers.length := by
  have hreceiver (base permissions : ℕ) (a : ReceiverInit) :
      (receiverAssigns v base permissions a).map Prod.fst = receiverFields v base := by
    cases v <;> rfl
  have hreceivers (permissions i : ℕ) (as : List ReceiverInit) :
      (receiversAssigns v permissions i as).map Prod.fst =
        (List.range' i as.length).flatMap (fun i => receiverFields v (MemoryRegion.receivers v i)) := by
    induction as generalizing i with
    | nil => rfl
    | cons a as ih =>
      rw [receiversAssigns, List.map_append, hreceiver, ih, List.length_cons, List.range'_succ,
        List.flatMap_cons]
  have hoffsets (value i k : ℕ) : (offsetAssigns v value i k).map Prod.fst =
      (List.range' i k).map fun i =>
        MemoryAccess.compositeMemoryRegionOffset (MemoryRegion.receivers v i) := by
    induction k generalizing i with
    | zero => rfl
    | succ k ih => rw [offsetAssigns, List.map_cons, ih, List.range'_succ, List.map_cons]
  unfold descriptorFields
  rw [descriptorAssigns, List.range_eq_range']
  simp only [List.map_append, hoffsets]
  congr 1
  cases hmulti : r.multiShare with
  | false =>
    cases v <;> simp [headerAssigns, hmulti, hreceiver, MemRegionInit.allReceivers]
  | true =>
    cases v <;> simp [headerAssigns, hmulti, hreceivers, MemRegionInit.allReceivers]

/-- The fields of the descriptor do not overlap. -/
theorem descriptorFields_disjoint (v : FfaVersion) {n : ℕ} (hn : n ≤ 2) :
    (descriptorFields v n).Pairwise Field.Disjoint := by
  interval_cases n <;> cases v <;> decide

/-- The fields of the descriptor lie before the composite region. -/
theorem descriptorFields_within (v : FfaVersion) {n : ℕ} (hn : n ≤ 2) :
    ∀ f ∈ descriptorFields v n, f.offset + f.width ≤ MemoryRegion.receivers v n := by
  interval_cases n <;> cases v <;> decide

/-- The offset of the composite region is assigned for every receiver. -/
theorem offset_mem_descriptorAssigns (v : FfaVersion) (r : MemRegionInit) {i : ℕ}
    (hi : i < r.allReceivers.length) :
    (MemoryAccess.compositeMemoryRegionOffset (MemoryRegion.receivers v i), compositeAt v r) ∈
      descriptorAssigns v r := by
  have hmem (value i k : ℕ) {j : ℕ} (hlow : i ≤ j) (hhigh : j < i + k) :
      (MemoryAccess.compositeMemoryRegionOffset (MemoryRegion.receivers v j), value) ∈
        offsetAssigns v value i k := by
    induction k generalizing i with
    | zero => omega
    | succ k ih =>
      rw [offsetAssigns, List.mem_cons]
      by_cases heq : i = j
      · exact Or.inl (by rw [heq])
      · exact Or.inr (ih (i + 1) (by omega) (by omega))
  rw [descriptorAssigns, List.mem_append]
  exact Or.inr (hmem _ _ _ (Nat.zero_le i) (by omega))

/-- The assigned fields of the descriptor lie apart. -/
theorem descriptorAssigns_disjoint (v : FfaVersion) (r : MemRegionInit) :
    ((descriptorAssigns v r).map Prod.fst).Pairwise Field.Disjoint := by
  rw [map_descriptorAssigns]
  exact descriptorFields_disjoint v (length_allReceivers_le r)

/-- So do those that are assigned before the composite offsets, whatever the handle. -/
theorem filledAssigns_disjoint (v : FfaVersion) (r : MemRegionInit) (handle : ℕ) :
    ((filledAssigns v r handle).map Prod.fst).Pairwise Field.Disjoint := by
  have hfields : (filledAssigns v r handle).map Prod.fst = (filledAssigns v r 0).map Prod.fst := by
    cases v <;> simp [filledAssigns, headerAssigns]
  have hall := descriptorAssigns_disjoint v r
  rw [descriptorAssigns_eq, List.map_append, List.pairwise_append] at hall
  rw [hfields]
  exact hall.1

/-- Every receiver of the message is given the same composite region. -/
theorem getComposite_assign (v : FfaVersion) (r : MemRegionInit) (m : ByteMemory) {i : ℕ}
    (hi : i < r.allReceivers.length) :
    ffaMemoryRegionGetComposite v (assign m (descriptorAssigns v r)) i = some (compositeAt v r) := by
  obtain ⟨hlow, hhigh⟩ := compositeAt_bounds v r
  rw [ffaMemoryRegionGetComposite, get_assign_of_mem _ (descriptorAssigns_disjoint v r)
    (offset_mem_descriptorAssigns v r hi), Nat.mod_eq_of_lt]
  · exact if_neg (by omega)
  · exact hhigh.trans_lt (by norm_num [MemoryAccess.compositeMemoryRegionOffset])

/-- The number of constituents that the fragment has room for, in 32 bits. -/
def fragmentMax (v : FfaVersion) (r : MemRegionInit) : ℕ :=
  wrap32 (sub64 r.memoryRegionMaxSize.toNat (compositeAt v r + sizeofComposite) / sizeofConstituent)

/-- The number of constituents that are copied. -/
def copied (v : FfaVersion) (r : MemRegionInit) (n : ℕ) : ℕ :=
  if fragmentMax v r < n then fragmentMax v r else n

/-- The assignments of the whole message. -/
def messageAssigns (v : FfaVersion) (r : MemRegionInit) (cs : List Constituent) :
    List (Field × ℕ) :=
  descriptorAssigns v r ++
    [(Composite.constituentCount (compositeAt v r), cs.length),
      (Composite.reserved0 (compositeAt v r), 0)] ++
    constituentsAssigns (compositeAt v r) 0 (cs.take (copied v r cs.length)) ++
    [(Composite.pageCount (compositeAt v r), pageTotal 0 cs)]

/-- The fields of the message do not overlap. -/
theorem messageAssigns_disjoint (v : FfaVersion) (r : MemRegionInit) (cs : List Constituent) :
    ((messageAssigns v r cs).map Prod.fst).Pairwise Field.Disjoint := by
  have hbefore : ∀ f ∈ (descriptorAssigns v r).map Prod.fst, f.Within 0 (compositeAt v r) := by
    intro f hf
    rw [map_descriptorAssigns] at hf
    exact ⟨Nat.zero_le _, descriptorFields_within v (length_allReceivers_le r) f hf⟩
  have hbehind : ∀ f ∈ (constituentsAssigns (compositeAt v r) 0
      (cs.take (copied v r cs.length))).map Prod.fst, compositeAt v r + 16 ≤ f.offset := by
    intro f hf
    obtain ⟨w, hw, rfl⟩ := List.mem_map.mp hf
    have hlow := (constituentsAssigns_within _ _ _ w hw).1
    simpa [Composite.constituents, sizeofComposite] using hlow
  have hwithin {f g : Field} (hf : f ∈ (descriptorAssigns v r).map Prod.fst)
      (hg : compositeAt v r ≤ g.offset) : f.Disjoint g := Or.inl ((hbefore f hf).2.trans hg)
  simp only [messageAssigns, List.map_append, List.pairwise_append, List.map_cons, List.map_nil,
    List.pairwise_cons, List.mem_append, List.mem_cons, List.not_mem_nil, or_false]
  refine ⟨⟨⟨descriptorAssigns_disjoint v r, ?_, ?_⟩, constituentsAssigns_disjoint _ _ _, ?_⟩, ?_, ?_⟩
  · simp [Field.Disjoint, Composite.constituentCount, Composite.reserved0]
    omega
  · rintro f hf g (rfl | rfl)
    · exact hwithin hf (by simp [Composite.constituentCount])
    · exact hwithin hf (by simp [Composite.reserved0])
  · rintro f (hf | rfl | rfl) g hg
    · exact hwithin hf ((Nat.le_add_right _ 16).trans (hbehind g hg))
    · exact Or.inl (Nat.le_trans (by simp [Composite.constituentCount]) (hbehind g hg))
    · exact Or.inl (Nat.le_trans (by simp [Composite.reserved0]) (hbehind g hg))
  · simp
  · rintro f ((hf | rfl | rfl) | hf) g rfl
    · exact hwithin hf (by simp [Composite.pageCount])
    · exact Or.inr (by simp [Composite.pageCount, Composite.constituentCount])
    · exact Or.inr (by simp [Composite.pageCount, Composite.reserved0])
    · exact Or.inr (Nat.le_trans (by simp [Composite.pageCount]) (hbehind f hf))

/-- A request that names a receiver fills in the whole message, whatever the buffer holds. -/
theorem valFfaMemoryRegionInit_eq (v : FfaVersion) (r : MemRegionInit) {cs : List Constituent}
    (hcount : cs.length < 2 ^ 32) (hreceiver : r.allReceivers ≠ []) (m : ByteMemory) :
    valFfaMemoryRegionInit v r cs m = some {
      mem := assign m (messageAssigns v r cs)
      totalLength := wrap32 (compositeAt v r + sizeofComposite + cs.length * sizeofConstituent)
      fragmentLength := wrap32
        (compositeAt v r + sizeofComposite + copied v r cs.length * sizeofConstituent)
      remaining := wrap32 (cs.length + (2 ^ 32 - copied v r cs.length)) } := by
  obtain ⟨hlow, hhigh⟩ := compositeAt_bounds v r
  have hfirst : 0 < r.allReceivers.length := List.length_pos_of_ne_nil hreceiver
  have hcomposite := getComposite_assign v r m hfirst
  have hsize : sizeofComposite = 16 := rfl
  have hlimit : wrap32 (compositeAt v r + sizeofComposite) = compositeAt v r + sizeofComposite :=
    wrap32_of_lt (by omega)
  -- the offset is read back behind the assignments to the composite region
  have hoffset : (MemoryAccess.compositeMemoryRegionOffset (MemoryRegion.receivers v 0)).get
      (assign (assign m (descriptorAssigns v r)) [(Composite.pageCount (compositeAt v r), 0),
        (Composite.constituentCount (compositeAt v r), cs.length),
        (Composite.reserved0 (compositeAt v r), 0)]) = compositeAt v r := by
    have hbefore := descriptorFields_within v (length_allReceivers_le r)
      (MemoryAccess.compositeMemoryRegionOffset (MemoryRegion.receivers v 0)) (by
        rw [← map_descriptorAssigns]
        exact List.mem_map.mpr ⟨_, offset_mem_descriptorAssigns v r hfirst, rfl⟩)
    rw [get_assign_of_disjoint, get_assign_of_mem _ (descriptorAssigns_disjoint v r)
      (offset_mem_descriptorAssigns v r hfirst), Nat.mod_eq_of_lt]
    · exact hhigh.trans_lt (by norm_num [MemoryAccess.compositeMemoryRegionOffset])
    · simp only [List.mem_cons, List.not_mem_nil, or_false]
      rintro w (rfl | rfl | rfl) <;>
        exact Or.inr (hbefore.trans (by
          simp [compositeAt, Composite.pageCount, Composite.constituentCount, Composite.reserved0]))
  -- the page count is assigned last, also before the loop
  have hpages : assign (assign m (descriptorAssigns v r)) [(Composite.pageCount (compositeAt v r), 0),
      (Composite.constituentCount (compositeAt v r), cs.length),
      (Composite.reserved0 (compositeAt v r), 0)] =
      (Composite.pageCount (compositeAt v r)).set (assign (assign m (descriptorAssigns v r))
        [(Composite.constituentCount (compositeAt v r), cs.length),
          (Composite.reserved0 (compositeAt v r), 0)]) 0 := by
    rw [assign]
    refine assign_set_comm _ _ ?_
    simp only [Composite.constituentCount, Composite.reserved0, List.mem_cons, List.not_mem_nil,
      or_false, Field.Disjoint, Composite.pageCount, forall_eq_or_imp, forall_eq]
    omega
  have hmem : copyConstituents (compositeAt v r) (copied v r cs.length)
      (assign (assign m (descriptorAssigns v r)) [(Composite.pageCount (compositeAt v r), 0),
        (Composite.constituentCount (compositeAt v r), cs.length),
        (Composite.reserved0 (compositeAt v r), 0)]) 0 cs = assign m (messageAssigns v r cs) := by
    rw [hpages, copyConstituents_eq, messageAssigns, assign_append, assign_append, assign_append]
    rfl
  have hread : (Composite.constituentCount (compositeAt v r)).get (assign m (messageAssigns v r cs)) =
      cs.length := by
    rw [get_assign_of_mem _ (messageAssigns_disjoint v r cs) (v := cs.length) (by simp [messageAssigns]),
      Nat.mod_eq_of_lt]
    norm_num [Composite.constituentCount]
    exact hcount
  simp only [valFfaMemoryRegionInit, fillDescriptor_eq, hcomposite, hoffset, hlimit]
  rw [← fragmentMax, ← copied, hmem, hread]

end FfaAcs.Share
