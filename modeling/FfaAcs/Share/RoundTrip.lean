import Mathlib.Data.UInt
import FfaAcs.Share.Init

/-!
# Reading a transaction descriptor back

`viewMessage` decodes a buffer through the structure offsets, the attribute getters and
`ffa_memory_region_get_composite`. A message is read back as it was requested exactly when all
constituents are copied. The number of constituents that fit is computed in 64 bits and then
cut to 32, so a very large buffer may look as if nothing fitted.
-/

namespace FfaAcs.Share

open Machine

/-- What a receiver reads of its entry. -/
structure ReceiverView where
  receiver : ℕ
  dataAccess : ℕ
  instructionAccess : ℕ
  flags : ℕ
  impdef : Option (ℕ × ℕ)
  composite : Option ℕ
deriving DecidableEq

/-- What is read of a message. -/
structure MessageView where
  sender : ℕ
  memoryType : ℕ
  cacheability : ℕ
  shareability : ℕ
  flags : ℕ
  handle : ℕ
  tag : ℕ
  receivers : List ReceiverView
  pageCount : ℕ
  constituentCount : ℕ
  constituents : List (ℕ × ℕ × ℕ)
deriving DecidableEq

/-- Decode the entry of receiver `i`. -/
def viewReceiver (v : FfaVersion) (m : ByteMemory) (i : ℕ) : ReceiverView :=
  let base := MemoryRegion.receivers v i
  { receiver := (MemoryAccess.receiver base).get m
    dataAccess := ffaGetDataAccessAttr ((MemoryAccess.permissions base).get m)
    instructionAccess := ffaGetInstructionAccessAttr ((MemoryAccess.permissions base).get m)
    flags := (MemoryAccess.flags base).get m
    impdef := match v with
      | .v1_0 | .v1_1 => none
      | .v1_2 => some ((MemoryAccess.impdef base 0).get m, (MemoryAccess.impdef base 1).get m)
    composite := ffaMemoryRegionGetComposite v m i }

/-- Decode constituent `i` of the composite region. -/
def viewConstituent (m : ByteMemory) (composite i : ℕ) : ℕ × ℕ × ℕ :=
  let base := Composite.constituents composite i
  ((Constituents.address base).get m, (Constituents.pageCount base).get m,
    (Constituents.reserved base).get m)

/-- Decode a message, unless the first receiver has no composite region. -/
def viewMessage (v : FfaVersion) (m : ByteMemory) : Option MessageView :=
  (ffaMemoryRegionGetComposite v m 0).map fun composite =>
    { sender := MemoryRegion.sender.get m
      memoryType := ffaGetMemoryTypeAttr (MemoryRegion.attributes.get m)
      cacheability := ffaGetMemoryCacheabilityAttr (MemoryRegion.attributes.get m)
      shareability := ffaGetMemoryShareabilityAttr (MemoryRegion.attributes.get m)
      flags := MemoryRegion.flags.get m
      handle := MemoryRegion.handle.get m
      tag := MemoryRegion.tag.get m
      receivers := (List.range (MemoryRegion.receiverCount.get m)).map (viewReceiver v m)
      pageCount := (Composite.pageCount composite).get m
      constituentCount := (Composite.constituentCount composite).get m
      constituents := (List.range ((Composite.constituentCount composite).get m)).map
        (viewConstituent m composite) }

/-- The receiver that a request asks for. -/
def requestedReceiver (v : FfaVersion) (r : MemRegionInit) (a : ReceiverInit) : ReceiverView :=
  { receiver := a.receiver.toNat
    dataAccess := r.dataAccess.code
    instructionAccess := r.instructionAccess.code
    flags := a.flags.toNat
    impdef := match v with
      | .v1_0 | .v1_1 => none
      | .v1_2 => some (a.impdef.val0.toNat, a.impdef.val1.toNat)
    composite := some (compositeAt v r) }

/-- The message that a request asks for. A single receiver has no flags, the handle is 0, and all
receivers share one composite region. -/
def requestedMessage (v : FfaVersion) (r : MemRegionInit) (cs : List Constituent) : MessageView :=
  { sender := r.sender.toNat
    memoryType := r.type.code
    cacheability := r.cacheability.code
    shareability := r.shareability.code
    flags := r.flags.toNat
    handle := 0
    tag := r.tag.toNat
    receivers := r.allReceivers.map (requestedReceiver v r)
    pageCount := (cs.map fun c => c.pageCount.toNat).sum % 2 ^ 32
    constituentCount := cs.length
    constituents := cs.map fun c => (c.address.toNat, c.pageCount.toNat, c.reserved.toNat) }

/-- The header, the receivers, the composite region and its constituents do not overlap. -/
def PartsApart (v : FfaVersion) (receiverCount composite constituentCount : ℕ) : Prop :=
  [(0, sizeofMemoryRegion v),
    (MemoryRegion.receivers v 0, receiverCount * sizeofMemoryAccess v),
    (composite, sizeofComposite),
    (Composite.constituents composite 0, constituentCount * sizeofConstituent)].Pairwise
      fun p q => Apart p.1 p.2 q.1 q.2

/-- Whatever the buffer held, the message that the function leaves reads back as requested. -/
def ReadsBack (v : FfaVersion) (r : MemRegionInit) (cs : List Constituent) : Prop :=
  ∀ m, ∃ result, valFfaMemoryRegionInit v r cs m = some result ∧
    viewMessage v result.mem = some (requestedMessage v r cs) ∧
    PartsApart v r.allReceivers.length (compositeAt v r) cs.length

section

variable {v : FfaVersion} {r : MemRegionInit} {cs : List Constituent}

/-- A request that names a receiver has one. -/
theorem allReceivers_ne_nil (h : r.multiShare = true → 1 ≤ r.receiverCount) : r.allReceivers ≠ [] := by
  rw [MemRegionInit.allReceivers]
  split
  case isTrue hmulti =>
    apply List.ne_nil_of_length_pos
    rw [length_sharedReceivers hmulti]
    exact h hmulti
  case isFalse => simp

/-- The parts of a message follow each other. -/
theorem partsApart (v : FfaVersion) (r : MemRegionInit) (n : ℕ) :
    PartsApart v r.allReceivers.length (compositeAt v r) n := by
  simp only [PartsApart, List.pairwise_cons, List.mem_cons, List.not_mem_nil, or_false,
    forall_eq_or_imp, forall_eq, compositeAt, MemoryRegion.receivers, Composite.constituents,
    false_implies, implies_true, List.Pairwise.nil, and_true]
  omega

/-- Every assigned field of the message reads back its value. -/
theorem get_message {f : Field} {x : ℕ} (m : ByteMemory) (hmem : (f, x) ∈ messageAssigns v r cs)
    (hx : x < 256 ^ f.width) : f.get (assign m (messageAssigns v r cs)) = x := by
  rw [get_assign_of_mem m (messageAssigns_disjoint v r cs) hmem, Nat.mod_eq_of_lt hx]

/-- The assignments to one receiver are part of those to all. -/
theorem receiverAssigns_subset_receivers (permissions i j : ℕ) (as : List ReceiverInit)
    (hi : i < as.length) :
    receiverAssigns v (MemoryRegion.receivers v (j + i)) permissions as[i] ⊆
      receiversAssigns v permissions j as := by
  induction as generalizing i j with
  | nil => exact absurd hi (Nat.not_lt_zero _)
  | cons a as ih =>
    rw [receiversAssigns]
    cases i with
    | zero => exact List.subset_append_left _ _
    | succ i =>
      have hnext : j + (i + 1) = j + 1 + i := by omega
      rw [hnext]
      exact List.Subset.trans (ih i (j + 1) (by simpa using hi)) (List.subset_append_right _ _)

/-- The assignments to a receiver are made before those to the composite region. -/
theorem receiverAssigns_subset_filled (v : FfaVersion) (handle : ℕ) {i : ℕ}
    (hi : i < r.allReceivers.length) :
    receiverAssigns v (MemoryRegion.receivers v i) (permissionsOf r.dataAccess r.instructionAccess)
      r.allReceivers[i] ⊆ filledAssigns v r handle := by
  cases hmulti : r.multiShare with
  | false =>
    have hone : r.allReceivers = [⟨r.receiver, 0, r.impdef⟩] := by simp [MemRegionInit.allReceivers, hmulti]
    have hzero : i = 0 := by
      rw [hone, List.length_singleton] at hi
      omega
    subst hzero
    intro w hw
    simp only [hone, List.getElem_cons_zero] at hw
    simp [filledAssigns, headerAssigns, hmulti, hw]
  | true =>
    have hall : r.allReceivers = r.sharedReceivers := by simp [MemRegionInit.allReceivers, hmulti]
    intro w hw
    simp only [hall] at hi hw
    have hw' := receiverAssigns_subset_receivers (permissionsOf r.dataAccess r.instructionAccess) i 0
      r.sharedReceivers hi (by simpa using hw)
    simp [filledAssigns, hmulti, hw']

/-- The assignments to a receiver are part of the message. -/
theorem receiverAssigns_subset (v : FfaVersion) (cs : List Constituent) {i : ℕ}
    (hi : i < r.allReceivers.length) :
    receiverAssigns v (MemoryRegion.receivers v i) (permissionsOf r.dataAccess r.instructionAccess)
      r.allReceivers[i] ⊆ messageAssigns v r cs := by
  refine List.Subset.trans (receiverAssigns_subset_filled v 0 hi) ?_
  simp only [messageAssigns, descriptorAssigns_eq, List.append_assoc]
  exact List.subset_append_left _ _

/-- The assignments to a constituent are part of those to all. -/
theorem constituentAssigns_subset (composite i j : ℕ) (cs : List Constituent) (hi : i < cs.length) :
    constituentAssigns (Composite.constituents composite (j + i)) cs[i] ⊆
      constituentsAssigns composite j cs := by
  induction cs generalizing i j with
  | nil => exact absurd hi (Nat.not_lt_zero _)
  | cons c cs ih =>
    rw [constituentsAssigns]
    cases i with
    | zero => exact List.subset_append_left _ _
    | succ i =>
      have hnext : j + (i + 1) = j + 1 + i := by omega
      rw [hnext]
      exact List.Subset.trans (ih i (j + 1) (by simpa using hi)) (List.subset_append_right _ _)

/-- The composite region of a receiver. -/
theorem getComposite_message (v : FfaVersion) (cs : List Constituent) (m : ByteMemory) {i : ℕ}
    (hi : i < r.allReceivers.length) :
    ffaMemoryRegionGetComposite v (assign m (messageAssigns v r cs)) i = some (compositeAt v r) := by
  obtain ⟨hlow, hhigh⟩ := compositeAt_bounds v r
  rw [ffaMemoryRegionGetComposite, get_message m (x := compositeAt v r)]
  · exact if_neg (by omega)
  · simp [messageAssigns, offset_mem_descriptorAssigns v r hi]
  · exact hhigh.trans_lt (by norm_num [MemoryAccess.compositeMemoryRegionOffset])

/-- A receiver is read back as requested. -/
theorem viewReceiver_message (v : FfaVersion) (cs : List Constituent) (m : ByteMemory) {i : ℕ}
    (hi : i < r.allReceivers.length) :
    viewReceiver v (assign m (messageAssigns v r cs)) i =
      requestedReceiver v r r.allReceivers[i] := by
  obtain ⟨hbyte, hdata, hinstruction⟩ := permissionsOf_spec r.dataAccess r.instructionAccess
  have hsubset := receiverAssigns_subset v cs hi
  have hreceiver : (MemoryAccess.receiver (MemoryRegion.receivers v i)).get
      (assign m (messageAssigns v r cs)) = r.allReceivers[i].receiver.toNat :=
    get_message m (hsubset (by simp [receiverAssigns])) (UInt16.toNat_lt _)
  have hpermissions : (MemoryAccess.permissions (MemoryRegion.receivers v i)).get
      (assign m (messageAssigns v r cs)) = permissionsOf r.dataAccess r.instructionAccess :=
    get_message m (hsubset (by simp [receiverAssigns])) hbyte
  have hflags : (MemoryAccess.flags (MemoryRegion.receivers v i)).get
      (assign m (messageAssigns v r cs)) = r.allReceivers[i].flags.toNat :=
    get_message m (hsubset (by simp [receiverAssigns])) (UInt8.toNat_lt _)
  simp only [viewReceiver, requestedReceiver, getComposite_message v cs m hi, hreceiver, hpermissions,
    hflags, hdata, hinstruction, ReceiverView.mk.injEq, true_and, and_true]
  cases v with
  | v1_0 => rfl
  | v1_1 => rfl
  | v1_2 =>
    have hval0 : (MemoryAccess.impdef (MemoryRegion.receivers .v1_2 i) 0).get
        (assign m (messageAssigns .v1_2 r cs)) = r.allReceivers[i].impdef.val0.toNat :=
      get_message m (hsubset (by simp [receiverAssigns])) (UInt64.toNat_lt _)
    have hval1 : (MemoryAccess.impdef (MemoryRegion.receivers .v1_2 i) 1).get
        (assign m (messageAssigns .v1_2 r cs)) = r.allReceivers[i].impdef.val1.toNat :=
      get_message m (hsubset (by simp [receiverAssigns])) (UInt64.toNat_lt _)
    simp only [hval0, hval1]

/-- A copied constituent is read back as requested. -/
theorem viewConstituent_message (m : ByteMemory) {i : ℕ} (hi : i < cs.length)
    (hcopied : i < copied v r cs.length) :
    viewConstituent (assign m (messageAssigns v r cs)) (compositeAt v r) i =
      (cs[i].address.toNat, cs[i].pageCount.toNat, cs[i].reserved.toNat) := by
  have htake : i < (cs.take (copied v r cs.length)).length := by
    rw [List.length_take]
    omega
  have hsubset := constituentAssigns_subset (compositeAt v r) i 0 _ htake
  rw [Nat.zero_add, List.getElem_take] at hsubset
  have hmem : ∀ w ∈ constituentAssigns (Composite.constituents (compositeAt v r) i) cs[i],
      w ∈ messageAssigns v r cs := by
    intro w hw
    simp [messageAssigns, hsubset hw]
  rw [viewConstituent,
    get_message m (x := cs[i].address.toNat) (hmem _ (by simp [constituentAssigns])) (UInt64.toNat_lt _),
    get_message m (x := cs[i].pageCount.toNat) (hmem _ (by simp [constituentAssigns]))
      (UInt32.toNat_lt _),
    get_message m (x := cs[i].reserved.toNat) (hmem _ (by simp [constituentAssigns]))
      (UInt32.toNat_lt _)]

/-- When all constituents are copied, the message is read back as requested. -/
theorem viewMessage_message (hcount : cs.length < 2 ^ 32) (hreceiver : r.allReceivers ≠ [])
    (hcopied : copied v r cs.length = cs.length) (m : ByteMemory) :
    viewMessage v (assign m (messageAssigns v r cs)) = some (requestedMessage v r cs) := by
  obtain ⟨hbyte, htype, hcache, hshare⟩ := attributesOf_spec r.type r.cacheability r.shareability
  have hfirst : 0 < r.allReceivers.length := List.length_pos_of_ne_nil hreceiver
  have hheader {f : Field} {x : ℕ} (hmem : (f, x) ∈ headerAssigns v r
      (attributesOf r.type r.cacheability r.shareability) 0
      (permissionsOf r.dataAccess r.instructionAccess)) (hx : x < 256 ^ f.width) :
      f.get (assign m (messageAssigns v r cs)) = x :=
    get_message m (by simp [messageAssigns, descriptorAssigns, hmem]) hx
  have hsender : MemoryRegion.sender.get (assign m (messageAssigns v r cs)) = r.sender.toNat :=
    hheader (by simp [headerAssigns]) (UInt16.toNat_lt _)
  have hattributes : MemoryRegion.attributes.get (assign m (messageAssigns v r cs)) =
      attributesOf r.type r.cacheability r.shareability := hheader (by simp [headerAssigns]) hbyte
  have hflags : MemoryRegion.flags.get (assign m (messageAssigns v r cs)) = r.flags.toNat :=
    hheader (by simp [headerAssigns]) (UInt32.toNat_lt _)
  have hhandle : MemoryRegion.handle.get (assign m (messageAssigns v r cs)) = 0 :=
    hheader (by simp [headerAssigns]) (by decide)
  have htag : MemoryRegion.tag.get (assign m (messageAssigns v r cs)) = r.tag.toNat :=
    hheader (by simp [headerAssigns]) (UInt64.toNat_lt _)
  have hreceivers : MemoryRegion.receiverCount.get (assign m (messageAssigns v r cs)) =
      r.allReceivers.length := by
    refine get_message m ?_ ((length_allReceivers_le r).trans_lt (by decide))
    cases hmulti : r.multiShare with
    | false => simp [messageAssigns, descriptorAssigns, headerAssigns, hmulti, MemRegionInit.allReceivers]
    | true =>
      simp [messageAssigns, descriptorAssigns, hmulti, MemRegionInit.allReceivers,
        length_sharedReceivers hmulti]
  have hconstituents : (Composite.constituentCount (compositeAt v r)).get
      (assign m (messageAssigns v r cs)) = cs.length :=
    get_message m (by simp [messageAssigns]) hcount
  have hpages : (Composite.pageCount (compositeAt v r)).get (assign m (messageAssigns v r cs)) =
      (cs.map fun c => c.pageCount.toNat).sum % 2 ^ 32 := by
    have htotal := pageTotal_mod 0 cs
    rw [Nat.zero_add] at htotal
    rw [get_assign_of_mem m (messageAssigns_disjoint v r cs) (v := pageTotal 0 cs)
      (by simp [messageAssigns])]
    exact htotal
  have hviews : (List.range r.allReceivers.length).map
      (viewReceiver v (assign m (messageAssigns v r cs))) =
        r.allReceivers.map (requestedReceiver v r) := by
    refine List.ext_getElem (by simp) fun i hi _ => ?_
    simp only [List.length_map, List.length_range] at hi
    simp only [List.getElem_map, List.getElem_range, viewReceiver_message v cs m hi]
  have hcopies : (List.range cs.length).map
      (viewConstituent (assign m (messageAssigns v r cs)) (compositeAt v r)) =
        cs.map fun c => (c.address.toNat, c.pageCount.toNat, c.reserved.toNat) := by
    refine List.ext_getElem (by simp) fun i hi _ => ?_
    simp only [List.length_map, List.length_range] at hi
    simp only [List.getElem_map, List.getElem_range,
      viewConstituent_message m hi (by rw [hcopied]; exact hi)]
  simp only [viewMessage, getComposite_message v cs m hfirst, Option.map_some, hsender, hattributes,
    hflags, hhandle, htag, hreceivers, hconstituents, hpages, hviews, hcopies, htype, hcache, hshare,
    requestedMessage]

/-- The fields of a message end with the constituents that are copied. -/
theorem messageAssigns_end (v : FfaVersion) (r : MemRegionInit) (cs : List Constituent) :
    ∀ w ∈ messageAssigns v r cs,
      w.1.offset + w.1.width ≤ compositeAt v r + 16 + 16 * copied v r cs.length := by
  intro w hw
  simp only [messageAssigns, List.mem_append, List.mem_cons, List.not_mem_nil, or_false] at hw
  rcases hw with ((hw | rfl | rfl) | hw) | rfl
  · have hwithin := descriptorFields_within v (length_allReceivers_le r) w.1 (by
      rw [← map_descriptorAssigns]
      exact List.mem_map_of_mem hw)
    rw [← compositeAt] at hwithin
    omega
  · simp only [Composite.constituentCount]
    omega
  · simp only [Composite.reserved0]
    omega
  · have hwithin := (constituentsAssigns_within _ _ _ w hw).2
    simp only [Composite.constituents, sizeofComposite, sizeofConstituent, List.length_take] at hwithin
    omega
  · simp only [Composite.pageCount]
    omega

/-- A constituent that is not copied is whatever the buffer held. -/
theorem address_of_not_copied (m : ByteMemory) {i : ℕ} (hi : copied v r cs.length ≤ i) :
    (Constituents.address (Composite.constituents (compositeAt v r) i)).get
        (assign m (messageAssigns v r cs)) =
      (Constituents.address (Composite.constituents (compositeAt v r) i)).get m := by
  have hbase : compositeAt v r + 16 + 16 * copied v r cs.length ≤
      Composite.constituents (compositeAt v r) i := by
    simp only [Composite.constituents, sizeofComposite, sizeofConstituent]
    omega
  exact get_assign_of_disjoint m fun w hw => Or.inl ((messageAssigns_end v r cs w hw).trans hbase)

/-- A number is not one more than itself in its lowest byte. -/
theorem load_ne_of_low_byte {m : ByteMemory} {a x : ℕ} (n : ℕ) (h : m a = UInt8.ofNat (x + 1)) :
    m.load a (n + 1) ≠ x := by
  intro hload
  rw [ByteMemory.load, h, UInt8.toNat_ofNat'] at hload
  omega

/-- When a constituent is not copied, some buffer makes the message read back differently. -/
theorem not_readsBack (hcount : cs.length < 2 ^ 32) (hreceiver : r.allReceivers ≠ [])
    (hlt : fragmentMax v r < cs.length) : ¬ReadsBack v r cs := by
  intro hreads
  have hcopied : copied v r cs.length = fragmentMax v r := if_pos hlt
  -- the buffer disagrees with the first constituent that is left out
  obtain ⟨m, hm⟩ : ∃ m : ByteMemory, ∀ a, m a = UInt8.ofNat (cs[fragmentMax v r].address.toNat + 1) :=
    ⟨fun _ => _, fun _ => rfl⟩
  obtain ⟨result, hrun, hview, -⟩ := hreads m
  rw [valFfaMemoryRegionInit_eq v r hcount hreceiver, Option.some.injEq] at hrun
  rw [← hrun, viewMessage,
    getComposite_message v cs m (List.length_pos_of_ne_nil hreceiver), Option.map_some,
    Option.some.injEq] at hview
  have hconstituents := congrArg MessageView.constituents hview
  have hlength := congrArg MessageView.constituentCount hview
  simp only [requestedMessage] at hconstituents hlength
  rw [hlength] at hconstituents
  have hentry := congrArg (fun l => l[fragmentMax v r]?) hconstituents
  simp only [List.getElem?_map, List.getElem?_range hlt, List.getElem?_eq_getElem hlt,
    Option.map_some, Option.some.injEq, viewConstituent, Prod.mk.injEq] at hentry
  rw [address_of_not_copied m hcopied.le] at hentry
  exact load_ne_of_low_byte 7 (hm _) hentry.1

/-- A buffer of less than `2 ^ 36` bytes that holds the whole message, or the size 0, for which the
difference wraps, leaves room for every constituent. -/
theorem le_fragmentMax (htotal : compositeAt v r + 16 + 16 * cs.length < 2 ^ 32)
    (hmax : r.memoryRegionMaxSize.toNat = 0 ∨
      compositeAt v r + 16 + 16 * cs.length ≤ r.memoryRegionMaxSize.toNat)
    (hsmall : r.memoryRegionMaxSize.toNat < 2 ^ 36) : cs.length ≤ fragmentMax v r := by
  obtain ⟨hlow, hhigh⟩ := compositeAt_bounds v r
  simp only [fragmentMax, sizeofComposite, sizeofConstituent]
  rcases hmax with hzero | hmax
  · rw [hzero]
    unfold sub64 wrap32
    omega
  · rw [sub64_of_le (by omega) (by omega), wrap32_of_lt (by omega)]
    omega

end

/-- A message of less than `2 ^ 32` bytes, in a buffer that is large enough or whose size is given as
0, reads back as requested exactly when the number of constituents is at most the 32-bit number of
constituents that fit. A size below `2 ^ 36` is enough for that. -/
theorem region_init_reads_back_iff (v : FfaVersion) (r : MemRegionInit) (cs : List Constituent)
    (hreceivers : r.multiShare = true → 1 ≤ r.receiverCount)
    (htotal : compositeAt v r + 16 + 16 * cs.length < 2 ^ 32)
    (hmax : r.memoryRegionMaxSize.toNat = 0 ∨
      compositeAt v r + 16 + 16 * cs.length ≤ r.memoryRegionMaxSize.toNat) :
    (ReadsBack v r cs ↔ cs.length ≤ fragmentMax v r) ∧
      (r.memoryRegionMaxSize.toNat < 2 ^ 36 → ReadsBack v r cs) := by
  have hcount : cs.length < 2 ^ 32 := by omega
  have hreceiver := allReceivers_ne_nil hreceivers
  have hiff : ReadsBack v r cs ↔ cs.length ≤ fragmentMax v r := by
    constructor
    · intro hreads
      by_contra hlt
      exact not_readsBack hcount hreceiver (by omega) hreads
    · intro hle m
      have hcopied : copied v r cs.length = cs.length := if_neg (by omega)
      exact ⟨_, valFfaMemoryRegionInit_eq v r hcount hreceiver m,
        viewMessage_message hcount hreceiver hcopied m, partsApart v r cs.length⟩
  exact ⟨hiff, fun hsmall => hiff.mpr (le_fragmentMax htotal hmax hsmall)⟩

/-- A request of one page for receiver 2, in a buffer of `size` bytes. -/
def onePageRequest (size : UInt64) : MemRegionInit :=
  { memoryRegionMaxSize := size
    sender := 1
    receiver := 2
    tag := 0
    flags := 0
    impdef := ⟨0, 0⟩
    dataAccess := .rw
    instructionAccess := .nx
    type := .normal
    cacheability := .writeBack
    shareability := .innerShareable
    multiShare := false
    receiverCount := 1
    receivers := fun _ => ⟨0, 0, ⟨0, 0⟩⟩
    receiverCount_le := by decide }

/-- The page of that request. -/
def onePage : Constituent := ⟨0x1000, 1, 0⟩

/-- With the size 0 the message of one page reads back as requested. -/
theorem one_page_reads_back : ReadsBack .v1_1 (onePageRequest 0) [onePage] :=
  (region_init_reads_back_iff .v1_1 (onePageRequest 0) [onePage] (by decide) (by decide)
    (by decide)).2 (by decide)

/-- With a buffer of `2 ^ 36 + 80` bytes the same page is not copied, although it fits. -/
theorem one_page_left_out :
    compositeAt .v1_1 (onePageRequest (2 ^ 36 + 80)) + 16 + 16 * [onePage].length = 96 ∧
      (valFfaMemoryRegionInit .v1_1 (onePageRequest (2 ^ 36 + 80)) [onePage] fun _ => 0).map
        (fun result => (result.remaining, viewConstituent result.mem 64 0)) = some (1, 0, 0, 0) ∧
      ¬ReadsBack .v1_1 (onePageRequest (2 ^ 36 + 80)) [onePage] := by
  refine ⟨by decide, by decide +kernel, not_readsBack (by decide) ?_ (by decide +kernel)⟩
  exact allReceivers_ne_nil (by decide)

end FfaAcs.Share
