import FfaAcs.Heap.Layout
import FfaAcs.Sync.PartitionInfo
import FfaAcs.Sync.Protocol

/-!
# Asking the relayer for the partitions

`val_ep_info_relayer_sync` maps two pages for the exchange with the relayer, asks it for the
descriptors of all partitions, parses them into an array from the heap and marks the endpoints it
finds. Neither the pointer to the array nor the size of a descriptor is checked before the parser
runs; the size is checked afterwards.

What the relayer answers is an input. The results of FFA_RX_RELEASE and FFA_RXTX_UNMAP are only
logged, and are left out with the other log messages.
-/

namespace FfaAcs.Sync

open Machine Heap

/-- `PAGE_SIZE_4K` -/
def pageSize4k : ℕ := 4096

/-- `VAL_PARTITION_PRESENT`. -/
def valPartitionPresent : BitVec 4 := 0xF

/-- `FFA_PARTITION_INFO_V1_0_SIZE` -/
def ffaPartitionInfoV10Size : ℕ := 8

/-- `FFA_PARTITION_INFO_V1_1_SIZE` -/
def ffaPartitionInfoV11Size : ℕ := 24

/-- `FFA_PARTITION_INFO_V1_3_SIZE` -/
def ffaPartitionInfoV13Size : ℕ := 48

/-- What the relayer answers: the function identifier that FFA_RXTX_MAP returns with, the registers
that FFA_PARTITION_INFO_GET returns with, and the RX page after it. -/
structure RelayerReply where
  mapFid : BitVec 64
  infoFid : BitVec 64
  arg2 : BitVec 64
  arg3 : BitVec 64
  rx : ℕ → UInt8

/-- `desc_count` -/
def RelayerReply.descCount (reply : RelayerReply) : ℕ := (reply.arg2.setWidth 32).toNat

/-- `desc_size` -/
def RelayerReply.descSize (reply : RelayerReply) : ℕ := (reply.arg3.setWidth 32).toNat

/-- The two pages and the heap after their allocation. -/
structure Pages where
  tx : ℕ
  rx : ℕ
  heap : HeapState

/-- The allocation of the TX and the RX page. -/
def allocPages (buf : HeapBuffer) (h : HeapState) : Except Fault Pages := do
  let (tx, h) ← valAlignedAlloc buf h pageSize4k pageSize4k
  let (rx, h) ← valAlignedAlloc buf h pageSize4k pageSize4k
  return ⟨tx, rx, h⟩

/-- The partitions are asked for when both pages are there and mapped, and the descriptors are
parsed unless FFA_PARTITION_INFO_GET fails. -/
def Answered (reply : RelayerReply) (p : Pages) : Prop :=
  p.rx ≠ 0 ∧ p.tx ≠ 0 ∧ reply.mapFid ≠ ffaError32 ∧ reply.infoFid ≠ ffaError32

instance (reply : RelayerReply) (p : Pages) : Decidable (Answered reply p) :=
  inferInstanceAs (Decidable (_ ∧ _ ∧ _ ∧ _))

/-- The heap with the answer in the RX page. -/
def Pages.answered (reply : RelayerReply) (p : Pages) : HeapState :=
  { p.heap with mem := p.heap.mem.blit p.rx pageSize4k reply.rx }

/-- The array `ret_info` and the heap after the parser has filled it. -/
structure Parsed where
  retInfo : ℕ
  heap : HeapState

/-- The allocation of the array and the call of the parser. -/
def parsePartitions (buf : HeapBuffer) (reply : RelayerReply) (p : Pages) : Except Fault Parsed := do
  let (retInfo, h) ← valMalloc buf (p.answered reply) (reply.descCount * sizeofPartitionInfo)
  let m := valFfaPartitionDescriptorInfoParser h.mem retInfo p.rx reply.descSize reply.descCount
  return ⟨retInfo, { h with mem := m }⟩

/-- The fields of a parsed descriptor that the matching reads. -/
structure PartitionInfo where
  id : BitVec 16
  execContext : BitVec 16
  uuid : Fin 4 → BitVec 32

/-- Element `j` of the array. -/
def partitionInfo (m : ByteMemory) (retInfo j : ℕ) : PartitionInfo :=
  let base := retInfo + sizeofPartitionInfo * j
  { id := BitVec.ofNat 16 (m.load base 2)
    execContext := BitVec.ofNat 16 (m.load (base + 2) 2)
    uuid := fun k => BitVec.ofNat 32 (m.load (base + 8 + 4 * k) 4) }

def valUuidIsNil (uuid : Fin 4 → BitVec 32) : Bool := (uuid 0 ||| uuid 1 ||| uuid 2 ||| uuid 3) = 0

def valUuidMatches (a b : Fin 4 → BitVec 32) : Bool :=
  a 0 = b 0 && a 1 = b 1 && a 2 = b 2 && a 3 = b 3

/-- Whether a descriptor is that of an endpoint. The TPM build compares the UUIDs. -/
def describes (b : Build) (info : PartitionInfo) (e : EndpointInfo) : Bool :=
  if b.tpmService then !valUuidIsNil e.uuid && valUuidMatches e.uuid info.uuid else e.id = info.id

/-- The entry of an endpoint whose descriptor was found. -/
def markPresent (b : Build) (info : PartitionInfo) (e : EndpointInfo) : EndpointInfo :=
  if b.tpmService then
    { e with isValid := valPartitionPresent, id := info.id, ecCount := info.execContext }
  else { e with isValid := valPartitionPresent }

/-- The loop over the descriptors, from descriptor `j` on. -/
def findPartition (b : Build) (m : ByteMemory) (retInfo : ℕ) (e : EndpointInfo) (j : ℕ) :
    ℕ → EndpointInfo
  | 0 => { e with isValid := valPartitionNotPresent }
  | count + 1 =>
    if describes b (partitionInfo m retInfo j) e then markPresent b (partitionInfo m retInfo j) e
    else findPartition b m retInfo e (j + 1) count

/-- The loop over the endpoints, from endpoint `i` on. -/
def matchEndpoints (b : Build) (m : ByteMemory) (retInfo descCount : ℕ) (table : Table) (i : ℕ) :
    ℕ → Table
  | 0 => table
  | k + 1 =>
    matchEndpoints b m retInfo descCount
      (Function.update table i (findPartition b m retInfo (table i) 0 descCount)) (i + 1) k

/-- The label `free_memory`. A page that cannot be released ends the condition. -/
def freeMemory (tx rx : ℕ) (h : HeapState) : Except Fault HeapState := do
  let (status, h) ← valFree h rx
  if status = .success then
    let (_, h) ← valFree h tx
    return h
  else return h

/-- The size check after the parser. -/
def ValidDescSize (descSize : ℕ) : Prop :=
  descSize = ffaPartitionInfoV10Size ∨ descSize = ffaPartitionInfoV11Size ∨
    descSize = ffaPartitionInfoV13Size

instance (descSize : ℕ) : Decidable (ValidDescSize descSize) :=
  inferInstanceAs (Decidable (_ ∨ _ ∨ _))

/-- The loops over the endpoints, which run when the size is valid. -/
def syncTable (b : Build) (reply : RelayerReply) (parsed : Parsed) (table : Table) : Table :=
  if ValidDescSize reply.descSize
  then matchEndpoints b parsed.heap.mem parsed.retInfo reply.descCount table 1 b.valSEpCount
  else table

/-- `val_ep_info_relayer_sync`: the heap and the endpoint table after the call. -/
def valEpInfoRelayerSync (b : Build) (buf : HeapBuffer) (reply : RelayerReply) (h : HeapState)
    (table : Table) : Except Fault (HeapState × Table) := do
  let p ← allocPages buf h
  if Answered reply p then
    let parsed ← parsePartitions buf reply p
    -- without an array the first element is stored through NULL
    if parsed.retInfo = 0 ∧ reply.descCount ≠ 0 then .error .nullDeref
    else
      let h ← freeMemory p.tx p.rx parsed.heap
      return (h, syncTable b reply parsed table)
  else
    -- without an answer the RX page is not read
    let h ← freeMemory p.tx p.rx p.heap
    return (h, table)

/-! ## What the parser writes -/

/-- The search of `val_malloc` for `n` bytes ends without a block. -/
def NoFit (buf : HeapBuffer) (h : HeapState) (n : ℕ) : Prop :=
  findFit blockLimit (ensureInit buf h).mem (ensureInit buf h).freeList (align n) = .ok 0

instance (buf : HeapBuffer) (h : HeapState) (n : ℕ) : Decidable (NoFit buf h n) :=
  inferInstanceAs (Decidable (_ = _))

/-- The pages leave a block for the array in the heap. -/
def LeavesRoom (buf : HeapBuffer) (h : HeapState) (reply : RelayerReply) : Prop :=
  ∀ p, allocPages buf h = .ok p →
    ¬NoFit buf (p.answered reply) (reply.descCount * sizeofPartitionInfo)

/-- `val_malloc` of a positive size returns NULL exactly when the search ends without a block. -/
theorem valMalloc_eq_null_iff {buf : HeapBuffer} {h h' : HeapState} {n q : ℕ} (hpos : 0 < n)
    (hrun : valMalloc buf h n = .ok (q, h')) : q = 0 ↔ NoFit buf h n := by
  rw [valMalloc, if_neg hpos.ne'] at hrun
  obtain ⟨block, hfind, hrest⟩ := exists_ok_of_bind hrun
  rw [NoFit, hfind, Except.ok.injEq]
  split_ifs at hrest with hblock
  · obtain ⟨rfl, -⟩ := Prod.mk.inj (Except.ok.inj hrest)
    exact ⟨fun _ => hblock, fun _ => rfl⟩
  · obtain ⟨rfl, -⟩ := Prod.mk.inj (Except.ok.inj hrest)
    have hheader : blockSize = 32 := rfl
    omega

/-- The parser writes only its array, and fills every element with its descriptor, exactly when
there is no descriptor or a descriptor is no larger than an element. When
`val_ep_info_relayer_sync` calls it, it writes only the array that was allocated exactly when
there is no descriptor, or a descriptor is no larger than an element and the pages leave room for
the array. -/
theorem descriptors_parsed_iff (buf : HeapBuffer) (h : HeapState) (reply : RelayerReply) :
    (∀ out rx descSize count, count < 2 ^ 32 → Apart rx (descSize * count) out (48 * count) →
      ((∀ m, ParsesDescriptors m (valFfaPartitionDescriptorInfoParser m out rx descSize count) out rx
          descSize count) ↔ count = 0 ∨ descSize ≤ 48)) ∧
      ∀ p parsed, allocPages buf h = .ok p → Answered reply p →
        parsePartitions buf reply p = .ok parsed →
        ((∀ w ∈ parserWrites parsed.retInfo reply.descSize reply.descCount, parsed.retInfo ≠ 0 ∧
            parsed.retInfo ≤ w.1 ∧ w.1 + w.2 ≤ parsed.retInfo + 48 * reply.descCount) ↔
          reply.descCount = 0 ∨ reply.descSize ≤ 48 ∧ LeavesRoom buf h reply) := by
  refine ⟨fun out rx descSize count _ hapart => parsesDescriptors_iff rx hapart, ?_⟩
  intro p parsed hpages _ hparse
  obtain ⟨⟨q, h'⟩, hmalloc, hresult⟩ := exists_ok_of_bind hparse
  obtain rfl := Except.ok.inj hresult
  simp only
  rcases Nat.eq_zero_or_pos reply.descCount with hzero | hpos
  · rw [hzero]
    exact iff_of_true (fun w hw => nomatch hw) (Or.inl rfl)
  · have hroom : LeavesRoom buf h reply ↔ q ≠ 0 := by
      have hnull := valMalloc_eq_null_iff (by rw [sizeofPartitionInfo]; omega) hmalloc
      constructor
      · intro hleaves hq
        exact hleaves p hpages (hnull.mp hq)
      · intro hq p' hp' hfit
        rw [hpages, Except.ok.injEq] at hp'
        exact hq (hnull.mpr (hp' ▸ hfit))
    have hlast := last_mem_parserWrites q reply.descSize (reply.descCount - 1)
    rw [Nat.sub_add_cancel hpos] at hlast
    rw [or_iff_right hpos.ne', hroom]
    constructor
    · intro hwithin
      refine ⟨?_, (hwithin _ hlast).1⟩
      exact ((parserWrites_within_iff q _ _).mp fun w hw => (hwithin w hw).2).resolve_left hpos.ne'
    · rintro ⟨hsize, hq⟩ w hw
      exact ⟨hq, (parserWrites_within_iff q _ _).mpr (Or.inr hsize) w hw⟩

/-- An answer of one descriptor of the given size. -/
def oneDescriptor (descSize : BitVec 64) : RelayerReply where
  mapFid := 0x84000061
  infoFid := 0x84000061
  arg2 := 1
  arg3 := descSize
  rx := fun _ => 0x11

/-- On a fresh heap an answer of one descriptor of 24 bytes is parsed into its array. -/
theorem one_descriptor_parsed :
    (∀ m, ParsesDescriptors m (valFfaPartitionDescriptorInfoParser m 4128 16384 24 1) 4128 16384 24 1) ∧
      ∃ p parsed, allocPages firstPage (Client.start fun _ => 0).heap = .ok p ∧
        parsePartitions firstPage (oneDescriptor 24) p = .ok parsed ∧ parsed.retInfo = 4128 ∧
        ∀ w ∈ parserWrites parsed.retInfo 24 1, parsed.retInfo ≤ w.1 ∧ w.1 + w.2 ≤ 4176 := by
  obtain ⟨hparser, hsync⟩ :=
    descriptors_parsed_iff firstPage (Client.start fun _ => 0).heap (oneDescriptor 24)
  refine ⟨(hparser 4128 16384 24 1 (by decide) (by decide)).mpr (by decide), ?_⟩
  have heval : ((allocPages firstPage (Client.start fun _ => 0).heap).bind fun p =>
      (parsePartitions firstPage (oneDescriptor 24) p).map fun parsed =>
        (p.tx, p.rx, decide (NoFit firstPage (p.answered (oneDescriptor 24)) 48), parsed.retInfo)) =
      .ok (8192, 16384, false, 4128) := by
    decide +kernel
  obtain ⟨p, hpages, heval⟩ := exists_ok_of_bind heval
  obtain ⟨parsed, hparse, hresult⟩ := exists_ok_of_map heval
  simp only [Prod.mk.injEq, decide_eq_false_iff_not] at hresult
  obtain ⟨htx, hrx, hfit, hinfo⟩ := hresult
  have hanswered : Answered (oneDescriptor 24) p := by
    refine ⟨by omega, by omega, by decide, by decide⟩
  have hroom : LeavesRoom firstPage (Client.start fun _ => 0).heap (oneDescriptor 24) := by
    intro p' hp'
    rw [hpages, Except.ok.injEq] at hp'
    exact hp' ▸ hfit
  refine ⟨p, parsed, hpages, hparse, hinfo, fun w hw => ?_⟩
  have hwithin := (hsync p parsed hpages hanswered hparse).mpr (Or.inr ⟨by decide, hroom⟩) w hw
  rw [hinfo] at hwithin ⊢
  exact hwithin.2

/-- A descriptor of 56 bytes is copied over the header of the block behind the array. -/
theorem large_descriptor_overflows :
    ∃ p parsed, allocPages firstPage (Client.start fun _ => 0).heap = .ok p ∧
      Answered (oneDescriptor 56) p ∧ parsePartitions firstPage (oneDescriptor 56) p = .ok parsed ∧
      parsed.retInfo = 4128 ∧ (4128, 56) ∈ parserWrites parsed.retInfo 56 1 ∧
      (loadBlock parsed.heap.mem (4128 + 48)).magic = 0x1111 := by
  have heval : ((allocPages firstPage (Client.start fun _ => 0).heap).bind fun p =>
      (parsePartitions firstPage (oneDescriptor 56) p).map fun parsed =>
        (p.tx, p.rx, parsed.retInfo, (loadBlock parsed.heap.mem (4128 + 48)).magic)) =
      .ok (8192, 16384, 4128, 0x1111) := by
    decide +kernel
  obtain ⟨p, hpages, heval⟩ := exists_ok_of_bind heval
  obtain ⟨parsed, hparse, hresult⟩ := exists_ok_of_map heval
  simp only [Prod.mk.injEq] at hresult
  obtain ⟨htx, hrx, hinfo, hmagic⟩ := hresult
  refine ⟨p, parsed, hpages, ⟨by omega, by omega, by decide, by decide⟩, hparse, hinfo, ?_, hmagic⟩
  rw [hinfo]
  decide

end FfaAcs.Sync
