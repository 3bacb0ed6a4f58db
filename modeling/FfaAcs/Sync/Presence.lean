import Mathlib.Data.BitVec
import FfaAcs.Sync.Pages

/-!
# Marking the partitions that are there

What `val_ep_info_relayer_sync` does to the endpoint table. The descriptors are those that the
relayer put into the RX page, an old one filled up with zeros. They are parsed into an array of the
heap and looked through once for every entry. No entry takes part in the search for another one, and
the search ends at the first descriptor that matches, so changing the identifier of an entry in the
TPM build has no effect on what is found.

The table is initialised data of the program and no part of the heap.
-/

namespace FfaAcs.Sync

open Machine Heap

/-- Descriptor `j` of the answer. The fields that it is too short for are zero. -/
def RelayerReply.descriptor (reply : RelayerReply) (j : ℕ) : PartitionInfo :=
  partitionInfo (fun k => if k < reply.descSize then reply.rx (reply.descSize * j + k) else 0) 0 0

/-- The descriptors of the answer. -/
def RelayerReply.descriptors (reply : RelayerReply) : List PartitionInfo :=
  (List.range reply.descCount).map reply.descriptor

/-- The table after the descriptors `ds` were looked through. -/
structure Synced (b : Build) (ds : List PartitionInfo) (table table' : Table) : Prop where
  others : ∀ i, ¬(1 ≤ i ∧ i ≤ b.valSEpCount) → table' i = table i
  byId : b.tpmService = false → ∀ i, 1 ≤ i → i ≤ b.valSEpCount →
    ((∃ d ∈ ds, d.id = (table i).id) → table' i = { table i with isValid := valPartitionPresent }) ∧
      ((∀ d ∈ ds, d.id ≠ (table i).id) → table' i = { table i with isValid := valPartitionNotPresent })
  byUuid : b.tpmService = true → ∀ i, 1 ≤ i → i ≤ b.valSEpCount →
    (∀ pre d post, ds = pre ++ d :: post → (table i).uuid ≠ 0 → d.uuid = (table i).uuid →
      (∀ d' ∈ pre, d'.uuid ≠ (table i).uuid) → table' i =
        { table i with isValid := valPartitionPresent, id := d.id, ecCount := d.execContext }) ∧
      ((table i).uuid = 0 ∨ (∀ d ∈ ds, d.uuid ≠ (table i).uuid) →
        table' i = { table i with isValid := valPartitionNotPresent })

/-! ## The loops -/

section Loops

variable {b : Build} {m : ByteMemory} {retInfo : ℕ} {e : EndpointInfo} {table : Table}

/-- The nil UUID is the one of zeros. -/
theorem valUuidIsNil_iff (uuid : Fin 4 → BitVec 32) : valUuidIsNil uuid = true ↔ uuid = 0 := by
  rw [valUuidIsNil, decide_eq_true_iff]
  constructor
  · intro h
    have hzero : uuid 0 = 0 ∧ uuid 1 = 0 ∧ uuid 2 = 0 ∧ uuid 3 = 0 := by
      simpa only [BitVec.ofNat_eq_ofNat, BitVec.or_eq_zero_iff, and_assoc] using h
    funext k
    fin_cases k
    exacts [hzero.1, hzero.2.1, hzero.2.2.1, hzero.2.2.2]
  · rintro rfl
    rfl

/-- UUIDs match exactly if they are equal. -/
theorem valUuidMatches_iff (u v : Fin 4 → BitVec 32) : valUuidMatches u v = true ↔ u = v := by
  simp only [valUuidMatches, Bool.and_eq_true, decide_eq_true_iff]
  constructor
  · rintro ⟨⟨⟨h₀, h₁⟩, h₂⟩, h₃⟩
    funext k
    fin_cases k
    exacts [h₀, h₁, h₂, h₃]
  · rintro rfl
    exact ⟨⟨⟨rfl, rfl⟩, rfl⟩, rfl⟩

/-- The loop over the descriptors stops at the first one that describes the endpoint. -/
theorem findPartition_eq (j count : ℕ) :
    findPartition b m retInfo e j count =
      match ((List.range' j count).map (partitionInfo m retInfo)).find? (describes b · e) with
      | some d => markPresent b d e
      | none => { e with isValid := valPartitionNotPresent } := by
  induction count generalizing j with
  | zero => rfl
  | succ count ih =>
    rw [findPartition, List.range'_succ, List.map_cons, List.find?_cons, ih]
    cases describes b (partitionInfo m retInfo j) e <;> rfl

/-- The loop over the endpoints updates each of them from its own entry. -/
theorem matchEndpoints_eq (descCount i k n : ℕ) :
    matchEndpoints b m retInfo descCount table i k n =
      if i ≤ n ∧ n < i + k then findPartition b m retInfo (table n) 0 descCount else table n := by
  induction k generalizing i table with
  | zero => rw [matchEndpoints, if_neg (by omega)]
  | succ k ih =>
    rw [matchEndpoints, ih]
    rcases eq_or_ne n i with rfl | hne
    · rw [if_neg (by omega), if_pos (by omega), Function.update_self]
    · rw [Function.update_of_ne hne]
      exact if_congr (by omega) rfl rfl

/-- An element of the array depends only on its 48 bytes. -/
theorem partitionInfo_congr {m' : ByteMemory} {retInfo' j j' : ℕ}
    (h : ∀ k < 48, m (retInfo + 48 * j + k) = m' (retInfo' + 48 * j' + k)) :
    partitionInfo m retInfo j = partitionInfo m' retInfo' j' := by
  have hload {o n : ℕ} (ho : o + n ≤ 48) :
      m.load (retInfo + 48 * j + o) n = m'.load (retInfo' + 48 * j' + o) n :=
    ByteMemory.load_eq_of_bytes fun i hi => by
      rw [Nat.add_assoc, Nat.add_assoc (retInfo' + 48 * j')]
      exact h (o + i) (by omega)
  have hid := hload (o := 0) (n := 2) (by decide)
  have hexec := hload (o := 2) (n := 2) (by decide)
  have huuid (k : Fin 4) := hload (o := 8 + 4 * k) (n := 4) (by omega)
  simp only [Nat.add_zero, ← Nat.add_assoc] at hid huuid
  simp only [partitionInfo, sizeofPartitionInfo, hid, hexec, huuid]

/-- The loops do what `Synced` says, for the elements of the array. -/
theorem synced_of_elements {ds : List PartitionInfo} {descCount : ℕ}
    (helements : (List.range descCount).map (partitionInfo m retInfo) = ds) :
    Synced b ds table (matchEndpoints b m retInfo descCount table 1 b.valSEpCount) := by
  have hentry (i : ℕ) (hlow : 1 ≤ i) (hhigh : i ≤ b.valSEpCount) :
      matchEndpoints b m retInfo descCount table 1 b.valSEpCount i =
        match ds.find? (describes b · (table i)) with
        | some d => markPresent b d (table i)
        | none => { table i with isValid := valPartitionNotPresent } := by
    rw [matchEndpoints_eq, if_pos (by omega), findPartition_eq, ← List.range_eq_range', helements]
  refine ⟨fun i hi => ?_, fun hbuild i hlow hhigh => ?_, fun hbuild i hlow hhigh => ?_⟩
  · rw [matchEndpoints_eq, if_neg (by omega)]
  · have hdescribes (d : PartitionInfo) : describes b d (table i) = true ↔ d.id = (table i).id := by
      simp [describes, hbuild, eq_comm]
    rw [hentry i hlow hhigh]
    constructor
    · rintro ⟨d, hd, hid⟩
      have hfound : (ds.find? (describes b · (table i))).isSome = true :=
        List.find?_isSome.mpr ⟨d, hd, (hdescribes d).mpr hid⟩
      obtain ⟨d', hd'⟩ := Option.isSome_iff_exists.mp hfound
      rw [hd']
      simp only [markPresent, hbuild, Bool.false_eq_true, if_false]
    · intro hnone
      have hmissing : ds.find? (describes b · (table i)) = none :=
        List.find?_eq_none.mpr fun d hd hdesc => hnone d hd ((hdescribes d).mp hdesc)
      rw [hmissing]
  · have hdescribes (d : PartitionInfo) :
        describes b d (table i) = true ↔ (table i).uuid ≠ 0 ∧ d.uuid = (table i).uuid := by
      rw [describes, if_pos hbuild, Bool.and_eq_true, Bool.not_eq_true', ← Bool.not_eq_true,
        valUuidIsNil_iff, valUuidMatches_iff, eq_comm (a := d.uuid)]
    rw [hentry i hlow hhigh]
    constructor
    · intro pre d post hds hnil huuid hpre
      have hfound : ds.find? (describes b · (table i)) = some d := by
        rw [hds, List.find?_append, List.find?_eq_none.mpr fun d' hd' hdesc =>
          hpre d' hd' ((hdescribes d').mp hdesc).2, Option.none_or]
        exact List.find?_cons_of_pos ((hdescribes d).mpr ⟨hnil, huuid⟩)
      rw [hfound]
      simp only [markPresent, hbuild, if_true]
    · intro hnone
      have hmissing : ds.find? (describes b · (table i)) = none := by
        refine List.find?_eq_none.mpr fun d hd hdesc => ?_
        obtain ⟨hnil, huuid⟩ := (hdescribes d).mp hdesc
        rcases hnone with hzero | hnone
        exacts [hnil hzero, hnone d hd huuid]
      rw [hmissing]

end Loops

/-! ## The descriptors in the array -/

/-- Every allocation of the call yields a block that holds what was asked for: the TX page, the RX page, and
the array if there is a descriptor. For the RX page this asks more than a result that is not null: the page
that is returned lies inside the block that is marked for it. -/
def AllocationsSucceed (buf : HeapBuffer) (h : HeapState) (reply : RelayerReply) : Prop :=
  chosenAligned buf h pageSize4k pageSize4k ≠ none ∧
    (∀ tx h₁, valAlignedAlloc buf h pageSize4k pageSize4k = .ok (tx, h₁) → TakesPage buf h₁) ∧
    (reply.descCount = 0 ∨ LeavesRoom buf h reply)

section Array

variable {b : Build} {buf : HeapBuffer} {h h' : HeapState} {reply : RelayerReply} {p : Pages}
  {parsed : Parsed} {table : Table} {u v : Node}

/-- The parser fills the array with the descriptors, and the pages stay in use. -/
theorem PageNodes.parse {ns : List Node} (hc : Chained buf (p.answered reply) ns) (hu : u ∈ inUse ns)
    (hv : v ∈ inUse ns) (hne : v ≠ u) (hrx : p.rx = u.addr + blockSize) (hsizeRx : u.size = pageSize4k)
    (hsizeTx : v.size = pageSize4k) (hpos : 0 < reply.descCount)
    (hroom : ¬NoFit buf (p.answered reply) (reply.descCount * sizeofPartitionInfo))
    (hsize : reply.descSize ≤ 48) (hlist : reply.descCount * reply.descSize ≤ pageSize4k) :
    ∃ parsed, parsePartitions buf reply p = .ok parsed ∧ parsed.retInfo ≠ 0 ∧
      PageNodes buf parsed.heap u v ∧
      (List.range reply.descCount).map (partitionInfo parsed.heap.mem parsed.retInfo) =
        reply.descriptors := by
  have hheader : blockSize = 32 := rfl
  have hpage : pageSize4k = 4096 := rfl
  have helement : sizeofPartitionInfo = 48 := rfl
  have hcount : reply.descCount < 2 ^ 32 := (reply.arg2.setWidth 32).isLt
  have hbytes : reply.descCount * sizeofPartitionInfo = 48 * reply.descCount := Nat.mul_comm _ _
  rw [Nat.mul_comm] at hlist
  rcases hc.malloc (k := reply.descCount * sizeofPartitionInfo) (by omega) (by omega) with
    hnull | ⟨h', front, w, rest, hmalloc, hc', -, hw, huse, hframe⟩
  · exact absurd ((valMalloc_eq_null_iff (by omega) hnull).mp rfl) hroom
  · -- the array is a block of its own, so the writes to it stay apart from the RX page
    obtain ⟨hu', huw⟩ := hc'.mem_others.mp (huse ▸ hu)
    obtain ⟨hv', -⟩ := hc'.mem_others.mp (huse ▸ hv)
    have hapart := hc'.laid.apart (d := u) (by
      have hmem := (mem_inUse.mp hu').1
      simp only [List.mem_append, List.mem_cons] at hmem
      tauto)
    have houtside (y : ℕ) (hy : y < w.addr + blockSize ∨ w.addr + blockSize + w.size ≤ y) :
        valFfaPartitionDescriptorInfoParser h'.mem (w.addr + blockSize) p.rx reply.descSize
          reply.descCount y = h'.mem y := by
      refine parser_of_not_written fun d hd => ?_
      have hlow := le_of_mem_parserWrites hd
      have hend := parserWrites_end hsize hd
      omega
    refine ⟨⟨w.addr + blockSize, { h' with mem := _ }⟩, ?_, ?_,
      ⟨⟨_, hc'.write (n := w) (by simp) houtside, hu', hv'⟩, hne, hsizeRx, hsizeTx⟩, ?_⟩
    · rw [parsePartitions, hmalloc]
      rfl
    · simp only
      omega
    · refine List.map_congr_left fun j hj => partitionInfo_congr fun k hk => ?_
      have hj' := List.mem_range.mp hj
      have hnext : reply.descSize * (j + 1) ≤ reply.descSize * reply.descCount :=
        Nat.mul_le_mul_left _ hj'
      rw [Nat.mul_succ] at hnext
      have hanswer (i : ℕ) (hi : i < pageSize4k) : h'.mem (p.rx + i) = reply.rx i := by
        rw [hframe u hu _ (by omega) (by omega), Pages.answered]
        simp only
        rw [ByteMemory.blit, if_pos (by omega), Nat.add_sub_cancel_left]
      simp only [Nat.mul_zero, Nat.zero_add]
      rw [parser_element hsize (by omega) hj' hk]
      split
      case isTrue hin => rw [Nat.add_assoc, hanswer _ (by omega)]
      case isFalse => rfl

/-- The descriptors are parsed when every allocation succeeds, with the RX page inside its block. -/
theorem parse_of_allocations (hready : HeapReady buf h) (halloc : AllocationsSucceed buf h reply)
    (hmap : reply.mapFid ≠ ffaError32) (hinfo : reply.infoFid ≠ ffaError32)
    (hsize : reply.descSize ≤ 48) (hlist : reply.descCount * reply.descSize ≤ pageSize4k) :
    ∃ p parsed h', allocPages buf h = .ok p ∧ Answered reply p ∧
      parsePartitions buf reply p = .ok parsed ∧ ¬(parsed.retInfo = 0 ∧ reply.descCount ≠ 0) ∧
      freeMemory p.tx p.rx parsed.heap = .ok h' ∧
      (List.range reply.descCount).map (partitionInfo parsed.heap.mem parsed.retInfo) =
        reply.descriptors := by
  obtain ⟨htxFound, hrxTaken, hroom⟩ := halloc
  rcases allocPages_cases hready with ⟨hnone, -⟩ |
    ⟨tx, h₁, htx, htxPos, -, ⟨hnone, -⟩ | ⟨rx, h₂, u, v, -, hrxPos, hpages, hnodes, hu, hv⟩⟩
  · exact absurd hnone htxFound
  · exact absurd (hrxTaken tx h₁ htx) (not_takesPage hnone)
  · have hrx := hu.eq (hrxTaken tx h₁ htx)
    have hanswered : PageNodes buf (Pages.answered reply ⟨tx, rx, h₂⟩) u v := hnodes.answered hrx
    obtain ⟨ns, hc, hrxUse, htxUse⟩ := hanswered.chained
    rcases Nat.eq_zero_or_pos reply.descCount with hzero | hpos
    · -- nothing is allocated and nothing is parsed
      obtain ⟨h', hfree⟩ := (hanswered.release hu hv).freeMemory_ok
      refine ⟨⟨tx, rx, h₂⟩, ⟨0, Pages.answered reply ⟨tx, rx, h₂⟩⟩, h', hpages,
        ⟨hrxPos, htxPos, hmap, hinfo⟩, ?_, fun hnull => hnull.2 hzero, hfree, ?_⟩
      · rw [parsePartitions, hzero, Nat.zero_mul]
        rfl
      · rw [RelayerReply.descriptors, hzero]
        rfl
    · obtain ⟨parsed, hparse, hinfoPos, hparsed, helements⟩ :=
        PageNodes.parse hc hrxUse htxUse hanswered.ne hrx hanswered.rxSize hanswered.txSize hpos
          (hroom.resolve_left hpos.ne' _ hpages) hsize hlist
      obtain ⟨h', hfree⟩ := (hparsed.release hu hv).freeMemory_ok
      exact ⟨⟨tx, rx, h₂⟩, parsed, h', hpages, ⟨hrxPos, htxPos, hmap, hinfo⟩, hparse,
        fun hnull => hinfoPos hnull.1, hfree, helements⟩

/-- The call with an answer. -/
theorem sync_of_answered (hpages : allocPages buf h = .ok p) (hanswered : Answered reply p)
    (hparse : parsePartitions buf reply p = .ok parsed)
    (hnull : ¬(parsed.retInfo = 0 ∧ reply.descCount ≠ 0)) :
    valEpInfoRelayerSync b buf reply h table = (freeMemory p.tx p.rx parsed.heap).map fun h' =>
      (h', syncTable b reply parsed table) := by
  simp only [valEpInfoRelayerSync, hpages, bind, Except.bind, if_pos hanswered, hparse, if_neg hnull]
  cases freeMemory p.tx p.rx parsed.heap <;> rfl

/-- The call without an answer. -/
theorem sync_of_unanswered (hpages : allocPages buf h = .ok p) (hanswered : ¬Answered reply p) :
    valEpInfoRelayerSync b buf reply h table =
      (freeMemory p.tx p.rx p.heap).map fun h' => (h', table) := by
  simp only [valEpInfoRelayerSync, hpages, bind, Except.bind, if_neg hanswered]
  cases freeMemory p.tx p.rx p.heap <;> rfl

/-- Without an answer the call returns, and the table is left alone. -/
theorem sync_unanswered_returns (hready : HeapReady buf h)
    (herror : reply.mapFid = ffaError32 ∨ reply.infoFid = ffaError32) :
    ∃ h', valEpInfoRelayerSync b buf reply h table = .ok (h', table) := by
  have hunanswered (p : Pages) : ¬Answered reply p := fun hanswered =>
    herror.elim hanswered.2.2.1 hanswered.2.2.2
  rcases allocPages_cases hready with ⟨-, hpages⟩ |
    ⟨tx, h₁, -, -, -, ⟨-, hpages⟩ | ⟨rx, h₂, u, v, -, -, hpages, hnodes, hu, hv⟩⟩
  · exact ⟨_, by rw [sync_of_unanswered hpages (hunanswered _), freeMemory_null]; rfl⟩
  · exact ⟨_, by rw [sync_of_unanswered hpages (hunanswered _), freeMemory_null]; rfl⟩
  · obtain ⟨h', hfree⟩ := (hnodes.release hu hv).freeMemory_ok
    exact ⟨h', by rw [sync_of_unanswered hpages (hunanswered _), hfree]; rfl⟩

/-- With an invalid size the table is left alone. -/
theorem sync_invalid_size (hsize : ¬ValidDescSize reply.descSize) {table' : Table}
    (hrun : valEpInfoRelayerSync b buf reply h table = .ok (h', table')) : table' = table := by
  obtain ⟨p, hpages, hrest⟩ := exists_ok_of_bind hrun
  split at hrest
  · obtain ⟨parsed, -, hrest⟩ := exists_ok_of_bind hrest
    split at hrest
    · exact nomatch hrest
    · obtain ⟨h'', -, hrest⟩ := exists_ok_of_bind hrest
      rw [syncTable, if_neg hsize] at hrest
      exact (Prod.mk.inj (Except.ok.inj hrest)).2.symm
  · obtain ⟨h'', -, hrest⟩ := exists_ok_of_bind hrest
    exact (Prod.mk.inj (Except.ok.inj hrest)).2.symm

/-- When the relayer returns descriptors of a valid size and every allocation succeeds, with the RX page
inside the block that is marked for it, the call returns and marks the entries as `Synced` says. When
FFA_PARTITION_INFO_GET fails it returns with the table as it was. With an invalid size it leaves the table
as it was, and it returns when the descriptors are no larger than the elements of the array. -/
theorem relayer_sync_table (b : Build) (buf : HeapBuffer) (reply : RelayerReply) (h : HeapState)
    (table : Table) (hready : HeapReady buf h) :
    (AllocationsSucceed buf h reply → reply.mapFid ≠ ffaError32 → reply.infoFid ≠ ffaError32 →
      reply.descCount * reply.descSize ≤ pageSize4k → ValidDescSize reply.descSize →
      ∃ h' table', valEpInfoRelayerSync b buf reply h table = .ok (h', table') ∧
        Synced b reply.descriptors table table') ∧
      (reply.infoFid = ffaError32 → ∃ h', valEpInfoRelayerSync b buf reply h table = .ok (h', table)) ∧
      (¬ValidDescSize reply.descSize →
        (∀ h' table', valEpInfoRelayerSync b buf reply h table = .ok (h', table') → table' = table) ∧
        (AllocationsSucceed buf h reply → reply.mapFid ≠ ffaError32 →
          reply.descCount * reply.descSize ≤ pageSize4k → reply.descSize ≤ 48 →
          ∃ h', valEpInfoRelayerSync b buf reply h table = .ok (h', table))) := by
  refine ⟨fun halloc hmap hinfo hlist hsize => ?_, fun hinfo => ?_, fun hsize => ⟨?_, ?_⟩⟩
  · have hle : reply.descSize ≤ 48 := by
      rcases hsize with hsize | hsize | hsize <;> rw [hsize] <;> decide
    obtain ⟨p, parsed, h', hpages, hanswered, hparse, hnull, hfree, helements⟩ :=
      parse_of_allocations hready halloc hmap hinfo hle hlist
    refine ⟨h', _, by rw [sync_of_answered hpages hanswered hparse hnull, hfree]; rfl, ?_⟩
    rw [syncTable, if_pos hsize]
    exact synced_of_elements helements
  · exact sync_unanswered_returns hready (Or.inr hinfo)
  · exact fun h' table' hrun => sync_invalid_size hsize hrun
  · intro halloc hmap hlist hle
    by_cases hinfo : reply.infoFid = ffaError32
    · exact sync_unanswered_returns hready (Or.inr hinfo)
    · obtain ⟨p, parsed, h', hpages, hanswered, hparse, hnull, hfree, -⟩ :=
        parse_of_allocations hready halloc hmap hinfo hle hlist
      refine ⟨h', ?_⟩
      rw [sync_of_answered hpages hanswered hparse hnull, hfree, syncTable, if_neg hsize]
      rfl

end Array

/-- A table whose first endpoint has the identifier 0x1111. -/
def twoEndpoints : Table := fun i =>
  { name := fun _ => 0, isValid := 0, isSecure := 0, id := if i = 1 then 0x1111 else 0x2222, tg0 := 0,
    elInfo := 0, ecCount := 0, epProperties := 0, uuid := fun _ => 0 }

/-- On a fresh heap the second page follows its header. -/
theorem takesPage_second (tx : ℕ) (h₁ : HeapState) (hrun : valAlignedAlloc firstPage
    (Client.start fun _ => 0).heap pageSize4k pageSize4k = .ok (tx, h₁)) : TakesPage firstPage h₁ := by
  have heval : ((valAlignedAlloc firstPage (Client.start fun _ => 0).heap pageSize4k pageSize4k).map
      fun r => decide (TakesPage firstPage r.2)) = .ok true := by
    decide +kernel
  rw [hrun] at heval
  exact of_decide_eq_true (Except.ok.inj heval)

/-- On a fresh heap an answer of one descriptor with the identifier 0x1111 marks the first endpoint as
present and the second one as missing. -/
theorem relayer_sync_table_of_one :
    ∃ h' table', valEpInfoRelayerSync .partitions firstPage (oneDescriptor 24)
        (Client.start fun _ => 0).heap twoEndpoints = .ok (h', table') ∧
      (table' 1).isValid = valPartitionPresent ∧ (table' 2).isValid = valPartitionNotPresent := by
  have hids : (oneDescriptor 24).descriptors.map (·.id) = [0x1111] := by decide +kernel
  have hfits : ((allocPages firstPage (Client.start fun _ => 0).heap).map fun p =>
      decide (NoFit firstPage (p.answered (oneDescriptor 24)) 48)) = .ok false := by
    decide +kernel
  obtain ⟨p, hpages, hp⟩ := exists_ok_of_map hfits
  have hsucceed : AllocationsSucceed firstPage (Client.start fun _ => 0).heap (oneDescriptor 24) := by
    refine ⟨by decide +kernel, takesPage_second, Or.inr fun p' hp' => ?_⟩
    rw [hpages, Except.ok.injEq] at hp'
    exact hp' ▸ of_decide_eq_false hp
  obtain ⟨hmarks, -, -⟩ := relayer_sync_table .partitions firstPage (oneDescriptor 24)
    (Client.start fun _ => 0).heap twoEndpoints (heapReady_of_run .nil)
  obtain ⟨h', table', hrun, hsynced⟩ :=
    hmarks hsucceed (by decide) (by decide) (by decide) (by decide)
  refine ⟨h', table', hrun, ?_, ?_⟩
  · have hfound : ∃ d ∈ (oneDescriptor 24).descriptors, d.id = (twoEndpoints 1).id := by
      have hmem : (0x1111 : BitVec 16) ∈ (oneDescriptor 24).descriptors.map (·.id) := by
        rw [hids]
        exact List.mem_singleton_self _
      exact List.mem_map.mp hmem
    rw [(hsynced.byId rfl 1 (by decide) (by decide)).1 hfound]
  · have hmissing : ∀ d ∈ (oneDescriptor 24).descriptors, d.id ≠ (twoEndpoints 2).id := by
      intro d hd heq
      have hmem := List.mem_map_of_mem (f := (·.id)) hd
      rw [hids, heq] at hmem
      exact absurd hmem (by decide)
    rw [(hsynced.byId rfl 2 (by decide) (by decide)).2 hmissing]

end FfaAcs.Sync
