import FfaAcs.Sync.PartitionInfo
import FfaAcs.Machine.WordArithmetic

/-!
# Partition descriptors in registers

`FFA_PARTITION_INFO_GET_REGS` returns up to five descriptors a call, in registers. The test helper
asks for one page after the other: it keeps the index of the last descriptor it got, takes the next
index as the start of the next page, and parses the descriptors of a page into an array.

The helper takes an index of zero for "nothing received yet", so that a first page of one descriptor
is requested again. From the second page on the difference of the last indices is the number of
descriptors, to which the helper adds one.
-/

namespace FfaAcs.Sync

open Machine Platform

/-! ## The relayer -/

/-- A relayer with a fixed list of partitions. The length of a page, the register with the last index
and the size of a descriptor, and the registers behind the descriptors may differ from call to
call. -/
structure Relayer where
  partitionCount : ℕ
  descriptor : ℕ → ℕ → UInt8
  page : ℕ → ℕ → ℕ
  arg2 : ℕ → ℕ → ℕ
  rest : ℕ → ℕ → UInt8

namespace Relayer

/-- The bytes of the registers from `arg3` on. -/
def regs (r : Relayer) (call start b : ℕ) : UInt8 :=
  if b < 24 * r.page call start then r.descriptor (start + b / 24) (b % 24) else r.rest call b

/-- The descriptors of a page, as the elements of an array that hold them. -/
def returned (r : Relayer) (call start : ℕ) : List (List UInt8) :=
  (List.range (r.page call start)).map fun i =>
    (List.range 48).map fun k => if k < 24 then r.descriptor (start + i) k else 0

/-- The relayer has enough partitions. It answers with one to five descriptors of 24 bytes that it has,
and reports the index of the last one. -/
structure Serves (r : Relayer) (count : ℕ) : Prop where
  enough : count ≤ r.partitionCount
  few : r.partitionCount ≤ 2 ^ 16
  pos : ∀ call start, start < r.partitionCount → 1 ≤ r.page call start
  le : ∀ call start, start < r.partitionCount → r.page call start ≤ 5
  inside : ∀ call start, start < r.partitionCount → start + r.page call start ≤ r.partitionCount
  last : ∀ call start, start < r.partitionCount →
    r.arg2 call start / 2 ^ 16 % 2 ^ 16 = start + r.page call start - 1
  size : ∀ call start, start < r.partitionCount → r.arg2 call start / 2 ^ 48 % 2 ^ 16 = 24

end Relayer

/-! ## The helper -/

/-- What the helper returns. -/
inductive Status
  | success
  | errorPoint (n : ℕ)
deriving DecidableEq, Repr

/-- The fields of `val_endpoint_info_t` that are compared. -/
structure ExpectedEp where
  id : ℕ
  ecCount : ℕ
  epProperties : ℕ

/-- What surrounds a call of the helper: where `payload.arg3` lies, what `val_malloc` returns in each
round, the expected endpoints, and whether the properties have to be equal. -/
structure HelperEnv where
  arg3 : ℕ
  info : ℕ → ℕ
  expected : ℕ → ExpectedEp
  exact : Bool

/-- A round of the helper: the index it requested, the descriptors of that page, and the array that it
compared with the expected endpoints. -/
structure Round where
  start : ℕ
  returned : List (List UInt8)
  parsed : List (List UInt8)
deriving DecidableEq, Repr

/-- The local variables of the helper. -/
structure Helper where
  mem : ByteMemory
  i : ℕ
  currentIndex : ℕ
  lastIndex : ℕ
  status : Status
  rounds : List Round

/-- The index that `ffa_partition_info_get_regs` requests. -/
def requestIndex (startIndexAndTag : ℕ) : ℕ :=
  if startIndexAndTag ≠ 0 then wrap64 (startIndexAndTag + 1) else startIndexAndTag

/-- `is_matching_endpoint_found` over the next `n` elements of the array. -/
def isMatchingEndpointFound (env : HelperEnv) (ep : ExpectedEp) (m : ByteMemory) (info : ℕ) : ℕ → Bool
  | 0 => false
  | n + 1 =>
    if ep.id ≠ m.load info 2 then isMatchingEndpointFound env ep m (info + sizeofPartitionInfo) n
    else if ep.ecCount ≠ m.load (info + 2) 2 then false
    else if env.exact then decide (ep.epProperties = m.load (info + 4) 4)
    else !decide (ep.epProperties < m.load (info + 4) 4)

/-- The loop over the expected endpoints of a page. Its index stays below `count`. -/
def compareExpected (env : HelperEnv) (m : ByteMemory) (info infoGetCount currentIndex count : ℕ) :
    ℕ → ℕ → Status → ℕ × Status
  | 0, i, status => (i, status)
  | fuel + 1, i, status =>
    if i ≤ currentIndex ∧ i < count then
      compareExpected env m info infoGetCount currentIndex count fuel (i + 1)
        (if isMatchingEndpointFound env (env.expected i) m info infoGetCount then status
        else .errorPoint 9)
    else (i, status)

/-- An element of the array. -/
def element (m : ByteMemory) (a : ℕ) : List UInt8 := (List.range 48).map fun k => m (a + k)

/-- The first elements of an array. -/
def elements (m : ByteMemory) (a n : ℕ) : List (List UInt8) :=
  (List.range n).map fun i => element m (a + 48 * i)

/-- A round whose request was served. -/
def Helper.served (env : HelperEnv) (r : Relayer) (count n start : ℕ) (s : Helper) : Helper :=
  let m := s.mem.blit env.arg3 120 (r.regs n start)
  let currentIndex := r.arg2 n start >>> 16 &&& 0xffff
  let infoGetDescriptorSize := r.arg2 n start >>> 48 &&& 0xffff
  let infoGetCount := wrap64 (sub64 currentIndex s.lastIndex + 1)
  let m := valFfaPartitionDescriptorInfoParser m (env.info n) env.arg3 infoGetDescriptorSize infoGetCount
  let (i, status) :=
    compareExpected env m (env.info n) infoGetCount currentIndex count count s.i s.status
  ⟨m, i, currentIndex, s.lastIndex, status,
    s.rounds ++ [⟨start, r.returned n start, elements m (env.info n) infoGetCount⟩]⟩

/-- The loop of `ffa_partition_info_helper`. The relayer refuses an index it does not have. -/
def helperLoop (env : HelperEnv) (r : Relayer) (count : ℕ) :
    ℕ → ℕ → Helper → Option (Status × List Round)
  | 0, _, _ => none
  | fuel + 1, n, s =>
    if count = 1 ∨ wrap64 (s.currentIndex + 1) < count then
      let start := requestIndex s.currentIndex
      if start < r.partitionCount then
        let s := s.served env r count n start
        if count = 1 then some (s.status, s.rounds)
        else helperLoop env r count fuel (n + 1) { s with lastIndex := s.currentIndex }
      else some (.errorPoint 5, s.rounds)
    else some (s.status, s.rounds)

/-- The local variables at the start of the helper. -/
def Helper.entry (m : ByteMemory) : Helper := ⟨m, 0, 0, 0, .success, []⟩

/-- `ffa_partition_info_helper`. -/
def ffaPartitionInfoHelper (env : HelperEnv) (r : Relayer) (count fuel : ℕ) (m : ByteMemory) :
    Option (Status × List Round) :=
  helperLoop env r count fuel 0 (Helper.entry m)

/-! ## What the helper is for -/

/-- Each round starts where the page before it ended. -/
def Consecutive : ℕ → List Round → Prop
  | _, [] => True
  | start, round :: rounds =>
    round.start = start ∧ Consecutive (start + round.returned.length) rounds

/-- The helper ends, requests consecutive pages, and parses on each page what the page returned. -/
def ReadsPages (env : HelperEnv) (r : Relayer) (count : ℕ) (m : ByteMemory) : Prop :=
  ∃ fuel status rounds, ffaPartitionInfoHelper env r count fuel m = some (status, rounds) ∧
    Consecutive 0 rounds ∧ ∀ round ∈ rounds, round.parsed = round.returned

/-! ## One round -/

section

variable {env : HelperEnv} {r : Relayer} {count n start : ℕ} {s : Helper}

/-- A field of 16 bits of a register, by division. -/
theorem land_ffff (x k : ℕ) : x >>> k &&& 0xffff = x / 2 ^ k % 2 ^ 16 := by
  rw [Nat.shiftRight_eq_div_pow]
  exact Nat.and_two_pow_sub_one_eq_mod _ 16

/-- The number of descriptors that a round parses. -/
def infoGetCount (r : Relayer) (n start lastIndex : ℕ) : ℕ :=
  wrap64 (sub64 (start + r.page n start - 1) lastIndex + 1)

/-- A served round: the index of its last descriptor, and what it parsed. -/
theorem served_eq (hserves : r.Serves count) (env : HelperEnv) (n : ℕ) (s : Helper)
    (hstart : start < r.partitionCount) :
    (s.served env r count n start).currentIndex = start + r.page n start - 1 ∧
      (s.served env r count n start).lastIndex = s.lastIndex ∧
      (s.served env r count n start).rounds = s.rounds ++ [⟨start, r.returned n start,
        elements (valFfaPartitionDescriptorInfoParser (s.mem.blit env.arg3 120 (r.regs n start))
          (env.info n) env.arg3 24 (infoGetCount r n start s.lastIndex)) (env.info n)
          (infoGetCount r n start s.lastIndex)⟩] := by
  simp only [Helper.served, land_ffff, hserves.last n start hstart, hserves.size n start hstart]
  exact ⟨trivial, trivial, rfl⟩

/-- A round parses what its page has from the last index on. -/
theorem infoGetCount_eq {lastIndex : ℕ} (hserves : r.Serves count) (hstart : start < r.partitionCount)
    (hlast : lastIndex ≤ start + r.page n start - 1) :
    infoGetCount r n start lastIndex = start + r.page n start - lastIndex := by
  have hpos := hserves.pos n start hstart
  have hinside := hserves.inside n start hstart
  have hfew := hserves.few
  rw [infoGetCount, sub64_of_le hlast (by omega), wrap64_of_lt (by omega)]
  omega

/-- The array of a round that parses as many descriptors as its page has. -/
theorem elements_eq_returned {m : ByteMemory} (hserves : r.Serves count)
    (hstart : start < r.partitionCount) (hapart : Apart env.arg3 120 (env.info n) 240) :
    elements (valFfaPartitionDescriptorInfoParser (m.blit env.arg3 120 (r.regs n start)) (env.info n)
      env.arg3 24 (r.page n start)) (env.info n) (r.page n start) = r.returned n start := by
  have hle := hserves.le n start hstart
  unfold Apart at hapart
  apply List.map_congr_left
  intro i hi
  rw [List.mem_range] at hi
  apply List.map_congr_left
  intro k hk
  rw [List.mem_range] at hk
  rw [parser_element (by decide) (by omega) hi hk]
  by_cases hlow : k < 24
  · have hin : 24 * i + k < 24 * r.page n start := by omega
    have hdiv : (24 * i + k) / 24 = i := by omega
    have hmod : (24 * i + k) % 24 = k := by omega
    have hbyte : env.arg3 + 24 * i + k - env.arg3 = 24 * i + k := by omega
    rw [if_pos hlow, if_pos hlow, ByteMemory.blit, if_pos (by omega), hbyte, Relayer.regs, if_pos hin,
      hdiv, hmod]
  · rw [if_neg hlow, if_neg hlow]

/-- `n` elements of memory are `n`. -/
theorem length_elements (m : ByteMemory) (a n : ℕ) : (elements m a n).length = n := by
  rw [elements, List.length_map, List.length_range]

/-- What the relayer returns has the length of its page. -/
theorem length_returned : (r.returned n start).length = r.page n start := by
  rw [Relayer.returned, List.length_map, List.length_range]

/-! ## Whole runs -/

/-- The rounds that were made stay on record. The induction is on the fuel. -/
theorem helperLoop_rounds {fuel : ℕ} {status : Status} {rounds : List Round}
    (hend : helperLoop env r count fuel n s = some (status, rounds)) : s.rounds <+: rounds := by
  induction fuel generalizing n s with
  | zero => cases hend
  | succ fuel ih =>
    have hserved (start : ℕ) : s.rounds <+: (s.served env r count n start).rounds :=
      List.prefix_append _ _
    unfold helperLoop at hend
    simp only at hend
    split at hend
    · split at hend
      · split at hend
        · cases hend
          exact hserved _
        · have hrest := ih hend
          exact (hserved _).trans hrest
      · cases hend
        exact List.prefix_refl _
    · cases hend
      exact List.prefix_refl _

/-- The state after a round that is not the only one. -/
def Helper.next (env : HelperEnv) (r : Relayer) (count n : ℕ) (s : Helper) : Helper :=
  { s.served env r count n (requestIndex s.currentIndex) with
    lastIndex := (s.served env r count n (requestIndex s.currentIndex)).currentIndex }

/-- A round of a run with several descriptors to come. -/
theorem helperLoop_succ (fuel : ℕ) (hcount : 2 ≤ count) (hmore : s.currentIndex + 1 < count)
    (hword : count < 2 ^ 16) (hstart : requestIndex s.currentIndex < r.partitionCount) :
    helperLoop env r count (fuel + 1) n s =
      helperLoop env r count fuel (n + 1) (s.next env r count n) := by
  rw [helperLoop, wrap64_of_lt (by omega), if_pos (Or.inr hmore)]
  simp only
  rw [if_pos hstart, if_neg (by omega)]
  rfl

/-- The first round of such a run. -/
theorem helper_first {m : ByteMemory} (fuel : ℕ) (hcount : 2 ≤ count) (hword : count < 2 ^ 16)
    (hstart : 0 < r.partitionCount) :
    helperLoop env r count (fuel + 1) 0 (Helper.entry m) =
      helperLoop env r count fuel 1 ((Helper.entry m).next env r count 0) :=
  helperLoop_succ fuel hcount hcount hword hstart

/-- The first page is read as it should be. -/
theorem rounds_first (hserves : r.Serves count) (hstart : 0 < r.partitionCount) (m : ByteMemory)
    (hapart : Apart env.arg3 120 (env.info 0) 240) :
    ((Helper.entry m).served env r count 0 0).rounds = [⟨0, r.returned 0 0, r.returned 0 0⟩] := by
  have hcount : infoGetCount r 0 0 0 = r.page 0 0 := by
    rw [infoGetCount_eq hserves hstart (Nat.zero_le _), Nat.zero_add, Nat.sub_zero]
  rw [(served_eq hserves env 0 (Helper.entry m) hstart).2.2]
  change [] ++ [(⟨0, r.returned 0 0, elements (valFfaPartitionDescriptorInfoParser _ _ _ 24
    (infoGetCount r 0 0 0)) _ (infoGetCount r 0 0 0)⟩ : Round)] = _
  rw [hcount, elements_eq_returned hserves hstart hapart, List.nil_append]

/-- One page is enough. -/
theorem reads_of_first_page (hserves : r.Serves count) (hword : count < 2 ^ 16)
    (hapart : Apart env.arg3 120 (env.info 0) 240) (m : ByteMemory)
    (hcond : count ≤ 1 ∨ count ≤ r.page 0 0) : ReadsPages env r count m := by
  rcases Nat.eq_zero_or_pos count with rfl | hpos
  · refine ⟨1, .success, [], ?_, trivial, fun round hround => by cases hround⟩
    rw [ffaPartitionInfoHelper, helperLoop, if_neg (by omega)]
    rfl
  · have hstart : 0 < r.partitionCount := hpos.trans_le hserves.enough
    have hrounds := rounds_first hserves hstart m hapart
    have hgood : Consecutive 0 ((Helper.entry m).served env r count 0 0).rounds ∧
        ∀ round ∈ ((Helper.entry m).served env r count 0 0).rounds,
          round.parsed = round.returned := by
      rw [hrounds]
      exact ⟨⟨rfl, trivial⟩, fun round hround => by rw [List.mem_singleton.mp hround]⟩
    have hrequest : requestIndex (Helper.entry m).currentIndex = 0 := rfl
    rcases Nat.eq_or_lt_of_le (Nat.succ_le_of_lt hpos) with hone | htwo
    · refine ⟨1, ((Helper.entry m).served env r count 0 0).status, _, ?_, hgood⟩
      rw [ffaPartitionInfoHelper, helperLoop, if_pos (Or.inl hone.symm)]
      simp only
      rw [hrequest, if_pos hstart, if_pos hone.symm]
    · have hle := hserves.le 0 0 hstart
      have hlast := (served_eq hserves env 0 (Helper.entry m) hstart).1
      refine ⟨2, ((Helper.entry m).served env r count 0 0).status, _, ?_, hgood⟩
      rw [ffaPartitionInfoHelper, helper_first 1 htwo hword hstart, helperLoop, Helper.next, hrequest,
        hlast, wrap64_of_lt (by omega), if_neg (by omega)]

/-- The state before the second request. -/
theorem next_entry (hserves : r.Serves count) (env : HelperEnv) (m : ByteMemory)
    (hstart : 0 < r.partitionCount) :
    ((Helper.entry m).next env r count 0).currentIndex = r.page 0 0 - 1 ∧
      ((Helper.entry m).next env r count 0).lastIndex = r.page 0 0 - 1 ∧
      ∃ round : Round, ((Helper.entry m).next env r count 0).rounds = [round] ∧
        round.returned.length = r.page 0 0 := by
  have hfirst := served_eq hserves env 0 (Helper.entry m) hstart
  have hindex : 0 + r.page 0 0 - 1 = r.page 0 0 - 1 := by omega
  rw [hindex] at hfirst
  exact ⟨hfirst.1, hfirst.1, _, hfirst.2.2, length_returned⟩

/-- A first page that is not the last one is followed by a round that repeats it or that parses one
descriptor too many. -/
theorem not_reads_of_short (hserves : r.Serves count) (hword : count < 2 ^ 16) (m : ByteMemory)
    (htwo : 2 ≤ count) (hshort : r.page 0 0 < count) : ¬ ReadsPages env r count m := by
  rintro ⟨fuel, status, rounds, hend, hconsecutive, hparsed⟩
  have henough := hserves.enough
  have hstart : 0 < r.partitionCount := by omega
  have hpage := hserves.pos 0 0 hstart
  obtain ⟨hcurrent, hlast, first, hrounds, hlength⟩ := next_entry hserves env m hstart
  set s₁ := (Helper.entry m).next env r count 0
  have hrequest : requestIndex s₁.currentIndex = if r.page 0 0 = 1 then 0 else r.page 0 0 := by
    rw [requestIndex, hcurrent]
    split_ifs <;> first | omega | (rw [wrap64_of_lt (by omega)]; omega)
  have hserved : requestIndex s₁.currentIndex < r.partitionCount := by
    rw [hrequest]
    split <;> omega
  have hsecond := (served_eq hserves env 1 s₁ hserved).2.2
  rcases fuel with _ | _ | fuel
  · cases hend
  · rw [ffaPartitionInfoHelper, helper_first 0 htwo hword hstart] at hend
    cases hend
  · rw [ffaPartitionInfoHelper, helper_first _ htwo hword hstart,
      helperLoop_succ _ htwo (by omega) hword hserved] at hend
    obtain ⟨later, rfl⟩ := helperLoop_rounds hend
    change Consecutive 0 ((s₁.served env r count 1 _).rounds ++ later) at hconsecutive
    change ∀ round ∈ (s₁.served env r count 1 _).rounds ++ later, _ at hparsed
    rw [hsecond, hrounds] at hconsecutive hparsed
    have hnext := hconsecutive.2.1
    simp only [hlength, Nat.zero_add, hrequest] at hnext
    -- the second page starts behind the first one, which then has two descriptors or more
    have hmany : r.page 0 0 ≠ 1 := by
      intro hone
      rw [if_pos hone] at hnext
      omega
    rw [if_neg hmany] at hrequest
    have hcount := hparsed _ (List.mem_append_left _ (List.mem_append_right _ (List.mem_singleton_self _)))
    have hlengths := congrArg List.length hcount
    simp only [length_elements, length_returned] at hlengths
    rw [hrequest] at hserved hlengths
    have hpos := hserves.pos 1 _ hserved
    rw [infoGetCount_eq hserves hserved (by omega)] at hlengths
    omega

/-- A relayer that answers the first request with one descriptor keeps the helper for ever. -/
theorem helperLoop_diverges (hserves : r.Serves count) (hword : count < 2 ^ 16) (htwo : 2 ≤ count)
    (hone : ∀ call, r.page call 0 = 1) (fuel : ℕ) (hindex : s.currentIndex = 0) :
    helperLoop env r count fuel n s = none := by
  have hstart : 0 < r.partitionCount := by have := hserves.enough; omega
  induction fuel generalizing n s with
  | zero => rfl
  | succ fuel ih =>
    have hrequest : requestIndex s.currentIndex = 0 := by rw [hindex]; rfl
    rw [helperLoop_succ fuel htwo (by omega) hword (by rw [hrequest]; exact hstart)]
    apply ih
    change (s.served env r count n (requestIndex s.currentIndex)).currentIndex = 0
    rw [hrequest, (served_eq hserves env n s hstart).1, hone]

end

/-- The helper reads the pages as it should exactly if it wants at most one descriptor or gets all of
them on the first page. -/
theorem partition_info_reads_pages_iff (env : HelperEnv) (r : Relayer) (count : ℕ) (m : ByteMemory)
    (hserves : r.Serves count) (hword : count < 2 ^ 16)
    (hapart : Apart env.arg3 120 (env.info 0) 240) :
    ReadsPages env r count m ↔ count ≤ 1 ∨ count ≤ r.page 0 0 := by
  constructor
  · intro hreads
    by_contra hcond
    rw [not_or] at hcond
    exact not_reads_of_short hserves hword m (by omega) (by omega) hreads
  · exact reads_of_first_page hserves hword hapart m

/-- Three partitions, and pages of at most `k` descriptors. -/
def threePartitions (k : ℕ) : Relayer where
  partitionCount := 3
  descriptor i b := UInt8.ofNat (24 * i + b)
  page _ start := min k (3 - start)
  arg2 _ start := 24 * 2 ^ 48 + (start + min k (3 - start) - 1) * 2 ^ 16 + 2
  rest _ _ := 0

/-- This relayer serves all three of its partitions. -/
theorem threePartitions_serves {k : ℕ} (hpos : 0 < k) (hle : k ≤ 5) : (threePartitions k).Serves 3 where
  enough := le_rfl
  few := by
    simp only [threePartitions]
    omega
  pos _ start hstart := by
    simp only [threePartitions] at hstart ⊢
    omega
  le _ start _ := by
    simp only [threePartitions]
    omega
  inside _ start hstart := by
    simp only [threePartitions] at hstart ⊢
    omega
  last _ start hstart := by
    simp only [threePartitions] at hstart ⊢
    omega
  size _ start hstart := by
    simp only [threePartitions] at hstart ⊢
    omega

/-- The payload at `0x1000` and the arrays at `0x2000`. -/
def helperEnv : HelperEnv := ⟨0x1000, fun _ => 0x2000, fun _ => ⟨0, 0, 0⟩, false⟩

/-- With pages of one descriptor the helper does not end. With pages of two, it does not read the
pages as it should. -/
theorem partition_info_misreads_pages :
    (∀ fuel, ffaPartitionInfoHelper helperEnv (threePartitions 1) 3 fuel (fun _ => 0) = none) ∧
      ¬ ReadsPages helperEnv (threePartitions 2) 3 (fun _ => 0) := by
  constructor
  · intro fuel
    exact helperLoop_diverges (threePartitions_serves (by decide) (by decide)) (by decide) (by decide)
      (fun _ => rfl) fuel rfl
  · exact not_reads_of_short (threePartitions_serves (by decide) (by decide)) (by decide) _ (by decide)
      (by decide)

/-- The helper reads three partitions that fit one page. -/
theorem partition_info_reads_one_page : ReadsPages helperEnv (threePartitions 5) 3 (fun _ => 0) :=
  (partition_info_reads_pages_iff helperEnv (threePartitions 5) 3 (fun _ => 0)
    (threePartitions_serves (by decide) (by decide)) (by decide) (by decide)).mpr
    (Or.inr (by decide))

end FfaAcs.Sync
