import FfaAcs.Platform.Libc

/-!
# Random bytes for the TPM

The platform hands out random bytes one at a time from a cached 64-bit word, and asks the random
number generator for a new word when all eight bytes are used. Two functions consume the cache:
`_plat__GetEntropy` stores the bytes as they are, and `_plat__GetEPS` stores each byte with a mask.

The replies of the generator are an input. The cache stands for the bytes that were drawn and not
delivered yet: what was delivered, followed by the rest of the cached word, is all that was drawn.
-/

namespace FfaAcs.Platform

/-- What `GetRandomNumber64` returns and the word it leaves. A call that fails may leave any word. -/
structure RngReply where
  success : Bool
  word : BitVec 64
deriving DecidableEq, Repr

/-- The replies of the random number generator, in order. -/
abbrev Rng := ℕ → RngReply

/-- `g_tpm_entropy_word` and `g_tpm_entropy_offset`, with the number of calls of the generator. -/
structure EntropyCache where
  word : BitVec 64
  offset : ℕ
  calls : ℕ
deriving DecidableEq, Repr

/-- The size of a word, where the offset starts. -/
def sizeofEntropyWord : ℕ := 8

/-- `PAL_TPM_EPS_MAX_SIZE` -/
def palTpmEpsMaxSize : ℕ := 32

/-- `PAL_TPM_ENTROPY_MAX_SIZE` -/
def palTpmEntropyMaxSize : ℕ := 64

/-- The cache before the first call. -/
def EntropyCache.start : EntropyCache := ⟨0, sizeofEntropyWord, 0⟩

/-- Byte `k` of a word. -/
def byteOfWord (w : BitVec 64) (k : ℕ) : UInt8 := ⟨(w >>> (k * 8)).setWidth 8⟩

/-- The byte at the offset, which moves on. -/
def EntropyCache.take (s : EntropyCache) : EntropyCache × Option UInt8 :=
  ({ s with offset := s.offset + 1 }, some (byteOfWord s.word s.offset))

/-- The next byte, from a new word when the cached one is used up. -/
def palTpmNextEntropyByte (rng : Rng) (s : EntropyCache) : EntropyCache × Option UInt8 :=
  if s.offset ≥ sizeofEntropyWord then
    let reply := rng s.calls
    let s := { s with word := reply.word, calls := s.calls + 1 }
    if reply.success = false then (s, none) else { s with offset := 0 }.take
  else s.take

/-- A loop that fills a buffer from index `i` on, until it is full or the generator fails. The writes
are recorded with their indices; `store` is what is written for a byte. -/
def fillEntropy (rng : Rng) (store : ℕ → UInt8 → UInt8) (s : EntropyCache) (i : ℕ) :
    ℕ → EntropyCache × Bool × List (ℕ × UInt8)
  | 0 => (s, true, [])
  | count + 1 =>
    match palTpmNextEntropyByte rng s with
    | (s, none) => (s, false, [])
    | (s, some byte) =>
      let (s, full, writes) := fillEntropy rng store s (i + 1) count
      (s, full, (i, store i byte) :: writes)

/-- The byte of the endorsement seed at index `i`. -/
def maskEps (i : ℕ) (byte : UInt8) : UInt8 := 0xE0 ^^^ UInt8.ofNat i ^^^ byte

/-- A byte that is stored as it is. -/
def plainByte (_ : ℕ) (byte : UInt8) : UInt8 := byte

/-- `_plat__GetEPS`, with whether the buffer is NULL. -/
def platGetEps (rng : Rng) (s : EntropyCache) (size : ℕ) (null : Bool) :
    EntropyCache × List (ℕ × UInt8) :=
  if null then (s, [])
  else
    let size := if size > palTpmEpsMaxSize then palTpmEpsMaxSize else size
    let (s, _, writes) := fillEntropy rng maskEps s 0 size
    (s, writes)

/-- `_plat__GetEntropy`, with whether the buffer is NULL. -/
def platGetEntropy (rng : Rng) (s : EntropyCache) (amount : ℕ) (null : Bool) :
    EntropyCache × ℤ × List (ℕ × UInt8) :=
  if null ∨ amount > palTpmEntropyMaxSize then (s, -1, [])
  else
    let (s, full, writes) := fillEntropy rng plainByte s 0 amount
    (s, if full then amount else -1, writes)

/-! ## What is drawn and what is delivered -/

/-- The bytes of a word, least significant first. -/
def bytesOfWord (w : BitVec 64) : List UInt8 := (List.range sizeofEntropyWord).map (byteOfWord w)

/-- The words of the calls that succeeded, among the first `n`. -/
def drawnWords (rng : Rng) (n : ℕ) : List (BitVec 64) :=
  (List.range n).filterMap fun k => if (rng k).success then some (rng k).word else none

/-- The bytes of those words. -/
def drawnBytes (rng : Rng) (n : ℕ) : List UInt8 := (drawnWords rng n).flatMap bytesOfWord

/-- The calls of the TPM library. -/
inductive EntropyCall
  | getEps (size : ℕ) (null : Bool)
  | getEntropy (amount : ℕ) (null : Bool)
deriving DecidableEq, Repr

/-- Carry out a call: the cache after it and the bytes it wrote. -/
def EntropyCall.exec (rng : Rng) (s : EntropyCache) : EntropyCall → EntropyCache × List (ℕ × UInt8)
  | .getEps size null => platGetEps rng s size null
  | .getEntropy amount null =>
    let (s, _, writes) := platGetEntropy rng s amount null
    (s, writes)

/-- The random byte behind a byte that a call wrote. -/
def EntropyCall.unmask : EntropyCall → ℕ × UInt8 → UInt8
  | .getEps _ _, (i, byte) => maskEps i byte
  | .getEntropy _ _, (i, byte) => plainByte i byte

/-- The number of bytes that a call may write. -/
def EntropyCall.limit : EntropyCall → ℕ
  | .getEps size _ => min size palTpmEpsMaxSize
  | .getEntropy amount _ => if amount > palTpmEntropyMaxSize then 0 else amount

/-- The cache, and the random bytes delivered so far, in order. -/
structure EntropySystem where
  cache : EntropyCache
  delivered : List UInt8

/-- Carry out a call. -/
def EntropySystem.step (rng : Rng) (s : EntropySystem) (c : EntropyCall) : EntropySystem :=
  ⟨(c.exec rng s.cache).1, s.delivered ++ (c.exec rng s.cache).2.map c.unmask⟩

/-- Carry out a sequence of calls. -/
def entropyRun (rng : Rng) (calls : List EntropyCall) : EntropySystem :=
  calls.foldl (EntropySystem.step rng) ⟨.start, []⟩

/-- What was delivered and the rest of the cached word are what was drawn. -/
structure Accounted (rng : Rng) (s : EntropyCache) (delivered : List UInt8) : Prop where
  bound : s.offset ≤ sizeofEntropyWord
  stream : delivered ++ (bytesOfWord s.word).drop s.offset = drawnBytes rng s.calls

section

variable {rng : Rng} {s : EntropyCache} {delivered : List UInt8}

/-- One more call of the generator adds its word, if it succeeded. -/
theorem drawnBytes_succ (n : ℕ) : drawnBytes rng (n + 1) =
    drawnBytes rng n ++ if (rng n).success then bytesOfWord (rng n).word else [] := by
  rw [drawnBytes, drawnWords, List.range_succ, List.filterMap_append, List.flatMap_append,
    ← drawnWords, ← drawnBytes]
  cases hreply : (rng n).success <;> simp [hreply]

/-- Nothing is left of a word that is used up. -/
theorem Accounted.of_used (h : Accounted rng s delivered) (hused : s.offset ≥ sizeofEntropyWord) :
    s.offset = sizeofEntropyWord ∧ delivered = drawnBytes rng s.calls := by
  have hoffset : s.offset = sizeofEntropyWord := le_antisymm h.bound hused
  have hrest : (bytesOfWord s.word).drop s.offset = [] := by
    rw [hoffset]
    exact List.drop_of_length_le (by simp [bytesOfWord])
  have hstream := h.stream
  rw [hrest, List.append_nil] at hstream
  exact ⟨hoffset, hstream⟩

/-- Taking a byte delivers the first of the rest. -/
theorem Accounted.take (h : Accounted rng s delivered) (hleft : s.offset < sizeofEntropyWord) :
    Accounted rng s.take.1 (delivered ++ [byteOfWord s.word s.offset]) := by
  have hrest : (bytesOfWord s.word).drop s.offset =
      byteOfWord s.word s.offset :: (bytesOfWord s.word).drop (s.offset + 1) := by
    have hlength : s.offset < (bytesOfWord s.word).length := by simpa [bytesOfWord] using hleft
    rw [List.drop_eq_getElem_cons hlength]
    simp [bytesOfWord]
  have hstream := h.stream
  rw [hrest] at hstream
  exact ⟨hleft, by simpa [EntropyCache.take] using hstream⟩

/-- The next byte is delivered, or the generator failed and nothing is. -/
theorem Accounted.next (h : Accounted rng s delivered) :
    Accounted rng (palTpmNextEntropyByte rng s).1
      (delivered ++ (palTpmNextEntropyByte rng s).2.toList) := by
  unfold palTpmNextEntropyByte
  split
  case isTrue hused =>
    obtain ⟨hoffset, hall⟩ := h.of_used hused
    have hdrawn : drawnBytes rng (s.calls + 1) = _ := drawnBytes_succ s.calls
    dsimp only
    split
    case isTrue hfailed =>
      -- the offset stays behind the word, so the word that was left does not count
      rw [hfailed, if_neg Bool.false_ne_true, List.append_nil, ← hall] at hdrawn
      refine ⟨h.bound, ?_⟩
      rw [hdrawn, hoffset, List.drop_of_length_le (by simp [bytesOfWord])]
      simp
    case isFalse hsuccess =>
      rw [if_pos (by simpa using hsuccess), ← hall] at hdrawn
      have hfresh : Accounted rng { s with word := (rng s.calls).word, calls := s.calls + 1, offset := 0 }
          delivered := ⟨Nat.zero_le _, hdrawn.symm⟩
      exact hfresh.take (Nat.zero_lt_succ 7)
  case isFalse hleft => exact h.take (Nat.lt_of_not_le hleft)

/-- Filling a buffer delivers the bytes that it writes. -/
theorem Accounted.fill {store unmask : ℕ → UInt8 → UInt8} (hmask : ∀ i b, unmask i (store i b) = b)
    (h : Accounted rng s delivered) (i count : ℕ) :
    Accounted rng (fillEntropy rng store s i count).1
      (delivered ++ (fillEntropy rng store s i count).2.2.map fun w => unmask w.1 w.2) := by
  induction count generalizing s delivered i with
  | zero => simpa [fillEntropy] using h
  | succ count ih =>
    have hnext := h.next
    rw [fillEntropy]
    rcases hbyte : palTpmNextEntropyByte rng s with ⟨t, _ | byte⟩
    · simpa [hbyte] using hnext
    · rw [hbyte] at hnext
      have hrest := ih hnext (i + 1)
      simpa [hmask] using hrest

/-- A mask is removed by applying it again. -/
theorem maskEps_maskEps (i : ℕ) (byte : UInt8) : maskEps i (maskEps i byte) = byte := by
  rw [maskEps, maskEps, ← UInt8.xor_assoc, UInt8.xor_self, UInt8.zero_xor]

/-- A call delivers the bytes behind those that it writes. -/
theorem Accounted.exec (h : Accounted rng s delivered) (c : EntropyCall) :
    Accounted rng (c.exec rng s).1 (delivered ++ (c.exec rng s).2.map c.unmask) := by
  cases c with
  | getEps size null =>
    simp only [EntropyCall.exec, platGetEps]
    split
    · simpa using h
    · exact h.fill maskEps_maskEps 0 _
  | getEntropy amount null =>
    have hplain (i : ℕ) (byte : UInt8) : plainByte i (plainByte i byte) = byte := rfl
    simp only [EntropyCall.exec, platGetEntropy]
    split
    · simpa using h
    · exact h.fill hplain 0 amount

/-- A loop writes the indices from the first on, no more than it was asked for. -/
theorem fillEntropy_indices (store : ℕ → UInt8 → UInt8) (s : EntropyCache) (i count : ℕ) :
    ∃ k ≤ count, (fillEntropy rng store s i count).2.2.map Prod.fst = List.range' i k := by
  induction count generalizing s i with
  | zero => exact ⟨0, le_rfl, rfl⟩
  | succ count ih =>
    rw [fillEntropy]
    rcases palTpmNextEntropyByte rng s with ⟨t, _ | byte⟩
    · exact ⟨0, Nat.zero_le _, rfl⟩
    · obtain ⟨k, hk, hindices⟩ := ih t (i + 1)
      exact ⟨k + 1, Nat.succ_le_succ hk, by simp [hindices, List.range'_succ]⟩

/-- A call writes the indices from 0 on, no more than its limit, and nothing through NULL. -/
theorem EntropyCall.exec_indices (c : EntropyCall) (s : EntropyCache) :
    ∃ k ≤ c.limit, (c.exec rng s).2.map Prod.fst = List.range' 0 k := by
  cases c with
  | getEps size null =>
    have hclamp : (if size > palTpmEpsMaxSize then palTpmEpsMaxSize else size) =
        min size palTpmEpsMaxSize := by
      split <;> omega
    simp only [EntropyCall.exec, platGetEps, EntropyCall.limit]
    split
    · exact ⟨0, Nat.zero_le _, rfl⟩
    · rw [hclamp]
      exact fillEntropy_indices maskEps s 0 _
  | getEntropy amount null =>
    by_cases hrefused : null = true ∨ amount > palTpmEntropyMaxSize
    · refine ⟨0, Nat.zero_le _, ?_⟩
      rw [EntropyCall.exec, platGetEntropy, if_pos hrefused]
      rfl
    · rw [EntropyCall.exec, platGetEntropy, if_neg hrefused, EntropyCall.limit,
        if_neg fun hlarge => hrefused (Or.inr hlarge)]
      exact fillEntropy_indices _ s 0 amount

end

/-- **After every sequence of calls the bytes delivered, masks removed, are the first bytes that the
generator returned; and the next call writes the indices from 0 on, no more than its limit.** -/
theorem delivered_of_run (rng : Rng) (calls : List EntropyCall) :
    (entropyRun rng calls).delivered <+: drawnBytes rng (entropyRun rng calls).cache.calls ∧
      ∀ c : EntropyCall, ∃ k ≤ c.limit,
        (c.exec rng (entropyRun rng calls).cache).2.map Prod.fst = List.range' 0 k := by
  have hstart : Accounted rng .start [] := ⟨le_rfl, rfl⟩
  have haccounted : Accounted rng (entropyRun rng calls).cache (entropyRun rng calls).delivered :=
    List.foldlRecOn (motive := fun s : EntropySystem => Accounted rng s.cache s.delivered) calls _
      hstart fun s h c _ => h.exec c
  exact ⟨⟨_, haccounted.stream⟩, fun c => c.exec_indices _⟩

/-- The second of three calls of the generator fails in the middle of a request. -/
example : (entropyRun (fun k => ⟨k ≠ 1, BitVec.ofNat 64 (0x0807060504030201 * (k + 1))⟩)
    [.getEntropy 3 false, .getEps 6 false, .getEntropy 65 false, .getEntropy 2 false]).delivered =
    [1, 2, 3, 4, 5, 6, 7, 8, 3, 6] := by decide

end FfaAcs.Platform
