import FfaAcs.Share.Stale

/-!
# The first fragment of a transaction descriptor

`val_ffa_memory_region_init` is given the size of the buffer and is to copy as many constituents as
fit. The room behind the headers is a difference of `size_t` that is cut to 32 bits. It is right as
long as the headers fit, and the number of constituents that fit is below `2 ^ 32` or the message
is small enough not to notice. A size below that of the headers is not noticed either: the
difference wraps, everything is copied, and the buffer overflows.
-/

namespace FfaAcs.Share

open Machine

/-- The message stays inside the buffer. When the headers fit, the fragment is as long as the buffer
allows, and the lengths and the returned number say what is left. -/
structure FillsFragment (v : FfaVersion) (r : MemRegionInit) (cs : List Constituent) (m : ByteMemory)
    (result : InitResult) : Prop where
  bounded : ∀ y, r.memoryRegionMaxSize.toNat ≤ y → result.mem y = m y
  length : compositeAt v r + 16 ≤ r.memoryRegionMaxSize.toNat →
    result.fragmentLength ≤ r.memoryRegionMaxSize.toNat
  total : compositeAt v r + 16 ≤ r.memoryRegionMaxSize.toNat →
    result.fragmentLength + 16 * result.remaining = result.totalLength
  remaining : compositeAt v r + 16 ≤ r.memoryRegionMaxSize.toNat →
    result.remaining = cs.length - (r.memoryRegionMaxSize.toNat - (compositeAt v r + 16)) / 16
  copied : compositeAt v r + 16 ≤ r.memoryRegionMaxSize.toNat →
    ∀ i (hi : i < cs.length), i < cs.length - result.remaining →
      viewConstituent result.mem (compositeAt v r) i =
        (cs[i].address.toNat, cs[i].pageCount.toNat, cs[i].reserved.toNat)

section

variable {v : FfaVersion} {r : MemRegionInit} {cs : List Constituent}

/-- The last byte of the composite region is always assigned. -/
theorem covers_headers (v : FfaVersion) (r : MemRegionInit) (cs : List Constituent) :
    Covers (messageAssigns v r cs) (compositeAt v r + 15) := by
  simp only [messageAssigns, covers_append, covers_cons, Composite.reserved0]
  exact Or.inl (Or.inl (Or.inr (Or.inr (Or.inl (by omega)))))

/-- The number of constituents that fit behind headers that fit, cut to 32 bits. -/
theorem fragmentMax_of_le (hheaders : compositeAt v r + 16 ≤ r.memoryRegionMaxSize.toNat) :
    fragmentMax v r = (r.memoryRegionMaxSize.toNat - (compositeAt v r + 16)) / 16 % 2 ^ 32 := by
  rw [fragmentMax, sizeofComposite, sizeofConstituent, sub64_of_le hheaders (UInt64.toNat_lt _)]
  rfl

/-- The number of copied constituents is at most the number of all. -/
theorem copied_le (v : FfaVersion) (r : MemRegionInit) (n : ℕ) : copied v r n ≤ n := by
  unfold copied
  split <;> omega

/-- Only what fits is copied when the headers fit. -/
theorem copied_fits (hheaders : compositeAt v r + 16 ≤ r.memoryRegionMaxSize.toNat) (n : ℕ) :
    compositeAt v r + 16 + 16 * copied v r n ≤ r.memoryRegionMaxSize.toNat := by
  have hmax := fragmentMax_of_le hheaders
  unfold copied
  split <;> omega

/-- All that fits is copied unless the 32-bit number is smaller than the message. -/
theorem copied_eq_iff (hheaders : compositeAt v r + 16 ≤ r.memoryRegionMaxSize.toNat) {n : ℕ}
    (hn : n < 2 ^ 32) :
    n - copied v r n = n - (r.memoryRegionMaxSize.toNat - (compositeAt v r + 16)) / 16 ↔
      (r.memoryRegionMaxSize.toNat - (compositeAt v r + 16)) / 16 < 2 ^ 32 ∨
        n ≤ (r.memoryRegionMaxSize.toNat - (compositeAt v r + 16)) / 16 % 2 ^ 32 := by
  rw [copied, fragmentMax_of_le hheaders]
  split <;> omega

end

/-- Whatever the buffer held, the message of a request of less than `2 ^ 32` bytes stays inside the
buffer and fills it as far as it can, exactly when there is a receiver, the headers fit, and the
number of constituents that fit is below `2 ^ 32` or, cut to 32 bits, still enough for all. -/
theorem fills_fragment_iff (v : FfaVersion) (r : MemRegionInit) (cs : List Constituent)
    (htotal : compositeAt v r + 16 + 16 * cs.length < 2 ^ 32) :
    (∀ m, ∃ result, valFfaMemoryRegionInit v r cs m = some result ∧ FillsFragment v r cs m result) ↔
      (r.multiShare = true → 1 ≤ r.receiverCount) ∧
        compositeAt v r + 16 ≤ r.memoryRegionMaxSize.toNat ∧
        ((r.memoryRegionMaxSize.toNat - (compositeAt v r + 16)) / 16 < 2 ^ 32 ∨
          cs.length ≤ (r.memoryRegionMaxSize.toNat - (compositeAt v r + 16)) / 16 % 2 ^ 32) := by
  have hcount : cs.length < 2 ^ 32 := by omega
  have hcopied := copied_le v r cs.length
  have hfragment : wrap32 (compositeAt v r + sizeofComposite +
      copied v r cs.length * sizeofConstituent) = compositeAt v r + 16 + 16 * copied v r cs.length := by
    rw [sizeofComposite, sizeofConstituent, wrap32_of_lt (by omega), Nat.mul_comm]
  have hmessage : wrap32 (compositeAt v r + sizeofComposite + cs.length * sizeofConstituent) =
      compositeAt v r + 16 + 16 * cs.length := by
    rw [sizeofComposite, sizeofConstituent, wrap32_of_lt (by omega), Nat.mul_comm]
  have hremaining : wrap32 (cs.length + (2 ^ 32 - copied v r cs.length)) =
      cs.length - copied v r cs.length := by
    rw [wrap32]
    omega
  constructor
  · intro hfills
    have hreceiver : r.allReceivers ≠ [] := by
      intro hnone
      obtain ⟨result, hrun, -⟩ := hfills fun _ => 0
      rw [valFfaMemoryRegionInit_of_nil hnone] at hrun
      cases hrun
    have hresult (m : ByteMemory) := hfills m
    simp only [valFfaMemoryRegionInit_eq v r hcount hreceiver, Option.some.injEq,
      exists_eq_left', hremaining] at hresult
    have hheaders : compositeAt v r + 16 ≤ r.memoryRegionMaxSize.toNat := by
      by_contra hshort
      -- the last byte of the headers is assigned, and two buffers cannot both keep it
      have hzero := (hresult fun _ => 0).bounded (compositeAt v r + 15) (by omega)
      have hone := (hresult fun _ => 1).bounded (compositeAt v r + 15) (by omega)
      have hsame := assign_eq_of_covers (fun _ => 0) (fun _ => 1) (Or.inl (covers_headers v r cs))
      simp only at hzero hone
      rw [hzero, hone] at hsame
      exact absurd hsame (by decide)
    refine ⟨?_, hheaders, (copied_eq_iff hheaders hcount).mp ((hresult fun _ => 0).remaining hheaders)⟩
    intro hmulti
    by_contra hzero
    have hlength := length_sharedReceivers hmulti
    refine hreceiver (List.eq_nil_of_length_eq_zero ?_)
    rw [MemRegionInit.allReceivers, if_pos hmulti, hlength]
    omega
  · rintro ⟨hreceivers, hheaders, hroom⟩ m
    have hfits := copied_fits hheaders cs.length
    refine ⟨_, valFfaMemoryRegionInit_eq v r hcount (allReceivers_ne_nil hreceivers) m, ?_⟩
    simp only [hfragment, hmessage, hremaining]
    refine ⟨fun y hy => ?_, fun _ => hfits, fun _ => ?_, fun _ => ?_, fun _ i hi hlt => ?_⟩
    · refine assign_of_not_covers m ?_
      rintro ⟨w, hw, -, hhigh⟩
      have hend := messageAssigns_end v r cs w hw
      omega
    · simp only
      omega
    · exact (copied_eq_iff hheaders hcount).mpr hroom
    · exact viewConstituent_message m hi (by simp only at hlt; omega)

/-- A page and a buffer of one page: the message stays inside. -/
theorem one_page_fills_fragment :
    ∃ result, valFfaMemoryRegionInit .v1_1 (onePageRequest 4096) [onePage] (fun _ => 0xAA) =
      some result ∧ FillsFragment .v1_1 (onePageRequest 4096) [onePage] (fun _ => 0xAA) result :=
  (fills_fragment_iff .v1_1 (onePageRequest 4096) [onePage] (by decide)).mpr
    ⟨by decide, by decide, Or.inl (by decide)⟩ _

/-- A buffer of 8 bytes is filled with 96. -/
theorem one_page_overflows :
    (valFfaMemoryRegionInit .v1_1 (onePageRequest 8) [onePage] fun _ => 0xAA).map
        (fun result => (result.fragmentLength, result.remaining, result.mem 79)) = some (96, 0, 0) ∧
      ¬∃ result, valFfaMemoryRegionInit .v1_1 (onePageRequest 8) [onePage] (fun _ => 0xAA) = some result ∧
        FillsFragment .v1_1 (onePageRequest 8) [onePage] (fun _ => 0xAA) result := by
  have heval : (valFfaMemoryRegionInit .v1_1 (onePageRequest 8) [onePage] fun _ => 0xAA).map
      (fun result => (result.fragmentLength, result.remaining, result.mem 79)) = some (96, 0, 0) := by
    decide +kernel
  refine ⟨heval, ?_⟩
  rintro ⟨result, hrun, hfills⟩
  rw [hrun, Option.map_some, Option.some.injEq] at heval
  have hbyte := hfills.bounded 79 (by decide)
  simp only [Prod.mk.injEq] at heval
  rw [heval.2.2] at hbyte
  exact absurd hbyte (by decide)

end FfaAcs.Share
