import FfaAcs.Sync.Presence

/-!
# What the call leaves allocated

`val_ep_info_relayer_sync` takes up to three blocks from the heap: two pages and the array of the
parsed descriptors. The array is never given back. The pages are released by one condition,
`val_free(rx_buff) || val_free(tx_buff)`, whose second call only runs when the first one succeeds, so
a missing or misplaced RX page keeps the TX page allocated as well.

`liveSync` is the call together with the list of live pointers. A pointer is live from the call that
returns it on, unless it is NULL, until a release of it succeeds.
-/

namespace FfaAcs.Sync

open Machine Heap

/-- `val_free`, which ends the life of a pointer when it succeeds. -/
def release (s : Client) (ptr : ℕ) : Except Fault (Heap.Status × Client) :=
  (valFree s.heap ptr).map fun r =>
    (r.1, ⟨r.2, if r.1 = .success then s.live.erase ptr else s.live⟩)

/-- The label `free_memory`. -/
def releasePages (tx rx : ℕ) (s : Client) : Except Fault Client := do
  let (status, s) ← release s rx
  if status = .success then
    let (_, s) ← release s tx
    return s
  else return s

/-- The live pointers when the pages are there. -/
def Pages.live (p : Pages) (live : List ℕ) : List ℕ :=
  (Client.take (Client.take live (p.tx, p.heap)).live (p.rx, p.heap)).live

/-- `val_ep_info_relayer_sync` with the live pointers. -/
def liveSync (b : Build) (buf : HeapBuffer) (reply : RelayerReply) (s : Client) (table : Table) :
    Except Fault (Client × Table) := do
  let p ← allocPages buf s.heap
  if Answered reply p then
    let parsed ← parsePartitions buf reply p
    if parsed.retInfo = 0 ∧ reply.descCount ≠ 0 then .error .nullDeref
    else
      let s ← releasePages p.tx p.rx (Client.take (p.live s.live) (parsed.retInfo, parsed.heap))
      return (s, syncTable b reply parsed table)
  else
    let s ← releasePages p.tx p.rx ⟨p.heap, p.live s.live⟩
    return (s, table)

section

variable {b : Build} {buf : HeapBuffer} {reply : RelayerReply} {s t : Client} {table : Table}
  {p : Pages} {h : HeapState} {tx rx : ℕ}

/-- Releasing the pages does to the heap what `free_memory` does. -/
theorem releasePages_heap (tx rx : ℕ) (s : Client) :
    (releasePages tx rx s).map Client.heap = freeMemory tx rx s.heap := by
  simp only [releasePages, freeMemory, release, bind, Except.bind, Except.map]
  cases valFree s.heap rx with
  | error e => rfl
  | ok r =>
    obtain ⟨status, h⟩ := r
    cases status with
    | error => rfl
    | success =>
      simp only [if_true]
      cases valFree h tx <;> rfl

/-- Without the live pointers `liveSync` is the call. -/
theorem liveSync_heap (b : Build) (buf : HeapBuffer) (reply : RelayerReply) (s : Client)
    (table : Table) :
    (liveSync b buf reply s table).map (fun r => (r.1.heap, r.2)) =
      valEpInfoRelayerSync b buf reply s.heap table := by
  simp only [liveSync, valEpInfoRelayerSync, bind, Except.bind]
  cases allocPages buf s.heap with
  | error e => rfl
  | ok p =>
    simp only
    split
    · cases parsePartitions buf reply p with
      | error e => rfl
      | ok parsed =>
        simp only
        split
        · rfl
        · have hheap : freeMemory p.tx p.rx parsed.heap = _ := (releasePages_heap p.tx p.rx
            (Client.take (p.live s.live) (parsed.retInfo, parsed.heap))).symm
          rw [hheap]
          cases releasePages p.tx p.rx _ <;> rfl
    · have hheap : freeMemory p.tx p.rx p.heap = _ :=
        (releasePages_heap p.tx p.rx ⟨p.heap, p.live s.live⟩).symm
      rw [hheap]
      cases releasePages p.tx p.rx _ <;> rfl

/-- The live pointers after the releases are those before the allocations exactly when both pages are
placed. -/
theorem ReleasesPages.live_iff {placedTx placedRx : Prop} (live : List ℕ)
    (hr : ReleasesPages h tx rx placedTx placedRx) :
    ∃ t, releasePages tx rx ⟨h, rx :: tx :: live⟩ = .ok t ∧
      (t.live.Perm live ↔ placedTx ∧ placedRx) := by
  rcases hr with ⟨hmisses, hrx⟩ | ⟨hplaced, h', hrx, ⟨hplaced', h'', htx⟩ | ⟨hmisses', htx⟩⟩
  · refine ⟨⟨h, rx :: tx :: live⟩, ?_, iff_of_false (fun hperm => ?_) fun hboth => hmisses hboth.2⟩
    · simp only [releasePages, release, hrx, bind, Except.bind, Except.map]
      rfl
    · have hlength := hperm.length_eq
      simp only [List.length_cons] at hlength
      omega
  · refine ⟨⟨h'', live⟩, ?_, iff_of_true (List.Perm.refl _) ⟨hplaced', hplaced⟩⟩
    simp only [releasePages, release, hrx, htx, bind, Except.bind, Except.map, if_true,
      List.erase_cons_head]
    rfl
  · refine ⟨⟨h', tx :: live⟩, ?_, iff_of_false (fun hperm => ?_) fun hboth => hmisses' hboth.1⟩
    · simp only [releasePages, release, hrx, htx, bind, Except.bind, Except.map, if_true,
        List.erase_cons_head]
      rfl
    · have hlength := hperm.length_eq
      simp only [List.length_cons] at hlength
      omega

/-- A release ends the life of one pointer at most. -/
theorem length_le_of_release {ptr : ℕ} {r : Heap.Status × Client} (hrun : release s ptr = .ok r) :
    s.live.length ≤ r.2.live.length + 1 := by
  obtain ⟨q, -, rfl⟩ := exists_ok_of_map hrun
  simp only
  split
  · have hlength := List.le_length_erase (l := s.live) (a := ptr)
    omega
  · omega

/-- At most two pointers are released. -/
theorem length_le_of_releasePages (hrun : releasePages tx rx s = .ok t) :
    s.live.length ≤ t.live.length + 2 := by
  obtain ⟨⟨status, s'⟩, hrx, hrest⟩ := exists_ok_of_bind hrun
  have hfirst := length_le_of_release hrx
  simp only at hfirst hrest
  split at hrest
  case isTrue =>
    obtain ⟨⟨status', t'⟩, htx, hrest⟩ := exists_ok_of_bind hrest
    have hsecond := length_le_of_release htx
    obtain rfl : t' = t := Except.ok.inj hrest
    simp only at hsecond
    omega
  case isFalse =>
    obtain rfl := Except.ok.inj hrest
    omega

/-- The condition under which the call gives back what it takes: there is no page at all, or both
pages are found and placed and no descriptor is parsed. -/
def GivesBack (buf : HeapBuffer) (h : HeapState) (reply : RelayerReply) : Prop :=
  chosenAligned buf h pageSize4k pageSize4k = none ∨
    TakesPage buf h ∧
      (∀ tx h₁, valAlignedAlloc buf h pageSize4k pageSize4k = .ok (tx, h₁) → TakesPage buf h₁) ∧
      (reply.mapFid = ffaError32 ∨ reply.infoFid = ffaError32 ∨ reply.descCount = 0)

/-- An array that is there stays live. -/
theorem liveSync_array_leaks (hpages : allocPages buf s.heap = .ok p) (hanswered : Answered reply p)
    (hcount : reply.descCount ≠ 0) {r : Client × Table} (hrun : liveSync b buf reply s table = .ok r) :
    s.live.length < r.1.live.length := by
  rw [liveSync, hpages] at hrun
  obtain ⟨p', hp', hrest⟩ := exists_ok_of_bind hrun
  obtain rfl := Except.ok.inj hp'
  rw [if_pos hanswered] at hrest
  obtain ⟨parsed, -, hrest⟩ := exists_ok_of_bind hrest
  split at hrest
  case isTrue => exact nomatch hrest
  case isFalse hnull =>
    obtain ⟨t, hrelease, hrest⟩ := exists_ok_of_bind hrest
    obtain rfl := Except.ok.inj hrest
    have hinfo : parsed.retInfo ≠ 0 := fun hzero => hnull ⟨hzero, hcount⟩
    have hlength := length_le_of_releasePages hrelease
    simp only [Client.take, Pages.live, if_neg hinfo, if_neg hanswered.1, if_neg hanswered.2.1,
      List.length_cons] at hlength ⊢
    omega

/-- When nothing is parsed, the call is the two allocations and the two releases. -/
theorem liveSync_of_no_array (b : Build) (table : Table) (hpages : allocPages buf s.heap = .ok p)
    (harray : ¬Answered reply p ∨ reply.descCount = 0) :
    ∃ g table', (g = p.heap ∨ g = p.answered reply) ∧ liveSync b buf reply s table =
      (releasePages p.tx p.rx ⟨g, p.live s.live⟩).map fun t => (t, table') := by
  by_cases hanswered : Answered reply p
  · have hzero := harray.resolve_left (not_not.mpr hanswered)
    have hparse : parsePartitions buf reply p = .ok ⟨0, p.answered reply⟩ := by
      rw [parsePartitions, hzero, Nat.zero_mul]
      rfl
    refine ⟨p.answered reply, syncTable b reply ⟨0, p.answered reply⟩ table, Or.inr rfl, ?_⟩
    simp only [liveSync, hpages, bind, Except.bind, if_pos hanswered, hparse, hzero, ne_eq,
      not_true_eq_false, and_false, if_false, Client.take, if_true]
    cases releasePages p.tx p.rx _ <;> rfl
  · refine ⟨p.heap, table, Or.inl rfl, ?_⟩
    simp only [liveSync, hpages, bind, Except.bind, if_neg hanswered]
    cases releasePages p.tx p.rx _ <;> rfl

/-- The condition when the first page is found. -/
theorem givesBack_iff {h₁ : HeapState} (htx : valAlignedAlloc buf h pageSize4k pageSize4k = .ok (tx, h₁))
    (hfound : chosenAligned buf h pageSize4k pageSize4k ≠ none) :
    GivesBack buf h reply ↔ (TakesPage buf h ∧ TakesPage buf h₁) ∧
      (reply.mapFid = ffaError32 ∨ reply.infoFid = ffaError32 ∨ reply.descCount = 0) := by
  have hsecond : (∀ tx' h', valAlignedAlloc buf h pageSize4k pageSize4k = .ok (tx', h') →
      TakesPage buf h') ↔ TakesPage buf h₁ := by
    constructor
    · exact fun htaken => htaken tx h₁ htx
    · intro htaken tx' h' hrun
      rw [htx] at hrun
      obtain ⟨-, rfl⟩ := Prod.mk.inj (Except.ok.inj hrun)
      exact htaken
  rw [GivesBack, hsecond, or_iff_right hfound, and_assoc]

/-- Without an RX page the TX page stays live: the release of NULL fails. -/
theorem liveSync_one_page (b : Build) (reply : RelayerReply) (table : Table) (htx : tx ≠ 0)
    (hpages : allocPages buf s.heap = .ok ⟨tx, 0, h⟩) :
    ∃ g table', liveSync b buf reply s table = .ok (⟨g, tx :: s.live⟩, table') := by
  obtain ⟨g, table', -, hrun⟩ := liveSync_of_no_array b table hpages
    (Or.inl fun hanswered : Answered reply _ => hanswered.1 rfl)
  refine ⟨g, table', ?_⟩
  rw [hrun, Pages.live, Client.take, Client.take, if_neg htx]
  rfl

/-- With both pages and nothing to parse, the live pointers are the old ones exactly when both pages
are placed. -/
theorem liveSync_two_pages {placedTx placedRx : Prop} {u v : Node} (b : Build) (table : Table)
    (htx : tx ≠ 0) (hrx : rx ≠ 0) (hpages : allocPages buf s.heap = .ok ⟨tx, rx, h⟩)
    (harray : ¬Answered reply ⟨tx, rx, h⟩ ∨ reply.descCount = 0) (hnodes : PageNodes buf h u v)
    (hu : u.Carries placedRx rx) (hv : v.Carries placedTx tx) :
    ∃ t table', liveSync b buf reply s table = .ok (t, table') ∧
      (t.live.Perm s.live ↔ placedTx ∧ placedRx) := by
  obtain ⟨g, table', hg, hrun⟩ := liveSync_of_no_array b table hpages harray
  have hreleases : ReleasesPages g tx rx placedTx placedRx := by
    rcases hg with rfl | rfl
    exacts [hnodes.release hu hv, hnodes.release_answered hu hv]
  obtain ⟨t, hrelease, hperm⟩ := hreleases.live_iff s.live
  have hlive : Pages.live ⟨tx, rx, h⟩ s.live = rx :: tx :: s.live := by
    simp only [Pages.live, Client.take, if_neg htx, if_neg hrx]
  rw [hlive, hrelease] at hrun
  exact ⟨t, table', hrun, hperm⟩

/-- The call returns with the live pointers it was called with exactly when there is no page to be
had, or both pages are found and placed and no descriptor is parsed. -/
theorem relayer_sync_gives_back_iff (b : Build) (buf : HeapBuffer) (reply : RelayerReply) (s : Client)
    (table : Table) (hready : HeapReady buf s.heap) :
    (∃ t table', liveSync b buf reply s table = .ok (t, table') ∧ t.live.Perm s.live) ↔
      GivesBack buf s.heap reply := by
  rcases allocPages_cases hready with ⟨hnone, hpages⟩ |
    ⟨tx, h₁, htx, htxPos, hfound, ⟨hnone, hpages⟩ | ⟨rx, h₂, u, v, -, hrxPos, hpages, hnodes, hu, hv⟩⟩
  · -- the release of NULL fails, and nothing is live that was not before
    obtain ⟨g, table', -, hrun⟩ := liveSync_of_no_array b table hpages
      (Or.inl fun hanswered : Answered reply _ => hanswered.1 rfl)
    exact iff_of_true ⟨⟨g, s.live⟩, table', hrun, List.Perm.refl _⟩ (Or.inl hnone)
  · obtain ⟨g, table', hleft⟩ := liveSync_one_page b reply table htxPos hpages
    refine iff_of_false ?_ ?_
    · rintro ⟨t, table'', hrun, hperm⟩
      rw [hleft] at hrun
      obtain ⟨rfl, -⟩ := Prod.mk.inj (Except.ok.inj hrun)
      have hlength := hperm.length_eq
      simp only [List.length_cons] at hlength
      omega
    · rw [givesBack_iff htx hfound]
      exact fun hback => not_takesPage hnone hback.1.2
  · rw [givesBack_iff htx hfound]
    by_cases harray : ¬Answered reply ⟨tx, rx, h₂⟩ ∨ reply.descCount = 0
    · obtain ⟨t, table', hrun, hperm⟩ :=
        liveSync_two_pages b table htxPos hrxPos hpages harray hnodes hu hv
      have hreply : reply.mapFid = ffaError32 ∨ reply.infoFid = ffaError32 ∨ reply.descCount = 0 := by
        by_contra hnone
        simp only [not_or] at hnone
        exact harray.elim (fun h => h ⟨hrxPos, htxPos, hnone.1, hnone.2.1⟩) hnone.2.2
      rw [and_iff_left hreply, ← hperm]
      constructor
      · rintro ⟨t', table'', hrun', hsame⟩
        rw [hrun] at hrun'
        obtain ⟨rfl, -⟩ := Prod.mk.inj (Except.ok.inj hrun')
        exact hsame
      · exact fun hsame => ⟨t, table', hrun, hsame⟩
    · -- an array was parsed into, and no release can make up for it
      simp only [not_or, not_not] at harray
      refine iff_of_false ?_ ?_
      · rintro ⟨t, table', hrun, hsame⟩
        have hlength := liveSync_array_leaks hpages harray.1 harray.2 hrun
        rw [hsame.length_eq] at hlength
        exact lt_irrefl _ hlength
      · rintro ⟨-, hmap | hinfo | hzero⟩
        exacts [harray.1.2.2.1 hmap, harray.1.2.2.2 hinfo, harray.2 hzero]

end

/-- An answer in which FFA_PARTITION_INFO_GET fails. -/
def infoFails : RelayerReply := { oneDescriptor 24 with infoFid := ffaError32 }

/-- On a fresh heap a failed FFA_PARTITION_INFO_GET leaves nothing allocated. -/
theorem relayer_sync_gives_back_of_error :
    ∃ t table', liveSync .partitions firstPage infoFails (Client.start fun _ => 0) twoEndpoints =
      .ok (t, table') ∧ t.live.Perm (Client.start fun _ => 0).live := by
  exact (relayer_sync_gives_back_iff .partitions firstPage infoFails (Client.start fun _ => 0)
    twoEndpoints (heapReady_of_run .nil)).mpr
    (Or.inr ⟨by decide +kernel, takesPage_second, Or.inr (Or.inl rfl)⟩)

/-- On a fresh heap an answer of one descriptor of 24 bytes leaves the array at 4128 allocated. -/
theorem relayer_sync_leaks_array :
    (∃ t table', liveSync .partitions firstPage (oneDescriptor 24) (Client.start fun _ => 0)
        twoEndpoints = .ok (t, table') ∧ t.live = [4128]) ∧
      ¬∃ t table', liveSync .partitions firstPage (oneDescriptor 24) (Client.start fun _ => 0)
        twoEndpoints = .ok (t, table') ∧ t.live.Perm (Client.start fun _ => 0).live := by
  have heval : ((liveSync .partitions firstPage (oneDescriptor 24) (Client.start fun _ => 0)
      twoEndpoints).map fun r => r.1.live) = .ok [4128] := by
    decide +kernel
  obtain ⟨⟨t, table'⟩, hrun, hlive⟩ := exists_ok_of_map heval
  refine ⟨⟨t, table', hrun, hlive⟩, ?_⟩
  rintro ⟨t', table'', hrun', hperm⟩
  rw [hrun] at hrun'
  obtain ⟨rfl, -⟩ := Prod.mk.inj (Except.ok.inj hrun')
  simp only at hlive
  rw [hlive] at hperm
  exact absurd hperm.length_eq (by decide)

end FfaAcs.Sync
