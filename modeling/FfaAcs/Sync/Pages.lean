import FfaAcs.Heap.Chained
import FfaAcs.Sync.Relayer

/-!
# The two pages of the exchange

`val_ep_info_relayer_sync` takes two pages from the heap and gives them back at the end. What can
happen to them is said once here, for every heap that holds a list of nodes: how the two allocations
end, and which of the two releases succeed.
-/

namespace FfaAcs.Sync

open Machine Heap

/-- The nodes of the RX page and of the TX page, both in use. -/
structure PageNodes (buf : HeapBuffer) (h : HeapState) (u v : Node) : Prop where
  chained : ∃ ns, Chained buf h ns ∧ u ∈ inUse ns ∧ v ∈ inUse ns
  ne : v ≠ u
  rxSize : u.size = pageSize4k
  txSize : v.size = pageSize4k

/-- How the two releases end: each one succeeds exactly when its page is placed, and the second one
is only tried when the first one succeeds. -/
def ReleasesPages (h : HeapState) (tx rx : ℕ) (placedTx placedRx : Prop) : Prop :=
  (¬placedRx ∧ valFree h rx = .ok (.error, h)) ∨
    (placedRx ∧ ∃ h', valFree h rx = .ok (.success, h') ∧
      ((placedTx ∧ ∃ h'', valFree h' tx = .ok (.success, h'')) ∨
        (¬placedTx ∧ valFree h' tx = .ok (.error, h'))))

section

variable {buf : HeapBuffer} {h : HeapState} {u v : Node} {rx tx : ℕ} {placedRx placedTx : Prop}

/-- The payload of a page is not NULL. -/
theorem carries_ne_zero {placed : Prop} {q : ℕ} (hq : u.Carries placed q) : q ≠ 0 := by
  have hheader : blockSize = 32 := rfl
  rcases hq with ⟨-, rfl⟩ | ⟨-, g, -, rfl⟩ <;> omega

/-- The two allocations: no page, one page, or two pages. -/
theorem allocPages_cases (hready : HeapReady buf h) :
    (chosenAligned buf h pageSize4k pageSize4k = none ∧
        allocPages buf h = .ok ⟨0, 0, ensureInit buf h⟩) ∨
      ∃ tx h₁, valAlignedAlloc buf h pageSize4k pageSize4k = .ok (tx, h₁) ∧ tx ≠ 0 ∧
        chosenAligned buf h pageSize4k pageSize4k ≠ none ∧
        ((chosenAligned buf h₁ pageSize4k pageSize4k = none ∧ allocPages buf h = .ok ⟨tx, 0, h₁⟩) ∨
          ∃ rx h₂ u v, chosenAligned buf h₁ pageSize4k pageSize4k ≠ none ∧ rx ≠ 0 ∧
            allocPages buf h = .ok ⟨tx, rx, h₂⟩ ∧ PageNodes buf h₂ u v ∧
            u.Carries (TakesPage buf h₁) rx ∧ v.Carries (TakesPage buf h) tx) := by
  unfold pageSize4k
  have hpages : allocPages buf h = (valAlignedAlloc buf h 4096 4096).bind fun r =>
      (valAlignedAlloc buf r.2 4096 4096).bind fun r' => .ok ⟨r.1, r'.1, r'.2⟩ := rfl
  obtain ⟨ns, hc⟩ := hready
  rcases hc.allocPage with ⟨hnone, htx⟩ | ⟨tx, h₁, pre, v, post, hsome, htx, hc₁, hused, hv, -, hcarries⟩
  · left
    -- the second search starts from the same list
    have hc' : Chained buf (ensureInit buf (ensureInit buf h)) ns := by rwa [hc.ensureInit_eq]
    have hsame : chosenAligned buf (ensureInit buf h) 4096 4096 = none := by
      rw [chosenAligned, hc.ensureInit_eq]
      exact hnone
    refine ⟨hnone, ?_⟩
    rcases hc'.allocPage with ⟨-, hrx⟩ | ⟨rx, h₂, pre, u, post, hsome, -⟩
    · rw [hpages, htx, Except.bind, hrx, Except.bind, hc.ensureInit_eq]
    · exact absurd hsame hsome
  · right
    refine ⟨tx, h₁, htx, carries_ne_zero hcarries, hsome, ?_⟩
    have hc₁' : Chained buf (ensureInit buf h₁) (pre ++ v :: post) := by rwa [hc₁.ensureInit_eq]
    rcases hc₁'.allocPage with
      ⟨hnone, hrx⟩ | ⟨rx, h₂, front, u, rest, hsome', hrx, hc₂, hused', hu, huse, hcarries'⟩
    · refine Or.inl ⟨hnone, ?_⟩
      rw [hpages, htx, Except.bind, hrx, Except.bind, hc₁.ensureInit_eq]
    · have hother : v ∈ inUse (front ++ u :: rest) ∧ v ≠ u := by
        rw [← hc₂.mem_others, ← huse, mem_inUse]
        exact ⟨by simp, hused⟩
      refine Or.inr ⟨rx, h₂, u, v, hsome', carries_ne_zero hcarries', ?_,
        ⟨⟨_, hc₂, mem_inUse.mpr ⟨by simp, hused'⟩, hother.1⟩, hother.2, hu, hv⟩, hcarries', hcarries⟩
      rw [hpages, htx, Except.bind, hrx, Except.bind]

/-- Pages that are nodes in use are released when they follow their headers. -/
theorem PageNodes.release (hp : PageNodes buf h u v) (hu : u.Carries placedRx rx)
    (hv : v.Carries placedTx tx) : ReleasesPages h tx rx placedTx placedRx := by
  obtain ⟨ns, hc, huse, hvse⟩ := hp.chained
  obtain ⟨pre, post, rfl⟩ := List.append_of_mem (mem_inUse.mp huse).1
  rcases hc.freePage (mem_inUse.mp huse).2 hp.rxSize hu with
    ⟨hplaced, h', ns', hfree, hc', hrest⟩ | ⟨hplaced, hfree⟩
  · refine Or.inr ⟨hplaced, h', hfree, ?_⟩
    have hv' : v ∈ inUse ns' := by
      rw [hrest, hc.mem_others]
      exact ⟨hvse, hp.ne⟩
    obtain ⟨pre', post', rfl⟩ := List.append_of_mem (mem_inUse.mp hv').1
    rcases hc'.freePage (mem_inUse.mp hv').2 hp.txSize hv with
      ⟨hplaced', h'', -, hfree', -⟩ | ⟨hplaced', hfree'⟩
    · exact Or.inl ⟨hplaced', h'', hfree'⟩
    · exact Or.inr ⟨hplaced', hfree'⟩
  · exact Or.inl ⟨hplaced, hfree⟩

/-- The label `free_memory` is left behind in any case. -/
theorem ReleasesPages.freeMemory_ok (hr : ReleasesPages h tx rx placedTx placedRx) :
    ∃ h', freeMemory tx rx h = .ok h' := by
  have hfree : freeMemory tx rx h = (valFree h rx).bind fun r =>
      if r.1 = .success then (valFree r.2 tx).bind fun r' => .ok r'.2 else .ok r.2 := rfl
  rw [hfree]
  rcases hr with ⟨-, hrx⟩ | ⟨-, h', hrx, ⟨-, h'', htx⟩ | ⟨-, htx⟩⟩
  · exact ⟨h, by rw [hrx, Except.bind]; rfl⟩
  · exact ⟨h'', by simp only [hrx, Except.bind, if_true, htx]⟩
  · exact ⟨h', by simp only [hrx, Except.bind, if_true, htx]⟩

/-- NULL is refused. -/
theorem freeMemory_null (tx : ℕ) (h : HeapState) : freeMemory tx 0 h = .ok h := rfl

/-- An answer in an RX page that follows its header leaves the list alone. -/
theorem PageNodes.answered {p : Pages} {reply : RelayerReply} (hp : PageNodes buf p.heap u v)
    (hrx : p.rx = u.addr + blockSize) : PageNodes buf (p.answered reply) u v := by
  obtain ⟨ns, hc, hu, hv⟩ := hp.chained
  refine ⟨⟨ns, hc.write (mem_inUse.mp hu).1 fun y hy => ?_, hu, hv⟩, hp.ne, hp.rxSize, hp.txSize⟩
  have hsize := hp.rxSize
  exact ByteMemory.blit_outside _ (by omega)

/-- An answer does not change how the releases end. In a misplaced RX page it may run over the next
header, but the header that the page was taken from stays as it is. -/
theorem PageNodes.release_answered {p : Pages} {reply : RelayerReply} (hp : PageNodes buf p.heap u v)
    (hu : u.Carries placedRx p.rx) (hv : v.Carries placedTx p.tx) :
    ReleasesPages (p.answered reply) p.tx p.rx placedTx placedRx := by
  by_cases hplaced : placedRx
  · exact (hp.answered (hu.eq hplaced)).release hu hv
  · obtain ⟨-, g, hg, hrx⟩ := hu.resolve_left fun hcarries => hplaced hcarries.1
    obtain ⟨ns, hc, huse, -⟩ := hp.chained
    obtain ⟨pre, post, rfl⟩ := List.append_of_mem (mem_inUse.mp huse).1
    have hsize := hp.rxSize
    have hpage : pageSize4k = 4096 := rfl
    have hkept : loadBlock (p.heap.mem.blit p.rx pageSize4k reply.rx) u.addr =
        loadBlock p.heap.mem u.addr :=
      loadBlock_congr fun x hlow hhigh => ByteMemory.blit_outside _ (by omega)
    refine Or.inl ⟨hplaced, ?_⟩
    rw [hrx]
    rw [hrx] at hkept
    have hfree := hc.free_misplaced hg hkept (by omega)
    rw [Pages.answered, hrx]
    exact hfree

end

end FfaAcs.Sync
