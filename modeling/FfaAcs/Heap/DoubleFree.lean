import FfaAcs.Heap.Layout

/-!
# Releasing a pointer twice

After a pointer has been released its header is either that of a free block of the list, or it was
merged into a neighbour and marked invalid. Later releases merge more blocks: they may turn the
first case into the second, and they never write to a header that lies inside a block. In both
cases `val_free` rejects the pointer.
-/

namespace FfaAcs.Heap

open Machine Tiling

/-- The calls of clients that only release what they still own. -/
def Releases (s : Client) : HeapOp → Prop
  | .free ptr => ptr ∈ s.live
  | _ => False

section

variable {buf : HeapBuffer} {h : HeapState} {s t : Client} {cs : List Cell} {x : ℕ}

/-- `val_free` rejects a released header and leaves the heap as it is. -/
theorem Released.valFree_eq (hx : Released h.mem buf.base cs x) (hw : WellFormed buf h cs)
    (hlt : x + blockSize < 2 ^ 64) : valFree h (x + blockSize) = .ok (.error, h) := by
  have hheader : blockSize = 32 := rfl
  have hblock : sub64 (x + blockSize) blockSize = x := by
    rw [sub64_of_le (by omega) hlt, Nat.add_sub_cancel]
  rw [valFree, if_neg (by omega)]
  simp only [hblock]
  rcases hx with ⟨d, hd, hfree⟩ | ⟨hmagic, -⟩
  · obtain ⟨q, hlist⟩ := hw.linked.exists_header hd
    rw [hlist, headerOf, hfree, if_neg (not_not.mpr rfl), if_pos (by simp)]
  · rw [hmagic, if_pos (by decide)]

/-- Releasing live pointers keeps a released header released. -/
theorem released_of_releases {frees : List HeapOp} (hs : Tracked buf s cs)
    (hx : Released s.heap.mem buf.base cs x) (hrun : Run (Step Releases buf) s frees t) :
    ∃ ds, Tracked buf t ds ∧ Released t.heap.mem buf.base ds x := by
  refine hrun.invariant (P := fun t => ∃ ds, Tracked buf t ds ∧ Released t.heap.mem buf.base ds x)
    ⟨cs, hs, hx⟩ ?_
  rintro s op t ⟨cs, hs, hx⟩ ⟨hop, hexec⟩
  cases op with
  | free q =>
    obtain ⟨h', ds, hfree, ht, hkeeps⟩ := hs.free hop
    rw [exec, hfree] at hexec
    obtain rfl := Except.ok.inj hexec
    exact ⟨ds, ht, hkeeps x (Or.inr hx)⟩
  | malloc | calloc | realloc | alignedAlloc | write => exact absurd hop id

end

/-- After every run, releasing a live pointer succeeds, and after any further releases of other live
pointers a second release of it returns `VAL_ERROR` and leaves the heap as it is. -/
theorem second_free_rejected (buf : HeapBuffer) (m : ByteMemory) (ops : List HeapOp) (s : Client)
    (hrun : Run (Step (Callable buf) buf) (Client.start m) ops s) (p : ℕ) (hp : p ∈ s.live) :
    ∃ h, valFree s.heap p = .ok (.success, h) ∧
      ∀ frees t, Run (Step Releases buf) ⟨h, s.live.erase p⟩ frees t →
        valFree t.heap p = .ok (.error, t.heap) := by
  obtain ⟨cs, hs⟩ := (run_sound hrun).tracked_of_mem hp
  obtain ⟨pre, c, post, rfl, -, rfl⟩ := hs.exists_split hp
  have haddr := hs.1.addr_lt
  obtain ⟨h, ds, hfree, htracked, hreleased⟩ := hs.free hp
  refine ⟨h, hfree, fun frees t hfrees => ?_⟩
  obtain ⟨es, ht, hx⟩ := released_of_releases htracked (hreleased _ (Or.inl rfl)) hfrees
  exact hx.valFree_eq ht.1 (by omega)

/-- The first of two blocks is released, then the second, which merges both with the rest of the
heap. A second release of the first one is rejected. -/
theorem second_free_rejected_merged :
    ∃ s h t, Run (Step (Callable firstPage) firstPage) (Client.start fun _ => 0)
        [.malloc 8, .malloc 8] s ∧
      valFree s.heap 4128 = .ok (.success, h) ∧
      exec firstPage ⟨h, s.live.erase 4128⟩ (.free 4168) = .ok t ∧
      valFree t.heap 4128 = .ok (.error, t.heap) := by
  have heval : ((exec firstPage (Client.start fun _ => 0) (.malloc 8)).bind fun s₁ =>
      (exec firstPage s₁ (.malloc 8)).bind fun s => (valFree s.heap 4128).bind fun r =>
        (exec firstPage ⟨r.2, s.live.erase 4128⟩ (.free 4168)).map fun _ =>
          (s.live, r.1)) = .ok ([4168, 4128], .success) := by
    decide +kernel
  obtain ⟨s₁, hfirst, hrest⟩ := exists_ok_of_bind heval
  obtain ⟨s, hsecond, hrest⟩ := exists_ok_of_bind hrest
  obtain ⟨⟨st, h⟩, hfree, hrest⟩ := exists_ok_of_bind hrest
  obtain ⟨t, hother, hresult⟩ := exists_ok_of_map hrest
  obtain ⟨hlive, rfl⟩ := Prod.mk.inj hresult
  have hrun : Run (Step (Callable firstPage) firstPage) (Client.start fun _ => 0)
      ([] ++ [.malloc 8] ++ [.malloc 8]) s :=
    .snoc (.snoc .nil ⟨by simp [Callable], hfirst⟩) ⟨by simp [Callable], hsecond⟩
  obtain ⟨h', hfree', hrejected⟩ := second_free_rejected firstPage _ _ s hrun 4128 (by simp [hlive])
  obtain rfl : h' = h := congrArg Prod.snd (Except.ok.inj (hfree'.symm.trans hfree))
  have hreleases : Run (Step Releases firstPage) ⟨h', s.live.erase 4128⟩ ([] ++ [.free 4168]) t :=
    .snoc .nil ⟨by simp [Releases, hlive], hother⟩
  exact ⟨s, h', t, hrun, hfree, hother, hrejected _ t hreleases⟩

end FfaAcs.Heap
