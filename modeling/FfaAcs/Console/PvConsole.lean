import Mathlib.Data.List.GetD
import FfaAcs.Machine.Ring
import FfaAcs.Machine.Runs
import FfaAcs.Machine.WordArithmetic

/-!
# The paravirtual console

VM1 under Xen prints through a ring it shares with a backend. `driver_xen_pvconsole_putc` writes the
character into the slot of `out_prod`, advances `out_prod`, and after a newline waits until the
backend has caught up. It never looks for a free slot: the only thing that holds the writer back is
a newline. Until the hypervisor has named a ring, every character goes out by a hypercall of its own,
with a NUL behind it.

The guest is one CPU that prints a text, and its steps are the accesses of the driver to the ring.
The backend follows the interface of the ring. It copies `out_prod`, takes characters up to that
copy, and stores `out_cons`, in any order and at any time.
-/

namespace FfaAcs.Console

open Machine

/-- `sizeof(cons_ring->out)`. -/
def outSize : ℕ := 2048

/-- `MASK_XENCONS_IDX(idx, cons_ring->out)`. -/
def maskXenconsIdx (idx : ℕ) : ℕ := idx &&& (outSize - 1)

/-- The character after which the driver waits. -/
def newline : UInt8 := 10

/-- What the hypervisor answers to the two calls of `hvm_get_parameter`. -/
structure Parameters where
  portRet : ℤ
  port : ℕ
  pfnRet : ℤ
  pfn : ℕ
deriving DecidableEq, Repr

/-- Where the guest stands: between two characters, or at an access of `driver_xen_pvconsole_putc`. -/
inductive Pc
  | call
  | loadProd (c : UInt8)
  | storeChar (c : UInt8) (prod : ℕ)
  | storeProd (c : UInt8) (prod : ℕ)
  | wait
deriving DecidableEq, Repr

/-- The driver's globals, the ring, what is left to print, what the hypercalls wrote, the events sent,
and the backend with what it has taken. -/
structure State where
  consRing : ℕ
  consEvtchn : ℕ
  out : ℕ → UInt8
  outCons : ℕ
  outProd : ℕ
  pc : Pc
  todo : List UInt8
  direct : List UInt8
  events : List ℕ
  seen : ℕ
  next : ℕ
  received : List UInt8

/-- The driver has not been called, and the counters of the ring agree. -/
def State.start (text : List UInt8) (out : ℕ → UInt8) (counter : ℕ) : State where
  consRing := 0
  consEvtchn := 0
  out := out
  outCons := counter
  outProd := counter
  pc := .call
  todo := text
  direct := []
  events := []
  seen := counter
  next := counter
  received := []

/-- `driver_xen_pvconsole_init`. -/
def driverXenPvconsoleInit (p : Parameters) (s : State) : State :=
  if p.portRet ≠ 0 then s
  else if p.pfnRet ≠ 0 then s
  else { s with consEvtchn := wrap32 p.port, consRing := wrap64 (p.pfn <<< 12) }

/-- `driver_xen_console_putc`: two bytes are written, the character and a NUL. -/
def driverXenConsolePutc (c : UInt8) (s : State) : State := { s with direct := s.direct ++ [c, 0] }

/-- The entry of `driver_xen_pvconsole_putc`, up to the first access to the ring. -/
def enter (p : Parameters) (c : UInt8) (s : State) : State :=
  let t := if s.consRing = 0 then driverXenPvconsoleInit p s else s
  if t.consRing = 0 then driverXenConsolePutc c t else { t with pc := .loadProd c }

/-- One step of the guest. -/
def guest (p : Parameters) (s : State) : Option State :=
  match s.pc with
  | .call =>
    match s.todo with
    | [] => none
    | c :: rest => some (enter p c { s with todo := rest })
  | .loadProd c => some { s with pc := .storeChar c s.outProd }
  | .storeChar c prod =>
    some { s with
      out := Function.update s.out (maskXenconsIdx prod) c
      pc := .storeProd c (wrap32 (prod + 1)) }
  | .storeProd c prod =>
    -- the event is sent before the first look at `out_cons`
    if c = newline then
      some { s with outProd := prod, events := s.events ++ [s.consEvtchn], pc := .wait }
    else some { s with outProd := prod, pc := .call }
  | .wait => if s.outCons ≠ s.outProd then some s else some { s with pc := .call }

/-- The steps of the two parties. -/
inductive Label
  | guest (p : Parameters)
  | copyProd
  | take
  | storeCons
deriving DecidableEq, Repr

/-- One step. -/
def step (s : State) : Label → Option State
  | .guest p => guest p s
  | .copyProd => some { s with seen := s.outProd }
  | .take =>
    if s.next = s.seen then none
    else some { s with
      received := s.received ++ [s.out (maskXenconsIdx s.next)], next := wrap32 (s.next + 1) }
  | .storeCons => some { s with outCons := s.next }

/-- The steps as a relation. -/
def Step (s : State) (l : Label) (t : State) : Prop := step s l = some t

/-- What has been printed comes out once and in order: some first characters by hypercalls, and what
the backend has taken continues them. When the driver has returned from a newline, nothing is left in
the ring. -/
def Delivered (text : List UInt8) (s : State) : Prop :=
  ∃ k, s.direct = (text.take k).flatMap (fun c => [c, 0]) ∧ s.received <+: text.drop k ∧
    (s.pc = .call → (text.take (text.length - s.todo.length)).getLast? = some newline →
      s.received = (text.take (text.length - s.todo.length)).drop k)

/-- A line of the text goes once around the ring and puts another character in place of the one it
began with. -/
def Overruns (text : List UInt8) : Prop :=
  ∃ i, i + outSize < text.length ∧
    (∀ j, i ≤ j → j < i + outSize → text.getD j 0 ≠ newline) ∧
    text.getD i 0 ≠ text.getD (i + outSize) 0

/-! ## Counters and slots -/

/-- The mask takes an index modulo the size of the ring. -/
theorem maskXenconsIdx_eq (idx : ℕ) : maskXenconsIdx idx = idx % outSize :=
  Nat.and_two_pow_sub_one_eq_mod idx 11

/-- The slot of a counter. -/
theorem maskXenconsIdx_counter (start n : ℕ) :
    maskXenconsIdx ((start + n) % 2 ^ 32) = (start + n) % outSize := by
  rw [maskXenconsIdx_eq]
  exact Nat.mod_mod_of_dvd _ (by decide)

/-- The counter of 32 bits after one more byte. -/
theorem wrap32_counter (start n : ℕ) : wrap32 ((start + n) % 2 ^ 32 + 1) = (start + (n + 1)) % 2 ^ 32 :=
  Ring.counter_succ _ _

/-! ## The invariant -/

/-- How far the parties are in the part of the text that goes through the ring: the first `k`
characters went out by hypercalls, and then `cons ≤ next ≤ seen ≤ prod` count characters. -/
structure Marks where
  k : ℕ
  cons : ℕ
  next : ℕ
  seen : ℕ
  prod : ℕ

/-- How many characters have a slot, and that what follows them in the text is still to come. -/
def Pc.Follows (todo rest : List UInt8) (counter : ℕ) : Pc → Prop
  | .call => rest = todo
  | .loadProd c => rest = c :: todo
  | .storeChar c prod => rest = c :: todo ∧ prod = counter
  | .storeProd c prod => rest = c :: todo ∧ prod = wrap32 (counter + 1)
  | .wait => rest = todo

/-- The number of characters that have a slot: one that is not yet published may have one. -/
def Pc.written (prod : ℕ) : Pc → ℕ
  | .storeProd _ _ => prod + 1
  | _ => prod

/-- The characters that stand between `out_cons` and the newline, if the driver waits for one. -/
def Pc.open (prod : ℕ) : Pc → ℕ
  | .wait => prod - 1
  | _ => prod

/-- What every run keeps. -/
structure Inv (text : List UInt8) (start : ℕ) (s : State) (a : Marks) : Prop where
  direct : s.direct = (text.take a.k).flatMap fun c => [c, 0]
  cons_le : a.cons ≤ a.next
  next_le : a.next ≤ a.seen
  seen_le : a.seen ≤ a.prod
  prod_le : a.k + a.prod ≤ text.length
  outCons : s.outCons = (start + a.cons) % 2 ^ 32
  next : s.next = (start + a.next) % 2 ^ 32
  seen : s.seen = (start + a.seen) % 2 ^ 32
  outProd : s.outProd = (start + a.prod) % 2 ^ 32
  received : s.received = (text.drop a.k).take a.next
  follows : s.pc.Follows s.todo (text.drop (a.k + a.prod)) s.outProd
  window : Ring.Window outSize start s.out (fun i => text.getD (a.k + i) 0) a.next (s.pc.written a.prod)
  lines : ∀ i, a.cons ≤ i → i < s.pc.open a.prod → text.getD (a.k + i) 0 ≠ newline
  waits : s.pc = .wait → 0 < a.prod ∧ text.getD (a.k + (a.prod - 1)) 0 = newline
  noRing : s.consRing = 0 → s.pc = .call ∧ a.prod = 0

variable {text : List UInt8} {start : ℕ} {s t : State} {a : Marks}

/-- Nothing has been written at the start. -/
theorem inv_start (text : List UInt8) (out : ℕ → UInt8) {start : ℕ} (hstart : start < 2 ^ 32) :
    Inv text start (.start text out start) ⟨0, 0, 0, 0, 0⟩ where
  direct := by rw [List.take_zero]; rfl
  cons_le := le_rfl
  next_le := le_rfl
  seen_le := le_rfl
  prod_le := Nat.zero_le _
  outCons := (Nat.mod_eq_of_lt hstart).symm
  next := (Nat.mod_eq_of_lt hstart).symm
  seen := (Nat.mod_eq_of_lt hstart).symm
  outProd := (Nat.mod_eq_of_lt hstart).symm
  received := by rw [List.take_zero]; rfl
  follows := by rw [Nat.add_zero, List.drop_zero]; rfl
  window := Ring.Window.empty _ _ _ _ _
  lines := fun i _ hi => absurd hi (Nat.not_lt_zero i)
  waits := fun h => Pc.noConfusion h
  noRing := fun _ => ⟨rfl, rfl⟩

/-- The first character of what is left has the position behind the last one printed. -/
theorem getD_of_drop_eq_cons {n : ℕ} {c : UInt8} {rest : List UInt8} (h : text.drop n = c :: rest) :
    text.getD n 0 = c ∧ n < text.length ∧ text.drop (n + 1) = rest := by
  have hlt : n < text.length := by
    by_contra hge
    rw [List.drop_eq_nil_of_le (Nat.not_lt.mp hge)] at h
    exact absurd h (by simp)
  rw [List.drop_eq_getElem_cons hlt, List.cons.injEq] at h
  exact ⟨by rw [List.getD_eq_getElem _ _ hlt, h.1], hlt, h.2⟩

/-- Where a line has no newline, characters of one slot are equal. -/
theorem eq_of_slot (hover : ¬Overruns text) {k r n : ℕ} (hlt : k + n < text.length)
    (hline : ∀ i, r ≤ i → i < n → text.getD (k + i) 0 ≠ newline) {i : ℕ} (hi : r ≤ i) (hin : i < n)
    (hslot : (start + i) % outSize = (start + n) % outSize) :
    text.getD (k + i) 0 = text.getD (k + n) 0 := by
  refine Ring.eq_of_repeats (f := fun i => text.getD (k + i) 0) (fun j hj hjn => ?_) hi hin.le hslot
  by_contra hne
  refine hover ⟨k + j, by omega, fun m hm hmj => ?_, by rw [Nat.add_assoc]; exact hne⟩
  obtain ⟨d, rfl⟩ := Nat.exists_eq_add_of_le hm
  rw [Nat.add_assoc]
  exact hline _ (by omega) (by omega)

/-- The line that the driver waits for fits into the ring. -/
theorem Inv.waiting_le (h : Inv text start s a) (hover : ¬Overruns text) (hwait : s.pc = .wait) :
    a.prod ≤ a.cons + outSize := by
  obtain ⟨hpos, hlast⟩ := h.waits hwait
  have hlines := h.lines
  simp only [hwait, Pc.open] at hlines
  have hsize : outSize = 2048 := rfl
  have hprod := h.prod_le
  by_contra hlong
  refine hover ⟨a.k + (a.prod - 1 - outSize), by omega, fun j hj hjn => ?_, ?_⟩
  · obtain ⟨d, rfl⟩ := Nat.exists_eq_add_of_le hj
    rw [Nat.add_assoc]
    exact hlines _ (by omega) (by omega)
  · rw [show a.k + (a.prod - 1 - outSize) + outSize = a.k + (a.prod - 1) by omega, hlast]
    exact hlines _ (by omega) (by omega)

/-- A driver at work has a ring. -/
theorem Inv.ring (h : Inv text start s a) (hpc : s.pc ≠ .call) : s.consRing ≠ 0 :=
  fun hzero => hpc (h.noRing hzero).1

/-! ## The steps -/

/-- The backend copies `out_prod`. -/
theorem Inv.copyProd (h : Inv text start s a) :
    Inv text start { s with seen := s.outProd } { a with seen := a.prod } :=
  { h with next_le := h.next_le.trans h.seen_le, seen_le := le_rfl, seen := h.outProd }

/-- The backend stores `out_cons`. -/
theorem Inv.storeCons (h : Inv text start s a) :
    Inv text start { s with outCons := s.next } { a with cons := a.next } :=
  { h with
    cons_le := le_rfl
    outCons := h.next
    lines := fun i hi => h.lines i (h.cons_le.trans hi) }

/-- The backend takes a character. -/
theorem Inv.take (h : Inv text start s a) (hne : s.next ≠ s.seen) :
    Inv text start { s with
      received := s.received ++ [s.out (maskXenconsIdx s.next)], next := wrap32 (s.next + 1) }
      { a with next := a.next + 1 } := by
  have hlt : a.next < a.seen := by
    refine lt_of_le_of_ne h.next_le fun heq => hne ?_
    rw [h.next, h.seen, heq]
  have hprod : a.next < s.pc.written a.prod := by
    have := h.seen_le
    cases s.pc <;> simp only [Pc.written] <;> omega
  have hlen : a.next < (text.drop a.k).length := by
    have := h.seen_le
    have := h.prod_le
    rw [List.length_drop]
    omega
  have htaken : s.out (maskXenconsIdx s.next) = (text.drop a.k)[a.next] := by
    rw [h.next, maskXenconsIdx_counter, h.window.front hprod, List.getElem_drop,
      List.getD_eq_getElem _ _ (by rw [List.length_drop] at hlen; omega)]
  exact { h with
    cons_le := h.cons_le.trans (Nat.le_succ _)
    next_le := hlt
    next := by rw [h.next]; exact wrap32_counter start a.next
    received := by rw [h.received, htaken, List.take_concat_get']
    window := h.window.narrow (Nat.le_succ _) le_rfl }

/-- A call either finds a ring or writes the character by a hypercall. -/
theorem enter_cases (p : Parameters) (c : UInt8) (s : State) :
    (∃ ring evtchn, ring ≠ 0 ∧
      enter p c s = { s with consRing := ring, consEvtchn := evtchn, pc := .loadProd c }) ∨
    s.consRing = 0 ∧
      ∃ evtchn, enter p c s = { s with consEvtchn := evtchn, direct := s.direct ++ [c, 0] } := by
  by_cases hring : s.consRing = 0
  · simp only [enter, if_pos hring]
    by_cases hinit : (driverXenPvconsoleInit p s).consRing = 0
    · refine Or.inr ⟨hring, (driverXenPvconsoleInit p s).consEvtchn, ?_⟩
      rw [if_pos hinit]
      unfold driverXenPvconsoleInit driverXenConsolePutc at *
      split_ifs at * <;> simp_all
    · refine Or.inl ⟨_, (driverXenPvconsoleInit p s).consEvtchn, hinit, ?_⟩
      rw [if_neg hinit]
      unfold driverXenPvconsoleInit
      split_ifs <;> rfl
  · refine Or.inl ⟨s.consRing, s.consEvtchn, hring, ?_⟩
    simp only [enter, if_neg hring]

/-- The driver is called for the next character. -/
theorem Inv.call (h : Inv text start s a) (hpc : s.pc = .call) {c : UInt8} {rest : List UInt8}
    (htodo : s.todo = c :: rest) (p : Parameters) :
    ∃ b, Inv text start (enter p c { s with todo := rest }) b := by
  have hfollows : text.drop (a.k + a.prod) = c :: rest := by
    have := h.follows
    rwa [hpc, htodo] at this
  have hlines := h.lines
  have hwindow := h.window
  simp only [hpc, Pc.open, Pc.written] at hlines hwindow
  rcases enter_cases p c { s with todo := rest } with ⟨ring, evtchn, hring, heq⟩ | ⟨hring, evtchn, heq⟩
  · refine ⟨a, ?_⟩
    rw [heq]
    exact { h with
      follows := hfollows
      window := hwindow
      lines := hlines
      waits := fun hwait => Pc.noConfusion hwait
      noRing := fun hzero => absurd hzero hring }
  · -- without a ring nothing has gone through it, and the mark `k` moves instead
    obtain ⟨-, hprod⟩ := h.noRing hring
    have hseen := h.seen_le
    have hnext := h.next_le
    have hcons := h.cons_le
    obtain ⟨hc, hlt, hdrop⟩ := getD_of_drop_eq_cons hfollows
    have hzero : a.cons = 0 ∧ a.next = 0 ∧ a.seen = 0 := by omega
    refine ⟨{ a with k := a.k + 1 }, ?_⟩
    rw [heq]
    rw [hprod, Nat.add_zero] at hc hlt hdrop
    exact { h with
      direct := by
        rw [List.take_add_one, List.getElem?_eq_getElem hlt, List.flatMap_append, h.direct,
          ← List.getD_eq_getElem _ 0 hlt, hc]
        rfl
      prod_le := by dsimp only; omega
      received := by rw [h.received, hzero.2.1, List.take_zero, List.take_zero]
      follows := by
        rw [hpc]
        dsimp only
        rw [hprod, Nat.add_zero]
        exact hdrop
      window := by
        dsimp only
        rw [hpc, hzero.2.1]
        simp only [Pc.written, hprod]
        exact Ring.Window.empty _ _ _ _ _
      lines := by
        intro i _ hi
        simp only [hpc, Pc.open, hprod] at hi
        exact absurd hi (Nat.not_lt_zero i)
      waits := fun hwait => absurd (hpc.symm.trans hwait) (by decide)
      noRing := fun _ => ⟨hpc, hprod⟩ }

/-- The driver reads `out_prod`. -/
theorem Inv.loadProd (h : Inv text start s a) {c : UInt8} (hpc : s.pc = .loadProd c) :
    Inv text start { s with pc := .storeChar c s.outProd } a := by
  have hfollows := h.follows
  have hlines := h.lines
  have hwindow := h.window
  simp only [hpc, Pc.open, Pc.written, Pc.Follows] at hlines hwindow hfollows
  exact { h with
    follows := ⟨hfollows, rfl⟩
    window := hwindow
    lines := hlines
    waits := fun hwait => Pc.noConfusion hwait
    noRing := fun hzero => absurd hzero (h.ring (by simp [hpc])) }

/-- The driver writes the character into its slot. -/
theorem Inv.storeChar (h : Inv text start s a) (hover : ¬Overruns text) {c : UInt8} {prod : ℕ}
    (hpc : s.pc = .storeChar c prod) :
    Inv text start { s with
      out := Function.update s.out (maskXenconsIdx prod) c, pc := .storeProd c (wrap32 (prod + 1)) } a := by
  have hfollows := h.follows
  have hlines := h.lines
  have hwindow := h.window
  simp only [hpc, Pc.open, Pc.written, Pc.Follows] at hlines hwindow hfollows
  obtain ⟨hdrop, hprod⟩ := hfollows
  obtain ⟨hc, hlt, -⟩ := getD_of_drop_eq_cons hdrop
  have hpushed := hwindow.push fun i hi hin hslot =>
    eq_of_slot hover hlt (fun j hj => hlines j (h.cons_le.trans hj)) hi hin hslot
  exact { h with
    follows := ⟨hdrop, by rw [hprod]⟩
    window := by
      dsimp only [Pc.written]
      rw [hprod, h.outProd, maskXenconsIdx_counter, ← hc]
      exact hpushed
    lines := hlines
    waits := fun hwait => Pc.noConfusion hwait
    noRing := fun hzero => absurd hzero (h.ring (by simp [hpc])) }

/-- The driver advances `out_prod`. -/
theorem Inv.storeProd (h : Inv text start s a) {c : UInt8} {prod : ℕ} (hpc : s.pc = .storeProd c prod)
    (events : List ℕ) :
    Inv text start
      { s with outProd := prod, events := events, pc := if c = newline then .wait else .call }
      { a with prod := a.prod + 1 } := by
  have hfollows := h.follows
  have hlines := h.lines
  have hwindow := h.window
  simp only [hpc, Pc.open, Pc.written, Pc.Follows] at hlines hwindow hfollows
  obtain ⟨hdrop, hprod⟩ := hfollows
  obtain ⟨hc, hlt, hrest⟩ := getD_of_drop_eq_cons hdrop
  rw [Nat.add_assoc] at hrest
  exact { h with
    seen_le := h.seen_le.trans (Nat.le_succ _)
    prod_le := hlt
    outProd := by dsimp only; rw [hprod, h.outProd, wrap32_counter]
    follows := by dsimp only; split_ifs <;> exact hrest
    window := by dsimp only; split_ifs <;> exact hwindow
    lines := by
      intro i hi hlast
      dsimp only at hi hlast ⊢
      split_ifs at hlast with hnl
      · exact hlines i hi hlast
      · rcases Nat.lt_succ_iff_lt_or_eq.mp hlast with hlt | rfl
        · exact hlines i hi hlt
        · rw [hc]
          exact hnl
    waits := by
      intro hwait
      dsimp only at hwait ⊢
      split_ifs at hwait with hnl
      exact ⟨Nat.succ_pos _, hc.trans hnl⟩
    noRing := fun hzero => absurd hzero (h.ring (by simp [hpc])) }

/-- The driver sees that the backend has caught up. -/
theorem Inv.caughtUp (h : Inv text start s a) (hover : ¬Overruns text) (hpc : s.pc = .wait)
    (heq : s.outCons = s.outProd) : Inv text start { s with pc := .call } a := by
  have hfollows := h.follows
  have hwindow := h.window
  have hfits := h.waiting_le hover hpc
  simp only [hpc, Pc.written, Pc.Follows] at hwindow hfollows
  have hle : a.cons ≤ a.prod := h.cons_le.trans (h.next_le.trans h.seen_le)
  have hcons : a.cons = a.prod := by
    rw [h.outCons, h.outProd] at heq
    refine (Ring.counter_eq_iff hle ?_).mp heq
    unfold outSize at hfits
    omega
  exact { h with
    follows := hfollows
    window := hwindow
    lines := fun i hi hlast => absurd hlast (Nat.not_lt.mpr (hcons ▸ hi))
    waits := fun hwait => Pc.noConfusion hwait
    noRing := fun hzero => absurd hzero (h.ring (by simp [hpc])) }

/-- Every step keeps the invariant, for marks that move with it. -/
theorem Inv.step (h : Inv text start s a) (hover : ¬Overruns text) {l : Label} (hstep : Step s l t) :
    ∃ b, Inv text start t b := by
  unfold Step Console.step at hstep
  cases l with
  | copyProd =>
    cases hstep
    exact ⟨_, h.copyProd⟩
  | storeCons =>
    cases hstep
    exact ⟨_, h.storeCons⟩
  | take =>
    dsimp only at hstep
    split_ifs at hstep with hne
    cases hstep
    exact ⟨_, h.take hne⟩
  | guest p =>
    dsimp only [guest] at hstep
    split at hstep
    next hpc =>
      split at hstep
      next => cases hstep
      next c rest htodo =>
        cases hstep
        exact h.call hpc htodo p
    next c hpc =>
      cases hstep
      exact ⟨_, h.loadProd hpc⟩
    next c prod hpc =>
      cases hstep
      exact ⟨_, h.storeChar hover hpc⟩
    next c prod hpc =>
      split_ifs at hstep with hnl
      · cases hstep
        have hnext := h.storeProd hpc (s.events ++ [s.consEvtchn])
        rw [if_pos hnl] at hnext
        exact ⟨_, hnext⟩
      · cases hstep
        have hnext := h.storeProd hpc s.events
        rw [if_neg hnl] at hnext
        exact ⟨_, hnext⟩
    next hpc =>
      split_ifs at hstep with hne
      · cases hstep
        exact ⟨_, h⟩
      · cases hstep
        exact ⟨_, h.caughtUp hover hpc (not_not.mp hne)⟩

/-- What the invariant says about the characters that came out. -/
theorem Inv.delivered (h : Inv text start s a) : Delivered text s := by
  refine ⟨a.k, h.direct, h.received ▸ List.take_prefix _ _, fun hpc hlast => ?_⟩
  have hfollows := h.follows
  have hlines := h.lines
  simp only [hpc, Pc.open, Pc.Follows] at hlines hfollows
  have hprinted : text.length - s.todo.length = a.k + a.prod := by
    have := h.prod_le
    rw [← hfollows, List.length_drop]
    omega
  have hcons := h.cons_le
  have hnext := h.next_le
  have hseen := h.seen_le
  have hall : a.next = a.prod := by
    rcases Nat.eq_zero_or_pos a.prod with hzero | hpos
    · omega
    · -- the last character printed is a newline, and none stands behind `out_cons`
      have hle := h.prod_le
      rw [hprinted, List.getLast?_eq_getElem?, List.length_take, min_eq_left hle,
        List.getElem?_take_of_lt (by omega), List.getElem?_eq_getElem (by omega), Option.some.injEq] at hlast
      have hcaught : ¬a.cons ≤ a.prod - 1 := fun hopen => by
        refine hlines (a.prod - 1) hopen (by omega) ?_
        rw [List.getD_eq_getElem _ _ (by omega), ← hlast]
        congr 1
        omega
      omega
  rw [hprinted, List.drop_take, h.received, hall, Nat.add_sub_cancel_left]

/-! ## A line that overruns the ring -/

/-- The hypervisor names a ring. -/
def named : Parameters := ⟨0, 1, 0, 1⟩

/-- The next character is printed. -/
theorem guest_call {c : UInt8} {rest : List UInt8} (hpc : s.pc = .call) (htodo : s.todo = c :: rest)
    (p : Parameters) : guest p s = some (enter p c { s with todo := rest }) := by
  cases s
  subst hpc htodo
  rfl

/-- The guest puts one character into the ring, while the backend does nothing. -/
theorem exists_run_print {n : ℕ} {c : UInt8} {rest : List UInt8} (hpc : s.pc = .call)
    (htodo : s.todo = c :: rest) (hprod : s.outProd = (start + n) % 2 ^ 32) :
    ∃ ls t, Run Step s ls t ∧ t.pc = (if c = newline then .wait else .call) ∧ t.todo = rest ∧
      t.outProd = (start + (n + 1)) % 2 ^ 32 ∧
      t.out = Function.update s.out ((start + n) % outSize) c ∧ t.direct = s.direct ∧
      t.seen = s.seen ∧ t.next = s.next ∧ t.received = s.received := by
  obtain ⟨ring, evtchn, hentered⟩ : ∃ ring evtchn, enter named c { s with todo := rest } =
      { s with todo := rest, consRing := ring, consEvtchn := evtchn, pc := .loadProd c } := by
    by_cases hring : s.consRing = 0
    · exact ⟨wrap64 (1 <<< 12), wrap32 1, by simp [enter, hring, driverXenPvconsoleInit, named, wrap64]⟩
    · exact ⟨s.consRing, s.consEvtchn, by simp [enter, hring]⟩
  let s₁ : State := { s with todo := rest, consRing := ring, consEvtchn := evtchn, pc := .loadProd c }
  let s₂ : State := { s₁ with pc := .storeChar c s.outProd }
  let s₃ : State := { s₂ with
    out := Function.update s.out (maskXenconsIdx s.outProd) c, pc := .storeProd c (wrap32 (s.outProd + 1)) }
  have h₁ : Step s (.guest named) s₁ := (guest_call hpc htodo named).trans (congrArg some hentered)
  have h₂ : Step s₁ (.guest named) s₂ := rfl
  have h₃ : Step s₂ (.guest named) s₃ := rfl
  have hrun : Run Step s [.guest named, .guest named, .guest named] s₃ := ((Run.nil.snoc h₁).snoc h₂).snoc h₃
  have hnext : wrap32 (s.outProd + 1) = (start + (n + 1)) % 2 ^ 32 := by rw [hprod, wrap32_counter]
  have hout : s₃.out = Function.update s.out ((start + n) % outSize) c := by
    rw [← maskXenconsIdx_counter, ← hprod]
  by_cases hnl : c = newline
  · refine ⟨_, { s₃ with
      outProd := wrap32 (s.outProd + 1), events := s.events ++ [evtchn], pc := .wait },
      hrun.snoc (show Step s₃ (.guest named) _ from if_pos hnl), ?_⟩
    exact ⟨(if_pos hnl).symm, rfl, hnext, hout, rfl, rfl, rfl, rfl⟩
  · refine ⟨_, { s₃ with outProd := wrap32 (s.outProd + 1), pc := .call },
      hrun.snoc (show Step s₃ (.guest named) _ from if_neg hnl), ?_⟩
    exact ⟨(if_neg hnl).symm, rfl, hnext, hout, rfl, rfl, rfl, rfl⟩

/-- A line is printed while the backend does nothing. -/
theorem exists_run_line {cs rest : List UInt8} (hcs : newline ∉ cs) {n : ℕ} (hpc : s.pc = .call)
    (htodo : s.todo = cs ++ rest) (hprod : s.outProd = (start + n) % 2 ^ 32) :
    ∃ ls t, Run Step s ls t ∧ t.pc = .call ∧ t.todo = rest ∧
      t.outProd = (start + (n + cs.length)) % 2 ^ 32 ∧ t.direct = s.direct ∧ t.seen = s.seen ∧
      t.next = s.next ∧ t.received = s.received := by
  induction cs generalizing s n with
  | nil => exact ⟨[], s, .nil, hpc, htodo, hprod, rfl, rfl, rfl, rfl⟩
  | cons c cs ih =>
    rw [List.mem_cons, not_or] at hcs
    obtain ⟨ls, u, hrun, hpc', htodo', hprod', -, hdirect, hseen, hnext, hreceived⟩ :=
      exists_run_print hpc htodo hprod
    rw [if_neg fun heq => hcs.1 heq.symm] at hpc'
    obtain ⟨ms, t, hrest, ht, htodo'', hprod'', hd, hs, hn, hr⟩ := ih hcs.2 hpc' htodo' hprod'
    refine ⟨ls ++ ms, t, hrun.append hrest, ht, htodo'', ?_, hd.trans hdirect, hs.trans hseen,
      hn.trans hnext, hr.trans hreceived⟩
    rw [hprod'', List.length_cons]
    congr 2
    omega

/-- The ring is empty, and the driver is not at work. -/
structure Quiet (start n : ℕ) (s : State) : Prop where
  pc : s.pc = .call
  outProd : s.outProd = (start + n) % 2 ^ 32
  next : s.next = (start + n) % 2 ^ 32
  direct : s.direct = []

/-- The backend takes each character of a text as soon as it is there. -/
theorem exists_run_taken {cs rest : List UInt8} {n : ℕ} (hquiet : Quiet start n s)
    (htodo : s.todo = cs ++ rest) :
    ∃ ls t, Run Step s ls t ∧ Quiet start (n + cs.length) t ∧ t.todo = rest ∧
      t.received = s.received ++ cs := by
  induction cs generalizing s n with
  | nil => exact ⟨[], s, .nil, hquiet, htodo, (List.append_nil _).symm⟩
  | cons c cs ih =>
    obtain ⟨ls, u, hrun, hpc, htodo', hprod, hout, hdirect, -, hnext, hreceived⟩ :=
      exists_run_print hquiet.pc htodo hquiet.outProd
    have hcounter : (start + n) % 2 ^ 32 ≠ (start + (n + 1)) % 2 ^ 32 := fun heq =>
      absurd ((Ring.counter_eq_iff (Nat.le_succ n) (by omega)).mp heq) (by omega)
    have htaken : u.out (maskXenconsIdx u.next) = c := by
      rw [hnext, hquiet.next, maskXenconsIdx_counter, hout, Function.update_self]
    -- the backend looks, takes the character and says so
    let u₁ : State := { u with seen := u.outProd }
    let u₂ : State := { u₁ with received := s.received ++ [c], next := (start + (n + 1)) % 2 ^ 32 }
    let u₃ : State := { u₂ with outCons := u₂.next }
    have h₁ : Step u .copyProd u₁ := rfl
    have h₂ : Step u₁ .take u₂ := by
      have hne : u₁.next ≠ u₁.seen := by
        change u.next ≠ u.outProd
        rw [hnext, hquiet.next, hprod]
        exact hcounter
      refine (if_neg hne).trans (congrArg some ?_)
      change { u₁ with
        received := u.received ++ [u.out (maskXenconsIdx u.next)], next := wrap32 (u.next + 1) } = u₂
      rw [htaken, hreceived, hnext, hquiet.next, wrap32_counter]
    have h₃ : Step u₂ .storeCons u₃ := rfl
    have hrun₃ := ((hrun.snoc h₁).snoc h₂).snoc h₃
    -- after a newline the driver sees that it need not wait
    obtain ⟨ms, v, hv, hvq, hvtodo, hvreceived⟩ : ∃ ms v, Run Step s ms v ∧ Quiet start (n + 1) v ∧
        v.todo = cs ++ rest ∧ v.received = s.received ++ [c] := by
      by_cases hnl : c = newline
      · rw [if_pos hnl] at hpc
        refine ⟨_, { u₃ with pc := .call }, hrun₃.snoc (l := .guest named) ?_,
          ⟨rfl, hprod, rfl, hdirect.trans hquiet.direct⟩, htodo', rfl⟩
        have hcaught : ¬u₃.outCons ≠ u₃.outProd := not_not.mpr hprod.symm
        unfold Step step guest
        rw [show u₃.pc = .wait from hpc]
        exact if_neg hcaught
      · rw [if_neg hnl] at hpc
        exact ⟨_, u₃, hrun₃, ⟨hpc, hprod, rfl, hdirect.trans hquiet.direct⟩, htodo', rfl⟩
    obtain ⟨ns, t, hrest, htq, httodo, htreceived⟩ := ih hvq hvtodo
    refine ⟨ms ++ ns, t, hv.append hrest, ?_, httodo, ?_⟩
    · rwa [List.length_cons, Nat.add_comm cs.length 1, ← Nat.add_assoc]
    · rw [htreceived, hvreceived, List.append_assoc, List.singleton_append]

/-- A text that overruns the ring falls into what comes before, the line around the ring, and the
character that takes the place of the first one of the line. -/
theorem Overruns.split (h : Overruns text) :
    ∃ pre line c rest, text = pre ++ (line ++ c :: rest) ∧ line.length = outSize ∧ newline ∉ line ∧
      line.head? ≠ some c := by
  obtain ⟨i, hlen, hline, hne⟩ := h
  have hsize : outSize = 2048 := rfl
  refine ⟨text.take i, (text.drop i).take outSize, text.getD (i + outSize) 0,
    text.drop (i + outSize + 1), ?_, ?_, ?_, ?_⟩
  · rw [List.getD_eq_getElem _ _ hlen, ← List.drop_eq_getElem_cons hlen, ← List.drop_drop,
      List.take_append_drop, List.take_append_drop]
  · rw [List.length_take, List.length_drop]
    omega
  · intro hmem
    obtain ⟨j, hj, heq⟩ := List.mem_iff_getElem.mp hmem
    rw [List.length_take, List.length_drop] at hj
    rw [List.getElem_take, List.getElem_drop] at heq
    refine hline (i + j) (Nat.le_add_right i j) (by omega) ?_
    rw [List.getD_eq_getElem _ _ (by omega), heq]
  · rw [List.head?_take, if_neg (by omega), List.head?_drop, List.getElem?_eq_getElem (by omega),
      ← List.getD_eq_getElem _ 0 (by omega)]
    exact fun heq => hne (Option.some.inj heq)

/-- In a text that overruns the ring a character is lost if the backend is late. -/
theorem Overruns.exists_run (h : Overruns text) (out : ℕ → UInt8) (hstart : start < 2 ^ 32) :
    ∃ ls s, Run Step (State.start text out start) ls s ∧ ¬Delivered text s := by
  obtain ⟨pre, line, c, rest, htext, hlength, hline, hhead⟩ := h.split
  have hsize : outSize = 2048 := rfl
  have hquiet : Quiet start 0 (State.start text out start) :=
    ⟨rfl, (Nat.mod_eq_of_lt hstart).symm, (Nat.mod_eq_of_lt hstart).symm, rfl⟩
  obtain ⟨ls, u, hrun, huq, hutodo, hureceived⟩ := exists_run_taken hquiet htext
  rw [Nat.zero_add] at huq
  obtain ⟨ms, v, hrun', hvpc, hvtodo, hvprod, hvdirect, -, hvnext, hvreceived⟩ :=
    exists_run_line hline huq.pc hutodo huq.outProd
  obtain ⟨ns, w, hrun'', -, -, hwprod, hwout, hwdirect, -, hwnext, hwreceived⟩ :=
    exists_run_print hvpc hvtodo hvprod
  -- the slot of the first character of the line now holds `c`
  have hnext : w.next = (start + pre.length) % 2 ^ 32 := hwnext.trans (hvnext.trans huq.next)
  have htaken : w.out (maskXenconsIdx w.next) = c := by
    rw [hnext, maskXenconsIdx_counter, hwout, hlength, ← Nat.add_assoc, Nat.add_mod_right,
      Function.update_self]
  have hne : w.next ≠ w.outProd := by
    rw [hnext, hwprod]
    exact fun heq => absurd ((Ring.counter_eq_iff (by omega) (by omega)).mp heq) (by omega)
  let w₁ : State := { w with seen := w.outProd }
  have htake : Step w₁ .take
      { w₁ with received := w.received ++ [w.out (maskXenconsIdx w.next)], next := wrap32 (w.next + 1) } :=
    if_neg hne
  refine ⟨_, _, (((hrun.append hrun').append hrun'').snoc (show Step w .copyProd w₁ from rfl)).snoc htake, ?_⟩
  rintro ⟨k, hdirect, hreceived, -⟩
  dsimp only at hdirect hreceived
  have hnone : w.direct = [] := hwdirect.trans (hvdirect.trans huq.direct)
  have hk : text.take k = [] := by
    rw [hnone] at hdirect
    cases htake : text.take k with
    | nil => rfl
    | cons b bs =>
      rw [htake] at hdirect
      exact absurd hdirect (by simp)
  have hdrop : text.drop k = text := by
    have happend := List.take_append_drop k text
    rwa [hk, List.nil_append] at happend
  have hall : w.received = pre := hwreceived.trans (hvreceived.trans hureceived)
  rw [htaken, hall, hdrop, htext, List.prefix_append_right_inj] at hreceived
  cases line with
  | nil => exact absurd hlength (by decide)
  | cons b line =>
    rw [List.cons_append, List.cons_prefix_cons] at hreceived
    exact hhead (congrArg some hreceived.1.symm)

/-- What VM1 prints through the paravirtual console comes out once and in order, whatever the backend
does and when, exactly if no line overruns the ring. -/
theorem pvconsole_delivers_iff (text : List UInt8) (out : ℕ → UInt8) (start : ℕ) (hstart : start < 2 ^ 32) :
    (∀ ls s, Run Step (State.start text out start) ls s → Delivered text s) ↔ ¬Overruns text := by
  constructor
  · intro hall hover
    obtain ⟨ls, s, hrun, hlost⟩ := hover.exists_run out hstart
    exact hlost (hall ls s hrun)
  · intro hover ls s hrun
    obtain ⟨a, hinv⟩ := hrun.invariant (P := fun s => ∃ a, Inv text start s a)
      ⟨_, inv_start text out hstart⟩ fun s l t ⟨a, ha⟩ hstep => ha.step hover hstep
    exact hinv.delivered

/-- A short text, through a ring whose counters begin at the end of their range. -/
theorem pvconsole_delivers_two_lines :
    ¬Overruns [72, 105, 10, 33, 10] ∧
      ∀ ls s, Run Step (State.start [72, 105, 10, 33, 10] (fun _ => 0) (2 ^ 32 - 1)) ls s →
        Delivered [72, 105, 10, 33, 10] s := by
  have hover : ¬Overruns [72, 105, 10, 33, 10] := fun ⟨_, hlen, _⟩ => absurd hlen (by simp [outSize])
  exact ⟨hover, (pvconsole_delivers_iff _ (fun _ => 0) (2 ^ 32 - 1) (by decide)).mpr hover⟩

end FfaAcs.Console
