import Mathlib.Data.List.Basic

/-!
# Programs that use an interface

A program is a tree: it has finished, or it issues a command and goes on by the answer. A handler is a
machine that carries out commands. The same program runs on every handler, so a relation between two
handlers that one command keeps relates the runs of every program on them.
-/

namespace FfaAcs.Machine

/-- The commands of a machine, and what each of them answers. -/
structure Interface where
  Command : Type
  Answer : Command → Type

/-- A program over an interface. -/
inductive Program (I : Interface) (α : Type) : Type
  | done (a : α)
  | call (c : I.Command) (next : I.Answer c → Program I α)

/-- A machine that carries out the commands of an interface. -/
abbrev Handler (I : Interface) (S : Type) := (c : I.Command) → S → I.Answer c × S

namespace Program

variable {I : Interface} {α β S T : Type}

/-- One program, and what follows by its result. -/
def bind : Program I α → (α → Program I β) → Program I β
  | done a, next => next a
  | call c rest, next => call c fun answer => (rest answer).bind next

instance : Monad (Program I) where
  pure := done
  bind := bind

/-- The program of one command. -/
def command (c : I.Command) : Program I (I.Answer c) := call c done

/-- Run a program on a machine. -/
def run (h : Handler I S) : Program I α → S → α × S
  | done a, s => (a, s)
  | call c next, s => (next (h c s).1).run h (h c s).2

/-- A program that has finished leaves the machine as it is. -/
@[simp] theorem run_pure (h : Handler I S) (a : α) (s : S) : (pure a : Program I α).run h s = (a, s) := rfl

/-- One command is carried out by the machine. -/
@[simp] theorem run_command (h : Handler I S) (c : I.Command) (s : S) : (command c).run h s = h c s := rfl

/-- The parts of a program run one after the other. -/
@[simp] theorem run_bind (h : Handler I S) (p : Program I α) (next : α → Program I β) (s : S) :
    (p >>= next).run h s = (next (p.run h s).1).run h (p.run h s).2 := by
  change (p.bind next).run h s = _
  induction p generalizing s with
  | done a => rfl
  | call c rest ih => exact ih _ _

/-! ## Two machines -/

/-- Related states answer a command alike and stay related. -/
def Simulates (R : S → T → Prop) (h : Handler I S) (k : Handler I T) : Prop :=
  ∀ c s t, R s t → (h c s).1 = (k c t).1 ∧ R (h c s).2 (k c t).2

/-- A simulation of the commands is a simulation of every program. -/
theorem Simulates.run {R : S → T → Prop} {h : Handler I S} {k : Handler I T} (hsim : Simulates R h k)
    (p : Program I α) {s : S} {t : T} (hR : R s t) :
    (p.run h s).1 = (p.run k t).1 ∧ R (p.run h s).2 (p.run k t).2 := by
  induction p generalizing s t with
  | done a => exact ⟨rfl, hR⟩
  | call c next ih =>
    obtain ⟨hanswer, hnext⟩ := hsim c s t hR
    rw [Program.run, Program.run, hanswer]
    exact ih _ hnext

/-! ## Pre- and postconditions -/

/-- Every run from a state in `P` ends as `Q` says. -/
def Spec (h : Handler I S) (P : S → Prop) (p : Program I α) (Q : α → S → Prop) : Prop :=
  ∀ s, P s → Q (p.run h s).1 (p.run h s).2

variable {h : Handler I S} {P P' : S → Prop} {Q Q' : α → S → Prop} {p : Program I α}

/-- A program that has finished ends as its precondition says. -/
theorem Spec.pure {Q : α → S → Prop} (a : α) (hQ : ∀ s, P s → Q a s) : Spec h P (pure a) Q := hQ

/-- The postcondition of one part is the precondition of the next. -/
theorem Spec.bind {next : α → Program I β} {R : β → S → Prop} (hp : Spec h P p Q)
    (hnext : ∀ a, Spec h (Q a) (next a) R) : Spec h P (p >>= next) R := by
  intro s hs
  rw [run_bind]
  exact hnext _ _ (hp s hs)

/-- One command does what the machine does. -/
theorem Spec.command {c : I.Command} {Q : I.Answer c → S → Prop} (hc : ∀ s, P s → Q (h c s).1 (h c s).2) :
    Spec h P (command c) Q := hc

/-- The rule of consequence. -/
theorem Spec.mono (hp : Spec h P p Q) (hP : ∀ s, P' s → P s) (hQ : ∀ a s, Q a s → Q' a s) :
    Spec h P' p Q' := fun s hs => hQ _ _ (hp s (hP s hs))

/-- A precondition that does not depend on the state. -/
theorem Spec.assume {b : Prop} (hp : b → Spec h P p Q) : Spec h (fun s => b ∧ P s) p Q :=
  fun s hs => hp hs.1 s hs.2

/-- A condition is known in both of its branches. -/
theorem Spec.ite {b : Prop} [Decidable b] {q : Program I α} (hp : b → Spec h P p Q)
    (hq : ¬b → Spec h P q Q) : Spec h P (if b then p else q) Q := by
  split_ifs with hb
  · exact hp hb
  · exact hq hb

/-- A step whose result decides whether the program stops here. -/
theorem Spec.guard {b : α → Prop} [DecidablePred b] {stop next : α → Program I β} {R : β → S → Prop}
    (hp : Spec h P p Q) (hstop : ∀ a, b a → Spec h (Q a) (stop a) R)
    (hnext : ∀ a, ¬b a → Spec h (Q a) (next a) R) :
    Spec h P (p >>= fun a => if b a then stop a else next a) R :=
  hp.bind fun a => .ite (hstop a) (hnext a)

/-! ## The commands of a program -/

/-- Every command that the program can issue is of this kind. -/
inductive Issues (K : I.Command → Prop) : Program I α → Prop
  | done (a : α) : Issues K (done a)
  | call {c : I.Command} {next : I.Answer c → Program I α} (hc : K c)
    (hnext : ∀ answer, Issues K (next answer)) : Issues K (call c next)

variable {K : I.Command → Prop}

/-- A program that has finished issues no command. -/
theorem Issues.pure (a : α) : Issues K (pure a : Program I α) := .done a

/-- The program of one command issues that command. -/
theorem Issues.command {c : I.Command} (hc : K c) : Issues K (command c) := .call hc fun _ => .done _

/-- Two programs of a kind, one after the other. -/
theorem Issues.bind {next : α → Program I β} (hp : Issues K p) (hnext : ∀ a, Issues K (next a)) :
    Issues K (p >>= next) := by
  change Issues K (p.bind next)
  induction hp with
  | done a => exact hnext a
  | call hc _ ih => exact .call hc ih

/-- A choice between two programs of a kind. -/
theorem Issues.ite {b : Prop} [Decidable b] {q : Program I α} (hp : Issues K p) (hq : Issues K q) :
    Issues K (if b then p else q) := by
  split_ifs
  · exact hp
  · exact hq

/-- A program of a kind whose result decides how it goes on. -/
theorem Issues.guard {b : α → Prop} [DecidablePred b] {stop next : α → Program I β} (hp : Issues K p)
    (hstop : ∀ a, Issues K (stop a)) (hnext : ∀ a, Issues K (next a)) :
    Issues K (p >>= fun a => if b a then stop a else next a) :=
  hp.bind fun a => .ite (hstop a) (hnext a)

/-- A program of a kind that may end after its first step. -/
theorem Issues.check {b : α → Prop} [DecidablePred b] {stop : α → β} {next : α → Program I β}
    (hp : Issues K p) (hnext : ∀ a, Issues K (next a)) :
    Issues K (p >>= fun a => if b a then Pure.pure (stop a) else next a) :=
  hp.guard (fun _ => .pure _) hnext

/-- A loop over a list whose body is of a kind. -/
theorem Issues.forM {γ : Type} {f : γ → Program I PUnit} (hf : ∀ x, Issues K (f x)) (xs : List γ) :
    Issues K (xs.forM f) := by
  induction xs with
  | nil => exact .pure _
  | cons x rest ih => exact .bind (hf x) fun _ => ih

/-- A weaker kind. -/
theorem Issues.mono {K' : I.Command → Prop} (hp : Issues K p) (hK : ∀ c, K c → K' c) : Issues K' p := by
  induction hp with
  | done a => exact .done a
  | call hc _ ih => exact .call (hK _ hc) ih

/-- Every program issues commands. -/
theorem Issues.any (p : Program I α) : Issues (fun _ => True) p := by
  induction p with
  | done a => exact .done a
  | call c next ih => exact .call trivial ih

/-- What every command of a kind keeps, a program that issues no others keeps. -/
theorem Issues.keeps (hp : Issues K p) (hkeep : ∀ c s, K c → P s → P (h c s).2) :
    Spec h P p fun _ => P := by
  intro s hs
  induction hp generalizing s with
  | done a => exact hs
  | call hc _ ih => exact ih _ _ (hkeep _ s hc hs)

/-! ## Records of a run -/

/-- A machine that also records what it is asked and what it answers. -/
def recording {G : Type} (note : G → (c : I.Command) → I.Answer c → G) (h : Handler I S) :
    Handler I (S × G) :=
  fun c x => ((h c x.1).1, (h c x.1).2, note x.2 c (h c x.1).1)

end Program

end FfaAcs.Machine
