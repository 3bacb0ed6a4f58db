import FfaAcs.Machine.CString
import FfaAcs.Platform.Numeral

/-!
# The message printer

`pal_printf` walks over a message. A percent sign starts a conversion: the cursor moves on, once more over
an `l`, and the character there says what is printed. The loop then moves the cursor on without a test for
the end of the message. The first conversion prints the first number, and the later ones the second.

A message is a string in memory. The loop has fuel, and the addresses that it reads are recorded.
-/

namespace FfaAcs.Platform

open Machine

namespace Printf

/-- How the loop ends. -/
inductive Outcome
  /-- It returned: the addresses it read and the characters it printed. -/
  | finished (reads : List ℕ) (output : List UInt8)
  /-- It wrote behind the digit buffer. -/
  | overrun
  /-- The fuel was used up. -/
  | running
deriving DecidableEq, Repr

/-- The outcome with what was read and printed before. -/
def Outcome.after (reads : List ℕ) (output : List UInt8) : Outcome → Outcome
  | finished reads' output' => finished (reads ++ reads') (output ++ output')
  | overrun => overrun
  | running => running

/-- The character that starts a conversion. -/
def percent : UInt8 := '%'.toUInt8

/-- The characters that the cursor moves over. -/
def IsLong (c : UInt8) : Prop := c = 'l'.toUInt8 ∨ c = 'L'.toUInt8

instance (c : UInt8) : Decidable (IsLong c) := inferInstanceAs (Decidable (_ ∨ _))

/-- The base of a conversion. Another character prints nothing. -/
def radix (c : UInt8) : Option Radix :=
  if c = 'd'.toUInt8 then some .decimal
  else if c = 'x'.toUInt8 ∨ c = 'X'.toUInt8 then some .hexadecimal
  else none

/-- A character outside a conversion. -/
def plainOutput (c : UInt8) : List UInt8 := if c = '\n'.toUInt8 then ['\r'.toUInt8, c] else [c]

/-- A conversion: what is printed, the number for the next one, and the digit buffer. -/
def convert (data2 : ℕ) (c : UInt8) (data : ℕ) (buffer : Buffer) : Option (List UInt8 × ℕ × Buffer) :=
  match radix c with
  | none => some ([], data, buffer)
  | some r => (printNumber r data buffer).map fun printed => (printed.1, data2, printed.2)

/-- Where the last character of the conversion at the address is. -/
def conversionEnd (m : ByteMemory) (msg : ℕ) : ℕ :=
  if IsLong (m (msg + 1)) then msg + 1 + 1 else msg + 1

/-- The loop over the message. -/
def loop (m : ByteMemory) (data2 : ℕ) : ℕ → ℕ → ℕ → Buffer → Outcome
  | 0, _, _, _ => .running
  | fuel + 1, msg, data, buffer =>
    if m msg = 0 then .finished [msg] []
    else if m msg = percent then
      (convert data2 (m (conversionEnd m msg)) data buffer).elim .overrun fun printed =>
        (loop m data2 fuel (conversionEnd m msg + 1) printed.2.1 printed.2.2).after
          [msg, msg + 1, conversionEnd m msg] printed.1
    else (loop m data2 fuel (msg + 1) data buffer).after [msg] (plainOutput (m msg))

/-- `pal_printf`, with a digit buffer that is not initialised. -/
def palPrintf (fuel : ℕ) (m : ByteMemory) (msg data1 data2 : ℕ) (buffer : Buffer) : Outcome :=
  loop m data2 fuel msg data1 buffer

/-! ## What a message says -/

/-- A message in parts: characters, and conversions by their last character. -/
inductive Token
  | plain (c : UInt8)
  | conversion (c : UInt8)
deriving DecidableEq, Repr

/-- The parts of a message. There are none if it ends inside a conversion. -/
def tokens : List UInt8 → Option (List Token)
  | [] => some []
  | c :: cs =>
    if c = percent then
      match cs with
      | [] => none
      | l :: cs =>
        if IsLong l then
          match cs with
          | [] => none
          | d :: cs => (tokens cs).map (.conversion d :: ·)
        else (tokens cs).map (.conversion l :: ·)
    else (tokens cs).map (.plain c :: ·)

section

variable {c l d : UInt8} {cs : List UInt8}

/-- A character that is not `%` stands for itself. -/
theorem tokens_plain (h : c ≠ percent) : tokens (c :: cs) = (tokens cs).map (.plain c :: ·) := by
  rw [tokens.eq_def]
  exact if_neg h

/-- A format that ends in `%` has no tokens. -/
theorem tokens_percent : tokens [percent] = none := rfl

/-- Nor has one that ends in a length modifier. -/
theorem tokens_percent_long (h : IsLong l) : tokens [percent, l] = none := by
  rw [tokens.eq_def]
  exact if_pos h

/-- A `%` and a character that is no length modifier are a conversion. -/
theorem tokens_conversion (h : ¬IsLong d) :
    tokens (percent :: d :: cs) = (tokens cs).map (.conversion d :: ·) := by
  rw [tokens.eq_def]
  exact if_neg h

/-- A length modifier between the two changes nothing. -/
theorem tokens_long (h : IsLong l) :
    tokens (percent :: l :: d :: cs) = (tokens cs).map (.conversion d :: ·) := by
  rw [tokens.eq_def]
  exact if_pos h

end

/-- What a part prints if a number has no more than 16 digits, and the number for the next conversion. -/
def emitToken (data2 : ℕ) : Token → ℕ → Option (List UInt8 × ℕ)
  | .plain c, data => some (plainOutput c, data)
  | .conversion c, data =>
    match radix c with
    | none => some ([], data)
    | some r => if data < r.base ^ bufferSize then some (numeral r data, data2) else none

/-- What the parts print. -/
def emit (data2 : ℕ) : List Token → ℕ → Option (List UInt8)
  | [], _ => some []
  | t :: ts, data =>
    (emitToken data2 t data).bind fun printed => (emit data2 ts printed.2).map (printed.1 ++ ·)

/-! ## One round of the loop -/

section

variable {m : ByteMemory} {data2 fuel msg data : ℕ} {buffer : Buffer} {cs : List UInt8}

/-- An outcome that is finished was finished before. -/
theorem Outcome.after_eq_finished {o : Outcome} {reads reads' : List ℕ} {output output' : List UInt8}
    (h : o.after reads output = finished reads' output') :
    ∃ rs out, o = finished rs out ∧ reads' = reads ++ rs ∧ output' = output ++ out := by
  cases o with
  | finished rs out =>
    cases h
    exact ⟨rs, out, rfl, rfl, rfl⟩
  | overrun => cases h
  | running => cases h

/-- A part that was printed has not run over the buffer. -/
theorem elim_eq_finished {α : Type} {o : Option α} {f : α → Outcome} {reads : List ℕ}
    {output : List UInt8} (h : o.elim .overrun f = .finished reads output) :
    ∃ x, o = some x ∧ f x = .finished reads output := by
  cases o with
  | none => cases h
  | some x => exact ⟨x, rfl, h⟩

/-- A loop that returns has read where it started. -/
theorem start_mem_reads {reads : List ℕ} {output : List UInt8}
    (h : loop m data2 fuel msg data buffer = .finished reads output) : msg ∈ reads := by
  cases fuel with
  | zero => cases h
  | succ fuel =>
    rw [loop] at h
    split_ifs at h
    · cases h
      exact List.mem_singleton_self msg
    · obtain ⟨x, -, hx⟩ := elim_eq_finished h
      obtain ⟨rs, out, -, rfl, -⟩ := Outcome.after_eq_finished hx
      exact List.mem_append_left _ List.mem_cons_self
    · obtain ⟨rs, out, -, rfl, -⟩ := Outcome.after_eq_finished h
      exact List.mem_append_left _ List.mem_cons_self

/-- What the loop prints for a part of the message. -/
def printToken (data2 : ℕ) : Token → ℕ → Buffer → Option (List UInt8 × ℕ × Buffer)
  | .plain c, data, buffer => some (plainOutput c, data, buffer)
  | .conversion c, data, buffer => convert data2 c data buffer

/-- The loop prints numerals, of numbers that fit. -/
theorem printToken_map (data2 : ℕ) (t : Token) (data : ℕ) (buffer : Buffer) :
    (printToken data2 t data buffer).map (fun x => (x.1, x.2.1)) = emitToken data2 t data := by
  cases t with
  | plain c => rfl
  | conversion c =>
    rw [printToken, emitToken, convert]
    cases radix c with
    | none => rfl
    | some r =>
      by_cases hfits : data < r.base ^ bufferSize
      · obtain ⟨buffer', hprint⟩ := printNumber_of_lt hfits buffer
        simp [hprint, hfits]
      · simp [printNumber_of_le (Nat.le_of_not_lt hfits), hfits]

/-- What one round does with a message: it stops at the end, it prints the first part and goes on behind
it, or it goes on behind the end. -/
inductive Round (m : ByteMemory) (data2 msg data : ℕ) (buffer : Buffer) (cs : List UInt8) : Prop
  | stop (hcs : cs = [])
      (hloop : ∀ fuel, loop m data2 (fuel + 1) msg data buffer = .finished [msg] [])
  | token (t : Token) (rest : List UInt8) (cursor : ℕ) (reads : List ℕ)
      (htokens : tokens cs = (tokens rest).map (t :: ·)) (hrest : HoldsString m (cursor + 1) rest)
      (hlength : cursor + 1 + rest.length = msg + cs.length) (hreads : ∀ a ∈ reads, a ≤ cursor)
      (hloop : ∀ fuel, loop m data2 (fuel + 1) msg data buffer =
        (printToken data2 t data buffer).elim .overrun fun printed =>
          (loop m data2 fuel (cursor + 1) printed.2.1 printed.2.2).after reads printed.1)
  | broken (cursor : ℕ) (reads : List ℕ) (htokens : tokens cs = none)
      (hbehind : msg + cs.length ≤ cursor)
      (hloop : ∀ fuel, loop m data2 (fuel + 1) msg data buffer =
        (loop m data2 fuel (cursor + 1) data buffer).after reads [])

/-- A conversion whose last character is at an address of the message. -/
theorem Round.of_conversion {rest : List UInt8} {d : UInt8} (hpercent : m msg = percent)
    (hd : m (conversionEnd m msg) = d) (htokens : tokens cs = (tokens rest).map (.conversion d :: ·))
    (hrest : HoldsString m (conversionEnd m msg + 1) rest)
    (hlength : conversionEnd m msg + 1 + rest.length = msg + cs.length) :
    Round m data2 msg data buffer cs := by
  refine .token (.conversion d) rest (conversionEnd m msg) [msg, msg + 1, conversionEnd m msg] htokens
    hrest hlength ?_ fun fuel => ?_
  · have hlast : msg + 1 ≤ conversionEnd m msg := by
      unfold conversionEnd
      split_ifs <;> omega
    simp only [List.mem_cons, List.not_mem_nil, or_false]
    omega
  · rw [loop, hpercent, if_neg (by decide), if_pos rfl, hd]
    rfl

/-- A conversion that would end at the zero behind the message. -/
theorem Round.of_broken (hpercent : m msg = percent) (hzero : m (conversionEnd m msg) = 0)
    (htokens : tokens cs = none) (hbehind : msg + cs.length ≤ conversionEnd m msg) :
    Round m data2 msg data buffer cs := by
  refine .broken (conversionEnd m msg) [msg, msg + 1, conversionEnd m msg] htokens hbehind fun fuel => ?_
  rw [loop, hpercent, if_neg (by decide), if_pos rfl, hzero]
  rfl

/-- Each round is one of the three. -/
theorem round (h : HoldsString m msg cs) (data2 data : ℕ) (buffer : Buffer) :
    Round m data2 msg data buffer cs := by
  cases cs with
  | nil => exact .stop rfl fun fuel => by rw [loop, if_pos (holdsString_nil.mp h)]
  | cons c cs =>
    obtain ⟨hc, hnonzero, hcs⟩ := holdsString_cons.mp h
    by_cases hpercent : c = percent
    · subst hpercent
      cases cs with
      | nil =>
        have hzero : m (msg + 1) = 0 := holdsString_nil.mp hcs
        have hend : conversionEnd m msg = msg + 1 := by
          rw [conversionEnd, hzero, if_neg (by decide)]
        exact .of_broken hc (by rw [hend, hzero]) tokens_percent hend.ge
      | cons l cs =>
        obtain ⟨hl, -, hcs⟩ := holdsString_cons.mp hcs
        by_cases hlong : IsLong l
        · have hend : conversionEnd m msg = msg + 1 + 1 := by
            rw [conversionEnd, hl, if_pos hlong]
          cases cs with
          | nil =>
            have hzero : m (msg + 1 + 1) = 0 := holdsString_nil.mp hcs
            exact .of_broken hc (by rw [hend, hzero]) (tokens_percent_long hlong) hend.ge
          | cons d cs =>
            obtain ⟨hd, -, hcs⟩ := holdsString_cons.mp hcs
            refine .of_conversion hc (by rw [hend, hd]) (tokens_long hlong) (by rwa [hend]) ?_
            simp only [hend, List.length_cons]
            omega
        · have hend : conversionEnd m msg = msg + 1 := by
            rw [conversionEnd, hl, if_neg hlong]
          refine .of_conversion hc (by rw [hend, hl]) (tokens_conversion hlong) (by rwa [hend]) ?_
          simp only [hend, List.length_cons]
          omega
    · refine .token (.plain c) cs msg [msg] (tokens_plain hpercent) hcs ?_ (by simp) fun fuel => ?_
      · rw [List.length_cons]
        omega
      · rw [loop, hc, if_neg hnonzero, if_neg hpercent]
        rfl

/-! ## Whole messages -/

variable {ts : List Token} {reads : List ℕ} {output : List UInt8}

/-- A message that does not end inside a conversion is printed, if its numbers fit, and nothing behind it
is read. -/
theorem loop_finishes (h : HoldsString m msg cs) (htokens : tokens cs = some ts)
    (hemit : emit data2 ts data = some output) (buffer : Buffer) :
    ∃ fuel reads, loop m data2 fuel msg data buffer = .finished reads output ∧
      ∀ a ∈ reads, a ≤ msg + cs.length := by
  induction ts generalizing cs msg data buffer output with
  | nil =>
    cases round h data2 data buffer with
    | stop hcs hloop =>
      cases hemit
      exact ⟨1, [msg], hloop 0, by simp⟩
    | token t rest cursor reads hfirst => simp [hfirst] at htokens
    | broken cursor reads hnone => simp [hnone] at htokens
  | cons t ts ih =>
    obtain ⟨printed, htoken, hrest⟩ := Option.bind_eq_some_iff.mp hemit
    obtain ⟨output', hlater, rfl⟩ := Option.map_eq_some_iff.mp hrest
    cases round h data2 data buffer with
    | stop hcs hloop =>
      rw [hcs] at htokens
      cases htokens
    | token t' rest cursor reads hfirst hstring hlength hreads hloop =>
      obtain ⟨ts', hts, heq⟩ := Option.map_eq_some_iff.mp (hfirst.symm.trans htokens)
      cases heq
      obtain ⟨x, hprint, rfl⟩ :=
        Option.map_eq_some_iff.mp ((printToken_map data2 t data buffer).trans htoken)
      obtain ⟨fuel, reads', hrun, hbound⟩ := ih hstring hts hlater x.2.2
      refine ⟨fuel + 1, reads ++ reads', ?_, fun a ha => ?_⟩
      · rw [hloop, hprint, Option.elim_some, hrun, Outcome.after]
      · rcases List.mem_append.mp ha with ha | ha
        · exact (hreads a ha).trans (by omega)
        · exact (hbound a ha).trans hlength.le
    | broken cursor reads hnone => simp [hnone] at htokens

/-- Such a message prints nothing else. -/
theorem emit_of_finished (h : HoldsString m msg cs) (htokens : tokens cs = some ts)
    (hrun : loop m data2 fuel msg data buffer = .finished reads output) :
    emit data2 ts data = some output := by
  induction fuel generalizing cs ts msg data buffer reads output with
  | zero => cases hrun
  | succ fuel ih =>
    cases round h data2 data buffer with
    | stop hcs hloop =>
      rw [hcs] at htokens
      cases htokens
      cases (hloop fuel).symm.trans hrun
      rfl
    | token t rest cursor reads hfirst hstring hlength hreads hloop =>
      obtain ⟨ts, hts, rfl⟩ := Option.map_eq_some_iff.mp (hfirst.symm.trans htokens)
      obtain ⟨x, hprint, hafter⟩ := elim_eq_finished ((hloop fuel).symm.trans hrun)
      obtain ⟨reads', output', hrest, -, rfl⟩ := Outcome.after_eq_finished hafter
      have htoken : emitToken data2 t data = some (x.1, x.2.1) := by
        rw [← printToken_map data2 t data buffer, hprint, Option.map_some]
      rw [emit, htoken, Option.bind_some, ih hstring hts hrest, Option.map_some]
    | broken cursor reads hnone => simp [hnone] at htokens

/-- A message that ends inside a conversion is read behind its end. -/
theorem exists_read_behind (h : HoldsString m msg cs) (htokens : tokens cs = none)
    (hrun : loop m data2 fuel msg data buffer = .finished reads output) :
    ∃ a ∈ reads, msg + cs.length < a := by
  induction fuel generalizing cs msg data buffer reads output with
  | zero => cases hrun
  | succ fuel ih =>
    cases round h data2 data buffer with
    | stop hcs hloop =>
      rw [hcs] at htokens
      cases htokens
    | token t rest cursor reads hfirst hstring hlength hreads hloop =>
      have hrest := Option.map_eq_none_iff.mp (hfirst.symm.trans htokens)
      obtain ⟨x, -, hafter⟩ := elim_eq_finished ((hloop fuel).symm.trans hrun)
      obtain ⟨reads', output', hinner, rfl, -⟩ := Outcome.after_eq_finished hafter
      obtain ⟨a, ha, hbehind⟩ := ih hstring hrest hinner
      exact ⟨a, List.mem_append_right _ ha, hlength ▸ hbehind⟩
    | broken cursor reads hnone hbehind hloop =>
      obtain ⟨reads', output', hinner, rfl, -⟩ :=
        Outcome.after_eq_finished ((hloop fuel).symm.trans hrun)
      exact ⟨cursor + 1, List.mem_append_right _ (start_mem_reads hinner), Nat.lt_succ_of_le hbehind⟩

/-! ## The numbers that are printed in base 10 -/

/-- The numbers that are printed in base 10. -/
def decimals (data2 : ℕ) : List Token → ℕ → List ℕ
  | [], _ => []
  | .plain _ :: ts, data => decimals data2 ts data
  | .conversion c :: ts, data =>
    match radix c with
    | none => decimals data2 ts data
    | some .decimal => data :: decimals data2 ts data2
    | some .hexadecimal => decimals data2 ts data2

/-- Numbers of 64 bits fit unless they are printed in base 10. -/
theorem emit_isSome_iff (hdata : data < 2 ^ 64) (hdata2 : data2 < 2 ^ 64) :
    (emit data2 ts data).isSome ↔ ∀ d ∈ decimals data2 ts data, d < 10 ^ 16 := by
  induction ts generalizing data with
  | nil => simp [emit, decimals]
  | cons t ts ih =>
    cases t with
    | plain c => simp [emit, emitToken, decimals, ih hdata]
    | conversion c =>
      rw [emit, emitToken, decimals]
      cases radix c with
      | none => simp [ih hdata]
      | some r =>
        cases r with
        | decimal =>
          simp only [List.forall_mem_cons, ← ih hdata2]
          by_cases hfits : data < Radix.decimal.base ^ bufferSize
          · rw [if_pos hfits, Option.bind_some, Option.isSome_map, and_iff_right]
            exact hfits
          · rw [if_neg hfits, Option.bind_none]
            exact iff_of_false Bool.false_ne_true fun hall => hfits hall.1
        | hexadecimal =>
          have hfits : data < Radix.hexadecimal.base ^ bufferSize := hdata
          rw [← ih hdata2]
          simp only [if_pos hfits, Option.bind_some, Option.isSome_map]

end

/-- **A message is printed, and nothing behind its end is read, exactly when it does not end inside a
conversion and every number that it prints in base 10 has no more than 16 digits.** -/
theorem palPrintf_reads_iff {m : ByteMemory} {msg data1 data2 : ℕ} (cs : List UInt8)
    (h : HoldsString m msg cs) (hdata1 : data1 < 2 ^ 64) (hdata2 : data2 < 2 ^ 64) (buffer : Buffer) :
    (∃ fuel reads output, palPrintf fuel m msg data1 data2 buffer = .finished reads output ∧
        ∀ a ∈ reads, a ≤ msg + cs.length) ↔
      ∃ ts, tokens cs = some ts ∧ ∀ d ∈ decimals data2 ts data1, d < 10 ^ 16 := by
  constructor
  · rintro ⟨fuel, reads, output, hrun, hreads⟩
    cases htokens : tokens cs with
    | none =>
      obtain ⟨a, ha, hbehind⟩ := exists_read_behind h htokens hrun
      exact absurd (hreads a ha) (Nat.not_le.mpr hbehind)
    | some ts =>
      have hemit := emit_of_finished h htokens hrun
      exact ⟨ts, rfl, (emit_isSome_iff hdata1 hdata2).mp (Option.isSome_of_eq_some hemit)⟩
  · rintro ⟨ts, htokens, hfits⟩
    obtain ⟨output, hemit⟩ := Option.isSome_iff_exists.mp ((emit_isSome_iff hdata1 hdata2).mpr hfits)
    obtain ⟨fuel, reads, hrun, hreads⟩ := loop_finishes h htokens hemit buffer
    exact ⟨fuel, reads, output, hrun, hreads⟩

/-- A message in memory, with zeros behind it. -/
def textAt (cs : List UInt8) : ByteMemory := fun a => cs.getD a 0

/-- A message with a stray percent sign and a conversion. -/
theorem palPrintf_reads_stray_percent :
    ∃ fuel reads output,
      palPrintf fuel (textAt [percent, percent, percent, 'd'.toUInt8]) 0 7 0 (fun _ => 0) =
          .finished reads output ∧
        ∀ a ∈ reads, a ≤ 0 + 4 :=
  (palPrintf_reads_iff [percent, percent, percent, 'd'.toUInt8] (by decide) (by decide) (by decide)
    _).mpr ⟨[.conversion percent, .conversion 'd'.toUInt8], by decide, by decide⟩

/-- A message that is a percent sign, with a letter behind its zero: the letter is printed, and the zero
behind the letter is what ends the loop. -/
theorem palPrintf_reads_behind :
    HoldsString (textAt [percent, 0, 'A'.toUInt8]) 0 [percent] ∧
      palPrintf 3 (textAt [percent, 0, 'A'.toUInt8]) 0 0 0 (fun _ => 0) =
        .finished [0, 1, 1, 2, 3] ['A'.toUInt8] := by
  decide

/-! ## Messages with complete conversions -/

/-- A part of such a message. -/
inductive Item
  | plain (c : UInt8) (hplain : c ≠ 0 ∧ c ≠ percent)
  | number (long : Bool) (r : Radix)

namespace Item

/-- The character of a conversion. -/
def letter : Radix → UInt8
  | .decimal => 'd'.toUInt8
  | .hexadecimal => 'x'.toUInt8

/-- The characters of a part. -/
def text : Item → List UInt8
  | plain c _ => [c]
  | number false r => [percent, letter r]
  | number true r => [percent, 'l'.toUInt8, letter r]

/-- The token of a part. -/
def token : Item → Token
  | plain c _ => .plain c
  | number _ r => .conversion (letter r)

end Item

/-- The message with the parts. -/
def format (items : List Item) : List UInt8 := items.flatMap Item.text

/-- What the message is to print: its characters, and the numeral of a number for each conversion. -/
def expected (data2 : ℕ) : List Item → ℕ → List UInt8
  | [], _ => []
  | .plain c _ :: items, data => plainOutput c ++ expected data2 items data
  | .number _ r :: items, data => numeral r data ++ expected data2 items data2

/-- The letters stand for the bases. -/
theorem radix_letter (r : Radix) : radix (Item.letter r) = some r := by cases r <;> rfl

/-- The message has the parts. -/
theorem tokens_format (items : List Item) : tokens (format items) = some (items.map Item.token) := by
  induction items with
  | nil => rfl
  | cons item items ih =>
    have hletter (r : Radix) : ¬IsLong (Item.letter r) := by cases r <;> decide
    rw [format, List.flatMap_cons, ← format, List.map_cons]
    cases item with
    | plain c hplain =>
      exact (tokens_plain hplain.2).trans (congrArg (Option.map _) ih)
    | number long r =>
      cases long with
      | false => exact (tokens_conversion (hletter r)).trans (congrArg (Option.map _) ih)
      | true => exact (tokens_long (by decide)).trans (congrArg (Option.map _) ih)

/-- If the numbers fit, the parts print what is expected. -/
theorem emit_format {data2 data : ℕ} {items : List Item} {output : List UInt8}
    (h : emit data2 (items.map Item.token) data = some output) : output = expected data2 items data := by
  induction items generalizing data output with
  | nil =>
    cases h
    rfl
  | cons item items ih =>
    obtain ⟨printed, htoken, hrest⟩ := Option.bind_eq_some_iff.mp h
    obtain ⟨output', hlater, rfl⟩ := Option.map_eq_some_iff.mp hrest
    rw [ih hlater]
    cases item with
    | plain c hplain =>
      cases htoken
      rfl
    | number long r =>
      simp only [Item.token, emitToken, radix_letter] at htoken
      split_ifs at htoken
      cases htoken
      rfl

/-- **A message of characters and complete conversions is printed as expected, without a write behind the
digit buffer, exactly when every number that it prints in base 10 has no more than 16 digits.** -/
theorem palPrintf_prints_iff {m : ByteMemory} {msg data1 data2 : ℕ} (items : List Item)
    (h : HoldsString m msg (format items)) (hdata1 : data1 < 2 ^ 64) (hdata2 : data2 < 2 ^ 64)
    (buffer : Buffer) :
    (∃ fuel reads,
        palPrintf fuel m msg data1 data2 buffer = .finished reads (expected data2 items data1)) ↔
      ∀ d ∈ decimals data2 (items.map Item.token) data1, d < 10 ^ 16 := by
  rw [← emit_isSome_iff hdata1 hdata2]
  constructor
  · rintro ⟨fuel, reads, hrun⟩
    exact Option.isSome_of_eq_some (emit_of_finished h (tokens_format items) hrun)
  · intro hfits
    obtain ⟨output, hemit⟩ := Option.isSome_iff_exists.mp hfits
    obtain ⟨fuel, reads, hrun, -⟩ := loop_finishes h (tokens_format items) hemit buffer
    exact ⟨fuel, reads, emit_format hemit ▸ hrun⟩

/-- The message `"%d\n%lx"`. -/
def twoNumbers : List Item :=
  [.number false .decimal, .plain '\n'.toUInt8 (by decide), .number true .hexadecimal]

/-- The largest number of 16 digits in base 10, and the largest of 64 bits in base 16. -/
theorem palPrintf_prints_two_numbers :
    ∃ fuel reads,
      palPrintf fuel (textAt (format twoNumbers)) 0 (10 ^ 16 - 1) (2 ^ 64 - 1) (fun _ => 0) =
        .finished reads (expected (2 ^ 64 - 1) twoNumbers (10 ^ 16 - 1)) :=
  (palPrintf_prints_iff twoNumbers (by decide) (by decide) (by decide) _).mpr (by decide)

/-- The number `10 ^ 16` is written behind the digit buffer. -/
theorem palPrintf_overruns_buffer :
    HoldsString (textAt (format twoNumbers)) 0 (format twoNumbers) ∧
      ∀ fuel, palPrintf (fuel + 1) (textAt (format twoNumbers)) 0 (10 ^ 16) 0 (fun _ => 0) = .overrun :=
  ⟨by decide, fun _ => rfl⟩

end Printf

end FfaAcs.Platform
