import FfaAcs.Machine.WordArithmetic

/-!
# The packed word of a test run

One word carries the number of a test, the client and the server that take part in it, and the type
of the test function to run. The macros that build, read and change the word were written
independently of each other. Reading the number masks one bit less than the number has, and setting
the server clears one bit more than the server has, which is the low bit of the type.
-/

namespace FfaAcs.Dispatch

open Machine

/-! ## The macros -/

/-- `TEST_RUN_DATA`. -/
def testRunData (testNum clientLogicId serverLogicId testType : ℕ) : ℕ :=
  wrap32 testNum ||| wrap32 (clientLogicId <<< 11) ||| wrap32 (serverLogicId <<< 15) |||
    wrap32 (testType <<< 19) ||| 0

/-- `GET_TEST_NUM`. -/
def getTestNum (x : ℕ) : ℕ := x &&& 0x3ff

/-- `GET_CLIENT_LOGIC_ID`. -/
def getClientLogicId (x : ℕ) : ℕ := x >>> 11 &&& 0xf

/-- `GET_SERVER_LOGIC_ID`. -/
def getServerLogicId (x : ℕ) : ℕ := x >>> 15 &&& 0xf

/-- `GET_TEST_TYPE`. -/
def getTestType (x : ℕ) : ℕ := x >>> 19 &&& 0xf

/-- `ADD_TEST_TYPE`. The mask is an unsigned long. -/
def addTestType (y x : ℕ) : ℕ := wrap32 ((y &&& not64 (0xf <<< 19)) ||| ((x &&& 0xf) <<< 19))

/-- `SET_SERVER_LOGIC_ID`. -/
def setServerLogicId (testRunData x : ℕ) : ℕ :=
  (not32 0 &&& not32 (0x1f <<< 15) &&& testRunData) ||| wrap32 (x <<< 15)

/-! ## What the macros do to the fields -/

/-- The word with the given fields. -/
def pack (testNum client server type : ℕ) : ℕ :=
  testNum + client * 2 ^ 11 + server * 2 ^ 15 + type * 2 ^ 19

section

variable {n c s t x : ℕ}

/-- Appending a field above the bits that are there. -/
private theorem lor_shiftLeft_eq_add {a b k : ℕ} (h : a < 2 ^ k) : a ||| b <<< k = a + b * 2 ^ k := by
  rw [Nat.lor_comm, shiftLeft_lor b k h, Nat.add_comm]

/-- Values that fit their fields are packed one beside the other. -/
theorem testRunData_eq_pack (hn : n < 2048) (hc : c < 16) (hs : s < 16) (ht : t < 16) :
    testRunData n c s t = pack n c s t := by
  have hwrap (a k : ℕ) (ha : a < 16) (hk : k < 20) : wrap32 (a <<< k) = a <<< k := by
    have hle : 2 ^ k ≤ 2 ^ 19 := Nat.pow_le_pow_right (by decide) (by omega)
    refine wrap32_of_lt ?_
    rw [Nat.shiftLeft_eq]
    nlinarith
  rw [testRunData, wrap32_of_lt (by omega), hwrap c 11 hc (by decide), hwrap s 15 hs (by decide),
    hwrap t 19 ht (by decide), lor_shiftLeft_eq_add (hn.trans_le (by decide)),
    lor_shiftLeft_eq_add (a := n + c * 2 ^ 11) (by omega),
    lor_shiftLeft_eq_add (a := n + c * 2 ^ 11 + s * 2 ^ 15) (by omega), Nat.or_zero, pack]

/-- Setting the type replaces the type. -/
theorem addTestType_pack (hn : n < 2048) (hc : c < 16) (hs : s < 16) (ht : t < 16) (hx : x < 16) :
    addTestType (pack n c s t) x = pack n c s x := by
  have hbound : pack n c s t < 2 ^ 64 := by
    unfold pack
    omega
  have hmask := land_compl_add_land hbound (by decide : 0xf <<< 19 < 2 ^ 64)
  have hread : pack n c s t &&& 0xf <<< 19 = t * 2 ^ 19 := by
    have hin : pack n c s t / 2 ^ 19 % 2 ^ 4 = t := by
      unfold pack
      omega
    have hfield := land_shiftLeft_two_pow_sub_one (pack n c s t) 19 4
    rw [hin] at hfield
    exact hfield
  have hclear : pack n c s t &&& not64 (0xf <<< 19) = n + c * 2 ^ 11 + s * 2 ^ 15 := by
    rw [hread] at hmask
    exact Nat.add_right_cancel hmask
  have hvalue : x &&& 0xf = x := (Nat.and_two_pow_sub_one_eq_mod x 4).trans (Nat.mod_eq_of_lt hx)
  rw [addTestType, hclear, hvalue, lor_shiftLeft_eq_add (by omega)]
  exact wrap32_of_lt (by omega)

/-- Setting the server replaces the server and clears the low bit of the type. -/
theorem setServerLogicId_pack (hn : n < 2048) (hc : c < 16) (hs : s < 16) (ht : t < 16)
    (hx : x < 16) : setServerLogicId (pack n c s t) x = pack n c x (2 * (t / 2)) := by
  have hbound : pack n c s t < 2 ^ 32 := by
    unfold pack
    omega
  have hmask := land_compl_add_land hbound (by decide : 0x1f <<< 15 < 2 ^ 32)
  have hread : pack n c s t &&& 0x1f <<< 15 = (s + t % 2 * 16) * 2 ^ 15 := by
    have hin : pack n c s t / 2 ^ 15 % 2 ^ 5 = s + t % 2 * 16 := by
      unfold pack
      omega
    have hfield := land_shiftLeft_two_pow_sub_one (pack n c s t) 15 5
    rw [hin] at hfield
    exact hfield
  have hclear : pack n c s t &&& not32 (0x1f <<< 15) = pack n c 0 (2 * (t / 2)) := by
    rw [hread] at hmask
    refine Nat.add_right_cancel (hmask.trans ?_)
    unfold pack
    omega
  have hconst : not32 0 &&& not32 (0x1f <<< 15) = not32 (0x1f <<< 15) := by decide
  have hvalue : wrap32 (x <<< 15) = x <<< 15 :=
    wrap32_of_lt (by rw [Nat.shiftLeft_eq]; omega)
  -- the server goes between the fields that are left
  have hsplit : pack n c 0 (2 * (t / 2)) = (n + c * 2 ^ 11) ||| (t / 2) <<< 20 := by
    rw [lor_shiftLeft_eq_add (by omega)]
    unfold pack
    omega
  have hjoin : (n + c * 2 ^ 11 + x * 2 ^ 15) ||| (t / 2) <<< 20 = pack n c x (2 * (t / 2)) := by
    rw [lor_shiftLeft_eq_add (by omega)]
    unfold pack
    omega
  rw [setServerLogicId, hconst, Nat.land_comm, hclear, hvalue, hsplit, Nat.lor_assoc,
    Nat.lor_comm (_ <<< 20), ← Nat.lor_assoc, lor_shiftLeft_eq_add (b := x) (by omega), hjoin]

/-- What the macros read. The number loses its top bit. -/
theorem get_pack (hn : n < 2048) (hc : c < 16) (hs : s < 16) (ht : t < 16) :
    getTestNum (pack n c s t) = n % 1024 ∧ getClientLogicId (pack n c s t) = c ∧
      getServerLogicId (pack n c s t) = s ∧ getTestType (pack n c s t) = t := by
  have hfour (y : ℕ) : y &&& 0xf = y % 2 ^ 4 := Nat.and_two_pow_sub_one_eq_mod y 4
  have hten : pack n c s t &&& 0x3ff = pack n c s t % 2 ^ 10 :=
    Nat.and_two_pow_sub_one_eq_mod _ 10
  rw [getTestNum, getClientLogicId, getServerLogicId, getTestType, hfour, hfour, hfour, hten,
    Nat.shiftRight_eq_div_pow, Nat.shiftRight_eq_div_pow, Nat.shiftRight_eq_div_pow]
  unfold pack
  refine ⟨?_, ?_, ?_, ?_⟩ <;> omega

end

/-! ## Sequences of updates -/

/-- A change of the word. -/
inductive Update
  | addTestType (x : ℕ)
  | setServerLogicId (x : ℕ)
deriving DecidableEq, Repr

namespace Update

/-- The value that is set. -/
def value : Update → ℕ
  | .addTestType x => x
  | .setServerLogicId x => x

/-- The change, as the macro makes it. -/
def apply (word : ℕ) : Update → ℕ
  | .addTestType x => Dispatch.addTestType word x
  | .setServerLogicId x => Dispatch.setServerLogicId word x

/-- The server that was set last. -/
def server (old : ℕ) : Update → ℕ
  | .addTestType _ => old
  | .setServerLogicId x => x

/-- The type that was set last. -/
def type (old : ℕ) : Update → ℕ
  | .addTestType x => x
  | .setServerLogicId _ => old

/-- Whether a server was set after the type. -/
def serverAfterType (_ : Bool) : Update → Bool
  | .addTestType _ => false
  | .setServerLogicId _ => true

end Update

/-- The type that the word carries: without its low bit once a server was set after it. -/
def carried (type : ℕ) (after : Bool) : ℕ := if after then 2 * (type / 2) else type

/-- Before the server is set, the word carries the whole type. -/
theorem carried_false (type : ℕ) : carried type false = type := rfl

/-- The type that is carried fits its field. -/
theorem carried_lt {type : ℕ} (h : type < 16) (after : Bool) : carried type after < 16 := by
  unfold carried
  split <;> omega

/-- Setting the server once more loses nothing further. -/
theorem carried_true (type : ℕ) (after : Bool) : carried type true = 2 * (carried type after / 2) := by
  unfold carried
  cases after <;> simp

/-- The word after any sequence of updates. The induction is on the sequence. -/
theorem foldl_apply_pack {n c : ℕ} (hn : n < 2048) (hc : c < 16) (us : List Update) (after : Bool)
    {word s t : ℕ} (hword : word = pack n c s (carried t after)) (hs : s < 16) (ht : t < 16)
    (hus : ∀ u ∈ us, u.value < 16) :
    us.foldl Update.apply word =
        pack n c (us.foldl Update.server s)
          (carried (us.foldl Update.type t) (us.foldl Update.serverAfterType after)) ∧
      us.foldl Update.server s < 16 ∧ us.foldl Update.type t < 16 := by
  induction us generalizing word s t after with
  | nil => exact ⟨hword, hs, ht⟩
  | cons u us ih =>
    have hvalue := hus u List.mem_cons_self
    have hrest : ∀ v ∈ us, v.value < 16 := fun v hv => hus v (List.mem_cons_of_mem u hv)
    have hcarried := carried_lt ht after
    cases u with
    | addTestType x =>
      have hnext : addTestType word x = pack n c s (carried x false) := by
        rw [hword, carried_false]
        exact addTestType_pack hn hc hs hcarried hvalue
      exact ih false hnext hs hvalue hrest
    | setServerLogicId x =>
      have hnext : setServerLogicId word x = pack n c x (carried t true) := by
        rw [hword, carried_true t after]
        exact setServerLogicId_pack hn hc hs hcarried hvalue
      exact ih true hnext hvalue ht hrest

/-- The four fields read back as they were set exactly if the number has ten bits, and the type is even
when a server was set after it. -/
theorem run_data_reads_back_iff (testNum client server type : ℕ) (hnum : testNum < 2048)
    (hclient : client < 16) (hserver : server < 16) (htype : type < 16) (us : List Update)
    (hus : ∀ u ∈ us, u.value < 16) :
    (getTestNum (us.foldl Update.apply (testRunData testNum client server type)) = testNum ∧
      getClientLogicId (us.foldl Update.apply (testRunData testNum client server type)) = client ∧
      getServerLogicId (us.foldl Update.apply (testRunData testNum client server type)) =
        us.foldl Update.server server ∧
      getTestType (us.foldl Update.apply (testRunData testNum client server type)) =
        us.foldl Update.type type) ↔
    testNum < 1024 ∧ (us.foldl Update.serverAfterType false = true → Even (us.foldl Update.type type)) := by
  have hstart : testRunData testNum client server type =
      pack testNum client server (carried type false) :=
    testRunData_eq_pack hnum hclient hserver htype
  obtain ⟨hword, hlast, hlastType⟩ := foldl_apply_pack hnum hclient us false hstart hserver htype hus
  set last := us.foldl Update.type type
  set after := us.foldl Update.serverAfterType false
  have hcarried := carried_lt hlastType after
  obtain ⟨hn, hc, hs, ht⟩ := get_pack hnum hclient hlast hcarried
  rw [hword, hn, hc, hs, ht]
  have hkept : carried last after = last ↔ (after = true → Even last) := by
    unfold carried
    cases after with
    | false => simp
    | true =>
      rw [if_pos rfl, Nat.even_iff, eq_self, true_imp_iff]
      omega
  rw [← hkept]
  constructor
  · rintro ⟨hnumber, -, -, hsame⟩
    exact ⟨by omega, hsame⟩
  · rintro ⟨hnumber, hsame⟩
    exact ⟨Nat.mod_eq_of_lt hnumber, rfl, rfl, hsame⟩

/-- Test 1024 reads back as test 0, and the type of a server test is lost when a server is set. -/
theorem run_data_loses_fields :
    getTestNum (testRunData 1024 5 6 0) = 0 ∧
      getTestType (setServerLogicId (addTestType (testRunData 7 5 6 0) 1) 3) = 0 := by
  decide

/-- A word with an even type, whose server is then set. -/
theorem run_data_reads_back_of_small :
    getTestNum (setServerLogicId (testRunData 7 5 6 2) 3) = 7 ∧
      getClientLogicId (setServerLogicId (testRunData 7 5 6 2) 3) = 5 ∧
      getServerLogicId (setServerLogicId (testRunData 7 5 6 2) 3) = 3 ∧
      getTestType (setServerLogicId (testRunData 7 5 6 2) 3) = 2 :=
  (run_data_reads_back_iff 7 5 6 2 (by decide) (by decide) (by decide) (by decide)
    [.setServerLogicId 3] (by decide)).mpr ⟨by decide, fun _ => by decide⟩

end FfaAcs.Dispatch
