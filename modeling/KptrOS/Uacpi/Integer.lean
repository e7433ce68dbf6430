import KptrOS.Acpi.KernelApi
import KptrOS.Serial.Decimal

/-!
# Integers from text (`kern/acpi/utilities.c`)

`uacpi_string_to_integer` reads at most `max_chars` characters of a buffer. The character
after the last digit is consumed before it is looked at, and so is the digit with which the
value no longer fits.

- `asciiMap`, `isChar`, `toLower`: the table of character classes.
- `Cursor`: the pair `str`, `max_chars` that the `consume_…` functions share.
- `stringToInteger`: the source's function.
- `readInteger`: what a text stands for, as a function of its leading digits.
- `stringToInteger_reads`: the function computes it, on every text.
- `stringToInteger_printed`: what the serial port's printers write is read back.
-/

namespace KptrOS

open CSem

/-! ## Characters -/

/-- `CHAR_TYPE_CONTROL`. -/
def charTypeControl : Byte := 1 <<< 0

/-- `CHAR_TYPE_SPACE`. -/
def charTypeSpace : Byte := 1 <<< 1

/-- `CHAR_TYPE_BLANK`. -/
def charTypeBlank : Byte := 1 <<< 2

/-- `CHAR_TYPE_PUNCTUATION`. -/
def charTypePunctuation : Byte := 1 <<< 3

/-- `CHAR_TYPE_LOWER`. -/
def charTypeLower : Byte := 1 <<< 4

/-- `CHAR_TYPE_UPPER`. -/
def charTypeUpper : Byte := 1 <<< 5

/-- `CHAR_TYPE_DIGIT`. -/
def charTypeDigit : Byte := 1 <<< 6

/-- `CHAR_TYPE_HEX_DIGIT`. -/
def charTypeHexDigit : Byte := 1 <<< 7

/-- `CHAR_TYPE_ALHEX`. -/
def charTypeAlhex : Byte := charTypeLower ||| charTypeUpper ||| charTypeHexDigit

/-- The rows of `ascii_map`, group by group. -/
def asciiRows : List Byte :=
  List.replicate 9 charTypeControl ++
    [charTypeControl ||| charTypeSpace ||| charTypeBlank] ++
    List.replicate 4 (charTypeControl ||| charTypeSpace) ++
    List.replicate 18 charTypeControl ++
    [charTypeSpace ||| charTypeBlank] ++
    List.replicate 15 charTypePunctuation ++
    List.replicate 10 (charTypeDigit ||| charTypeHexDigit) ++
    List.replicate 7 charTypePunctuation ++
    List.replicate 6 (charTypeUpper ||| charTypeHexDigit) ++
    List.replicate 20 charTypeUpper ++
    List.replicate 6 charTypePunctuation ++
    List.replicate 6 (charTypeLower ||| charTypeHexDigit) ++
    List.replicate 20 charTypeLower ++
    List.replicate 4 charTypePunctuation ++
    [charTypeControl]

/-- `ascii_map[c]`; the rows that the initialiser leaves out are 0. -/
def asciiMap (c : Byte) : Byte := asciiRows.getD c.toNat 0

/-- `is_char(c, type)`. -/
def isChar (c type : Byte) : Bool := asciiMap c &&& type == type

/-- `to_lower(c)`. -/
def toLower (c : Byte) : Byte := if isChar c charTypeUpper then c + (97 - 65) else c

/-! ## The cursor -/

/-- `str` and `max_chars`: the rest of the buffer, and how much of it may be read. -/
structure Cursor where
  str : CBuf
  size : Nat

/-- `peek_one`: the character, unless the function returns false. -/
def Cursor.peekOne (s : Cursor) : Exec (Option Byte) :=
  if s.size = 0 then .ok none
  else
    match s.str with
    | [] => .error .outOfBounds
    | c :: _ => .ok (some c)

/-- `*str += 1; *size -= 1;` -/
def Cursor.advance (s : Cursor) : Cursor := ⟨s.str.tail, s.size - 1⟩

/-- `consume_one`. -/
def Cursor.consumeOne (s : Cursor) : Exec (Option (Byte × Cursor)) := do
  match ← s.peekOne with
  | none => return none
  | some c => return some (c, s.advance)

/-- `consume_if`: the cursor behind the character, unless the function returns false. -/
def Cursor.consumeIf (type : Byte) (s : Cursor) : Exec (Option Cursor) := do
  match ← s.peekOne with
  | none => return none
  | some c => if isChar c type then return some s.advance else return none

/-- `consume_if_equals`. -/
def Cursor.consumeIfEquals (c : Byte) (s : Cursor) : Exec (Option Cursor) := do
  match ← s.peekOne with
  | none => return none
  | some c₁ => if toLower c₁ = c then return some s.advance else return none

/-! ## `uacpi_string_to_integer` -/

/-- `enum uacpi_base`. -/
inductive UacpiBase where
  | auto
  | oct
  | dec
  | hex
deriving DecidableEq

/-- The value of the enumerator. -/
def UacpiBase.code : UacpiBase → Nat
  | .auto => 0
  | .oct => 8
  | .dec => 10
  | .hex => 16

/-- `while (consume_if(&str, &max_chars, CHAR_TYPE_SPACE));` -/
def consumeSpaces : (bound : Nat) → Cursor → Exec Cursor
  | 0, _ => .error .diverged
  | bound + 1, s => do
    match ← s.consumeIf charTypeSpace with
    | none => return s
    | some s => consumeSpaces bound s

/-- The sign: whether it is a `-`. -/
def consumeSign (s : Cursor) : Exec (Bool × Cursor) := do
  match ← s.consumeIfEquals 45 with -- '-'
  | some s => return (true, s)
  | none => return (false, (← s.consumeIfEquals 43).getD s) -- '+'

/-- The base that `UACPI_BASE_AUTO` stands for, from the prefix `0` or `0x`. -/
def consumeBase (s : Cursor) : Exec (UacpiBase × Cursor) := do
  match ← s.consumeIfEquals 48 with -- '0'
  | none => return (.dec, s)
  | some s =>
    match ← s.consumeIfEquals 120 with -- 'x'
    | none => return (.oct, s)
    | some s => return (.hex, s)

/-- The `switch` on the class of a character: its digit, unless it leaves the loop. -/
def digitValue (base : UacpiBase) (c : Byte) : Option Word :=
  let kind := asciiMap c &&& (charTypeDigit ||| charTypeAlhex)
  if kind = charTypeDigit ||| charTypeHexDigit then
    let next := c.setWidth 64 - 48
    if base = .oct ∧ next > 7 then none else some next
  else if kind = charTypeLower ||| charTypeHexDigit ∨
      kind = charTypeUpper ||| charTypeHexDigit then
    if base ≠ .hex then none else some (10 + ((toLower c).setWidth 64 - 97))
  else none

/-- The loop over the digits: the cursor, `c` and `value` where it ends. -/
def stringToIntegerLoop (base : UacpiBase) :
    (bound : Nat) → Cursor → Byte → Word → Exec (Cursor × Byte × Word)
  | 0, _, _, _ => .error .diverged
  | bound + 1, s, c, value => do
    match ← s.consumeOne with
    | none => return (s, c, value)
    | some (c, s) =>
      match digitValue base c with
      | none => return (s, c, value)
      | some digit =>
        let next := value * BitVec.ofNat 64 base.code + digit
        if next / BitVec.ofNat 64 base.code ≠ value then
          return (s, c, 0xFFFFFFFFFFFFFFFF)
        else stringToIntegerLoop base bound s c next

/-- `uacpi_string_to_integer(str, max_chars, base, &value)`: the status and `value`. -/
def stringToInteger (str : CBuf) (maxChars : Nat) (base : UacpiBase) :
    Exec (UacpiStatus × Word) := do
  let s ← consumeSpaces (maxChars + 1) ⟨str, maxChars⟩
  let (negative, s) ← consumeSign s
  let (base, s) ← if base = .auto then consumeBase s else pure (base, s)
  let (s, c, value) ← stringToIntegerLoop base (s.size + 1) s 0 0
  let value := if negative then -value else value
  return (if s.size = 0 ∨ c = 0 then .ok else .invalidArgument, value)

/-! ## What a text stands for -/

/-- The characters of `CHAR_TYPE_SPACE`. -/
def IsSpace (c : Byte) : Prop := c = 32 ∨ (9 ≤ c.toNat ∧ c.toNat ≤ 13)

instance (c : Byte) : Decidable (IsSpace c) := inferInstanceAs (Decidable (_ ∨ _))

/-- The number of a digit or letter. -/
def charDigit (c : Byte) : Option Nat :=
  if 48 ≤ c.toNat ∧ c.toNat ≤ 57 then some (c.toNat - 48)
  else if 97 ≤ c.toNat ∧ c.toNat ≤ 102 then some (c.toNat - 87)
  else if 65 ≤ c.toNat ∧ c.toNat ≤ 70 then some (c.toNat - 55)
  else none

/-- The digits of base `b` at the beginning of a text, and the rest of it. -/
def leadingDigits (b : Nat) : List Byte → List Nat × List Byte
  | [] => ([], [])
  | c :: text =>
    match (charDigit c).filter (· < b) with
    | none => ([], c :: text)
    | some d => (d :: (leadingDigits b text).1, (leadingDigits b text).2)

/-- The sign of a text, and what follows it. -/
def splitSign : List Byte → Bool × List Byte
  | 45 :: text => (true, text)
  | 43 :: text => (false, text)
  | text => (false, text)

/-- The base of a text without a sign, and its digits. -/
def splitBase : List Byte → UacpiBase × List Byte
  | 48 :: 120 :: text => (.hex, text)
  | 48 :: 88 :: text => (.hex, text)
  | 48 :: text => (.oct, text)
  | text => (.dec, text)

/-- What the digits of a text add to the number `v`: whether the text is accepted, and the
value. At most one character may follow the digits, and anything may follow a NUL. With a
digit too many the value is the largest, and that digit has to be the end of the text. -/
def readDigits (b v : Nat) (text : List Byte) : Bool × Word :=
  let (ds, rest) := leadingDigits b text
  if Numeral.valueFrom b v ds < 2 ^ 64 then
    (rest.length ≤ 1 ∨ rest.head? = some 0, BitVec.ofNat 64 (Numeral.valueFrom b v ds))
  else (rest = [] ∧ Numeral.valueFrom b v ds.dropLast < 2 ^ 64, BitVec.allOnes 64)

/-- The status and the value of a text. -/
def readInteger (base : UacpiBase) (text : List Byte) : UacpiStatus × Word :=
  let (negative, text) := splitSign (text.dropWhile (fun c => IsSpace c))
  let (base, text) := if base = .auto then splitBase text else (base, text)
  let (accepted, value) := readDigits base.code 0 text
  (if accepted then .ok else .invalidArgument, if negative then -value else value)

/-! ## The classes of the characters -/

theorem isChar_space (c : Byte) : isChar c charTypeSpace = decide (IsSpace c) := by
  revert c
  decide +kernel

/-- `to_lower` only turns letters into letters. -/
theorem toLower_eq_iff (c : Byte) : (toLower c = 45 ↔ c = 45) ∧ (toLower c = 43 ↔ c = 43) ∧
    (toLower c = 48 ↔ c = 48) ∧ (toLower c = 120 ↔ c = 120 ∨ c = 88) := by
  revert c
  decide +kernel

theorem digitValue_eq {base : UacpiBase} (hbase : base ≠ .auto) (c : Byte) :
    digitValue base c = ((charDigit c).filter (· < base.code)).map (BitVec.ofNat 64) := by
  revert c
  cases base with
  | auto => exact absurd rfl hbase
  | oct => decide +kernel
  | dec => decide +kernel
  | hex => decide +kernel

/-! ## The loops -/

/-- The cursor at `text`, with nothing else to be read. -/
def Cursor.over (text tail : List Byte) : Cursor := ⟨text ++ tail, text.length⟩

section

variable {c : Byte} {text tail : List Byte}

@[simp] theorem peekOne_nil : (Cursor.over [] tail).peekOne = .ok none := rfl

@[simp] theorem peekOne_cons : (Cursor.over (c :: text) tail).peekOne = .ok (some c) := rfl

@[simp] theorem advance_cons :
    (Cursor.over (c :: text) tail).advance = Cursor.over text tail := rfl

@[simp] theorem size_over : (Cursor.over text tail).size = text.length := rfl

theorem consumeSpaces_over {bound : Nat} (hbound : text.length < bound) :
    consumeSpaces bound (.over text tail) =
      .ok (.over (text.dropWhile (fun c => IsSpace c)) tail) := by
  induction text generalizing bound with
  | nil =>
    obtain ⟨bound, rfl⟩ := Nat.exists_eq_succ_of_ne_zero (Nat.ne_of_gt hbound)
    rfl
  | cons c text ih =>
    obtain ⟨bound, rfl⟩ := Nat.exists_eq_succ_of_ne_zero (Nat.ne_of_gt (Nat.zero_lt_of_lt hbound))
    rw [consumeSpaces, Cursor.consumeIf, peekOne_cons, ok_bind, List.dropWhile_cons]
    dsimp only
    rw [isChar_space]
    by_cases hspace : IsSpace c
    · rw [if_pos (decide_eq_true hspace), if_pos (decide_eq_true hspace)]
      exact ih (Nat.lt_of_succ_lt_succ hbound)
    · rw [if_neg (by simpa using hspace), if_neg (by simpa using hspace)]
      rfl

theorem consumeSign_over :
    consumeSign (.over text tail) = .ok ((splitSign text).1, .over (splitSign text).2 tail) := by
  cases text with
  | nil => rfl
  | cons c text =>
    obtain ⟨hminus, hplus, -⟩ := toLower_eq_iff c
    rw [consumeSign, Cursor.consumeIfEquals, peekOne_cons, ok_bind]
    dsimp only
    by_cases h45 : c = 45
    · rw [if_pos (hminus.mpr h45), h45]
      rfl
    rw [if_neg fun h => h45 (hminus.mp h), pure_eq_ok, ok_bind]
    dsimp only
    rw [Cursor.consumeIfEquals, peekOne_cons, ok_bind]
    dsimp only
    by_cases h43 : c = 43
    · rw [if_pos (hplus.mpr h43), h43]
      rfl
    rw [if_neg fun h => h43 (hplus.mp h)]
    have hsplit : splitSign (c :: text) = (false, c :: text) := by
      rw [splitSign]
      · exact fun _ h => h45 (List.cons.inj h).1
      · exact fun _ h => h43 (List.cons.inj h).1
    rw [hsplit]
    rfl

theorem consumeBase_over :
    consumeBase (.over text tail) = .ok ((splitBase text).1, .over (splitBase text).2 tail) := by
  cases text with
  | nil => rfl
  | cons c text =>
    obtain ⟨-, -, hzero, -⟩ := toLower_eq_iff c
    rw [consumeBase, Cursor.consumeIfEquals, peekOne_cons, ok_bind]
    dsimp only
    by_cases h48 : c = 48
    · subst h48
      rw [if_pos (hzero.mpr rfl), pure_eq_ok, ok_bind]
      dsimp only
      rw [advance_cons]
      cases text with
      | nil => rfl
      | cons x text =>
        obtain ⟨-, -, -, hx⟩ := toLower_eq_iff x
        rw [Cursor.consumeIfEquals, peekOne_cons, ok_bind]
        dsimp only
        by_cases h120 : x = 120
        · rw [if_pos (hx.mpr (.inl h120)), h120]
          rfl
        by_cases h88 : x = 88
        · rw [if_pos (hx.mpr (.inr h88)), h88]
          rfl
        rw [if_neg fun h => (hx.mp h).elim h120 h88]
        have hsplit : splitBase (48 :: x :: text) = (.oct, x :: text) := by
          show splitBase (48#8 :: x :: text) = _
          rw [splitBase.eq_3]
          · exact fun _ h => h120 (List.cons.inj h).1
          · exact fun _ h => h88 (List.cons.inj h).1
        rw [hsplit]
        rfl
    · rw [if_neg fun h => h48 (hzero.mp h)]
      have hsplit : splitBase (c :: text) = (.dec, c :: text) := by
        rw [splitBase.eq_4]
        · exact fun _ h => h48 (List.cons.inj h).1
        · exact fun _ h => h48 (List.cons.inj h).1
        · exact fun _ h => h48 (List.cons.inj h).1
      rw [hsplit]
      rfl

/-- One more digit: the accumulated value, or a wrap that the division notices. -/
theorem accumulate_digit {b d : Nat} (hb : 0 < b) (hb64 : b < 2 ^ 64) (hd : d < b) (value : Word) :
    (value.toNat * b + d < 2 ^ 64 →
      value * BitVec.ofNat 64 b + BitVec.ofNat 64 d = BitVec.ofNat 64 (value.toNat * b + d)) ∧
    ((value * BitVec.ofNat 64 b + BitVec.ofNat 64 d) / BitVec.ofNat 64 b = value ↔
      value.toNat * b + d < 2 ^ 64) := by
  have hnext : (value * BitVec.ofNat 64 b + BitVec.ofNat 64 d).toNat =
      (value.toNat * b + d) % 2 ^ 64 := by
    rw [BitVec.toNat_add, BitVec.toNat_mul, BitVec.toNat_ofNat, BitVec.toNat_ofNat,
      ← Nat.add_mod, Nat.mod_eq_of_lt hb64]
  have hbase : (BitVec.ofNat 64 b).toNat = b := by
    rw [BitVec.toNat_ofNat, Nat.mod_eq_of_lt hb64]
  refine ⟨fun hfit => BitVec.eq_of_toNat_eq ?_, ?_⟩
  · rw [hnext, BitVec.toNat_ofNat]
  · rw [← BitVec.toNat_inj, BitVec.toNat_udiv, hbase, hnext]
    constructor
    · -- a wrapped sum is smaller than the product alone
      intro hdiv
      by_contra hwrap
      have hsmall : (value.toNat * b + d) % 2 ^ 64 < value.toNat * b := by
        have := Nat.mod_add_div (value.toNat * b + d) (2 ^ 64)
        have hpos : 0 < (value.toNat * b + d) / 2 ^ 64 := Nat.div_pos (by omega) (by decide)
        omega
      exact Nat.lt_irrefl _ (hdiv ▸ Nat.div_lt_of_lt_mul (by rwa [Nat.mul_comm b]))
    · intro hfit
      rw [Nat.mod_eq_of_lt hfit, Nat.mul_comm, Nat.mul_add_div hb, Nat.div_eq_of_lt hd,
        Nat.add_zero]

theorem UacpiBase.code_bounds {base : UacpiBase} (hbase : base ≠ .auto) :
    0 < base.code ∧ base.code < 2 ^ 64 := by
  cases base with
  | auto => exact absurd rfl hbase
  | oct => exact ⟨by decide, by decide⟩
  | dec => exact ⟨by decide, by decide⟩
  | hex => exact ⟨by decide, by decide⟩

/-- No digit is a NUL. -/
theorem ne_zero_of_charDigit {c : Byte} {d : Nat} (h : charDigit c = some d) : c ≠ 0 := by
  rintro rfl
  cases h

section

variable {b v : Nat}

theorem readDigits_nil (hv : v < 2 ^ 64) : readDigits b v [] = (true, BitVec.ofNat 64 v) :=
  if_pos hv

/-- A character that is no digit ends the number. -/
theorem readDigits_stop (hc : (charDigit c).filter (· < b) = none) (hv : v < 2 ^ 64) :
    readDigits b v (c :: text) = (decide (text.length = 0 ∨ c = 0), BitVec.ofNat 64 v) := by
  rw [readDigits, leadingDigits, hc]
  dsimp only
  rw [Numeral.valueFrom_nil, if_pos hv]
  simp

/-- A digit that fits. -/
theorem readDigits_digit {d : Nat} (hc : (charDigit c).filter (· < b) = some d)
    (hfit : v * b + d < 2 ^ 64) : readDigits b v (c :: text) = readDigits b (v * b + d) text := by
  rw [readDigits, readDigits, leadingDigits, hc]
  dsimp only
  rw [Numeral.valueFrom_cons]
  cases (leadingDigits b text).1 with
  | nil => rw [Numeral.valueFrom_nil, if_pos hfit, if_pos hfit]
  | cons e ds => rw [List.dropLast_cons_cons, Numeral.valueFrom_cons b v]

/-- A digit that does not fit is the last one that is read. -/
theorem readDigits_overflow {d : Nat} (hb : 0 < b)
    (hc : (charDigit c).filter (· < b) = some d) (hv : v < 2 ^ 64)
    (hover : ¬ v * b + d < 2 ^ 64) :
    readDigits b v (c :: text) = (decide (text.length = 0), BitVec.allOnes 64) := by
  have hmore : ∀ ds, ¬ Numeral.valueFrom b (v * b + d) ds < 2 ^ 64 := fun ds h =>
    hover ((Numeral.le_valueFrom hb _ ds).trans_lt h)
  rw [readDigits, leadingDigits, hc]
  dsimp only
  rw [Numeral.valueFrom_cons, if_neg (hmore _)]
  refine congrArg (·, _) (decide_eq_decide.mpr ?_)
  cases text with
  | nil => exact iff_of_true ⟨rfl, hv⟩ rfl
  | cons x text =>
    refine iff_of_false (fun h => ?_) (Nat.succ_ne_zero _)
    rw [leadingDigits] at h
    cases hx : (charDigit x).filter (· < b) with
    | none =>
      rw [hx] at h
      exact List.cons_ne_nil x text h.1
    | some e =>
      rw [hx] at h
      dsimp only at h
      rw [List.dropLast_cons_cons, Numeral.valueFrom_cons] at h
      exact hmore _ h.2

end

/-- Where the digit loop ends, and with which value. -/
theorem stringToIntegerLoop_over {base : UacpiBase} (hbase : base ≠ .auto) {bound : Nat}
    (hbound : text.length < bound) (c : Byte) (value : Word) :
    ∃ s c', stringToIntegerLoop base bound (.over text tail) c value =
        .ok (s, c', (readDigits base.code value.toNat text).2) ∧
      decide (s.size = 0 ∨ c' = 0) = (readDigits base.code value.toNat text).1 := by
  obtain ⟨hpos, hlt⟩ := UacpiBase.code_bounds hbase
  induction text generalizing bound c value with
  | nil =>
    obtain ⟨bound, rfl⟩ := Nat.exists_eq_succ_of_ne_zero (Nat.ne_of_gt hbound)
    refine ⟨.over [] tail, c, ?_, ?_⟩
    · rw [readDigits_nil value.isLt]
      simp [stringToIntegerLoop, Cursor.consumeOne]
    · rw [readDigits_nil value.isLt]
      simp
  | cons x text ih =>
    obtain ⟨bound, rfl⟩ := Nat.exists_eq_succ_of_ne_zero (Nat.ne_of_gt (Nat.zero_lt_of_lt hbound))
    have hloop : stringToIntegerLoop base (bound + 1) (.over (x :: text) tail) c value =
        match digitValue base x with
        | none => .ok (.over text tail, x, value)
        | some digit =>
          if (value * BitVec.ofNat 64 base.code + digit) / BitVec.ofNat 64 base.code ≠ value then
            .ok (.over text tail, x, 0xFFFFFFFFFFFFFFFF)
          else stringToIntegerLoop base bound (.over text tail) x
            (value * BitVec.ofNat 64 base.code + digit) := by
      rw [stringToIntegerLoop, Cursor.consumeOne, peekOne_cons, ok_bind]
      rfl
    rw [hloop, digitValue_eq hbase]
    cases hdigit : (charDigit x).filter (· < base.code) with
    | none =>
      rw [readDigits_stop hdigit value.isLt]
      exact ⟨.over text tail, x, by simp, rfl⟩
    | some d =>
      obtain ⟨hchar, hd⟩ := Option.filter_eq_some_iff.mp hdigit
      obtain ⟨hsum, hdiv⟩ := accumulate_digit hpos hlt (of_decide_eq_true hd) value
      dsimp only [Option.map_some]
      by_cases hfit : value.toNat * base.code + d < 2 ^ 64
      · rw [if_neg (not_not_intro (hdiv.mpr hfit)), readDigits_digit hdigit hfit, hsum hfit]
        have hrest := ih (Nat.lt_of_succ_lt_succ hbound) x
          (BitVec.ofNat 64 (value.toNat * base.code + d))
        rwa [BitVec.toNat_ofNat, Nat.mod_eq_of_lt hfit] at hrest
      · rw [if_pos fun h => hfit (hdiv.mp h), readDigits_overflow hpos hdigit value.isLt hfit]
        refine ⟨.over text tail, x, rfl, decide_eq_decide.mpr ?_⟩
        rw [or_iff_left (ne_zero_of_charDigit hchar)]
        exact Iff.rfl

end

/-! ## The function -/

/-- A base has been chosen. -/
theorem splitBase_ne_auto (text : List Byte) : (splitBase text).1 ≠ .auto := by
  rw [splitBase.eq_def]
  split <;> exact nofun

/-- **`uacpi_string_to_integer` reads integers.** On every text of `max_chars` characters,
whatever lies behind it, the function reads nothing else and returns the status and the value
of the text. -/
theorem stringToInteger_reads (base : UacpiBase) (text tail : List Byte) :
    stringToInteger (text ++ tail) text.length base = .ok (readInteger base text) := by
  rw [stringToInteger, readInteger]
  have hspaces := @consumeSpaces_over text tail _ (Nat.lt_succ_self text.length)
  rw [Cursor.over] at hspaces
  rw [hspaces, ok_bind]
  dsimp only
  rw [consumeSign_over, ok_bind]
  dsimp only
  generalize splitSign _ = signed
  obtain ⟨negative, body⟩ := signed
  dsimp only
  have hdigits : ∀ {base : UacpiBase}, base ≠ .auto → ∀ body : List Byte,
      (do
        let (s, c, value) ←
          stringToIntegerLoop base ((Cursor.over body tail).size + 1) (.over body tail) 0 0
        return (if s.size = 0 ∨ c = 0 then .ok else .invalidArgument,
          if negative then -value else value) : Exec (UacpiStatus × Word)) =
        .ok (if (readDigits base.code 0 body).1 then .ok else .invalidArgument,
          if negative then -(readDigits base.code 0 body).2
          else (readDigits base.code 0 body).2) := by
    intro base hbase body
    obtain ⟨s, c, hloop, hstop⟩ :=
      @stringToIntegerLoop_over body tail base hbase _ (Nat.lt_succ_self body.length) 0 0
    have hzero : (0 : Word).toNat = 0 := rfl
    rw [hzero] at hloop hstop
    rw [size_over, hloop, ok_bind, ← hstop]
    simp
  by_cases hauto : base = .auto
  · rw [if_pos hauto, if_pos hauto, consumeBase_over, ok_bind]
    exact hdigits (splitBase_ne_auto body) (splitBase body).2
  · rw [if_neg hauto, if_neg hauto, pure_eq_ok, ok_bind]
    exact hdigits hauto body

/-! ## Reading back what is printed -/

/-- Digits in a row are a number. -/
theorem readDigits_map {b : Nat} {char : Nat → Byte} {ds : List Nat}
    (hds : ∀ d ∈ ds, d < b ∧ charDigit (char d) = some d)
    (hfit : Numeral.value b ds < 2 ^ 64) :
    readDigits b 0 (ds.map char) = (true, BitVec.ofNat 64 (Numeral.value b ds)) := by
  have hleading : leadingDigits b (ds.map char) = (ds, []) := by
    clear hfit
    induction ds with
    | nil => rfl
    | cons d ds ih =>
      obtain ⟨hd, hchar⟩ := hds d List.mem_cons_self
      have hfilter : (some d).filter (· < b) = some d :=
        Option.filter_eq_some_iff.mpr ⟨rfl, decide_eq_true hd⟩
      rw [List.map_cons, leadingDigits, hchar, hfilter,
        ih fun e he => hds e (List.mem_cons_of_mem d he)]
  rw [readDigits, hleading]
  dsimp only
  rw [← Numeral.value_eq_valueFrom, if_pos hfit]
  rfl

theorem charDigit_decDigit {d : Nat} (hd : d < 10) : charDigit (decDigit d) = some d := by
  revert d
  decide

theorem charDigit_hexDigit {d : Nat} (hd : d < 16) : charDigit (hexDigit d) = some d := by
  revert d
  decide

/-- The characters that `uacpi_string_to_integer` skips or takes for a sign are no digits. -/
theorem digit_not_skipped {c : Byte} (h : 48 ≤ c.toNat ∧ c.toNat ≤ 57) :
    ¬ IsSpace c ∧ c ≠ 45 ∧ c ≠ 43 := by
  have hall : ∀ c : Byte, 48 ≤ c.toNat ∧ c.toNat ≤ 57 → ¬ IsSpace c ∧ c ≠ 45 ∧ c ≠ 43 := by
    decide +kernel
  exact hall c h

theorem splitSign_of_ne {c : Byte} (h45 : c ≠ 45) (h43 : c ≠ 43) (text : List Byte) :
    splitSign (c :: text) = (false, c :: text) := by
  rw [splitSign]
  · exact fun _ h => h45 (List.cons.inj h).1
  · exact fun _ h => h43 (List.cons.inj h).1

theorem splitBase_of_ne {c : Byte} (h48 : c ≠ 48) (text : List Byte) :
    splitBase (c :: text) = (.dec, c :: text) := by
  rw [splitBase.eq_4]
  · exact fun _ h => h48 (List.cons.inj h).1
  · exact fun _ h => h48 (List.cons.inj h).1
  · exact fun _ h => h48 (List.cons.inj h).1

/-- The value of a canonical text, with the base detected or given. -/
theorem readDigits_encodes {base : UacpiBase} (hbase : base = .dec ∨ base = .auto)
    {text : List Byte} {n : Nat} (h : EncodesNat text n) (hn : n < 2 ^ 64) :
    readDigits (if base = .auto then splitBase text else (base, text)).1.code 0
      (if base = .auto then splitBase text else (base, text)).2 = (true, BitVec.ofNat 64 n) := by
  obtain ⟨ds, rfl, hcanonical, rfl⟩ := h.exists_digits
  have hdec : readDigits UacpiBase.dec.code 0 (ds.map decDigit) =
      (true, BitVec.ofNat 64 (Numeral.value 10 ds)) :=
    readDigits_map
      (fun d hd => ⟨hcanonical.lt d hd, charDigit_decDigit (hcanonical.lt d hd)⟩) hn
  rcases hbase with rfl | rfl
  · exact hdec
  · rw [if_pos rfl]
    by_cases hzero : ds.head? = some 0
    · -- a single zero is taken for the prefix of base 8
      rw [hcanonical.leading hzero]
      rfl
    · cases ds with
      | nil => exact absurd rfl hcanonical.nonempty
      | cons d ds =>
        have hd := hcanonical.lt d List.mem_cons_self
        have hne : decDigit d ≠ 48 := by
          intro heq
          have hnat := congrArg BitVec.toNat heq
          rw [decDigit_toNat hd] at hnat
          exact hzero (congrArg some (Nat.add_left_cancel (hnat : 48 + d = 48 + 0)))
        rw [List.map_cons, splitBase_of_ne hne]
        exact hdec

/-- The digits of a canonical text are those of the magnitude. -/
theorem EncodesInt.exists_nat {text : List Byte} {v : Int} (h : EncodesInt text v) :
    EncodesNat (unsigned text) v.natAbs ∧
      text = if v < 0 then 45 :: unsigned text else unsigned text := by
  have hsign := h.sign
  by_cases hneg : v < 0
  · have hhead := hsign.mpr hneg
    have hparse := h.parses
    rw [parseInt, if_pos hhead] at hparse
    obtain ⟨_, hcast, rfl⟩ := Option.map_eq_some_iff.mp hparse
    obtain ⟨n, hn, hcast⟩ := Option.bind_eq_some_iff.mp hcast
    cases hcast
    have hunsigned : unsigned text = text.tail := if_pos hhead
    refine ⟨⟨h.digits, h.leading, ?_⟩, ?_⟩
    · rw [hunsigned, hn, Int.natAbs_neg, Int.natAbs_natCast]
    · rw [if_pos hneg, hunsigned]
      exact (List.cons_head?_tail hhead).symm
  · have hhead : ¬ text.head? = some 45 := fun hh => hneg (hsign.mp hh)
    have hparse := h.parses
    rw [parseInt, if_neg hhead] at hparse
    obtain ⟨_, hcast, rfl⟩ := Option.map_eq_some_iff.mp hparse
    obtain ⟨n, hn, hcast⟩ := Option.bind_eq_some_iff.mp hcast
    cases hcast
    have hunsigned : unsigned text = text := if_neg hhead
    refine ⟨⟨h.digits, h.leading, ?_⟩, ?_⟩
    · rw [hunsigned, hn, Int.natAbs_natCast]
    · rw [if_neg hneg, hunsigned]

/-- The parts of a text determine what it is read as. -/
theorem readInteger_of_parts {base b : UacpiBase} {text body digits : List Byte}
    {negative accepted : Bool} {value : Word}
    (hsign : splitSign (text.dropWhile (fun c => IsSpace c)) = (negative, body))
    (hbase : (if base = .auto then splitBase body else (base, body)) = (b, digits))
    (hread : readDigits b.code 0 digits = (accepted, value)) :
    readInteger base text =
      (if accepted then .ok else .invalidArgument, if negative then -value else value) := by
  rw [readInteger, hsign]
  dsimp only
  rw [hbase]
  dsimp only
  rw [hread]

/-- A canonical decimal text is read as its number, in base 10 and with the base detected. -/
theorem readInteger_encodes {base : UacpiBase} (hbase : base = .dec ∨ base = .auto)
    {text : List Byte} {v : Int} (h : EncodesInt text v) (hv : v.natAbs < 2 ^ 64) :
    readInteger base text = (.ok, BitVec.ofInt 64 v) := by
  obtain ⟨hnat, htext⟩ := h.exists_nat
  have hread := readDigits_encodes hbase hnat hv
  generalize unsigned text = body at hnat htext hread
  cases body with
  | nil => cases hnat.parses
  | cons c body =>
    obtain ⟨hspace, h45, h43⟩ := digit_not_skipped (hnat.digits c List.mem_cons_self)
    by_cases hneg : v < 0
    · have hsplit : splitSign (text.dropWhile (fun c => IsSpace c)) = (true, c :: body) := by
        rw [htext, if_pos hneg]
        rfl
      have hvalue : BitVec.ofInt 64 v = -BitVec.ofNat 64 v.natAbs := by
        rw [← BitVec.ofInt_natCast, ← BitVec.ofInt_neg, Int.ofNat_natAbs_of_nonpos hneg.le,
          Int.neg_neg]
      rw [readInteger_of_parts hsplit (Prod.mk.eta).symm hread, hvalue]
      rfl
    · have hsplit : splitSign (text.dropWhile (fun c => IsSpace c)) = (false, c :: body) := by
        rw [htext, if_neg hneg, List.dropWhile_cons_of_neg (by simpa using hspace),
          splitSign_of_ne h45 h43]
      have hvalue : BitVec.ofInt 64 v = BitVec.ofNat 64 v.natAbs := by
        rw [← BitVec.ofInt_natCast, Int.natAbs_of_nonneg (Int.not_lt.mp hneg)]
      rw [readInteger_of_parts hsplit (Prod.mk.eta).symm hread, hvalue]
      rfl

/-- The text of `serial_write_hex` is read as its value, with the base detected. -/
theorem readInteger_hexText (value : Word) : readInteger .auto (hexText value) = (.ok, value) := by
  have hdigits : hexDigitsOf 16 value.toNat = (Numeral.fixed 16 id 16 value.toNat).map hexDigit :=
    (hexDigitsOf_eq_fixed 16 value.toNat).trans (Numeral.fixed_eq_map 16 hexDigit 16 value.toNat)
  have hvalue : Numeral.value 16 (Numeral.fixed 16 id 16 value.toNat) = value.toNat :=
    (Numeral.value_fixed 16 16 value.toNat).trans (Nat.mod_eq_of_lt value.isLt)
  have hread : readDigits UacpiBase.hex.code 0 (hexDigitsOf 16 value.toNat) = (true, value) := by
    have hlt : ∀ d ∈ Numeral.fixed 16 id 16 value.toNat, d < 16 := fun d hd =>
      Numeral.fixed_lt (by decide) hd
    have hmap := readDigits_map (fun d hd => ⟨hlt d hd, charDigit_hexDigit (hlt d hd)⟩)
      (by rw [hvalue]; exact value.isLt)
    rw [hvalue, BitVec.ofNat_toNat, BitVec.setWidth_eq, ← hdigits] at hmap
    exact hmap
  rw [hexText, List.cons_append, List.cons_append, List.nil_append]
  generalize hexDigitsOf 16 value.toNat = digits at hread
  have hsplit : splitSign ((48 :: 120 :: digits).dropWhile (fun c => IsSpace c)) =
      (false, 48 :: 120 :: digits) := rfl
  have hbase : (if UacpiBase.auto = .auto then splitBase (48 :: 120 :: digits)
      else (.auto, 48 :: 120 :: digits)) = (.hex, digits) := rfl
  exact readInteger_of_parts hsplit hbase hread

/-- **Printing and reading are inverse.** What `serial_write_dec`, `serial_write_hex` and
`int_to_string` write for a number is a text that `uacpi_string_to_integer` accepts, whatever
lies behind it, and reads as that number: the decimal ones in base 10 or with the base
detected, the hexadecimal one with the base detected. -/
theorem stringToInteger_printed {base : UacpiBase} (hbase : base ≠ .oct ∧ base ≠ .hex)
    (tail : List Byte) :
    (∀ (value : Word) (out : Com1), ∃ text, serialWriteDec value out = .ok (out ++ text) ∧
      stringToInteger (text ++ tail) text.length base = .ok (.ok, value)) ∧
    (∀ (value : Word) (out : Com1), ∃ text, serialWriteHex value out = .ok (out ++ text) ∧
      stringToInteger (text ++ tail) text.length .auto = .ok (.ok, value)) ∧
    ∀ (value : BitVec 32) (buffer : Arr 21 Byte), value ≠ intMin →
      ∃ text buffer', intToString value buffer = .ok buffer' ∧
        buffer'.Holds 0 (text ++ [0]) ∧
        stringToInteger (text ++ tail) text.length base = .ok (.ok, value.signExtend 64) := by
  have hbase' : base = .dec ∨ base = .auto := by
    cases base with
    | auto => exact .inr rfl
    | oct => exact absurd rfl hbase.1
    | dec => exact .inl rfl
    | hex => exact absurd rfl hbase.2
  refine ⟨fun value out => ?_, fun value out => ?_, fun value buffer hvalue => ?_⟩
  · refine ⟨decText value.toNat, serialWriteDec_text value out, ?_⟩
    have hencodes := encodesInt_of_nonneg (decText_encodes value.toNat)
    rw [stringToInteger_reads, readInteger_encodes hbase' hencodes value.isLt,
      BitVec.ofInt_natCast, BitVec.ofNat_toNat, BitVec.setWidth_eq]
  · refine ⟨hexText value, serialWriteHex_text value out, ?_⟩
    rw [stringToInteger_reads, readInteger_hexText]
  · obtain ⟨buffer', hrun, hholds⟩ := intToString_text (by decide : 12 ≤ 21) value buffer
    refine ⟨intText value, buffer', hrun, hholds, ?_⟩
    have hfit : value.toInt.natAbs < 2 ^ 64 := by
      have hlow := BitVec.le_toInt value
      have hhigh := BitVec.toInt_lt (x := value)
      omega
    rw [stringToInteger_reads,
      readInteger_encodes hbase' ((intText_encodes_iff value).mpr hvalue) hfit,
      BitVec.signExtend]

/-- `-5` in front of an `x`, and the largest number. -/
theorem stringToInteger_printed_sample :
    (∃ text, serialWriteDec 0xFFFFFFFFFFFFFFFF [] = .ok ([] ++ text) ∧
      stringToInteger (text ++ [120]) text.length .dec = .ok (.ok, 0xFFFFFFFFFFFFFFFF)) ∧
    ∃ text buffer', intToString (-5) (Arr.const 21 0) = .ok buffer' ∧
      buffer'.Holds 0 (text ++ [0]) ∧
      stringToInteger (text ++ [120]) text.length .dec = .ok (.ok, -5) := by
  obtain ⟨hdec, -, hint⟩ := @stringToInteger_printed .dec ⟨by decide, by decide⟩ [120]
  exact ⟨hdec 0xFFFFFFFFFFFFFFFF [], hint (-5) (Arr.const 21 0) (by decide)⟩

end KptrOS
