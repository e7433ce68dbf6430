import KptrOS.Serial.Text

/-!
# Decimal texts

What `serial_write_dec` and `int_to_string` write, read back. One fills its buffer from the
end and the other reverses it in place; the texts are the same, up to the sign.

- `EncodesNat`, `EncodesInt`: the canonical decimal representation of a number, with a parser
  that reads it back. `EncodesNat.unique`: there is only one.
- `decText_encodes`: the text of `serial_write_dec`.
- `intText_encodes_iff`: the text of `int_to_string`, except for `INT_MIN`.
- `intToString_decimal_iff`, `serialWriteDec_exact`: the two functions.
-/

namespace KptrOS

open CSem

/-! ## The canonical representation -/

/-- The digit that a character stands for. -/
def decDigitOf (c : Byte) : Option Nat :=
  if 48 ≤ c.toNat ∧ c.toNat ≤ 57 then some (c.toNat - 48) else none

/-- The number that a text of digits stands for. -/
def parseNat (text : List Byte) : Option Nat := Numeral.parse 10 decDigitOf text

/-- The digits behind a sign. -/
def unsigned (text : List Byte) : List Byte :=
  if text.head? = some 45 then text.tail else text

/-- The number that a text stands for, with a `-` in front for negative ones. -/
def parseInt (text : List Byte) : Option Int :=
  if text.head? = some 45 then (parseNat text.tail).map fun n => -(n : Int)
  else (parseNat text).map fun n => (n : Int)

/-- The canonical decimal representation of `v`. -/
structure EncodesNat (text : List Byte) (v : Nat) : Prop where
  /-- There are only the characters `0` to `9`. -/
  digits : ∀ c ∈ text, 48 ≤ c.toNat ∧ c.toNat ≤ 57
  /-- A leading `0` is the only digit. -/
  leading : text.head? = some 48 → text = [48]
  /-- The text is that of `v`. -/
  parses : parseNat text = some v

/-- The canonical decimal representation of `v`, with a sign for negative numbers. -/
structure EncodesInt (text : List Byte) (v : Int) : Prop where
  /-- There is a `-` in front exactly for negative numbers. -/
  sign : text.head? = some 45 ↔ v < 0
  /-- Behind it there are only the characters `0` to `9`. -/
  digits : ∀ c ∈ unsigned text, 48 ≤ c.toNat ∧ c.toNat ≤ 57
  /-- A leading `0` is the only digit. -/
  leading : (unsigned text).head? = some 48 → unsigned text = [48]
  /-- The text is that of `v`. -/
  parses : parseInt text = some v

/-! ## Digits -/

theorem decDigit_toNat {d : Nat} (hd : d < 10) : (decDigit d).toNat = 48 + d := by
  rw [decDigit, BitVec.toNat_ofNat]
  omega

theorem decDigitOf_decDigit {d : Nat} (hd : d < 10) : decDigitOf (decDigit d) = some d := by
  rw [decDigitOf, decDigit_toNat hd, if_pos (by omega), Nat.add_sub_cancel_left]

/-- A canonical text consists of the characters of canonical digits. -/
theorem EncodesNat.exists_digits {text : List Byte} {v : Nat} (h : EncodesNat text v) :
    ∃ ds, text = ds.map decDigit ∧ Numeral.Canonical 10 ds ∧ Numeral.value 10 ds = v := by
  have hchar : ∀ c ∈ text, decDigit (c.toNat - 48) = c := by
    intro c hc
    have hdigit := h.digits c hc
    refine BitVec.eq_of_toNat_eq ?_
    rw [decDigit_toNat (by omega)]
    omega
  have htext : text = (text.map fun c => c.toNat - 48).map decDigit := by
    rw [List.map_map]
    exact (List.map_id text).symm.trans (List.map_congr_left fun c hc => (hchar c hc).symm)
  have hlt : ∀ d ∈ text.map fun c => c.toNat - 48, d < 10 := by
    intro d hd
    obtain ⟨c, hc, rfl⟩ := List.mem_map.mp hd
    have hdigit := h.digits c hc
    omega
  generalize text.map (fun c => c.toNat - 48) = ds at htext hlt
  subst htext
  have hparse := h.parses
  have hne : ds ≠ [] := by
    rintro rfl
    cases hparse
  rw [parseNat, Numeral.parse_map hne fun d hd => decDigitOf_decDigit (hlt d hd)] at hparse
  refine ⟨ds, rfl, ⟨hne, hlt, fun hhead => ?_⟩, Option.some_inj.mp hparse⟩
  have hleading := h.leading (by rw [List.head?_map, hhead]; rfl)
  obtain ⟨d, rfl⟩ := List.length_eq_one_iff.mp
    ((List.length_map decDigit).symm.trans (congrArg List.length hleading))
  obtain rfl : d = 0 := Option.some_inj.mp hhead
  rfl

/-- The characters of canonical digits are a canonical text. -/
theorem encodesNat_map {ds : List Nat} (h : Numeral.Canonical 10 ds) :
    EncodesNat (ds.map decDigit) (Numeral.value 10 ds) where
  digits := fun c hc => by
    obtain ⟨d, hd, rfl⟩ := List.mem_map.mp hc
    have hlt := h.lt d hd
    rw [decDigit_toNat hlt]
    omega
  leading := fun hhead => by
    obtain ⟨d, hd, hzero⟩ := Option.map_eq_some_iff.mp ((List.head?_map ..).symm.trans hhead)
    have hlt := h.lt d (List.mem_of_head? hd)
    have hnat := congrArg BitVec.toNat hzero
    rw [decDigit_toNat hlt] at hnat
    obtain rfl : d = 0 := Nat.add_left_cancel hnat
    rw [h.leading hd]
    rfl
  parses := Numeral.parse_map h.nonempty fun d hd => decDigitOf_decDigit (h.lt d hd)

/-- **A number has one canonical representation.** -/
theorem EncodesNat.unique {text text' : List Byte} {v : Nat} (h : EncodesNat text v)
    (h' : EncodesNat text' v) : text = text' := by
  obtain ⟨ds, rfl, hds, hv⟩ := h.exists_digits
  obtain ⟨es, rfl, hes, hv'⟩ := h'.exists_digits
  rw [hds.unique (by decide) hes (hv.trans hv'.symm)]

/-- It has no sign. -/
theorem EncodesNat.head_ne {text : List Byte} {v : Nat} (h : EncodesNat text v) :
    text.head? ≠ some 45 := by
  intro hhead
  have hdigit := h.digits 45 (List.mem_of_head? hhead)
  exact absurd hdigit.1 (by decide)

/-! ## What the loops write -/

/-- The text of `serial_write_dec`. -/
theorem decText_encodes (n : Nat) : EncodesNat (decText n) n := by
  obtain ⟨hcanonical, hvalue⟩ := Numeral.canonical_digits (b := 10) (by decide) n
  have henc := encodesNat_map hcanonical
  rw [hvalue, List.map_reverse] at henc
  exact henc

theorem encodesInt_of_nonneg {text : List Byte} {v : Nat} (h : EncodesNat text v) :
    EncodesInt text v := by
  have hunsigned : unsigned text = text := if_neg h.head_ne
  refine ⟨iff_of_false h.head_ne (Int.not_lt.mpr (Int.natCast_nonneg v)), ?_, ?_, ?_⟩
  · rw [hunsigned]
    exact h.digits
  · rw [hunsigned]
    exact h.leading
  · rw [parseInt, if_neg h.head_ne, h.parses]
    rfl

theorem encodesInt_of_neg {text : List Byte} {v : Nat} (hv : 0 < v) (h : EncodesNat text v) :
    EncodesInt (45 :: text) (-(v : Int)) := by
  refine ⟨iff_of_true rfl (by omega), h.digits, h.leading, ?_⟩
  show (parseNat text).map (fun n => -(n : Int)) = _
  rw [h.parses]
  rfl

/-- The text of a value that is not negative is that of `serial_write_dec`. -/
theorem intText_of_nonneg {value : BitVec 32} (hpos : value.slt 0 = false) :
    intText value = decText value.toNat := by
  rw [intText, hpos, if_neg Bool.false_ne_true, loopDigits_of_nonneg hpos, decText]

/-- **The text of `int_to_string` is the canonical representation, except for `INT_MIN`.** -/
theorem intText_encodes_iff (value : BitVec 32) :
    EncodesInt (intText value) value.toInt ↔ value ≠ intMin := by
  have hlt := value.isLt
  cases hneg : value.slt 0 with
  | false =>
    have hmsb : value.msb = false := BitVec.slt_zero_eq_msb.symm.trans hneg
    refine iff_of_true ?_ ?_
    · rw [intText_of_nonneg hneg, BitVec.toInt_eq_msb_cond, hmsb, if_neg Bool.false_ne_true]
      exact encodesInt_of_nonneg (decText_encodes value.toNat)
    · rintro rfl
      cases hneg
  | true =>
    have hmsb : value.msb = true := BitVec.slt_zero_eq_msb.symm.trans hneg
    have htext : intText value = 45 :: (loopDigits (-value)).reverse := by
      rw [intText, hneg, if_pos rfl]
    cases hneg' : (-value).slt 0 with
    | false =>
      refine iff_of_true ?_ ?_
      · have hnat : (-value).toNat = 2 ^ 32 - value.toNat := by
          rw [BitVec.toNat_neg, Nat.mod_eq_of_lt]
          rw [BitVec.msb_eq_decide, decide_eq_true_eq] at hmsb
          omega
        have hint : value.toInt = -((2 ^ 32 - value.toNat : Nat) : Int) := by
          rw [BitVec.toInt_eq_msb_cond, hmsb, if_pos rfl]
          omega
        rw [htext, loopDigits_of_nonneg hneg', hint, hnat]
        exact encodesInt_of_neg (by omega) (decText_encodes _)
      · rintro rfl
        cases hneg'
    | true =>
      -- the negation is `INT_MIN` again, and its only digit is no digit
      obtain rfl : value = intMin := by
        rw [← BitVec.neg_neg (x := value), neg_eq_intMin hneg hneg']
        decide
      refine iff_of_false (fun h => ?_) fun h => h rfl
      have hdigit := h.digits 40 (by decide)
      exact absurd hdigit.1 (by decide)

/-! ## The functions -/

/-- **When `int_to_string` writes the number**: for every value but `INT_MIN`, whose negation
overflows. In any buffer of at least 12 bytes it writes a terminated text of at most 12 bytes
with the terminator, and nothing behind it. -/
theorem intToString_decimal_iff {n : Nat} (hn : 12 ≤ n) (value : BitVec 32)
    (buffer : Arr n Byte) :
    ∃ text buffer', intToString value buffer = .ok buffer' ∧ text.length + 1 ≤ 12 ∧
      buffer'.Holds 0 (text ++ [0]) ∧ (∀ c ∈ text, c ≠ 0) ∧
      (∀ j, text.length + 1 ≤ j → buffer'.get j = buffer.get j) ∧
      (EncodesInt text value.toInt ↔ value ≠ intMin) := by
  obtain ⟨buffer', hrun, hholds⟩ := intToString_text hn value buffer
  obtain ⟨b, -, hlen, -⟩ := intToString_fill hn value buffer
  exact ⟨intText value, buffer', hrun, Nat.succ_le_succ hlen, hholds, intText_ne_zero,
    fun j hj => intToString_above hn hrun hj, intText_encodes_iff value⟩

/-- -305 in the buffer of `serial_printf`. -/
theorem intToString_negative :
    ∃ text buffer', intToString (-305) (Arr.const 21 0) = .ok buffer' ∧
      buffer'.Holds 0 (text ++ [0]) ∧ EncodesInt text (-305) := by
  obtain ⟨text, buffer', hrun, -, hholds, -, -, hiff⟩ :=
    intToString_decimal_iff (by decide : 12 ≤ 21) (-305) (Arr.const 21 0)
  exact ⟨text, buffer', hrun, hholds, hiff.mpr (by decide)⟩

/-- `INT_MIN` becomes `-(`. -/
theorem intToString_intMin :
    ∃ buffer', intToString intMin (Arr.const 21 0) = .ok buffer' ∧
      buffer'.Holds 0 [45, 40, 0] ∧ ¬ EncodesInt [45, 40] intMin.toInt := by
  obtain ⟨buffer', hrun, hholds⟩ :=
    intToString_text (by decide : 12 ≤ 21) intMin (Arr.const 21 0)
  refine ⟨buffer', hrun, hholds, fun h => ?_⟩
  have hdigit := h.digits 40 (by decide)
  exact absurd hdigit.1 (by decide)

/-- **`serial_write_dec` is exact**, for all 64 bits, and stays inside its buffer. For an
`int` that is not negative it emits the string that `int_to_string` leaves. -/
theorem serialWriteDec_exact :
    (∀ (value : Word) (out : Com1), ∃ text,
        serialWriteDec value out = .ok (out ++ text) ∧ EncodesNat text value.toNat) ∧
      ∀ (value : BitVec 32) {n : Nat} (buffer : Arr n Byte), 0 ≤ value.toInt → 12 ≤ n →
        ∃ text buffer', intToString value buffer = .ok buffer' ∧
          buffer'.Holds 0 (text ++ [0]) ∧ (∀ c ∈ text, c ≠ 0) ∧
          ∀ out, serialWriteDec (value.setWidth 64) out = .ok (out ++ text) := by
  refine ⟨fun value out => ⟨_, serialWriteDec_text value out, decText_encodes value.toNat⟩,
    fun value n buffer hpos hn => ?_⟩
  obtain ⟨buffer', hrun, hholds⟩ := intToString_text hn value buffer
  refine ⟨intText value, buffer', hrun, hholds, intText_ne_zero, fun out => ?_⟩
  -- both texts are the canonical representation of the same number
  have hmsb : value.msb = false := by
    by_contra h
    have hneg := BitVec.toInt_neg_of_msb_true (Bool.eq_true_of_not_eq_false h)
    omega
  have henc := decText_encodes (value.setWidth 64).toNat
  rw [BitVec.toNat_setWidth_of_le (by decide)] at henc
  have hsame : EncodesNat (intText value) value.toNat := by
    rw [intText_of_nonneg (BitVec.slt_zero_eq_msb.trans hmsb)]
    exact decText_encodes value.toNat
  rw [serialWriteDec_text, BitVec.toNat_setWidth_of_le (by decide), henc.unique hsame]

/-- The largest values of both. -/
theorem serialWriteDec_largest :
    (∃ text, serialWriteDec 0xFFFFFFFFFFFFFFFF [] = .ok text ∧
      EncodesNat text (2 ^ 64 - 1)) ∧
    ∃ text buffer', intToString 0x7FFFFFFF (Arr.const 21 0) = .ok buffer' ∧
      buffer'.Holds 0 (text ++ [0]) ∧ serialWriteDec 0x7FFFFFFF [] = .ok text := by
  obtain ⟨hexact, hsame⟩ := serialWriteDec_exact
  obtain ⟨text, hrun, henc⟩ := hexact 0xFFFFFFFFFFFFFFFF []
  obtain ⟨text', buffer', hrun', hholds, -, hwrite⟩ :=
    hsame 0x7FFFFFFF (Arr.const 21 0) (by decide) (by decide)
  exact ⟨⟨text, hrun, henc⟩, text', buffer', hrun', hholds, hwrite []⟩

end KptrOS
