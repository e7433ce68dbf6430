import Mathlib.Data.List.TakeWhile
import KptrOS.Lib.Numeral
import KptrOS.Serial.Serial

/-!
# What the formatting routines write

The digit loops fill stack buffers, upwards or downwards and in either order. Here each
of them is the text that it writes, for every value; no loop leaves its buffer, and none
reads what the buffer held before.

- `cText`, `lit`: the bytes of a buffer, or of a string literal, before the terminator.
- `hexText`, `decText`, `intText`: the texts of `serial_write_hex`, `serial_write_dec`
  and `int_to_string`.
- `hexDigitsOf_eq_fixed`: the digits of `serial_write_hex` are a numeral of fixed width.
- `serialWriteHex_text`, `serialWriteDec_text`, `intToString_text`: the routines write
  them.
-/

namespace KptrOS

open CSem

/-! ## Strings -/

/-- The bytes of a buffer before its terminator. -/
def cText (buf : CBuf) : List Byte := buf.takeWhile (· != 0)

theorem cText_cons {b : Byte} (hb : b ≠ 0) (buf : CBuf) : cText (b :: buf) = b :: cText buf :=
  List.takeWhile_cons_of_pos (bne_iff_ne.mpr hb)

theorem cText_append {bytes : List Byte} (h : ∀ b ∈ bytes, b ≠ 0) (rest : CBuf) :
    cText (bytes ++ 0 :: rest) = bytes := by
  rw [cText, List.takeWhile_append_of_pos fun b hb => bne_iff_ne.mpr (h b hb)]
  exact List.append_nil bytes

/-- `serial_write` writes the text of a terminated buffer. -/
theorem serialWrite_text {buf : CBuf} (h : 0 ∈ buf) (out : Com1) :
    serialWrite buf out = .ok (out ++ cText buf) := by
  induction buf generalizing out with
  | nil => exact absurd h List.not_mem_nil
  | cons b buf ih =>
    rw [serialWrite]
    by_cases hb : b = 0
    · subst hb
      exact congrArg Except.ok (List.append_nil out).symm
    · have hrest : 0 ∈ buf := (List.mem_cons.mp h).resolve_left (Ne.symm hb)
      rw [if_neg hb, ih hrest, outb, cText_cons hb, List.append_assoc]
      rfl

theorem zero_mem_cstr (s : String) : 0 ∈ cstr s :=
  List.mem_append_right _ List.mem_cons_self

theorem CString.zero_mem_buf (s : CString) : 0 ∈ s.buf :=
  List.mem_append_right _ List.mem_cons_self

@[simp] theorem CString.cText_buf (s : CString) : cText s.buf = s.bytes :=
  cText_append s.no_nul []

/-- The bytes of a string literal, up to its first NUL. -/
def lit (s : String) : List Byte := cText (cstr s)

theorem serialWrite_cstr (s : String) (out : Com1) :
    serialWrite (cstr s) out = .ok (out ++ lit s) :=
  serialWrite_text (zero_mem_cstr s) out

/-- The text that an array holds behind an index, up to a terminator. -/
theorem serialWrite_holds {n : Nat} {b : Arr n Byte} {i : Nat} {bytes : List Byte}
    (h : b.Holds i (bytes ++ [0])) (hbytes : ∀ x ∈ bytes, x ≠ 0) (out : Com1) :
    serialWrite ((List.ofFn b.elem).drop i) out = .ok (out ++ bytes) := by
  obtain ⟨rest, hrest⟩ := h.drop_ofFn
  have hbuf : (List.ofFn b.elem).drop i = bytes ++ 0 :: rest := by
    rw [hrest, List.append_assoc]
    rfl
  rw [hbuf, serialWrite_text (by simp), cText_append hbytes]

/-! ## Hexadecimal -/

/-- The character of a hexadecimal digit. -/
def hexDigit (d : Nat) : Byte := BitVec.ofNat 8 (if d < 10 then 48 + d else 55 + d)

/-- The lowest `n` hexadecimal digits of a number, highest first. -/
def hexDigitsOf : (n : Nat) → Nat → List Byte
  | 0, _ => []
  | n + 1, v => hexDigitsOf n (v / 16) ++ [hexDigit (v % 16)]

/-- `0x` and sixteen digits. -/
def hexText (value : Word) : List Byte := [48, 120] ++ hexDigitsOf 16 value.toNat

/-- The digit that a character stands for: `0` to `9` and `A` to `F`. -/
def hexDigitOf (c : Byte) : Option Nat :=
  if 48 ≤ c.toNat ∧ c.toNat ≤ 57 then some (c.toNat - 48)
  else if 65 ≤ c.toNat ∧ c.toNat ≤ 70 then some (c.toNat - 55)
  else none

theorem hexDigitOf_hexDigit : ∀ d, d < 16 → hexDigitOf (hexDigit d) = some d := by decide

/-- The digits of a value are a numeral of fixed width. -/
theorem hexDigitsOf_eq_fixed (n v : Nat) : hexDigitsOf n v = Numeral.fixed 16 hexDigit n v := by
  induction n generalizing v with
  | zero => rfl
  | succ n ih => rw [hexDigitsOf, Numeral.fixed, ih]

@[simp] theorem hexDigitsOf_length (n v : Nat) : (hexDigitsOf n v).length = n := by
  rw [hexDigitsOf_eq_fixed]
  exact Numeral.fixed_length 16 hexDigit n v

/-- There are digits only. -/
theorem hexDigitsOf_digits {n v : Nat} {c : Byte} (h : c ∈ hexDigitsOf n v) :
    ∃ d, d < 16 ∧ c = hexDigit d := by
  rw [hexDigitsOf_eq_fixed, Numeral.fixed_eq_map] at h
  obtain ⟨d, hd, rfl⟩ := List.mem_map.mp h
  exact ⟨d, Numeral.fixed_lt (by decide) hd, rfl⟩

theorem hexDigit_ne_zero {d : Nat} (hd : d < 16) : hexDigit d ≠ 0 := by
  revert d
  decide

theorem hexDigitsOf_ne_zero {n v : Nat} : ∀ b ∈ hexDigitsOf n v, b ≠ 0 := by
  intro b hb
  obtain ⟨d, hd, rfl⟩ := hexDigitsOf_digits hb
  exact hexDigit_ne_zero hd

/-- The digits determine the number, up to their count. -/
theorem hexDigitsOf_inj {n v w : Nat} (h : hexDigitsOf n v = hexDigitsOf n w) :
    v % 16 ^ n = w % 16 ^ n := by
  rw [hexDigitsOf_eq_fixed, hexDigitsOf_eq_fixed] at h
  exact Numeral.fixed_inj hexDigitOf_hexDigit (by decide) h

@[simp] theorem hexText_length (value : Word) : (hexText value).length = 18 := by
  rw [hexText, List.length_append, hexDigitsOf_length]
  rfl

/-- A word can be read back from its text. -/
theorem hexText_inj {v w : Word} : hexText v = hexText w ↔ v = w := by
  refine ⟨fun h => BitVec.eq_of_toNat_eq ?_, congrArg hexText⟩
  have hmod := hexDigitsOf_inj (List.append_cancel_left h)
  rwa [Nat.mod_eq_of_lt (v.isLt.trans_eq (by decide)),
    Nat.mod_eq_of_lt (w.isLt.trans_eq (by decide))] at hmod

/-- The digit that the loop looks up. -/
theorem hexDigits_get {d : Nat} (hd : d < 16) : hexDigits.get d = .ok (hexDigit d) := by
  revert d
  decide

theorem serialWriteHexLoop_ok {i : Nat} (hi : i ≤ 17) (buffer : Arr 17 Byte) (value : Word) :
    ∃ buffer', serialWriteHexLoop i buffer value = .ok buffer' ∧
      buffer'.Holds 0 (hexDigitsOf i value.toNat) ∧
      ∀ j, i ≤ j → buffer'.get j = buffer.get j := by
  induction i generalizing buffer value with
  | zero => exact ⟨buffer, rfl, Arr.holds_nil buffer 0, fun j _ => rfl⟩
  | succ i ih =>
    have hlow : (value &&& 0xF).toNat = value.toNat % 16 := by
      rw [BitVec.toNat_and]
      exact Nat.and_two_pow_sub_one_eq_mod value.toNat 4
    have hhigh : (value >>> 4).toNat = value.toNat / 16 := by
      rw [BitVec.toNat_ushiftRight, Nat.shiftRight_eq_div_pow]
    have hdigit : value.toNat % 16 < 16 := Nat.mod_lt _ (by decide)
    obtain ⟨buffer', hrun, hholds, hframe⟩ := ih (Nat.le_of_succ_le hi)
      (buffer.put i (hexDigit (value.toNat % 16))) (value >>> 4)
    rw [hhigh] at hholds
    refine ⟨buffer', ?_, Arr.holds_append.mpr ⟨hholds, ?_⟩, fun j hj => ?_⟩
    · rw [serialWriteHexLoop, hlow, hexDigits_get hdigit, ok_bind, Arr.set_of_lt _ hi, ok_bind,
        hrun]
    · refine Arr.holds_cons.mpr ⟨?_, Arr.holds_nil _ _⟩
      rw [hexDigitsOf_length, Nat.zero_add, hframe i (Nat.le_refl i), Arr.get_put_self _ hi]
    · rw [hframe j (Nat.le_of_succ_le hj), Arr.get_put_of_ne _ (Nat.ne_of_gt hj)]

/-- **`serial_write_hex` writes `hexText`.** -/
theorem serialWriteHex_text (value : Word) (out : Com1) :
    serialWriteHex value out = .ok (out ++ hexText value) := by
  obtain ⟨buffer', hrun, hholds, hframe⟩ := serialWriteHexLoop_ok (by decide : 16 ≤ 17)
    ((Arr.const 17 (0 : Byte)).put 16 0) value
  have hterm : buffer'.Holds 0 (hexDigitsOf 16 value.toNat ++ [0]) := by
    refine Arr.holds_append.mpr ⟨hholds, Arr.holds_cons.mpr ⟨?_, Arr.holds_nil _ _⟩⟩
    rw [hexDigitsOf_length, hframe _ (by decide), Nat.zero_add, Arr.get_put_self _ (by decide)]
  have hprefix : lit "0x" = [48, 120] := by decide
  rw [serialWriteHex, Arr.set_of_lt _ (by decide), ok_bind, hrun, ok_bind, serialWrite_cstr,
    ok_bind, hprefix]
  have hwrite := serialWrite_holds hterm hexDigitsOf_ne_zero (out ++ [48, 120])
  rwa [List.drop_zero, List.append_assoc] at hwrite

/-! ## Decimal -/

/-- The decimal digits of a number, lowest first; 0 has one. -/
def decDigits (n : Nat) : List Nat := if n = 0 then [0] else Nat.digits 10 n

/-- The character of a decimal digit. -/
def decDigit (d : Nat) : Byte := BitVec.ofNat 8 (48 + d)

/-- A number in decimal, highest digit first. -/
def decText (n : Nat) : List Byte := ((decDigits n).map decDigit).reverse

/-- The digits as a `do … while` loop finds them. -/
theorem decDigits_eq (n : Nat) :
    decDigits n = n % 10 :: if n / 10 = 0 then [] else decDigits (n / 10) := by
  rw [decDigits]
  by_cases hn : n = 0
  · subst hn
    rfl
  · rw [if_neg hn, Nat.digits_def' (by decide) (Nat.pos_of_ne_zero hn)]
    by_cases hlast : n / 10 = 0
    · rw [if_pos hlast, hlast, Nat.digits_zero]
    · rw [if_neg hlast, decDigits, if_neg hlast]

theorem decDigits_length_le {n k : Nat} (hk : 0 < k) (h : n < 10 ^ k) :
    (decDigits n).length ≤ k := by
  rw [decDigits]
  by_cases hn : n = 0
  · rw [if_pos hn]
    exact hk
  · rw [if_neg hn]
    exact (Nat.digits_length_le_iff (by decide) n).mpr h

theorem lt_ten_of_mem_decDigits {n d : Nat} (h : d ∈ decDigits n) : d < 10 :=
  (Numeral.canonical_digits (by decide) n).1.lt d (List.mem_reverse.mpr h)

theorem decDigit_ne_zero {d : Nat} (hd : d < 10) : decDigit d ≠ 0 := by
  revert d
  decide

theorem decText_ne_zero {n : Nat} : ∀ b ∈ decText n, b ≠ 0 := by
  intro b hb
  obtain ⟨d, hd, rfl⟩ := List.mem_map.mp (List.mem_reverse.mp hb)
  exact decDigit_ne_zero (lt_ten_of_mem_decDigits hd)

/-- The text of the remaining digits, and the digit of this iteration. -/
theorem decText_eq (n : Nat) :
    decText n = (if n / 10 = 0 then [] else decText (n / 10)) ++ [decDigit (n % 10)] := by
  rw [decText, decDigits_eq, List.map_cons, List.reverse_cons]
  by_cases hlast : n / 10 = 0
  · rw [if_pos hlast, if_pos hlast]
    rfl
  · rw [if_neg hlast, if_neg hlast]
    rfl

theorem decText_length (n : Nat) : (decText n).length = (decDigits n).length := by
  rw [decText, List.length_reverse, List.length_map]

/-- The character that an iteration of `serial_write_dec` stores. -/
theorem decDigit_umod (value : Word) :
    (48 : Byte) + (value % 10).setWidth 8 = decDigit (value.toNat % 10) := by
  refine BitVec.eq_of_toNat_eq ?_
  have h10 : (10 : Word).toNat = 10 := rfl
  have h48 : (48 : Byte).toNat = 48 := rfl
  rw [decDigit, BitVec.toNat_add, BitVec.toNat_setWidth, BitVec.toNat_umod, BitVec.toNat_ofNat,
    h10, h48]
  omega

/-- The digit loop of `serial_write_dec` fills the buffer downwards from `i`. -/
theorem serialWriteDecLoop_ok {i : Nat} (hi : i ≤ 21) (buffer : Arr 21 Byte) (value : Word)
    (hroom : (decText value.toNat).length ≤ i) :
    ∃ buffer', serialWriteDecLoop i buffer value =
        .ok (i - (decText value.toNat).length, buffer') ∧
      buffer'.Holds (i - (decText value.toNat).length) (decText value.toNat) ∧
      ∀ j, i ≤ j → buffer'.get j = buffer.get j := by
  induction i generalizing buffer value with
  | zero =>
    rw [decText_eq, List.length_append] at hroom
    exact absurd hroom (Nat.not_succ_le_zero _)
  | succ i ih =>
    have hnext : (value / 10).toNat = value.toNat / 10 := BitVec.toNat_udiv
    have hmore : value / 10 > 0 ↔ value.toNat / 10 ≠ 0 := by
      rw [gt_iff_lt, BitVec.lt_def, hnext]
      exact Nat.pos_iff_ne_zero
    have hlast : ∀ buffer' : Arr 21 Byte, (∀ j, i ≤ j → buffer'.get j =
        (buffer.put i (decDigit (value.toNat % 10))).get j) →
        buffer'.Holds i [decDigit (value.toNat % 10)] := fun buffer' hsame =>
      Arr.holds_cons.mpr ⟨by rw [hsame i (Nat.le_refl i), Arr.get_put_self _ hi],
        Arr.holds_nil _ _⟩
    rw [decText_eq] at hroom ⊢
    rw [serialWriteDecLoop, decDigit_umod, Arr.set_of_lt _ hi, ok_bind]
    by_cases hdone : value.toNat / 10 = 0
    · rw [if_neg (fun h => hmore.mp h hdone), if_pos hdone]
      refine ⟨_, rfl, hlast _ fun j _ => rfl, fun j hj => ?_⟩
      exact Arr.get_put_of_ne _ (Nat.ne_of_gt hj) _
    · rw [if_neg hdone, List.length_append, List.length_singleton, ← hnext] at hroom
      obtain ⟨buffer', hrun, hholds, hframe⟩ := ih (Nat.le_of_succ_le hi)
        (buffer.put i (decDigit (value.toNat % 10))) (value / 10) (Nat.le_of_succ_le_succ hroom)
      rw [if_pos (hmore.mpr hdone), if_neg hdone, List.length_append, List.length_singleton,
        Nat.add_sub_add_right, ← hnext]
      refine ⟨buffer', hrun, Arr.holds_append.mpr ⟨hholds, ?_⟩, fun j hj => ?_⟩
      · rw [Nat.sub_add_cancel (Nat.le_of_succ_le_succ hroom)]
        exact hlast buffer' hframe
      · rw [hframe j (Nat.le_of_succ_le hj), Arr.get_put_of_ne _ (Nat.ne_of_gt hj)]

/-- **`serial_write_dec` writes `decText`**, for all 64 bits. -/
theorem serialWriteDec_text (value : Word) (out : Com1) :
    serialWriteDec value out = .ok (out ++ decText value.toNat) := by
  have hroom : (decText value.toNat).length ≤ 20 := by
    rw [decText_length]
    exact decDigits_length_le (by decide) (value.isLt.trans (by decide))
  obtain ⟨buffer', hrun, hholds, hframe⟩ := serialWriteDecLoop_ok (by decide)
    ((Arr.const 21 (0 : Byte)).put 20 0) value hroom
  have hterm : buffer'.Holds (20 - (decText value.toNat).length)
      (decText value.toNat ++ [0]) := by
    refine Arr.holds_append.mpr ⟨hholds, Arr.holds_cons.mpr ⟨?_, Arr.holds_nil _ _⟩⟩
    rw [Nat.sub_add_cancel hroom, hframe 20 (Nat.le_refl 20), Arr.get_put_self _ (by decide)]
  rw [serialWriteDec, Arr.set_of_lt _ (by decide), ok_bind, hrun, ok_bind]
  exact serialWrite_holds hterm decText_ne_zero out

/-! ## `int_to_string` -/

/-- `INT_MIN`. -/
def intMin : BitVec 32 := BitVec.twoPow 32 31

/-- The digits that the loop of `int_to_string` finds, lowest first. The only negative
value that it meets is `INT_MIN`, which is its own negation; its remainder is -8, and its
quotient is not positive. -/
def loopDigits (value : BitVec 32) : List Byte :=
  if value.slt 0 then [40] else (decDigits value.toNat).map decDigit

/-- What `int_to_string` writes before the terminator. -/
def intText (value : BitVec 32) : List Byte :=
  if value.slt 0 then 45 :: (loopDigits (-value)).reverse else (loopDigits value).reverse

theorem loopDigits_of_nonneg {value : BitVec 32} (h : value.slt 0 = false) :
    loopDigits value = (decDigits value.toNat).map decDigit := by
  rw [loopDigits, h, if_neg Bool.false_ne_true]

theorem loopDigits_ne_zero {value : BitVec 32} : ∀ b ∈ loopDigits value, b ≠ 0 := by
  intro b hb
  rw [loopDigits] at hb
  split at hb
  · rw [List.mem_singleton.mp hb]
    decide
  · exact decText_ne_zero b (List.mem_reverse.mpr hb)

theorem loopDigits_length (value : BitVec 32) : (loopDigits value).length ≤ 10 := by
  rw [loopDigits]
  split
  · decide
  · rw [List.length_map]
    exact decDigits_length_le (by decide) (value.isLt.trans (by decide))

theorem intText_ne_zero {value : BitVec 32} : ∀ b ∈ intText value, b ≠ 0 := by
  intro b hb
  rw [intText] at hb
  split at hb
  · rcases List.mem_cons.mp hb with rfl | hb
    · decide
    · exact loopDigits_ne_zero b (List.mem_reverse.mp hb)
  · exact loopDigits_ne_zero b (List.mem_reverse.mp hb)

/-- Remainder and quotient of a value that is not negative. -/
theorem signed_ten {value : BitVec 32} (hpos : value.slt 0 = false) :
    (48 + value.srem 10).setWidth 8 = decDigit (value.toNat % 10) ∧
      (value.sdiv 10).toNat = value.toNat / 10 ∧ (value.sdiv 10).slt 0 = false ∧
      ((0#32).slt (value.sdiv 10) = true ↔ value.toNat / 10 ≠ 0) := by
  have hmsb : value.msb = false := BitVec.slt_zero_eq_msb.symm.trans hpos
  have hmsb10 : (10 : BitVec 32).msb = false := by decide
  have hrem : value.srem 10 = value % 10 := by
    rw [BitVec.srem_eq, hmsb, hmsb10]
  have hdiv : value.sdiv 10 = value / 10 := by
    rw [BitVec.sdiv_eq, hmsb, hmsb10]
    rfl
  have hquot : (value / 10).toNat = value.toNat / 10 := BitVec.toNat_udiv
  have hlt := value.isLt
  have hsmall : (value / 10).msb = false := by
    rw [BitVec.msb_eq_decide, hquot]
    exact decide_eq_false (by omega)
  rw [hrem, hdiv]
  refine ⟨BitVec.eq_of_toNat_eq ?_, hquot, BitVec.slt_zero_eq_msb.trans hsmall, ?_⟩
  · have h10 : (10 : BitVec 32).toNat = 10 := rfl
    have h48 : (48 : BitVec 32).toNat = 48 := rfl
    rw [decDigit, BitVec.toNat_setWidth, BitVec.toNat_add, BitVec.toNat_umod,
      BitVec.toNat_ofNat, h10, h48]
    omega
  · rw [BitVec.slt_eq_ult_of_msb_eq (by rw [hsmall]; rfl), BitVec.ult_eq_decide,
      decide_eq_true_eq, hquot]
    exact Nat.pos_iff_ne_zero

/-- What a store leaves, in a buffer that has not changed up to it since. -/
theorem get_of_put_prefix {n i : Nat} (hi : i < n) {buffer buffer' : Arr n Byte} {x : Byte}
    (hsame : ∀ j, j < i + 1 → buffer'.get j = (buffer.put i x).get j) :
    buffer'.get i = .ok x ∧ ∀ j, j < i → buffer'.get j = buffer.get j := by
  refine ⟨?_, fun j hj => ?_⟩
  · rw [hsame i (Nat.lt_succ_self i), Arr.get_put_self _ hi]
  · rw [hsame j (Nat.lt_succ_of_lt hj), Arr.get_put_of_ne _ (Nat.ne_of_lt hj)]

/-- The digit loop of `int_to_string` fills the buffer upwards from `i`. -/
theorem intToStringDigits_ok {n room i : Nat} (hn : i + room = n) (buffer : Arr n Byte)
    {value : BitVec 32} (hmin : value.slt 0 = true → value = intMin)
    (hroom : (loopDigits value).length ≤ room) :
    ∃ buffer', intToStringDigits room i buffer value =
        .ok (i + (loopDigits value).length, buffer') ∧
      buffer'.Holds i (loopDigits value) ∧
      ∀ j, j < i → buffer'.get j = buffer.get j := by
  induction room generalizing i buffer value with
  | zero =>
    have hne : 0 < (loopDigits value).length := by
      rw [loopDigits, decDigits_eq]
      split
      · decide
      · exact Nat.succ_pos _
    exact absurd hroom (Nat.not_le.mpr hne)
  | succ room ih =>
    have hi : i < n := by omega
    rw [intToStringDigits, Arr.set_of_lt _ hi, ok_bind]
    cases hneg : value.slt 0 with
    | true =>
      have hdigits : loopDigits value = [40] := if_pos hneg
      obtain rfl := hmin hneg
      rw [if_neg (by decide), hdigits]
      obtain ⟨hget, hframe⟩ := get_of_put_prefix hi fun j _ => rfl
      exact ⟨_, rfl, Arr.holds_cons.mpr ⟨hget, Arr.holds_nil _ _⟩, hframe⟩
    | false =>
      obtain ⟨hdigit, hquot, hpos, hmore⟩ := signed_ten hneg
      have hdigits : loopDigits value = decDigit (value.toNat % 10) ::
          if value.toNat / 10 = 0 then [] else loopDigits (value.sdiv 10) := by
        rw [loopDigits_of_nonneg hneg, loopDigits_of_nonneg hpos, decDigits_eq, List.map_cons,
          hquot]
        by_cases hdone : value.toNat / 10 = 0
        · rw [if_pos hdone, if_pos hdone, List.map_nil]
        · rw [if_neg hdone, if_neg hdone]
      rw [hdigits] at hroom ⊢
      rw [hdigit]
      by_cases hdone : value.toNat / 10 = 0
      · rw [if_neg (fun h => hmore.mp h hdone), if_pos hdone]
        obtain ⟨hget, hframe⟩ := get_of_put_prefix hi fun j _ => rfl
        exact ⟨_, rfl, Arr.holds_cons.mpr ⟨hget, Arr.holds_nil _ _⟩, hframe⟩
      · rw [if_neg hdone] at hroom ⊢
        rw [if_pos (hmore.mpr hdone)]
        obtain ⟨buffer', hrun, hholds, hsame⟩ := ih (i := i + 1) (by omega)
          (buffer.put i (decDigit (value.toNat % 10)))
          (fun h => absurd h (by rw [hpos]; decide)) (Nat.le_of_succ_le_succ hroom)
        obtain ⟨hget, hframe⟩ := get_of_put_prefix hi hsame
        refine ⟨buffer', ?_, Arr.holds_cons.mpr ⟨hget, hholds⟩, hframe⟩
        rw [hrun, List.length_cons, Nat.add_assoc, Nat.add_comm 1]

/-- It writes nothing behind the index that it returns. -/
theorem intToStringDigits_above {n room i i' : Nat} {buffer buffer' : Arr n Byte}
    {value : BitVec 32} (h : intToStringDigits room i buffer value = .ok (i', buffer')) :
    i < i' ∧ ∀ j, i' ≤ j → buffer'.get j = buffer.get j := by
  induction room generalizing i buffer value with
  | zero => cases h
  | succ room ih =>
    rw [intToStringDigits, Arr.set] at h
    by_cases hi : i < n
    · rw [if_pos hi, ok_bind] at h
      by_cases hmore : (0#32).slt (value.sdiv 10)
      · rw [if_pos hmore] at h
        obtain ⟨hlt, hframe⟩ := ih h
        refine ⟨by omega, fun j hj => ?_⟩
        rw [hframe j hj, Arr.get_put_of_ne _ (by omega)]
      · rw [if_neg hmore] at h
        cases h
        exact ⟨Nat.lt_succ_self i, fun j hj => Arr.get_put_of_ne _ (Nat.ne_of_gt hj) _⟩
    · rw [if_neg hi] at h
      cases h

/-- Swapping from both ends reverses the first `len` elements: after `k` swaps the outer
`k` elements on either side have changed places. -/
theorem intToStringSwap_loop {n len : Nat} (hlen : len ≤ n) (buffer : Arr n Byte) :
    ∃ buffer', forRange (intToStringSwap len) (len / 2) 0 buffer = .ok buffer' ∧
      ∀ m, buffer'.get m = if m < len then buffer.get (len - 1 - m) else buffer.get m := by
  have hstart : ∀ m, buffer.get m =
      if m < len ∧ (m < 0 ∨ len - 0 ≤ m) then buffer.get (len - 1 - m) else buffer.get m := by
    intro m
    rw [if_neg (by omega)]
  have hstep : ∀ k (b : Arr n Byte), k < len / 2 →
      (∀ m, b.get m = if m < len ∧ (m < k ∨ len - k ≤ m) then buffer.get (len - 1 - m)
        else buffer.get m) →
      ∃ b', intToStringSwap len k b = .ok b' ∧
        ∀ m, b'.get m = if m < len ∧ (m < k + 1 ∨ len - (k + 1) ≤ m) then
          buffer.get (len - 1 - m) else buffer.get m := by
    intro k b hk hI
    have hkn : k < n := by omega
    have hjn : len - k - 1 < n := by omega
    have hleft : b.get k = .ok (buffer.elem ⟨k, hkn⟩) := by
      rw [hI k, if_neg (by omega), Arr.get_of_lt _ hkn]
    have hright : b.get (len - k - 1) = .ok (buffer.elem ⟨len - k - 1, hjn⟩) := by
      rw [hI, if_neg (by omega), Arr.get_of_lt _ hjn]
    refine ⟨_, by rw [intToStringSwap, hleft, ok_bind, hright, ok_bind, Arr.set_of_lt _ hkn,
      ok_bind, Arr.set_of_lt _ hjn], fun m => ?_⟩
    by_cases hmj : m = len - k - 1
    · have hmir : len - 1 - m = k := by omega
      rw [hmj, Arr.get_put_self _ hjn, if_pos (by omega), ← hmj, hmir, Arr.get_of_lt _ hkn]
    · rw [Arr.get_put_of_ne _ hmj]
      by_cases hmk : m = k
      · have hmir : len - 1 - k = len - k - 1 := by omega
        rw [hmk, Arr.get_put_self _ hkn, if_pos (by omega), hmir, Arr.get_of_lt _ hjn]
      · rw [Arr.get_put_of_ne _ hmk, hI m]
        exact if_congr (by omega) rfl rfl
  obtain ⟨buffer', hrun, hI⟩ := forRange_zero_inv _ hstart hstep
  refine ⟨buffer', hrun, fun m => ?_⟩
  rw [hI m]
  by_cases hm : m < len
  · by_cases hout : m < len / 2 ∨ len - len / 2 ≤ m
    · rw [if_pos ⟨hm, hout⟩, if_pos hm]
    · -- the middle of a text of odd length is its own mirror image
      have hmid : len - 1 - m = m := by omega
      rw [if_neg (fun h => hout h.2), if_pos hm, hmid]
  · rw [if_neg (fun h => hm h.1), if_neg hm]

/-- The first elements of an array, reversed. -/
theorem holds_reverse {n : Nat} {b b' : Arr n Byte} {xs : List Byte} (h : b.Holds 0 xs)
    (hrev : ∀ m, m < xs.length → b'.get m = b.get (xs.length - 1 - m)) :
    b'.Holds 0 xs.reverse := by
  intro m x hm
  obtain ⟨hlt, hx⟩ := List.getElem?_eq_some_iff.mp hm
  rw [List.length_reverse] at hlt
  rw [List.getElem_reverse] at hx
  have hmir : xs.length - 1 - m < xs.length := by omega
  have hget := h.get_eq hmir
  rw [Nat.zero_add] at hget ⊢
  rw [hrev m hlt, hget, hx]

/-- The only negative value whose negation is negative. -/
theorem neg_eq_intMin {value : BitVec 32} (hneg : value.slt 0 = true)
    (hneg' : (-value).slt 0 = true) : -value = intMin := by
  have hmsb : value.msb = true := BitVec.slt_zero_eq_msb.symm.trans hneg
  have hmsb' : (-value).msb = true := BitVec.slt_zero_eq_msb.symm.trans hneg'
  rw [BitVec.msb_eq_decide, decide_eq_true_eq] at hmsb hmsb'
  rw [BitVec.toNat_neg] at hmsb'
  refine BitVec.eq_of_toNat_eq ?_
  rw [BitVec.toNat_neg, intMin, BitVec.toNat_twoPow]
  have := value.isLt
  omega

/-- The digits, and the sign if there is one, in the order in which they are found. What is
left of `int_to_string` is the terminator and the swaps. -/
theorem intToString_fill {n : Nat} (hn : 12 ≤ n) (value : BitVec 32) (buffer : Arr n Byte) :
    ∃ b : Arr n Byte, b.Holds 0 ((intText value).reverse) ∧ (intText value).length ≤ 11 ∧
      (∀ j, (intText value).length ≤ j → b.get j = buffer.get j) ∧
      intToString value buffer = (b.set (intText value).length 0 >>= fun b =>
        forRange (intToStringSwap (intText value).length) ((intText value).length / 2) 0 b) := by
  cases hneg : value.slt 0 with
  | false =>
    have htext : intText value = (loopDigits value).reverse := by
      rw [intText, hneg, if_neg Bool.false_ne_true]
    have hlen := loopDigits_length value
    obtain ⟨b, hrun, hholds, -⟩ := intToStringDigits_ok (Nat.zero_add n) buffer
      (fun h => absurd (hneg.symm.trans h) Bool.false_ne_true) (hlen.trans (by omega))
    rw [Nat.zero_add] at hrun
    rw [htext, List.reverse_reverse, List.length_reverse]
    refine ⟨b, hholds, hlen.trans (by decide), (intToStringDigits_above hrun).2, ?_⟩
    rw [intToString, hneg, if_neg Bool.false_ne_true, hrun]
    rfl
  | true =>
    have htext : intText value = 45 :: (loopDigits (-value)).reverse := by
      rw [intText, hneg, if_pos rfl]
    have hlen := loopDigits_length (-value)
    obtain ⟨b, hrun, hholds, -⟩ := intToStringDigits_ok (Nat.zero_add n) buffer
      (neg_eq_intMin hneg) (hlen.trans (by omega))
    rw [Nat.zero_add] at hrun
    have hroom : (loopDigits (-value)).length < n := by omega
    rw [htext, List.reverse_cons, List.reverse_reverse, List.length_cons, List.length_reverse]
    -- the sign goes behind the last digit
    refine ⟨b.put (loopDigits (-value)).length 45, ?_, by omega, fun j hj => ?_, ?_⟩
    · refine Arr.holds_append.mpr ⟨hholds.congr fun j _ hj => ?_,
        Arr.holds_cons.mpr ⟨?_, Arr.holds_nil _ _⟩⟩
      · exact Arr.get_put_of_ne _ (by omega) _
      · rw [Nat.zero_add]
        exact Arr.get_put_self _ hroom _
    · rw [Arr.get_put_of_ne _ (by omega), (intToStringDigits_above hrun).2 j (by omega)]
    · simp only [intToString, hneg, ↓reduceIte, hrun, ok_bind, Arr.set_of_lt _ hroom, pure_eq_ok]

/-- **`int_to_string`** writes `intText` and a terminator, for every value and whatever the
buffer held before. -/
theorem intToString_text {n : Nat} (hn : 12 ≤ n) (value : BitVec 32) (buffer : Arr n Byte) :
    ∃ buffer', intToString value buffer = .ok buffer' ∧
      buffer'.Holds 0 (intText value ++ [0]) := by
  obtain ⟨b, hholds, hlen, -, hrun⟩ := intToString_fill hn value buffer
  have hlt : (intText value).length < n := by omega
  obtain ⟨b', hswap, hget⟩ := intToStringSwap_loop hlt.le (b.put (intText value).length 0)
  refine ⟨b', ?_, Arr.holds_append.mpr ⟨?_, Arr.holds_cons.mpr ⟨?_, Arr.holds_nil _ _⟩⟩⟩
  · rw [hrun, Arr.set_of_lt _ hlt, ok_bind, hswap]
  · rw [← List.reverse_reverse (intText value)]
    refine holds_reverse hholds fun m hm => ?_
    rw [List.length_reverse] at hm ⊢
    rw [hget m, if_pos hm, Arr.get_put_of_ne _ (by omega)]
  · rw [Nat.zero_add, hget, if_neg (Nat.lt_irrefl _), Arr.get_put_self _ hlt]

/-- It writes nothing behind the terminator. -/
theorem intToString_above {n : Nat} (hn : 12 ≤ n) {value : BitVec 32} {buffer buffer' : Arr n Byte}
    (h : intToString value buffer = .ok buffer') {j : Nat} (hj : (intText value).length < j) :
    buffer'.get j = buffer.get j := by
  obtain ⟨b, -, hlen, hframe, hrun⟩ := intToString_fill hn value buffer
  have hlt : (intText value).length < n := by omega
  obtain ⟨b', hswap, hget⟩ := intToStringSwap_loop hlt.le (b.put (intText value).length 0)
  rw [hrun, Arr.set_of_lt _ hlt, ok_bind, hswap] at h
  cases h
  rw [hget j, if_neg (Nat.not_lt.mpr hj.le), Arr.get_put_of_ne _ (Nat.ne_of_gt hj),
    hframe j hj.le]

/-- A `%d` writes the text of its argument. -/
theorem serialWrite_intToString {n : Nat} (hn : 12 ≤ n) (value : BitVec 32)
    (buffer : Arr n Byte) (out : Com1) :
    (intToString value buffer >>= fun b => serialWrite (List.ofFn b.elem) out) =
      .ok (out ++ intText value) := by
  obtain ⟨b, hrun, hholds⟩ := intToString_text hn value buffer
  rw [hrun, ok_bind]
  exact serialWrite_holds hholds intText_ne_zero out

end KptrOS
