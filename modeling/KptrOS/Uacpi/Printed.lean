import KptrOS.Uacpi.Rendering

/-!
# Messages and numbers

What becomes of a format behind `uacpi_vsnprintf`.

- `loggedText`: a message as `uacpi_log` passes it on; `uacpiLog_text`: it reaches the
  serial port behind the prefix of its level, cut off if it is too long.
- `zeroPadded`: the directives for integers that are padded with zeros.
  `vsnprintf_read_back`: `uacpi_string_to_integer` reads back what they print.
-/

namespace KptrOS

open CSem

/-! ## Logging -/

/-- Only what is in front of the first NUL matters. -/
theorem cText_terminated (bytes rest : List Byte) : cText (bytes ++ 0 :: rest) = cText bytes := by
  induction bytes with
  | nil => rfl
  | cons c bytes ih =>
    by_cases hc : c = 0
    · rw [hc]
      rfl
    · rw [List.cons_append, cText_cons hc, cText_cons hc, ih]

/-- A message that does not fit into the 128 bytes ends in `...` and a line feed. -/
def loggedText (text : List Byte) : List Byte :=
  if text.length < 128 then text else text.take 123 ++ [46, 46, 46, 10]

/-- The end of a message is replaced, in front of its terminator. -/
theorem cutOff_holds {text : List Byte} {buf : Arr 128 Byte} (hlen : 128 ≤ text.length)
    (h : buf.Holds 0 (text.take 127 ++ [0])) :
    ∃ buf', cutOff buf = .ok buf' ∧ buf'.Holds 0 (loggedText text ++ [0]) := by
  have hlength : (text.take 123).length = 123 := by
    rw [List.length_take]
    omega
  have hterm : buf.Holds 127 [0] := by
    have hlast := (Arr.holds_append.mp h).2
    rwa [List.length_take, Nat.min_eq_left (by omega), Nat.zero_add] at hlast
  have hfront : buf.Holds 0 (text.take 123) := by
    have htake := (Arr.holds_append.mp h).1.take 123
    rwa [List.take_take] at htake
  obtain ⟨buf', hrun, hdots, hframe⟩ :=
    copyInto_ok (i := 123) [46, 46, 46, 10] buf (by decide)
  refine ⟨buf', hrun, ?_⟩
  rw [loggedText, if_neg (Nat.not_lt.mpr hlen), List.append_assoc]
  refine Arr.holds_append.mpr ⟨hfront.congr fun j _ hj => hframe j (.inl (by omega)), ?_⟩
  rw [hlength]
  exact Arr.holds_append.mpr ⟨hdots, hterm.congr fun j hj _ => hframe j (.inr hj)⟩

/-- **A message reaches the serial port**, behind the prefix of its level: as a whole if it
is shorter than the buffer of `uacpi_log`, and otherwise with `...` and a line feed in place of
its end. Nothing but the serial output changes. -/
theorem uacpiLog_text {pieces : List Piece} (hpieces : ∀ piece ∈ pieces, piece.WellFormed)
    {args : List Arg} {text : List Byte} (htext : renderPieces pieces args = some text)
    (hlen : text.length < 2 ^ 31) (lvl : UacpiLogLevel) (tail : List Byte) (k : Kernel) :
    uacpiLog lvl (spelled pieces ++ 0 :: tail) args k =
      .ok { k with serial := k.serial ++ (uacpiLogPrefix lvl ++ cText (loggedText text)) } := by
  obtain ⟨buf, hrun, hholds⟩ := uacpiVsnprintf_holds hpieces htext (hlen.trans (by decide))
    (Arr.const 128 0) tail
  have hret : (BitVec.ofNat 32 text.length).toInt = text.length := by
    have hnat : (BitVec.ofNat 32 text.length).toNat = text.length := by
      rw [BitVec.toNat_ofNat, Nat.mod_eq_of_lt (hlen.trans (by decide))]
    rw [BitVec.toInt_eq_toNat_of_lt (by omega), hnat]
  have hpos : (BitVec.ofNat 32 text.length).slt 0 = false := by
    rw [BitVec.slt, hret]
    exact decide_eq_false (by simp)
  have hlong : (128#32).sle (BitVec.ofNat 32 text.length) = decide (128 ≤ text.length) := by
    rw [BitVec.sle, hret]
    exact decide_eq_decide.mpr Int.ofNat_le
  have hbuf : ∃ buf', (if (128#32).sle (BitVec.ofNat 32 text.length) then cutOff buf
      else pure buf) = .ok buf' ∧ buf'.Holds 0 (loggedText text ++ [0]) := by
    rw [hlong]
    by_cases hfits : text.length < 128
    · rw [if_neg (by simpa using hfits), loggedText, if_pos hfits]
      have hwhole := hholds (by decide)
      rw [List.take_of_length_le (by omega)] at hwhole
      exact ⟨buf, rfl, hwhole⟩
    · rw [if_pos (decide_eq_true (Nat.le_of_not_lt hfits))]
      exact cutOff_holds (Nat.le_of_not_lt hfits) (hholds (by decide))
  obtain ⟨buf', hcut, hholds'⟩ := hbuf
  obtain ⟨rest, hrest⟩ := hholds'.drop_ofFn
  rw [List.drop_zero, List.append_assoc, List.singleton_append] at hrest
  rw [uacpiLog, hrun, ok_bind]
  dsimp only
  rw [hpos, if_neg Bool.false_ne_true, ite_seq, hcut, ok_bind, hrest,
    uacpiKernelLog_text lvl (List.mem_append_right _ List.mem_cons_self), cText_terminated]

/-! ## Reading back -/

/-- The base of a specifier. -/
def IntegerSpecifier.base : IntegerSpecifier → UacpiBase
  | .d | .i | .u => .dec
  | .o => .oct
  | .x | .upperX => .hex

/-- `%0…`, with or without a width, and with `+` in front of numbers that are not negative. -/
def zeroPadded (plus : Bool) (width : Option Word) (modifier : LengthModifier)
    (specifier : IntegerSpecifier) : Directive where
  flags := if plus then [48, 43] else [48]
  width := width.map .number
  precision := none
  conv := .integer modifier specifier

theorem charDigit_digitChar : ∀ uppercase d, d < 16 → charDigit (digitChar uppercase d) = some d := by
  decide

/-- Zeros in front do not change a number. -/
theorem value_zeros (b count : Nat) (ds : List Nat) :
    Numeral.value b (List.replicate count 0 ++ ds) = Numeral.value b ds := by
  induction count with
  | zero => rfl
  | succ count ih =>
    rw [← ih, List.replicate_succ, List.cons_append]
    show List.foldl _ (0 * b + 0) _ = _
    rw [Nat.zero_mul]
    rfl

/-- A number behind zeros. -/
def zerosAndNumeral (base : UacpiBase) (uppercase : Bool) (count : Nat) (value : Word) :
    List Byte :=
  List.replicate count 48 ++ numeralText base.code uppercase value.toNat

section

variable {base : UacpiBase} (hbase : base ≠ .auto) (uppercase : Bool) (count : Nat) (value : Word)

include hbase

/-- It consists of the characters of digits, which stand for the number. -/
theorem zerosAndNumeral_digits :
    ∃ ds, zerosAndNumeral base uppercase count value = ds.map (digitChar uppercase) ∧
      (∀ d ∈ ds, d < base.code ∧ charDigit (digitChar uppercase d) = some d) ∧
      Numeral.value base.code ds = value.toNat := by
  have hb : 1 < base.code ∧ base.code ≤ 16 := by
    cases base with
    | auto => exact absurd rfl hbase
    | oct => exact ⟨by decide, by decide⟩
    | dec => exact ⟨by decide, by decide⟩
    | hex => exact ⟨by decide, by decide⟩
  obtain ⟨hcanonical, hvalue⟩ := Numeral.canonical_digits hb.1 value.toNat
  have hzero : digitChar uppercase 0 = 48 := by cases uppercase <;> rfl
  refine ⟨List.replicate count 0 ++ numeralDigits base.code value.toNat, ?_, fun d hd => ?_,
    (value_zeros base.code count _).trans hvalue⟩
  · rw [List.map_append, List.map_replicate, hzero]
    rfl
  · have hlt : d < base.code := by
      rcases List.mem_append.mp hd with hd | hd
      · rw [List.eq_of_mem_replicate hd]
        omega
      · exact hcanonical.lt d hd
    exact ⟨hlt, charDigit_digitChar uppercase d (by omega)⟩

theorem readDigits_zerosAndNumeral :
    readDigits base.code 0 (zerosAndNumeral base uppercase count value) = (true, value) := by
  obtain ⟨ds, htext, hdigits, hvalue⟩ := zerosAndNumeral_digits hbase uppercase count value
  have hread := readDigits_map hdigits (by rw [hvalue]; exact value.isLt)
  rwa [hvalue, ← htext, BitVec.ofNat_toNat, BitVec.setWidth_eq] at hread

/-- It begins with a digit, which is neither skipped nor taken for a sign. -/
theorem zerosAndNumeral_cons :
    ∃ c text, zerosAndNumeral base uppercase count value = c :: text ∧
      ¬ IsSpace c ∧ c ≠ 45 ∧ c ≠ 43 := by
  have hall : ∀ c : Byte, (charDigit c).isSome → ¬ IsSpace c ∧ c ≠ 45 ∧ c ≠ 43 := by
    decide +kernel
  obtain ⟨ds, htext, hdigits, -⟩ := zerosAndNumeral_digits hbase uppercase count value
  cases ds with
  | nil => exact absurd (List.append_eq_nil_iff.mp htext).2 (numeralText_ne_nil _ _ _)
  | cons d ds =>
    refine ⟨_, _, htext, hall _ ?_⟩
    rw [(hdigits d List.mem_cons_self).2]
    rfl

end

/-- An integer behind zeros is read with its sign. -/
theorem readInteger_integerText {fm : FmtSpec} {base : UacpiBase} (hbase : base ≠ .auto)
    (hcode : fm.base.toNat = base.code) (hleft : fm.leftJustify = false) (hpad : fm.padChar = 48)
    (halternate : fm.alternateForm = false) (hplus : fm.prepend = true → fm.prependChar = 43)
    (value : Word) : readInteger base (integerText fm value) = (.ok, value) := by
  have hbody : ∀ magnitude : Word, ∃ count,
      fm.padded (fm.prefixText ++ numeralText fm.base.toNat fm.uppercase magnitude.toNat) =
        zerosAndNumeral base fm.uppercase count magnitude := by
    intro magnitude
    rw [FmtSpec.prefixText, FmtSpec.padded, FmtSpec.padding, halternate, hleft, hpad, hcode]
    exact ⟨_, rfl⟩
  have hgiven : ∀ text, (if base = .auto then splitBase text else (base, text)) = (base, text) :=
    fun text => if_neg hbase
  have hskip : ∀ sign : Byte, ¬ IsSpace sign → ∀ text : List Byte,
      (sign :: text).dropWhile (fun c => IsSpace c) = sign :: text :=
    fun sign hsign text => List.dropWhile_cons_of_neg (by simpa using hsign)
  rw [integerText]
  by_cases hneg : (fm.isSigned && value.slt 0) = true
  · obtain ⟨count, htext⟩ := hbody (-value)
    rw [if_pos hneg, htext, FmtSpec.signText, hneg, Bool.or_true, if_pos rfl, if_pos rfl,
      List.singleton_append]
    have hsign : splitSign ((45 :: zerosAndNumeral base fm.uppercase count (-value)).dropWhile
        (fun c => IsSpace c)) = (true, zerosAndNumeral base fm.uppercase count (-value)) := by
      rw [hskip 45 (by decide)]
      rfl
    rw [readInteger_of_parts hsign (hgiven _)
      (readDigits_zerosAndNumeral hbase fm.uppercase count (-value)), if_pos rfl, if_pos rfl,
      BitVec.neg_neg]
  · obtain ⟨count, htext⟩ := hbody value
    have hread := readDigits_zerosAndNumeral hbase fm.uppercase count value
    rw [if_neg hneg, htext, FmtSpec.signText, Bool.eq_false_of_not_eq_true hneg, Bool.or_false]
    by_cases hprepend : fm.prepend = true
    · rw [if_pos hprepend, if_neg Bool.false_ne_true, hplus hprepend, List.singleton_append]
      have hsign : splitSign ((43 :: zerosAndNumeral base fm.uppercase count value).dropWhile
          (fun c => IsSpace c)) = (false, zerosAndNumeral base fm.uppercase count value) := by
        rw [hskip 43 (by decide)]
        rfl
      rw [readInteger_of_parts hsign (hgiven _) hread]
      rfl
    · rw [if_neg hprepend, List.nil_append]
      obtain ⟨c, text, hcons, hspace, h45, h43⟩ :=
        zerosAndNumeral_cons hbase fm.uppercase count value
      have hsign : splitSign ((zerosAndNumeral base fm.uppercase count value).dropWhile
          (fun c => IsSpace c)) = (false, zerosAndNumeral base fm.uppercase count value) := by
        rw [hcons, hskip c hspace, splitSign_of_ne h45 h43]
      rw [readInteger_of_parts hsign (hgiven _) hread]
      rfl

section

variable (plus : Bool) (width : Option Word) (modifier : LengthModifier)
  (specifier : IntegerSpecifier) (value : Word)

/-- What the flags and the width leave. -/
def zeroPaddedSpec : FmtSpec :=
  { prepend := plus, prependChar := if plus then 43 else 0, padChar := 48,
    minWidth := width.getD 0 }

theorem zeroPadded_renders :
    renderPieces [.directive (zeroPadded plus width modifier specifier)] [.word value] =
      some (integerText (specifier.spec (zeroPaddedSpec plus width))
        (specifier.value modifier.width value) ++ []) := by
  have hspec : (zeroPadded plus width modifier specifier).spec [.word value] =
      some (zeroPaddedSpec plus width, [.word value]) := by
    cases plus <;> cases width <;> rfl
  rw [renderPieces, hspec]
  rfl

/-- The specifier decides about the base and the case. -/
theorem IntegerSpecifier.spec_fields (specifier : IntegerSpecifier) (fm : FmtSpec) :
    (specifier.spec fm).leftJustify = fm.leftJustify ∧ (specifier.spec fm).padChar = fm.padChar ∧
      (specifier.spec fm).alternateForm = fm.alternateForm ∧
      (specifier.spec fm).prepend = fm.prepend ∧
      (specifier.spec fm).prependChar = fm.prependChar ∧
      (specifier.spec fm).minWidth = fm.minWidth := by
  cases specifier <;> exact ⟨rfl, rfl, rfl, rfl, rfl, rfl⟩

theorem zeroPadded_base :
    specifier.base ≠ .auto ∧
      (specifier.spec (zeroPaddedSpec plus width)).base.toNat = specifier.base.code := by
  cases specifier <;> exact ⟨nofun, rfl⟩

theorem zeroPadded_read :
    readInteger specifier.base (integerText (specifier.spec (zeroPaddedSpec plus width)) value) =
      (.ok, value) := by
  obtain ⟨hbase, hcode⟩ := zeroPadded_base plus width specifier
  obtain ⟨hleft, hpad, halternate, hprepend, hchar, -⟩ :=
    specifier.spec_fields (zeroPaddedSpec plus width)
  refine readInteger_integerText hbase hcode hleft hpad halternate (fun h => ?_) value
  rw [hchar]
  exact if_pos (hprepend.symm.trans h)

theorem FmtSpec.padded_length (fm : FmtSpec) (text : List Byte) :
    (fm.padded text).length = max fm.minWidth.toNat text.length := by
  have hpadding : (fm.padding text.length).length = fm.minWidth.toNat - text.length :=
    List.length_replicate
  rw [FmtSpec.padded]
  split
  · rw [List.length_append, hpadding]
    omega
  · rw [List.length_append, hpadding]
    omega

/-- The width or 22 digits, and a sign. -/
theorem zeroPadded_length :
    (integerText (specifier.spec (zeroPaddedSpec plus width)) value).length ≤
      max (width.getD 0).toNat 22 + 1 := by
  obtain ⟨-, -, halternate, -, -, hwidth⟩ := specifier.spec_fields (zeroPaddedSpec plus width)
  have hbase := (writeInt_specifier (n := 0) (show (zeroPaddedSpec plus width).base = 10 from rfl)
    specifier 0).2
  rw [integerText]
  generalize ((specifier.spec (zeroPaddedSpec plus width)).isSigned && value.slt 0) = negative
  obtain ⟨-, -, -, -, -, hdigits⟩ :=
    writeIntegerDigits_ok hbase (if negative then -value else value)
  have hsign : ((specifier.spec (zeroPaddedSpec plus width)).signText negative).length ≤ 1 := by
    rw [FmtSpec.signText]
    split
    · exact Nat.le_refl 1
    · exact Nat.zero_le 1
  have hstart : (specifier.spec (zeroPaddedSpec plus width)).prefixText = [] := by
    rw [FmtSpec.prefixText, halternate]
    exact if_neg Bool.false_ne_true
  have hw : (specifier.spec (zeroPaddedSpec plus width)).minWidth.toNat = (width.getD 0).toNat :=
    congrArg BitVec.toNat hwidth
  rw [hstart, List.nil_append, List.length_append, FmtSpec.padded_length, hw]
  omega

end

/-- **What the formatter prints is read back.** An integer of any length modifier, printed with
padding zeros or without a width into a buffer that is large enough, is read by
`uacpi_string_to_integer` in the base of its specifier as the bits that the modifier keeps. -/
theorem vsnprintf_read_back (plus : Bool) (width : Option Word)
    (hwidth : ∀ w ∈ width, w ≠ 0 ∧ w.toNat < 2 ^ 31 - 1) (modifier : LengthModifier)
    (specifier : IntegerSpecifier) (value : Word) {n : Nat} (buffer : Arr n Byte)
    (tail : List Byte) :
    ∃ len buffer', uacpiVsnprintf buffer
        (spelled [.directive (zeroPadded plus width modifier specifier)] ++ 0 :: tail)
          [.word value] = .ok (BitVec.ofNat 32 len, buffer') ∧
      len < 2 ^ 31 ∧
      (len < n → stringToInteger (List.ofFn buffer'.elem) len specifier.base =
        .ok (.ok, specifier.value modifier.width value)) := by
  have hwell : (zeroPadded plus width modifier specifier).WellFormed := by
    constructor
    · cases plus with
      | false => exact (by decide : ∀ c ∈ ([48] : List Byte), c ∈ flagChars)
      | true => exact (by decide : ∀ c ∈ ([48, 43] : List Byte), c ∈ flagChars)
    · intro h
      obtain ⟨w, hw, hzero⟩ := Option.map_eq_some_iff.mp h
      cases hzero
      exact (hwidth 0 hw).1 rfl
  have hlen := zeroPadded_length plus width specifier (specifier.value modifier.width value)
  have hwide : (width.getD 0).toNat < 2 ^ 31 - 1 := by
    cases width with
    | none => decide
    | some w => exact (hwidth w rfl).2
  have hread := zeroPadded_read plus width specifier (specifier.value modifier.width value)
  have htext := zeroPadded_renders plus width modifier specifier value
  rw [List.append_nil] at htext
  generalize integerText _ _ = text at hlen hread htext
  have hshort : text.length < 2 ^ 31 := by omega
  have hpieces : ∀ piece ∈ [Piece.directive (zeroPadded plus width modifier specifier)],
      piece.WellFormed := by
    intro piece hpiece
    rw [List.mem_singleton.mp hpiece]
    exact hwell
  obtain ⟨buffer', hrun, hholds⟩ := uacpiVsnprintf_holds hpieces htext
    (hshort.trans (by decide)) buffer tail
  refine ⟨text.length, buffer', hrun, hshort, fun hfits => ?_⟩
  have hwhole := hholds (Nat.zero_lt_of_lt hfits)
  rw [List.take_of_length_le (Nat.le_sub_one_of_lt hfits)] at hwhole
  obtain ⟨rest, hrest⟩ := hwhole.drop_ofFn
  rw [List.drop_zero, List.append_assoc] at hrest
  rw [hrest, stringToInteger_reads, hread]

/-- A length below 2³¹ is told by the `int` that is returned. -/
theorem length_of_returned {n len k : Nat} {buffer' : Arr n Byte}
    {r : Exec (BitVec 32 × Arr n Byte)} (hrun : r = .ok (BitVec.ofNat 32 len, buffer'))
    (hreturned : r.map Prod.fst = .ok (BitVec.ofNat 32 k)) (hlen : len < 2 ^ 31)
    (hk : k < 2 ^ 31) : len = k := by
  rw [hrun] at hreturned
  have hnat := congrArg BitVec.toNat (Except.ok.inj hreturned)
  rw [BitVec.toNat_ofNat, BitVec.toNat_ofNat] at hnat
  omega

/-- `%+08hhx` of -1 is a text of 9 characters, and `%lld` of the smallest number one of 20. -/
theorem vsnprintf_read_back_sample :
    (∃ buffer', uacpiVsnprintf (Arr.const 16 0)
        (spelled [.directive (zeroPadded true (some 8) .hh .x)] ++ [0]) [.word (-1)] =
          .ok (9, buffer') ∧
      stringToInteger (List.ofFn buffer'.elem) 9 .hex = .ok (.ok, 0xFF)) ∧
    ∃ buffer', uacpiVsnprintf (Arr.const 32 0)
        (spelled [.directive (zeroPadded false none .ll .d)] ++ [0]) [.word (1 <<< 63)] =
          .ok (20, buffer') ∧
      stringToInteger (List.ofFn buffer'.elem) 20 .dec = .ok (.ok, 1 <<< 63) := by
  constructor
  · obtain ⟨len, buffer', hrun, hlen, hread⟩ := vsnprintf_read_back true (some 8)
      (fun w hw => by cases hw; exact ⟨by decide, by decide⟩) .hh .x (-1) (Arr.const 16 0) []
    obtain rfl := length_of_returned (k := 9) hrun (by decide) hlen (by decide)
    exact ⟨buffer', hrun, hread (by decide)⟩
  · obtain ⟨len, buffer', hrun, hlen, hread⟩ :=
      vsnprintf_read_back false none nofun .ll .d (1 <<< 63) (Arr.const 32 0) []
    obtain rfl := length_of_returned (k := 20) hrun (by decide) hlen (by decide)
    exact ⟨buffer', hrun, hread (by decide)⟩

end KptrOS
