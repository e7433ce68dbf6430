import KptrOS.Uacpi.FormatText

/-!
# What `uacpi_vsnprintf` writes

The formatter on any terminated format, and on those that are spelled from directives.

- `uacpiVsnprintf_safe`: no format makes it leave a buffer, divide by zero or loop; it can only
  ask for an argument that is missing or of the wrong kind.
- `Piece`, `spelled`: a format as its author thinks of it, and the characters for it.
- `renderPieces`: the text of pieces and arguments. `uacpiVsnprintf_holds`: what the buffer holds
  is that text, cut to the capacity, and what is returned is its length.
-/

namespace KptrOS

open CSem

/-! ## Any format -/

section

variable {n : Nat}

/-- What is left behind a conversion that succeeds. -/
def ConversionLeft (fmt : CBuf) (r : Option (CBuf × List Arg) × FmtBufState n) : Prop :=
  ∀ rest args, r.1 = some (rest, args) → LeftOf fmt rest ∧ TerminatedArgs args

theorem conversionLeft_some {fmt rest : CBuf} {args : List Arg} {fb : FmtBufState n}
    (hfmt : LeftOf fmt rest) (hargs : TerminatedArgs args) :
    ConversionLeft fmt (some (rest, args), fb) := by
  intro rest' args' h
  cases h
  exact ⟨hfmt, hargs⟩

theorem ConversionLeft.of_rest {fmt rest : CBuf} {r : Option (CBuf × List Arg) × FmtBufState n}
    (hfmt : LeftOf fmt rest) (h : ConversionLeft rest r) : ConversionLeft fmt r := by
  intro rest' args hr
  obtain ⟨hrest, hargs⟩ := h rest' args hr
  exact ⟨hfmt.trans hrest, hargs⟩

/-- A terminated string can be read up to any precision. -/
theorem readableString_of_mem {string : CBuf} (h : 0 ∈ string) (limit : Option Nat) :
    ReadableString limit string := by
  cases limit with
  | none => exact h
  | some precision => exact .inl h

/-- The specifier decides about the base only. -/
theorem writeInt_total (flag : Byte) {fm : FmtSpec} (hbase : fm.base = 10) (value : Word) :
    Total (n := n) (writeInt flag fm value) := by
  refine writeInteger_total ?_ value
  by_cases hflag : flag ≠ 0
  · rw [if_pos hflag]
    show baseFromSpecifier flag = 8 ∨ _
    rw [baseFromSpecifier]
    split
    · exact .inr (.inr rfl)
    split
    · exact .inl rfl
    · exact .inr (.inl rfl)
  · rw [if_neg hflag]
    exact .inr (.inl hbase)

theorem writeInt_pointer_total (fm : FmtSpec) (value : Word) :
    Total (n := n) (writeInt 0 { fm with base := 16, minWidth := 16, padChar := 48 } value) :=
  writeInteger_total (.inr (.inr rfl)) value

variable {fm : FmtSpec} {fmt : CBuf} {args : List Arg}

theorem conversion_safe (hbase : fm.base = 10) (hfmt : 0 ∈ fmt) (hargs : TerminatedArgs args)
    (fb : FmtBufState n) :
    FaultsOnly .badArgument (conversion fm fmt args fb) (ConversionLeft fmt) := by
  rw [conversion]
  rcases consume_spec (isToken_singleton (c := 99) (by decide)) hfmt with
    ⟨rest, rfl, hrest, hrun⟩ | ⟨-, hrun⟩
  · rw [hrun, ok_bind]
    refine (vaWord_safe hargs).bind fun r hr => ?_
    obtain ⟨fb', hwrite⟩ := writeOne_total (r.1.setWidth 8) fb
    dsimp only
    rw [hwrite]
    exact .inl ⟨_, rfl, conversionLeft_some (leftOf_append [99] hrest) hr⟩
  rw [hrun, ok_bind]
  dsimp only
  rcases consume_spec (isToken_singleton (c := 115) (by decide)) hfmt with
    ⟨rest, rfl, hrest, hrun⟩ | ⟨-, hrun⟩
  · rw [hrun, ok_bind]
    refine (vaString_safe hargs).bind fun r hr => ?_
    rw [writeString_text (readableString_of_mem hr.1 _)]
    obtain ⟨fb', heach⟩ := writeEach_total
      (stringText (if fm.hasPrecision then some fm.precision.toNat else none) r.1) fb
    rw [heach, ok_bind, pure_eq_ok, ok_bind]
    dsimp only
    obtain ⟨fb'', hpad⟩ := writeRepeated_total 32 (fm.minWidth.toNat -
      (stringText (if fm.hasPrecision then some fm.precision.toNat else none) r.1).length) fb'
    rw [hpad]
    exact .inl ⟨_, rfl, conversionLeft_some (leftOf_append [115] hrest) hr.2⟩
  rw [hrun, ok_bind]
  dsimp only
  rcases consume_spec (isToken_singleton (c := 112) (by decide)) hfmt with
    ⟨rest, rfl, hrest, hrun⟩ | ⟨-, hrun⟩
  · rw [hrun, ok_bind]
    refine (vaWord_safe hargs).bind fun r hr => ?_
    obtain ⟨fb', hwrite⟩ := writeInt_pointer_total fm r.1 fb
    rw [hwrite]
    exact .inl ⟨_, rfl, conversionLeft_some (leftOf_append [112] hrest) hr⟩
  rw [hrun, ok_bind]
  dsimp only
  refine (integerSpecifier_safe fm hfmt hargs).bind fun r hr => ?_
  cases r with
  | none => exact .inl ⟨_, rfl, nofun⟩
  | some r =>
    obtain ⟨value, flag, fm', rest, args'⟩ := r
    obtain ⟨hrest, hargs', hbase'⟩ := hr value flag fm' rest args' rfl
    obtain ⟨fb', hwrite⟩ := writeInt_total flag (hbase'.trans hbase) value fb
    dsimp only
    rw [hwrite]
    exact .inl ⟨_, rfl, conversionLeft_some hrest hargs'⟩

theorem directive_safe (hfmt : 0 ∈ fmt) (hargs : TerminatedArgs args) (fb : FmtBufState n) :
    FaultsOnly .badArgument (directive fmt args fb) (ConversionLeft fmt) := by
  obtain ⟨fm, rest, hflags, hrest, hbase⟩ := parseFlags_spec {} hfmt
  rw [directive, hflags, ok_bind]
  refine (parseWidth_safe fm hrest.terminated hargs).bind fun r hr => ?_
  cases r with
  | none => exact .inl ⟨_, rfl, nofun⟩
  | some r =>
    obtain ⟨fm', rest', args'⟩ := r
    obtain ⟨hrest', hargs', hbase'⟩ := hr fm' rest' args' rfl
    refine (parsePrecision_safe fm' hrest'.terminated hargs').bind fun r hr => ?_
    cases r with
    | none => exact .inl ⟨_, rfl, nofun⟩
    | some r =>
      obtain ⟨fm'', rest'', args''⟩ := r
      obtain ⟨hrest'', hargs'', hbase''⟩ := hr fm'' rest'' args'' rfl
      have hleft := (hrest.trans hrest').trans hrest''
      rcases conversion_safe (hbase''.trans (hbase'.trans hbase)) hrest''.terminated hargs'' fb with
        ⟨r, hrun, hr⟩ | hrun
      · exact .inl ⟨r, hrun, hr.of_rest hleft⟩
      · exact .inr hrun

/-- The loop ends within its bound: each directive takes a character off the format. -/
theorem vsnprintfLoop_safe {bound : Nat} (hbound : fmt.length < bound) (hfmt : 0 ∈ fmt)
    (hargs : TerminatedArgs args) (fb : FmtBufState n) :
    FaultsOnly .badArgument (vsnprintfLoop bound fmt args fb) fun _ => True := by
  induction bound generalizing fmt args fb with
  | zero => exact absurd hbound (Nat.not_lt_zero _)
  | succ bound ih =>
    rw [vsnprintfLoop]
    by_cases hend : fmt.head? = some 0
    · exact .inl ⟨_, if_pos hend, trivial⟩
    rw [if_neg hend]
    obtain ⟨text, htext, hnext⟩ := findNextConversion_spec hfmt
    have hwrite : ∀ offset, ∃ fb', (if offset ≠ 0 then writeMany (fmt.take offset) fb
        else pure fb) = .ok fb' := by
      intro offset
      by_cases hoffset : offset ≠ 0
      · rw [if_pos hoffset]
        exact writeMany_total _ fb
      · exact ⟨fb, if_neg hoffset⟩
    obtain ⟨fb', hwrite⟩ := hwrite text.length
    rcases hnext with ⟨rest, -, hrun⟩ | ⟨rest, hrest, hterm, hrun⟩
    · rw [hrun, ok_bind]
      dsimp only
      rw [ite_seq, hwrite]
      exact .inl ⟨_, rfl, trivial⟩
    · rw [hrun, ok_bind]
      dsimp only
      rw [ite_seq, hwrite, ok_bind]
      have hshort : rest.length < bound := by
        rw [hrest, List.length_append, List.length_cons] at hbound
        omega
      rcases consume_spec (isToken_pair (c := 37) (d := 37) (by decide) (by decide))
        (List.mem_cons_of_mem 37 hterm) with ⟨rest', hpercent, hterm', hconsume⟩ | ⟨-, hconsume⟩
      · rw [hconsume, ok_bind]
        dsimp only
        obtain ⟨fb'', hone⟩ := writeOne_total 37 fb'
        rw [hone, ok_bind]
        have hlen := congrArg List.length hpercent
        rw [List.length_append, List.length_cons] at hlen
        exact ih (by simp at hlen; omega) hterm' hargs fb''
      · rw [hconsume, ok_bind]
        refine (directive_safe hterm hargs fb').bind fun r hr => ?_
        obtain ⟨left, fb''⟩ := r
        cases left with
        | none => exact .inl ⟨_, rfl, trivial⟩
        | some left =>
          obtain ⟨rest', args'⟩ := left
          obtain ⟨hleft, hargs'⟩ := hr rest' args' rfl
          exact ih (hleft.length_le.trans_lt hshort) hleft.terminated hargs' fb''

/-- **No format makes the formatter fault**, whatever its directives are, as long as it and the
strings among its arguments are terminated: it only asks for arguments that are missing or of the
wrong kind. If it does not refuse the format, the buffer is terminated. -/
theorem uacpiVsnprintf_safe (hfmt : 0 ∈ fmt) (hargs : TerminatedArgs args)
    (buffer : Arr n Byte) :
    FaultsOnly .badArgument (uacpiVsnprintf buffer fmt args) fun r =>
      r.1 = -1 ∨ n = 0 ∨ ∃ i, i < n ∧ r.2.get i = .ok 0 := by
  rw [uacpiVsnprintf]
  refine (vsnprintfLoop_safe (Nat.lt_succ_self _) hfmt hargs ⟨buffer, 0⟩).bind fun r _ => ?_
  obtain ⟨finished, fb⟩ := r
  cases finished with
  | false => exact .inl ⟨_, rfl, .inl rfl⟩
  | true =>
    by_cases hn : n ≠ 0
    · have hlast : min fb.bytesWritten (n - 1) < n := by omega
      dsimp only
      rw [if_neg (by decide), if_pos hn, Arr.set_of_lt _ hlast]
      exact .inl ⟨_, rfl, .inr (.inr ⟨_, hlast, Arr.get_put_self _ hlast 0⟩)⟩
    · dsimp only
      rw [if_neg (by decide), if_neg hn]
      exact .inl ⟨_, rfl, .inr (.inl (not_not.mp hn))⟩

end

/-- `hello` in four bytes: what fits is written, and terminated. -/
theorem uacpiVsnprintf_safe_sample :
    ∃ buffer', uacpiVsnprintf (Arr.const 4 255) (cstr "%s") [.str (cstr "hello")] =
        .ok (5, buffer') ∧
      List.ofFn buffer'.elem = lit "hel" ++ [0] ∧ ∃ i, i < 4 ∧ buffer'.get i = .ok 0 := by
  have hargs : TerminatedArgs [.str (cstr "hello")] := fun buf hbuf => by
    cases List.mem_singleton.mp hbuf
    exact zero_mem_cstr "hello"
  have hresult : (uacpiVsnprintf (Arr.const 4 255) (cstr "%s") [.str (cstr "hello")]).map
      (fun r => (r.1, List.ofFn r.2.elem)) = .ok (5, lit "hel" ++ [0]) := by decide
  rcases uacpiVsnprintf_safe (zero_mem_cstr "%s") hargs (Arr.const 4 255) with
    ⟨⟨ret, buffer'⟩, hrun, hterminated⟩ | hfault
  · rw [hrun] at hresult ⊢
    obtain ⟨rfl, hbytes⟩ := Prod.ext_iff.mp (Except.ok.inj hresult)
    have hretained : ¬ (5 : BitVec 32) = -1 := by decide
    exact ⟨buffer', rfl, hbytes, (hterminated.resolve_left hretained).resolve_left (by decide)⟩
  · rw [hfault] at hresult
    cases hresult

/-! ## Formats and their texts -/

/-- A number in a directive: written out, or `*`. -/
inductive Count where
  | number (value : Word)
  | argument
deriving DecidableEq

/-- The length modifiers. -/
inductive LengthModifier where
  | none
  | hh
  | h
  | ll
  | l
  | z
deriving DecidableEq

/-- The specifiers of integers. -/
inductive IntegerSpecifier where
  | d
  | i
  | o
  | x
  | upperX
  | u
deriving DecidableEq

/-- What a directive converts. -/
inductive Conversion where
  | char
  | string
  | pointer
  | integer (modifier : LengthModifier) (specifier : IntegerSpecifier)
deriving DecidableEq

/-- A directive. -/
structure Directive where
  flags : List Byte
  width : Option Count
  precision : Option Count
  conv : Conversion

/-- A part of a format. -/
inductive Piece where
  | literal (c : Byte)
  | percent
  | directive (d : Directive)

/-! ### Spelling -/

/-- The characters of a number. -/
def Count.bytes : Count → List Byte
  | .number value => decText value.toNat
  | .argument => [42]

def LengthModifier.bytes : LengthModifier → List Byte
  | .none => []
  | .hh => [104, 104]
  | .h => [104]
  | .ll => [108, 108]
  | .l => [108]
  | .z => [122]

def IntegerSpecifier.byte : IntegerSpecifier → Byte
  | .d => 100
  | .i => 105
  | .o => 111
  | .x => 120
  | .upperX => 88
  | .u => 117

def Conversion.bytes : Conversion → List Byte
  | .char => [99]
  | .string => [115]
  | .pointer => [112]
  | .integer modifier specifier => modifier.bytes ++ [specifier.byte]

def Directive.widthBytes (d : Directive) : List Byte := (d.width.map Count.bytes).getD []

def Directive.precisionBytes (d : Directive) : List Byte :=
  (d.precision.map fun count => 46 :: count.bytes).getD []

/-- The characters behind the `%`. -/
def Directive.bytes (d : Directive) : List Byte :=
  d.flags ++ (d.widthBytes ++ (d.precisionBytes ++ d.conv.bytes))

def Piece.bytes : Piece → List Byte
  | .literal c => [c]
  | .percent => [37, 37]
  | .directive d => 37 :: d.bytes

/-- The characters of a format, without its terminator. -/
def spelled (pieces : List Piece) : List Byte := pieces.flatMap Piece.bytes

/-- A width that is written out does not begin with the flag `0`. -/
structure Directive.WellFormed (d : Directive) : Prop where
  flags : ∀ c ∈ d.flags, c ∈ flagChars
  width : d.width ≠ some (.number 0)

def Piece.WellFormed : Piece → Prop
  | .literal c => c ≠ 0 ∧ c ≠ 37
  | .percent => True
  | .directive d => d.WellFormed

/-! ### Meaning -/

/-- A number, and the arguments behind it. -/
def Count.read : Count → List Arg → Option (Word × List Arg)
  | .number value, args => some (value, args)
  | .argument, .word value :: args => some ((value.setWidth 32).signExtend 64, args)
  | .argument, _ => none

/-- The bits of an argument that a modifier asks for. -/
def LengthModifier.width : LengthModifier → Nat
  | .none => 32
  | .hh => 8
  | .h => 16
  | .ll | .l | .z => 64

def IntegerSpecifier.isSigned : IntegerSpecifier → Bool
  | .d | .i => true
  | _ => false

/-- An argument as an integer of `width` bits. -/
def IntegerSpecifier.value (specifier : IntegerSpecifier) (width : Nat) (value : Word) : Word :=
  if specifier.isSigned then (value.setWidth width).signExtend 64
  else (value.setWidth width).setWidth 64

/-- The base and the case of a specifier. -/
def IntegerSpecifier.spec (specifier : IntegerSpecifier) (fm : FmtSpec) : FmtSpec :=
  match specifier with
  | .d | .i => { fm with isSigned := true }
  | .o => { fm with base := 8, uppercase := false }
  | .x => { fm with base := 16, uppercase := false }
  | .upperX => { fm with base := 16, uppercase := true }
  | .u => { fm with base := 10, uppercase := false }

def FmtSpec.limit (fm : FmtSpec) : Option Nat :=
  if fm.hasPrecision then some fm.precision.toNat else none

instance (limit : Option Nat) (string : CBuf) : Decidable (ReadableString limit string) :=
  match limit with
  | none => inferInstanceAs (Decidable (0 ∈ string))
  | some precision => inferInstanceAs (Decidable (0 ∈ string ∨ precision ≤ string.length))

/-- The text of a conversion. -/
def Conversion.text (fm : FmtSpec) : Conversion → Arg → Option (List Byte)
  | .char, .word value => some [value.setWidth 8]
  | .string, .word value =>
    if value = 0 then some (paddedString fm fm.limit (cstr "<null>")) else none
  | .string, .str buf =>
    if ReadableString fm.limit buf then some (paddedString fm fm.limit buf) else none
  | .pointer, .word value =>
    some (integerText { fm with base := 16, minWidth := 16, padChar := 48 } value)
  | .integer modifier specifier, .word value =>
    some (integerText (specifier.spec fm) (specifier.value modifier.width value))
  | _, .str _ => none

def FmtSpec.withWidth (fm : FmtSpec) (args : List Arg) : Option Count → Option (FmtSpec × List Arg)
  | none => some (fm, args)
  | some count => (count.read args).map fun r => ({ fm with minWidth := r.1 }, r.2)

def FmtSpec.withPrecision (fm : FmtSpec) (args : List Arg) :
    Option Count → Option (FmtSpec × List Arg)
  | none => some (fm, args)
  | some count =>
    (count.read args).map fun r => ({ fm with hasPrecision := true, precision := r.1 }, r.2)

/-- The flags, the width and the precision, and the arguments behind them. -/
def Directive.spec (d : Directive) (args : List Arg) : Option (FmtSpec × List Arg) :=
  ((d.flags.foldl FmtSpec.withFlag {}).withWidth args d.width).bind fun r =>
    r.1.withPrecision r.2 d.precision

/-- The text of a format on its arguments, unless they do not fit. -/
def renderPieces : List Piece → List Arg → Option (List Byte)
  | [], _ => some []
  | .literal c :: pieces, args => (renderPieces pieces args).map (c :: ·)
  | .percent :: pieces, args => (renderPieces pieces args).map (37 :: ·)
  | .directive d :: pieces, args =>
    match d.spec args with
    | some (fm, arg :: args) => do
      let text ← d.conv.text fm arg
      (renderPieces pieces args).map (text ++ ·)
    | _ => none

/-! ## Parsing what is spelled -/

/-- A decimal number begins with a digit, which is not 0 for another number. -/
theorem decText_cons (v : Nat) :
    ∃ c rest, decText v = c :: rest ∧ IsDigit c ∧ (v ≠ 0 → c ≠ 48) := by
  have hencodes := decText_encodes v
  cases htext : decText v with
  | nil =>
    rw [htext] at hencodes
    cases hencodes.parses
  | cons c rest =>
    rw [htext] at hencodes
    refine ⟨c, rest, rfl, hencodes.digits c List.mem_cons_self, ?_⟩
    rintro hv rfl
    have hzero := hencodes.leading rfl
    rw [hzero] at hencodes
    exact hv (Option.some.inj (hencodes.parses.symm.trans (by decide)))

/-- The token is not in front of a string that begins otherwise. -/
theorem consume_other {c d : Byte} (h : c ≠ d) (token : List Byte) {rest : List Byte}
    (hterm : 0 ∈ d :: rest) : consume (c :: token) (d :: rest) = .ok none :=
  consume_none hterm (not_prefix_of_head h rest token)

/-- A character that neither is a digit nor stands for an argument. -/
def EndsNumber (c : Byte) : Prop := ¬ IsDigit c ∧ c ≠ 42

/-- The first characters of the integer conversions. -/
def integerLetters : List Byte := [100, 105, 111, 120, 88, 117, 104, 108, 122]

theorem integer_bytes_cons (modifier : LengthModifier) (specifier : IntegerSpecifier)
    (rest : List Byte) :
    ∃ c more, modifier.bytes ++ specifier.byte :: rest = c :: more ∧ c ∈ integerLetters := by
  cases modifier with
  | none => exact ⟨specifier.byte, rest, rfl, by cases specifier <;> decide⟩
  | hh => exact ⟨104, _, rfl, by decide⟩
  | h => exact ⟨104, _, rfl, by decide⟩
  | ll => exact ⟨108, _, rfl, by decide⟩
  | l => exact ⟨108, _, rfl, by decide⟩
  | z => exact ⟨122, _, rfl, by decide⟩

/-- The conversion and what is behind it begin with a letter. -/
theorem Conversion.bytes_cons (conv : Conversion) (rest : List Byte) :
    ∃ c more, conv.bytes ++ rest = c :: more ∧ 88 ≤ c.toNat := by
  cases conv with
  | char => exact ⟨99, rest, rfl, by decide⟩
  | string => exact ⟨115, rest, rfl, by decide⟩
  | pointer => exact ⟨112, rest, rfl, by decide⟩
  | integer modifier specifier =>
    have hletters : ∀ c ∈ integerLetters, 88 ≤ c.toNat := by decide
    obtain ⟨c, more, hbytes, hc⟩ := integer_bytes_cons modifier specifier rest
    refine ⟨c, more, ?_, hletters c hc⟩
    rw [← hbytes, Conversion.bytes, List.append_assoc, List.singleton_append]

theorem endsNumber_of_letter {c : Byte} (h : 88 ≤ c.toNat) : EndsNumber c ∧ c ≠ 46 := by
  refine ⟨⟨fun hdigit => ?_, ?_⟩, ?_⟩
  · have hle := hdigit.2
    omega
  · rintro rfl
    exact absurd h (by decide)
  · rintro rfl
    exact absurd h (by decide)

section

variable {fm fm' : FmtSpec} {args args' : List Arg} {c : Byte} {rest : List Byte}

/-- What is behind a spelled number. -/
theorem number_not_argument (v : Nat) (hterm : 0 ∈ rest) :
    consume [42] (decText v ++ rest) = .ok none := by
  obtain ⟨d, more, htext, hdigit, -⟩ := decText_cons v
  have hd : (42 : Byte) ≠ d := by
    rintro rfl
    exact absurd hdigit.1 (by decide)
  rw [htext]
  exact consume_other hd [] (List.mem_cons_of_mem d (List.mem_append_right more hterm))

theorem parseWidth_bytes {width : Option Count} (hend : EndsNumber c) (hterm : 0 ∈ c :: rest)
    (hspec : fm.withWidth args width = some (fm', args')) :
    parseWidth fm ((width.map Count.bytes).getD [] ++ c :: rest) args =
      .ok (some (fm', c :: rest, args')) := by
  have hhead : ∀ d ∈ (c :: rest).head?, ¬ IsDigit d := by
    intro d hd
    rw [← Option.some.inj hd]
    exact hend.1
  cases width with
  | none =>
    cases hspec
    show parseWidth fm (c :: rest) args = _
    rw [parseWidth, consume_other (Ne.symm hend.2) [] hterm, ok_bind]
    dsimp only
    rw [parseNumber_missing _ (List.cons_ne_nil c rest) hhead]
    rfl
  | some count =>
    cases count with
    | number value =>
      cases hspec
      show parseWidth fm (decText value.toNat ++ c :: rest) args = _
      rw [parseWidth, number_not_argument _ hterm, ok_bind]
      dsimp only
      rw [parseNumber_decText _ _ _ (List.cons_ne_nil c rest) hhead]
      rfl
    | argument =>
      obtain ⟨r, hread, hfm⟩ := Option.map_eq_some_iff.mp hspec
      cases hfm
      show parseWidth fm ([42] ++ c :: rest) args = _
      rw [parseWidth, consume_token (isToken_singleton (by decide)), ok_bind]
      cases args with
      | nil => cases hread
      | cons a args =>
        cases a with
        | str buf => cases hread
        | word value =>
          cases hread
          rfl

theorem parsePrecision_bytes {precision : Option Count} (hend : EndsNumber c) (hdot : c ≠ 46)
    (hterm : 0 ∈ c :: rest) (hspec : fm.withPrecision args precision = some (fm', args')) :
    parsePrecision fm ((precision.map fun count => 46 :: count.bytes).getD [] ++ c :: rest) args =
      .ok (some (fm', c :: rest, args')) := by
  have hhead : ∀ d ∈ (c :: rest).head?, ¬ IsDigit d := by
    intro d hd
    rw [← Option.some.inj hd]
    exact hend.1
  cases precision with
  | none =>
    cases hspec
    show parsePrecision fm (c :: rest) args = _
    rw [parsePrecision, consume_other (Ne.symm hdot) [] hterm]
    rfl
  | some count =>
    cases count with
    | number value =>
      cases hspec
      show parsePrecision fm ([46] ++ (decText value.toNat ++ c :: rest)) args = _
      rw [parsePrecision, consume_token (isToken_singleton (by decide)), ok_bind]
      dsimp only
      rw [number_not_argument _ hterm, ok_bind]
      dsimp only
      rw [parseNumber_decText _ _ _ (List.cons_ne_nil c rest) hhead]
      rfl
    | argument =>
      obtain ⟨r, hread, hfm⟩ := Option.map_eq_some_iff.mp hspec
      cases hfm
      show parsePrecision fm ([46] ++ ([42] ++ c :: rest)) args = _
      rw [parsePrecision, consume_token (isToken_singleton (by decide)), ok_bind]
      dsimp only
      rw [consume_token (isToken_singleton (by decide)), ok_bind]
      cases args with
      | nil => cases hread
      | cons a args =>
        cases a with
        | str buf => cases hread
        | word value =>
          cases hread
          rfl

/-! ## Converting what is spelled -/

/-- The value of `flag` behind a specifier. -/
def IntegerSpecifier.flag (specifier : IntegerSpecifier) : Byte :=
  if specifier.isSigned then 0 else specifier.byte

theorem consumeEither_first {first string : List Byte} (second : List Byte)
    (h : consume first string = .ok (some rest)) :
    consumeEither first second string = .ok (some rest) := by
  rw [consumeEither, h]
  rfl

theorem consumeEither_second {first string : List Byte} (second : List Byte)
    (h : consume first string = .ok none) :
    consumeEither first second string = consume second string := by
  rw [consumeEither, h]
  rfl

theorem integerArgument_signed {width : Nat} {value : Word} {string : CBuf}
    (h : consumeEither [100] [105] string = .ok (some rest)) :
    integerArgument width fm string (.word value :: args) =
      .ok (some ((value.setWidth width).signExtend 64, 0, { fm with isSigned := true }, rest,
        args)) := by
  rw [integerArgument, h]
  rfl

theorem integerArgument_unsigned {width : Nat} {value : Word} (hc : c ∈ [111, 120, 88, 117])
    (hterm : 0 ∈ c :: rest) :
    integerArgument width fm (c :: rest) (.word value :: args) =
      .ok (some ((value.setWidth width).setWidth 64, c, fm, rest, args)) := by
  have hother : ∀ c ∈ ([111, 120, 88, 117] : List Byte), c ≠ 0 ∧ c ≠ 100 ∧ c ≠ 105 := by decide
  obtain ⟨hzero, hd, hi⟩ := hother c hc
  have hone : consumeOneOf [111, 120, 88, 117] (c :: rest) = .ok (some (c, rest)) := by
    rw [consumeOneOf, if_neg hzero, if_pos hc]
  rw [integerArgument, consumeEither_second [105] (consume_other hd.symm [] hterm),
    consume_other hi.symm [] hterm, ok_bind]
  dsimp only
  rw [hone]
  rfl

theorem integerArgument_bytes (width : Nat) (specifier : IntegerSpecifier) (value : Word)
    (hterm : 0 ∈ rest) :
    integerArgument width fm (specifier.byte :: rest) (.word value :: args) =
      .ok (some (specifier.value width value, specifier.flag,
        if specifier.isSigned then { fm with isSigned := true } else fm, rest, args)) := by
  have hterm' : 0 ∈ specifier.byte :: rest := List.mem_cons_of_mem _ hterm
  cases specifier with
  | d =>
    exact integerArgument_signed
      (consumeEither_first [105] (consume_token (isToken_singleton (by decide)) rest))
  | i =>
    refine integerArgument_signed ?_
    rw [consumeEither_second [105] (consume_other (by decide) [] hterm')]
    exact consume_token (isToken_singleton (by decide)) rest
  | o => exact integerArgument_unsigned (by decide) hterm'
  | x => exact integerArgument_unsigned (by decide) hterm'
  | upperX => exact integerArgument_unsigned (by decide) hterm'
  | u => exact integerArgument_unsigned (by decide) hterm'

theorem consume_one (hc : c ≠ 0) (rest : List Byte) : consume [c] (c :: rest) = .ok (some rest) :=
  consume_token (isToken_singleton hc) rest

theorem consume_two (hc : c ≠ 0) (rest : List Byte) :
    consume [c, c] (c :: c :: rest) = .ok (some rest) :=
  consume_token (isToken_pair hc hc) rest

/-- A token of two characters is not in front of a string whose second one is another. -/
theorem consume_pair_other {d : Byte} (h : d ≠ c) (hterm : 0 ∈ c :: d :: rest) :
    consume [c, c] (c :: d :: rest) = .ok none :=
  consume_none hterm fun hstart =>
    not_prefix_of_head h.symm rest [] (List.cons_prefix_cons.mp hstart).2

theorem integerSpecifier_bytes (modifier : LengthModifier) (specifier : IntegerSpecifier)
    (hterm : 0 ∈ rest) :
    integerSpecifier fm (modifier.bytes ++ specifier.byte :: rest) args =
      integerArgument modifier.width fm (specifier.byte :: rest) args := by
  obtain ⟨hnh, hnl, hnz⟩ :
      specifier.byte ≠ 104 ∧ specifier.byte ≠ 108 ∧ specifier.byte ≠ 122 := by
    cases specifier <;> decide
  have hterm' : 0 ∈ specifier.byte :: rest := List.mem_cons_of_mem _ hterm
  have hbehind : ∀ c : Byte, 0 ∈ c :: specifier.byte :: rest := fun c => List.mem_cons_of_mem c hterm'
  cases modifier with
  | none =>
    show integerSpecifier fm (specifier.byte :: rest) args = _
    rw [integerSpecifier, consume_other hnh.symm [104] hterm', ok_bind]
    dsimp only
    rw [consume_other hnh.symm [] hterm', ok_bind]
    dsimp only
    rw [consumeEither_second [122] (consume_other hnl.symm [108] hterm'),
      consume_other hnz.symm [] hterm', ok_bind]
    dsimp only
    rw [consumeEither_second [122] (consume_other hnl.symm [] hterm'),
      consume_other hnz.symm [] hterm', ok_bind]
    rfl
  | hh =>
    show integerSpecifier fm (104 :: 104 :: specifier.byte :: rest) args = _
    rw [integerSpecifier, consume_two (by decide), ok_bind]
    rfl
  | h =>
    show integerSpecifier fm (104 :: specifier.byte :: rest) args = _
    rw [integerSpecifier, consume_pair_other hnh (hbehind 104), ok_bind]
    dsimp only
    rw [consume_one (by decide), ok_bind]
    rfl
  | ll =>
    have hll : 0 ∈ 108 :: 108 :: specifier.byte :: rest := List.mem_cons_of_mem 108 (hbehind 108)
    show integerSpecifier fm (108 :: 108 :: specifier.byte :: rest) args = _
    rw [integerSpecifier, consume_other (by decide) [104] hll, ok_bind]
    dsimp only
    rw [consume_other (by decide) [] hll, ok_bind]
    dsimp only
    rw [consumeEither_first [122] (consume_two (by decide) _), ok_bind]
    rfl
  | l =>
    show integerSpecifier fm (108 :: specifier.byte :: rest) args = _
    rw [integerSpecifier, consume_other (by decide) [104] (hbehind 108), ok_bind]
    dsimp only
    rw [consume_other (by decide) [] (hbehind 108), ok_bind]
    dsimp only
    rw [consumeEither_second [122] (consume_pair_other hnl (hbehind 108)),
      consume_other (by decide) [] (hbehind 108), ok_bind]
    dsimp only
    rw [consumeEither_first [122] (consume_one (by decide) _), ok_bind]
    rfl
  | z =>
    show integerSpecifier fm (122 :: specifier.byte :: rest) args = _
    rw [integerSpecifier, consume_other (by decide) [104] (hbehind 122), ok_bind]
    dsimp only
    rw [consume_other (by decide) [] (hbehind 122), ok_bind]
    dsimp only
    rw [consumeEither_second [122] (consume_other (by decide) [108] (hbehind 122)),
      consume_one (by decide), ok_bind]
    rfl

/-- The specifier of an integer, and what `write_int` makes of it. -/
theorem writeInt_specifier {n : Nat} (hbase : fm.base = 10) (specifier : IntegerSpecifier)
    (value : Word) :
    writeInt (n := n) specifier.flag
        (if specifier.isSigned then { fm with isSigned := true } else fm) value =
      writeInteger (specifier.spec fm) value ∧ (specifier.spec fm).BaseOk := by
  cases specifier with
  | d => exact ⟨rfl, .inr (.inl hbase)⟩
  | i => exact ⟨rfl, .inr (.inl hbase)⟩
  | o => exact ⟨rfl, .inl rfl⟩
  | x => exact ⟨rfl, .inr (.inr rfl)⟩
  | upperX => exact ⟨rfl, .inr (.inr rfl)⟩
  | u => exact ⟨rfl, .inr (.inl rfl)⟩

/-- What a directive does with the buffer, and what it leaves. -/
def Converts {n : Nat} (text : List Byte) (rest : CBuf) (args : List Arg)
    (convert : FmtBufState n → Exec (Option (CBuf × List Arg) × FmtBufState n)) : Prop :=
  ∃ write, Emits write text ∧
    ∀ fb, convert fb = (do
      let fb ← write fb
      return (some (rest, args), fb))

section

variable {n : Nat}

/-- A `%s` with its padding. -/
theorem writeString_converts {string : CBuf} (rest : List Byte) (args : List Arg)
    (hread : ReadableString fm.limit string) :
    Converts (n := n) (paddedString fm fm.limit string) rest args fun fb => do
      let (i, fb) ← writeString fm.limit string 0 fb
      return (some (rest, args), ← writeRepeated 32 (fm.minWidth.toNat - i) fb) := by
  refine ⟨_, (writeEach_emits (stringText fm.limit string)).bind (writeRepeated_emits 32
    (fm.minWidth.toNat - (stringText fm.limit string).length)), fun fb => ?_⟩
  dsimp only
  rw [writeString_text hread, bind_assoc, bind_assoc]
  rfl

theorem conversion_string {arg : Arg} {string : CBuf} (hterm : 0 ∈ rest)
    (harg : vaString (arg :: args) = .ok (string, args))
    (hread : ReadableString fm.limit string) :
    Converts (n := n) (paddedString fm fm.limit string) rest args
      (conversion fm (115 :: rest) (arg :: args)) := by
  obtain ⟨write, hwrite, heq⟩ := writeString_converts (n := n) rest args hread
  refine ⟨write, hwrite, fun fb => ?_⟩
  have hc := consume_other (c := 99) (d := 115) (by decide) [] (List.mem_cons_of_mem 115 hterm)
  rw [conversion, hc, ok_bind]
  dsimp only
  rw [consume_one (by decide), ok_bind]
  dsimp only
  rw [harg, ok_bind, ← heq fb]
  rfl

theorem conversion_bytes {conv : Conversion} {arg : Arg} {text : List Byte} (args : List Arg)
    (hbase : fm.base = 10) (hterm : 0 ∈ rest) (htext : conv.text fm arg = some text) :
    Converts (n := n) text rest args (conversion fm (conv.bytes ++ rest) (arg :: args)) := by
  cases conv with
  | char =>
    cases arg with
    | str buf => cases htext
    | word value =>
      cases htext
      refine ⟨writeOne (value.setWidth 8), writeOne_emits _, fun fb => ?_⟩
      show conversion fm (99 :: rest) (.word value :: args) fb = _
      rw [conversion, consume_one (by decide), ok_bind]
      rfl
  | string =>
    cases arg with
    | str buf =>
      rw [Conversion.text] at htext
      by_cases hread : ReadableString fm.limit buf
      · rw [if_pos hread] at htext
        cases htext
        exact conversion_string hterm rfl hread
      · rw [if_neg hread] at htext
        cases htext
    | word value =>
      rw [Conversion.text] at htext
      by_cases hnull : value = 0
      · rw [if_pos hnull] at htext
        cases htext
        exact conversion_string hterm (if_pos hnull)
          (readableString_of_mem (zero_mem_cstr _) fm.limit)
      · rw [if_neg hnull] at htext
        cases htext
  | pointer =>
    cases arg with
    | str buf => cases htext
    | word value =>
      cases htext
      refine ⟨_, writeInteger_emits (.inr (.inr rfl)) value, fun fb => ?_⟩
      have hp : 0 ∈ 112 :: rest := List.mem_cons_of_mem 112 hterm
      show conversion fm (112 :: rest) (.word value :: args) fb = _
      rw [conversion, consume_other (by decide) [] hp, ok_bind]
      dsimp only
      rw [consume_other (by decide) [] hp, ok_bind]
      dsimp only
      rw [consume_one (by decide), ok_bind]
      rfl
  | integer modifier specifier =>
    cases arg with
    | str buf => cases htext
    | word value =>
      cases htext
      obtain ⟨hwrite, hbaseOk⟩ := writeInt_specifier (n := n) hbase specifier
        (specifier.value modifier.width value)
      refine ⟨_, writeInteger_emits hbaseOk _, fun fb => ?_⟩
      -- neither `c` nor `s` nor `p` is in front of the specifier
      have hletters : ∀ c ∈ integerLetters, c ≠ 99 ∧ c ≠ 115 ∧ c ≠ 112 := by decide
      obtain ⟨c, more, hbytes, hmem⟩ := integer_bytes_cons modifier specifier rest
      obtain ⟨hc, hs, hp⟩ := hletters c hmem
      have hterm' : 0 ∈ c :: more := hbytes ▸ List.mem_append_right _ (List.mem_cons_of_mem _ hterm)
      show conversion fm (modifier.bytes ++ [specifier.byte] ++ rest) (.word value :: args) fb = _
      rw [List.append_assoc, List.singleton_append, hbytes, conversion,
        consume_other hc.symm [] hterm', ok_bind]
      dsimp only
      rw [consume_other hs.symm [] hterm', ok_bind]
      dsimp only
      rw [consume_other hp.symm [] hterm', ok_bind, ← hbytes]
      dsimp only
      rw [integerSpecifier_bytes modifier specifier hterm,
        integerArgument_bytes modifier.width specifier value hterm, ok_bind]
      dsimp only
      rw [hwrite]

theorem FmtSpec.withWidth_base {width : Option Count}
    (h : fm.withWidth args width = some (fm', args')) : fm'.base = fm.base := by
  cases width with
  | none =>
    cases h
    rfl
  | some count =>
    obtain ⟨r, -, hfm⟩ := Option.map_eq_some_iff.mp h
    cases hfm
    rfl

theorem FmtSpec.withPrecision_base {precision : Option Count}
    (h : fm.withPrecision args precision = some (fm', args')) : fm'.base = fm.base := by
  cases precision with
  | none =>
    cases h
    rfl
  | some count =>
    obtain ⟨r, -, hfm⟩ := Option.map_eq_some_iff.mp h
    cases hfm
    rfl

theorem Directive.spec_base {d : Directive} (h : d.spec args = some (fm', args')) :
    fm'.base = 10 := by
  have hflags : ∀ (flags : List Byte) (fm : FmtSpec),
      (flags.foldl FmtSpec.withFlag fm).base = fm.base := by
    intro flags
    induction flags with
    | nil => exact fun fm => rfl
    | cons flag flags ih => exact fun fm => (ih (fm.withFlag flag)).trans (withFlag_base fm flag)
  obtain ⟨⟨fm, args₁⟩, hwidth, hprecision⟩ := Option.bind_eq_some_iff.mp h
  exact (FmtSpec.withPrecision_base hprecision).trans
    ((FmtSpec.withWidth_base hwidth).trans (hflags d.flags {}))

/-! ## Whole directives -/

theorem not_flag_of_letter {c : Byte} (h : 88 ≤ c.toNat) : c ∉ flagChars := by
  have hflags : ∀ c ∈ flagChars, c.toNat < 88 := by decide
  exact fun hmem => absurd (hflags c hmem) (Nat.not_lt.mpr h)

/-- The precision begins with a point, if there is one. -/
theorem precision_cons (precision : Option Count) (hc : EndsNumber c ∧ c ∉ flagChars)
    (rest : List Byte) :
    ∃ e more, (precision.map fun count => 46 :: count.bytes).getD [] ++ c :: rest = e :: more ∧
      EndsNumber e ∧ e ∉ flagChars := by
  cases precision with
  | none => exact ⟨c, rest, rfl, hc⟩
  | some count =>
    refine ⟨46, count.bytes ++ c :: rest, rfl, ⟨fun hdigit => ?_, by decide⟩, by decide⟩
    exact absurd hdigit.1 (by decide)

/-- No flag is in front of a width. -/
theorem width_cons {width : Option Count} (hwidth : width ≠ some (.number 0))
    (hc : c ∉ flagChars) (rest : List Byte) :
    ∃ e more, (width.map Count.bytes).getD [] ++ c :: rest = e :: more ∧ e ∉ flagChars := by
  cases width with
  | none => exact ⟨c, rest, rfl, hc⟩
  | some count =>
    cases count with
    | argument => exact ⟨42, c :: rest, rfl, by decide⟩
    | number value =>
      have hvalue : value.toNat ≠ 0 := by
        intro hzero
        refine hwidth ?_
        rw [BitVec.eq_of_toNat_eq (hzero.trans rfl : value.toNat = (0 : Word).toNat)]
      obtain ⟨e, more, htext, hdigit, hne⟩ := decText_cons value.toNat
      refine ⟨e, more ++ c :: rest, ?_, fun hmem => hne hvalue ?_⟩
      · show decText value.toNat ++ c :: rest = _
        rw [htext]
        rfl
      · -- the only flag among the digits is 0
        have hflags : ∀ f ∈ flagChars, 48 ≤ f.toNat → f = 48 := by decide
        exact hflags e hmem hdigit.1

/-- A directive that is spelled out does what its parts say. -/
theorem directive_bytes {d : Directive} (hd : d.WellFormed) {arg : Arg} {text : List Byte}
    (hterm : 0 ∈ rest) (hspec : d.spec args = some (fm, arg :: args'))
    (htext : d.conv.text fm arg = some text) :
    Converts (n := n) text rest args' (directive (d.bytes ++ rest) args) := by
  obtain ⟨write, hwrite, hconv⟩ :=
    conversion_bytes (n := n) args' (Directive.spec_base hspec) hterm htext
  obtain ⟨⟨fm₁, args₁⟩, hwidth, hprecision⟩ := Option.bind_eq_some_iff.mp hspec
  refine ⟨write, hwrite, fun fb => ?_⟩
  -- the conversion, the precision and the width, and how each of them begins
  obtain ⟨c, more, hc, hletter⟩ := d.conv.bytes_cons rest
  obtain ⟨hend, hdot⟩ := endsNumber_of_letter hletter
  have htermc : 0 ∈ c :: more := hc ▸ List.mem_append_right _ hterm
  obtain ⟨e, more', he, hend', hflag⟩ :=
    precision_cons d.precision ⟨hend, not_flag_of_letter hletter⟩ more
  have hterme : 0 ∈ e :: more' := he ▸ List.mem_append_right _ htermc
  obtain ⟨f, more'', hf, hflag'⟩ := width_cons hd.width hflag more'
  have hbytes : d.bytes ++ rest = d.flags ++ f :: more'' := by
    rw [← hf, ← he, ← hc, Directive.bytes, Directive.widthBytes, Directive.precisionBytes,
      List.append_assoc, List.append_assoc, List.append_assoc]
  have hhead : ∀ g ∈ (f :: more'').head?, g ∉ flagChars := by
    intro g hg
    rwa [← Option.some.inj hg]
  rw [hbytes, directive, parseFlags_append hd.flags (List.cons_ne_nil f more'') hhead, ok_bind]
  dsimp only
  rw [← hf, parseWidth_bytes hend' hterme hwidth, ok_bind]
  dsimp only
  rw [← he, parsePrecision_bytes hend hdot htermc hprecision, ok_bind, ← hc]
  exact hconv fb

theorem Count.bytes_ne_percent {count : Count} : ∀ c ∈ count.bytes, c ≠ 37 := by
  cases count with
  | argument => decide
  | number value =>
    rintro c hc rfl
    exact absurd ((decText_encodes value.toNat).digits 37 hc).1 (by decide)

/-- A directive is not `%%`. -/
theorem Directive.bytes_cons {d : Directive} (hd : d.WellFormed) (rest : List Byte) :
    ∃ c more, d.bytes ++ rest = c :: more ∧ c ≠ 37 := by
  obtain ⟨letter, more, hletter, hle⟩ := d.conv.bytes_cons rest
  have hne : letter ≠ 37 := by
    rintro rfl
    exact absurd hle (by decide)
  have hflags : ∀ c ∈ flagChars, c ≠ 37 := by decide
  have hfront : ∀ c ∈ d.flags ++ (d.widthBytes ++ d.precisionBytes), c ≠ 37 := by
    intro c hc
    rcases List.mem_append.mp hc with hc | hc
    · exact hflags c (hd.flags c hc)
    rcases List.mem_append.mp hc with hc | hc
    · rw [Directive.widthBytes] at hc
      cases hw : d.width with
      | none => simp [hw] at hc
      | some count =>
        rw [hw] at hc
        exact Count.bytes_ne_percent c hc
    · rw [Directive.precisionBytes] at hc
      cases hp : d.precision with
      | none => simp [hp] at hc
      | some count =>
        rw [hp] at hc
        rcases List.mem_cons.mp hc with rfl | hc
        · decide
        · exact Count.bytes_ne_percent c hc
  have hbytes : d.bytes ++ rest =
      (d.flags ++ (d.widthBytes ++ d.precisionBytes)) ++ letter :: more := by
    rw [← hletter, Directive.bytes, List.append_assoc, List.append_assoc, List.append_assoc,
      List.append_assoc, List.append_assoc]
  cases hcons : d.flags ++ (d.widthBytes ++ d.precisionBytes) with
  | nil =>
    rw [hcons] at hbytes
    exact ⟨letter, more, hbytes, hne⟩
  | cons c front =>
    rw [hcons] at hbytes hfront
    exact ⟨c, front ++ letter :: more, hbytes, hfront c List.mem_cons_self⟩

/-! ## Whole formats -/

section

variable {lead done : List Byte} {fb : FmtBufState n}

/-- The text in front of a conversion. -/
theorem writeLead (hfb : Written done fb) (hlen : (done ++ lead).length < 2 ^ 64)
    (rest : List Byte) :
    ∃ fb', (if lead.length ≠ 0 then writeMany ((lead ++ rest).take lead.length) fb
        else pure fb) = .ok fb' ∧ Written (done ++ lead) fb' := by
  by_cases hlead : lead.length ≠ 0
  · rw [if_pos hlead, List.take_left]
    exact writeMany_emits lead done fb hfb hlen
  · rw [List.length_eq_zero_iff.mp (not_not.mp hlead), List.append_nil]
    exact ⟨fb, rfl, hfb⟩

theorem lead_head (hlead : ∀ c ∈ lead, c ≠ 0 ∧ c ≠ 37) (rest : List Byte) :
    (lead ++ 37 :: rest).head? ≠ some 0 := by
  cases lead with
  | nil => exact fun h => absurd (Option.some.inj h) (by decide)
  | cons c lead => exact fun h => (hlead c List.mem_cons_self).1 (Option.some.inj h)

/-- An iteration on a conversion. -/
theorem vsnprintfLoop_lead (hlead : ∀ c ∈ lead, c ≠ 0 ∧ c ≠ 37) (hfb : Written done fb)
    (hlen : (done ++ lead).length < 2 ^ 64) (bound : Nat) (rest : List Byte) (args : List Arg) :
    ∃ fb', Written (done ++ lead) fb' ∧
      vsnprintfLoop (bound + 1) (lead ++ 37 :: rest) args fb =
        vsnprintfLoop (bound + 1) (37 :: rest) args fb' := by
  obtain ⟨fb', hwrite, hfb'⟩ := writeLead hfb hlen (37 :: rest)
  refine ⟨fb', hfb', ?_⟩
  have hnext := (findNextConversion_append (List.forall_mem_nil _) rest).1
  have hhead := lead_head (List.forall_mem_nil _) rest
  rw [List.nil_append] at hnext hhead
  rw [vsnprintfLoop, if_neg (lead_head hlead rest), (findNextConversion_append hlead rest).1,
    ok_bind, vsnprintfLoop, if_neg hhead, hnext, ok_bind]
  dsimp only
  rw [ite_seq, hwrite, ok_bind, if_neg (by decide)]
  rfl

theorem vsnprintfLoop_percent (bound : Nat) (rest : List Byte) (args : List Arg)
    (fb : FmtBufState n) :
    vsnprintfLoop (bound + 1) (37 :: 37 :: rest) args fb =
      writeOne 37 fb >>= vsnprintfLoop bound rest args := by
  have hnext := (findNextConversion_append (List.forall_mem_nil _) (37 :: rest)).1
  have hhead := lead_head (List.forall_mem_nil _) (37 :: rest)
  rw [List.nil_append] at hnext hhead
  rw [vsnprintfLoop, if_neg hhead, hnext, ok_bind]
  dsimp only
  rw [if_neg (by decide), pure_eq_ok, ok_bind, consume_two (by decide), ok_bind]

theorem vsnprintfLoop_directive {d : Directive} (hd : d.WellFormed) (bound : Nat)
    {rest : List Byte} (hterm : 0 ∈ rest) {args args' : List Arg} {text : List Byte}
    (hconv : Converts (n := n) text rest args' (directive (d.bytes ++ rest) args))
    (hfb : Written done fb) (hlen : (done ++ text).length < 2 ^ 64) :
    ∃ fb', Written (done ++ text) fb' ∧
      vsnprintfLoop (bound + 1) (37 :: (d.bytes ++ rest)) args fb =
        vsnprintfLoop bound rest args' fb' := by
  obtain ⟨write, hwrite, heq⟩ := hconv
  obtain ⟨fb', hrun, hfb'⟩ := hwrite done fb hfb hlen
  refine ⟨fb', hfb', ?_⟩
  have hnext := (findNextConversion_append (List.forall_mem_nil _) (d.bytes ++ rest)).1
  have hhead := lead_head (List.forall_mem_nil _) (d.bytes ++ rest)
  rw [List.nil_append] at hnext hhead
  have hconsume : consume [37, 37] (37 :: (d.bytes ++ rest)) = .ok none := by
    obtain ⟨c, more, hbytes, hc⟩ := d.bytes_cons hd rest
    rw [hbytes]
    refine consume_pair_other hc (List.mem_cons_of_mem 37 ?_)
    exact hbytes ▸ List.mem_append_right _ hterm
  rw [vsnprintfLoop, if_neg hhead, hnext, ok_bind]
  dsimp only
  rw [if_neg (by decide), pure_eq_ok, ok_bind, hconsume, ok_bind]
  dsimp only
  rw [List.tail_cons, heq, hrun]
  rfl

end

/-- The loop over the pieces that are left, behind text that has not been written yet. -/
theorem vsnprintfLoop_renders {pieces : List Piece} {bound : Nat} (hbound : pieces.length < bound)
    (hpieces : ∀ piece ∈ pieces, piece.WellFormed) {args : List Arg} {text : List Byte}
    (htext : renderPieces pieces args = some text) {lead : List Byte}
    (hlead : ∀ c ∈ lead, c ≠ 0 ∧ c ≠ 37) {done : List Byte} {fb : FmtBufState n}
    (hfb : Written done fb) (hlen : (done ++ lead ++ text).length < 2 ^ 64) (tail : List Byte) :
    ∃ fb', vsnprintfLoop bound (lead ++ (spelled pieces ++ 0 :: tail)) args fb =
        .ok (true, fb') ∧ Written (done ++ lead ++ text) fb' := by
  have hlen' : (done ++ lead).length < 2 ^ 64 :=
    (List.prefix_append (done ++ lead) text).length_le.trans_lt hlen
  induction pieces generalizing bound args text lead done fb with
  | nil =>
    obtain ⟨bound, rfl⟩ := Nat.exists_eq_succ_of_ne_zero (Nat.ne_of_gt hbound)
    cases htext
    obtain ⟨fb', hwrite, hfb'⟩ := writeLead hfb hlen' (0 :: tail)
    rw [List.append_nil]
    show ∃ fb', vsnprintfLoop (bound + 1) (lead ++ 0 :: tail) args fb = _ ∧ _
    rw [vsnprintfLoop]
    cases lead with
    | nil =>
      rw [List.append_nil] at hfb' ⊢
      exact ⟨fb, rfl, hfb⟩
    | cons c lead =>
      have hhead : (c :: lead ++ 0 :: tail).head? ≠ some 0 := fun h =>
        (hlead c List.mem_cons_self).1 (Option.some.inj h)
      rw [if_neg hhead, (findNextConversion_append hlead tail).2, ok_bind]
      dsimp only
      rw [ite_seq, hwrite]
      exact ⟨fb', rfl, hfb'⟩
  | cons piece pieces ih =>
    have hpieces' : ∀ piece ∈ pieces, piece.WellFormed := fun piece hmem =>
      hpieces piece (List.mem_cons_of_mem _ hmem)
    have hterm : 0 ∈ spelled pieces ++ 0 :: tail :=
      List.mem_append_right _ List.mem_cons_self
    cases piece with
    | literal c =>
      -- the character joins the text in front
      have hc := hpieces (.literal c) List.mem_cons_self
      obtain ⟨text, hrest, rfl⟩ := Option.map_eq_some_iff.mp htext
      have hlead' : ∀ d ∈ lead ++ [c], d ≠ 0 ∧ d ≠ 37 := by
        intro d hd
        rcases List.mem_append.mp hd with hd | hd
        · exact hlead d hd
        · rwa [List.mem_singleton.mp hd]
      have hmove : done ++ lead ++ c :: text = done ++ (lead ++ [c]) ++ text := by simp
      rw [hmove] at hlen ⊢
      have hfmt : lead ++ (spelled (.literal c :: pieces) ++ 0 :: tail) =
          (lead ++ [c]) ++ (spelled pieces ++ 0 :: tail) := by
        rw [List.append_assoc]
        rfl
      rw [hfmt]
      exact ih (Nat.lt_of_succ_lt hbound) hpieces' hrest hlead' hfb hlen
        ((List.prefix_append _ text).length_le.trans_lt hlen)
    | percent =>
      obtain ⟨bound, rfl⟩ := Nat.exists_eq_succ_of_ne_zero (Nat.ne_of_gt (Nat.zero_lt_of_lt hbound))
      obtain ⟨text, hrest, rfl⟩ := Option.map_eq_some_iff.mp htext
      obtain ⟨fb₁, hfb₁, hlead⟩ := vsnprintfLoop_lead hlead hfb hlen' bound
        (37 :: (spelled pieces ++ 0 :: tail)) args
      have hsplit : done ++ lead ++ 37 :: text = done ++ lead ++ [37] ++ [] ++ text := by simp
      rw [hsplit] at hlen ⊢
      have hshort : (done ++ lead ++ [37] ++ []).length < 2 ^ 64 :=
        (List.prefix_append _ text).length_le.trans_lt hlen
      obtain ⟨fb₂, hone, hfb₂⟩ := writeOne_emits 37 _ fb₁ hfb₁ (by rwa [List.append_nil] at hshort)
      obtain ⟨fb', hrun, hfb'⟩ := ih (Nat.lt_of_succ_lt_succ hbound) hpieces' hrest
        (List.forall_mem_nil _) hfb₂ hlen hshort
      refine ⟨fb', ?_, hfb'⟩
      show vsnprintfLoop (bound + 1) (lead ++ 37 :: 37 :: (spelled pieces ++ 0 :: tail)) args fb = _
      rw [hlead, vsnprintfLoop_percent, hone]
      exact hrun
    | directive d =>
      obtain ⟨bound, rfl⟩ := Nat.exists_eq_succ_of_ne_zero (Nat.ne_of_gt (Nat.zero_lt_of_lt hbound))
      have hd : d.WellFormed := hpieces (.directive d) List.mem_cons_self
      rw [renderPieces] at htext
      cases hspec : d.spec args with
      | none =>
        rw [hspec] at htext
        cases htext
      | some r =>
        obtain ⟨fm, args'⟩ := r
        rw [hspec] at htext
        cases args' with
        | nil => cases htext
        | cons arg args' =>
          obtain ⟨text₁, htext₁, hmore⟩ := Option.bind_eq_some_iff.mp htext
          obtain ⟨text₂, hrest, rfl⟩ := Option.map_eq_some_iff.mp hmore
          obtain ⟨fb₁, hfb₁, hlead⟩ := vsnprintfLoop_lead hlead hfb hlen' bound
            (d.bytes ++ (spelled pieces ++ 0 :: tail)) args
          have hsplit : done ++ lead ++ (text₁ ++ text₂) = done ++ lead ++ text₁ ++ [] ++ text₂ := by
            simp
          rw [hsplit] at hlen ⊢
          have hshort : (done ++ lead ++ text₁ ++ []).length < 2 ^ 64 :=
            (List.prefix_append _ text₂).length_le.trans_lt hlen
          obtain ⟨fb₂, hfb₂, hdirective⟩ := vsnprintfLoop_directive hd bound hterm
            (directive_bytes hd hterm hspec htext₁) hfb₁ (by rwa [List.append_nil] at hshort)
          obtain ⟨fb', hrun, hfb'⟩ := ih (Nat.lt_of_succ_lt_succ hbound) hpieces' hrest
            (List.forall_mem_nil _) hfb₂ hlen hshort
          refine ⟨fb', ?_, hfb'⟩
          have hfmt : lead ++ (spelled (.directive d :: pieces) ++ 0 :: tail) =
              lead ++ 37 :: (d.bytes ++ (spelled pieces ++ 0 :: tail)) := by
            rw [spelled, List.flatMap_cons, List.append_assoc]
            rfl
          rw [hfmt, hlead, hdirective]
          exact hrun

/-- Every piece takes a character. -/
theorem length_le_spelled (pieces : List Piece) : pieces.length ≤ (spelled pieces).length := by
  induction pieces with
  | nil => exact Nat.le_refl 0
  | cons piece pieces ih =>
    have hpiece : 0 < piece.bytes.length := by cases piece <;> exact Nat.succ_pos _
    rw [spelled, List.flatMap_cons, List.length_append, List.length_cons]
    exact (Nat.add_comm _ 1 ▸ Nat.add_le_add hpiece ih)

/-- **`uacpi_vsnprintf` writes the text of its format**: the buffer holds what fits of it in
front of a terminator, and the whole length is returned. -/
theorem uacpiVsnprintf_holds {pieces : List Piece}
    (hpieces : ∀ piece ∈ pieces, piece.WellFormed) {args : List Arg} {text : List Byte}
    (htext : renderPieces pieces args = some text) (hlen : text.length < 2 ^ 64)
    (buffer : Arr n Byte) (tail : List Byte) :
    ∃ buffer', uacpiVsnprintf buffer (spelled pieces ++ 0 :: tail) args =
        .ok (BitVec.ofNat 32 text.length, buffer') ∧
      (0 < n → buffer'.Holds 0 (text.take (n - 1) ++ [0])) := by
  have hempty : Written (n := n) [] ⟨buffer, 0⟩ :=
    ⟨rfl, by rw [List.take_nil]; exact Arr.holds_nil buffer 0⟩
  have hbound : pieces.length < (spelled pieces ++ 0 :: tail).length + 1 := by
    have hle := length_le_spelled pieces
    rw [List.length_append]
    omega
  obtain ⟨fb, hrun, hfb⟩ := vsnprintfLoop_renders hbound hpieces htext (List.forall_mem_nil _)
    hempty
    (by rwa [List.nil_append, List.nil_append]) tail
  rw [List.nil_append, List.nil_append] at hfb
  rw [List.nil_append] at hrun
  rw [uacpiVsnprintf, hrun, ok_bind]
  dsimp only
  rw [if_neg (by decide)]
  by_cases hn : n ≠ 0
  · have hlast : min fb.bytesWritten (n - 1) < n := by omega
    rw [if_pos hn, Arr.set_of_lt _ hlast, ok_bind, hfb.count]
    refine ⟨_, rfl, fun _ => Arr.holds_append.mpr ⟨?_, Arr.holds_cons.mpr ⟨?_, Arr.holds_nil _ _⟩⟩⟩
    · have hholds := hfb.holds.take (n - 1)
      rw [List.take_take, Nat.min_eq_left (Nat.sub_le n 1)] at hholds
      refine hholds.congr fun j _ hj => Arr.get_put_of_ne _ (Nat.ne_of_lt ?_) 0
      rw [Nat.zero_add, List.length_take] at hj
      omega
    · rw [Nat.zero_add, List.length_take, Nat.min_comm]
      exact Arr.get_put_self _ (by omega) 0
  · rw [if_neg hn, hfb.count]
    exact ⟨_, rfl, fun hpos => absurd hpos (by omega)⟩

end

end

end KptrOS
