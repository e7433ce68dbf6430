import KptrOS.Uacpi.Printed

/-!
# Messages of uACPI

The formats that `kern/acpi/tables.c` and `kern/acpi/uacpi.c` pass to `uacpi_log`. A format is
kept with the pieces that it spells, so that what is needed for its output is checked once,
where the format is written down.

- `Message`: a format, its pieces, and the checks. `Message.Suits`: arguments that fit it.
- `Message.log`: with such arguments the text of the pieces reaches the serial port.
- `facsMessage`, …: the messages, in the order of the source.
-/

namespace KptrOS

open CSem

/-! ## Narrow directives -/

/-- A number that is written out and small. -/
def Count.Small (count : Count) : Prop := ∃ v, v.toNat ≤ 16 ∧ count = .number v

/-- A directive of these messages: no flag but `0`, small numbers, and strings with a
precision. -/
structure Directive.Narrow (d : Directive) : Prop where
  flags : d.flags = [] ∨ d.flags = [48]
  width : ∀ count ∈ d.width, count.Small
  precision : ∀ count ∈ d.precision, count.Small
  string : d.conv = .string → d.precision ≠ none

/-- The argument is of the kind that the directive converts. -/
def Directive.Takes (d : Directive) (arg : Arg) : Prop :=
  match d.conv, arg with
  | .string, .str buf => ∀ v, d.precision = some (.number v) → 0 ∈ buf ∨ v.toNat ≤ buf.length
  | .string, .word _ => False
  | _, .word _ => True
  | _, .str _ => False

/-- The arguments are there, and of the right kinds. -/
def Suit : List Piece → List Arg → Prop
  | [], _ => True
  | .directive d :: pieces, arg :: args => d.Takes arg ∧ Suit pieces args
  | .directive _ :: _, [] => False
  | .literal _ :: pieces, args => Suit pieces args
  | .percent :: pieces, args => Suit pieces args

/-- What the fields of a narrow directive leave. -/
theorem Directive.Narrow.spec {d : Directive} (hd : d.Narrow) (args : List Arg) :
    ∃ fm : FmtSpec, d.spec args = some (fm, args) ∧ fm.base = 10 ∧ fm.minWidth.toNat ≤ 16 ∧
      ∀ v, d.precision = some (.number v) → fm.limit = some v.toNat ∧ v.toNat ≤ 16 := by
  obtain ⟨fm₀, hflags, hbase, hwidth₀⟩ : ∃ fm₀ : FmtSpec,
      d.flags.foldl FmtSpec.withFlag {} = fm₀ ∧ fm₀.base = 10 ∧ fm₀.minWidth = 0 := by
    rcases hd.flags with h | h
    · rw [h]
      exact ⟨_, rfl, rfl, rfl⟩
    · rw [h]
      exact ⟨_, rfl, rfl, rfl⟩
  obtain ⟨fm₁, hwidth, hbase₁, hsmall⟩ : ∃ fm₁ : FmtSpec,
      fm₀.withWidth args d.width = some (fm₁, args) ∧ fm₁.base = 10 ∧
        fm₁.minWidth.toNat ≤ 16 := by
    cases hw : d.width with
    | none => exact ⟨fm₀, rfl, hbase, by rw [hwidth₀]; decide⟩
    | some count =>
      obtain ⟨v, hv, rfl⟩ := hd.width count hw
      exact ⟨_, rfl, hbase, hv⟩
  rw [Directive.spec, hflags, hwidth, Option.bind_some]
  cases hp : d.precision with
  | none => exact ⟨fm₁, rfl, hbase₁, hsmall, nofun⟩
  | some count =>
    obtain ⟨v, hv, rfl⟩ := hd.precision count hp
    refine ⟨_, rfl, hbase₁, hsmall, fun w hw => ?_⟩
    cases hw
    exact ⟨rfl, hv⟩

/-- No more than the width or 22 digits, with a prefix and a sign. -/
theorem integerText_length {fm : FmtSpec} (hbase : fm.BaseOk) (value : Word) :
    (integerText fm value).length ≤ max fm.minWidth.toNat 24 + 1 := by
  rw [integerText]
  generalize (fm.isSigned && value.slt 0) = negative
  obtain ⟨-, -, -, -, -, hdigits⟩ := writeIntegerDigits_ok hbase (if negative then -value else value)
  have hsign : (fm.signText negative).length ≤ 1 := by
    rw [FmtSpec.signText]
    split
    · exact Nat.le_refl 1
    · exact Nat.zero_le 1
  have hstart : fm.prefixText.length ≤ 2 := by
    rw [FmtSpec.prefixText]
    by_cases halternate : fm.alternateForm = true
    · rw [if_pos halternate]
      split
      · exact Nat.le_refl 2
      · split <;> decide
    · rw [if_neg halternate]
      exact Nat.zero_le 2
  rw [List.length_append, FmtSpec.padded_length, List.length_append]
  omega

theorem stringText_length (limit : Nat) (string : CBuf) :
    (stringText (some limit) string).length ≤ limit :=
  (List.takeWhile_sublist _).length_le.trans (List.length_take_le limit string)

/-- A narrow directive has a short text. -/
theorem Directive.Narrow.text {d : Directive} (hd : d.Narrow) {arg : Arg} (harg : d.Takes arg)
    (args : List Arg) :
    ∃ fm text, d.spec (arg :: args) = some (fm, arg :: args) ∧ d.conv.text fm arg = some text ∧
      text.length ≤ 25 := by
  obtain ⟨fm, hspec, hbase, hwidth, hprecision⟩ := hd.spec (arg :: args)
  have hinteger : ∀ fm' : FmtSpec, fm'.BaseOk → fm'.minWidth.toNat ≤ 16 → ∀ value,
      (integerText fm' value).length ≤ 25 := fun fm' hbase' hwidth' value =>
    (integerText_length hbase' value).trans (by omega)
  refine ⟨fm, ?_⟩
  rw [Directive.Takes.eq_def] at harg
  cases hconv : d.conv with
  | char =>
    rw [hconv] at harg
    cases arg with
    | str buf => exact harg.elim
    | word value => exact ⟨_, hspec, rfl, by simp⟩
  | string =>
    rw [hconv] at harg
    cases arg with
    | word value => exact harg.elim
    | str buf =>
      obtain ⟨count, hcount⟩ := Option.ne_none_iff_exists'.mp (hd.string hconv)
      obtain ⟨v, hv, rfl⟩ := hd.precision count hcount
      obtain ⟨hlimit, -⟩ := hprecision v hcount
      have hread : ReadableString fm.limit buf := by
        rw [hlimit]
        exact harg v hcount
      refine ⟨paddedString fm fm.limit buf, hspec, if_pos hread, ?_⟩
      have hlen := stringText_length v.toNat buf
      rw [hlimit, paddedString, List.length_append, List.length_replicate]
      omega
  | pointer =>
    rw [hconv] at harg
    cases arg with
    | str buf => exact harg.elim
    | word value =>
      exact ⟨_, hspec, rfl, hinteger { fm with base := 16, minWidth := 16, padChar := 48 }
        (.inr (.inr rfl)) (Nat.le_refl 16) value⟩
  | integer modifier specifier =>
    rw [hconv] at harg
    cases arg with
    | str buf => exact harg.elim
    | word value =>
      have hok := (writeInt_specifier (n := 0) hbase specifier 0).2
      refine ⟨_, hspec, rfl, hinteger _ hok ?_ _⟩
      rw [(specifier.spec_fields fm).2.2.2.2.2]
      exact hwidth

/-- A piece of one of these messages. -/
def Piece.Narrow : Piece → Prop
  | .literal _ => True
  | .percent => True
  | .directive d => d.Narrow

/-- Arguments that suit a format have a text, with a bounded share for each piece. -/
theorem renderPieces_of_suit {pieces : List Piece} (hnarrow : ∀ piece ∈ pieces, piece.Narrow)
    {args : List Arg} (hsuit : Suit pieces args) :
    ∃ text, renderPieces pieces args = some text ∧ text.length ≤ 25 * pieces.length := by
  induction pieces generalizing args with
  | nil => exact ⟨[], rfl, Nat.zero_le _⟩
  | cons piece pieces ih =>
    have htail : ∀ {args}, Suit pieces args → ∃ text, renderPieces pieces args = some text ∧
        text.length ≤ 25 * pieces.length :=
      ih fun p hp => hnarrow p (List.mem_cons_of_mem _ hp)
    have hhead := hnarrow piece List.mem_cons_self
    cases piece with
    | literal c =>
      obtain ⟨text, htext, hlen⟩ := htail hsuit
      refine ⟨c :: text, ?_, ?_⟩
      · rw [renderPieces, htext]
        rfl
      · rw [List.length_cons, List.length_cons]
        omega
    | percent =>
      obtain ⟨text, htext, hlen⟩ := htail hsuit
      refine ⟨37 :: text, ?_, ?_⟩
      · rw [renderPieces, htext]
        rfl
      · rw [List.length_cons, List.length_cons]
        omega
    | directive d =>
      cases args with
      | nil => exact hsuit.elim
      | cons arg args =>
        obtain ⟨fm, converted, hspec, hconv, hshort⟩ := Directive.Narrow.text hhead hsuit.1 args
        obtain ⟨text, htext, hlen⟩ := htail hsuit.2
        refine ⟨converted ++ text, ?_, ?_⟩
        · rw [renderPieces, hspec]
          dsimp only
          rw [hconv, htext]
          rfl
        · rw [List.length_append, List.length_cons]
          omega

/-! ## Messages -/

instance : DecidablePred Count.Small := fun count =>
  match count with
  | .number v => decidable_of_iff (v.toNat ≤ 16)
      ⟨fun h => ⟨v, h, rfl⟩, fun ⟨_, h, hv⟩ => by cases hv; exact h⟩
  | .argument => .isFalse fun ⟨_, _, h⟩ => by cases h

instance (count : Option Count) : Decidable (∀ c ∈ count, c.Small) :=
  match count with
  | none => .isTrue nofun
  | some c => decidable_of_iff c.Small
      ⟨fun h _ hc => by cases hc; exact h, fun h => h c rfl⟩

/-- What is checked about a piece of a message. -/
def Piece.Checked : Piece → Prop
  | .literal c => c ≠ 0 ∧ c ≠ 37
  | .percent => True
  | .directive d =>
    (d.flags = [] ∨ d.flags = [48]) ∧ d.width ≠ some (.number 0) ∧ (∀ c ∈ d.width, c.Small) ∧
      (∀ c ∈ d.precision, c.Small) ∧ (d.conv = .string → d.precision ≠ none)

instance : DecidablePred Piece.Checked := fun piece =>
  match piece with
  | .literal c => inferInstanceAs (Decidable (c ≠ 0 ∧ c ≠ 37))
  | .percent => .isTrue trivial
  | .directive _ => inferInstanceAs (Decidable (_ ∧ _ ∧ _ ∧ _ ∧ _))

theorem Piece.Checked.wellFormed {piece : Piece} (h : piece.Checked) : piece.WellFormed := by
  cases piece with
  | literal c => exact h
  | percent => trivial
  | directive d =>
    refine ⟨fun c hc => ?_, h.2.1⟩
    rcases h.1 with hflags | hflags
    · rw [hflags] at hc
      cases hc
    · rw [hflags] at hc
      rw [List.mem_singleton.mp hc]
      decide

theorem Piece.Checked.narrow {piece : Piece} (h : piece.Checked) : piece.Narrow := by
  cases piece with
  | literal c => trivial
  | percent => trivial
  | directive d => exact ⟨h.1, h.2.2.1, h.2.2.2.1, h.2.2.2.2⟩

/-- A format with the pieces that it spells. -/
structure Message where
  format : CBuf
  pieces : List Piece
  spelled_pieces : format = spelled pieces ++ [0] := by decide +kernel
  checked : (∀ piece ∈ pieces, piece.Checked) ∧ pieces.length < 2 ^ 20 := by decide +kernel

/-- The arguments fit the message. -/
def Message.Suits (message : Message) (args : List Arg) : Prop := Suit message.pieces args

/-- **A message with arguments that fit it reaches the serial port.** -/
theorem Message.log (message : Message) {args : List Arg} (hsuits : message.Suits args)
    (lvl : UacpiLogLevel) (k : Kernel) :
    ∃ text, renderPieces message.pieces args = some text ∧
      uacpiLog lvl message.format args k =
        .ok { k with serial := k.serial ++ (uacpiLogPrefix lvl ++ cText (loggedText text)) } := by
  obtain ⟨hpieces, hcount⟩ := message.checked
  obtain ⟨text, htext, hlen⟩ :=
    renderPieces_of_suit (fun piece hpiece => (hpieces piece hpiece).narrow) hsuits
  refine ⟨text, htext, ?_⟩
  rw [message.spelled_pieces]
  exact uacpiLog_text (fun piece hpiece => (hpieces piece hpiece).wellFormed) htext (by omega) lvl
    [] k

/-! ### The pieces -/

/-- Characters that stand for themselves. -/
def chars (s : String) : List Piece := (lit s).map .literal

/-- `%d`. -/
abbrev pieceD : Piece := .directive ⟨[], none, none, .integer .none .d⟩

/-- `%u`. -/
abbrev pieceU : Piece := .directive ⟨[], none, none, .integer .none .u⟩

/-- `%zu`. -/
abbrev pieceZu : Piece := .directive ⟨[], none, none, .integer .z .u⟩

/-- `%p`. -/
abbrev pieceP : Piece := .directive ⟨[], none, none, .pointer⟩

/-- `%02X`, and `%08X`. -/
abbrev pieceX (width : Word) : Piece :=
  .directive ⟨[48], some (.number width), none, .integer .none .upperX⟩

/-- `%016llX`. -/
abbrev pieceLlx : Piece := .directive ⟨[48], some (.number 16), none, .integer .ll .upperX⟩

/-- `%.4s`, and the like. -/
abbrev pieceS (precision : Word) : Piece :=
  .directive ⟨[], none, some (.number precision), .string⟩

/-- `%6.6s`, and the like. -/
abbrev pieceWideS (width : Word) : Piece :=
  .directive ⟨[], some (.number width), some (.number width), .string⟩

/-- `UACPI_PRI_TBL_HDR`. -/
def uacpiPriTblHdr : List Piece :=
  chars "'" ++ pieceS 4 :: chars "' (OEM ID '" ++ pieceS 6 :: chars "' OEM Table ID '" ++
    pieceS 8 :: chars "')"

/-! ### Arguments that suit the pieces -/

section

variable (pieces : List Piece) (args : List Arg)

@[simp] theorem suit_chars (s : String) : Suit (chars s ++ pieces) args ↔ Suit pieces args := by
  rw [chars]
  induction lit s with
  | nil => exact Iff.rfl
  | cons c cs ih => exact ih

@[simp] theorem suit_chars_end (s : String) : Suit (chars s) args := by
  have h := suit_chars [] args s
  rw [List.append_nil] at h
  exact h.mpr trivial

variable (flags : List Byte) (width precision : Option Count) (value : Word) (buf : CBuf)

@[simp] theorem suit_integer (modifier : LengthModifier) (specifier : IntegerSpecifier) :
    Suit (.directive ⟨flags, width, precision, .integer modifier specifier⟩ :: pieces)
      (.word value :: args) ↔ Suit pieces args := and_iff_right trivial

@[simp] theorem suit_pointer :
    Suit (.directive ⟨flags, width, precision, .pointer⟩ :: pieces) (.word value :: args) ↔
      Suit pieces args := and_iff_right trivial

@[simp] theorem suit_string (limit : Word) :
    Suit (.directive ⟨flags, width, some (.number limit), .string⟩ :: pieces) (.str buf :: args) ↔
      (0 ∈ buf ∨ limit.toNat ≤ buf.length) ∧ Suit pieces args :=
  and_congr_left' ⟨fun h => h limit rfl, fun h v hv => by cases hv; exact h⟩

end

/-! ### The messages -/

def versionMessage : Message where
  format := cstr "starting uACPI, version %d.%d.%d\n"
  pieces := chars "starting uACPI, version " ++ pieceD :: chars "." ++ pieceD :: chars "." ++
    pieceD :: chars "\n"

def facsMessage : Message where
  format := cstr "FACS 0x%016llX %08X\n"
  pieces := chars "FACS 0x" ++ pieceLlx :: chars " " ++ pieceX 8 :: chars "\n"

def rsdpMessage : Message where
  format := cstr "RSDP 0x%016llX %08X v%02X (%6.6s)\n"
  pieces := chars "RSDP 0x" ++ pieceLlx :: chars " " ++ pieceX 8 :: chars " v" ++ pieceX 2 ::
    chars " (" ++ pieceWideS 6 :: chars ")\n"

def sdtMessage : Message where
  format := cstr "%.4s 0x%016llX %08X v%02X (%6.6s %8.8s)\n"
  pieces := pieceS 4 :: chars " 0x" ++ pieceLlx :: chars " " ++ pieceX 8 :: chars " v" ++
    pieceX 2 :: chars " (" ++ pieceWideS 6 :: chars " " ++ pieceWideS 8 :: chars ")\n"

def nullRxsdtMessage : Message where
  format := cstr "both RSDT & XSDT tables are NULL!\n"
  pieces := chars "both RSDT & XSDT tables are NULL!\n"

def checksumMessage : Message where
  format := cstr "invalid table '%.4s' (OEM ID '%.6s' OEM Table ID '%.8s') checksum %d!\n"
  pieces := chars "invalid table " ++ uacpiPriTblHdr ++ chars " checksum " ++ pieceD :: chars "!\n"

def signatureMessage : Message where
  format := cstr
    "invalid table '%.4s' (OEM ID '%.6s' OEM Table ID '%.8s') signature (expected '%.4s')\n"
  pieces := chars "invalid table " ++ uacpiPriTblHdr ++ chars " signature (expected '" ++
    pieceS 4 :: chars "')\n"

def exhaustedMessage : Message where
  format := cstr "early table access buffer capacity exhausted!\n"
  pieces := chars "early table access buffer capacity exhausted!\n"

def permanentMessage : Message where
  format := cstr
    "too many references for '%.4s' (OEM ID '%.6s' OEM Table ID '%.8s'), mapping permanently\n"
  pieces := chars "too many references for " ++ uacpiPriTblHdr ++ chars ", mapping permanently\n"

def noReferencesMessage : Message where
  format := cstr
    "tried to unref table '%.4s' (OEM ID '%.6s' OEM Table ID '%.8s') with no references\n"
  pieces := chars "tried to unref table " ++ uacpiPriTblHdr ++ chars " with no references\n"

def dispositionMessage : Message where
  format := cstr "invalid table installation disposition %d\n"
  pieces := chars "invalid table installation disposition " ++ pieceD :: chars "\n"

def bogusMessage : Message where
  format := cstr "bogus table '%.4s' (0x%016llX) size: %u bytes\n"
  pieces := chars "bogus table '" ++ pieceS 4 :: chars "' (0x" ++ pieceLlx :: chars ") size: " ++
    pieceU :: chars " bytes\n"

def deniedMessage : Message where
  format := cstr "table '%.4s' (0x%016llX) installation denied by host\n"
  pieces := chars "table '" ++ pieceS 4 :: chars "' (0x" ++ pieceLlx ::
    chars ") installation denied by host\n"

def overriddenMessage : Message where
  format := cstr "table '%.4s' (0x%016llX) installation overridden by host\n"
  pieces := chars "table '" ++ pieceS 4 :: chars "' (0x" ++ pieceLlx ::
    chars ") installation overridden by host\n"

def tableLengthMessage : Message where
  format := cstr "invalid table '%.4s' (%p) size: %u\n"
  pieces := chars "invalid table '" ++ pieceS 4 :: chars "' (" ++ pieceP :: chars ") size: " ++
    pieceU :: chars "\n"

def tableIndexMessage : Message where
  format := cstr "requested invalid table index %zu (%zu tables installed)\n"
  pieces := chars "requested invalid table index " ++ pieceZu :: chars " (" ++ pieceZu ::
    chars " tables installed)\n"

def expectSetMessage : Message where
  format := cstr "unexpected table '%.4s' flags %02X, expected %02X to be set\n"
  pieces := chars "unexpected table '" ++ pieceS 4 :: chars "' flags " ++ pieceX 2 ::
    chars ", expected " ++ pieceX 2 :: chars " to be set\n"

def expectClearMessage : Message where
  format := cstr "unexpected table '%.4s' flags %02X, expected %02X to be clear\n"
  pieces := chars "unexpected table '" ++ pieceS 4 :: chars "' flags " ++ pieceX 2 ::
    chars ", expected " ++ pieceX 2 :: chars " to be clear\n"

def fadtNewerMessage : Message where
  format := cstr "FADT revision (%zu) is likely greater than the last supported, reducing to %zu\n"
  pieces := chars "FADT revision (" ++ pieceZu ::
    chars ") is likely greater than the last supported, reducing to " ++ pieceZu :: chars "\n"

def fadtLengthMessage : Message where
  format := cstr "FADT length %u doesn't match expected for revision %zu, assuming version %zu\n"
  pieces := chars "FADT length " ++ pieceU :: chars " doesn't match expected for revision " ++
    pieceZu :: chars ", assuming version " ++ pieceZu :: chars "\n"

end KptrOS
