import KptrOS.Uacpi.Vsnprintf

/-!
# Parsing a format

What the parser functions of `uacpi_vsnprintf` do on a terminated string: each of them either
takes characters off its front or leaves it alone, and never reads behind the terminator.

- `consume_spec`, `consumeEither_spec`, `consumeOneOf_spec`, `consumeDigits_spec`,
  `parseNumber_spec`, `parseFlags_spec`, `findNextConversion_spec`: both outcomes of each.
- `parseWidth_safe`, `parsePrecision_safe`, `integerSpecifier_safe`: they can only fail for want
  of an argument, and what they leave of the format is terminated.
-/

namespace KptrOS

open CSem

/-- What a parser function leaves of a string: an end of it, with the terminator. -/
structure LeftOf (string rest : CBuf) : Prop where
  suffix : rest <:+ string
  terminated : 0 ∈ rest

theorem leftOf_self {string : CBuf} (h : 0 ∈ string) : LeftOf string string :=
  ⟨List.suffix_refl string, h⟩

theorem leftOf_append (front : List Byte) {rest : CBuf} (h : 0 ∈ rest) :
    LeftOf (front ++ rest) rest := ⟨List.suffix_append front rest, h⟩

theorem LeftOf.cons {c : Byte} {string rest : CBuf} (h : LeftOf string rest) :
    LeftOf (c :: string) rest := ⟨h.suffix.trans (List.suffix_cons c string), h.terminated⟩

theorem LeftOf.trans {string rest rest' : CBuf} (h : LeftOf string rest)
    (h' : LeftOf rest rest') : LeftOf string rest' :=
  ⟨h'.suffix.trans h.suffix, h'.terminated⟩

theorem LeftOf.length_le {string rest : CBuf} (h : LeftOf string rest) :
    rest.length ≤ string.length := h.suffix.length_le

/-! ## Tokens -/

/-- Characters that are not NUL are in front of a terminator. -/
theorem terminated_append {token rest : List Byte} (htoken : ∀ c ∈ token, c ≠ 0)
    (h : 0 ∈ token ++ rest) : 0 ∈ rest :=
  (List.mem_append.mp h).resolve_left fun hmem => htoken 0 hmem rfl

theorem stringHasAtLeast_ok {string : CBuf} (hterm : 0 ∈ string) (characters : Nat) :
    ∃ b, stringHasAtLeast string characters = .ok b := by
  induction string generalizing characters with
  | nil => cases hterm
  | cons c string ih =>
    rw [stringHasAtLeast]
    by_cases hc : c = 0
    · exact ⟨false, if_pos hc⟩
    rw [if_neg hc]
    by_cases hlast : (characters + 2 ^ 64 - 1) % 2 ^ 64 = 0
    · exact ⟨true, if_pos hlast⟩
    rw [if_neg hlast]
    exact ih ((List.mem_cons.mp hterm).resolve_left (Ne.symm hc)) _

theorem stringHasAtLeast_append {token : List Byte} (hne : token ≠ [])
    (htoken : ∀ c ∈ token, c ≠ 0) (hlen : token.length < 2 ^ 64) (rest : List Byte) :
    stringHasAtLeast (token ++ rest) token.length = .ok true := by
  induction token with
  | nil => exact absurd rfl hne
  | cons c token ih =>
    have hlen' : token.length + 1 < 2 ^ 64 := hlen
    have hcount : (token.length + 1 + 2 ^ 64 - 1) % 2 ^ 64 = token.length := by omega
    rw [List.cons_append, stringHasAtLeast, if_neg (htoken c List.mem_cons_self),
      List.length_cons, hcount]
    cases token with
    | nil => rfl
    | cons d token =>
      have hmore : (d :: token).length ≠ 0 := Nat.succ_ne_zero token.length
      rw [if_neg hmore]
      exact ih (List.cons_ne_nil d token) (fun e he => htoken e (List.mem_cons_of_mem c he))
        (Nat.lt_of_succ_lt hlen')

/-- A token that the source compares with: short, and without a NUL. -/
structure IsToken (token : List Byte) : Prop where
  nonempty : token ≠ []
  no_nul : ∀ c ∈ token, c ≠ 0
  short : token.length ≤ 2

/-- A token in front of a string is consumed. -/
theorem consume_token {token : List Byte} (htoken : IsToken token) (rest : List Byte) :
    consume token (token ++ rest) = .ok (some rest) := by
  rw [consume, stringHasAtLeast_append htoken.nonempty htoken.no_nul
    (htoken.short.trans_lt (by decide)), ok_bind, if_pos rfl, if_pos (List.take_left ..),
    List.drop_left]
  rfl

/-- Otherwise nothing is. -/
theorem consume_none {token string : List Byte} (hterm : 0 ∈ string)
    (hstart : ¬ token <+: string) : consume token string = .ok none := by
  obtain ⟨b, hread⟩ := stringHasAtLeast_ok hterm token.length
  rw [consume, hread, ok_bind]
  cases b with
  | false => rfl
  | true =>
    have hne : string.take token.length ≠ token := fun h =>
      hstart (h ▸ List.take_prefix token.length string)
    rw [if_pos rfl, if_neg hne]
    rfl

theorem consume_spec {token string : List Byte} (htoken : IsToken token) (hterm : 0 ∈ string) :
    (∃ rest, string = token ++ rest ∧ 0 ∈ rest ∧ consume token string = .ok (some rest)) ∨
      (¬ token <+: string ∧ consume token string = .ok none) := by
  by_cases hstart : token <+: string
  · obtain ⟨rest, rfl⟩ := hstart
    exact .inl ⟨rest, rfl, terminated_append htoken.no_nul hterm, consume_token htoken rest⟩
  · exact .inr ⟨hstart, consume_none hterm hstart⟩

/-- A single character is not in front of a string. -/
theorem not_prefix_of_head {c d : Byte} (h : c ≠ d) (rest token : List Byte) :
    ¬ (c :: token) <+: (d :: rest) := by
  rintro ⟨more, hmore⟩
  exact h (List.cons.inj hmore).1

theorem consumeEither_spec {first second string : List Byte} (hfirst : IsToken first)
    (hsecond : IsToken second) (hterm : 0 ∈ string) :
    (∃ rest, LeftOf string rest ∧ consumeEither first second string = .ok (some rest)) ∨
      consumeEither first second string = .ok none := by
  rw [consumeEither]
  rcases consume_spec hfirst hterm with ⟨rest, rfl, hrest, hrun⟩ | ⟨-, hrun⟩
  · exact .inl ⟨rest, leftOf_append first hrest, by rw [hrun]; rfl⟩
  · rw [hrun, ok_bind]
    rcases consume_spec hsecond hterm with ⟨rest, rfl, hrest, hrun⟩ | ⟨-, hrun⟩
    · exact .inl ⟨rest, leftOf_append second hrest, hrun⟩
    · exact .inr hrun

theorem consumeOneOf_spec (list : List Byte) {string : CBuf} (hterm : 0 ∈ string) :
    (∃ c rest, c ∈ list ∧ LeftOf string rest ∧
        consumeOneOf list string = .ok (some (c, rest))) ∨
      consumeOneOf list string = .ok none := by
  cases string with
  | nil => cases hterm
  | cons c rest =>
    rw [consumeOneOf]
    by_cases hc : c = 0
    · exact .inr (if_pos hc)
    rw [if_neg hc]
    by_cases hmem : c ∈ list
    · have hrest := (List.mem_cons.mp hterm).resolve_left (Ne.symm hc)
      exact .inl ⟨c, rest, hmem, (leftOf_self hrest).cons, if_pos hmem⟩
    · exact .inr (if_neg hmem)

/-! ## Numbers -/

/-- A character that `consume_digits` counts. -/
def IsDigit (c : Byte) : Prop := 48 ≤ c.toNat ∧ c.toNat ≤ 57

theorem isDigit_iff (c : Byte) : ¬ (c < 48 ∨ c > 57) ↔ IsDigit c := by
  rw [not_or, gt_iff_lt, BitVec.lt_def, BitVec.lt_def, Nat.not_lt, Nat.not_lt]
  exact Iff.rfl

theorem consumeDigits_append {ds rest : List Byte} (hds : ∀ c ∈ ds, IsDigit c)
    (hrest : rest ≠ []) (hhead : ∀ c ∈ rest.head?, ¬ IsDigit c) :
    consumeDigits (ds ++ rest) = .ok (ds.length, rest) := by
  induction ds with
  | nil =>
    cases rest with
    | nil => exact absurd rfl hrest
    | cons c rest =>
      exact if_pos (by_contra fun h => hhead c rfl ((isDigit_iff c).mp h))
  | cons c ds ih =>
    rw [List.cons_append, consumeDigits,
      if_neg ((isDigit_iff c).mpr (hds c List.mem_cons_self)),
      ih fun d hd => hds d (List.mem_cons_of_mem c hd)]
    rfl

theorem consumeDigits_spec {string : CBuf} (hterm : 0 ∈ string) :
    ∃ ds rest, string = ds ++ rest ∧ (∀ c ∈ ds, IsDigit c) ∧ 0 ∈ rest ∧
      consumeDigits string = .ok (ds.length, rest) := by
  induction string with
  | nil => cases hterm
  | cons c string ih =>
    rw [consumeDigits]
    by_cases hc : c < 48 ∨ c > 57
    · exact ⟨[], c :: string, rfl, nofun, hterm, if_pos hc⟩
    · have hdigit := (isDigit_iff c).mp hc
      have hne : (0 : Byte) ≠ c := by
        rintro rfl
        exact absurd hdigit.1 (by decide)
      obtain ⟨ds, rest, rfl, hds, hrest, hrun⟩ := ih ((List.mem_cons.mp hterm).resolve_left hne)
      refine ⟨c :: ds, rest, rfl, ?_, hrest, by rw [if_neg hc, hrun]; rfl⟩
      intro d hd
      rcases List.mem_cons.mp hd with rfl | hd
      · exact hdigit
      · exact hds d hd

theorem parseNumber_spec (mode : ParseNumberMode) (value : Word) {fmt : CBuf}
    (hterm : 0 ∈ fmt) :
    (∃ value' rest, LeftOf fmt rest ∧ parseNumber mode value fmt = .ok (some (value', rest))) ∨
      parseNumber mode value fmt = .ok none := by
  obtain ⟨ds, rest, rfl, hds, hrest, hrun⟩ := consumeDigits_spec hterm
  rw [parseNumber, hrun, ok_bind]
  dsimp only
  by_cases hnone : ds.length = 0
  · rw [if_pos hnone]
    by_cases hmode : mode = .must
    · exact .inr (by rw [if_pos hmode]; rfl)
    · exact .inl ⟨value, rest, leftOf_append ds hrest, by rw [if_neg hmode]; rfl⟩
  · rw [if_neg hnone, stringToInteger_reads, ok_bind]
    by_cases hret : (readInteger .dec ds).1 = .ok
    · exact .inl ⟨_, rest, leftOf_append ds hrest, by rw [if_pos hret]; rfl⟩
    · exact .inr (by rw [if_neg hret]; rfl)

/-- A number in decimal is parsed. -/
theorem parseNumber_decText (mode : ParseNumberMode) (old : Word) (value : Word)
    {rest : List Byte} (hrest : rest ≠ []) (hhead : ∀ c ∈ rest.head?, ¬ IsDigit c) :
    parseNumber mode old (decText value.toNat ++ rest) = .ok (some (value, rest)) := by
  have hencodes := decText_encodes value.toNat
  have hne : (decText value.toNat).length ≠ 0 := by
    rw [List.length_eq_zero_iff.ne]
    rintro hnil
    rw [hnil] at hencodes
    cases hencodes.parses
  rw [parseNumber, consumeDigits_append hencodes.digits hrest hhead, ok_bind]
  dsimp only
  rw [if_neg hne, stringToInteger_reads,
    readInteger_encodes (.inl rfl) (encodesInt_of_nonneg hencodes) value.isLt, ok_bind]
  dsimp only
  rw [if_pos rfl, BitVec.ofInt_natCast, BitVec.ofNat_toNat, BitVec.setWidth_eq]
  rfl

/-- Without digits the number may be missing. -/
theorem parseNumber_missing (old : Word) {fmt : CBuf} (hne : fmt ≠ [])
    (hhead : ∀ c ∈ fmt.head?, ¬ IsDigit c) :
    parseNumber .maybe old fmt = .ok (some (old, fmt)) := by
  rw [parseNumber]
  have hnone := consumeDigits_append (List.forall_mem_nil _) hne hhead
  rw [List.nil_append] at hnone
  rw [hnone, ok_bind]
  rfl

/-! ## Flags and conversions -/

theorem withFlag_base (fm : FmtSpec) (flag : Byte) : (fm.withFlag flag).base = fm.base := by
  rw [FmtSpec.withFlag]
  split
  · rfl
  split
  · rfl
  split <;> rfl

theorem parseFlags_spec (fm : FmtSpec) {fmt : CBuf} (hterm : 0 ∈ fmt) :
    ∃ fm' rest, parseFlags fmt fm = .ok (fm', rest) ∧ LeftOf fmt rest ∧ fm'.base = fm.base := by
  induction fmt generalizing fm with
  | nil => cases hterm
  | cons c fmt ih =>
    rw [parseFlags]
    by_cases hflag : c ≠ 0 ∧ c ∈ flagChars
    · rw [if_pos hflag]
      obtain ⟨fm', rest, hrun, hrest, hbase⟩ :=
        ih (fm.withFlag c) ((List.mem_cons.mp hterm).resolve_left (Ne.symm hflag.1))
      exact ⟨fm', rest, hrun, hrest.cons, hbase.trans (withFlag_base fm c)⟩
    · exact ⟨fm, c :: fmt, if_neg hflag, leftOf_self hterm, rfl⟩

/-- The flags in front of another character are taken in order. -/
theorem parseFlags_append {flags : List Byte} (hflags : ∀ c ∈ flags, c ∈ flagChars)
    {rest : List Byte} (hrest : rest ≠ []) (hhead : ∀ c ∈ rest.head?, c ∉ flagChars)
    (fm : FmtSpec) :
    parseFlags (flags ++ rest) fm = .ok (flags.foldl FmtSpec.withFlag fm, rest) := by
  induction flags generalizing fm with
  | nil =>
    cases rest with
    | nil => exact absurd rfl hrest
    | cons c rest => exact if_neg fun h => hhead c rfl h.2
  | cons c flags ih =>
    have hc := hflags c List.mem_cons_self
    have hne : c ≠ 0 := by
      rintro rfl
      exact absurd hc (by decide)
    rw [List.cons_append, parseFlags, if_pos ⟨hne, hc⟩, List.foldl_cons]
    exact ih (fun d hd => hflags d (List.mem_cons_of_mem c hd)) _

theorem findNextConversion_spec {fmt : CBuf} (hterm : 0 ∈ fmt) :
    ∃ text, (∀ c ∈ text, c ≠ 0 ∧ c ≠ 37) ∧
      ((∃ rest, fmt = text ++ 0 :: rest ∧ findNextConversion fmt = .ok (none, text.length)) ∨
        ∃ rest, fmt = text ++ 37 :: rest ∧ 0 ∈ rest ∧
          findNextConversion fmt = .ok (some (37 :: rest), text.length)) := by
  induction fmt with
  | nil => cases hterm
  | cons c fmt ih =>
    rw [findNextConversion]
    by_cases hc : c = 0
    · exact ⟨[], nofun, .inl ⟨fmt, by rw [hc]; rfl, if_pos hc⟩⟩
    have htail := (List.mem_cons.mp hterm).resolve_left (Ne.symm hc)
    rw [if_neg hc]
    by_cases hpercent : c = 37
    · exact ⟨[], nofun, .inr ⟨fmt, by rw [hpercent]; rfl, htail,
        by rw [if_pos hpercent, hpercent]; rfl⟩⟩
    · obtain ⟨text, htext, hnext⟩ := ih htail
      refine ⟨c :: text, ?_, ?_⟩
      · intro d hd
        rcases List.mem_cons.mp hd with rfl | hd
        · exact ⟨hc, hpercent⟩
        · exact htext d hd
      · rw [if_neg hpercent]
        rcases hnext with ⟨rest, rfl, hrun⟩ | ⟨rest, rfl, hrest, hrun⟩
        · exact .inl ⟨rest, rfl, by rw [hrun]; rfl⟩
        · exact .inr ⟨rest, rfl, hrest, by rw [hrun]; rfl⟩

/-- Plain text in front of a conversion or the terminator. -/
theorem findNextConversion_append {text : List Byte} (htext : ∀ c ∈ text, c ≠ 0 ∧ c ≠ 37)
    (rest : List Byte) :
    findNextConversion (text ++ 37 :: rest) = .ok (some (37 :: rest), text.length) ∧
      findNextConversion (text ++ 0 :: rest) = .ok (none, text.length) := by
  induction text with
  | nil => exact ⟨rfl, rfl⟩
  | cons c text ih =>
    obtain ⟨hc, hpercent⟩ := htext c List.mem_cons_self
    obtain ⟨hnext, hnone⟩ := ih fun d hd => htext d (List.mem_cons_of_mem c hd)
    constructor
    · rw [List.cons_append, findNextConversion, if_neg hc, if_neg hpercent, hnext]
      rfl
    · rw [List.cons_append, findNextConversion, if_neg hc, if_neg hpercent, hnone]
      rfl

/-! ## Width, precision and specifier -/

/-- Every string argument is terminated. -/
def TerminatedArgs (args : List Arg) : Prop := ∀ buf, Arg.str buf ∈ args → 0 ∈ buf

theorem TerminatedArgs.tail {a : Arg} {args : List Arg} (h : TerminatedArgs (a :: args)) :
    TerminatedArgs args := fun buf hbuf => h buf (List.mem_cons_of_mem a hbuf)

theorem vaWord_safe {args : List Arg} (hargs : TerminatedArgs args) :
    FaultsOnly .badArgument (vaWord args) fun r => TerminatedArgs r.2 := by
  cases args with
  | nil => exact .inr rfl
  | cons a args =>
    cases a with
    | word value => exact .inl ⟨_, rfl, hargs.tail⟩
    | str buf => exact .inr rfl

theorem vaString_safe {args : List Arg} (hargs : TerminatedArgs args) :
    FaultsOnly .badArgument (vaString args) fun r => 0 ∈ r.1 ∧ TerminatedArgs r.2 := by
  cases args with
  | nil => exact .inr rfl
  | cons a args =>
    cases a with
    | word value =>
      rw [vaString]
      by_cases hnull : value = 0
      · exact .inl ⟨_, if_pos hnull, zero_mem_cstr _, hargs.tail⟩
      · exact .inr (if_neg hnull)
    | str buf => exact .inl ⟨_, rfl, hargs buf List.mem_cons_self, hargs.tail⟩

theorem isToken_singleton {c : Byte} (hc : c ≠ 0) : IsToken [c] where
  nonempty := List.cons_ne_nil c []
  no_nul := fun d hd => by rwa [List.mem_singleton.mp hd]
  short := Nat.le_succ 1

theorem isToken_pair {c d : Byte} (hc : c ≠ 0) (hd : d ≠ 0) : IsToken [c, d] where
  nonempty := List.cons_ne_nil c [d]
  no_nul := fun e he => by rcases List.mem_pair.mp he with rfl | rfl <;> assumption
  short := Nat.le_refl 2

/-- What is left behind a part of a directive: an end of the format, and an unchanged base. -/
def DirectiveLeft (fm : FmtSpec) (fmt : CBuf) (r : Option (FmtSpec × CBuf × List Arg)) : Prop :=
  ∀ fm' rest args, r = some (fm', rest, args) →
    LeftOf fmt rest ∧ TerminatedArgs args ∧ fm'.base = fm.base

/-- What is left behind the specifier of an integer. -/
def SpecifierLeft (fm : FmtSpec) (fmt : CBuf)
    (r : Option (Word × Byte × FmtSpec × CBuf × List Arg)) : Prop :=
  ∀ value flag fm' rest args, r = some (value, flag, fm', rest, args) →
    LeftOf fmt rest ∧ TerminatedArgs args ∧ fm'.base = fm.base

section

variable {fm fm' : FmtSpec} {fmt rest : CBuf} {args : List Arg}

theorem directiveLeft_some (hfmt : LeftOf fmt rest) (hargs : TerminatedArgs args)
    (hbase : fm'.base = fm.base) : DirectiveLeft fm fmt (some (fm', rest, args)) := by
  intro fm'' rest' args' h
  cases h
  exact ⟨hfmt, hargs, hbase⟩

theorem specifierLeft_some {value : Word} {flag : Byte} (hfmt : LeftOf fmt rest)
    (hargs : TerminatedArgs args) (hbase : fm'.base = fm.base) :
    SpecifierLeft fm fmt (some (value, flag, fm', rest, args)) := by
  intro value' flag' fm'' rest' args' h
  cases h
  exact ⟨hfmt, hargs, hbase⟩

theorem SpecifierLeft.of_rest {r : Option (Word × Byte × FmtSpec × CBuf × List Arg)}
    (hfmt : LeftOf fmt rest) (h : SpecifierLeft fm rest r) : SpecifierLeft fm fmt r := by
  intro value flag fm' rest' args hr
  obtain ⟨hrest, hargs, hbase⟩ := h value flag fm' rest' args hr
  exact ⟨hfmt.trans hrest, hargs, hbase⟩

variable (fm)

theorem parseWidth_safe (hfmt : 0 ∈ fmt) (hargs : TerminatedArgs args) :
    FaultsOnly .badArgument (parseWidth fm fmt args) (DirectiveLeft fm fmt) := by
  rw [parseWidth]
  rcases consume_spec (isToken_singleton (c := 42) (by decide)) hfmt with
    ⟨rest, rfl, hrest, hrun⟩ | ⟨-, hrun⟩
  · rw [hrun, ok_bind]
    refine (vaWord_safe hargs).bind fun r hr => .inl ⟨_, rfl, ?_⟩
    exact directiveLeft_some (leftOf_append [42] hrest) hr rfl
  · rw [hrun, ok_bind]
    dsimp only
    rcases parseNumber_spec .maybe fm.minWidth hfmt with ⟨value, rest, hrest, hrun⟩ | hrun
    · rw [hrun, ok_bind]
      exact .inl ⟨_, rfl, directiveLeft_some hrest hargs rfl⟩
    · rw [hrun, ok_bind]
      exact .inl ⟨none, rfl, nofun⟩

theorem parsePrecision_safe (hfmt : 0 ∈ fmt) (hargs : TerminatedArgs args) :
    FaultsOnly .badArgument (parsePrecision fm fmt args) (DirectiveLeft fm fmt) := by
  rw [parsePrecision]
  rcases consume_spec (isToken_singleton (c := 46) (by decide)) hfmt with
    ⟨number, rfl, hnumber, hrun⟩ | ⟨-, hrun⟩
  · have hleft := leftOf_append [46] hnumber
    rw [hrun, ok_bind]
    dsimp only
    rcases consume_spec (isToken_singleton (c := 42) (by decide)) hnumber with
      ⟨rest, rfl, hrest, hrun⟩ | ⟨-, hrun⟩
    · rw [hrun, ok_bind]
      refine (vaWord_safe hargs).bind fun r hr => .inl ⟨_, rfl, ?_⟩
      exact directiveLeft_some (hleft.trans (leftOf_append [42] hrest)) hr rfl
    · rw [hrun, ok_bind]
      dsimp only
      rcases parseNumber_spec .must fm.precision hnumber with ⟨value, rest, hrest, hrun⟩ | hrun
      · rw [hrun, ok_bind]
        exact .inl ⟨_, rfl, directiveLeft_some (hleft.trans hrest) hargs rfl⟩
      · rw [hrun, ok_bind]
        exact .inl ⟨none, rfl, nofun⟩
  · rw [hrun, ok_bind]
    exact .inl ⟨_, rfl, directiveLeft_some (leftOf_self hfmt) hargs rfl⟩

theorem integerArgument_safe (width : Nat) (hfmt : 0 ∈ fmt) (hargs : TerminatedArgs args) :
    FaultsOnly .badArgument (integerArgument width fm fmt args) (SpecifierLeft fm fmt) := by
  rw [integerArgument]
  rcases consumeEither_spec (isToken_singleton (c := 100) (by decide))
    (isToken_singleton (c := 105) (by decide)) hfmt with ⟨rest, hrest, hrun⟩ | hrun
  · rw [hrun, ok_bind]
    exact (vaWord_safe hargs).bind fun r hr => .inl ⟨_, rfl, specifierLeft_some hrest hr rfl⟩
  · rw [hrun, ok_bind]
    dsimp only
    rcases consumeOneOf_spec [111, 120, 88, 117] hfmt with ⟨c, rest, -, hrest, hrun⟩ | hrun
    · rw [hrun, ok_bind]
      exact (vaWord_safe hargs).bind fun r hr =>
        .inl ⟨_, rfl, specifierLeft_some hrest hr rfl⟩
    · rw [hrun, ok_bind]
      exact .inl ⟨none, rfl, nofun⟩

/-- The specifier behind a modifier. -/
theorem integerArgument_behind (width : Nat) (hfmt : LeftOf fmt rest)
    (hargs : TerminatedArgs args) :
    FaultsOnly .badArgument (integerArgument width fm rest args) (SpecifierLeft fm fmt) := by
  rcases integerArgument_safe fm width hfmt.terminated hargs with ⟨r, hrun, hr⟩ | hrun
  · exact .inl ⟨r, hrun, hr.of_rest hfmt⟩
  · exact .inr hrun

theorem integerSpecifier_safe (hfmt : 0 ∈ fmt) (hargs : TerminatedArgs args) :
    FaultsOnly .badArgument (integerSpecifier fm fmt args) (SpecifierLeft fm fmt) := by
  rw [integerSpecifier]
  rcases consume_spec (isToken_pair (c := 104) (d := 104) (by decide) (by decide)) hfmt with
    ⟨rest, rfl, hrest, hrun⟩ | ⟨-, hrun⟩
  · rw [hrun, ok_bind]
    exact integerArgument_behind fm 8 (leftOf_append [104, 104] hrest) hargs
  rw [hrun, ok_bind]
  dsimp only
  rcases consume_spec (isToken_singleton (c := 104) (by decide)) hfmt with
    ⟨rest, rfl, hrest, hrun⟩ | ⟨-, hrun⟩
  · rw [hrun, ok_bind]
    exact integerArgument_behind fm 16 (leftOf_append [104] hrest) hargs
  rw [hrun, ok_bind]
  dsimp only
  rcases consumeEither_spec (isToken_pair (c := 108) (d := 108) (by decide) (by decide))
    (isToken_singleton (c := 122) (by decide)) hfmt with ⟨rest, hrest, hrun⟩ | hrun
  · rw [hrun, ok_bind]
    exact integerArgument_behind fm 64 hrest hargs
  rw [hrun, ok_bind]
  dsimp only
  rcases consumeEither_spec (isToken_singleton (c := 108) (by decide))
    (isToken_singleton (c := 122) (by decide)) hfmt with ⟨rest, hrest, hrun⟩ | hrun
  · rw [hrun, ok_bind]
    exact integerArgument_behind fm 64 hrest hargs
  · rw [hrun, ok_bind]
    exact integerArgument_safe fm 32 hfmt hargs

end

end KptrOS
