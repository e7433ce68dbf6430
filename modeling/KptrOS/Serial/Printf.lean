import KptrOS.Serial.Text

/-!
# What `serial_printf` writes

The reference rendering of a format, and the proof that the format loop of
`serial_printf` computes it.

- `formatItems`: the characters and directives of a terminated format. A `%` in front of
  the terminator has no reading.
- `Supplies`, `render`: the arguments that a format asks for, and its text.
- `serialPrintf_render`: the format loop, by induction over the format.
- `formatItems_append`, `Supplies.append`, `render_append`: formats and their arguments
  compose.
- `serialPrintf_cstr`, `serialPrintf_hexFormat`: the formats of the kernel's messages.
-/

namespace KptrOS

open CSem

/-! ## Formats -/

/-- What a format consists of. -/
inductive FormatItem where
  /-- A character that stands for itself. -/
  | literal (c : Byte)
  /-- `%d`. -/
  | decimal
  /-- `%x`. -/
  | hex
  /-- `%s`. -/
  | string
  /-- `%%`. -/
  | percent
  /-- `%` and any other character. -/
  | unknown
deriving DecidableEq

/-- The directive of `%` followed by `d`. -/
def FormatItem.ofDirective (d : Byte) : FormatItem :=
  if d = 100 then .decimal
  else if d = 120 then .hex
  else if d = 115 then .string
  else if d = 37 then .percent
  else .unknown

/-- The items of a terminated format in which every `%` that introduces a directive has a
character behind it. -/
def formatItems : CBuf → Option (List FormatItem)
  | [] => none
  | c :: fmt =>
    if c = 0 then some []
    else if c = 37 then
      match fmt with
      | [] => none
      | d :: fmt => if d = 0 then none else (formatItems fmt).map (.ofDirective d :: ·)
    else (formatItems fmt).map (.literal c :: ·)

/-- The arguments are those that the directives ask for, in order: an integer for `%d` and
`%x`, a terminated string for `%s`. -/
inductive Supplies : List FormatItem → List Arg → Prop where
  | nil : Supplies [] []
  | literal {items args} (c : Byte) : Supplies items args → Supplies (.literal c :: items) args
  | decimal {items args} (value : Word) : Supplies items args →
      Supplies (.decimal :: items) (.word value :: args)
  | hex {items args} (value : Word) : Supplies items args →
      Supplies (.hex :: items) (.word value :: args)
  | string {items args} {buf : CBuf} : 0 ∈ buf → Supplies items args →
      Supplies (.string :: items) (.str buf :: args)
  | percent {items args} : Supplies items args → Supplies (.percent :: items) args
  | unknown {items args} : Supplies items args → Supplies (.unknown :: items) args

/-- The text of a format on its arguments. -/
def render : List FormatItem → List Arg → List Byte
  | .literal c :: items, args => c :: render items args
  | .decimal :: items, .word value :: args => intText (value.setWidth 32) ++ render items args
  | .hex :: items, .word value :: args => hexText value ++ render items args
  | .string :: items, .str buf :: args => cText buf ++ render items args
  | .percent :: items, args => 37 :: render items args
  | .unknown :: items, args => lit "[UNKNOWN]" ++ render items args
  | _, _ => []

/-! ## The format loop -/

/-- One iteration on a directive: it writes the text of its own item and consumes the
argument of that item. -/
theorem serialPrintfDirective_render {d : Byte} {items : List FormatItem} {args : List Arg}
    (h : Supplies (.ofDirective d :: items) args) (extra : List Arg) (out : Com1) :
    ∃ text args', Supplies items args' ∧
      render (.ofDirective d :: items) args = text ++ render items args' ∧
      serialPrintfDirective d (args ++ extra) out = .ok (args' ++ extra, out ++ text) := by
  by_cases hd : d = 100
  · subst hd
    cases (show Supplies (.decimal :: items) args from h) with
    | @decimal _ args value hrest =>
      refine ⟨_, args, hrest, rfl, ?_⟩
      show serialPrintfDirective 100 (.word value :: (args ++ extra)) out = _
      have hwrite := serialWrite_intToString (by decide : 12 ≤ 21) (value.setWidth 32)
        (Arr.const 21 0) out
      rw [serialPrintfDirective_d, ← bind_assoc, hwrite]
      rfl
  by_cases hx : d = 120
  · subst hx
    cases (show Supplies (.hex :: items) args from h) with
    | @hex _ args value hrest =>
      refine ⟨_, args, hrest, rfl, ?_⟩
      show (do return (args ++ extra, ← serialWriteHex value out)) = _
      rw [serialWriteHex_text]
      rfl
  by_cases hs : d = 115
  · subst hs
    cases (show Supplies (.string :: items) args from h) with
    | @string _ args buf hbuf hrest =>
      refine ⟨_, args, hrest, rfl, ?_⟩
      show serialPrintfDirective 115 (.str buf :: (args ++ extra)) out = _
      rw [serialPrintfDirective_s, serialWrite_text hbuf]
      rfl
  by_cases hp : d = 37
  · subst hp
    cases (show Supplies (.percent :: items) args from h) with
    | percent hrest =>
      refine ⟨[37], args, hrest, rfl, ?_⟩
      show (do return (args ++ extra, ← serialWrite (cstr "%") out)) = _
      rw [serialWrite_cstr]
      rfl
  · have hitem : FormatItem.ofDirective d = .unknown := by
      simp only [FormatItem.ofDirective, hd, hx, hs, hp, if_false]
    rw [hitem] at h ⊢
    cases h with
    | unknown hrest =>
      refine ⟨_, args, hrest, rfl, ?_⟩
      rw [serialPrintfDirective.eq_def, if_neg hd, if_neg hx, if_neg hs, if_neg hp, serialWrite_cstr]
      rfl

/-- **`serial_printf` writes the rendering of its format**, and ignores arguments behind
those that the format asks for. -/
theorem serialPrintf_render {fmt : CBuf} {items : List FormatItem} {args : List Arg}
    (hfmt : formatItems fmt = some items) (hargs : Supplies items args) (extra : List Arg)
    (out : Com1) :
    serialPrintf fmt (args ++ extra) out = .ok (out ++ render items args) := by
  fun_induction formatItems fmt generalizing items args out with
  | case1 => cases hfmt
  | case2 fmt =>
    cases hfmt
    cases hargs
    rw [serialPrintf.eq_def]
    exact congrArg Except.ok (List.append_nil out).symm
  | case3 => cases hfmt
  | case4 => cases hfmt
  | case5 d fmt hd h0 ih =>
    -- a directive: the cursor moves behind its character
    obtain ⟨items, hitems, rfl⟩ := Option.map_eq_some_iff.mp hfmt
    obtain ⟨text, args', hsupplies, hrender, hdirective⟩ :=
      serialPrintfDirective_render hargs extra out
    rw [serialPrintf_directive, hdirective, hrender, ← List.append_assoc]
    exact ih hitems hsupplies _
  | case6 c fmt h0 h37 ih =>
    obtain ⟨items, hitems, rfl⟩ := Option.map_eq_some_iff.mp hfmt
    cases hargs with
    | literal _ hargs =>
      rw [serialPrintf_cons h0 h37, ih hitems hargs, outb, List.append_assoc]
      rfl

/-! ## Composition -/

/-- The items of two formats in a row. -/
theorem formatItems_append {f g : CBuf} {fi gi : List FormatItem}
    (hf : formatItems f = some fi) (hg : formatItems g = some gi) :
    formatItems (cText f ++ g) = some (fi ++ gi) := by
  fun_induction formatItems f generalizing fi with
  | case1 => cases hf
  | case2 fmt =>
    cases hf
    exact hg
  | case3 => cases hf
  | case4 => cases hf
  | case5 d fmt hd h0 ih =>
    obtain ⟨items, hitems, rfl⟩ := Option.map_eq_some_iff.mp hf
    rw [cText_cons h0, cText_cons hd]
    show formatItems (37 :: d :: (cText fmt ++ g)) = _
    rw [formatItems.eq_def]
    show (if d = 0 then none else (formatItems (cText fmt ++ g)).map (.ofDirective d :: ·)) = _
    rw [if_neg hd, ih hitems]
    rfl
  | case6 c fmt h0 h37 ih =>
    obtain ⟨items, hitems, rfl⟩ := Option.map_eq_some_iff.mp hf
    rw [cText_cons h0]
    show formatItems (c :: (cText fmt ++ g)) = _
    rw [formatItems.eq_def]
    simp only [if_neg h0, if_neg h37]
    rw [ih hitems]
    rfl

theorem Supplies.append {fi gi : List FormatItem} {as bs : List Arg} (hf : Supplies fi as)
    (hg : Supplies gi bs) : Supplies (fi ++ gi) (as ++ bs) := by
  induction hf with
  | nil => exact hg
  | literal c _ ih => exact ih.literal c
  | decimal value _ ih => exact ih.decimal value
  | hex value _ ih => exact ih.hex value
  | string hbuf _ ih => exact ih.string hbuf
  | percent _ ih => exact ih.percent
  | unknown _ ih => exact ih.unknown

theorem render_append {fi gi : List FormatItem} {as : List Arg} (hf : Supplies fi as)
    (bs : List Arg) : render (fi ++ gi) (as ++ bs) = render fi as ++ render gi bs := by
  induction hf with
  | nil => rfl
  | literal c _ ih => exact congrArg (c :: ·) ih
  | percent _ ih => exact congrArg (37 :: ·) ih
  | decimal value _ ih | hex value _ ih | string _ _ ih | unknown _ ih =>
    simp only [List.cons_append, render, ih, List.append_assoc]

/-! ## Literal text -/

/-- The items of a string without `%`. -/
def literals (s : String) : List FormatItem := (lit s).map .literal

theorem Supplies.literals {items : List FormatItem} {args : List Arg}
    (h : Supplies items args) (s : String) : Supplies (literals s ++ items) args := by
  rw [KptrOS.literals]
  induction lit s with
  | nil => exact h
  | cons c text ih => exact ih.literal c

@[simp] theorem render_literals (s : String) (items : List FormatItem) (args : List Arg) :
    render (literals s ++ items) args = lit s ++ render items args := by
  rw [literals]
  induction lit s with
  | nil => rfl
  | cons c text ih => exact congrArg (c :: ·) ih

@[simp] theorem render_nil (args : List Arg) : render [] args = [] := by
  rw [render.eq_def]

/-- A format without `%` is literal text. -/
theorem formatItems_of_not_mem {fmt : CBuf} (hnul : 0 ∈ fmt) (h37 : 37 ∉ cText fmt) :
    formatItems fmt = some ((cText fmt).map .literal) := by
  induction fmt with
  | nil => exact absurd hnul List.not_mem_nil
  | cons c fmt ih =>
    rw [formatItems.eq_def]
    by_cases h0 : c = 0
    · subst h0
      rfl
    · rw [cText_cons h0] at h37 ⊢
      obtain ⟨hc, hrest⟩ := not_or.mp fun h => h37 (List.mem_cons.mpr h)
      simp only [if_neg h0, if_neg (Ne.symm hc)]
      rw [ih ((List.mem_cons.mp hnul).resolve_left (Ne.symm h0)) hrest]
      rfl

/-- A string literal without directives is written verbatim. -/
theorem serialPrintf_cstr {s : String} (h : 37 ∉ lit s) (out : Com1) :
    serialPrintf (cstr s) [] out = .ok (out ++ lit s) := by
  have hitems : formatItems (cstr s) = some (literals s ++ []) := by
    rw [List.append_nil]
    exact formatItems_of_not_mem (zero_mem_cstr s) h
  have hprint := serialPrintf_render hitems (Supplies.nil.literals s) [] out
  rwa [render_literals, render_nil, List.append_nil, List.append_nil] at hprint

/-! ## Formats with hexadecimal values -/

/-- A text with values in it: each value is followed by a literal. -/
def hexFormatText (first : String) (rest : List (Word × String)) : List Byte :=
  lit first ++ rest.flatMap fun p => hexText p.1 ++ lit p.2

/-- The items of its format. -/
def hexFormatItems (first : String) (rest : List (Word × String)) : List FormatItem :=
  literals first ++ rest.flatMap fun p => .hex :: literals p.2

/-- A format with `%x` directives only. -/
theorem serialPrintf_hexFormat {s first : String} {rest : List (Word × String)}
    (h : formatItems (cstr s) = some (hexFormatItems first rest)) (out : Com1) :
    serialPrintf (cstr s) (rest.map fun p => .word p.1) out =
      .ok (out ++ hexFormatText first rest) := by
  have hrest : Supplies (rest.flatMap fun p => .hex :: literals p.2)
        (rest.map fun p => .word p.1) ∧
      render (rest.flatMap fun p => .hex :: literals p.2) (rest.map fun p => .word p.1) =
        rest.flatMap fun p => hexText p.1 ++ lit p.2 := by
    clear h
    induction rest with
    | nil => exact ⟨.nil, render_nil []⟩
    | cons p rest ih =>
      refine ⟨(ih.1.literals p.2).hex p.1, ?_⟩
      show hexText p.1 ++ render (literals p.2 ++ rest.flatMap fun p => .hex :: literals p.2)
        (rest.map fun p => .word p.1) = _
      rw [render_literals, ih.2, List.flatMap_cons, List.append_assoc]
  have hprint := serialPrintf_render h (hrest.1.literals first) [] out
  rwa [List.append_nil, hexFormatItems, render_literals, hrest.2] at hprint

/-- The values can be read back from the text, whatever follows it. -/
theorem hexFormatText_inj {first : String} {rest rest' : List (Word × String)}
    {tail tail' : List Byte} (hlits : rest.map Prod.snd = rest'.map Prod.snd)
    (h : hexFormatText first rest ++ tail = hexFormatText first rest' ++ tail') :
    rest = rest' ∧ tail = tail' := by
  rw [hexFormatText, hexFormatText, List.append_assoc, List.append_assoc] at h
  replace h := List.append_cancel_left h
  induction rest generalizing rest' with
  | nil =>
    obtain rfl : rest' = [] := List.map_eq_nil_iff.mp hlits.symm
    exact ⟨rfl, h⟩
  | cons p rest ih =>
    cases rest' with
    | nil => cases hlits
    | cons p' rest' =>
      obtain ⟨hlit, hlits⟩ := List.cons.inj hlits
      rw [List.flatMap_cons, List.flatMap_cons, List.append_assoc, List.append_assoc,
        List.append_assoc, List.append_assoc] at h
      obtain ⟨hvalue, h⟩ := List.append_inj h (by rw [hexText_length, hexText_length])
      rw [hlit] at h
      obtain ⟨hrest, htail⟩ := ih hlits (List.append_cancel_left h)
      exact ⟨congrArg₂ List.cons (Prod.ext (hexText_inj.mp hvalue) hlit) hrest, htail⟩

end KptrOS
