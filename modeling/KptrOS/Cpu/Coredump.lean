import KptrOS.Cpu.Exception
import KptrOS.Lib.Codec

/-!
# Reading a core dump back

A decoder for what `coredump` writes: the labels are known, a value is sixteen digits behind
`0x`, and the labels of the registers are counted in decimal.

- `parseHex_digits`: the digits of a value are read back; `hexText_lt_iff` compares two
  values by their texts.
- `coredumpDecoder`: the decoder; `coredumpText_reads`: it finds the state in its dump.
- `coredump_lossless`: the functions.
-/

namespace KptrOS

open CSem Codec

/-! ## Values -/

/-- The number that a text of digits stands for. -/
def parseHex (text : List Byte) : Option Nat := Numeral.parse 16 hexDigitOf text

theorem hexDigit_lt_iff : ∀ d e, d < 16 → e < 16 → (hexDigit d < hexDigit e ↔ d < e) := by
  have hall : ∀ d, d < 16 → ∀ e, e < 16 → (hexDigit d < hexDigit e ↔ d < e) := by decide
  exact fun d e hd => hall d hd e

theorem parseHex_digits (value : Word) :
    parseHex (hexDigitsOf 16 value.toNat) = some value.toNat := by
  rw [hexDigitsOf_eq_fixed]
  exact Numeral.parse_fixed hexDigitOf_hexDigit (by decide) (by decide) value.isLt

/-- **Texts of values compare as the values do.** -/
theorem hexText_lt_iff (v w : Word) : hexText v < hexText w ↔ v < w := by
  have hbehind : hexText v < hexText w ↔
      hexDigitsOf 16 v.toNat < hexDigitsOf 16 w.toNat := by
    simp [hexText]
  rw [hbehind, hexDigitsOf_eq_fixed, hexDigitsOf_eq_fixed, BitVec.lt_def]
  exact Numeral.fixed_lt_iff hexDigitOf_hexDigit hexDigit_lt_iff (by decide) v.isLt w.isLt

/-! ## The decoder -/

/-- A value of `serial_write_hex`. -/
def hexDecoder : Decoder Byte Word := do
  expect [48, 120]
  let value ← field 16 parseHex
  return BitVec.ofNat 64 value

/-- A line of the core dump. -/
def lineDecoder (name : String) : Decoder Byte Word := do
  expect (lit name)
  let value ← hexDecoder
  expect (lit "\n")
  return value

/-- The line of a register. -/
def registerDecoder (i : Fin 16) : Decoder Byte Word := do
  expect (lit "REG[")
  expect (decText i)
  lineDecoder "]: "

/-- A core dump. -/
def coredumpDecoder : Decoder Byte CpuState := do
  expect (lit "\n--- CORE DUMP ---\n")
  let rip ← lineDecoder "RIP: "
  let rsp ← lineDecoder "RSP: "
  let rbp ← lineDecoder "RBP: "
  let rflags ← lineDecoder "RFLAGS: "
  let values ← (List.finRange 16).mapM registerDecoder
  expect (lit "--- END CORE DUMP ---\n")
  return { rip, rsp, rbp, rflags, registers := ⟨fun i => values.getD i 0⟩ }

theorem hexText_reads (value : Word) : Reads hexDecoder (hexText value) value := by
  have hfield : Reads (field 16 parseHex) (hexDigitsOf 16 value.toNat) value.toNat :=
    reads_field (hexDigitsOf_length 16 _) (parseHex_digits value)
  have hvalue := hfield.map (BitVec.ofNat 64)
  rw [BitVec.ofNat_toNat, BitVec.setWidth_eq] at hvalue
  exact (reads_expect [48, 120]).bind hvalue

theorem lineText_reads (name : String) (value : Word) :
    Reads (lineDecoder name) (lineText name value) value := by
  rw [lineText_eq]
  exact (reads_expect (lit name)).bind
    ((hexText_reads value).bind ((reads_expect (lit "\n")).map fun _ => value))

theorem registerText_reads (state : CpuState) (i : Fin 16) :
    Reads (registerDecoder i) (registerText state i) (state.registers.elem i) := by
  rw [registerText]
  exact (reads_expect (lit "REG[")).bind ((reads_expect (decText i)).bind
    (lineText_reads "]: " (state.registers.elem i)))

/-- The values of an array, in order, are the array. -/
theorem getD_map_finRange {n : Nat} (a : Arr n Word) :
    (⟨fun i => ((List.finRange n).map a.elem).getD i 0⟩ : Arr n Word) = a := by
  refine congrArg Arr.mk (funext fun i => ?_)
  simp

/-- **The decoder finds the state.** -/
theorem coredumpText_reads (state : CpuState) :
    Reads coredumpDecoder (coredumpText state) state := by
  have hregs := Reads.each (registerText_reads state) (List.finRange 16)
  have hread : Reads coredumpDecoder (coredumpText state) { state with
      registers := ⟨fun i => ((List.finRange 16).map state.registers.elem).getD i 0⟩ } := by
    rw [coredumpText]
    exact (reads_expect (lit "\n--- CORE DUMP ---\n")).bind
      ((lineText_reads "RIP: " state.rip).bind ((lineText_reads "RSP: " state.rsp).bind
        ((lineText_reads "RBP: " state.rbp).bind ((lineText_reads "RFLAGS: " state.rflags).bind
          (hregs.bind ((reads_expect (lit "--- END CORE DUMP ---\n")).map _))))))
  rwa [getD_map_finRange] at hread

/-- **A core dump is lossless.** One decoder reads every state back from what `coredump`
emits, so that no two states have the same dump; and `serial_write_hex` emits `0x` and sixteen
uppercase digits that stand for the value, and compare as texts as the values do. -/
theorem coredump_lossless :
    (∀ state out, coredump state out = .ok (out ++ coredumpText state) ∧
        decode coredumpDecoder (coredumpText state) = some state) ∧
      Function.Injective coredumpText ∧
      (∀ value out, ∃ digits, hexText value = [48, 120] ++ digits ∧
        serialWriteHex value out = .ok (out ++ hexText value) ∧ digits.length = 16 ∧
        (∀ c ∈ digits, 48 ≤ c.toNat ∧ c.toNat ≤ 57 ∨ 65 ≤ c.toNat ∧ c.toNat ≤ 70) ∧
        parseHex digits = some value.toNat) ∧
      ∀ v w, hexText v < hexText w ↔ v < w := by
  refine ⟨fun state out => ⟨coredump_ok state out, decode_of_reads (coredumpText_reads state)⟩,
    Reads.injective coredumpText_reads, fun value out => ⟨hexDigitsOf 16 value.toNat, rfl,
      serialWriteHex_text value out, hexDigitsOf_length 16 _, fun c hc => ?_,
      parseHex_digits value⟩, hexText_lt_iff⟩
  obtain ⟨d, hd, rfl⟩ := hexDigitsOf_digits hc
  have hall : ∀ d, d < 16 → 48 ≤ (hexDigit d).toNat ∧ (hexDigit d).toNat ≤ 57 ∨
      65 ≤ (hexDigit d).toNat ∧ (hexDigit d).toNat ≤ 70 := by decide
  exact hall d hd

end KptrOS
