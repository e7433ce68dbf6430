import KptrOS.Uacpi.Integer

/-!
# Formatted output (`kern/acpi/stdlib.c`)

`uacpi_vsnprintf` and what it is made of, from the characters it writes to the directives it
parses, and `uacpi_log` on top of it.

- `FmtBufState`: a buffer of known capacity and the count of characters that were meant for
  it; `writeOne`, `writeMany`, `writePadding`, `writeInteger`, `writeString`.
- `consume`, `consumeOneOf`, `consumeDigits`, `parseNumber`: the parser of the directives.
- `conversion`: the conversions, one after the other, and `vsnprintfLoop` around them.
- `uacpiVsnprintf`, `uacpiLog`.
-/

namespace KptrOS

open CSem

/-! ## The buffer -/

/-- `struct fmt_buf_state` for a buffer of `capacity = n` bytes. -/
structure FmtBufState (n : Nat) where
  buffer : Arr n Byte
  bytesWritten : Nat

/-- `struct fmt_spec`. -/
structure FmtSpec where
  isSigned : Bool := false
  prepend : Bool := false
  uppercase : Bool := false
  leftJustify : Bool := false
  alternateForm : Bool := false
  hasPrecision : Bool := false
  padChar : Byte := 32
  prependChar : Byte := 0
  minWidth : Word := 0
  precision : Word := 0
  base : Word := 10

section

variable {n : Nat}

/-- The `size_t` counter after `count` more characters. -/
def FmtBufState.count (fb : FmtBufState n) (count : Nat) : FmtBufState n :=
  { fb with bytesWritten := (fb.bytesWritten + count) % 2 ^ 64 }

/-- `write_one`. -/
def writeOne (c : Byte) (fb : FmtBufState n) : Exec (FmtBufState n) := do
  if fb.bytesWritten < n then
    let buffer ← fb.buffer.set fb.bytesWritten c
    return { fb with buffer := buffer }.count 1
  return fb.count 1

/-- `uacpi_memcpy(&buffer[i], string, …)`. -/
def copyInto (buffer : Arr n Byte) : (i : Nat) → List Byte → Exec (Arr n Byte)
  | _, [] => .ok buffer
  | i, c :: string => do
    let buffer ← buffer.set i c
    copyInto buffer (i + 1) string

/-- `write_many`, with the `count` characters of `string`. -/
def writeMany (string : List Byte) (fb : FmtBufState n) : Exec (FmtBufState n) := do
  if fb.bytesWritten < n then
    let countToWrite := min string.length (n - fb.bytesWritten)
    let buffer ← copyInto fb.buffer fb.bytesWritten (string.take countToWrite)
    return { fb with buffer := buffer }.count string.length
  return fb.count string.length

/-- `while (count--) write_one(c);` -/
def writeRepeated (c : Byte) : (count : Nat) → FmtBufState n → Exec (FmtBufState n)
  | 0, fb => .ok fb
  | count + 1, fb => do
    let fb ← writeOne c fb
    writeRepeated c count fb

/-- `write_padding`. -/
def writePadding (fm : FmtSpec) (reprSize : Nat) (fb : FmtBufState n) :
    Exec (FmtBufState n) :=
  if fm.minWidth.toNat ≤ reprSize then .ok fb
  else writeRepeated (if fm.leftJustify then 32 else fm.padChar)
    (fm.minWidth.toNat - reprSize) fb

/-! ## Integers -/

/-- `"0123456789abcdef"`. -/
def lowerHex : Arr 17 Byte := ⟨fun i => (cstr "0123456789abcdef").getD i 0⟩

/-- `hex_char`. -/
def hexChar (upper : Bool) (value : Word) : Exec Byte :=
  (if upper then hexDigits else lowerHex).get value.toNat

/-- The character of a digit in `write_integer`. -/
def reprChar (fm : FmtSpec) (remainder : Word) : Exec Byte :=
  if fm.base = 16 then hexChar fm.uppercase remainder
  else if fm.base = 8 ∨ fm.base = 10 then .ok (remainder.setWidth 8 + 48)
  else .ok 63

/-- `repr_buffer[--index] = c`. -/
def pushRepr (c : Byte) : Nat × Arr 32 Byte → Exec (Nat × Arr 32 Byte)
  | (0, _) => .error .outOfBounds
  | (index + 1, repr) => do return (index, ← repr.set index c)

/-- `while (value) { … }`: a value has no more than 64 digits. -/
def writeIntegerLoop (fm : FmtSpec) :
    (bound : Nat) → Word → Nat × Arr 32 Byte → Exec (Nat × Arr 32 Byte)
  | 0, _, _ => .error .diverged
  | bound + 1, value, repr => do
    if value = 0 then return repr
    let remainder := value % fm.base
    let value ← udiv value fm.base
    let repr ← pushRepr (← reprChar fm remainder) repr
    writeIntegerLoop fm bound value repr

/-- The prefix of the alternate form, in front of the digits. -/
def pushPrefix (fm : FmtSpec) (repr : Nat × Arr 32 Byte) : Exec (Nat × Arr 32 Byte) := do
  if fm.alternateForm then
    if fm.base = 16 then
      pushRepr 48 (← pushRepr (if fm.uppercase then 88 else 120) repr)
    else if fm.base = 8 then pushRepr 48 repr
    else return repr
  else return repr

/-- `write_integer`. Negation wraps. -/
def writeInteger (fm : FmtSpec) (value : Word) (fb : FmtBufState n) :
    Exec (FmtBufState n) := do
  let negative := fm.isSigned && value.slt 0
  let value := if negative then -value else value
  let fb ←
    if fm.prepend || negative then writeOne (if negative then 45 else fm.prependChar) fb
    else pure fb
  let repr ← writeIntegerLoop fm 65 value (32, .const 32 0)
  let repr ← if repr.1 = 32 then pushRepr 48 repr else pure repr
  let (index, repr) ← pushPrefix fm repr
  let string := (List.ofFn repr.elem).drop index
  if fm.leftJustify then
    let fb ← writeMany string fb
    writePadding fm string.length fb
  else
    let fb ← writePadding fm string.length fb
    writeMany string fb

/-! ## Strings -/

/-- The loop over the characters of a `%s`, up to the precision if there is one: the count of
characters and the buffer. -/
def writeString (limit : Option Nat) : CBuf → (i : Nat) → FmtBufState n →
    Exec (Nat × FmtBufState n)
  | [], i, fb => if limit.any (· ≤ i) then .ok (i, fb) else .error .outOfBounds
  | c :: string, i, fb => do
    if limit.any (· ≤ i) then return (i, fb)
    if c = 0 then return (i, fb)
    let fb ← writeOne c fb
    writeString limit string (i + 1) fb

end

/-! ## The parser of directives -/

/-- `string_has_at_least`. -/
def stringHasAtLeast : CBuf → (characters : Nat) → Exec Bool
  | [], _ => .error .outOfBounds
  | c :: string, characters =>
    if c = 0 then .ok false
    else if (characters + 2 ^ 64 - 1) % 2 ^ 64 = 0 then .ok true
    else stringHasAtLeast string ((characters + 2 ^ 64 - 1) % 2 ^ 64)

/-- `consume`: the rest of the string, unless the function returns false. -/
def consume (token : List Byte) (string : CBuf) : Exec (Option CBuf) := do
  if ← stringHasAtLeast string token.length then
    if string.take token.length = token then return some (string.drop token.length)
  return none

/-- `consume(&fmt, first) || consume(&fmt, second)`. -/
def consumeEither (first second : List Byte) (string : CBuf) : Exec (Option CBuf) := do
  match ← consume first string with
  | some string => return some string
  | none => consume second string

/-- `consume_one_of`: the character and the rest of the string, unless the function returns
false. -/
def consumeOneOf (list : List Byte) : CBuf → Exec (Option (Byte × CBuf))
  | [] => .error .outOfBounds
  | c :: string =>
    if c = 0 then .ok none
    else if c ∈ list then .ok (some (c, string)) else .ok none

/-- `consume_digits`: how many there are, and the rest of the string. -/
def consumeDigits : CBuf → Exec (Nat × CBuf)
  | [] => .error .outOfBounds
  | c :: string =>
    if c < 48 ∨ c > 57 then .ok (0, c :: string)
    else do
      let (size, string) ← consumeDigits string
      return (size + 1, string)

/-- `enum parse_number_mode`. -/
inductive ParseNumberMode where
  | maybe
  | must
deriving DecidableEq

/-- `parse_number`, with the `value` that a missing number leaves: the number and the rest of
the string, unless the function returns false. -/
def parseNumber (mode : ParseNumberMode) (value : Word) (fmt : CBuf) :
    Exec (Option (Word × CBuf)) := do
  let (numDigits, rest) ← consumeDigits fmt
  if numDigits = 0 then return if mode = .must then none else some (value, rest)
  let (ret, value) ← stringToInteger fmt numDigits .dec
  return if ret = .ok then some (value, rest) else none

/-- `base_from_specifier`. -/
def baseFromSpecifier (specifier : Byte) : Word :=
  if specifier = 120 ∨ specifier = 88 then 16 else if specifier = 111 then 8 else 10

/-- `is_uppercase_specifier`. -/
def isUppercaseSpecifier (specifier : Byte) : Bool := specifier = 88

/-- `find_next_conversion`: where it begins, if there is one, and its offset. -/
def findNextConversion : CBuf → Exec (Option CBuf × Nat)
  | [] => .error .outOfBounds
  | c :: fmt =>
    if c = 0 then .ok (none, 0)
    else if c = 37 then .ok (some (c :: fmt), 0)
    else do
      let (next, offset) ← findNextConversion fmt
      return (next, offset + 1)

/-- `va_arg(vlist, …)` of an integer or a pointer that is not dereferenced. -/
def vaWord : List Arg → Exec (Word × List Arg)
  | .word value :: args => .ok (value, args)
  | _ => .error .badArgument

/-- `va_arg(vlist, uacpi_char *)`, with `"<null>"` for the null pointer. -/
def vaString : List Arg → Exec (CBuf × List Arg)
  | .str buf :: args => .ok (buf, args)
  | .word value :: args =>
    if value = 0 then .ok (cstr "<null>", args) else .error .badArgument
  | [] => .error .badArgument

/-- `"+- 0#"`. -/
def flagChars : List Byte := [43, 45, 32, 48, 35]

/-- The `switch (flag)`. -/
def FmtSpec.withFlag (fm : FmtSpec) (flag : Byte) : FmtSpec :=
  if flag = 43 ∨ flag = 32 then { fm with prepend := true, prependChar := flag }
  else if flag = 45 then { fm with leftJustify := true }
  else if flag = 48 then { fm with padChar := 48 }
  else { fm with alternateForm := true }

/-- `while (consume_one_of(&fmt, "+- 0#", &flag)) { … }`. -/
def parseFlags : CBuf → FmtSpec → Exec (FmtSpec × CBuf)
  | [], _ => .error .outOfBounds
  | c :: fmt, fm =>
    if c ≠ 0 ∧ c ∈ flagChars then parseFlags fmt (fm.withFlag c) else .ok (fm, c :: fmt)

/-- The width of a directive, unless the function returns -1. -/
def parseWidth (fm : FmtSpec) (fmt : CBuf) (args : List Arg) :
    Exec (Option (FmtSpec × CBuf × List Arg)) := do
  match ← consume [42] fmt with -- '*'
  | some fmt =>
    let (value, args) ← vaWord args
    return some ({ fm with minWidth := (value.setWidth 32).signExtend 64 }, fmt, args)
  | none =>
    match ← parseNumber .maybe fm.minWidth fmt with
    | none => return none
    | some (value, fmt) => return some ({ fm with minWidth := value }, fmt, args)

/-- The precision of a directive, unless the function returns -1. -/
def parsePrecision (fm : FmtSpec) (fmt : CBuf) (args : List Arg) :
    Exec (Option (FmtSpec × CBuf × List Arg)) := do
  match ← consume [46] fmt with -- '.'
  | none => return some (fm, fmt, args)
  | some fmt =>
    let fm := { fm with hasPrecision := true }
    match ← consume [42] fmt with -- '*'
    | some fmt =>
      let (value, args) ← vaWord args
      return some ({ fm with precision := (value.setWidth 32).signExtend 64 }, fmt, args)
    | none =>
      match ← parseNumber .must fm.precision fmt with
      | none => return none
      | some (value, fmt) => return some ({ fm with precision := value }, fmt, args)

/-- The specifier behind a length modifier for integers of `width` bits: `value`, `flag` and
what is left, unless the function returns -1. -/
def integerArgument (width : Nat) (fm : FmtSpec) (fmt : CBuf) (args : List Arg) :
    Exec (Option (Word × Byte × FmtSpec × CBuf × List Arg)) := do
  match ← consumeEither [100] [105] fmt with -- 'd', 'i'
  | some fmt =>
    let (value, args) ← vaWord args
    return some ((value.setWidth width).signExtend 64, 0, { fm with isSigned := true }, fmt, args)
  | none =>
    match ← consumeOneOf [111, 120, 88, 117] fmt with -- 'o', 'x', 'X', 'u'
    | none => return none
    | some (flag, fmt) =>
      let (value, args) ← vaWord args
      return some ((value.setWidth width).setWidth 64, flag, fm, fmt, args)

/-- The length modifiers and the specifier of an integer. -/
def integerSpecifier (fm : FmtSpec) (fmt : CBuf) (args : List Arg) :
    Exec (Option (Word × Byte × FmtSpec × CBuf × List Arg)) := do
  match ← consume [104, 104] fmt with -- "hh"
  | some fmt => integerArgument 8 fm fmt args
  | none =>
    match ← consume [104] fmt with -- 'h'
    | some fmt => integerArgument 16 fm fmt args
    | none =>
      match ← consumeEither [108, 108] [122] fmt with -- "ll", 'z'
      | some fmt => integerArgument 64 fm fmt args
      | none =>
        match ← consumeEither [108] [122] fmt with -- 'l', 'z'
        | some fmt => integerArgument 64 fm fmt args
        | none => integerArgument 32 fm fmt args

section

variable {n : Nat}

/-- The label `write_int`. -/
def writeInt (flag : Byte) (fm : FmtSpec) (value : Word) (fb : FmtBufState n) :
    Exec (FmtBufState n) :=
  writeInteger
    (if flag ≠ 0 then
      { fm with base := baseFromSpecifier flag, uppercase := isUppercaseSpecifier flag }
    else fm) value fb

/-- The conversion of a directive: the rest of the format and of the arguments, unless the
function returns -1, and the buffer. -/
def conversion (fm : FmtSpec) (fmt : CBuf) (args : List Arg) (fb : FmtBufState n) :
    Exec (Option (CBuf × List Arg) × FmtBufState n) := do
  match ← consume [99] fmt with -- 'c'
  | some fmt =>
    let (value, args) ← vaWord args
    return (some (fmt, args), ← writeOne (value.setWidth 8) fb)
  | none =>
    match ← consume [115] fmt with -- 's'
    | some fmt =>
      let (string, args) ← vaString args
      let limit := if fm.hasPrecision then some fm.precision.toNat else none
      let (i, fb) ← writeString limit string 0 fb
      return (some (fmt, args), ← writeRepeated 32 (fm.minWidth.toNat - i) fb)
    | none =>
      match ← consume [112] fmt with -- 'p'
      | some fmt =>
        let (value, args) ← vaWord args
        let fm := { fm with base := 16, minWidth := 16, padChar := 48 }
        return (some (fmt, args), ← writeInt 0 fm value fb)
      | none =>
        match ← integerSpecifier fm fmt args with
        | none => return (none, fb)
        | some (value, flag, fm, fmt, args) =>
          return (some (fmt, args), ← writeInt flag fm value fb)

/-- A directive behind its `%`, as `conversion`. -/
def directive (fmt : CBuf) (args : List Arg) (fb : FmtBufState n) :
    Exec (Option (CBuf × List Arg) × FmtBufState n) := do
  let (fm, fmt) ← parseFlags fmt {}
  match ← parseWidth fm fmt args with
  | none => return (none, fb)
  | some (fm, fmt, args) =>
    match ← parsePrecision fm fmt args with
    | none => return (none, fb)
    | some (fm, fmt, args) => conversion fm fmt args fb

/-- The format loop: whether it ends at the terminator, and the buffer. -/
def vsnprintfLoop : (bound : Nat) → CBuf → List Arg → FmtBufState n →
    Exec (Bool × FmtBufState n)
  | 0, _, _, _ => .error .diverged
  | bound + 1, fmt, args, fb => do
    if fmt.head? = some 0 then return (true, fb)
    let (next, offset) ← findNextConversion fmt
    let fb ← if offset ≠ 0 then writeMany (fmt.take offset) fb else pure fb
    match next with
    | none => return (true, fb)
    | some fmt =>
      match ← consume [37, 37] fmt with -- "%%"
      | some fmt => vsnprintfLoop bound fmt args (← writeOne 37 fb)
      | none =>
        match ← directive fmt.tail args fb with
        | (none, fb) => return (false, fb)
        | (some (fmt, args), fb) => vsnprintfLoop bound fmt args fb

/-- `uacpi_vsnprintf(buffer, capacity, fmt, vlist)`: the value returned, and the buffer. Every
iteration of the loop consumes a character of the format. -/
def uacpiVsnprintf (buffer : Arr n Byte) (fmt : CBuf) (args : List Arg) :
    Exec (BitVec 32 × Arr n Byte) := do
  let (finished, fb) ← vsnprintfLoop (fmt.length + 1) fmt args ⟨buffer, 0⟩
  if !finished then return (-1, fb.buffer)
  if n ≠ 0 then
    let buffer ← fb.buffer.set (min fb.bytesWritten (n - 1)) 0
    return (BitVec.ofNat 32 fb.bytesWritten, buffer)
  return (BitVec.ofNat 32 fb.bytesWritten, fb.buffer)

end

/-! ## Logging -/

/-- `"...\n"` at the end of a message that does not fit. -/
def cutOff (buf : Arr 128 Byte) : Exec (Arr 128 Byte) := do
  let buf ← buf.set (128 - 5) 46
  let buf ← buf.set (128 - 4) 46
  let buf ← buf.set (128 - 3) 46
  buf.set (128 - 2) 10

/-- `uacpi_log(lvl, str, …)`. The initial content of `buf` is never read. -/
def uacpiLog (lvl : UacpiLogLevel) (str : CBuf) (args : List Arg) (k : Kernel) :
    Exec Kernel := do
  let (ret, buf) ← uacpiVsnprintf (Arr.const 128 0) str args
  if ret.slt 0 then return k
  let buf ← if (128#32).sle ret then cutOff buf else pure buf
  uacpiKernelLog lvl (List.ofFn buf.elem) k

end KptrOS
