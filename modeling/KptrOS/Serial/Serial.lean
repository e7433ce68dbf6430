import KptrOS.Lib.CSem
import KptrOS.Machine.Memory

/-!
# The serial console (`kern/serial/serial.c`)

Every message of the kernel leaves through COM1. The state of the port is the
list of bytes written to it; strings are byte buffers that hold their
terminator, so that reading past the end of one is a fault.

- `serialWrite`, `serialWriteHex`, `serialWriteDec`, `intToString`: the
  formatting routines with their digit loops and buffers.
- `serialPrintf`: the format loop. Its cursor is the rest of the format buffer
  and is advanced where the source advances it: inside a directive and at the
  end of every iteration.
- `serialPrintf_cons`, `serialPrintf_directive`: the two kinds of iteration of the format
  loop.
-/

namespace KptrOS

open CSem

/-- The bytes written to the serial port (`outb(SERIAL_PORT, …)`) so far. -/
abbrev Com1 := List Byte

/-- A byte buffer that a `char *` points to the start of. -/
abbrev CBuf := List Byte

/-- The buffer of a string literal. -/
def cstr (s : String) : CBuf := s.toList.map (fun c => BitVec.ofNat 8 c.toNat) ++ [0]

/-- A NUL-terminated string: its bytes before the terminator. -/
structure CString where
  bytes : List Byte
  no_nul : ∀ b ∈ bytes, b ≠ 0

/-- The buffer that holds a string. -/
def CString.buf (s : CString) : CBuf := s.bytes ++ [0]

/-- `outb(SERIAL_PORT, value)`. -/
def outb (out : Com1) (value : Byte) : Com1 := out ++ [value]

/-- `while (*str) outb(SERIAL_PORT, *str++);` -/
def serialWrite : CBuf → Com1 → Exec Com1
  | [], _ => .error .outOfBounds
  | c :: str, out => if c = 0 then .ok out else serialWrite str (outb out c)

/-- `"0123456789ABCDEF"`. -/
def hexDigits : Arr 17 Byte := ⟨fun i => (cstr "0123456789ABCDEF").getD i 0⟩

/-- The digit loop of `serial_write_hex`: writes `buffer[i - 1]` down to
`buffer[0]`. -/
def serialWriteHexLoop : (i : Nat) → Arr 17 Byte → Word → Exec (Arr 17 Byte)
  | 0, buffer, _ => .ok buffer
  | i + 1, buffer, value => do
    let digit ← hexDigits.get (value &&& 0xF).toNat
    let buffer ← buffer.set i digit
    serialWriteHexLoop i buffer (value >>> 4)

/-- `serial_write_hex`. The buffer's initial content is never read. -/
def serialWriteHex (value : Word) (out : Com1) : Exec Com1 := do
  let buffer ← (Arr.const 17 (0 : Byte)).set 16 0
  let buffer ← serialWriteHexLoop 16 buffer value
  let out ← serialWrite (cstr "0x") out
  serialWrite (List.ofFn buffer.elem) out

/-- The `do … while (value > 0)` of `serial_write_dec`: fills the buffer
downwards from `buffer[i]` and returns the index it stopped at. -/
def serialWriteDecLoop : (i : Nat) → Arr 21 Byte → Word → Exec (Nat × Arr 21 Byte)
  | 0, _, _ => .error .outOfBounds
  | i + 1, buffer, value => do
    let buffer ← buffer.set i (48 + (value % 10).setWidth 8)
    if value / 10 > 0 then serialWriteDecLoop i buffer (value / 10)
    else return (i, buffer)

/-- `serial_write_dec`. -/
def serialWriteDec (value : Word) (out : Com1) : Exec Com1 := do
  let buffer ← (Arr.const 21 (0 : Byte)).set 20 0
  let (i, buffer) ← serialWriteDecLoop 20 buffer value
  serialWrite ((List.ofFn buffer.elem).drop i) out

/-- The `do … while (value > 0)` of `int_to_string`, with `room` bytes left in
the buffer from `buffer[i]` on. Division and remainder are those of `int`. -/
def intToStringDigits {n : Nat} :
    (room i : Nat) → Arr n Byte → BitVec 32 → Exec (Nat × Arr n Byte)
  | 0, _, _, _ => .error .outOfBounds
  | room + 1, i, buffer, value => do
    let buffer ← buffer.set i ((48 + value.srem 10).setWidth 8)
    if (0#32).slt (value.sdiv 10) then
      intToStringDigits room (i + 1) buffer (value.sdiv 10)
    else return (i + 1, buffer)

/-- One swap of the reversal loop of `int_to_string`. -/
def intToStringSwap {n : Nat} (i j : Nat) (buffer : Arr n Byte) :
    Exec (Arr n Byte) := do
  let temp ← buffer.get j
  let last ← buffer.get (i - j - 1)
  let buffer ← buffer.set j last
  buffer.set (i - j - 1) temp

/-- `int_to_string`: the buffer after the call. Negation wraps. -/
def intToString {n : Nat} (value : BitVec 32) (buffer : Arr n Byte) :
    Exec (Arr n Byte) := do
  let isNegative := value.slt 0
  let (i, buffer) ← intToStringDigits n 0 buffer (if isNegative then -value else value)
  let (i, buffer) ←
    if isNegative then do
      let buffer ← buffer.set i 45
      pure (i + 1, buffer)
    else pure (i, buffer)
  let buffer ← buffer.set i 0
  forRange (intToStringSwap i) (i / 2) 0 buffer

/-- An argument of `serial_printf`: a register-sized integer (an `int` in its
low 32 bits) or a `const char *`. -/
inductive Arg where
  | word (value : Word)
  | str (buf : CBuf)

/-- The `switch (*format)` of `serial_printf`: consumes an argument and writes
its text. -/
def serialPrintfDirective (d : Byte) (args : List Arg) (out : Com1) :
    Exec (List Arg × Com1) :=
  if d = 100 then -- 'd'
    match args with
    | .word value :: args => do
      let buffer ← intToString (value.setWidth 32) (Arr.const 21 0)
      return (args, ← serialWrite (List.ofFn buffer.elem) out)
    | _ => .error .badArgument
  else if d = 120 then -- 'x'
    match args with
    | .word value :: args => return (args, ← serialWriteHex value out)
    | _ => .error .badArgument
  else if d = 115 then -- 's'
    match args with
    | .str buf :: args => return (args, ← serialWrite buf out)
    | _ => .error .badArgument
  else if d = 37 then -- '%'
    return (args, ← serialWrite (cstr "%") out)
  else
    return (args, ← serialWrite (cstr "[UNKNOWN]") out)

/-- `serial_printf`. -/
def serialPrintf : CBuf → List Arg → Com1 → Exec Com1
  | [], _, _ => .error .outOfBounds
  | c :: format, args, out =>
    if c = 0 then .ok out
    else if c = 37 then -- '%'
      match format with
      | [] => .error .outOfBounds
      | d :: format => do
        let (args, out) ← serialPrintfDirective d args out
        serialPrintf format args out
    else serialPrintf format args (outb out c)

/-! ## The iterations of the format loop -/

/-- One iteration of the format loop on an ordinary character. -/
theorem serialPrintf_cons {b : Byte} (h0 : b ≠ 0) (h37 : b ≠ 37) (format : CBuf)
    (args : List Arg) (out : Com1) :
    serialPrintf (b :: format) args out = serialPrintf format args (outb out b) := by
  rw [serialPrintf.eq_def]
  simp only [if_neg h0, if_neg h37]

theorem serialPrintfDirective_d (value : Word) (args : List Arg) (out : Com1) :
    serialPrintfDirective 100 (.word value :: args) out =
      intToString (value.setWidth 32) (Arr.const 21 0) >>= fun buffer =>
        serialWrite (List.ofFn buffer.elem) out >>= fun out => .ok (args, out) := rfl

theorem serialPrintfDirective_s (buf : CBuf) (args : List Arg) (out : Com1) :
    serialPrintfDirective 115 (.str buf :: args) out =
      serialWrite buf out >>= fun out => .ok (args, out) := rfl

/-- One iteration of the format loop on a directive. -/
theorem serialPrintf_directive (d : Byte) (format : CBuf) (args : List Arg) (out : Com1) :
    serialPrintf (37 :: d :: format) args out =
      serialPrintfDirective d args out >>= fun r => serialPrintf format r.1 r.2 := by
  rw [serialPrintf.eq_def]
  rfl

end KptrOS
