import KptrOS.Mem.Pmm
import KptrOS.Serial.Printf

/-!
# The kernel side of uACPI (`kern/acpi.c`)

`uacpi_kernel_map` copies one page instead of mapping a range; the `len` arguments
are overwritten with `PAGE_SIZE` or passed to a parameter that is. Both
`uacpi_kernel_unmap` and `acpi_init` hand `free_page` the address of a local
variable, which is a parameter here (`slot`), as the compiler chooses it.

- `uacpiKernelLog`, `uacpiKernelMap`, `uacpiKernelUnmap`, `acpiInit`: the
  source's functions. `uacpi_setup_early_table_access` is a parameter of
  `acpiInit`.
- `uacpiKernelLog_text`: logging writes the message to the serial port, and nothing else.
-/

namespace KptrOS

open CSem

/-! ## Logging -/

/-- `uacpi_log_level`. -/
inductive UacpiLogLevel where
  | error
  | warn
  | info
  | trace
  | debug
deriving DecidableEq

/-- The value of the enumerator. -/
def UacpiLogLevel.code : UacpiLogLevel → Word
  | .error => 1
  | .warn => 2
  | .info => 3
  | .trace => 4
  | .debug => 5

/-- `uacpi_kernel_log(log, buf)`. -/
def uacpiKernelLog (log : UacpiLogLevel) (buf : CBuf) (k : Kernel) : Exec Kernel := do
  let serial ← serialPrintf (cstr "uACPI [%d]: %s") [.word log.code, .str buf] k.serial
  return { k with serial := serial }

/-- `uacpi_status`; `invalid` stands for the values that are no enumerator. -/
inductive UacpiStatus where
  | ok
  | mappingFailed
  | outOfMemory
  | badChecksum
  | invalidSignature
  | invalidTableLength
  | notFound
  | invalidArgument
  | unimplemented
  | alreadyExists
  | internalError
  | typeMismatch
  | initLevelMismatch
  | namespaceNodeDangling
  | noHandler
  | noResourceEndTag
  | compiledOut
  | hardwareTimeout
  | timeout
  | overridden
  | denied
  | amlUndefinedReference
  | amlInvalidNamestring
  | amlObjectAlreadyExists
  | amlInvalidOpcode
  | amlIncompatibleObjectType
  | amlBadEncoding
  | amlOutOfBoundsIndex
  | amlSyncLevelTooHigh
  | amlInvalidResource
  | amlLoopTimeout
  | amlCallStackDepthLimit
  | invalid (code : BitVec 32)
deriving DecidableEq

/-- `uacpi_status_to_string`. -/
def uacpiStatusToString : UacpiStatus → String
  | .ok => "no error"
  | .mappingFailed => "failed to map memory"
  | .outOfMemory => "out of memory"
  | .badChecksum => "bad table checksum"
  | .invalidSignature => "invalid table signature"
  | .invalidTableLength => "invalid table length"
  | .notFound => "not found"
  | .invalidArgument => "invalid argument"
  | .unimplemented => "unimplemented"
  | .alreadyExists => "already exists"
  | .internalError => "internal error"
  | .typeMismatch => "object type mismatch"
  | .initLevelMismatch => "init level too low/high for this action"
  | .namespaceNodeDangling => "attempting to use a dangling namespace node"
  | .noHandler => "no handler found"
  | .noResourceEndTag => "resource template without an end tag"
  | .compiledOut => "this functionality has been compiled out of this build"
  | .hardwareTimeout => "timed out waiting for hardware response"
  | .timeout => "wait timed out"
  | .overridden => "the requested action has been overridden"
  | .denied => "the requested action has been denied"
  | .amlUndefinedReference => "AML referenced an undefined object"
  | .amlInvalidNamestring => "invalid AML name string"
  | .amlObjectAlreadyExists => "object already exists"
  | .amlInvalidOpcode => "invalid AML opcode"
  | .amlIncompatibleObjectType => "incompatible AML object type"
  | .amlBadEncoding => "bad AML instruction encoding"
  | .amlOutOfBoundsIndex => "out of bounds AML index"
  | .amlSyncLevelTooHigh => "AML attempted to acquire a mutex with a lower sync level"
  | .amlInvalidResource => "invalid resource template encoding or type"
  | .amlLoopTimeout => "hanging AML while loop"
  | .amlCallStackDepthLimit => "reached maximum AML call stack depth"
  | .invalid _ => "<invalid status>"

/-! ## Mapping -/

/-- `uacpi_kernel_unmap(addr, len)`, with its parameter `addr` stored at `slot`:
what is freed is `slot`. -/
def uacpiKernelUnmap (_addr _len slot : Word) (k : Kernel) : Exec Kernel :=
  freePage slot k

/-- `uacpi_kernel_map(addr, len)`, with its local `tmp` at `slot`: the pointer
returned and the state. -/
def uacpiKernelMap (addr _len slot : Word) (k : Kernel) : Exec (Word × Kernel) := do
  let (tmp, k) ← allocPage 0 k
  if tmp = 0 then
    let serial ← serialPrintf
      (cstr "[ ERR ] Failed to allocate memory for mapping\n") [] k.serial
    return (0, { k with serial := serial })
  let (dest, mem) := memcpy k.mem tmp addr pageSize
  let k := { k with mem := mem }
  -- `memcpy` returns its first argument, so this is not taken
  if dest = 0 then
    let serial ← serialPrintf
      (cstr "[ ERR ] Failed to copy data from physical memory\n") [] k.serial
    let k ← freePage slot { k with serial := serial }
    return (0, k)
  return (tmp, k)

/-! ## Initialisation -/

/-- `acpi_init()`, with its local `tmp` at `slot`. `setup` is
`uacpi_setup_early_table_access`, given the buffer and its size. -/
def acpiInit (setup : Word → Word → Kernel → Exec (UacpiStatus × Kernel))
    (slot : Word) (k : Kernel) : Exec (Int × Kernel) := do
  let (tmp, k) ← allocPage 0 k
  if tmp = 0 then
    let k ← uacpiKernelLog .error
      (cstr "[ ERR ] Failed to allocate memory for uACPI") k
    return (-1, k)
  let k := { k with mem := (memset k.mem tmp 0 pageSize).2 }
  let (ret, k) ← setup tmp 4096 k
  if ret ≠ .ok then
    let k ← uacpiKernelLog .error (cstr (uacpiStatusToString ret)) k
    let k ← freePage slot k
    return (-1, k)
  let k ← freePage slot k
  let k ← uacpiKernelLog .info (cstr "uACPI Started\n") k
  return (0, k)

/-! ## What is logged -/

/-- The items of the format of `uacpi_kernel_log`. -/
def uacpiLogItems : List FormatItem :=
  literals "uACPI [" ++ .decimal :: (literals "]: " ++ [.string])

theorem formatItems_uacpiLog : formatItems (cstr "uACPI [%d]: %s") = some uacpiLogItems := by
  simp [lit, cstr, cText, formatItems, FormatItem.ofDirective, literals, uacpiLogItems]

/-- What `uacpi_kernel_log` writes in front of the message. -/
def uacpiLogPrefix (log : UacpiLogLevel) : List Byte :=
  lit "uACPI [" ++ intText (log.code.setWidth 32) ++ lit "]: "

/-- **The log emits its message verbatim**: the message is an argument of the format, so no
`%` in it is a directive. Nothing but the serial output changes. -/
theorem uacpiKernelLog_text (log : UacpiLogLevel) {buf : CBuf} (hbuf : 0 ∈ buf) (k : Kernel) :
    uacpiKernelLog log buf k =
      .ok { k with serial := k.serial ++ (uacpiLogPrefix log ++ cText buf) } := by
  have hargs : Supplies uacpiLogItems [.word log.code, .str buf] :=
    (((Supplies.nil.string hbuf).literals "]: ").decimal log.code).literals "uACPI ["
  have hprint := serialPrintf_render formatItems_uacpiLog hargs [] k.serial
  have htext : render uacpiLogItems [.word log.code, .str buf] =
      uacpiLogPrefix log ++ cText buf := by
    simp only [uacpiLogItems, uacpiLogPrefix, render_literals, render, List.append_nil,
      List.append_assoc]
  rw [List.append_nil, htext] at hprint
  rw [uacpiKernelLog, hprint]
  rfl

/-- **The output of `serial_printf` is its rendering.** A format whose directives are
supplied with arguments writes `render`, in which the text of `%d` is what `int_to_string`
leaves in any buffer; two formats in a row write what their concatenation writes; and a
logged message appears as it is. -/
theorem serialPrintf_renders {f g : CBuf} {fi gi : List FormatItem} {as bs : List Arg}
    (hf : formatItems f = some fi) (hg : formatItems g = some gi)
    (has : Supplies fi as) (hbs : Supplies gi bs) :
    (∀ extra out, serialPrintf f (as ++ extra) out = .ok (out ++ render fi as)) ∧
      (∀ (value : BitVec 32) (buffer : Arr 21 Byte), ∃ buffer',
        intToString value buffer = .ok buffer' ∧ buffer'.Holds 0 (intText value ++ [0])) ∧
      (∀ out, serialPrintf (cText f ++ g) (as ++ bs) out =
        serialPrintf f as out >>= serialPrintf g bs) ∧
      ∀ log (message : CString) k, uacpiKernelLog log message.buf k =
        .ok { k with serial := k.serial ++ (uacpiLogPrefix log ++ message.bytes) } := by
  have hrun : ∀ extra out, serialPrintf f (as ++ extra) out = .ok (out ++ render fi as) :=
    serialPrintf_render hf has
  refine ⟨hrun, fun value buffer => intToString_text (by decide) value buffer, fun out => ?_,
    fun log message k => ?_⟩
  · have hfirst := hrun [] out
    have hsecond := serialPrintf_render hg hbs [] (out ++ render fi as)
    have hboth := serialPrintf_render (formatItems_append hf hg) (has.append hbs) [] out
    rw [List.append_nil] at hfirst hsecond hboth
    rw [hboth, hfirst, ok_bind, hsecond, render_append has, List.append_assoc]
  · rw [uacpiKernelLog_text log message.zero_mem_buf, message.cText_buf]

/-- `"%s%%"` on the string `"%d"`, and with `"%x"` behind it. -/
theorem serialPrintf_renders_sample :
    serialPrintf [37, 115, 37, 37, 0] [.str [37, 100, 0]] [] = .ok [37, 100, 37] ∧
      serialPrintf [37, 115, 37, 37, 37, 120, 0] [.str [37, 100, 0], .word 10] [] =
        serialPrintf [37, 115, 37, 37, 0] [.str [37, 100, 0]] [] >>=
          serialPrintf [37, 120, 0] [.word 10] := by
  have hnul : (0 : Byte) ∈ ([37, 100, 0] : CBuf) := by decide
  obtain ⟨hrun, -, hboth, -⟩ := serialPrintf_renders
    (show formatItems [37, 115, 37, 37, 0] = some [.string, .percent] from rfl)
    (show formatItems [37, 120, 0] = some [.hex] from rfl)
    (Supplies.nil.percent.string hnul) (Supplies.nil.hex 10)
  exact ⟨hrun [] [], hboth []⟩

end KptrOS
