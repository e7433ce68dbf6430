import KptrOS.Acpi.KernelApi

/-!
# The HPET driver (`kern/hpet.c`, `kern/timers.h`)

The registers are reached through `hpet_base` by volatile accesses, which the state records
in order. `hpet_base` and `hpet_period` are `static` in the header, so each file that includes
it has its own; those of `hpet.c` are meant here.

- `hpetReadRegister`, `hpetWriteRegister`, `hpetGetCounter`, `hpetConfigureTimer`,
  `timerInit`: the source's functions. `uacpi_table_find_by_signature` is a parameter of
  `timerInit`, and so is what its local variables hold and where they lie.
- `hpetConfigureTimer_null`, `hpetConfigureTimer_zero`, `hpetConfigureTimer_ok`: the three
  things a configuration can do.
-/

namespace KptrOS

open CSem

/-! ## The state -/

/-- A volatile access of 64 bits. -/
inductive HpetAccess where
  | load (addr : Word)
  | store (addr value : Word)
deriving DecidableEq

/-- The kernel with the static variables of `hpet.c`, the counter `tick` of `kern/cpu/idt.c`
and the accesses to the registers of the HPET so far. -/
structure TimerState where
  kernel : Kernel
  hpetBase : Word
  hpetPeriod : Word
  tick : Word
  accesses : List HpetAccess

/-- The state after a store through a pointer to a register. -/
def TimerState.store (addr value : Word) (s : TimerState) : TimerState :=
  { s with
    kernel.mem := store64 s.kernel.mem addr value
    accesses := s.accesses ++ [.store addr value] }

/-- The state after `text` has been written to the serial port. -/
def TimerState.print (text : List Byte) (s : TimerState) : TimerState :=
  { s with kernel.serial := s.kernel.serial ++ text }

@[simp] theorem TimerState.print_hpetBase (text : List Byte) (s : TimerState) :
    (s.print text).hpetBase = s.hpetBase := rfl

@[simp] theorem TimerState.print_tick (text : List Byte) (s : TimerState) :
    (s.print text).tick = s.tick := rfl

@[simp] theorem TimerState.print_accesses (text : List Byte) (s : TimerState) :
    (s.print text).accesses = s.accesses := rfl

/-! ## The constants of `timers.h` -/

/-- `HPET_GENERAL_CAPABILITIES_ID`. -/
def hpetGeneralCapabilitiesId : Word := 0x00

/-- `HPET_GENERAL_CONFIGURATION`. -/
def hpetGeneralConfiguration : Word := 0x10

/-- `HPET_MAIN_COUNTER`. -/
def hpetMainCounter : Word := 0xF0

/-- `HPET_TIMER_CONFIG_CAPABILITY(n)`. -/
def hpetTimerConfigCapability (n : Word) : Word := 0x100 + 0x20 * n

/-- `HPET_TIMER_COMPARATOR(n)`. -/
def hpetTimerComparator (n : Word) : Word := 0x108 + 0x20 * n

/-- `HPET_ENABLE_CNF`. -/
def hpetEnableCnf : Word := 0x1

/-- `HPET_PERIODIC_CNF`. -/
def hpetPeriodicCnf : Word := 1 <<< 2

/-- `HPET_INT_ENABLE_CNF`. -/
def hpetIntEnableCnf : Word := 1 <<< 3

/-- `HPET_REG_SIZE`. -/
def hpetRegSize : Word := 1024

/-! ## The functions -/

/-- `hpet_read_register(offset)`. -/
def hpetReadRegister (offset : Word) (s : TimerState) : Word × TimerState :=
  (load64 s.kernel.mem (s.hpetBase + offset),
    { s with accesses := s.accesses ++ [.load (s.hpetBase + offset)] })

/-- `hpet_write_register(offset, value)`. -/
def hpetWriteRegister (offset value : Word) (s : TimerState) : TimerState :=
  s.store (s.hpetBase + offset) value

/-- `hpet_get_counter()`. -/
def hpetGetCounter (s : TimerState) : Exec (Word × TimerState) := do
  if s.hpetBase = 0 then
    let serial ← serialWrite (cstr "[ ERR ] HPET not initialized\n") s.kernel.serial
    return (0, { s with kernel.serial := serial })
  return hpetReadRegister hpetMainCounter s

/-- `hpet_configure_timer(timer, interval_ms)`. -/
def hpetConfigureTimer (timer intervalMs : Word) (s : TimerState) :
    Exec (Int × TimerState) := do
  if s.hpetBase = 0 then
    let serial ← serialWrite (cstr "[ ERR ] HPET not initialized\n") s.kernel.serial
    return (-1, { s with kernel.serial := serial })
  let ticksPerMs ← udiv 1000000000000000 s.hpetPeriod
  let intervalTicks := ticksPerMs * intervalMs
  let s := hpetWriteRegister (hpetTimerConfigCapability timer)
    (hpetPeriodicCnf ||| hpetIntEnableCnf) s
  let s := hpetWriteRegister (hpetTimerComparator timer) intervalTicks s
  let serial ← serialPrintf (cstr "[ INFO ] HPET Timer %d configured for %d ms interval\n")
    [.word timer, .word intervalMs] s.kernel.serial
  return (0, { s with kernel.serial := serial })

/-- `uacpi_table`. -/
structure UacpiTable where
  virtAddr : Word
  index : Word

/-- `timer_init()`, with its local variable `hpet_table` holding `stale` before it is used.
`find` is `uacpi_table_find_by_signature`, given the signature and the structure to fill, and
`slot` is where `uacpi_kernel_map` has its local variable. -/
def timerInit
    (find : CBuf → UacpiTable → Kernel → Exec (UacpiStatus × UacpiTable × Kernel))
    (stale : UacpiTable) (slot : Word) (s : TimerState) : Exec (Int × TimerState) := do
  let (_, hpetTable, k) ← find (cstr "HPET") stale s.kernel
  let (hpetBase, k) ← uacpiKernelMap hpetTable.virtAddr hpetRegSize slot k
  let s := { s with kernel := k, hpetBase := hpetBase }
  let (capabilities, s) := hpetReadRegister hpetGeneralCapabilitiesId s
  let s := { s with hpetPeriod := (capabilities >>> 32) &&& 0xFFFFFFFF }
  let s := hpetWriteRegister hpetGeneralConfiguration hpetEnableCnf s
  let (_, s) ← hpetConfigureTimer 0 100 s
  let serial ← serialPrintf (cstr "[ OK ] HPET\n") [] s.kernel.serial
  return (0, { s with kernel.serial := serial })

/-! ## What a configuration does -/

/-- What is printed about a configured timer. -/
def timerConfiguredText (timer intervalMs : Word) : List Byte :=
  lit "[ INFO ] HPET Timer " ++ (intText (timer.setWidth 32) ++ (lit " configured for " ++
    (intText (intervalMs.setWidth 32) ++ lit " ms interval\n")))

/-- The items of its format. -/
def timerConfiguredItems : List FormatItem :=
  literals "[ INFO ] HPET Timer " ++ .decimal :: (literals " configured for " ++
    .decimal :: (literals " ms interval\n" ++ []))

theorem formatItems_timerConfigured :
    formatItems (cstr "[ INFO ] HPET Timer %d configured for %d ms interval\n") =
      some timerConfiguredItems := by
  simp [lit, cstr, cText, formatItems, FormatItem.ofDirective, literals, timerConfiguredItems]

theorem serialPrintf_timerConfigured (timer intervalMs : Word) (out : Com1) :
    serialPrintf (cstr "[ INFO ] HPET Timer %d configured for %d ms interval\n")
        [.word timer, .word intervalMs] out =
      .ok (out ++ timerConfiguredText timer intervalMs) := by
  have hargs : Supplies timerConfiguredItems [.word timer, .word intervalMs] := by
    have hms := (Supplies.nil.literals " ms interval\n").decimal intervalMs
    have htimer := (hms.literals " configured for ").decimal timer
    rw [timerConfiguredItems]
    exact htimer.literals "[ INFO ] HPET Timer "
  have hprint := serialPrintf_render formatItems_timerConfigured hargs [] out
  have htext : render timerConfiguredItems [.word timer, .word intervalMs] =
      timerConfiguredText timer intervalMs := by
    rw [timerConfiguredItems, timerConfiguredText, render_literals, render.eq_2,
      render_literals, render.eq_2, render_literals, render_nil, List.append_nil]
  rw [htext] at hprint
  exact hprint

/-- The state after a timer has been configured. -/
def TimerState.configured (timer intervalMs : Word) (s : TimerState) : TimerState :=
  ((s.store (s.hpetBase + hpetTimerConfigCapability timer)
      (hpetPeriodicCnf ||| hpetIntEnableCnf)).store
    (s.hpetBase + hpetTimerComparator timer)
    (1000000000000000 / s.hpetPeriod * intervalMs)).print
      (timerConfiguredText timer intervalMs)

/-- Without a base there is a message and an error. -/
theorem hpetConfigureTimer_null (timer intervalMs : Word) {s : TimerState}
    (hbase : s.hpetBase = 0) :
    hpetConfigureTimer timer intervalMs s =
      .ok (-1, s.print (lit "[ ERR ] HPET not initialized\n")) := by
  rw [hpetConfigureTimer, if_pos hbase, serialWrite_cstr]
  rfl

/-- With a base and the period 0 the processor faults. -/
theorem hpetConfigureTimer_zero (timer intervalMs : Word) {s : TimerState}
    (hbase : s.hpetBase ≠ 0) (hperiod : s.hpetPeriod = 0) :
    hpetConfigureTimer timer intervalMs s = .error .divideByZero := by
  rw [hpetConfigureTimer, if_neg hbase, hperiod, udiv_zero]
  rfl

/-- Otherwise two registers of the timer are written. -/
theorem hpetConfigureTimer_ok (timer intervalMs : Word) {s : TimerState}
    (hbase : s.hpetBase ≠ 0) (hperiod : s.hpetPeriod ≠ 0) :
    hpetConfigureTimer timer intervalMs s = .ok (0, s.configured timer intervalMs) := by
  rw [hpetConfigureTimer, if_neg hbase, udiv_of_ne_zero _ hperiod]
  simp only [ok_bind, serialPrintf_timerConfigured, pure_eq_ok]
  rfl

end KptrOS
