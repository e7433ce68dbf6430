import KptrOS.Acpi.KernelApi
import KptrOS.Lib.Proc
import KptrOS.Machine.Struct
import KptrOS.Uacpi.Message

/-!
# The state of the ACPI tables (`kern/acpi/tables.c`, `kern/acpi/uacpi.c`)

The static variables of the two files, and the array of installed tables. Its first 16
entries are static; the others lie in a buffer in memory, 64 bytes each.

- `InstalledTable`: an entry, with `load_store`: what it is in memory.
- `Uacpi`: the kernel and the static variables. A call of the mapping interface takes the
  address of its local variable from `frames`, as the compiler chooses it.
- `Uacpi.entry`, `Uacpi.setEntry`: an entry of the array, wherever it lies.
- `mapTable`, `unmapTable`, `uacpiLogLvl`, `readTable`, `modifyTable`, …: the
  procedures that the rest of `tables.c` is made of.
-/

namespace KptrOS

open CSem

/-! ## Headers -/

/-- `struct acpi_sdt_hdr`. -/
abbrev AcpiSdtHdr := Struct 36

namespace AcpiSdtHdr

variable (hdr : AcpiSdtHdr)

def signature : List Byte := Struct.text hdr 0 4

def length : BitVec 32 := Struct.field hdr 4 4

def revision : Byte := Struct.field hdr 8 1

def oemid : List Byte := Struct.text hdr 10 6

def oemTableId : List Byte := Struct.text hdr 16 8

/-- `UACPI_FMT_TBL_HDR(hdr)`. -/
def fmtTblHdr : List Arg :=
  [.str (Struct.pointer hdr 0), .str (Struct.pointer hdr 10), .str (Struct.pointer hdr 16)]

end AcpiSdtHdr

/-- `struct acpi_rsdp`. -/
abbrev AcpiRsdp := Struct 36

namespace AcpiRsdp

variable (rsdp : AcpiRsdp)

def revision : Byte := Struct.field rsdp 15 1

def rsdtAddr : BitVec 32 := Struct.field rsdp 16 4

def length : BitVec 32 := Struct.field rsdp 20 4

def xsdtAddr : Word := Struct.field rsdp 24 8

end AcpiRsdp

/-- `struct acpi_fadt`. -/
abbrev AcpiFadt := Struct 276

/-! ## Entries -/

/-- `enum uacpi_table_origin`. -/
inductive TableOrigin where
  | firmwarePhysical
  | hostVirtual
  | hostPhysical
deriving DecidableEq

/-- The value of the enumerator. -/
def TableOrigin.code : TableOrigin → Byte
  | .firmwarePhysical => 1
  | .hostVirtual => 2
  | .hostPhysical => 3

/-- `UACPI_TABLE_CSUM_VERIFIED`. -/
def tableCsumVerified : Byte := 1 <<< 1

/-- `UACPI_TABLE_INVALID`. -/
def tableInvalid : Byte := 1 <<< 2

/-- `struct uacpi_installed_table`. -/
structure InstalledTable where
  physAddr : Word
  hdr : AcpiSdtHdr
  ptr : Word
  referenceCount : BitVec 16
  flags : Byte
  origin : Byte

namespace InstalledTable

/-- An entry all of whose bytes are zero. -/
def zeroed : InstalledTable := ⟨0, .const 36 0, 0, 0, 0, 0⟩

/-- The origins of the tables that are mapped while they are referenced. -/
def IsPhysical (tbl : InstalledTable) : Prop :=
  tbl.origin = TableOrigin.hostPhysical.code ∨ tbl.origin = TableOrigin.firmwarePhysical.code

instance (tbl : InstalledTable) : Decidable tbl.IsPhysical := inferInstanceAs (Decidable (_ ∨ _))

/-- The entry in 64 bytes. -/
def ofImage (image : Struct 64) : InstalledTable where
  physAddr := image.field 0 8
  hdr := image.sub 8 36
  ptr := image.field 48 8
  referenceCount := image.field 56 2
  flags := image.field 58 1
  origin := image.field 59 1

/-- The 64 bytes with the entry written over them; the gaps keep what they hold. -/
def toImage (table : InstalledTable) (image : Struct 64) : Struct 64 :=
  (((((image.setField 0 8 table.physAddr).setSub 8 table.hdr).setField 48
    8 table.ptr).setField 56 2 table.referenceCount).setField 58
      1 table.flags).setField 59 1 table.origin

/-- The entry at an address. -/
def load (m : Memory) (p : Word) : InstalledTable := ofImage (loadStruct m p 64)

/-- The memory with the entry stored at an address. -/
def store (table : InstalledTable) (m : Memory) (p : Word) : Memory :=
  storeStruct m p (table.toImage (loadStruct m p 64))

theorem ofImage_toImage (table : InstalledTable) (image : Struct 64) :
    ofImage (table.toImage image) = table := by
  obtain ⟨physAddr, hdr, ptr, referenceCount, flags, origin⟩ := table
  simp only [toImage, ofImage, Struct.field, Struct.setField, InstalledTable.mk.injEq]
  refine ⟨?_, ?_, ?_, ?_, ?_, ?_⟩ <;>
    simp (disch := omega) only [Struct.sub_setSub_of_disjoint, Struct.sub_setSub,
      Struct.number_ofNumber]

/-- An entry is read back from memory. -/
theorem load_store (table : InstalledTable) (m : Memory) (p : Word) :
    load (table.store m p) p = table := by
  rw [load, store, loadStruct_storeStruct (by decide), ofImage_toImage]

theorem load_congr {m m' : Memory} {p : Word} (h : ∀ i, i < 64 → m' (offset p i) = m (offset p i)) :
    load m' p = load m p := congrArg ofImage (loadStruct_congr h)

theorem store_of_not_inRange {table : InstalledTable} {m : Memory} {p a : Word}
    (h : ¬ InRange p 64 a) : table.store m p a = m a := storeStruct_of_not_inRange h

end InstalledTable

/-! ## The state -/

/-- `struct table_array`. -/
structure TableArray where
  inlineStorage : Arr 16 InstalledTable
  dynamicStorage : Word
  dynamicCapacity : Nat
  sizeIncludingInline : Nat

/-- The array after `uacpi_memzero`. -/
def TableArray.zeroed : TableArray := ⟨.const 16 .zeroed, 0, 0, 0⟩

/-- `uacpi_table_installation_disposition`: its four enumerators, or another value of its type. -/
inductive Disposition where
  | allow
  | deny
  | virtualOverride
  | physicalOverride
  | invalid (code : BitVec 32) (isInvalid : 4 ≤ code.toNat)

/-- The value of the enumerator. -/
def Disposition.code : Disposition → BitVec 32
  | .allow => 0
  | .deny => 1
  | .virtualOverride => 2
  | .physicalOverride => 3
  | .invalid code _ => code

/-- `uacpi_table_installation_handler`: from the memory and the address of a table to its
disposition and the address that overrides it. -/
abbrev InstallationHandler := Memory → Word → Disposition × Word

/-- The kernel, the static variables of `tables.c` and those members of `g_uacpi_rt_ctx` that
this configuration reads. `rsdpResponse` is the address in the bootloader's response, if there
is one, and `frames` tells where the calls of the mapping interface have their local variables;
`frame` counts these calls. -/
structure Uacpi where
  kernel : Kernel
  tables : TableArray
  earlyTableAccess : Bool
  installationHandler : Option InstallationHandler
  fadt : AcpiFadt
  flags : Word
  isRev1 : Bool
  logLevel : Byte
  versionPrinted : Bool
  rsdpResponse : Option Word
  frames : Nat → Word
  frame : Nat

/-- The state in which the kernel starts: the static variables are zero. -/
def Uacpi.loaded (kernel : Kernel) (rsdpResponse : Option Word) (frames : Nat → Word) : Uacpi where
  kernel := kernel
  tables := .zeroed
  earlyTableAccess := false
  installationHandler := none
  fadt := .const 276 0
  flags := 0
  isRev1 := false
  logLevel := 0
  versionPrinted := false
  rsdpResponse := rsdpResponse
  frames := frames
  frame := 0

/-! ### Entries of the array -/

/-- Where entry `idx` lies behind the static ones. -/
def TableArray.slot (tables : TableArray) (idx : Nat) : Word :=
  offset tables.dynamicStorage (64 * (idx - 16))

/-- The entry of index `idx`. -/
def Uacpi.entry (s : Uacpi) (idx : Nat) : InstalledTable :=
  if h : idx < 16 then s.tables.inlineStorage.elem ⟨idx, h⟩
  else .load s.kernel.mem (s.tables.slot idx)

/-- The state with entry `idx` replaced. -/
def Uacpi.setEntry (s : Uacpi) (idx : Nat) (table : InstalledTable) : Uacpi :=
  if idx < 16 then { s with tables.inlineStorage := s.tables.inlineStorage.put idx table }
  else { s with kernel.mem := table.store s.kernel.mem (s.tables.slot idx) }

/-- `table_array_size`. -/
def Uacpi.size (s : Uacpi) : Nat := s.tables.sizeIncludingInline

/-- `table_array_capacity`. -/
def Uacpi.capacity (s : Uacpi) : Nat := 16 + s.tables.dynamicCapacity

/-! ## Procedures -/

/-- `uacpi_kernel_map(addr, len)`. -/
def mapTable (addr len : Word) : Proc Uacpi Word := fun s => do
  let (tmp, k) ← uacpiKernelMap addr len (s.frames s.frame) s.kernel
  return (tmp, { s with kernel := k, frame := s.frame + 1 })

/-- `uacpi_kernel_unmap(addr, len)`. -/
def unmapTable (addr len : Word) : Proc Uacpi Unit := fun s => do
  let k ← uacpiKernelUnmap addr len (s.frames s.frame) s.kernel
  return ((), { s with kernel := k, frame := s.frame + 1 })

/-- `uacpi_should_log(lvl)`. -/
def Uacpi.shouldLog (s : Uacpi) (lvl : UacpiLogLevel) : Bool := lvl.code.toNat ≤ s.logLevel.toNat

/-- `uacpi_log_lvl(lvl, …)`. -/
def uacpiLogLvl (lvl : UacpiLogLevel) (message : Message) (args : List Arg) : Proc Uacpi Unit :=
  fun s =>
    if s.shouldLog lvl then do
      let k ← uacpiLog lvl message.format args s.kernel
      return ((), { s with kernel := k })
    else return ((), s)

/-- `uacpi_check_flag(flag)`. -/
def Uacpi.checkFlag (s : Uacpi) (flag : Word) : Bool := s.flags &&& flag == flag

/-- The structure that a pointer points to. -/
def loadAt (p : Word) (n : Nat) : Proc Uacpi (Struct n) := do
  return loadStruct (← get).kernel.mem p n

/-- `*table_array_at(&tables, idx)`, where an index behind the array is a null pointer. -/
def readTable (idx : Nat) : Proc Uacpi InstalledTable := fun s =>
  if s.size ≤ idx then .error .outOfBounds else .ok (s.entry idx, s)

/-- Assignments to members of `*table_array_at(&tables, idx)`. -/
def modifyTable (idx : Nat) (f : InstalledTable → InstalledTable) : Proc Uacpi Unit := fun s =>
  if s.size ≤ idx then .error .outOfBounds else .ok ((), s.setEntry idx (f (s.entry idx)))

/-- `table_array_alloc(&tables)`: the index of the new entry, or `none` for NULL. -/
def tableArrayAlloc : Proc Uacpi (Option Nat) := do
  let s ← get
  if 16 ≤ s.size ∧ s.size - 16 = s.tables.dynamicCapacity then return none
  modify fun s => { s with tables.sizeIncludingInline := s.size + 1 }
  return some s.size

/-- `table_array_clear(&tables)`. -/
def tableArrayClear : Proc Uacpi Unit := modify fun s =>
  { s with
    tables.sizeIncludingInline := 0
    tables.dynamicCapacity := 0
    tables.dynamicStorage := 0 }

end KptrOS
