import KptrOS.Uacpi.TableArray

/-!
# The FADT (`kern/acpi/tables.c`)

uACPI keeps a copy of the FADT and repairs it: firmware gets the revision wrong, leaves garbage
in reserved fields, and gives the addresses of registers in two places.

- `AcpiFadt`: the fields that are read or written.
- `fadtEnsureCorrectRevision`, `convertRegistersToGas`, `initializeFadt`: the source's functions.
  The installation of the DSDT is a parameter of the last one.
- `convertRegistersToGas_spec`: each register gets its block, and no conversion disturbs another.
-/

namespace KptrOS

open CSem

/-! ## Fields -/

namespace AcpiFadt

variable (fadt : AcpiFadt)

def length : BitVec 32 := Struct.field fadt 4 4

def revision : Byte := Struct.field fadt 8 1

def firmwareCtrl : BitVec 32 := Struct.field fadt 36 4

def dsdt : BitVec 32 := Struct.field fadt 40 4

def xFirmwareCtrl : Word := Struct.field fadt 132 8

def xDsdt : Word := Struct.field fadt 140 8

def setRevision (revision : Byte) : AcpiFadt := Struct.setField fadt 8 1 revision

def setXFirmwareCtrl (addr : Word) : AcpiFadt := Struct.setField fadt 132 8 addr

def setXDsdt (addr : Word) : AcpiFadt := Struct.setField fadt 140 8 addr

/-- The fields `preferred_pm_profile`, `pstate_cnt`, `cst_cnt` and `iapc_boot_arch`, which are
reserved before version 3, zeroed. -/
def clearReserved : AcpiFadt :=
  let fadt := Struct.setField fadt 45 1 0
  let fadt := Struct.setField fadt 55 1 0
  let fadt := Struct.setField fadt 95 1 0
  Struct.setField fadt 109 2 0

end AcpiFadt

/-- The state with another copy of the FADT. -/
def Uacpi.setFadt (s : Uacpi) (fadt : AcpiFadt) : Uacpi := { s with fadt := fadt }

@[simp] theorem Uacpi.fadt_setFadt (s : Uacpi) (fadt : AcpiFadt) : (s.setFadt fadt).fadt = fadt :=
  rfl

@[simp] theorem Uacpi.setFadt_setFadt (s : Uacpi) (fadt fadt' : AcpiFadt) :
    (s.setFadt fadt).setFadt fadt' = s.setFadt fadt' := rfl

/-- Assignments to members of `g_uacpi_rt_ctx.fadt`. -/
def modifyFadt (f : AcpiFadt → AcpiFadt) : Proc Uacpi Unit := fun s => .ok ((), s.setFadt (f s.fadt))

/-! ## The revision -/

/-- `fadt_version_sizes`. -/
def fadtVersionSizes : List Nat := [116, 132, 244, 244, 268, 276]

/-- The first index of a size that is not exceeded, or the number of sizes. -/
def fadtVersionIndex (length : BitVec 32) : Nat :=
  fadtVersionSizes.findIdx fun size => length.toNat ≤ size

/-- `fadt_ensure_correct_revision(&g_uacpi_rt_ctx.fadt)`. -/
def fadtEnsureCorrectRevision : Proc Uacpi Unit := do
  let s ← get
  let currentRev := s.fadt.revision.toNat
  let rev := fadtVersionIndex s.fadt.length
  if rev = 6 then
    uacpiLogLvl .trace fadtNewerMessage [.word (BitVec.ofNat 64 currentRev),
      .word (BitVec.ofNat 64 rev)]
    modifyFadt fun fadt => fadt.setRevision (BitVec.ofNat 8 rev)
  else
    let rev := rev + 1
    Proc.when (currentRev ≠ rev ∧ ¬ (rev = 3 ∧ currentRev = 4)) do
      uacpiLogLvl .warn fadtLengthMessage [.word (s.fadt.length.setWidth 64),
        .word (BitVec.ofNat 64 currentRev), .word (BitVec.ofNat 64 rev)]
      modifyFadt fun fadt => fadt.setRevision (BitVec.ofNat 8 rev)

/-! ## Registers -/

/-- `UACPI_ADDRESS_SPACE_SYSTEM_IO`. -/
def addressSpaceSystemIo : Byte := 1

/-- `gas_init_system_io(gas, address, byte_size)`, for the `struct acpi_gas` at an offset. -/
def gasInitSystemIo (fadt : AcpiFadt) (gas : Nat) (address : Word) (byteSize : Byte) : AcpiFadt :=
  let fadt := Struct.setField fadt (gas + 4) 8 address
  let fadt := Struct.setField fadt gas 1 addressSpaceSystemIo
  let fadt := Struct.setField fadt (gas + 1) 1
    (BitVec.ofNat 8 (min 255 (byteSize.toNat * 8)))
  let fadt := Struct.setField fadt (gas + 2) 1 0
  Struct.setField fadt (gas + 3) 1 0

/-- `struct register_description`. -/
structure RegisterDescription where
  offset : Nat
  xoffset : Nat
  lengthOffset : Nat
deriving DecidableEq

/-- `fadt_registers`. -/
def fadtRegisters : List RegisterDescription :=
  [⟨56, 148, 88⟩, ⟨60, 160, 88⟩, ⟨64, 172, 89⟩, ⟨68, 184, 89⟩, ⟨72, 196, 90⟩, ⟨76, 208, 91⟩,
    ⟨80, 220, 92⟩, ⟨84, 232, 93⟩]

namespace RegisterDescription

variable (desc : RegisterDescription) (fadt : AcpiFadt)

def legacyAddr : BitVec 32 := Struct.field fadt desc.offset 4

def length : Byte := Struct.field fadt desc.lengthOffset 1

/-- `gas->address`. -/
def address : Word := Struct.field fadt (desc.xoffset + 4) 8

/-- The body of the loop of `convert_registers_to_gas`. -/
def convert : AcpiFadt :=
  if desc.address fadt ≠ 0 then fadt
  else gasInitSystemIo fadt desc.xoffset ((desc.legacyAddr fadt).setWidth 64) (desc.length fadt)

end RegisterDescription

/-- `convert_registers_to_gas()`. -/
def convertRegistersToGas (fadt : AcpiFadt) : AcpiFadt :=
  fadtRegisters.foldl (fun fadt desc => desc.convert fadt) fadt

/-! ## What the conversion does -/

section

variable (fadt : AcpiFadt)

/-- A register block as `struct acpi_gas` with a legacy address. -/
structure RegisterDescription.IsSystemIo (desc : RegisterDescription) (legacyAddr : BitVec 32)
    (length : Byte) : Prop where
  address : desc.address fadt = legacyAddr.setWidth 64
  spaceId : Struct.field fadt desc.xoffset 1 = addressSpaceSystemIo
  bitWidth : Struct.field fadt (desc.xoffset + 1) 1 = BitVec.ofNat 8 (min 255 (length.toNat * 8))
  bitOffset : Struct.field fadt (desc.xoffset + 2) 1 = 0#8
  accessSize : Struct.field fadt (desc.xoffset + 3) 1 = 0#8

theorem gasInitSystemIo_sub {gas : Nat} (address : Word) (byteSize : Byte) {o k : Nat}
    (h : o + k ≤ 276) (hdisjoint : o + k ≤ gas ∨ gas + 12 ≤ o) :
    Struct.sub (gasInitSystemIo fadt gas address byteSize) o k = Struct.sub fadt o k := by
  simp (disch := omega) only [gasInitSystemIo, Struct.setField, Struct.sub_setSub_of_disjoint]

theorem gasInitSystemIo_isSystemIo {desc : RegisterDescription} (h : desc.xoffset + 12 ≤ 276)
    (legacyAddr : BitVec 32) (length : Byte) :
    desc.IsSystemIo (gasInitSystemIo fadt desc.xoffset (legacyAddr.setWidth 64) length)
      legacyAddr length := by
  constructor
  · simp (disch := omega) only [RegisterDescription.address, gasInitSystemIo,
      Struct.field_setField_of_disjoint, Struct.field_setField]
  · simp (disch := omega) only [gasInitSystemIo, Struct.field_setField_of_disjoint,
      Struct.field_setField]
  · simp (disch := omega) only [gasInitSystemIo, Struct.field_setField_of_disjoint,
      Struct.field_setField]
  · simp (disch := omega) only [gasInitSystemIo, Struct.field_setField_of_disjoint,
      Struct.field_setField]
    rfl
  · simp (disch := omega) only [gasInitSystemIo, Struct.field_setField]
    rfl

/-- A register whose block lies outside `o`, …, `o + k - 1`. -/
def RegisterDescription.Apart (desc : RegisterDescription) (o k : Nat) : Prop :=
  o + k ≤ desc.xoffset ∨ desc.xoffset + 12 ≤ o

instance (desc : RegisterDescription) (o k : Nat) : Decidable (desc.Apart o k) :=
  inferInstanceAs (Decidable (_ ∨ _))

theorem RegisterDescription.Apart.within {desc : RegisterDescription} {o k o' k' : Nat}
    (h : desc.Apart o k) (hle : o ≤ o') (hend : o' + k' ≤ o + k) : desc.Apart o' k' := by
  rcases h with h | h
  · exact .inl (by omega)
  · exact .inr (by omega)

theorem RegisterDescription.convert_sub {desc : RegisterDescription} {o k : Nat}
    (h : o + k ≤ 276) (hapart : desc.Apart o k) :
    Struct.sub (desc.convert fadt) o k = Struct.sub fadt o k := by
  rw [RegisterDescription.convert]
  split
  · rfl
  · exact gasInitSystemIo_sub fadt _ _ h hapart

/-- Conversions write to their own blocks only. -/
theorem convert_foldl_sub {descs : List RegisterDescription} {o k : Nat} (h : o + k ≤ 276)
    (hapart : ∀ desc ∈ descs, desc.Apart o k) :
    Struct.sub (descs.foldl (fun fadt desc => desc.convert fadt) fadt) o k =
      Struct.sub fadt o k := by
  induction descs generalizing fadt with
  | nil => rfl
  | cons desc descs ih =>
    rw [List.foldl_cons, ih _ fun d hd => hapart d (List.mem_cons_of_mem _ hd)]
    exact RegisterDescription.convert_sub fadt h (hapart desc List.mem_cons_self)

theorem RegisterDescription.IsSystemIo.congr {desc : RegisterDescription} {f g : AcpiFadt}
    {legacyAddr : BitVec 32} {length : Byte} (h : desc.IsSystemIo f legacyAddr length)
    (hsub : ∀ o k, desc.xoffset ≤ o → o + k ≤ desc.xoffset + 12 →
      Struct.sub g o k = Struct.sub f o k) : desc.IsSystemIo g legacyAddr length := by
  have hfield : ∀ o k, desc.xoffset ≤ o → o + k ≤ desc.xoffset + 12 →
      Struct.field g o k = Struct.field f o k := fun o k hle hend => by
    rw [Struct.field, hsub o k hle hend, Struct.field]
  constructor
  · exact (hfield _ 8 (by omega) (by omega)).trans h.address
  · exact (hfield _ 1 (by omega) (by omega)).trans h.spaceId
  · exact (hfield _ 1 (by omega) (by omega)).trans h.bitWidth
  · exact (hfield _ 1 (by omega) (by omega)).trans h.bitOffset
  · exact (hfield _ 1 (by omega) (by omega)).trans h.accessSize

theorem fadtRegisters_le : ∀ desc ∈ fadtRegisters,
    desc.xoffset + 12 ≤ 276 ∧ desc.offset + 4 ≤ 276 ∧ desc.lengthOffset + 1 ≤ 276 := by decide

/-- The blocks do not overlap. -/
theorem fadtRegisters_apart :
    fadtRegisters.Pairwise fun d e => d.Apart e.xoffset 12 ∧ e.Apart d.xoffset 12 := by decide

/-- No block overlaps the legacy fields. -/
theorem fadtRegisters_apart_legacy : ∀ d ∈ fadtRegisters, ∀ e ∈ fadtRegisters,
    d.Apart e.offset 4 ∧ d.Apart e.lengthOffset 1 := by decide

/-- **Every register can be reached through its extended block**: a block with an address is
kept, and another one becomes the legacy block of the register. -/
theorem convertRegistersToGas_spec : ∀ desc ∈ fadtRegisters,
    (desc.address fadt ≠ 0 → desc.address (convertRegistersToGas fadt) = desc.address fadt ∧
      Struct.sub (convertRegistersToGas fadt) desc.xoffset 12 =
        Struct.sub fadt desc.xoffset 12) ∧
    (desc.address fadt = 0 → desc.IsSystemIo (convertRegistersToGas fadt) (desc.legacyAddr fadt)
      (desc.length fadt)) := by
  intro desc hdesc
  obtain ⟨hx, hoffset, hlength⟩ := fadtRegisters_le desc hdesc
  have hlegacy := fadtRegisters_apart_legacy
  have hapart := fadtRegisters_apart
  obtain ⟨before, after, heq⟩ := List.append_of_mem hdesc
  rw [heq, List.pairwise_append, List.pairwise_cons] at hapart
  obtain ⟨-, ⟨hafter, -⟩, hbefore⟩ := hapart
  have hmem : ∀ d ∈ before, d ∈ fadtRegisters := fun d hd => by
    rw [heq]
    exact List.mem_append_left _ hd
  -- the registers in front of this one leave its block and its legacy fields alone
  have hfirst : ∀ o k, desc.xoffset ≤ o → o + k ≤ desc.xoffset + 12 →
      Struct.sub (before.foldl (fun fadt desc => desc.convert fadt) fadt) o k =
        Struct.sub fadt o k := fun o k hle hend =>
    convert_foldl_sub fadt (by omega) fun d hd =>
      (hbefore d hd desc List.mem_cons_self).1.within hle hend
  have haddr : desc.legacyAddr (before.foldl (fun fadt desc => desc.convert fadt) fadt) =
      desc.legacyAddr fadt := congrArg Struct.number
    (convert_foldl_sub fadt hoffset fun d hd => (hlegacy d (hmem d hd) desc hdesc).1)
  have hlen : desc.length (before.foldl (fun fadt desc => desc.convert fadt) fadt) =
      desc.length fadt := congrArg Struct.number
    (convert_foldl_sub fadt hlength fun d hd => (hlegacy d (hmem d hd) desc hdesc).2)
  have haddress : desc.address (before.foldl (fun fadt desc => desc.convert fadt) fadt) =
      desc.address fadt := congrArg Struct.number (hfirst _ 8 (by omega) (by omega))
  have hrun : convertRegistersToGas fadt = after.foldl (fun fadt desc => desc.convert fadt)
      (desc.convert (before.foldl (fun fadt desc => desc.convert fadt) fadt)) := by
    rw [convertRegistersToGas, heq, List.foldl_append, List.foldl_cons]
  generalize before.foldl (fun fadt desc => desc.convert fadt) fadt = g at *
  -- those behind it leave its block alone
  have hlast : ∀ o k, desc.xoffset ≤ o → o + k ≤ desc.xoffset + 12 →
      Struct.sub (convertRegistersToGas fadt) o k = Struct.sub (desc.convert g) o k := by
    intro o k hle hend
    rw [hrun]
    exact convert_foldl_sub _ (by omega) fun d hd => (hafter d hd).2.within hle hend
  refine ⟨fun hne => ?_, fun hzero => ?_⟩
  · have hkeep : ∀ o k, desc.xoffset ≤ o → o + k ≤ desc.xoffset + 12 →
        Struct.sub (convertRegistersToGas fadt) o k = Struct.sub fadt o k := by
      intro o k hle hend
      rw [hlast o k hle hend, RegisterDescription.convert, haddress, if_pos hne]
      exact hfirst o k hle hend
    exact ⟨congrArg Struct.number (hkeep _ 8 (by omega) (by omega)),
      hkeep _ _ (Nat.le_refl _) (Nat.le_refl _)⟩
  · refine RegisterDescription.IsSystemIo.congr ?_ hlast
    rw [RegisterDescription.convert, haddress, if_neg (not_not_intro hzero), haddr, hlen]
    exact gasInitSystemIo_isSystemIo g hx _ _

end

theorem convertRegistersToGas_field (fadt : AcpiFadt) {o k : Nat} (h : o + k ≤ 276)
    (hapart : ∀ desc ∈ fadtRegisters, desc.Apart o k) :
    Struct.field (convertRegistersToGas fadt) o k = Struct.field fadt o k :=
  congrArg Struct.number (convert_foldl_sub fadt h hapart)

/-! ## Initialisation -/

/-- `uacpi_memcpy(fadt, hdr, UACPI_MIN(sizeof(*fadt), hdr->length))`. -/
def AcpiFadt.copyFrom (fadt : AcpiFadt) (m : Memory) (hdr : Word) : AcpiFadt :=
  let length := min 276 (AcpiSdtHdr.length (loadStruct m hdr 36)).toNat
  ⟨fun i => if i.val < length then m (offset hdr i) else fadt.elem i⟩

/-- `initialize_fadt(virt)`. Nothing sets `is_hardware_reduced` in this configuration.
`installDsdt` is `table_install_physical_with_origin_unlocked` for the DSDT. -/
def initializeFadt (installDsdt : Word → Proc Uacpi UacpiStatus) (virt : Word) :
    Proc Uacpi UacpiStatus := do
  let s ← get
  modifyFadt fun fadt => fadt.copyFrom s.kernel.mem virt
  fadtEnsureCorrectRevision
  modifyFadt fun fadt => if fadt.revision.toNat ≤ 2 then fadt.clearReserved else fadt
  modifyFadt fun fadt =>
    if fadt.xDsdt = 0 then fadt.setXDsdt (fadt.dsdt.setWidth 64) else fadt
  let s ← get
  let ret ← (if s.fadt.xDsdt ≠ 0 then installDsdt s.fadt.xDsdt else pure .ok)
  if ret ≠ .ok ∧ ret ≠ .overridden then return ret
  modifyFadt fun fadt =>
    if fadt.firmwareCtrl ≠ 0 then fadt.setXFirmwareCtrl (fadt.firmwareCtrl.setWidth 64) else fadt
  modifyFadt convertRegistersToGas
  return .ok

end KptrOS
