import KptrOS.Timer.Hpet
import KptrOS.Uacpi.Fadt

/-!
# The ACPI tables (`kern/acpi/tables.c`)

The functions of the file, as they are compiled with `UACPI_BAREBONES_MODE`: there are no
mutexes, no interpreter and no heap. A pointer `out_table` that may be null is an optional
`UacpiTable`, which is returned as the function leaves it.

An installation may nest: an override installs another table, and the FADT installs the DSDT.
`tableInstallPhysicalWithOriginUnlocked` takes the depth up to which this is followed, and the
functions that it calls take the installation of another table as a parameter.

- `dumpTableHeader`, `uacpiVerifyTableChecksum`, `uacpiCheckTableSignature`: checks and reports.
- `tableRefUnlocked`, `tableUnrefUnlocked`: the reference counts.
- `verifyAndInstallTable`, `tableInstallPhysicalWithOriginUnlocked`, …: installation.
- `uacpiForEachTable`, `findTable`, `tableCtl`, …: what the rest of the kernel calls.
- `uacpiSetupEarlyTableAccess`: initialisation from the RSDP.
-/

namespace KptrOS

open CSem

/-! ## Flags and the logger -/

/-- `UACPI_FLAG_BAD_CSUM_FATAL`. -/
def flagBadCsumFatal : Word := 1 <<< 0

/-- `UACPI_FLAG_BAD_TBL_SIGNATURE_FATAL`. -/
def flagBadTblSignatureFatal : Word := 1 <<< 1

/-- `UACPI_FLAG_BAD_XSDT`. -/
def flagBadXsdt : Word := 1 <<< 2

/-- `UACPI_FLAG_PROACTIVE_TBL_CSUM`. -/
def flagProactiveTblCsum : Word := 1 <<< 5

/-- `uacpi_context_set_log_level(lvl)`. -/
def uacpiContextSetLogLevel (lvl : Byte) : Proc Uacpi Unit := modify fun s =>
  { s with logLevel := if lvl = 0 then UacpiLogLevel.info.code.setWidth 8 else lvl }

/-- `uacpi_logger_initialize()`. -/
def uacpiLoggerInitialize : Proc Uacpi Unit := do
  let s ← get
  Proc.when (s.logLevel = 0) (uacpiContextSetLogLevel (UacpiLogLevel.info.code.setWidth 8))
  Proc.when (s.versionPrinted = false) do
    modify fun s => { s with versionPrinted := true }
    uacpiLogLvl .info versionMessage [.word 3, .word 0, .word 0]

/-! ## Checks and reports -/

/-- `uacpi_signatures_match(lhs, rhs)`, of the four characters behind each pointer. -/
def uacpiSignaturesMatch (lhs rhs : List Byte) : Bool := lhs == rhs

/-- `dump_table_header(phys_addr, hdr)`. -/
def dumpTableHeader (physAddr : Word) (hdr : Struct 36) : Proc Uacpi Unit := do
  let sdt : AcpiSdtHdr := hdr
  if uacpiSignaturesMatch sdt.signature (lit "FACS") then
    uacpiLogLvl .info facsMessage [.word physAddr, .word (sdt.length.setWidth 64)]
  else if hdr.text 0 8 = lit "RSD PTR " then
    let rsdp : AcpiRsdp := hdr
    uacpiLogLvl .info rsdpMessage [.word physAddr,
      .word (if 2 ≤ rsdp.revision.toNat then rsdp.length.setWidth 64 else 20),
      .word (rsdp.revision.setWidth 64), .str (hdr.pointer 9)]
  else
    uacpiLogLvl .info sdtMessage [.str (hdr.pointer 0), .word physAddr,
      .word (sdt.length.setWidth 64), .word (sdt.revision.setWidth 64), .str (hdr.pointer 10),
      .str (hdr.pointer 16)]

/-- `table_checksum(table, size)`. -/
def tableChecksum (m : Memory) (table : Word) (size : Nat) : Byte :=
  size.fold (fun i _ csum => csum + m (offset table i)) 0

/-- `uacpi_verify_table_checksum(table, size)`. -/
def uacpiVerifyTableChecksum (table : Word) (size : Nat) : Proc Uacpi UacpiStatus := do
  let s ← get
  let csum := tableChecksum s.kernel.mem table size
  if csum = 0 then return .ok
  let hdr : AcpiSdtHdr := loadStruct s.kernel.mem table 36
  let (ret, lvl) :=
    if s.checkFlag flagBadCsumFatal then (UacpiStatus.badChecksum, UacpiLogLevel.error)
    else (.ok, .warn)
  uacpiLogLvl lvl checksumMessage (hdr.fmtTblHdr ++ [.word (csum.setWidth 64)])
  return ret

/-- `uacpi_check_table_signature(table, expect)`. -/
def uacpiCheckTableSignature (hdr : AcpiSdtHdr) (expect : String) : Proc Uacpi UacpiStatus := do
  if uacpiSignaturesMatch hdr.signature (lit expect) then return .ok
  let s ← get
  let (ret, lvl) :=
    if s.checkFlag flagBadTblSignatureFatal then
      (UacpiStatus.invalidSignature, UacpiLogLevel.error)
    else (.ok, .warn)
  uacpiLogLvl lvl signatureMessage (hdr.fmtTblHdr ++ [.str (cstr expect)])
  return ret

/-! ## Entries of the array -/

/-- `table_alloc(&tbl, &idx)`. -/
def tableAlloc : Proc Uacpi (UacpiStatus × Nat) := do
  let s ← get
  if s.earlyTableAccess ∧ s.size = s.capacity then
    uacpiLogLvl .warn exhaustedMessage []
    return (.outOfMemory, 0)
  match ← tableArrayAlloc with
  | none => return (.outOfMemory, 0)
  | some idx => return (.ok, idx)

/-- `get_external_table_header(phys_addr, &hdr)`, or `none` when it cannot be mapped. -/
def getExternalTableHeader (physAddr : Word) : Proc Uacpi (Option AcpiSdtHdr) := do
  let virt ← mapTable physAddr 36
  if virt = 0 then return none
  let hdr ← loadAt virt 36
  unmapTable virt 36
  return some hdr

/-- `case 0` of `table_ref_unlocked(tbl)`, with the status `ok` where it breaks. -/
def tableFirstRef (tbl : Nat) : Proc Uacpi UacpiStatus := do
  let t ← readTable tbl
  if t.flags &&& tableInvalid ≠ 0 then return .invalidArgument
  if ¬ t.IsPhysical then return .ok
  let ptr ← mapTable t.physAddr (t.hdr.length.setWidth 64)
  modifyTable tbl fun t => { t with ptr := ptr }
  let t ← readTable tbl
  if t.ptr = 0 then return .mappingFailed
  if t.flags &&& tableCsumVerified ≠ 0 then return .ok
  let ret ← uacpiVerifyTableChecksum t.ptr t.hdr.length.toNat
  if ret ≠ .ok then
    let t ← readTable tbl
    unmapTable t.ptr (t.hdr.length.setWidth 64)
    modifyTable tbl fun t => { t with flags := t.flags ||| tableInvalid, ptr := 0 }
    return ret
  modifyTable tbl fun t => { t with flags := t.flags ||| tableCsumVerified }
  return .ok

/-- `table_ref_unlocked(tbl)`, with the index of the entry for its address. -/
def tableRefUnlocked (tbl : Nat) : Proc Uacpi UacpiStatus := do
  let t ← readTable tbl
  let ret ← (if t.referenceCount = 0 then tableFirstRef tbl else pure .ok)
  if ret ≠ .ok then return ret
  Proc.when (t.referenceCount = 0xFFFE)
    (uacpiLogLvl .warn permanentMessage t.hdr.fmtTblHdr)
  let t ← readTable tbl
  Proc.when (t.referenceCount ≠ 0xFFFF)
    (modifyTable tbl fun t => { t with referenceCount := t.referenceCount + 1 })
  return .ok

/-- `table_unref_unlocked(tbl)`. -/
def tableUnrefUnlocked (tbl : Nat) : Proc Uacpi UacpiStatus := do
  let t ← readTable tbl
  if t.referenceCount = 0 then
    uacpiLogLvl .warn noReferencesMessage t.hdr.fmtTblHdr
    return .invalidArgument
  if t.referenceCount = 0xFFFF then return .ok
  Proc.when (t.referenceCount = 1 ∧ t.IsPhysical) do
    unmapTable t.ptr (t.hdr.length.setWidth 64)
    modifyTable tbl fun t => { t with ptr := 0 }
  modifyTable tbl fun t => { t with referenceCount := t.referenceCount - 1 }
  return .ok

/-! ## Installation -/

/-- `table_install_physical_with_origin_unlocked(phys, origin, expected_signature, out_table)`,
as the functions that it calls see it. -/
abbrev PhysicalInstall :=
  Word → TableOrigin → Option String → Option UacpiTable →
    Proc Uacpi (UacpiStatus × Option UacpiTable)

/-- The header of a table that is being installed: in a local variable, or in memory. -/
inductive HeaderSource where
  | copy (hdr : AcpiSdtHdr)
  | memory (virt : Word)

/-- `*hdr`. -/
def HeaderSource.load : HeaderSource → Proc Uacpi AcpiSdtHdr
  | .copy hdr => pure hdr
  | .memory virt => loadAt virt 36

/-- The FADT's installation of the DSDT. -/
def installDsdt (install : PhysicalInstall) (xDsdt : Word) : Proc Uacpi UacpiStatus := do
  let (ret, _) ← install xDsdt .firmwarePhysical (some "DSDT") none
  return ret

/-- The validation in `verify_and_install_table` with a mapping of the table: the status and
the flags. -/
def verifyMapping (install : PhysicalInstall) (isFadt : Bool) (mapping : Word) (length : Nat) :
    Proc Uacpi (UacpiStatus × Byte) := do
  let ret ← uacpiVerifyTableChecksum mapping length
  if ret ≠ .ok then return (ret, 0)
  let ret ← (if isFadt then initializeFadt (installDsdt install) mapping else pure .ok)
  return (ret, tableCsumVerified)

/-- The first half of `verify_and_install_table`. -/
def verifyTable (install : PhysicalInstall) (hdr : HeaderSource) (physAddr virtAddr : Word)
    (outTable : Option UacpiTable) : Proc Uacpi (UacpiStatus × Byte) := do
  let h ← hdr.load
  let isFadt := uacpiSignaturesMatch h.signature (lit "FACP")
  if uacpiSignaturesMatch h.signature (lit "FACS") then return (.ok, tableCsumVerified)
  let s ← get
  if !(s.checkFlag flagProactiveTblCsum || isFadt || outTable.isSome) then return (.ok, 0)
  let mapping ← (if virtAddr = 0 then mapTable physAddr (h.length.setWidth 64) else pure virtAddr)
  if mapping = 0 then return (.mappingFailed, 0)
  let h ← hdr.load
  let r ← verifyMapping install isFadt mapping h.length.toNat
  Proc.when (virtAddr = 0) do
    let h ← hdr.load
    unmapTable mapping (h.length.setWidth 64)
  return r

/-- The second half of `verify_and_install_table`. -/
def recordTable (hdr : HeaderSource) (physAddr virtAddr : Word) (origin : TableOrigin)
    (outTable : Option UacpiTable) (flags : Byte) :
    Proc Uacpi (UacpiStatus × Option UacpiTable) := do
  let h ← hdr.load
  Proc.when (uacpiSignaturesMatch h.signature (lit "DSDT"))
    (modify fun s => { s with isRev1 := h.revision.toNat < 2 })
  let (ret, idx) ← tableAlloc
  if ret ≠ .ok then return (ret, outTable)
  let h ← hdr.load
  dumpTableHeader physAddr h
  modifyTable idx fun _ =>
    { physAddr := physAddr, hdr := h, ptr := virtAddr, referenceCount := 0, flags := flags,
      origin := origin.code }
  if outTable.isNone then return (.ok, none)
  modifyTable idx fun t => { t with referenceCount := t.referenceCount + 1 }
  return (.ok, some ⟨virtAddr, BitVec.ofNat 64 idx⟩)

/-- `verify_and_install_table(hdr, phys_addr, virt_addr, origin, out_table)`. -/
def verifyAndInstallTable (install : PhysicalInstall) (hdr : HeaderSource)
    (physAddr virtAddr : Word) (origin : TableOrigin) (outTable : Option UacpiTable) :
    Proc Uacpi (UacpiStatus × Option UacpiTable) := do
  let (ret, flags) ← verifyTable install hdr physAddr virtAddr outTable
  if ret ≠ .ok then return (ret, outTable)
  recordTable hdr physAddr virtAddr origin outTable flags

/-- `table_install_with_origin_unlocked(virt, origin, out_table)`. -/
def tableInstallWithOriginUnlocked (install : PhysicalInstall) (virt : Word)
    (origin : TableOrigin) (outTable : Option UacpiTable) :
    Proc Uacpi (UacpiStatus × Option UacpiTable) := do
  let hdr : AcpiSdtHdr ← loadAt virt 36
  if hdr.length.toNat < 36 then
    uacpiLogLvl .error tableLengthMessage
      [.str (Struct.pointer hdr 0), .word virt, .word (hdr.length.setWidth 64)]
    return (.invalidTableLength, outTable)
  verifyAndInstallTable install (.memory virt) 0 virt origin outTable

/-- `handle_table_override(disposition, address, out_table)`. -/
def handleTableOverride (install : PhysicalInstall) (disposition : Disposition) (address : Word)
    (outTable : Option UacpiTable) : Proc Uacpi (UacpiStatus × Option UacpiTable) :=
  match disposition with
  | .virtualOverride => tableInstallWithOriginUnlocked install address .hostVirtual outTable
  | .physicalOverride => install address .hostPhysical none outTable
  | disposition => do
    uacpiLogLvl .error dispositionMessage [.word (disposition.code.setWidth 64)]
    return (.internalError, outTable)

/-- The part of `table_install_physical_with_origin_unlocked` in front of the label `out`,
once the header is known. -/
def installOrOverride (install : PhysicalInstall) (hdr : AcpiSdtHdr) (phys virt : Word)
    (origin : TableOrigin) (outTable : Option UacpiTable) :
    Proc Uacpi (UacpiStatus × Option UacpiTable) := do
  let s ← get
  match origin, s.installationHandler with
  | .firmwarePhysical, some handler =>
    let (disposition, override) := handler s.kernel.mem virt
    match disposition with
    | .allow => verifyAndInstallTable install (.copy hdr) phys virt origin outTable
    | .deny =>
      uacpiLogLvl .info deniedMessage [.str (Struct.pointer hdr 0), .word phys]
      return (.denied, outTable)
    | disposition =>
      uacpiLogLvl .info overriddenMessage [.str (Struct.pointer hdr 0), .word phys]
      let (ret, outTable) ← handleTableOverride install disposition override outTable
      return (if ret = .ok then .overridden else ret, outTable)
  | _, _ => verifyAndInstallTable install (.copy hdr) phys virt origin outTable

/-- The check of the signature, if one is expected. -/
def checkExpected (hdr : AcpiSdtHdr) : (expectedSignature : Option String) → Proc Uacpi UacpiStatus
  | some expect => uacpiCheckTableSignature hdr expect
  | none => pure .ok

/-- The body of `table_install_physical_with_origin_unlocked`. -/
def tableInstallPhysicalBody (install : PhysicalInstall) : PhysicalInstall :=
  fun phys origin expectedSignature outTable => do
    let some hdr ← getExternalTableHeader phys | return (.mappingFailed, outTable)
    Proc.when (hdr.length.toNat < 36) (uacpiLogLvl .warn bogusMessage
      [.str (Struct.pointer hdr 0), .word phys, .word (hdr.length.setWidth 64)])
    let ret ← checkExpected hdr expectedSignature
    if ret ≠ .ok then return (ret, outTable)
    let s ← get
    let mapped := s.installationHandler.isSome || outTable.isSome
    let virt ← (if mapped then mapTable phys (hdr.length.setWidth 64) else pure 0)
    if mapped ∧ virt = 0 then return (.mappingFailed, outTable)
    let (ret, outTable) ← installOrOverride install hdr phys virt origin outTable
    if ret = .ok ∧ outTable.isSome then return (ret, outTable)
    Proc.when (virt ≠ 0) (unmapTable virt (hdr.length.setWidth 64))
    return (.ok, outTable)

/-- `table_install_physical_with_origin_unlocked(phys, origin, expected_signature, out_table)`,
given up when it nests deeper than `depth`. -/
def tableInstallPhysicalWithOriginUnlocked : (depth : Nat) → PhysicalInstall
  | 0 => fun _ _ _ _ => .fault .diverged
  | depth + 1 => tableInstallPhysicalBody (tableInstallPhysicalWithOriginUnlocked depth)

section

variable (depth : Nat)

/-- `uacpi_table_install_physical_with_origin(phys, origin, out_table)`. -/
def uacpiTableInstallPhysicalWithOrigin (phys : Word) (origin : TableOrigin)
    (outTable : Option UacpiTable) : Proc Uacpi (UacpiStatus × Option UacpiTable) :=
  tableInstallPhysicalWithOriginUnlocked depth phys origin none outTable

/-- `uacpi_table_install_with_origin(virt, origin, out_table)`. -/
def uacpiTableInstallWithOrigin (virt : Word) (origin : TableOrigin)
    (outTable : Option UacpiTable) : Proc Uacpi (UacpiStatus × Option UacpiTable) :=
  tableInstallWithOriginUnlocked (tableInstallPhysicalWithOriginUnlocked depth) virt origin
    outTable

/-- `uacpi_table_install(virt, out_table)`. -/
def uacpiTableInstall (virt : Word) (outTable : Option UacpiTable) :
    Proc Uacpi (UacpiStatus × Option UacpiTable) := do
  let s ← get
  if !s.earlyTableAccess then return (.initLevelMismatch, outTable)
  uacpiTableInstallWithOrigin depth virt .hostVirtual outTable

/-- `uacpi_table_install_physical(addr, out_table)`. -/
def uacpiTableInstallPhysical (addr : Word) (outTable : Option UacpiTable) :
    Proc Uacpi (UacpiStatus × Option UacpiTable) := do
  let s ← get
  if !s.earlyTableAccess then return (.initLevelMismatch, outTable)
  uacpiTableInstallPhysicalWithOrigin depth addr .hostPhysical outTable

end

/-- `uacpi_set_table_installation_handler(handler)`. -/
def uacpiSetTableInstallationHandler (handler : Option InstallationHandler) :
    Proc Uacpi UacpiStatus := do
  let s ← get
  if s.installationHandler.isSome && handler.isSome then return .ok
  modify fun s => { s with installationHandler := handler }
  return .ok

/-! ## Searches -/

/-- `uacpi_iteration_decision`. -/
inductive IterationDecision where
  | continue
  | break
deriving DecidableEq

/-- The loop of `uacpi_for_each_table`: a 64-bit counter that has not left it after `2 ^ 64`
steps never does. The callback gets the index of the entry for its address. -/
def forEachTableLoop {τ : Type} (cb : Nat → τ → Proc Uacpi (IterationDecision × τ)) :
    (bound : Nat) → (idx : Nat) → τ → Proc Uacpi τ
  | 0, _, _ => .fault .diverged
  | bound + 1, idx, user => do
    let s ← get
    if s.size ≤ idx then return user
    let tbl ← readTable idx
    if tbl.flags &&& tableInvalid ≠ 0 then return ← forEachTableLoop cb bound (idx + 1) user
    let (dec, user) ← cb idx user
    if dec = .break then return user
    forEachTableLoop cb bound (idx + 1) user

/-- `uacpi_for_each_table(base_idx, cb, user)`. -/
def uacpiForEachTable {τ : Type} (baseIdx : Nat)
    (cb : Nat → τ → Proc Uacpi (IterationDecision × τ)) (user : τ) :
    Proc Uacpi (UacpiStatus × τ) := do
  let s ← get
  if !s.earlyTableAccess then return (.initLevelMismatch, user)
  let user ← forEachTableLoop cb (2 ^ 64) baseIdx user
  return (.ok, user)

/-- `uacpi_table_identifiers`: 4, 6 and 8 characters. -/
structure TableIdentifiers where
  signature : List Byte
  oemid : List Byte
  oemTableId : List Byte

/-- The comparisons of `do_search_tables` for `SEARCH_TYPE_BY_ID`. -/
def TableIdentifiers.Matches (id : TableIdentifiers) (hdr : AcpiSdtHdr) : Prop :=
  uacpiSignaturesMatch id.signature hdr.signature ∧
    (id.oemid.head? = some 0 ∨ id.oemid = hdr.oemid) ∧
    (id.oemTableId.head? = some 0 ∨ id.oemTableId = hdr.oemTableId)

instance (id : TableIdentifiers) (hdr : AcpiSdtHdr) : Decidable (id.Matches hdr) :=
  inferInstanceAs (Decidable (_ ∧ _ ∧ _))

/-- `struct table_search_ctx`, without what stays as it is. -/
structure TableSearchCtx where
  outTable : UacpiTable
  status : UacpiStatus

/-- `do_search_tables(ctx, tbl, idx)` for `SEARCH_TYPE_BY_ID`. -/
def doSearchTables (id : TableIdentifiers) (idx : Nat) (ctx : TableSearchCtx) :
    Proc Uacpi (IterationDecision × TableSearchCtx) := do
  let tbl ← readTable idx
  if ¬ id.Matches tbl.hdr then return (.continue, ctx)
  let ret ← tableRefUnlocked idx
  if ret = .ok then
    let tbl ← readTable idx
    return (.break, ⟨⟨tbl.ptr, BitVec.ofNat 64 idx⟩, ret⟩)
  if ret = .badChecksum then return (.continue, ctx)
  return (.break, { ctx with status := ret })

/-- `find_table(base_idx, id, out_table)`. -/
def findTable (baseIdx : Nat) (id : TableIdentifiers) (outTable : UacpiTable) :
    Proc Uacpi (UacpiStatus × UacpiTable) := do
  let (ret, ctx) ← uacpiForEachTable baseIdx (doSearchTables id) ⟨outTable, .notFound⟩
  if ret ≠ .ok then return (ret, ctx.outTable)
  return (ctx.status, ctx.outTable)

/-- Identifiers that ask for a signature only. -/
def TableIdentifiers.ofSignature (signature : List Byte) : TableIdentifiers :=
  ⟨signature, List.replicate 6 0, List.replicate 8 0⟩

/-- `uacpi_table_find_by_signature(signature_string, out_table)`. -/
def uacpiTableFindBySignature (signatureString : CBuf) (outTable : UacpiTable) :
    Proc Uacpi (UacpiStatus × UacpiTable) := do
  Proc.when (signatureString.length < 4) (.fault .outOfBounds)
  let id := TableIdentifiers.ofSignature (signatureString.take 4)
  let s ← get
  if !s.earlyTableAccess then return (.initLevelMismatch, outTable)
  findTable 0 id outTable

/-- `uacpi_table_find(id, out_table)`. -/
def uacpiTableFind (id : TableIdentifiers) (outTable : UacpiTable) :
    Proc Uacpi (UacpiStatus × UacpiTable) := do
  let s ← get
  if !s.earlyTableAccess then return (.initLevelMismatch, outTable)
  findTable 0 id outTable

/-! ## Requests by index -/

/-- `struct table_ctl_request`, with the bits of `type` by their names. -/
structure TableCtlRequest where
  validateSetFlags : Bool := false
  validateClearFlags : Bool := false
  get : Bool := false
  put : Bool := false
  setFlags : Bool := false
  clearFlags : Bool := false
  expectSet : Byte := 0
  expectClear : Byte := 0
  set : Byte := 0
  clear : Byte := 0

/-- The part of `table_ctl` that follows the validation of the flags. -/
def tableCtlPerform (idx : Nat) (req : TableCtlRequest) : Proc Uacpi (UacpiStatus × Option Word) := do
  let ret ← (if req.get then tableRefUnlocked idx else pure .ok)
  if ret ≠ .ok then return (ret, none)
  let tbl ← readTable idx
  let outTbl := if req.get then some tbl.ptr else none
  let ret ← (if req.put then tableUnrefUnlocked idx else pure .ok)
  if ret ≠ .ok then return (ret, outTbl)
  Proc.when req.setFlags (modifyTable idx fun t => { t with flags := t.flags ||| req.set })
  Proc.when req.clearFlags (modifyTable idx fun t => { t with flags := t.flags &&& ~~~req.clear })
  return (.ok, outTbl)

/-- `table_ctl(idx, req)`: the status, and `req->out_tbl` if it is assigned. -/
def tableCtl (idx : Nat) (req : TableCtlRequest) : Proc Uacpi (UacpiStatus × Option Word) := do
  let s ← get
  if !s.earlyTableAccess then return (.initLevelMismatch, none)
  if s.size ≤ idx then
    uacpiLogLvl .error tableIndexMessage [.word (BitVec.ofNat 64 idx), .word (BitVec.ofNat 64 s.size)]
    return (.invalidArgument, none)
  let tbl ← readTable idx
  if tbl.flags &&& tableInvalid ≠ 0 then return (.invalidArgument, none)
  if req.validateSetFlags ∧ tbl.flags &&& req.expectSet ≠ req.expectSet then
    uacpiLogLvl .error expectSetMessage [.str (Struct.pointer tbl.hdr 0),
      .word (tbl.flags.setWidth 64), .word (req.expectSet.setWidth 64)]
    return (.invalidArgument, none)
  if req.validateClearFlags ∧ tbl.flags &&& req.expectClear ≠ 0 then
    uacpiLogLvl .error expectClearMessage [.str (Struct.pointer tbl.hdr 0),
      .word (tbl.flags.setWidth 64), .word (req.expectClear.setWidth 64)]
    return (.alreadyExists, none)
  tableCtlPerform idx req

/-- `uacpi_table_ref(tbl)`. -/
def uacpiTableRef (tbl : UacpiTable) : Proc Uacpi UacpiStatus := do
  let (ret, _) ← tableCtl tbl.index.toNat { get := true }
  return ret

/-- `uacpi_table_unref(tbl)`. -/
def uacpiTableUnref (tbl : UacpiTable) : Proc Uacpi UacpiStatus := do
  let (ret, _) ← tableCtl tbl.index.toNat { put := true }
  return ret

/-- `uacpi_table_find_next_with_same_signature(in_out_table)`. -/
def uacpiTableFindNextWithSameSignature (inOutTable : UacpiTable) :
    Proc Uacpi (UacpiStatus × UacpiTable) := do
  let s ← get
  if !s.earlyTableAccess then return (.initLevelMismatch, inOutTable)
  if inOutTable.virtAddr = 0 then return (.invalidArgument, inOutTable)
  let hdr : AcpiSdtHdr ← loadAt inOutTable.virtAddr 36
  let _ ← uacpiTableUnref inOutTable
  findTable (inOutTable.index + 1).toNat (.ofSignature hdr.signature) inOutTable

/-- `uacpi_table_fadt(&fadt)`. -/
def uacpiTableFadt : Proc Uacpi (UacpiStatus × Option AcpiFadt) := do
  let s ← get
  if !s.earlyTableAccess then return (.initLevelMismatch, none)
  return (.ok, some s.fadt)

/-! ## Initialisation -/

/-- `uacpi_kernel_get_rsdp(&rsdp)`, or `none` when it is not found. -/
def uacpiKernelGetRsdp : Proc Uacpi (Option Word) := fun s =>
  match s.rsdpResponse with
  | none | some 0 => do
    let k ← uacpiKernelLog .error (cstr "RSDP not found!") s.kernel
    return (none, { s with kernel := k })
  | some rsdp => .ok (some rsdp, s)

/-- `uacpi_truncate_phys_addr_with_warn(large_addr)`: a `uacpi_phys_addr` has 64 bits. -/
def uacpiTruncatePhysAddrWithWarn (largeAddr : Word) : Word := largeAddr

/-- The entry of the RSDT or XSDT at offset `i`: 4 or 8 bytes. -/
def rxsdtEntry (m : Memory) (rxsdt entrySize i : Word) : Word :=
  if entrySize = 8 then load64 m (rxsdt + 36 + i)
  else (Struct.number (loadStruct m (rxsdt + 36 + i) 4)).setWidth 64

section

variable (depth : Nat)

/-- The loop of `initialize_from_rxsdt`, with the status `ok` where it ends. -/
def rxsdtLoop (rxsdt entrySize entryBytes : Word) : (bound : Nat) → (i : Word) →
    Proc Uacpi UacpiStatus
  | 0, _ => .fault .diverged
  | bound + 1, i => do
    if entryBytes ≤ i then return .ok
    let s ← get
    let large := rxsdtEntry s.kernel.mem rxsdt entrySize i
    if large = 0 then return ← rxsdtLoop rxsdt entrySize entryBytes bound (i + entrySize)
    let entryAddr := uacpiTruncatePhysAddrWithWarn large
    let (ret, _) ← uacpiTableInstallPhysicalWithOrigin depth entryAddr .firmwarePhysical none
    if ret ≠ .ok ∧ ret ≠ .overridden then return ret
    rxsdtLoop rxsdt entrySize entryBytes bound (i + entrySize)

/-- `initialize_from_rxsdt(rxsdt_addr, entry_size)`. -/
def initializeFromRxsdt (rxsdtAddr entrySize : Word) : Proc Uacpi UacpiStatus := do
  let rxsdt ← mapTable rxsdtAddr 36
  if rxsdt = 0 then return .mappingFailed
  let hdr : AcpiSdtHdr ← loadAt rxsdt 36
  dumpTableHeader rxsdtAddr hdr
  let ret ← uacpiCheckTableSignature hdr (if entrySize = 8 then "XSDT" else "RSDT")
  if ret ≠ .ok then
    unmapTable rxsdt 36
    return ret
  let mapLen : Word := hdr.length.setWidth 64
  unmapTable rxsdt 36
  if mapLen < 36 + entrySize then return .invalidTableLength
  let entryBytes := (mapLen - 36) &&& ~~~(entrySize - 1)
  let rxsdt ← mapTable rxsdtAddr mapLen
  if rxsdt = 0 then return .mappingFailed
  let ret ← uacpiVerifyTableChecksum rxsdt mapLen.toNat
  let ret ← (if ret = .ok then rxsdtLoop depth rxsdt entrySize entryBytes (2 ^ 64) 0
    else pure ret)
  unmapTable rxsdt mapLen
  return ret

/-- `initialize_from_rsdp()`. -/
def initializeFromRsdp : Proc Uacpi UacpiStatus := do
  modify fun s => { s with isRev1 := true }
  let some rsdpPhys ← uacpiKernelGetRsdp | return .notFound
  let rsdp ← mapTable rsdpPhys 36
  if rsdp = 0 then return .mappingFailed
  let r : AcpiRsdp ← loadAt rsdp 36
  dumpTableHeader rsdpPhys r
  let s ← get
  let useXsdt := 1 < r.revision.toNat && r.xsdtAddr != 0 && !s.checkFlag flagBadXsdt
  let rxsdt := if useXsdt then uacpiTruncatePhysAddrWithWarn r.xsdtAddr
    else r.rsdtAddr.setWidth 64
  let rxsdtEntrySize : Word := if useXsdt then 8 else 4
  unmapTable rsdp 36
  if rxsdt = 0 then
    uacpiLogLvl .error nullRxsdtMessage []
    return .invalidArgument
  initializeFromRxsdt depth rxsdt rxsdtEntrySize

end

/-- The body of the loop of `uacpi_deinitialize_tables`. -/
def releaseTable (i : Nat) : Proc Uacpi Unit := do
  let tbl ← readTable i
  Proc.when (tbl.IsPhysical ∧ tbl.referenceCount ≠ 0)
    (unmapTable tbl.ptr (tbl.hdr.length.setWidth 64))

/-- `for (i = 0; i < table_array_size(&tables); ++i) { … }`. -/
def releaseTables : (count i : Nat) → Proc Uacpi Unit
  | 0, _ => pure ()
  | count + 1, i => do
    releaseTable i
    releaseTables count (i + 1)

/-- `uacpi_deinitialize_tables()`. -/
def uacpiDeinitializeTables : Proc Uacpi Unit := do
  let s ← get
  releaseTables s.size 0
  if s.earlyTableAccess then
    modify fun s =>
      { s with tables := .zeroed, earlyTableAccess := false, installationHandler := none }
  else
    tableArrayClear
    modify fun s => { s with installationHandler := none }

/-- `uacpi_setup_early_table_access(temporary_buffer, buffer_size)`. -/
def uacpiSetupEarlyTableAccess (depth : Nat) (temporaryBuffer bufferSize : Word) :
    Proc Uacpi UacpiStatus := do
  let s ← get
  if s.earlyTableAccess then return .initLevelMismatch
  if bufferSize < 64 then return .invalidArgument
  uacpiLoggerInitialize
  modify fun s =>
    { s with
      tables.dynamicStorage := temporaryBuffer
      tables.dynamicCapacity := bufferSize.toNat / 64
      earlyTableAccess := true }
  let ret ← initializeFromRsdp depth
  Proc.when (ret ≠ .ok) uacpiDeinitializeTables
  return ret

end KptrOS
