import KptrOS.Acpi.InitFailure
import KptrOS.Uacpi.Nesting

/-!
# Setting up early table access

`uacpi_setup_early_table_access` walks the RSDP and the RSDT or XSDT and installs what they
list. Whatever firmware has in memory, it returns, and the kernel has only gone through the
mapping interface.

- `rxsdtLoop_kept`, `initializeFromRxsdt_kept`, `initializeFromRsdp_kept`: the walk.
- `initializeFromRsdp_begin`, `initializeFromRxsdt_begin`, `rxsdtLoop_install`: a walk on which
  nothing is fatal, table by table.
- `Uacpi.Offline`: the state in front of the setup, and behind one that has failed.
- `uacpiSetupEarlyTableAccess_spec`: the setup as a whole.
- `acpiInitTables`, `acpiInitTables_returns`: `acpi_init` with this setup.
- `sampleFirmware`: tables in memory, and a FADT that names itself among them.
-/

namespace KptrOS

open CSem

/-! ## The walk -/

section

variable {n : Nat} {s : Uacpi}

/-- An installation without an `out_table` keeps the contract. -/
theorem installQuietly_kept (phys : Word) (origin : TableOrigin) :
    (tablesBelow n).Kept (uacpiTableInstallPhysicalWithOrigin n phys origin none) := fun s hs =>
  (tableInstallPhysicalWithOriginUnlocked_returns n phys origin none none s hs.1 hs.2).mono
    fun _ _ h => h.extends_of_none

/-- The loop over the entries of the RSDT or XSDT ends at its last entry. -/
theorem rxsdtLoop_kept {rxsdt entrySize entryBytes : Word}
    (hsize : 0 < entrySize.toNat ∧ entrySize.toNat ≤ 8) (hbytes : entryBytes.toNat < 2 ^ 32)
    {bound : Nat} {i : Word} (hi : i.toNat < entryBytes.toNat + 8)
    (hbound : entryBytes.toNat + 8 ≤ i.toNat + bound) :
    (tablesBelow n).Kept (rxsdtLoop n rxsdt entrySize entryBytes bound i) := by
  induction bound generalizing i with
  | zero =>
    exact absurd hbound (Nat.not_le.mpr hi)
  | succ bound ih =>
    rw [rxsdtLoop]
    refine .ite (fun _ => .pure _) fun hlt => ?_
    have hlt' : i.toNat < entryBytes.toNat := Nat.lt_of_not_le hlt
    have hnext : (i + entrySize).toNat = i.toNat + entrySize.toNat := by
      rw [BitVec.toNat_add]
      omega
    have htail : (tablesBelow n).Kept (rxsdtLoop n rxsdt entrySize entryBytes bound
        (i + entrySize)) := ih (by omega) (by omega)
    refine .bind .get fun s => ?_
    dsimp only
    refine .ite (fun _ => htail) fun _ => ?_
    refine .bind (installQuietly_kept _ _) fun r => ?_
    exact .ite (fun _ => .pure _) fun _ => htail

/-- The entries of a table have less than 4 GiB. -/
theorem entryBytes_lt {length : BitVec 32} {entrySize : Word} (hsize : entrySize.toNat ≤ 8)
    (hlong : ¬ length.setWidth 64 < 36 + entrySize) :
    ((length.setWidth 64 - 36) &&& ~~~(entrySize - 1)).toNat < 2 ^ 32 := by
  have hlength : (length.setWidth 64).toNat < 2 ^ 32 := by
    rw [BitVec.toNat_setWidth]
    exact (Nat.mod_le _ _).trans_lt length.isLt
  have hle : 36 ≤ (length.setWidth 64).toNat := by
    have hle : (36 + entrySize).toNat ≤ (length.setWidth 64).toNat := Nat.le_of_not_lt hlong
    have hsum : (36 + entrySize).toNat = 36 + entrySize.toNat := by
      rw [BitVec.toNat_add]
      exact Nat.mod_eq_of_lt (by show 36 + _ < _; omega)
    omega
  rw [BitVec.toNat_and]
  refine Nat.and_le_left.trans_lt ?_
  have hsub : (length.setWidth 64 - 36).toNat = (length.setWidth 64).toNat - 36 :=
    BitVec.toNat_sub_of_le hle
  omega

theorem initializeFromRxsdt_kept (rxsdtAddr : Word) {entrySize : Word}
    (hsize : 0 < entrySize.toNat ∧ entrySize.toNat ≤ 8) :
    (tablesBelow n).Kept (initializeFromRxsdt n rxsdtAddr entrySize) := by
  rw [initializeFromRxsdt]
  refine .bind (mapTable_kept _ _) fun rxsdt => .ite (fun _ => .pure _) fun _ => ?_
  refine .bind (loadAt_kept rxsdt 36) fun hdr => ?_
  refine .bind (Prints.kept fun s => dumpTableHeader_prints s rxsdtAddr hdr) fun _ => ?_
  refine .bind (Prints.kept fun s => uacpiCheckTableSignature_prints s hdr _) fun ret => ?_
  refine .ite (fun _ => .bind (unmapTable_kept _ _) fun _ => .pure _) fun _ => ?_
  refine .bind (unmapTable_kept _ _) fun _ => .ite (fun _ => .pure _) fun hlong => ?_
  have hbytes := entryBytes_lt hsize.2 hlong
  refine .bind (mapTable_kept _ _) fun rxsdt => .ite (fun _ => .pure _) fun _ => ?_
  refine .bind (uacpiVerifyTableChecksum_kept _ _) fun ret => ?_
  refine .bind (.ite (fun _ => rxsdtLoop_kept hsize hbytes ?_ ?_) fun _ => .pure _) fun ret =>
    .bind (unmapTable_kept _ _) fun _ => .pure _
  · exact Nat.lt_of_lt_of_le (by decide) (Nat.le_add_left 8 _)
  · exact (Nat.add_le_add_right hbytes.le 8).trans (by decide)

/-- A message of the kernel. -/
theorem uacpiKernelLog_runs (lvl : UacpiLogLevel) (message : String) (s : Uacpi) :
    ∃ serial', uacpiKernelLog lvl (cstr message) s.kernel = .ok (s.setSerial serial').kernel ∧
      s.kernel.Runs (s.setSerial serial').kernel := by
  have hlog := uacpiKernelLog_text lvl (zero_mem_cstr message) s.kernel
  refine ⟨_, hlog, .of_call (c := .log lvl (cstr message) (zero_mem_cstr _)) (o := none) ?_ trivial
    trivial⟩
  rw [AcpiCall.step, hlog]
  rfl

theorem uacpiKernelGetRsdp_kept : (tablesBelow n).Kept uacpiKernelGetRsdp := by
  have hmissing : ∀ s, (tablesBelow n).inv s → Returns (fun s => do
      let k ← uacpiKernelLog .error (cstr "RSDP not found!") s.kernel
      return (none, { s with kernel := k }) : Proc Uacpi (Option Word)) s fun _ t =>
        (tablesBelow n).step s t := by
    intro s hs
    obtain ⟨serial', hlog, hruns⟩ := uacpiKernelLog_runs .error "RSDP not found!" s
    exact .of_eq (a := none) (t := s.setSerial serial') (by rw [hlog]; rfl) (hs.1.setSerial hruns)
  intro s hs
  rw [Returns, uacpiKernelGetRsdp]
  split
  · exact hmissing s hs
  · exact hmissing s hs
  · exact ⟨_, s, rfl, .refl s, hs.1⟩

theorem initializeFromRsdp_kept : (tablesBelow n).Kept (initializeFromRsdp n) := by
  rw [initializeFromRsdp]
  refine .bind (modify_kept fun s => ⟨rfl, rfl, rfl, rfl, rfl, rfl, rfl, rfl, rfl, rfl⟩) fun _ => ?_
  refine .bind uacpiKernelGetRsdp_kept fun rsdp => ?_
  cases rsdp with
  | none => exact .pure _
  | some rsdpPhys =>
    dsimp only
    refine .bind (mapTable_kept _ _) fun rsdp => .ite (fun _ => .pure _) fun _ => ?_
    refine .bind (loadAt_kept rsdp 36) fun r => ?_
    refine .bind (Prints.kept fun s => dumpTableHeader_prints s rsdpPhys r) fun _ => ?_
    refine .bind .get fun s => .bind (unmapTable_kept _ _) fun _ => ?_
    refine .ite (fun _ => .bind (uacpiLogLvl_kept _ _ nullRxsdtMessage_suits) fun _ => .pure _)
      fun _ => initializeFromRxsdt_kept _ ?_
    split <;> decide

end

/-! ## A walk on which nothing is fatal -/

section

variable {n : Nat} {s : Uacpi}

/-- Sequencing rule of the loop: the entry is installed. -/
theorem rxsdtLoop_install {rxsdt entrySize entryBytes i : Word} {bound : Nat}
    {Q : Uacpi → Prop} {R : UacpiStatus → Uacpi → Prop} (hlt : ¬ entryBytes ≤ i)
    (hentry : rxsdtEntry s.kernel.mem rxsdt entrySize i ≠ 0)
    (hinstall : Returns (tableInstallPhysicalWithOriginUnlocked n
      (rxsdtEntry s.kernel.mem rxsdt entrySize i) .firmwarePhysical none none) s
        fun r t => r.1 = .ok ∧ Q t)
    (hrest : ∀ t, Q t →
      Returns (rxsdtLoop n rxsdt entrySize entryBytes bound (i + entrySize)) t R) :
    Returns (rxsdtLoop n rxsdt entrySize entryBytes (bound + 1) i) s R := by
  obtain ⟨r, t, hrun, hret, ht⟩ := hinstall
  have hok : ¬ (r.1 ≠ .ok ∧ r.1 ≠ .overridden) := fun h => h.1 hret
  have hrun' : uacpiTableInstallPhysicalWithOrigin n
      (uacpiTruncatePhysAddrWithWarn (rxsdtEntry s.kernel.mem rxsdt entrySize i))
      .firmwarePhysical none s = .ok (r, t) := hrun
  rw [Returns, rxsdtLoop, if_neg hlt, Proc.bind_apply, Proc.get_apply, ok_bind]
  dsimp only
  rw [if_neg hentry, Proc.bind_apply, hrun', ok_bind]
  dsimp only
  rw [if_neg hok]
  exact hrest t ht

theorem rxsdtLoop_end {rxsdt entrySize entryBytes i : Word} (hle : entryBytes ≤ i) (bound : Nat) :
    rxsdtLoop n rxsdt entrySize entryBytes (bound + 1) i s = .ok (.ok, s) := by
  rw [rxsdtLoop, if_pos hle]
  rfl

/-- With a page for it, a mapping is made and shows what firmware has at the address. -/
theorem mapTable_shows (hs : s.Sound) (hl : s.Lenient) (hroom : 0 < s.room) (addr len : Word)
    {k : Nat} (hk : k ≤ pageSize) (hout : ∀ i, i < k → s.Outside (offset addr i)) :
    Returns (mapTable addr len) s fun p t => (s.Extends t ∧ t.Sound) ∧ t.tables = s.tables ∧
      t.room = s.room - 1 ∧ p ≠ 0 ∧ t.MapsTo p addr ∧
      loadStruct t.kernel.mem p k = loadStruct s.kernel.mem addr k := by
  refine (mapTable_spec hs addr len).mono fun p t h => ?_
  obtain ⟨⟨hextends, ht⟩, htables, hroom', hmapped, hnonzero⟩ := h
  have hp := hnonzero hroom hl.nonzero
  have hmaps := (hmapped hp).2
  refine ⟨⟨hextends, ht⟩, htables, hroom', hp, hmaps, ?_⟩
  rw [hmaps.loadStruct hk fun i hi => (hextends.outside_iff hs _).mpr (hout i hi),
    hextends.toEvolves.loadStruct hs hout]

/-- `initialize_from_rxsdt` up to its loop: the whole table has been mapped. -/
theorem initializeFromRxsdt_begin (hs : s.Sound) (hl : s.Lenient) (hroom : 1 < s.room)
    (addr entrySize length : Word) (hout : ∀ i, i < 36 → s.Outside (offset addr i))
    (hlength : (AcpiSdtHdr.length (loadStruct s.kernel.mem addr 36)).setWidth 64 = length)
    (hlong : ¬ length < 36 + entrySize) :
    ∃ rxsdt t, (s.Extends t ∧ t.Sound) ∧ t.tables = s.tables ∧ t.room = s.room - 2 ∧
      t.MapsTo rxsdt addr ∧
      initializeFromRxsdt n addr entrySize s = (do
        let ret ← rxsdtLoop n rxsdt entrySize ((length - 36) &&& ~~~(entrySize - 1)) (2 ^ 64) 0
        unmapTable rxsdt length
        return ret : Proc Uacpi UacpiStatus) t := by
  -- the header
  obtain ⟨p, t, hmap, ⟨hextends, ht⟩, htables, hroom', hp, -, hload⟩ :=
    mapTable_shows hs hl (by omega) addr 36 (by decide) hout
  generalize loadStruct s.kernel.mem addr 36 = hdr at hload hlength
  obtain ⟨serial', hdump, hextends', hu⟩ := (dumpTableHeader_prints t addr hdr).spec ht
  have hsu := hextends.trans hs hextends'
  obtain ⟨serial'', hcheck, hextends'', hv⟩ := (uacpiCheckTableSignature_prints
    (t.setSerial serial') hdr (if entrySize = 8 then "XSDT" else "RSDT")).spec hu
  rw [(hl.evolve hs hsu.toEvolves).signatureStatus] at hcheck
  have hsv := hsu.trans hs hextends''
  obtain ⟨hidle, hw⟩ := hv.setFrame (((t.setSerial serial').setSerial serial'').frame + 1)
  have hsw := hsv.trans hs hidle
  rw [initializeFromRxsdt, Proc.bind_apply, hmap, ok_bind]
  dsimp only
  rw [if_neg hp, Proc.bind_apply, loadAt_eq, ok_bind, hload]
  dsimp only
  rw [Proc.bind_apply, hdump, ok_bind]
  dsimp only
  rw [Proc.bind_apply, hcheck, ok_bind]
  dsimp only
  rw [if_neg (not_not_intro rfl), Proc.bind_apply, unmapTable_eq hv, ok_bind]
  dsimp only
  -- the whole table
  have hwtables : (((t.setSerial serial').setSerial serial'').setFrame
    (((t.setSerial serial').setSerial serial'').frame + 1)).tables = s.tables := htables
  have hwroom : (((t.setSerial serial').setSerial serial'').setFrame
    (((t.setSerial serial').setSerial serial'').frame + 1)).room = s.room - 1 := hroom'
  generalize ((t.setSerial serial').setSerial serial'').setFrame _ = w at hsw hw hwtables hwroom ⊢
  obtain ⟨rxsdt, x, hmap, ⟨hextends, hx⟩, htables, hroom', hrxsdt, hmaps, -⟩ :=
    mapTable_shows hw (hl.evolve hs hsw.toEvolves) (by omega) addr length (Nat.zero_le _)
      fun i hi => absurd hi (Nat.not_lt_zero i)
  have hsx := hsw.trans hs hextends
  obtain ⟨serial, hchecksum, hextends', hy⟩ :=
    (uacpiVerifyTableChecksum_prints x rxsdt length.toNat).spec hx
  rw [(hl.evolve hs hsx.toEvolves).checksumStatus] at hchecksum
  refine ⟨rxsdt, x.setSerial serial, ⟨hsx.trans hs hextends', hy⟩, htables.trans hwtables, ?_,
    hmaps.evolve hx hextends'.toEvolves, ?_⟩
  · show x.room = s.room - 2
    rw [hroom', hwroom, Nat.sub_sub]
  rw [hlength, if_neg hlong, Proc.bind_apply, hmap, ok_bind]
  dsimp only
  rw [if_neg hrxsdt, Proc.bind_apply, hchecksum, ok_bind]
  dsimp only
  rw [if_pos rfl]

theorem uacpiKernelGetRsdp_of_some {rsdp : Word} (h : s.rsdpResponse = some rsdp)
    (hrsdp : rsdp ≠ 0) : uacpiKernelGetRsdp s = .ok (some rsdp, s) := by
  rw [uacpiKernelGetRsdp, h]
  split
  next hnone => exact absurd hnone nofun
  next hzero => exact absurd (Option.some.inj hzero) hrsdp
  next hsome => rw [Option.some.inj hsome]

/-- `initialize_from_rsdp` up to the XSDT. -/
theorem initializeFromRsdp_begin (hs : s.Sound) (hl : s.Lenient) (hroom : 0 < s.room)
    (addr xsdt : Word) (hrsdp : s.rsdpResponse = some addr) (haddr : addr ≠ 0)
    (hout : ∀ i, i < 36 → s.Outside (offset addr i))
    (hrevision : 1 < (AcpiRsdp.revision (loadStruct s.kernel.mem addr 36)).toNat)
    (hxsdt : AcpiRsdp.xsdtAddr (loadStruct s.kernel.mem addr 36) = xsdt) (hnonzero : xsdt ≠ 0)
    (hflag : s.checkFlag flagBadXsdt = false) :
    ∃ t, (s.Extends t ∧ t.Sound) ∧ t.tables = s.tables ∧ t.room = s.room - 1 ∧
      initializeFromRsdp n s = initializeFromRxsdt n xsdt 8 t := by
  let v := s.setIsRev1 true
  obtain ⟨hidle, hv⟩ := hs.idle (t := v) (.refl _) rfl rfl
    ⟨rfl, rfl, rfl, rfl, rfl, rfl, rfl, rfl⟩
  have hget : uacpiKernelGetRsdp v = .ok (some addr, v) := uacpiKernelGetRsdp_of_some hrsdp haddr
  obtain ⟨p, t, hmap, ⟨hextends, ht⟩, htables, hroom', hp, -, hload⟩ :=
    mapTable_shows hv (hl.evolve hs hidle.toEvolves) hroom addr 36 (by decide) hout
  have hst := hidle.trans hs hextends
  change _ = loadStruct s.kernel.mem addr 36 at hload
  generalize loadStruct s.kernel.mem addr 36 = r at hload hrevision hxsdt
  obtain ⟨serial', hdump, hextends', hu⟩ := (dumpTableHeader_prints t addr r).spec ht
  have hsu := hst.trans hs hextends'
  have huse : (1 < (AcpiRsdp.revision r).toNat && AcpiRsdp.xsdtAddr r != 0 &&
      !(t.setSerial serial').checkFlag flagBadXsdt) = true := by
    rw [hsu.toSameSettings.checkFlag, hflag, hxsdt, Bool.not_false, Bool.and_true,
      Bool.and_eq_true]
    exact ⟨decide_eq_true hrevision, bne_iff_ne.mpr hnonzero⟩
  obtain ⟨hidle', hw⟩ := hu.setFrame ((t.setSerial serial').frame + 1)
  refine ⟨_, ⟨hsu.trans hs hidle', hw⟩, htables, hroom', ?_⟩
  rw [initializeFromRsdp, Proc.bind_apply, Proc.modify_apply, ok_bind]
  show (uacpiKernelGetRsdp >>= _) v = _
  rw [Proc.bind_apply, hget, ok_bind]
  dsimp only
  rw [Proc.bind_apply, hmap, ok_bind]
  dsimp only
  rw [if_neg hp, Proc.bind_apply, loadAt_eq, ok_bind, hload]
  dsimp only
  rw [Proc.bind_apply, hdump, ok_bind]
  dsimp only
  rw [Proc.bind_apply, Proc.get_apply, ok_bind]
  dsimp only
  rw [huse, Proc.bind_apply, unmapTable_eq hu, ok_bind]
  dsimp only
  rw [if_pos rfl, if_pos rfl, uacpiTruncatePhysAddrWithWarn, hxsdt, if_neg hnonzero]

end

/-! ## Offline and online -/

/-- No table is installed, and there is no buffer: the state in which the kernel starts, and in
which a failed setup leaves the table code. -/
structure Uacpi.Offline (s : Uacpi) : Prop extends s.Sound where
  early : s.earlyTableAccess = false
  empty : s.size = 0
  unbuffered : s.tables.dynamicCapacity = 0

/-- Table access is set up with a buffer, and nothing has been referenced yet. -/
structure Uacpi.Online (s : Uacpi) (buffer : Word) (bufferSize : Nat) : Prop extends s.Sound where
  early : s.earlyTableAccess = true
  storage_eq : s.tables.dynamicStorage = buffer
  capacity_eq : s.tables.dynamicCapacity = bufferSize / 64
  unreferenced : ∀ idx, idx < s.size → (s.entry idx).flags &&& tableInvalid = 0 ∧
    (s.entry idx).referenceCount = 0

/-- Without a buffer and without tables there is little to be kept. -/
theorem Uacpi.Offline.of_empty {s : Uacpi} {P : Pool Word} (href : s.kernel.pmm.Refines P)
    (hP : OfPages P) (hlocals : ∀ i, ¬ s.kernel.pmm.Tracked (s.frames i))
    (hearly : s.earlyTableAccess = false) (hempty : s.size = 0)
    (hcap : s.tables.dynamicCapacity = 0) : s.Offline := by
  refine ⟨⟨⟨P, href, hP⟩, hlocals, ?_, ?_, fun a ha => ?_, fun idx hidx => ?_⟩, hearly, hempty, hcap⟩
  · rw [hempty]
    exact Nat.zero_le _
  · rw [hcap]
    exact Nat.zero_le _
  · obtain ⟨idx, hle, hlt, -⟩ := ha
    rw [Uacpi.capacity, hcap] at hlt
    exact absurd hlt (Nat.not_lt.mpr hle)
  · rw [hempty] at hidx
    exact absurd hidx (Nat.not_lt_zero idx)

/-! ## Clean-up -/

section

variable {s : Uacpi}

theorem releaseTable_eq (hs : s.Sound) {i : Nat} (hi : i < s.size) :
    ∃ frame, releaseTable i s = .ok ((), s.setFrame frame) := by
  rw [releaseTable, Proc.bind_apply, readTable_eq hi, ok_bind]
  dsimp only
  rw [Proc.when]
  split
  · exact ⟨_, unmapTable_eq hs _ _⟩
  · exact ⟨s.frame, rfl⟩

theorem releaseTables_eq (hs : s.Sound) {count i : Nat} (hi : i + count ≤ s.size) :
    ∃ frame, releaseTables count i s = .ok ((), s.setFrame frame) := by
  induction count generalizing s i with
  | zero => exact ⟨s.frame, rfl⟩
  | succ count ih =>
    obtain ⟨frame, hone⟩ := releaseTable_eq hs (i := i) (by omega)
    obtain ⟨frame', hrest⟩ := ih (hs.setFrame frame).2 (i := i + 1) (by
      show i + 1 + count ≤ s.size
      omega)
    refine ⟨frame', ?_⟩
    rw [releaseTables, Proc.bind_apply, hone, ok_bind]
    exact hrest

/-- `uacpi_deinitialize_tables` takes the table code offline, and leaves the kernel alone. -/
theorem uacpiDeinitializeTables_spec (hs : s.Sound) :
    Returns uacpiDeinitializeTables s fun _ t =>
      t.Offline ∧ t.kernel = s.kernel ∧ t.frames = s.frames := by
  obtain ⟨frame, hrelease⟩ := releaseTables_eq hs (Nat.zero_add s.size).le
  obtain ⟨P, href, hP⟩ := hs.pool
  rw [Returns, uacpiDeinitializeTables, Proc.bind_apply, Proc.get_apply, ok_bind]
  dsimp only
  rw [Proc.bind_apply, hrelease, ok_bind]
  dsimp only
  by_cases hearly : s.earlyTableAccess = true
  · rw [if_pos hearly]
    exact ⟨_, _, rfl, .of_empty href hP hs.locals rfl rfl rfl, rfl, rfl⟩
  · rw [if_neg hearly]
    exact ⟨_, _, rfl, .of_empty href hP hs.locals (Bool.eq_false_iff.mpr hearly) rfl rfl, rfl, rfl⟩

/-! ## The setup -/

/-- The state with the variables of the logger changed. -/
def Uacpi.setLogger (s : Uacpi) (logLevel : Byte) (versionPrinted : Bool) : Uacpi :=
  { s with logLevel := logLevel, versionPrinted := versionPrinted }

/-- The logger prints its version at most once, and chooses a level. -/
theorem uacpiLoggerInitialize_eq (s : Uacpi) :
    ∃ serial' logLevel versionPrinted, uacpiLoggerInitialize s =
        .ok ((), (s.setSerial serial').setLogger logLevel versionPrinted) ∧
      s.kernel.Runs (s.setSerial serial').kernel := by
  have hlevel : ∃ logLevel, (Proc.when (s.logLevel = 0)
      (uacpiContextSetLogLevel (UacpiLogLevel.info.code.setWidth 8))) s =
        .ok ((), s.setLogger logLevel s.versionPrinted) := by
    rw [Proc.when]
    split
    · exact ⟨_, rfl⟩
    · exact ⟨s.logLevel, rfl⟩
  obtain ⟨logLevel, hlevel⟩ := hlevel
  rw [uacpiLoggerInitialize, Proc.bind_apply, Proc.get_apply, ok_bind]
  dsimp only
  rw [Proc.bind_apply, hlevel, ok_bind, Proc.when]
  by_cases hprinted : s.versionPrinted = false
  · obtain ⟨serial', hlog, hruns⟩ := uacpiLogLvl_prints
      (s := s.setLogger logLevel true) .info versionMessage
      (versionMessage_suits 3 0 0)
    refine ⟨serial', logLevel, true, ?_, hruns⟩
    rw [if_pos hprinted]
    exact hlog
  · exact ⟨s.kernel.serial, logLevel, s.versionPrinted, by rw [if_neg hprinted]; rfl, .refl _⟩

/-- The state with a buffer for the array. -/
def Uacpi.withBuffer (s : Uacpi) (buffer bufferSize : Word) : Uacpi :=
  { s with
    tables.dynamicStorage := buffer
    tables.dynamicCapacity := bufferSize.toNat / 64
    earlyTableAccess := true }

/-- The array lies within its buffer. -/
theorem storage_withBuffer {buffer bufferSize a : Word}
    (h : (s.withBuffer buffer bufferSize).Storage a) : InRange buffer bufferSize.toNat a := by
  obtain ⟨idx, hle, hlt, hin⟩ := h
  have hlt' : idx < 16 + bufferSize.toNat / 64 := hlt
  have hin' : (a - offset buffer (64 * (idx - 16))).toNat < 64 := hin
  have hsize := bufferSize.isLt
  rw [← offset_sub (offset buffer (64 * (idx - 16))) a, offset_offset]
  exact (inRange_offset (by omega)).mpr (by omega)

theorem Uacpi.Offline.withBuffer (hs : s.Offline) {buffer bufferSize : Word}
    (hbuffer : ∀ a, InRange buffer bufferSize.toNat a →
      ∃ page, s.kernel.pmm.Live page ∧ InRange page pageSize a) :
    (s.withBuffer buffer bufferSize).Sound := by
  have hempty : (s.withBuffer buffer bufferSize).size = 0 := hs.empty
  refine ⟨hs.pool, hs.locals, ?_, ?_, fun a ha => hbuffer a (storage_withBuffer ha),
    fun idx hidx => ?_⟩
  · rw [hempty]
    exact Nat.zero_le _
  · show 64 * (bufferSize.toNat / 64) ≤ 2 ^ 64
    have hsize := bufferSize.isLt
    omega
  · rw [hempty] at hidx
    exact absurd hidx (Nat.not_lt_zero idx)

/-- The setup up to the walk. -/
theorem uacpiSetupEarlyTableAccess_begin (hs : s.Offline) {buffer bufferSize : Word}
    (hlarge : ¬ bufferSize < 64) (hbuffer : ∀ a, InRange buffer bufferSize.toNat a →
      ∃ page, s.kernel.pmm.Live page ∧ InRange page pageSize a) (depth : Nat) :
    ∃ serial' logLevel versionPrinted, s.kernel.Runs (s.setSerial serial').kernel ∧
      (((s.setSerial serial').setLogger logLevel versionPrinted).withBuffer buffer
        bufferSize).Sound ∧
      uacpiSetupEarlyTableAccess depth buffer bufferSize s = (do
        let ret ← initializeFromRsdp depth
        Proc.when (ret ≠ .ok) uacpiDeinitializeTables
        return ret : Proc Uacpi UacpiStatus)
          (((s.setSerial serial').setLogger logLevel versionPrinted).withBuffer buffer
            bufferSize) := by
  obtain ⟨P, href, hP⟩ := hs.pool
  obtain ⟨serial', logLevel, versionPrinted, hlogger, hruns⟩ := uacpiLoggerInitialize_eq s
  refine ⟨serial', logLevel, versionPrinted, hruns, Uacpi.Offline.withBuffer
    (s := (s.setSerial serial').setLogger logLevel versionPrinted)
    (.of_empty href hP hs.locals hs.early hs.empty hs.unbuffered) hbuffer, ?_⟩
  rw [uacpiSetupEarlyTableAccess, Proc.bind_apply, Proc.get_apply, ok_bind]
  dsimp only
  rw [if_neg (by rw [hs.early]; exact Bool.false_ne_true), if_neg hlarge, Proc.bind_apply, hlogger,
    ok_bind]
  dsimp only
  rw [Proc.bind_apply, Proc.modify_apply, ok_bind]
  rfl

/-- **The setup returns, whatever firmware has in memory.** If it succeeds, table access is
online; if not, everything is offline as before. The kernel has gone through the mapping
interface, and memory has changed in pages that were free, and in the buffer. -/
theorem uacpiSetupEarlyTableAccess_spec (hs : s.Offline) {depth : Nat} (hroom : s.room < depth)
    (buffer bufferSize : Word) (hbuffer : ∀ a, InRange buffer bufferSize.toNat a →
      ∃ page, s.kernel.pmm.Live page ∧ InRange page pageSize a) :
    Returns (uacpiSetupEarlyTableAccess depth buffer bufferSize) s fun ret t =>
      s.kernel.Runs t.kernel ∧ t.frames = s.frames ∧
        (∀ a, s.Spared a → ¬ InRange buffer bufferSize.toNat a →
          t.kernel.mem a = s.kernel.mem a) ∧
        if ret = .ok then t.Online buffer bufferSize.toNat else t.Offline := by
  obtain ⟨P, href, -⟩ := hs.pool
  by_cases hsmall : bufferSize < 64
  · refine .of_eq (a := .invalidArgument) (t := s) ?_ ⟨.refl _, rfl, fun _ _ _ => rfl, hs⟩
    rw [uacpiSetupEarlyTableAccess, Proc.bind_apply, Proc.get_apply, ok_bind]
    dsimp only
    rw [if_neg (by rw [hs.early]; exact Bool.false_ne_true), if_pos hsmall]
    rfl
  obtain ⟨serial', logLevel, versionPrinted, hruns, hu, hsetup⟩ :=
    uacpiSetupEarlyTableAccess_begin hs hsmall hbuffer depth
  rw [Returns, hsetup]
  -- the state in which the walk starts
  let u := ((s.setSerial serial').setLogger logLevel versionPrinted).withBuffer buffer bufferSize
  have hsize : u.size = 0 := hs.empty
  obtain ⟨ret, t, hwalk, hextends, ht⟩ := initializeFromRsdp_kept u ⟨hu, hroom⟩
  have hframe : ∀ a, s.Spared a → ¬ InRange buffer bufferSize.toNat a →
      t.kernel.mem a = s.kernel.mem a := fun a ha hout =>
    hextends.frame a ⟨ha.1, fun hstorage => hout (storage_withBuffer hstorage)⟩
  have hruns' : s.kernel.Runs t.kernel := hruns.trans hextends.runs href
  rw [Proc.bind_apply, hwalk, ok_bind]
  by_cases hret : ret = .ok
  · refine ⟨ret, t, ?_, hruns', hextends.frames, hframe, ?_⟩
    · dsimp only
      rw [Proc.bind_apply, Proc.when, if_neg (not_not_intro hret)]
      rfl
    · rw [if_pos hret]
      refine ⟨ht, hextends.earlyTableAccess, hextends.dynamicStorage, hextends.dynamicCapacity,
        fun idx hidx => ?_⟩
      have hfresh := hextends.fresh idx (by rw [hsize]; exact Nat.zero_le _) hidx
      exact ⟨hfresh.1, hfresh.2⟩
  · obtain ⟨_, v, hdeinit, hv, hkernel, hframes⟩ := uacpiDeinitializeTables_spec ht
    refine ⟨ret, v, ?_, ?_, hframes.trans hextends.frames, ?_, ?_⟩
    · dsimp only
      rw [Proc.bind_apply, Proc.when, if_pos hret, hdeinit]
      rfl
    · rw [hkernel]
      exact hruns'
    · rw [hkernel]
      exact hframe
    · rw [if_neg hret]
      exact hv

end

/-! ## `acpi_init` -/

/-- The state with another kernel. -/
def Uacpi.setKernel (s : Uacpi) (k : Kernel) : Uacpi := { s with kernel := k }

/-- A function of the kernel that `acpi.c` calls. -/
def onKernel {α : Type} (f : Kernel → Exec (α × Kernel)) : Proc Uacpi α := fun s => do
  let (a, k) ← f s.kernel
  return (a, s.setKernel k)

theorem onKernel_eq {α : Type} {f : Kernel → Exec (α × Kernel)} {s : Uacpi} {a : α} {k : Kernel}
    (h : f s.kernel = .ok (a, k)) : onKernel f s = .ok (a, s.setKernel k) := by
  rw [onKernel, h]
  rfl

/-- `uacpi_kernel_log(lvl, message)`, and `free_page(addr)`. -/
def logOnKernel (lvl : UacpiLogLevel) (message : String) : Proc Uacpi Unit :=
  onKernel fun k => do return ((), ← uacpiKernelLog lvl (cstr message) k)

def freeOnKernel (addr : Word) : Proc Uacpi Unit := onKernel fun k => do return ((), ← freePage addr k)

/-- `acpi_init()` with its local `tmp` at `slot`, together with the static variables of uACPI. -/
def acpiInitTables (depth : Nat) (slot : Word) : Proc Uacpi Int := do
  let tmp ← onKernel (allocPage 0)
  if tmp = 0 then
    logOnKernel .error "[ ERR ] Failed to allocate memory for uACPI"
    return -1
  modify fun s => s.setKernel (handover s.kernel tmp)
  let ret ← uacpiSetupEarlyTableAccess depth tmp 4096
  if ret ≠ .ok then
    logOnKernel .error (uacpiStatusToString ret)
    freeOnKernel slot
    return -1
  freeOnKernel slot
  logOnKernel .info "uACPI Started\n"
  return 0

/-- The setup as the kernel sees it. -/
def setupOnKernel (depth : Nat) (s : Uacpi) (buffer bufferSize : Word) (k : Kernel) :
    Exec (UacpiStatus × Kernel) := do
  let (ret, t) ← uacpiSetupEarlyTableAccess depth buffer bufferSize (s.setKernel k)
  return (ret, t.kernel)

section

variable {s : Uacpi} {slot : Word}

theorem Uacpi.Offline.setSerial (hs : s.Offline) (serial : Com1) : (s.setSerial serial).Offline := by
  obtain ⟨P, href, hP⟩ := hs.pool
  exact .of_empty href hP hs.locals hs.early hs.empty hs.unbuffered

/-- Printing does not change what is online. -/
theorem Uacpi.Online.setSerial {buffer : Word} {bufferSize : Nat} (hs : s.Online buffer bufferSize)
    {serial : Com1} (hruns : s.kernel.Runs (s.setSerial serial).kernel) :
    (s.setSerial serial).Online buffer bufferSize :=
  ⟨(hs.toSound.setSerial hruns).2, hs.early, hs.storage_eq, hs.capacity_eq, hs.unreferenced⟩

theorem logOnKernel_eq (lvl : UacpiLogLevel) (message : String) (s : Uacpi) :
    ∃ serial', logOnKernel lvl message s = .ok ((), s.setSerial serial') ∧
      uacpiKernelLog lvl (cstr message) s.kernel = .ok (s.setSerial serial').kernel ∧
      s.kernel.Runs (s.setSerial serial').kernel := by
  obtain ⟨serial', hlog, hruns⟩ := uacpiKernelLog_runs lvl message s
  exact ⟨serial', onKernel_eq (by rw [hlog]; rfl), hlog, hruns⟩

theorem freeOnKernel_eq {P : Pool Word} (href : s.kernel.pmm.Refines P)
    (hslot : ¬ s.kernel.pmm.Tracked slot) : freeOnKernel slot s = .ok ((), s) := by
  have hfree := freePage_of_not_mem href fun hmem => hslot (href.tracked_iff.mpr hmem)
  exact onKernel_eq (k := s.kernel) (by rw [hfree]; rfl)

/-- `acpi_init` has no page for the buffer. -/
theorem acpiInitTables_of_zero (s : Uacpi) (slot : Word) (depth : Nat) {k : Kernel}
    (halloc : allocPage 0 s.kernel = .ok (0, k)) :
    ∃ serial', acpiInitTables depth slot s = .ok (-1, (s.setKernel k).setSerial serial') ∧
      acpiInit (setupOnKernel depth s) slot s.kernel =
        .ok (-1, ((s.setKernel k).setSerial serial').kernel) := by
  obtain ⟨serial', hlog, hkernel, -⟩ := logOnKernel_eq .error
    "[ ERR ] Failed to allocate memory for uACPI" (s.setKernel k)
  have hkernel' : uacpiKernelLog .error (cstr "[ ERR ] Failed to allocate memory for uACPI") k =
      .ok ((s.setKernel k).setSerial serial').kernel := hkernel
  refine ⟨serial', ?_, ?_⟩
  · rw [acpiInitTables, Proc.bind_apply, onKernel_eq halloc, ok_bind]
    dsimp only
    rw [if_pos rfl, Proc.bind_apply, hlog, ok_bind]
    exact Proc.pure_apply _ _
  · rw [acpiInit_of_alloc_zero halloc]
    rw [uacpiKernelLog_error] at hkernel'
    rw [Except.ok.inj hkernel']

/-- `acpi_init` up to the setup. -/
theorem acpiInitTables_of_page {depth : Nat} {k : Kernel} {page : Word}
    (halloc : allocPage 0 s.kernel = .ok (page, k)) (hpage : page ≠ 0) :
    acpiInitTables depth slot s = (do
      let ret ← uacpiSetupEarlyTableAccess depth page 4096
      if ret ≠ .ok then
        logOnKernel .error (uacpiStatusToString ret)
        freeOnKernel slot
        return -1
      freeOnKernel slot
      logOnKernel .info "uACPI Started\n"
      return 0 : Proc Uacpi Int) (s.setKernel (handover k page)) := by
  rw [acpiInitTables, Proc.bind_apply, onKernel_eq halloc, ok_bind]
  dsimp only
  rw [if_neg hpage, Proc.bind_apply, Proc.modify_apply, ok_bind]
  rfl

/-- `acpi_init` behind the setup. -/
theorem acpiInitTables_of_setup {depth : Nat} {k : Kernel} {page : Word} {ret : UacpiStatus}
    {t : Uacpi} {P : Pool Word} (halloc : allocPage 0 s.kernel = .ok (page, k)) (hpage : page ≠ 0)
    (hsetup : uacpiSetupEarlyTableAccess depth page 4096 (s.setKernel (handover k page)) =
      .ok (ret, t)) (href : t.kernel.pmm.Refines P) (hslot : ¬ t.kernel.pmm.Tracked slot) :
    ∃ serial', acpiInitTables depth slot s =
        .ok (if ret = .ok then 0 else -1, t.setSerial serial') ∧
      acpiInit (setupOnKernel depth s) slot s.kernel =
        .ok (if ret = .ok then 0 else -1, (t.setSerial serial').kernel) ∧
      t.kernel.Runs (t.setSerial serial').kernel := by
  have hkernel : setupOnKernel depth s page 4096 (handover k page) = .ok (ret, t.kernel) := by
    rw [setupOnKernel, hsetup]
    rfl
  rw [acpiInitTables_of_page halloc hpage, Proc.bind_apply, hsetup, ok_bind]
  dsimp only
  by_cases hret : ret = .ok
  · obtain ⟨serial', hlog, hlogged, hruns⟩ := logOnKernel_eq .info "uACPI Started\n" t
    refine ⟨serial', ?_, ?_, hruns⟩
    · rw [if_neg (not_not_intro hret), if_pos hret, Proc.bind_apply, freeOnKernel_eq href hslot,
        ok_bind]
      dsimp only
      rw [Proc.bind_apply, hlog]
      rfl
    · rw [if_pos hret]
      exact acpiInit_eq_zero_iff.mpr ⟨page, k, t.kernel, t.kernel, halloc, hpage, hret ▸ hkernel,
        freePage_of_not_mem href fun h => hslot (href.tracked_iff.mpr h), hlogged⟩
  · obtain ⟨serial', hlog, hlogged, hruns⟩ := logOnKernel_eq .error (uacpiStatusToString ret) t
    refine ⟨serial', ?_, ?_, hruns⟩
    · rw [if_pos hret, if_neg hret, Proc.bind_apply, hlog, ok_bind]
      dsimp only
      rw [Proc.bind_apply, freeOnKernel_eq (s := t.setSerial serial') href hslot]
      rfl
    · rw [uacpiKernelLog_error] at hlogged
      rw [if_neg hret, acpiInit_of_setup_failed halloc hpage hkernel hret href.inBounds hslot,
        Except.ok.inj hlogged]

section

variable {P : Pool Word} {page : Word} {k : Kernel}

/-- The page for the buffer has been taken. -/
theorem Uacpi.Offline.takes (hs : s.Offline) (href : s.kernel.pmm.Refines P) (hP : OfPages P)
    (href' : k.pmm.Refines P.alloc) :
    (s.setKernel k).Offline ∧ (∀ p, s.kernel.pmm.Live p → k.pmm.Live p) ∧
      (s.setKernel k).room = s.room - 1 ∧ ∀ a, k.pmm.Tracked a ↔ s.kernel.pmm.Tracked a := by
  have htracked : ∀ a, k.pmm.Tracked a ↔ s.kernel.pmm.Tracked a :=
    fun a => href'.tracked_iff.trans href.tracked_iff.symm
  refine ⟨.of_empty href' (hP.apply .alloc) (fun i h => hs.locals i ((htracked _).mp h)) hs.early
    hs.empty hs.unbuffered, fun p hp => ?_, ?_, htracked⟩
  · exact href'.live_iff.mpr (P.live_subset_alloc (href.live_iff.mp hp))
  · rw [Uacpi.room_eq href, ← Pool.card_available_alloc]
    exact Uacpi.room_eq href'

/-- It has been zeroed, and nothing else has changed in memory. -/
theorem Uacpi.Offline.handover (hs : s.Offline) (href : s.kernel.pmm.Refines P) (hP : OfPages P)
    (hlowest : P.lowest = some page) (href' : k.pmm.Refines P.alloc)
    (hmem : k.mem = s.kernel.mem) :
    (s.setKernel (KptrOS.handover k page)).Offline ∧ k.pmm.Live page ∧
      ∀ a, s.Spared a → (s.setKernel (KptrOS.handover k page)).Spared a ∧
        ¬ InRange page pageSize a ∧ (KptrOS.handover k page).mem a = s.kernel.mem a := by
  refine ⟨.of_empty href' (hP.apply .alloc) (hs.takes href hP href').1.locals hs.early hs.empty
    hs.unbuffered, ?_, fun a ha => ?_⟩
  · refine href'.live_iff.mpr ?_
    rw [Pool.alloc_live_of_some hlowest]
    exact Finset.mem_insert_self page P.live
  · have hout : ¬ InRange page pageSize a :=
      ha.1 page (href.free_iff.mpr (Pool.lowest_mem_available hlowest))
    refine ⟨⟨fun p hp => ha.1 p (href.free_iff.mpr ?_), ha.2⟩, hout, ?_⟩
    · exact Pool.alloc_available_subset P (href'.free_iff.mp hp)
    · rw [← hmem]
      exact memset_of_not_inRange (by decide) hout

end

/-- **`acpi_init` ends, whatever firmware has in memory.** It returns 0 with the lowest free page
as the buffer of the tables, none of which has been referenced, or −1 with everything offline.
It writes to pages that were free only, and frees none. -/
theorem acpiInitTables_returns (hs : s.Offline) (hslot : ¬ s.kernel.pmm.Tracked slot) {depth : Nat}
    (hroom : s.room < depth) :
    ∃ ret t, acpiInitTables depth slot s = .ok (ret, t) ∧
      acpiInit (setupOnKernel depth s) slot s.kernel = .ok (ret, t.kernel) ∧
      (∀ a, s.Spared a → t.kernel.mem a = s.kernel.mem a) ∧
      (∀ page, s.kernel.pmm.Live page → t.kernel.pmm.Live page) ∧
      ((ret = 0 ∧ ∃ page, s.kernel.pmm.LowestFree page ∧ t.kernel.pmm.Live page ∧
          t.Online page pageSize) ∨ (ret = -1 ∧ t.Offline)) := by
  obtain ⟨P, href, hP⟩ := hs.pool
  rcases allocPage_refines href with ⟨page, bitmap', hlowest, href', halloc⟩ | ⟨-, halloc⟩
  · -- the page is taken
    obtain ⟨hv, hlive, hroom', htracked⟩ :=
      hs.takes (k := { s.kernel with pmm.bitmap := bitmap' }) href hP href'
    by_cases hpage : page = 0
    · obtain ⟨serial', hrun, hkernel⟩ :=
        acpiInitTables_of_zero s slot depth (hpage ▸ halloc 0)
      exact ⟨-1, _, hrun, hkernel, fun _ _ => rfl, hlive, .inr ⟨rfl, hv.setSerial serial'⟩⟩
    -- it is zeroed and handed over
    let v := s.setKernel (handover { s.kernel with pmm.bitmap := bitmap' } page)
    obtain ⟨hv, hpageLive, hzeroed⟩ :=
      hs.handover (k := { s.kernel with pmm.bitmap := bitmap' }) href hP hlowest href' rfl
    obtain ⟨ret, t, hsetup, hruns, -, hframe, hend⟩ := uacpiSetupEarlyTableAccess_spec hv
      (show v.room < depth from (hroom'.trans_le (Nat.sub_le _ 1)).trans_lt hroom)
      page 4096 fun a ha => ⟨page, hpageLive, ha⟩
    have hmem : ∀ a, s.Spared a → t.kernel.mem a = s.kernel.mem a := by
      intro a ha
      obtain ⟨hspared, hout, hkept⟩ := hzeroed a ha
      exact (hframe a hspared hout).trans hkept
    have hslot' : ¬ t.kernel.pmm.Tracked slot := fun h =>
      hslot ((htracked slot).mp ((hruns.tracked_iff href' slot).mp h))
    obtain ⟨ops, hQ, -⟩ := hruns.pool href'
    obtain ⟨serial', hrun, hkernel, hruns'⟩ :=
      acpiInitTables_of_setup (halloc 0) hpage hsetup hQ hslot'
    refine ⟨_, _, hrun, hkernel, hmem, fun p hp => hruns.live href' (hlive p hp), ?_⟩
    by_cases hret : ret = .ok
    · rw [if_pos hret] at hend ⊢
      exact .inl ⟨rfl, page, href.lowestFree_iff.mpr hlowest, hruns.live href' hpageLive,
        hend.setSerial hruns'⟩
    · rw [if_neg hret] at hend ⊢
      exact .inr ⟨rfl, hend.setSerial serial'⟩
  · obtain ⟨serial', hrun, hkernel⟩ :=
      acpiInitTables_of_zero s slot depth (halloc 0)
    exact ⟨-1, _, hrun, hkernel, fun _ _ => rfl, fun _ hp => hp, .inr ⟨rfl, hs.setSerial serial'⟩⟩

end

/-- The state behind `bitmap_init` is offline. -/
theorem Uacpi.Offline.loaded {k : Kernel} {P : Pool Word} (href : k.pmm.Refines P)
    (hP : OfPages P) {slot : Word} (hslot : ¬ k.pmm.Tracked slot) (rsdp : Option Word) :
    (Uacpi.loaded k rsdp fun _ => slot).Offline :=
  .of_empty href hP (fun _ => hslot) rfl rfl rfl

/-! ## A firmware with tables -/

/-- An XSDT that names the tables at 0xD0000 and 0xC0000. -/
def sampleXsdt : List Byte :=
  lit "XSDT" ++ [52, 0, 0, 0, 1, 175] ++ List.replicate 14 32 ++ List.replicate 12 0 ++
    [0, 0, 13, 0, 0, 0, 0, 0] ++ [0, 0, 12, 0, 0, 0, 0, 0]

/-- The table of a HPET at 0xFED00000. -/
def sampleHpet : List Byte :=
  lit "HPET" ++ [56, 0, 0, 0, 1, 191] ++ List.replicate 14 32 ++ List.replicate 12 0 ++
    [1, 130, 134, 128, 0, 64, 0, 0, 0, 0, 208, 254, 0, 0, 0, 0, 0, 128, 0, 0]

/-- The RSDP and the XSDT, the table of the HPET, and a FADT that names itself as its DSDT. -/
def sampleFirmware : Memory :=
  firmwareMemory ((0xF0000, sampleRsdp) :: (0xE0000, sampleXsdt) :: (0xD0000, sampleHpet) ::
    sampleFadt)

theorem sampleFirmware_rsdp :
    1 < (AcpiRsdp.revision (loadStruct sampleFirmware 0xF0000 36)).toNat ∧
      AcpiRsdp.xsdtAddr (loadStruct sampleFirmware 0xF0000 36) = 0xE0000 := by
  decide

theorem sampleFirmware_xsdt : AcpiSdtHdr.length (loadStruct sampleFirmware 0xE0000 36) = 52 ∧
    load64 sampleFirmware (0xE0000 + 36 + BitVec.ofNat 64 0) = 0xD0000 ∧
    load64 sampleFirmware (0xE0000 + 36 + BitVec.ofNat 64 8) = 0xC0000 := by
  decide

theorem sampleFirmware_hpet :
    uacpiSignaturesMatch (AcpiSdtHdr.signature (loadStruct sampleFirmware 0xD0000 36))
      (lit "FACP") = false ∧ plainFlags (loadStruct sampleFirmware 0xD0000 36) = 0 := by
  decide

theorem sampleFirmware_fadt :
    AcpiSdtHdr.signature (loadStruct sampleFirmware 0xC0000 36) = lit "FACP" ∧
      AcpiSdtHdr.length (loadStruct sampleFirmware 0xC0000 36) = 276 ∧
      AcpiFadt.xDsdt (loadStruct sampleFirmware 0xC0000 276) = 0xC0000 := by
  decide

/-- An entry of a mapped XSDT is what firmware has there. -/
theorem rxsdtEntry_mapped {s : Uacpi} {rxsdt addr : Word} {base : Nat} {m : Memory}
    (h : s.Firmware base m) (hmaps : s.MapsTo rxsdt addr) (haddr : base ≤ addr.toNat)
    (hfits : addr.toNat + pageSize ≤ 2 ^ 64) {i : Nat} (hi : i + 44 ≤ pageSize) :
    rxsdtEntry s.kernel.mem rxsdt 8 (BitVec.ofNat 64 i) =
      load64 m (addr + 36 + BitVec.ofNat 64 i) := by
  rw [rxsdtEntry, if_pos rfl]
  refine load64_congr fun j hj => ?_
  have hoffset : ∀ p : Word, offset (p + 36 + BitVec.ofNat 64 i) j = offset p (36 + i + j) := by
    intro p
    rw [← offset_offset, ← offset_offset]
    rfl
  rw [hoffset, hoffset]
  exact h.mapped hmaps haddr hfits (by omega)

/-- The walk over this firmware with nine free pages: the tables that name others take three of
them and the header of the table of the HPET one, and the FADT takes what is left. -/
theorem sampleFirmware_walk {s : Uacpi} (hs : s.Sound) (hl : s.Lenient)
    (hrsdp : s.rsdpResponse = some 0xF0000) (hflag : s.checkFlag flagBadXsdt = false)
    (hfirmware : s.Firmware 0xB000 sampleFirmware) (hroom : s.room = 9) (hsize : s.size = 0)
    (hplace : 3 ≤ s.capacity) :
    Returns (initializeFromRsdp 11) s fun ret t => ret = .ok ∧ (s.Extends t ∧ t.Sound) ∧
      t.size = 3 ∧
      t.entry 0 = recordedTable (loadStruct sampleFirmware 0xD0000 36) 0xD0000 0
        .firmwarePhysical 0 0 ∧
      ∀ idx, 1 ≤ idx → idx < 3 → t.entry idx = recordedTable
        (loadStruct sampleFirmware 0xC0000 36) 0xC0000 0 .firmwarePhysical 0
          tableCsumVerified := by
  -- the RSDP
  have hread := hfirmware.loadStruct 0xF0000 36 (by decide) (by decide)
  obtain ⟨t, ⟨hst, ht⟩, htables, htroom, hrsdpRun⟩ := initializeFromRsdp_begin (n := 11) hs hl
    (by omega) 0xF0000 0xE0000 hrsdp (by decide)
    (hfirmware.outside_offset 0xF0000 36 (by decide) (by decide))
    (hread ▸ sampleFirmware_rsdp.1) (hread ▸ sampleFirmware_rsdp.2) (by decide) hflag
  have htfirmware := hfirmware.evolve hs hst.toEvolves
  -- the XSDT
  have hread := htfirmware.loadStruct 0xE0000 36 (by decide) (by decide)
  obtain ⟨xsdt, u, ⟨htu, hu⟩, hutables, huroom, hmaps, hxsdtRun⟩ := initializeFromRxsdt_begin
    (n := 11) ht (hl.evolve hs hst.toEvolves) (by omega) 0xE0000 8 52
    (htfirmware.outside_offset 0xE0000 36 (by decide) (by decide))
    (by rw [hread, sampleFirmware_xsdt.1]; rfl) (by decide)
  have hsu := hst.trans hs htu
  have hufirmware := hfirmware.evolve hs hsu.toEvolves
  have husize : u.size = 0 :=
    (congrArg TableArray.sizeIncludingInline (hutables.trans htables)).trans hsize
  have hucapacity := hsu.toSameSettings.capacity
  -- the table of the HPET
  have hread := hufirmware.loadStruct 0xD0000 36 (by decide) (by decide)
  obtain ⟨r, v, hhpet, hret, ⟨huv, hv⟩, hvroom, hvsize, hventry⟩ := installPlain_returns hu
    (hl.evolve hs hsu.toEvolves) (by omega) (by omega) 0xD0000
    (hufirmware.outside_offset 0xD0000 36 (by decide) (by decide))
    (hread ▸ sampleFirmware_hpet.1) (tableInstallPhysicalWithOriginUnlocked 10) .firmwarePhysical
    none
  rw [husize, hread, sampleFirmware_hpet.2] at hventry
  have hsv := hsu.trans hs huv
  have hvfirmware := hfirmware.evolve hs hsv.toEvolves
  -- the FADT
  have hread := hvfirmware.loadStruct 0xC0000 36 (by decide) (by decide)
  have hself : v.NamesItself 0xC0000 :=
    ⟨hvfirmware.outside_offset 0xC0000 276 (by decide) (by decide),
      hread ▸ sampleFirmware_fadt.1, hread ▸ sampleFirmware_fadt.2.1,
      hvfirmware.loadStruct 0xC0000 276 (by decide) (by decide) ▸ sampleFirmware_fadt.2.2,
      by decide⟩
  have hvcapacity := hsv.toSameSettings.capacity
  obtain ⟨r', w, hfadt, hret', hw⟩ := installNested_returns 11 0xC0000 v none hv
    (hl.evolve hs hsv.toEvolves) hself (by omega) (by omega)
  have hwsize : w.size = 3 := by
    rw [hw.size]
    omega
  -- the loop goes through both entries
  have hfirst : rxsdtEntry u.kernel.mem xsdt 8 0 = 0xD0000 :=
    (rxsdtEntry_mapped (i := 0) hufirmware hmaps (by decide) (by decide) (by decide)).trans
      sampleFirmware_xsdt.2.1
  have hsecond : rxsdtEntry v.kernel.mem xsdt 8 (0 + 8) = 0xC0000 :=
    (rxsdtEntry_mapped (i := 8) hvfirmware (hmaps.evolve hu huv.toEvolves) (by decide) (by decide)
      (by decide)).trans sampleFirmware_xsdt.2.2
  have hloop : Returns (rxsdtLoop 11 xsdt 8 16 (2 ^ 64) 0) u fun ret t => ret = .ok ∧ t = w := by
    have hbound : 2 ^ 64 = 2 ^ 64 - 3 + 1 + 1 + 1 := by omega
    rw [hbound]
    refine rxsdtLoop_install (Q := fun t => t = v) (by decide) ?_ ?_ ?_
    · rw [hfirst]
      decide
    · rw [hfirst]
      exact ⟨r, v, hhpet, hret, rfl⟩
    rintro _ rfl
    refine rxsdtLoop_install (Q := fun t => t = w) (by decide) ?_ ?_ ?_
    · rw [hsecond]
      decide
    · rw [hsecond]
      exact ⟨r', w, hfadt, hret'.trans (if_pos (by omega)), rfl⟩
    rintro _ rfl
    exact .of_eq (rxsdtLoop_end (by decide) _) ⟨rfl, rfl⟩
  have hlooped : rxsdtLoop 11 xsdt 8 16 (2 ^ 64) 0 u = .ok (.ok, w) := by
    obtain ⟨_, _, hrun, rfl, rfl⟩ := hloop
    exact hrun
  have hbytes : ((52 - 36) &&& ~~~(8 - 1) : Word) = 16 := by decide
  obtain ⟨hidle, hx⟩ := hw.sound.setFrame (w.frame + 1)
  refine ⟨.ok, w.setFrame (w.frame + 1), ?_, rfl, ⟨(hsv.trans hs hw.extend).trans hs hidle, hx⟩,
    hwsize, ?_, fun idx hle hlt => ?_⟩
  · rw [hrsdpRun, hxsdtRun, hbytes, Proc.bind_apply, hlooped, ok_bind]
    dsimp only
    rw [Proc.bind_apply, unmapTable_eq hw.sound, ok_bind]
    rfl
  · exact (hw.extend.entry 0 (by omega)).trans hventry
  · exact (hw.entry idx (by omega) (hlt.trans_eq hwsize.symm)).trans (by rw [hread])

/-- The setup on this firmware. -/
theorem sampleFirmware_setup {s : Uacpi} (hs : s.Offline) (hzero : ¬ s.kernel.pmm.Tracked 0)
    (hpage : s.kernel.pmm.Live 0x1000) (hrsdp : s.rsdpResponse = some 0xF0000)
    (hflags : s.flags = 0) (hhandler : s.installationHandler = none)
    (hfirmware : s.Firmware 0xB000 sampleFirmware) (hroom : s.room = 9) :
    Returns (uacpiSetupEarlyTableAccess 11 0x1000 4096) s fun ret t => ret = .ok ∧
      s.kernel.Runs t.kernel ∧ t.size = 3 ∧
      t.entry 0 = recordedTable (loadStruct sampleFirmware 0xD0000 36) 0xD0000 0
        .firmwarePhysical 0 0 ∧
      ∀ idx, 1 ≤ idx → idx < 3 → t.entry idx = recordedTable
        (loadStruct sampleFirmware 0xC0000 36) 0xC0000 0 .firmwarePhysical 0
          tableCsumVerified := by
  obtain ⟨P, href, -⟩ := hs.pool
  obtain ⟨serial', logLevel, versionPrinted, hruns, hu, hsetup⟩ :=
    uacpiSetupEarlyTableAccess_begin hs (by decide : ¬ (4096 : Word) < 64)
      (fun a ha => ⟨0x1000, hpage, ha⟩) 11
  let u := ((s.setSerial serial').setLogger logLevel versionPrinted).withBuffer 0x1000 4096
  have hplace : 3 ≤ u.capacity := (by decide : 3 ≤ 16 + 4096 / 64)
  obtain ⟨ret, t, hwalk, rfl, ⟨hextends, ht⟩, hsize, hhpet, hfadt⟩ := sampleFirmware_walk (s := u)
    hu (.of_flags hflags hhandler hzero) hrsdp (Uacpi.checkFlag_of_zero hflags (by decide))
    ⟨hfirmware.outside, hfirmware.holds⟩ hroom hs.empty hplace
  refine ⟨.ok, t, ?_, rfl, hruns.trans hextends.runs href, hsize, hhpet, hfadt⟩
  rw [hsetup, Proc.bind_apply, hwalk, ok_bind]
  rfl

/-- Ten usable pages. -/
def firmwareBoot : Boot := { sampleBoot with memmap := [⟨0x1000, 0xA000, memmapUsable⟩] }

theorem firmwareBoot_wellFormed : WellFormed firmwareBoot.memmap where
  bounded := by decide
  disjoint := List.pairwise_singleton _ _

theorem firmwareBoot_pages : trackedPages firmwareBoot.memmap =
    [0x1000, 0x2000, 0x3000, 0x4000, 0x5000, 0x6000, 0x7000, 0x8000, 0x9000, 0xA000] := by
  decide

/-- The pool of this map. -/
def firmwarePool : Pool Word :=
  .fresh (trackedPages firmwareBoot.memmap) (trackedPages_nodup firmwareBoot_wellFormed)

theorem firmwarePool_ofPages : OfPages firmwarePool := fun _ hpage => trackedPages_aligned hpage

theorem firmwarePool_le {page : Word} (h : page ∈ firmwarePool.items) : page.toNat ≤ 0xA000 := by
  have hall : ∀ page ∈ ([0x1000, 0x2000, 0x3000, 0x4000, 0x5000, 0x6000, 0x7000, 0x8000, 0x9000,
    0xA000] : List Word), page.toNat ≤ 0xA000 := by simp
  exact hall page (firmwareBoot_pages ▸ h)

theorem firmwareBoot_refines (k₀ : Kernel) :
    ∃ k, bitmapInit firmwareBoot k₀ = .ok k ∧ k.mem = k₀.mem ∧ k.pmm.Refines firmwarePool :=
  bitmapInit_refines firmwareBoot k₀ firmwareBoot_wellFormed

/-- The kernel starts with ten free pages, and with firmware above them. -/
theorem Uacpi.Firmware.loaded {k : Kernel} (href : k.pmm.Refines firmwarePool) {m : Memory}
    (hmem : k.mem = m) (rsdp : Option Word) (frames : Nat → Word) :
    (Uacpi.loaded k rsdp frames).Firmware 0xB000 m := by
  refine ⟨fun a ha page hpage hin => ?_, fun a _ => congrFun hmem a⟩
  have hle := firmwarePool_le (href.tracked_iff.mp hpage)
  have hin' : (a - page).toNat < 4096 := hin
  rw [BitVec.toNat_sub] at hin'
  omega

/-- The lowest page is the buffer, and the setup is called. -/
theorem firmwareBoot_handover (rsdp : Option Word) :
    ∃ k k', bitmapInit firmwareBoot (.loaded sampleFirmware) = .ok k ∧
      k.pmm.Refines firmwarePool ∧ allocPage 0 k = .ok (0x1000, k') ∧
      k'.pmm.Refines firmwarePool.alloc ∧
      ((Uacpi.loaded k rsdp fun _ => stackSlot).setKernel (handover k' 0x1000)).Offline ∧
      ((Uacpi.loaded k rsdp fun _ => stackSlot).setKernel (handover k' 0x1000)).Firmware 0xB000
        sampleFirmware := by
  obtain ⟨k, hinit, hmem, href⟩ := firmwareBoot_refines (.loaded sampleFirmware)
  have hslot : ¬ k.pmm.Tracked stackSlot := fun h => absurd (href.tracked_iff.mp h) (by decide)
  have hs := Uacpi.Offline.loaded href firmwarePool_ofPages hslot rsdp
  have hfirmware := Uacpi.Firmware.loaded href hmem rsdp fun _ => stackSlot
  rcases allocPage_refines href with ⟨page, bitmap', hlowest, href', halloc⟩ | ⟨hnone, -⟩
  swap
  · exact absurd hnone (by decide)
  obtain rfl : page = 0x1000 := (Option.some_inj.mp hlowest).symm
  obtain ⟨-, -, -, htracked⟩ :=
    hs.takes (k := { k with pmm.bitmap := bitmap' }) href firmwarePool_ofPages href'
  obtain ⟨hv, -, hzeroed⟩ := hs.handover (k := { k with pmm.bitmap := bitmap' }) href
    firmwarePool_ofPages hlowest href' rfl
  have hspared : ∀ a : Word, 0xB000 ≤ a.toNat →
      (Uacpi.loaded k rsdp fun _ => stackSlot).Spared a :=
    fun a ha => hs.toSound.spared_of_outside (hfirmware.outside a ha)
  exact ⟨k, _, hinit, href, halloc 0, href', hv,
    fun a ha p hp => hfirmware.outside a ha p ((htracked p).mp hp),
    fun a ha => (hzeroed a (hspared a ha)).2.2.trans (hfirmware.holds a ha)⟩

theorem firmwarePool_taken : firmwarePool.alloc.available.card = 9 ∧
    0x1000 ∈ firmwarePool.alloc.live ∧ 0 ∉ firmwarePool.alloc.items ∧
    stackSlot ∉ firmwarePool.alloc.items := by
  decide

/-- Ten usable pages and a firmware with tables: `acpi_init` records the table of the HPET, and the
FADT twice. -/
theorem acpiInitTables_returns_sample :
    ∃ k t, bitmapInit firmwareBoot (.loaded sampleFirmware) = .ok k ∧
      acpiInitTables 11 stackSlot (.loaded k (some 0xF0000) fun _ => stackSlot) = .ok (0, t) ∧
      t.Online 0x1000 pageSize ∧ t.size = 3 ∧
      t.entry 0 = recordedTable (loadStruct sampleFirmware 0xD0000 36) 0xD0000 0
        .firmwarePhysical 0 0 ∧
      ∀ idx, 1 ≤ idx → idx < 3 → t.entry idx = recordedTable
        (loadStruct sampleFirmware 0xC0000 36) 0xC0000 0 .firmwarePhysical 0
          tableCsumVerified := by
  obtain ⟨k, k', hinit, href, halloc, href', hv, hfirmware⟩ :=
    firmwareBoot_handover (some 0xF0000)
  have hslot : ¬ k.pmm.Tracked stackSlot := fun h => absurd (href.tracked_iff.mp h) (by decide)
  have hroom : (Uacpi.loaded k (some 0xF0000) fun _ => stackSlot).room = 10 :=
    (Uacpi.room_eq href).trans (by decide)
  obtain ⟨ret, t, hrun, -, -, -, hend⟩ := acpiInitTables_returns
    (Uacpi.Offline.loaded href firmwarePool_ofPages hslot (some 0xF0000)) hslot
    (hroom.trans_lt (Nat.lt_succ_self 10))
  -- the same run, step by step
  obtain ⟨hcard, hpage, hzero, hslot'⟩ := firmwarePool_taken
  obtain ⟨_, u, hsetup, rfl, hruns, hsize, hhpet, hfadt⟩ := sampleFirmware_setup hv
    (fun h => hzero (href'.tracked_iff.mp h)) (href'.live_iff.mpr hpage) rfl rfl rfl hfirmware
    ((Uacpi.room_eq href').trans hcard)
  obtain ⟨ops, hQ, -⟩ := hruns.pool href'
  obtain ⟨serial', hrun', -⟩ := acpiInitTables_of_setup halloc (by decide) hsetup hQ fun h =>
    hslot' (href'.tracked_iff.mp ((hruns.tracked_iff href' _).mp h))
  obtain ⟨rfl, rfl⟩ := Prod.mk.inj (Except.ok.inj (hrun.symm.trans hrun'))
  rcases hend with ⟨-, page, hlowest, -, honline⟩ | ⟨hfailed, -⟩
  · obtain rfl : page = 0x1000 := by
      have hpage : firmwarePool.lowest = some page := href.lowestFree_iff.mp hlowest
      exact (Option.some_inj.mp hpage).symm
    exact ⟨k, _, hinit, hrun, honline, hsize, hhpet, hfadt⟩
  · exact absurd hfailed (by decide)

end KptrOS
