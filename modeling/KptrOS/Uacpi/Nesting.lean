import KptrOS.Uacpi.Install

/-!
# How deep an installation nests

What an installation leaves when nothing but a lack of pages can make it fail.

- `Uacpi.Lenient`: no check is fatal, and no handler decides about tables.
- `Uacpi.Firmware`: what firmware has left in memory, away from the allocator's pages.
- `tableInstallPhysicalBody_begin`: an installation up to its verification.
- `installPlain_returns`: a table that is not verified is recorded.
- `Uacpi.NamesItself`, `installNested_returns`: a FADT that names itself as its DSDT is installed
  from itself until the pages run out, and recorded once for every two of them.
-/

namespace KptrOS

open CSem

/-! ## Nothing is fatal -/

/-- No check of a table is fatal, checksums are not verified in advance, no handler decides about
tables, and a mapping is never at address 0. -/
structure Uacpi.Lenient (s : Uacpi) : Prop where
  noHandler : s.installationHandler = none
  badCsum : s.checkFlag flagBadCsumFatal = false
  badSignature : s.checkFlag flagBadTblSignatureFatal = false
  proactive : s.checkFlag flagProactiveTblCsum = false
  nonzero : ¬ s.kernel.pmm.Tracked 0

section

variable {s t : Uacpi}

theorem Uacpi.SameSettings.checkFlag (h : s.SameSettings t) (flag : Word) :
    t.checkFlag flag = s.checkFlag flag := by
  rw [Uacpi.checkFlag, h.flags, Uacpi.checkFlag]

theorem Uacpi.checkFlag_of_zero (h : s.flags = 0) {flag : Word} (hflag : flag ≠ 0) :
    s.checkFlag flag = false := by
  have hand : 0 &&& flag = 0 := BitVec.zero_and
  rw [Uacpi.checkFlag, h, hand]
  exact beq_eq_false_iff_ne.mpr hflag.symm

/-- The configuration of this kernel: no flag is set. -/
theorem Uacpi.Lenient.of_flags (hflags : s.flags = 0) (hhandler : s.installationHandler = none)
    (hzero : ¬ s.kernel.pmm.Tracked 0) : s.Lenient :=
  ⟨hhandler, Uacpi.checkFlag_of_zero hflags (by decide),
    Uacpi.checkFlag_of_zero hflags (by decide), Uacpi.checkFlag_of_zero hflags (by decide), hzero⟩

theorem Uacpi.Lenient.evolve (hl : s.Lenient) (hs : s.Sound) (h : s.Evolves t) : t.Lenient := by
  obtain ⟨P, href, -⟩ := hs.pool
  refine ⟨h.installationHandler.trans hl.noHandler, ?_, ?_, ?_, fun hzero => ?_⟩
  · rw [h.toSameSettings.checkFlag]
    exact hl.badCsum
  · rw [h.toSameSettings.checkFlag]
    exact hl.badSignature
  · rw [h.toSameSettings.checkFlag]
    exact hl.proactive
  · exact hl.nonzero ((h.runs.tracked_iff href 0).mp hzero)

theorem Uacpi.Lenient.checksumStatus (hl : s.Lenient) (table : Word) (size : Nat) :
    s.checksumStatus table size = .ok := by
  rw [Uacpi.checksumStatus, hl.badCsum]
  split
  · rfl
  · rfl

theorem Uacpi.Lenient.signatureStatus (hl : s.Lenient) (hdr : AcpiSdtHdr) (expect : String) :
    s.signatureStatus hdr expect = .ok := by
  rw [Uacpi.signatureStatus, hl.badSignature]
  split
  · rfl
  · rfl

theorem Uacpi.Lenient.expectedStatus (hl : s.Lenient) (hdr : AcpiSdtHdr)
    (expected : Option String) : s.expectedStatus hdr expected = .ok := by
  cases expected with
  | none => rfl
  | some expect => exact hl.signatureStatus hdr expect

/-- What lies outside the pages of the allocator stays what it is. -/
theorem Uacpi.Evolves.loadStruct (hs : s.Sound) (h : s.Evolves t) {p : Word} {n : Nat}
    (hout : ∀ i, i < n → s.Outside (offset p i)) :
    loadStruct t.kernel.mem p n = KptrOS.loadStruct s.kernel.mem p n :=
  loadStruct_congr fun i hi => h.frame _ (hs.spared_of_outside (hout i hi))

/-- A mapping shows it. -/
theorem Uacpi.MapsTo.loadStruct {p addr : Word} (h : s.MapsTo p addr) {n : Nat} (hn : n ≤ pageSize)
    (hout : ∀ i, i < n → s.Outside (offset addr i)) :
    loadStruct s.kernel.mem p n = KptrOS.loadStruct s.kernel.mem addr n :=
  loadStruct_congr fun i hi => h.copy i (hi.trans_le hn) (hout i hi)

/-! ## What firmware has left -/

/-- The allocator has no pages from `base` on, and memory is there as firmware has left it. -/
structure Uacpi.Firmware (s : Uacpi) (base : Nat) (m : Memory) : Prop where
  outside : ∀ a : Word, base ≤ a.toNat → s.Outside a
  holds : ∀ a : Word, base ≤ a.toNat → s.kernel.mem a = m a

section

variable {base : Nat} {m : Memory}

theorem Uacpi.Firmware.evolve (h : s.Firmware base m) (hs : s.Sound) (hst : s.Evolves t) :
    t.Firmware base m := by
  refine ⟨fun a ha => (hst.outside_iff hs a).mpr (h.outside a ha), fun a ha => ?_⟩
  rw [hst.frame a (hs.spared_of_outside (h.outside a ha)), h.holds a ha]

theorem le_offset {p : Word} {n i : Nat} (hp : base ≤ p.toNat) (hn : p.toNat + n ≤ 2 ^ 64)
    (hi : i < n) : base ≤ (offset p i).toNat := by
  rw [offset, BitVec.toNat_add, BitVec.toNat_ofNat]
  omega

theorem Uacpi.Firmware.outside_offset (h : s.Firmware base m) (p : Word) (n : Nat)
    (hp : base ≤ p.toNat) (hn : p.toNat + n ≤ 2 ^ 64) : ∀ i, i < n → s.Outside (offset p i) :=
  fun _ hi => h.outside _ (le_offset hp hn hi)

theorem Uacpi.Firmware.loadStruct (h : s.Firmware base m) (p : Word) (n : Nat)
    (hp : base ≤ p.toNat) (hn : p.toNat + n ≤ 2 ^ 64) :
    loadStruct s.kernel.mem p n = KptrOS.loadStruct m p n :=
  loadStruct_congr fun _ hi => h.holds _ (le_offset hp hn hi)

/-- A mapping shows it. -/
theorem Uacpi.Firmware.mapped (h : s.Firmware base m) {p addr : Word} (hmaps : s.MapsTo p addr)
    (haddr : base ≤ addr.toNat) (hfits : addr.toNat + pageSize ≤ 2 ^ 64) {i : Nat}
    (hi : i < pageSize) : s.kernel.mem (offset p i) = m (offset addr i) := by
  rw [hmaps.copy i hi (h.outside_offset addr pageSize haddr hfits i hi),
    h.holds _ (le_offset haddr hfits hi)]

end

/-! ## The beginning of an installation -/

/-- **An installation up to its verification**: the header has been read. -/
theorem tableInstallPhysicalBody_begin (hs : s.Sound) (hl : s.Lenient) (hroom : 0 < s.room)
    {phys : Word} (hout : ∀ i, i < 36 → s.Outside (offset phys i)) (install : PhysicalInstall)
    (origin : TableOrigin) (expected : Option String) :
    ∃ t, (s.Extends t ∧ t.Sound) ∧ t.tables = s.tables ∧ t.room = s.room - 1 ∧
      tableInstallPhysicalBody install phys origin expected none s = (do
        let r ← verifyAndInstallTable install (.copy (loadStruct s.kernel.mem phys 36)) phys 0
          origin none
        return (.ok, r.2) : Proc Uacpi (UacpiStatus × Option UacpiTable)) t := by
  obtain ⟨hdr, t, hread, ⟨hextends, ht⟩, htables, hroom', hhdr, hsome⟩ :=
    getExternalTableHeader_spec hs phys
  obtain ⟨h, rfl⟩ := Option.ne_none_iff_exists'.mp (hsome hroom hl.nonzero)
  obtain rfl := (hhdr h rfl).2 hout
  generalize loadStruct s.kernel.mem phys 36 = hdr at hread ⊢
  have hlt : t.Lenient := hl.evolve hs hextends.toEvolves
  obtain ⟨serial', hbogus, hextends', hu⟩ := (bogus_prints t hdr phys).spec ht
  have hlu : (t.setSerial serial').Lenient := hlt.evolve ht hextends'.toEvolves
  obtain ⟨serial'', hcheck, hextends'', hv⟩ :=
    (checkExpected_prints (t.setSerial serial') hdr expected).spec hu
  have hlv := hlu.evolve hu hextends''.toEvolves
  rw [hlu.expectedStatus] at hcheck
  refine ⟨(t.setSerial serial').setSerial serial'',
    ⟨(hextends.trans hs hextends').trans hs hextends'', hv⟩, htables, hroom', ?_⟩
  rw [tableInstallPhysicalBody, Proc.bind_apply, hread, ok_bind]
  dsimp only
  rw [Proc.bind_apply, hbogus, ok_bind]
  dsimp only
  rw [Proc.bind_apply, hcheck, ok_bind]
  dsimp only
  generalize (t.setSerial serial').setSerial serial'' = v at hlv
  rw [if_neg (not_not_intro rfl), Proc.bind_apply, Proc.get_apply, ok_bind]
  dsimp only
  have hinstall : installOrOverride install hdr phys 0 origin none v =
      verifyAndInstallTable install (.copy hdr) phys 0 origin none v := by
    rw [installOrOverride, Proc.bind_apply, Proc.get_apply, ok_bind]
    dsimp only
    rw [hlv.noHandler]
    cases origin <;> rfl
  have hvirt : (if (v.installationHandler.isSome || (none : Option UacpiTable).isSome) = true then
      mapTable phys ((AcpiSdtHdr.length hdr).setWidth 64) else pure 0 : Proc Uacpi Word) v =
        .ok (0, v) := by
    rw [hlv.noHandler]
    rfl
  rw [Proc.bind_apply, hvirt, ok_bind]
  dsimp only
  rw [hlv.noHandler, if_neg (fun h => absurd h.1 (by decide)), Proc.bind_apply, hinstall,
    Proc.bind_apply]
  cases verifyAndInstallTable install (.copy hdr) phys 0 origin none v with
  | error e => rfl
  | ok r =>
    obtain ⟨⟨ret, out⟩, w⟩ := r
    rw [ok_bind, ok_bind]
    dsimp only
    by_cases hdone : ret = .ok ∧ out.isSome = true
    · rw [if_pos hdone, hdone.1]
    · rw [if_neg hdone]
      rfl

/-! ## A table that is not verified -/

/-- The flags that a table gets without being verified: a FACS has no checksum. -/
def plainFlags (hdr : AcpiSdtHdr) : Byte :=
  if uacpiSignaturesMatch hdr.signature (lit "FACS") then tableCsumVerified else 0

theorem plainFlags_valid (hdr : AcpiSdtHdr) : plainFlags hdr &&& tableInvalid = 0 := by
  rw [plainFlags]
  split
  · rfl
  · rfl

theorem verifyTable_plain (hl : s.Lenient) {hdr : AcpiSdtHdr}
    (hfadt : uacpiSignaturesMatch hdr.signature (lit "FACP") = false) (install : PhysicalInstall)
    (physAddr virtAddr : Word) :
    verifyTable install (.copy hdr) physAddr virtAddr none s = .ok ((.ok, plainFlags hdr), s) := by
  have hload : (HeaderSource.copy hdr).load s = .ok (hdr, s) := rfl
  rw [verifyTable, Proc.bind_apply, hload, ok_bind, plainFlags]
  dsimp only
  by_cases hfacs : uacpiSignaturesMatch hdr.signature (lit "FACS") = true
  · rw [if_pos hfacs, if_pos hfacs]
    rfl
  · rw [if_neg hfacs, if_neg hfacs, Proc.bind_apply, Proc.get_apply, ok_bind]
    dsimp only
    rw [hl.proactive, hfadt]
    rfl

/-- **A table other than the FADT is recorded as it is**, when there is a page for its header and
a place for it. -/
theorem installPlain_returns (hs : s.Sound) (hl : s.Lenient) (hroom : 0 < s.room)
    (hplace : s.size < s.capacity) (phys : Word) (hout : ∀ i, i < 36 → s.Outside (offset phys i))
    (hfadt : uacpiSignaturesMatch (AcpiSdtHdr.signature (loadStruct s.kernel.mem phys 36))
      (lit "FACP") = false) (install : PhysicalInstall) (origin : TableOrigin)
    (expected : Option String) :
    Returns (tableInstallPhysicalBody install phys origin expected none) s fun r t =>
      r.1 = .ok ∧ (s.Extends t ∧ t.Sound) ∧ t.room = s.room - 1 ∧ t.size = s.size + 1 ∧
        t.entry s.size = recordedTable (loadStruct s.kernel.mem phys 36) phys 0 origin 0
          (plainFlags (loadStruct s.kernel.mem phys 36)) := by
  obtain ⟨t, ⟨hextends, ht⟩, htables, hroom', hbody⟩ :=
    tableInstallPhysicalBody_begin hs hl hroom hout install origin expected
  have hsize : t.size = s.size := congrArg TableArray.sizeIncludingInline htables
  have hverify := verifyTable_plain (hl.evolve hs hextends.toEvolves) hfadt install phys 0
  obtain ⟨r, u, hrecord, hinstalls, -, hpmm, hdone, -⟩ :=
    recordTable_spec ht (.copy (loadStruct s.kernel.mem phys 36)) phys 0 origin none
      (plainFlags_valid _) fun _ h => absurd h (by decide)
  obtain ⟨hok, hsize', hentry⟩ := hdone (by
    rw [hsize, hextends.toSameSettings.capacity]
    exact hplace)
  obtain ⟨hextends', hu⟩ := hinstalls.extends_of_none
  refine .of_eq (a := (.ok, r.2)) (t := u) ?_ ⟨rfl, ⟨hextends.trans hs hextends', hu⟩, ?_, ?_, ?_⟩
  · rw [hbody, Proc.bind_apply, verifyAndInstallTable, Proc.bind_apply, hverify, ok_bind]
    dsimp only
    rw [if_neg (not_not_intro rfl), hrecord, ok_bind]
    rfl
  · rw [← hroom', Uacpi.room, Uacpi.room, hpmm]
  · rw [hsize', hsize]
  · rw [← hsize, hentry]
    rfl

/-! ## A FADT that names itself -/

/-- Outside the pages of the allocator firmware has a whole FADT at `phys`, which names itself as
its DSDT. -/
structure Uacpi.NamesItself (s : Uacpi) (phys : Word) : Prop where
  outside : ∀ i, i < 276 → s.Outside (offset phys i)
  signature : AcpiSdtHdr.signature (loadStruct s.kernel.mem phys 36) = lit "FACP"
  length : AcpiSdtHdr.length (loadStruct s.kernel.mem phys 36) = 276
  dsdt : AcpiFadt.xDsdt (loadStruct s.kernel.mem phys 276) = phys
  nonzero : phys ≠ 0

theorem Uacpi.NamesItself.header_outside {phys : Word} (h : s.NamesItself phys) {i : Nat}
    (hi : i < 36) : s.Outside (offset phys i) := h.outside i (hi.trans (by decide))

theorem Uacpi.NamesItself.evolve {phys : Word} (h : s.NamesItself phys) (hs : s.Sound)
    (hst : s.Evolves t) : t.NamesItself phys := by
  have hhdr := hst.loadStruct hs (n := 36) fun i hi => h.header_outside hi
  refine ⟨fun i hi => (hst.outside_iff hs _).mpr (h.outside i hi), ?_, ?_, ?_, h.nonzero⟩
  · rw [hhdr]
    exact h.signature
  · rw [hhdr]
    exact h.length
  · rw [hst.loadStruct hs h.outside]
    exact h.dsdt

/-- A table that is as long as the copy replaces all of it. -/
theorem AcpiFadt.copyFrom_of_length (fadt : AcpiFadt) {m : Memory} {hdr : Word}
    (h : AcpiSdtHdr.length (loadStruct m hdr 36) = 276) :
    fadt.copyFrom m hdr = loadStruct m hdr 276 := by
  rw [AcpiFadt.copyFrom, h]
  exact congrArg Arr.mk (funext fun i => if_pos i.isLt)

/-- `initialize_fadt` on a mapping of such a FADT installs it again. -/
theorem initializeFadt_namesItself (hs : s.Sound) {phys mapping : Word} (h : s.NamesItself phys)
    (hmapping : s.MapsTo mapping phys) (install : Word → Proc Uacpi UacpiStatus) :
    ∃ t, (s.Extends t ∧ t.Sound) ∧ t.tables = s.tables ∧ t.room = s.room ∧
      initializeFadt install mapping s = (install phys >>= finishFadt) t := by
  have hhdr := hmapping.loadStruct (n := 36) (by decide) fun i hi => h.header_outside hi
  have hlength : AcpiSdtHdr.length (loadStruct s.kernel.mem mapping 36) = 276 := by
    rw [hhdr]
    exact h.length
  obtain ⟨serial', fadt, rfl, hruns, hrun⟩ := initializeFadt_eq install mapping s
  have hdsdt : AcpiFadt.xDsdt (s.fadt.copyFrom s.kernel.mem mapping) = phys := by
    rw [AcpiFadt.copyFrom_of_length _ hlength, hmapping.loadStruct (by decide) h.outside]
    exact h.dsdt
  have hprepared := AcpiFadt.prepare_xDsdt (s.fadt.copyFrom s.kernel.mem mapping) (by
    rw [hdsdt]
    exact h.nonzero)
  rw [hdsdt] at hprepared
  generalize (s.fadt.copyFrom s.kernel.mem mapping).prepare = fadt at hrun hprepared
  rw [hprepared, if_pos h.nonzero] at hrun
  have hserial := hs.setSerial hruns
  have hfadt := hserial.2.setFadt fadt
  exact ⟨_, ⟨hserial.1.trans hs hfadt.1, hfadt.2⟩, rfl, rfl, hrun⟩

/-- `count` entries for the FADT at `phys` have been added, and no page is left. -/
structure Uacpi.Repeats (s : Uacpi) (phys : Word) (count : Nat) (t : Uacpi) : Prop where
  extend : s.Extends t
  sound : t.Sound
  room : t.room = 0
  size : t.size = s.size + count
  entry : ∀ idx, s.size ≤ idx → idx < t.size → t.entry idx =
    recordedTable (loadStruct s.kernel.mem phys 36) phys 0 .firmwarePhysical 0 tableCsumVerified

/-- A step that adds no entry, in front of it. -/
theorem Uacpi.Repeats.before {u : Uacpi} {phys : Word} {count : Nat} (hs : s.Sound)
    (hself : s.NamesItself phys) (hst : s.Extends t) (hsize : t.size = s.size)
    (h : t.Repeats phys count u) : s.Repeats phys count u := by
  refine ⟨hst.trans hs h.extend, h.sound, h.room, ?_, fun idx hle hlt => ?_⟩
  · rw [h.size, hsize]
  · rw [h.entry idx (hsize.trans_le hle) hlt,
      hst.toEvolves.loadStruct hs fun i hi => hself.header_outside hi]

/-- A step that takes no page and adds no entry, behind it. -/
theorem Uacpi.Repeats.after {u : Uacpi} {phys : Word} {count : Nat} (hs : s.Sound)
    (h : s.Repeats phys count t) (htu : t.Extends u ∧ u.Sound) (hroom : u.room = t.room)
    (hsize : u.size = t.size) : s.Repeats phys count u := by
  refine ⟨h.extend.trans hs htu.1, htu.2, hroom.trans h.room, hsize.trans h.size,
    fun idx hle hlt => ?_⟩
  rw [hsize] at hlt
  rw [htu.1.entry idx hlt]
  exact h.entry idx hle hlt

/-- The FADT at `phys` is installed from a state in which fewer than `n` pages can be taken: it is
recorded once for every two of them that are left behind the first one. -/
def RepeatsBelow (n : Nat) (phys : Word) (install : PhysicalInstall) : Prop :=
  ∀ s expected, s.Sound → s.Lenient → s.NamesItself phys → s.room < n →
    s.size + (s.room - 1) / 2 ≤ s.capacity →
    Returns (install phys .firmwarePhysical expected none) s fun r t =>
      r.1 = (if 0 < s.room then .ok else .mappingFailed) ∧ s.Repeats phys ((s.room - 1) / 2) t

section

variable {n : Nat} {phys : Word} {install : PhysicalInstall}

theorem initializeFadt_repeats (hrepeats : RepeatsBelow n phys install) (hs : s.Sound)
    (hl : s.Lenient) (hself : s.NamesItself phys) (hroom : s.room < n)
    (hplace : s.size + (s.room - 1) / 2 ≤ s.capacity) {mapping : Word}
    (hmapping : s.MapsTo mapping phys) :
    Returns (initializeFadt (installDsdt install) mapping) s fun ret t =>
      ret = (if 0 < s.room then .ok else .mappingFailed) ∧
        s.Repeats phys ((s.room - 1) / 2) t := by
  obtain ⟨t, ⟨hextends, ht⟩, htables, hroom', hrun⟩ :=
    initializeFadt_namesItself hs hself hmapping (installDsdt install)
  have hsize : t.size = s.size := congrArg TableArray.sizeIncludingInline htables
  have hcapacity := hextends.toSameSettings.capacity
  obtain ⟨r, u, hinstall, hret, hu⟩ := hrepeats t (some "DSDT") ht
    (hl.evolve hs hextends.toEvolves) (hself.evolve hs hextends.toEvolves) (hroom' ▸ hroom)
    (by rwa [hsize, hroom', hcapacity])
  rw [hroom'] at hret hu
  have hs' := hu.before hs hself hextends hsize
  have hdsdt : installDsdt install phys t = .ok (r.1, u) := by
    rw [installDsdt, Proc.bind_apply, hinstall]
    rfl
  rw [Returns, hrun, Proc.bind_apply, hdsdt, ok_bind]
  dsimp only
  by_cases hpos : 0 < s.room
  · rw [if_pos hpos] at hret ⊢
    exact Returns.of_eq (finishFadt_eq (.inl hret) u)
      ⟨rfl, hs'.after hs (hs'.sound.setFadt _) rfl rfl⟩
  · rw [if_neg hpos] at hret ⊢
    have hfailed : r.1 ≠ .ok ∧ r.1 ≠ .overridden := by
      rw [hret]
      decide
    exact Returns.of_eq (finishFadt_of_ne hfailed u) ⟨hret, hs'⟩

/-- The verification maps the FADT, and installs it again from there. -/
theorem verifyTable_repeats (hrepeats : RepeatsBelow n phys install) (hs : s.Sound)
    (hl : s.Lenient) (hself : s.NamesItself phys) (hroom : s.room - 1 < n)
    (hplace : s.size + (s.room - 2) / 2 ≤ s.capacity) :
    Returns (verifyTable install (.copy (loadStruct s.kernel.mem phys 36)) phys 0 none) s
      fun r t => r.1 = (if 1 < s.room then .ok else .mappingFailed) ∧
        (r.1 = .ok → r.2 = tableCsumVerified) ∧ s.Repeats phys ((s.room - 2) / 2) t := by
  have hsignature := hself.signature
  have hlength := hself.length
  generalize hhdr : loadStruct s.kernel.mem phys 36 = hdr at hsignature hlength ⊢
  have hload : ∀ t, (HeaderSource.copy hdr).load t = .ok (hdr, t) := fun _ => rfl
  have hfacs : uacpiSignaturesMatch (AcpiSdtHdr.signature hdr) (lit "FACS") = false := by
    rw [hsignature]
    decide
  have hfadt : uacpiSignaturesMatch (AcpiSdtHdr.signature hdr) (lit "FACP") = true := by
    rw [hsignature]
    decide
  obtain ⟨mapping, t, hmap, ⟨hextends, ht⟩, htables, hroom', hmapped, hnonzero⟩ :=
    mapTable_spec hs phys ((AcpiSdtHdr.length hdr).setWidth 64)
  have hsize : t.size = s.size := congrArg TableArray.sizeIncludingInline htables
  have hcapacity := hextends.toSameSettings.capacity
  rw [Returns, verifyTable, Proc.bind_apply, hload, ok_bind]
  dsimp only
  rw [hfacs, if_neg Bool.false_ne_true, hfadt, Proc.bind_apply, Proc.get_apply, ok_bind]
  dsimp only
  rw [Bool.or_true, Bool.true_or, Bool.not_true, if_neg Bool.false_ne_true, if_pos rfl,
    Proc.bind_apply, hmap, ok_bind]
  dsimp only
  by_cases hpos : 0 < s.room
  swap
  · -- there is no page to map it with
    have hzero : mapping = 0 := not_not.mp fun h => hpos (hmapped h).1
    rw [if_pos hzero, if_neg (by omega)]
    have hfailed : UacpiStatus.mappingFailed ≠ .ok := by decide
    refine Returns.of_eq (Proc.pure_apply _ t)
      ⟨rfl, fun h => absurd h hfailed, hextends, ht, by omega, ?_, ?_⟩
    · rw [hsize]
      omega
    · intro idx hle hlt
      exact absurd (hle.trans_lt hlt) (by omega)
  have hne := hnonzero hpos hl.nonzero
  rw [if_neg hne, Proc.bind_apply, hload, ok_bind]
  dsimp only
  obtain ⟨serial', hchecksum, hextends', hu⟩ :=
    (uacpiVerifyTableChecksum_prints t mapping (AcpiSdtHdr.length hdr).toNat).spec ht
  have hlt := hl.evolve hs hextends.toEvolves
  rw [hlt.checksumStatus] at hchecksum
  have hsu := hextends.trans hs hextends'
  obtain ⟨ret, v, hinit, hret, hv⟩ := initializeFadt_repeats hrepeats hu
    (hl.evolve hs hsu.toEvolves) (hself.evolve hs hsu.toEvolves)
    (show (t.setSerial serial').room < n from hroom'.trans_lt hroom)
    (show t.size + (t.room - 1) / 2 ≤ t.capacity by rw [hsize, hcapacity, hroom']; omega)
    (((hmapped hne).2).evolve ht hextends'.toEvolves)
  have hverify : verifyMapping install true mapping (AcpiSdtHdr.length hdr).toNat t =
      .ok ((ret, tableCsumVerified), v) := by
    rw [verifyMapping, Proc.bind_apply, hchecksum, ok_bind]
    dsimp only
    rw [if_neg (not_not_intro rfl), if_pos rfl, Proc.bind_apply, hinit]
    rfl
  have hunmap : (Proc.when ((0 : Word) = 0) do
      let h ← (HeaderSource.copy hdr).load
      unmapTable mapping ((AcpiSdtHdr.length h).setWidth 64)) v =
        .ok ((), v.setFrame (v.frame + 1)) := by
    rw [Proc.when, if_pos rfl, Proc.bind_apply, hload, ok_bind]
    exact unmapTable_eq hv.sound _ _
  rw [Proc.bind_apply, hverify, ok_bind]
  dsimp only
  rw [Proc.bind_apply, hunmap, ok_bind]
  have hroom'' : (t.setSerial serial').room = s.room - 1 := hroom'
  have hstatus : ret = if 1 < s.room then .ok else .mappingFailed := by
    rw [hret, hroom'']
    exact if_congr (by omega) rfl rfl
  have hcount : ((t.setSerial serial').room - 1) / 2 = (s.room - 2) / 2 := by
    rw [hroom'', Nat.sub_sub]
  rw [hcount] at hv
  refine Returns.of_eq (Proc.pure_apply _ _) ⟨hstatus, fun _ => rfl, ?_⟩
  exact (hv.before hs hself hsu hsize).after hs
    (hv.sound.setFrame (v.frame + 1)) rfl rfl

/-- One level of the installation. -/
theorem tableInstallPhysicalBody_repeats (hrepeats : RepeatsBelow n phys install) :
    RepeatsBelow (n + 1) phys (tableInstallPhysicalBody install) := by
  intro s expected hs hl hself hroom hplace
  by_cases hpos : 0 < s.room
  swap
  · -- there is no page for the header
    obtain ⟨hdr, t, hread, ⟨hextends, ht⟩, htables, hroom', hhdr, -⟩ :=
      getExternalTableHeader_spec hs phys
    have hsize : t.size = s.size := congrArg TableArray.sizeIncludingInline htables
    have hnone : hdr = none := by
      cases hdr with
      | none => rfl
      | some h => exact absurd (hhdr h rfl).1 hpos
    rw [if_neg hpos]
    refine ⟨(.mappingFailed, none), t, ?_, rfl, hextends, ht, by omega, ?_, ?_⟩
    · rw [tableInstallPhysicalBody, Proc.bind_apply, hread, hnone]
      rfl
    · rw [hsize]
      omega
    · intro idx hle hlt
      exact absurd (hle.trans_lt hlt) (by omega)
  obtain ⟨t, ⟨hextends, ht⟩, htables, hroom', hbody⟩ := tableInstallPhysicalBody_begin hs hl hpos
    (fun i hi => hself.header_outside hi) install .firmwarePhysical expected
  have hsize : t.size = s.size := congrArg TableArray.sizeIncludingInline htables
  have hcapacity := hextends.toSameSettings.capacity
  have hhdr := hextends.toEvolves.loadStruct hs fun i hi => hself.header_outside hi
  obtain ⟨⟨ret, flags⟩, u, hverify, hret, hflags, hu⟩ := verifyTable_repeats hrepeats ht
    (hl.evolve hs hextends.toEvolves) (hself.evolve hs hextends.toEvolves) (by omega)
    (by rw [hsize, hcapacity, hroom']; omega)
  rw [hhdr] at hverify
  rw [hroom', Nat.sub_sub] at hu
  rw [hroom'] at hret
  rw [if_pos hpos, Returns, hbody, Proc.bind_apply, verifyAndInstallTable, Proc.bind_apply, hverify,
    ok_bind]
  dsimp only at hret hflags ⊢
  have hsu := hu.before hs hself hextends hsize
  by_cases hmany : 1 < s.room - 1
  swap
  · -- the verification has found no page
    rw [if_neg hmany] at hret
    rw [hret, if_pos (by decide)]
    refine ⟨(.ok, none), u, rfl, rfl, ?_⟩
    have hcount : (s.room - 1) / 2 = (s.room - (1 + 2)) / 2 := by omega
    rw [hcount]
    exact hsu
  rw [if_pos hmany] at hret
  rw [hret, if_neg (not_not_intro rfl), hflags hret]
  obtain ⟨r, v, hrecord, hinstalls, -, hpmm, hdone, -⟩ :=
    recordTable_spec hsu.sound (.copy (loadStruct s.kernel.mem phys 36)) phys 0 .firmwarePhysical
      none (by decide : tableCsumVerified &&& tableInvalid = 0) fun _ h => absurd h (by decide)
  obtain ⟨hok, hsize', hentry⟩ := hdone (by
    rw [hsu.size, hsu.extend.toSameSettings.capacity]
    omega)
  obtain ⟨hextends', hv⟩ := hinstalls.extends_of_none
  rw [hrecord, ok_bind]
  have hcount : v.size = s.size + (s.room - 1) / 2 := by
    rw [hsize', hsu.size]
    omega
  refine ⟨(.ok, r.2), v, rfl, rfl, hsu.extend.trans hs hextends', hv, ?_, hcount,
    fun idx hle hlt => ?_⟩
  · rw [← hsu.room, Uacpi.room, Uacpi.room, hpmm]
  · rw [hsize'] at hlt
    rcases Nat.lt_succ_iff_lt_or_eq.mp hlt with hold | rfl
    · rw [hextends'.entry idx hold]
      exact hsu.entry idx hle hold
    · exact hentry

/-- **A FADT that names itself as its DSDT is installed from itself until the pages run out**, and
is recorded once for every two pages behind the first one. -/
theorem installNested_returns (depth : Nat) (phys : Word) :
    RepeatsBelow depth phys (tableInstallPhysicalWithOriginUnlocked depth) := by
  induction depth with
  | zero => exact fun s _ _ _ _ hroom => absurd hroom (Nat.not_lt_zero s.room)
  | succ depth ih => exact tableInstallPhysicalBody_repeats ih

end

end

end KptrOS
