import KptrOS.Uacpi.Reports

/-!
# Installation keeps the contract

Whatever firmware lists, the installation of a table returns, and adds to what is installed.
An installation may install another table in turn, and firmware may refer to a table from
itself; each level of this uses up a page for the header of its table, so that it ends at the
latest when the pages run out.

- `Installs`: what an installation leaves behind, and what it does with its `out_table`.
- `verifyAndInstallTable_returns`, `tableInstallPhysicalBody_returns`, …: the functions.
- `tableInstallPhysicalWithOriginUnlocked_returns`: the recursion.
-/

namespace KptrOS

open CSem

/-! ## What an installation leaves behind -/

/-- What has become of `out_table` when the entry `granted` has got a reference for it. -/
def Handed (t : Uacpi) (outTable : Option UacpiTable) (granted : Option Nat)
    (r : Option UacpiTable) : Prop :=
  match granted with
  | none => r = outTable
  | some idx => outTable.isSome ∧ r = some ⟨(t.entry idx).ptr, BitVec.ofNat 64 idx⟩

/-- An installation adds entries, and hands out a reference to one of them at most. -/
def Installs (s : Uacpi) (outTable : Option UacpiTable) (r : UacpiStatus × Option UacpiTable)
    (t : Uacpi) : Prop :=
  t.Sound ∧ ∃ granted, s.Grants t granted ∧ Handed t outTable granted r.2

namespace Installs

variable {s t u : Uacpi} {outTable : Option UacpiTable} {r : UacpiStatus × Option UacpiTable}

theorem of_extends (h : s.Extends t ∧ t.Sound) (ret : UacpiStatus) :
    Installs s outTable (ret, outTable) t := ⟨h.2, none, h.1, rfl⟩

/-- Without an `out_table` there is no reference. -/
theorem extends_of_none (h : Installs s none r t) : s.Extends t ∧ t.Sound := by
  obtain ⟨ht, granted, hgrants, hhanded⟩ := h
  cases granted with
  | none => exact ⟨hgrants, ht⟩
  | some idx => exact absurd hhanded.1 (by decide)

theorem before (hs : s.Sound) (hst : s.Extends t) (h : Installs t outTable r u) :
    Installs s outTable r u := by
  obtain ⟨hu, granted, hgrants, hhanded⟩ := h
  exact ⟨hu, granted, Uacpi.Grants.trans hs hst hgrants (.inl rfl), hhanded⟩

theorem after (hs : s.Sound) (h : Installs s outTable r t) (htu : t.Extends u ∧ u.Sound)
    (ret : UacpiStatus) : Installs s outTable (ret, r.2) u := by
  obtain ⟨ht, granted, hgrants, hhanded⟩ := h
  refine ⟨htu.2, granted, ?_, ?_⟩
  · have hboth := hgrants.trans hs htu.1 (.inr rfl)
    cases granted with
    | none => exact hboth
    | some idx => exact hboth
  · cases granted with
    | none => exact hhanded
    | some idx =>
      rw [Handed, htu.1.entry idx (hgrants.granted_new idx rfl).2]
      exact hhanded

end Installs

/-- The installation returns while fewer than `n` pages can be taken. -/
def InstallsBelow (n : Nat) (install : PhysicalInstall) : Prop :=
  ∀ phys origin expected outTable s, s.Sound → s.room < n →
    Returns (install phys origin expected outTable) s (Installs s outTable)

/-! ## Headers -/

/-- The header that is loaded. -/
def HeaderSource.value (hdr : HeaderSource) (s : Uacpi) : AcpiSdtHdr :=
  match hdr with
  | .copy hdr => hdr
  | .memory virt => loadStruct s.kernel.mem virt 36

theorem HeaderSource.load_eq (hdr : HeaderSource) (s : Uacpi) :
    hdr.load s = .ok (hdr.value s, s) := by
  cases hdr with
  | copy hdr => rfl
  | memory virt => rfl

section

variable {n : Nat} {s : Uacpi}

theorem HeaderSource.load_kept (hdr : HeaderSource) : (tablesBelow n).Kept hdr.load := fun s hs =>
  .of_eq (hdr.load_eq s) ⟨.refl s, hs.1⟩

/-- The header is read from a page that is used up for it. -/
theorem getExternalTableHeader_spec (hs : s.Sound) (physAddr : Word) :
    Returns (getExternalTableHeader physAddr) s fun hdr t => (s.Extends t ∧ t.Sound) ∧
      t.tables = s.tables ∧ t.room = s.room - 1 ∧
      (∀ h ∈ hdr, 0 < s.room ∧ ((∀ i, i < 36 → s.Outside (offset physAddr i)) →
        h = loadStruct s.kernel.mem physAddr 36)) ∧
      (0 < s.room → ¬ s.kernel.pmm.Tracked 0 → hdr ≠ none) := by
  obtain ⟨virt, t, hmap, ⟨hextends, ht⟩, htables, hroom, hmapped, hnonzero⟩ :=
    mapTable_spec hs physAddr 36
  by_cases hvirt : virt = 0
  · refine .of_eq (a := none) (t := t) ?_ ⟨⟨hextends, ht⟩, htables, hroom, nofun,
      fun hpos hzero => absurd hvirt (hnonzero hpos hzero)⟩
    rw [getExternalTableHeader, Proc.bind_apply, hmap, ok_bind]
    dsimp only
    rw [if_pos hvirt]
    rfl
  · obtain ⟨hpos, hmapsTo⟩ := hmapped hvirt
    have hrun : getExternalTableHeader physAddr s =
        .ok (some (loadStruct t.kernel.mem virt 36), t.setFrame (t.frame + 1)) := by
      rw [getExternalTableHeader, Proc.bind_apply, hmap, ok_bind]
      dsimp only
      rw [if_neg hvirt, Proc.bind_apply, loadAt_eq, ok_bind]
      dsimp only
      rw [Proc.bind_apply, unmapTable_eq ht, ok_bind]
      rfl
    obtain ⟨hextends', ht'⟩ := ht.setFrame (t.frame + 1)
    refine .of_eq hrun ⟨⟨hextends.trans hs hextends', ht'⟩, htables, hroom, fun h hh => ?_,
      fun _ _ => Option.some_ne_none _⟩
    obtain rfl := Option.some.inj hh
    refine ⟨hpos, fun hout => loadStruct_congr fun i hi => ?_⟩
    have hout' := (hextends.outside_iff hs _).mpr (hout i hi)
    rw [hmapsTo.copy i (hi.trans (by decide)) hout',
      hextends.frame _ (hs.spared_of_outside (hout i hi))]

/-! ## Verification -/

theorem Uacpi.Sound.setFadt (hs : s.Sound) (fadt : AcpiFadt) :
    s.Extends (s.setFadt fadt) ∧ (s.setFadt fadt).Sound :=
  hs.idle (.refl _) rfl rfl ⟨rfl, rfl, rfl, rfl, rfl, rfl, rfl, rfl⟩

theorem finishFadt_kept (ret : UacpiStatus) : (tablesBelow n).Kept (finishFadt ret) := by
  intro s hs
  by_cases hret : ret ≠ .ok ∧ ret ≠ .overridden
  · exact .of_eq (finishFadt_of_ne hret s) ⟨.refl s, hs.1⟩
  · exact .of_eq (finishFadt_eq (by tauto) s) (hs.1.setFadt _)

theorem initializeFadt_kept {install : Word → Proc Uacpi UacpiStatus}
    (hinstall : ∀ x, (tablesBelow n).Kept (install x)) (virt : Word) :
    (tablesBelow n).Kept (initializeFadt install virt) := by
  intro s hs
  obtain ⟨serial', fadt, -, hruns, hrun⟩ := initializeFadt_eq install virt s
  have hserial := hs.1.setSerial hruns
  have hfadt := hserial.2.setFadt fadt
  have hkept : (tablesBelow n).Kept
      ((if fadt.xDsdt ≠ 0 then install fadt.xDsdt else pure .ok) >>= finishFadt) :=
    .bind (.ite (fun _ => hinstall _) fun _ => .pure _) finishFadt_kept
  obtain ⟨a, u, hu, hstep⟩ :=
    hkept.after hs (t := (s.setSerial serial').setFadt fadt)
      ⟨hserial.1.trans hs.1 hfadt.1, hfadt.2⟩
  exact ⟨a, u, hrun.trans hu, hstep⟩

variable {install : PhysicalInstall}

theorem installDsdt_kept (hinstall : InstallsBelow n install) (xDsdt : Word) :
    (tablesBelow n).Kept (installDsdt install xDsdt) := fun s hs =>
  (hinstall xDsdt .firmwarePhysical (some "DSDT") none s hs.1 hs.2).bind fun _ _ h =>
    .pure h.extends_of_none

/-- A verdict with flags of a valid table. -/
theorem verdict_returns (ret : UacpiStatus) {flags : Byte} (hflags : flags &&& tableInvalid = 0)
    (hs : (tablesBelow n).inv s) :
    Returns (pure (ret, flags) : Proc Uacpi (UacpiStatus × Byte)) s fun r t =>
      (tablesBelow n).step s t ∧ r.2 &&& tableInvalid = 0 := .pure ⟨⟨.refl s, hs.1⟩, hflags⟩

theorem verifyMapping_returns (hinstall : InstallsBelow n install) (isFadt : Bool)
    (mapping : Word) (length : Nat) (hs : (tablesBelow n).inv s) :
    Returns (verifyMapping install isFadt mapping length) s fun r t =>
      (tablesBelow n).step s t ∧ r.2 &&& tableInvalid = 0 := by
  rw [verifyMapping]
  refine (uacpiVerifyTableChecksum_kept mapping length).bind_returns hs fun ret t ht => ?_
  by_cases hret : ret = .ok
  · rw [if_neg (not_not_intro hret)]
    have hfadt : (tablesBelow n).Kept
        (if isFadt = true then initializeFadt (installDsdt install) mapping else pure .ok) :=
      .ite (fun _ => initializeFadt_kept (installDsdt_kept hinstall) mapping) fun _ => .pure _
    exact hfadt.bind_returns ht fun ret u hu => verdict_returns ret (by decide) hu
  · rw [if_pos hret]
    exact verdict_returns ret (by decide) ht

theorem verifyTable_returns (hinstall : InstallsBelow n install) (hdr : HeaderSource)
    (physAddr virtAddr : Word) (outTable : Option UacpiTable) (hs : (tablesBelow n).inv s) :
    Returns (verifyTable install hdr physAddr virtAddr outTable) s fun r t =>
      (tablesBelow n).step s t ∧ r.2 &&& tableInvalid = 0 := by
  rw [verifyTable]
  refine hdr.load_kept.bind_returns hs fun h s hs => ?_
  dsimp only
  by_cases hfacs : uacpiSignaturesMatch h.signature (lit "FACS") = true
  · rw [if_pos hfacs]
    exact verdict_returns _ (by decide) hs
  rw [if_neg hfacs]
  refine Contract.Kept.get.bind_returns hs fun a s hs => ?_
  by_cases hskip : (!(a.checkFlag flagProactiveTblCsum ||
      uacpiSignaturesMatch h.signature (lit "FACP") || outTable.isSome)) = true
  · rw [if_pos hskip]
    exact verdict_returns _ (by decide) hs
  rw [if_neg hskip]
  have hmap : (tablesBelow n).Kept (if virtAddr = 0 then
      mapTable physAddr (h.length.setWidth 64) else pure virtAddr) :=
    .ite (fun _ => mapTable_kept _ _) fun _ => .pure _
  refine hmap.bind_returns hs fun mapping s hs => ?_
  by_cases hmapping : mapping = 0
  · rw [if_pos hmapping]
    exact verdict_returns _ (by decide) hs
  rw [if_neg hmapping]
  refine hdr.load_kept.bind_returns hs fun h s hs => ?_
  refine Contract.bind hs (verifyMapping_returns hinstall _ _ _ hs) fun r s hs hr => ?_
  have hunmap : (tablesBelow n).Kept (Proc.when (virtAddr = 0) do
      let h ← hdr.load
      unmapTable mapping (h.length.setWidth 64)) :=
    .when fun _ => .bind hdr.load_kept fun _ => unmapTable_kept _ _
  exact hunmap.bind_returns hs fun _ s hs => verdict_returns r.1 hr hs

end

/-! ## A new entry -/

section

variable {s : Uacpi}

theorem tableAlloc_of_lt (hroom : s.size < s.capacity) :
    tableAlloc s = .ok ((.ok, s.size), s.grow) := by
  rw [Uacpi.capacity] at hroom
  rw [tableAlloc, Proc.bind_apply, Proc.get_apply, ok_bind]
  dsimp only
  rw [if_neg (by rw [Uacpi.capacity]; omega), Proc.bind_apply, tableArrayAlloc, Proc.bind_apply,
    Proc.get_apply, ok_bind]
  dsimp only
  rw [if_neg (by omega)]
  rfl

theorem tableAlloc_of_full (hfull : s.size = s.capacity) :
    Prints tableAlloc s (.outOfMemory, 0) := by
  rw [tableAlloc]
  refine .get ?_
  by_cases hearly : s.earlyTableAccess = true ∧ s.size = s.capacity
  · rw [if_pos hearly]
    exact (uacpiLogLvl_prints .warn exhaustedMessage exhaustedMessage_suits).map fun _ => _
  · rw [if_neg hearly]
    refine ⟨s.kernel.serial, ?_, .refl _⟩
    rw [Uacpi.capacity] at hfull
    rw [Proc.bind_apply, tableArrayAlloc, Proc.bind_apply, Proc.get_apply, ok_bind]
    dsimp only
    rw [if_pos (by omega)]
    rfl

/-- The state with another value of `is_rev1`. -/
def Uacpi.setIsRev1 (s : Uacpi) (isRev1 : Bool) : Uacpi := { s with isRev1 := isRev1 }

theorem noteRevision_eq (c : Prop) [Decidable c] (isRev1 : Bool) (s : Uacpi) :
    ∃ b, (Proc.when c (modify fun s => { s with isRev1 := isRev1 }) : Proc Uacpi PUnit) s =
      .ok (⟨⟩, s.setIsRev1 b) := by
  by_cases hc : c
  · exact ⟨isRev1, by rw [Proc.when, if_pos hc]; rfl⟩
  · exact ⟨s.isRev1, by rw [Proc.when, if_neg hc]; rfl⟩

/-- The entry that an installation writes. -/
def recordedTable (hdr : AcpiSdtHdr) (physAddr virtAddr : Word) (origin : TableOrigin)
    (count : BitVec 16) (flags : Byte) : InstalledTable where
  physAddr := physAddr
  hdr := hdr
  ptr := virtAddr
  referenceCount := count
  flags := flags
  origin := origin.code

theorem recordedTable_isPhysical {hdr : AcpiSdtHdr} {physAddr virtAddr : Word}
    {origin : TableOrigin} {count : BitVec 16} {flags : Byte}
    (h : (recordedTable hdr physAddr virtAddr origin count flags).IsPhysical) :
    origin ≠ .hostVirtual := by
  rintro rfl
  rcases h with h | h
  · exact absurd h (by decide : TableOrigin.hostVirtual.code ≠ TableOrigin.hostPhysical.code)
  · exact absurd h (by decide : TableOrigin.hostVirtual.code ≠ TableOrigin.firmwarePhysical.code)

/-- The state in which an entry is added: it differs from `s` in what is printed and in
`is_rev1`. -/
theorem recordTable_begin (hs : s.Sound) (hroom : s.size < s.capacity) (hdr : HeaderSource)
    (physAddr virtAddr : Word) (origin : TableOrigin) (outTable : Option UacpiTable)
    (flags : Byte) :
    ∃ u : Uacpi, (s.Extends u ∧ u.Sound) ∧ u.tables = s.tables ∧ u.fadt = s.fadt ∧
      u.kernel.pmm = s.kernel.pmm ∧
      recordTable hdr physAddr virtAddr origin outTable flags s = (do
        modifyTable u.size fun _ =>
          recordedTable (hdr.value s) physAddr virtAddr origin 0 flags
        if outTable.isNone then return (.ok, none)
        modifyTable u.size fun t => { t with referenceCount := t.referenceCount + 1 }
        return (.ok, some ⟨virtAddr, BitVec.ofNat 64 u.size⟩) :
          Proc Uacpi (UacpiStatus × Option UacpiTable)) u.grow := by
  obtain ⟨b, hrev⟩ := noteRevision_eq
    (uacpiSignaturesMatch (hdr.value s).signature (lit "DSDT") = true)
    ((hdr.value s).revision.toNat < 2) s
  obtain ⟨serial', hdump, hruns⟩ :=
    dumpTableHeader_prints (s.setIsRev1 b).grow physAddr (hdr.value s)
  have hvalue : hdr.value (s.setIsRev1 b).grow = hdr.value s := by cases hdr <;> rfl
  refine ⟨(s.setIsRev1 b).setSerial serial', hs.idle hruns rfl rfl
    ⟨rfl, rfl, rfl, rfl, rfl, rfl, rfl, rfl⟩, rfl, rfl, rfl, ?_⟩
  rw [recordTable, Proc.bind_apply, hdr.load_eq, ok_bind]
  dsimp only
  rw [Proc.bind_apply, hrev, ok_bind]
  dsimp only
  rw [Proc.bind_apply, tableAlloc_of_lt (s := s.setIsRev1 b) hroom, ok_bind]
  dsimp only
  rw [if_neg (not_not_intro rfl), Proc.bind_apply, hdr.load_eq, ok_bind, hvalue]
  dsimp only
  rw [Proc.bind_apply, hdump, ok_bind]
  rfl

/-- **A table is recorded behind the others**, if there is a place for it. -/
theorem recordTable_spec (hs : s.Sound) (hdr : HeaderSource) (physAddr virtAddr : Word)
    (origin : TableOrigin) (outTable : Option UacpiTable) {flags : Byte}
    (hflags : flags &&& tableInvalid = 0)
    (hvirt : origin ≠ .hostVirtual → outTable.isSome → s.MapsTo virtAddr physAddr) :
    Returns (recordTable hdr physAddr virtAddr origin outTable flags) s fun r t =>
      Installs s outTable r t ∧ t.fadt = s.fadt ∧ t.kernel.pmm = s.kernel.pmm ∧
        (s.size < s.capacity → r.1 = .ok ∧ t.size = s.size + 1 ∧ t.entry s.size =
          recordedTable (hdr.value s) physAddr virtAddr origin (if outTable.isSome then 1 else 0)
            flags) ∧
        (s.size = s.capacity → r.1 = .outOfMemory ∧ t.size = s.size) := by
  rcases Nat.lt_or_eq_of_le hs.size_le with hroom | hfull
  · obtain ⟨u, ⟨hextends, hu⟩, htables, hfadt, hpmm, hrun⟩ :=
      recordTable_begin hs hroom hdr physAddr virtAddr origin outTable flags
    have hsize : u.size = s.size := congrArg TableArray.sizeIncludingInline htables
    have hcapacity : u.size < u.capacity := by
      rw [hsize, hextends.toSameSettings.capacity]
      exact hroom
    let table := recordedTable (hdr.value s) physAddr virtAddr origin 0 flags
    have hvalid : table.flags &&& tableInvalid = 0 := hflags
    obtain ⟨hpush, ht⟩ := hu.push hcapacity hvalid rfl
    have hgrown : (u.grow.setEntry u.size table).size = s.size + 1 := by
      rw [Uacpi.size_setEntry, ← hsize]
      rfl
    have hwrite : modifyTable u.size (fun _ => table) u.grow =
        .ok ((), u.grow.setEntry u.size table) := modifyTable_eq (Nat.lt_succ_self _) _
    cases outTable with
    | none =>
      refine .of_eq (a := (.ok, none)) (t := u.grow.setEntry u.size table) ?_
        ⟨.of_extends ⟨hextends.trans hs hpush, ht⟩ .ok, ?_, ?_, fun _ => ⟨rfl, hgrown, ?_⟩,
          fun h => absurd h (Nat.ne_of_lt hroom)⟩
      · rw [hrun, Proc.bind_apply, hwrite]
        rfl
      · rw [← hfadt, Uacpi.setEntry]
        split <;> rfl
      · rw [Uacpi.pmm_setEntry, ← hpmm]
        rfl
      · rw [← hsize, Uacpi.entry_setEntry_self]
        rfl
    | some out =>
      have hmapped : (u.grow.setEntry u.size table).Mapped
          { table with referenceCount := 1 } := fun hphysical _ =>
        ((hvirt (recordedTable_isPhysical hphysical) rfl).evolve hs hextends.toEvolves).evolve hu
          hpush.toEvolves
      have hself := u.grow.entry_setEntry_self u.size table
      obtain ⟨hgrants, hsound⟩ := Uacpi.Grants.grant hs (hextends.trans hs hpush) ht hsize.ge
        (by rw [hgrown, hsize]; exact Nat.lt_succ_self _) (by rw [hself]) hmapped
      refine .of_eq (a := (.ok, some ⟨virtAddr, BitVec.ofNat 64 u.size⟩))
        (t := (u.grow.setEntry u.size table).setEntry u.size { table with referenceCount := 1 }) ?_
        ⟨⟨hsound, some u.size, hgrants, rfl, ?_⟩, ?_, ?_, fun _ => ⟨rfl, ?_, ?_⟩,
          fun h => absurd h (Nat.ne_of_lt hroom)⟩
      · rw [hrun, Proc.bind_apply, hwrite, ok_bind]
        dsimp only
        rw [if_neg (show ¬ (some out).isNone = true from Bool.false_ne_true), Proc.bind_apply,
          modifyTable_eq
          (by rw [hgrown, hsize]; exact Nat.lt_succ_self _), hself]
        rfl
      · rw [Uacpi.entry_setEntry_self]
        rfl
      · rw [← hfadt, Uacpi.setEntry, Uacpi.setEntry]
        split <;> rfl
      · rw [Uacpi.pmm_setEntry, Uacpi.pmm_setEntry, ← hpmm]
        rfl
      · rw [Uacpi.size_setEntry, hgrown]
      · rw [← hsize, Uacpi.entry_setEntry_self]
        rfl
  · obtain ⟨b, hrev⟩ := noteRevision_eq
      (uacpiSignaturesMatch (hdr.value s).signature (lit "DSDT") = true)
      ((hdr.value s).revision.toNat < 2) s
    obtain ⟨serial', halloc, hruns⟩ := tableAlloc_of_full (s := s.setIsRev1 b) hfull
    refine .of_eq (a := (.outOfMemory, outTable)) (t := (s.setIsRev1 b).setSerial serial') ?_
      ⟨.of_extends (hs.idle hruns rfl rfl ⟨rfl, rfl, rfl, rfl, rfl, rfl, rfl, rfl⟩) .outOfMemory,
        rfl, rfl, fun h => absurd hfull (Nat.ne_of_lt h), fun _ => ⟨rfl, rfl⟩⟩
    rw [recordTable, Proc.bind_apply, hdr.load_eq, ok_bind]
    dsimp only
    rw [Proc.bind_apply, hrev, ok_bind]
    dsimp only
    rw [Proc.bind_apply, halloc, ok_bind]
    rfl

end

/-! ## Installation -/

section

variable {n : Nat} {s : Uacpi} {install : PhysicalInstall}

/-- Sequencing rule: what is done first installs nothing. -/
theorem Installs.bind {α : Type} {outTable : Option UacpiTable} {m : Proc Uacpi α}
    {f : α → Proc Uacpi (UacpiStatus × Option UacpiTable)} {Q : α → Uacpi → Prop}
    (hs : (tablesBelow n).inv s)
    (hm : Returns m s fun a t => (s.Extends t ∧ t.Sound) ∧ Q a t)
    (hf : ∀ a t, (tablesBelow n).inv t → s.Extends t → Q a t →
      Returns (f a) t (Installs t outTable)) :
    Returns (m >>= f) s (Installs s outTable) :=
  hm.bind fun a t h => (hf a t ((tablesBelow n).inv_step s t hs h.1) h.1.1 h.2).mono
    fun _ _ h' => h'.before hs.1 h.1.1

/-- A message, and a status. -/
theorem Installs.report {outTable : Option UacpiTable} (hs : s.Sound) (lvl : UacpiLogLevel)
    (message : Message) {args : List Arg} (hsuits : message.Suits args) (ret : UacpiStatus) :
    Returns (do
      uacpiLogLvl lvl message args
      return (ret, outTable) : Proc Uacpi (UacpiStatus × Option UacpiTable)) s
        (Installs s outTable) :=
  ((uacpiLogLvl_prints lvl message hsuits).returns hs).bind fun _ _ h => .pure (.of_extends h.1 ret)

theorem verifyAndInstallTable_returns (hinstall : InstallsBelow n install) (hdr : HeaderSource)
    (physAddr virtAddr : Word) (origin : TableOrigin) (outTable : Option UacpiTable)
    (hs : (tablesBelow n).inv s)
    (hvirt : origin ≠ .hostVirtual → outTable.isSome → s.MapsTo virtAddr physAddr) :
    Returns (verifyAndInstallTable install hdr physAddr virtAddr origin outTable) s
      (Installs s outTable) := by
  rw [verifyAndInstallTable]
  refine Installs.bind hs (verifyTable_returns hinstall hdr physAddr virtAddr outTable hs)
    fun r t ht hextends hflags => ?_
  obtain ⟨ret, flags⟩ := r
  dsimp only
  by_cases hret : ret = .ok
  · rw [if_neg (not_not_intro hret)]
    exact (recordTable_spec ht.1 hdr physAddr virtAddr origin outTable hflags fun horigin hout =>
      (hvirt horigin hout).evolve hs.1 hextends.toEvolves).mono fun _ _ h => h.1
  · rw [if_pos hret]
    exact .pure (.of_extends ⟨.refl t, ht.1⟩ ret)

theorem tableInstallWithOriginUnlocked_returns (hinstall : InstallsBelow n install) (virt : Word)
    (outTable : Option UacpiTable) (hs : (tablesBelow n).inv s) :
    Returns (tableInstallWithOriginUnlocked install virt .hostVirtual outTable) s
      (Installs s outTable) := by
  rw [tableInstallWithOriginUnlocked]
  refine Installs.bind (Q := fun _ _ => True) hs
    (.of_eq (loadAt_eq virt 36) ⟨⟨.refl s, hs.1⟩, trivial⟩) fun hdr t ht _ _ => ?_
  by_cases hlength : (AcpiSdtHdr.length hdr).toNat < 36
  · rw [if_pos hlength]
    exact Installs.report ht.1 _ _ (tableLengthMessage_suits hdr _ _) _
  · rw [if_neg hlength]
    exact verifyAndInstallTable_returns hinstall _ _ _ _ _ ht fun h => absurd rfl h

theorem handleTableOverride_returns (hinstall : InstallsBelow n install)
    (disposition : Disposition) (address : Word) (outTable : Option UacpiTable)
    (hs : (tablesBelow n).inv s) :
    Returns (handleTableOverride install disposition address outTable) s
      (Installs s outTable) := by
  cases disposition with
  | virtualOverride => exact tableInstallWithOriginUnlocked_returns hinstall address outTable hs
  | physicalOverride => exact hinstall address .hostPhysical none outTable s hs.1 hs.2
  | allow => exact Installs.report hs.1 _ _ (dispositionMessage_suits _) _
  | deny => exact Installs.report hs.1 _ _ (dispositionMessage_suits _) _
  | invalid code hcode => exact Installs.report hs.1 _ _ (dispositionMessage_suits _) _

theorem installOrOverride_returns (hinstall : InstallsBelow n install) (hdr : AcpiSdtHdr)
    (phys virt : Word) (origin : TableOrigin) (outTable : Option UacpiTable)
    (hs : (tablesBelow n).inv s)
    (hvirt : origin ≠ .hostVirtual → outTable.isSome → s.MapsTo virt phys) :
    Returns (installOrOverride install hdr phys virt origin outTable) s (Installs s outTable) := by
  rw [installOrOverride]
  refine Installs.bind (Q := fun a t => a = s ∧ t = s) hs
    (.get ⟨⟨.refl s, hs.1⟩, rfl, rfl⟩) fun a t ht _ h => ?_
  obtain ⟨rfl, rfl⟩ := h
  have hplain := verifyAndInstallTable_returns hinstall (.copy hdr) phys virt origin outTable ht
    hvirt
  dsimp only
  split
  · split
    · exact hplain
    · exact Installs.report ht.1 _ _ (deniedMessage_suits hdr phys) _
    · refine Installs.bind ht ((uacpiLogLvl_prints _ _ (overriddenMessage_suits hdr phys)).returns
        ht.1) fun _ u hu _ _ => ?_
      exact (handleTableOverride_returns hinstall _ _ outTable hu).bind fun r v hv =>
        .pure (hv.after hu.1 ⟨.refl v, hv.1⟩ _)
  · exact hplain

/-- The mapping of the table that is being installed, if it is needed. -/
theorem mapWhen_returns (mapped : Bool) (phys len : Word) (hs : s.Sound) :
    Returns (if mapped = true then mapTable phys len else pure 0) s fun virt t =>
      (s.Extends t ∧ t.Sound) ∧ (mapped = true → virt ≠ 0 → t.MapsTo virt phys) := by
  cases mapped with
  | false => exact .pure ⟨⟨.refl s, hs⟩, fun h => absurd h Bool.false_ne_true⟩
  | true => exact (mapTable_spec hs phys len).mono fun virt t h => ⟨h.1, fun _ hvirt =>
      (h.2.2.2.1 hvirt).2⟩

/-- **One level of an installation** uses up a page, or ends there. -/
theorem tableInstallPhysicalBody_returns (hinstall : InstallsBelow n install) :
    InstallsBelow (n + 1) (tableInstallPhysicalBody install) := by
  intro phys origin expected outTable s hs hroom
  rw [tableInstallPhysicalBody]
  refine (getExternalTableHeader_spec hs phys).bind fun hdr t h => ?_
  obtain ⟨⟨hextends, ht⟩, -, hroom', hhdr, -⟩ := h
  refine Returns.mono (Q := Installs t outTable) ?_ fun _ _ h => h.before hs hextends
  cases hdr with
  | none => exact .pure (.of_extends ⟨.refl t, ht⟩ _)
  | some hdr =>
    have hbelow : (tablesBelow n).inv t := ⟨ht, by have := (hhdr hdr rfl).1; omega⟩
    dsimp only
    refine Installs.bind hbelow ((bogus_prints t hdr phys).returns ht) fun _ u hu _ _ => ?_
    refine Installs.bind hu ((checkExpected_prints u hdr expected).returns hu.1)
      fun ret v hv _ _ => ?_
    by_cases hret : ret = .ok
    · rw [if_neg (not_not_intro hret)]
      refine Installs.bind (Q := fun _ _ => True) hv (.get ⟨⟨.refl v, hv.1⟩, trivial⟩)
        fun a w hw _ _ => ?_
      refine Installs.bind hw (mapWhen_returns _ phys _ hw.1) fun virt x hx _ hvirt => ?_
      generalize hmapped : (a.installationHandler.isSome || outTable.isSome) = mapped at hvirt ⊢
      by_cases hfail : mapped = true ∧ virt = 0
      · rw [if_pos hfail]
        exact .pure (.of_extends ⟨.refl x, hx.1⟩ _)
      rw [if_neg hfail]
      refine (installOrOverride_returns hinstall hdr phys virt origin outTable hx
        fun _ hout => ?_).bind fun r y hy => ?_
      · have hmap : mapped = true := by rw [← hmapped, hout, Bool.or_true]
        exact hvirt hmap fun hzero => hfail ⟨hmap, hzero⟩
      · obtain ⟨ret, out'⟩ := r
        dsimp only
        by_cases hdone : ret = .ok ∧ out'.isSome = true
        · rw [if_pos hdone]
          exact .pure hy
        · rw [if_neg hdone]
          have hunmap : (tablesBelow (y.room + 1)).Kept
              (Proc.when (virt ≠ 0) (unmapTable virt (hdr.length.setWidth 64))) :=
            .when fun _ => unmapTable_kept _ _
          exact (hunmap y ⟨hy.1, Nat.lt_succ_self _⟩).bind fun _ z hz => .pure (hy.after hx.1 hz _)
    · rw [if_pos hret]
      exact .pure (.of_extends ⟨.refl v, hv.1⟩ _)

end

/-- **Installations end**: as deep as there are pages is deep enough. -/
theorem tableInstallPhysicalWithOriginUnlocked_returns (depth : Nat) :
    InstallsBelow depth (tableInstallPhysicalWithOriginUnlocked depth) := by
  induction depth with
  | zero => exact fun _ _ _ _ _ _ hroom => absurd hroom (Nat.not_lt_zero _)
  | succ depth ih => exact tableInstallPhysicalBody_returns ih

end KptrOS
