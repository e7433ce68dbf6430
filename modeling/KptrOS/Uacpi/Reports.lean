import KptrOS.Uacpi.Contract
import KptrOS.Uacpi.Tables

/-!
# Checks and reports of the table code

Functions that look at a table and may print a message.

- `Prints`: such a function returns a given value and changes the serial output at most.
- `dumpTableHeader_prints`, `uacpiVerifyTableChecksum_prints`, `uacpiCheckTableSignature_prints`:
  the results of the checks, as functions of the state.
- `fadtEnsureCorrectRevision_eq`, `initializeFadt_eq`: functions that print on the way.
- `initializeFadt_initialized`: what `initialize_fadt` leaves in the copy of the FADT.
-/

namespace KptrOS

open CSem

/-! ## Messages with their arguments -/

section

variable (hdr : Struct 36) (a b c : Word)

theorem facsMessage_suits : facsMessage.Suits [.word a, .word b] := by
  simp [Message.Suits, facsMessage]

theorem rsdpMessage_suits :
    rsdpMessage.Suits [.word a, .word b, .word c, .str (hdr.pointer 9)] := by
  simp [Message.Suits, rsdpMessage, Struct.pointer_length]

theorem sdtMessage_suits : sdtMessage.Suits [.str (hdr.pointer 0), .word a, .word b, .word c,
    .str (hdr.pointer 10), .str (hdr.pointer 16)] := by
  simp [Message.Suits, sdtMessage, Struct.pointer_length]

theorem checksumMessage_suits : checksumMessage.Suits (AcpiSdtHdr.fmtTblHdr hdr ++ [.word a]) := by
  simp [Message.Suits, checksumMessage, uacpiPriTblHdr, AcpiSdtHdr.fmtTblHdr,
    Struct.pointer_length]

theorem signatureMessage_suits (expect : String) :
    signatureMessage.Suits (AcpiSdtHdr.fmtTblHdr hdr ++ [.str (cstr expect)]) := by
  have hterm : 0#8 ∈ cstr expect := zero_mem_cstr expect
  simp [Message.Suits, signatureMessage, uacpiPriTblHdr, AcpiSdtHdr.fmtTblHdr,
    Struct.pointer_length, hterm]

theorem exhaustedMessage_suits : exhaustedMessage.Suits [] := by
  simp [Message.Suits, exhaustedMessage]

theorem dispositionMessage_suits : dispositionMessage.Suits [.word a] := by
  simp [Message.Suits, dispositionMessage]

theorem bogusMessage_suits :
    bogusMessage.Suits [.str (hdr.pointer 0), .word a, .word b] := by
  simp [Message.Suits, bogusMessage, Struct.pointer_length]

theorem deniedMessage_suits : deniedMessage.Suits [.str (hdr.pointer 0), .word a] := by
  simp [Message.Suits, deniedMessage, Struct.pointer_length]

theorem overriddenMessage_suits : overriddenMessage.Suits [.str (hdr.pointer 0), .word a] := by
  simp [Message.Suits, overriddenMessage, Struct.pointer_length]

theorem tableLengthMessage_suits :
    tableLengthMessage.Suits [.str (hdr.pointer 0), .word a, .word b] := by
  simp [Message.Suits, tableLengthMessage, Struct.pointer_length]

theorem fadtNewerMessage_suits : fadtNewerMessage.Suits [.word a, .word b] := by
  simp [Message.Suits, fadtNewerMessage]

theorem fadtLengthMessage_suits : fadtLengthMessage.Suits [.word a, .word b, .word c] := by
  simp [Message.Suits, fadtLengthMessage]

theorem nullRxsdtMessage_suits : nullRxsdtMessage.Suits [] := by
  simp [Message.Suits, nullRxsdtMessage]

theorem versionMessage_suits : versionMessage.Suits [.word a, .word b, .word c] := by
  simp [Message.Suits, versionMessage]

end

/-! ## Functions that print at most -/

section

variable {α β : Type} {s : Uacpi}

/-- The function returns `a`, and at most the serial output has changed. -/
def Prints (m : Proc Uacpi α) (s : Uacpi) (a : α) : Prop :=
  ∃ serial', m s = .ok (a, s.setSerial serial') ∧
    s.kernel.Runs (s.setSerial serial').kernel

theorem Prints.pure (a : α) : Prints (pure a) s a := ⟨s.kernel.serial, rfl, .refl _⟩

theorem uacpiLogLvl_prints (lvl : UacpiLogLevel) (message : Message) {args : List Arg}
    (hsuits : message.Suits args) : Prints (uacpiLogLvl lvl message args) s () :=
  uacpiLogLvl_eq s lvl message hsuits

/-- Something is printed, and a value is returned. -/
theorem Prints.map {m : Proc Uacpi α} {a : α} (h : Prints m s a) (f : α → β) :
    Prints (m >>= fun a => Pure.pure (f a)) s (f a) := by
  obtain ⟨serial', hrun, hruns⟩ := h
  refine ⟨serial', ?_, hruns⟩
  rw [Proc.bind_apply, hrun]
  rfl

theorem Prints.get {f : Uacpi → Proc Uacpi α} {a : α} (h : Prints (f s) s a) :
    Prints (MonadState.get >>= f) s a := h

theorem Prints.ite {c : Prop} [Decidable c] {m m' : Proc Uacpi α} {a a' : α}
    (h : c → Prints m s a) (h' : ¬ c → Prints m' s a') :
    Prints (if c then m else m') s (if c then a else a') := by
  by_cases hc : c
  · rw [if_pos hc, if_pos hc]
    exact h hc
  · rw [if_neg hc, if_neg hc]
    exact h' hc

theorem Prints.when {c : Prop} [Decidable c] {m : Proc Uacpi PUnit} (h : c → Prints m s ⟨⟩) :
    Prints (Proc.when c m) s ⟨⟩ := by
  by_cases hc : c
  · rw [Proc.when, if_pos hc]
    exact h hc
  · rw [Proc.when, if_neg hc]
    exact .pure _

/-- What a function that prints keeps. -/
theorem Prints.spec {m : Proc Uacpi α} {a : α} (h : Prints m s a) (hs : s.Sound) :
    ∃ serial', m s = .ok (a, s.setSerial serial') ∧
      s.Extends (s.setSerial serial') ∧ (s.setSerial serial').Sound := by
  obtain ⟨serial', hrun, hruns⟩ := h
  exact ⟨serial', hrun, hs.setSerial hruns⟩

theorem Prints.returns {m : Proc Uacpi α} {a : α} (h : Prints m s a) (hs : s.Sound) :
    Returns m s fun b t => (s.Extends t ∧ t.Sound) ∧ b = a := by
  obtain ⟨serial', hrun, hkept⟩ := h.spec hs
  exact .of_eq hrun ⟨hkept, rfl⟩

theorem Prints.kept {n : Nat} {m : Proc Uacpi α} {f : Uacpi → α} (h : ∀ s, Prints m s (f s)) :
    (tablesBelow n).Kept m :=
  fun s hs => ((h s).returns hs.1).mono fun _ _ h => h.1

end

/-! ## The checks -/

section

variable (s : Uacpi)

theorem dumpTableHeader_prints (physAddr : Word) (hdr : Struct 36) :
    Prints (dumpTableHeader physAddr hdr) s () := by
  rw [dumpTableHeader]
  dsimp only
  split
  · exact uacpiLogLvl_prints _ _ (facsMessage_suits _ _)
  · split
    · exact uacpiLogLvl_prints _ _ (rsdpMessage_suits hdr _ _ _)
    · exact uacpiLogLvl_prints _ _ (sdtMessage_suits hdr _ _ _)

/-- What `uacpi_verify_table_checksum` returns. -/
def Uacpi.checksumStatus (table : Word) (size : Nat) : UacpiStatus :=
  if tableChecksum s.kernel.mem table size = 0 then .ok
  else if s.checkFlag flagBadCsumFatal then .badChecksum else .ok

theorem uacpiVerifyTableChecksum_prints (table : Word) (size : Nat) :
    Prints (uacpiVerifyTableChecksum table size) s (s.checksumStatus table size) := by
  have hsuits := checksumMessage_suits (loadStruct s.kernel.mem table 36)
    ((tableChecksum s.kernel.mem table size).setWidth 64)
  rw [uacpiVerifyTableChecksum, Uacpi.checksumStatus]
  refine .get (.ite (fun _ => .pure _) fun _ => ?_)
  by_cases hflag : s.checkFlag flagBadCsumFatal
  · rw [if_pos hflag, if_pos hflag]
    exact (uacpiLogLvl_prints .error checksumMessage hsuits).map fun _ => _
  · rw [if_neg hflag, if_neg hflag]
    exact (uacpiLogLvl_prints .warn checksumMessage hsuits).map fun _ => _

theorem uacpiVerifyTableChecksum_kept {n : Nat} (table : Word) (size : Nat) :
    (tablesBelow n).Kept (uacpiVerifyTableChecksum table size) :=
  Prints.kept fun s => uacpiVerifyTableChecksum_prints s table size

/-- What `uacpi_check_table_signature` returns. -/
def Uacpi.signatureStatus (hdr : AcpiSdtHdr) (expect : String) : UacpiStatus :=
  if uacpiSignaturesMatch hdr.signature (lit expect) then .ok
  else if s.checkFlag flagBadTblSignatureFatal then .invalidSignature else .ok

theorem uacpiCheckTableSignature_prints (hdr : AcpiSdtHdr) (expect : String) :
    Prints (uacpiCheckTableSignature hdr expect) s (s.signatureStatus hdr expect) := by
  rw [Uacpi.signatureStatus, uacpiCheckTableSignature]
  refine .ite (fun _ => .pure _) fun _ => .get ?_
  by_cases hflag : s.checkFlag flagBadTblSignatureFatal
  · rw [if_pos hflag, if_pos hflag]
    exact (uacpiLogLvl_prints .error signatureMessage (signatureMessage_suits hdr expect)).map
      fun _ => _
  · rw [if_neg hflag, if_neg hflag]
    exact (uacpiLogLvl_prints .warn signatureMessage (signatureMessage_suits hdr expect)).map
      fun _ => _

/-- The check of an optional signature. -/
def Uacpi.expectedStatus (hdr : AcpiSdtHdr) : Option String → UacpiStatus
  | some expect => s.signatureStatus hdr expect
  | none => .ok

theorem checkExpected_prints (hdr : AcpiSdtHdr) (expected : Option String) :
    Prints (checkExpected hdr expected) s (s.expectedStatus hdr expected) := by
  cases expected with
  | none => exact .pure _
  | some expect => exact uacpiCheckTableSignature_prints s hdr expect

/-- The report of a table that is shorter than its header. -/
theorem bogus_prints (hdr : AcpiSdtHdr) (phys : Word) :
    Prints (Proc.when (hdr.length.toNat < 36) (uacpiLogLvl .warn bogusMessage
      [.str (Struct.pointer hdr 0), .word phys, .word (hdr.length.setWidth 64)])) s () :=
  .when fun _ => uacpiLogLvl_prints _ _ (bogusMessage_suits hdr _ _)

end

/-! ## The FADT -/

section

variable (fadt : AcpiFadt)

/-- What `fadt_ensure_correct_revision` makes of the FADT. -/
def AcpiFadt.correctRevision : AcpiFadt :=
  let rev := fadtVersionIndex fadt.length
  if rev = 6 then fadt.setRevision 6
  else if fadt.revision.toNat ≠ rev + 1 ∧ ¬ (rev + 1 = 3 ∧ fadt.revision.toNat = 4) then
    fadt.setRevision (BitVec.ofNat 8 (rev + 1))
  else fadt

/-- The FADT as `initialize_fadt` has it when it installs the DSDT. -/
def AcpiFadt.prepare : AcpiFadt :=
  let fadt := fadt.correctRevision
  let fadt := if fadt.revision.toNat ≤ 2 then fadt.clearReserved else fadt
  if fadt.xDsdt = 0 then fadt.setXDsdt (fadt.dsdt.setWidth 64) else fadt

/-- What `initialize_fadt` does behind the installation. -/
def AcpiFadt.finish : AcpiFadt :=
  convertRegistersToGas (if fadt.firmwareCtrl ≠ 0 then
    fadt.setXFirmwareCtrl (fadt.firmwareCtrl.setWidth 64) else fadt)

end

/-- The address of the DSDT is kept if there is one. -/
theorem AcpiFadt.prepare_xDsdt (fadt : AcpiFadt) (h : fadt.xDsdt ≠ 0) :
    fadt.prepare.xDsdt = fadt.xDsdt := by
  have hset : ∀ (fadt : AcpiFadt) rev, (fadt.setRevision rev).xDsdt = fadt.xDsdt :=
    fun fadt rev => Struct.field_setField_of_disjoint _ _ (by decide) (by decide)
  have hrevision : fadt.correctRevision.xDsdt = fadt.xDsdt := by
    rw [AcpiFadt.correctRevision]
    split
    · exact hset _ _
    · split
      · exact hset _ _
      · rfl
  have hclear : ∀ fadt : AcpiFadt, fadt.clearReserved.xDsdt = fadt.xDsdt := fun fadt => by
    simp (disch := decide) only [AcpiFadt.clearReserved, AcpiFadt.xDsdt,
      Struct.field_setField_of_disjoint]
  have hboth : AcpiFadt.xDsdt (if fadt.correctRevision.revision.toNat ≤ 2 then
      fadt.correctRevision.clearReserved else fadt.correctRevision) = fadt.xDsdt := by
    split
    · rw [hclear, hrevision]
    · exact hrevision
  rw [AcpiFadt.prepare, if_neg (fun hzero => h (hboth.symm.trans hzero)), hboth]

theorem fadtEnsureCorrectRevision_eq (s : Uacpi) :
    ∃ serial', fadtEnsureCorrectRevision s =
        .ok ((), (s.setSerial serial').setFadt s.fadt.correctRevision) ∧
      s.kernel.Runs (s.setSerial serial').kernel := by
  rw [fadtEnsureCorrectRevision, AcpiFadt.correctRevision, Proc.bind_apply, Proc.get_apply, ok_bind]
  dsimp only
  by_cases hnewer : fadtVersionIndex s.fadt.length = 6
  · obtain ⟨serial', hrun, hruns⟩ := uacpiLogLvl_prints (s := s) .trace fadtNewerMessage
      (fadtNewerMessage_suits (BitVec.ofNat 64 s.fadt.revision.toNat)
        (BitVec.ofNat 64 (fadtVersionIndex s.fadt.length)))
    refine ⟨serial', ?_, hruns⟩
    rw [if_pos hnewer, if_pos hnewer, Proc.bind_apply, hrun, ok_bind, hnewer]
    rfl
  · rw [if_neg hnewer, if_neg hnewer, Proc.when]
    split
    · obtain ⟨serial', hrun, hruns⟩ := uacpiLogLvl_prints (s := s) .warn fadtLengthMessage
        (fadtLengthMessage_suits (s.fadt.length.setWidth 64)
          (BitVec.ofNat 64 s.fadt.revision.toNat)
          (BitVec.ofNat 64 (fadtVersionIndex s.fadt.length + 1)))
      refine ⟨serial', ?_, hruns⟩
      rw [Proc.bind_apply, hrun, ok_bind]
      rfl
    · exact ⟨s.kernel.serial, rfl, .refl _⟩

theorem modifyFadt_bind {α : Type} (f : AcpiFadt → AcpiFadt) (m : Unit → Proc Uacpi α)
    (s : Uacpi) : (modifyFadt f >>= m) s = m () (s.setFadt (f s.fadt)) := rfl

/-- What `initialize_fadt` does with the status of the installation. -/
def finishFadt (ret : UacpiStatus) : Proc Uacpi UacpiStatus :=
  if ret ≠ .ok ∧ ret ≠ .overridden then pure ret
  else do
    modifyFadt fun fadt =>
      if fadt.firmwareCtrl ≠ 0 then fadt.setXFirmwareCtrl (fadt.firmwareCtrl.setWidth 64) else fadt
    modifyFadt convertRegistersToGas
    return .ok

theorem finishFadt_eq {ret : UacpiStatus} (hret : ret = .ok ∨ ret = .overridden) (s : Uacpi) :
    finishFadt ret s = .ok (.ok, s.setFadt s.fadt.finish) := by
  have hneg : ¬ (ret ≠ .ok ∧ ret ≠ .overridden) := by
    rintro ⟨hok, hoverridden⟩
    exact hret.elim hok hoverridden
  rw [finishFadt, if_neg hneg, modifyFadt_bind, modifyFadt_bind, Uacpi.fadt_setFadt,
    Uacpi.setFadt_setFadt]
  rfl

theorem finishFadt_of_ne {ret : UacpiStatus} (hret : ret ≠ .ok ∧ ret ≠ .overridden) (s : Uacpi) :
    finishFadt ret s = .ok (ret, s) := by
  rw [finishFadt, if_pos hret]
  rfl

/-- **The steps of `initialize_fadt`**: it prepares the copy of the table, installs the DSDT
that the copy names, and finishes what the installation has left in the copy. -/
theorem initializeFadt_eq (install : Word → Proc Uacpi UacpiStatus) (virt : Word) (s : Uacpi) :
    ∃ serial' fadt, fadt = (s.fadt.copyFrom s.kernel.mem virt).prepare ∧
      s.kernel.Runs (s.setSerial serial').kernel ∧
      initializeFadt install virt s =
        ((if fadt.xDsdt ≠ 0 then install fadt.xDsdt else pure .ok) >>= finishFadt)
          ((s.setSerial serial').setFadt fadt) := by
  obtain ⟨serial', hrun, hruns⟩ :=
    fadtEnsureCorrectRevision_eq (s.setFadt (s.fadt.copyFrom s.kernel.mem virt))
  refine ⟨serial', _, rfl, hruns, ?_⟩
  have hserial : ((s.setFadt (s.fadt.copyFrom s.kernel.mem virt)).setSerial serial').setFadt
      (s.setFadt (s.fadt.copyFrom s.kernel.mem virt)).fadt.correctRevision =
        (s.setSerial serial').setFadt (s.fadt.copyFrom s.kernel.mem virt).correctRevision := rfl
  rw [hserial] at hrun
  rw [initializeFadt, Proc.bind_apply, Proc.get_apply, ok_bind]
  dsimp only
  rw [modifyFadt_bind, Proc.bind_apply, hrun, ok_bind]
  dsimp only
  rw [modifyFadt_bind, Uacpi.fadt_setFadt, Uacpi.setFadt_setFadt, modifyFadt_bind,
    Uacpi.fadt_setFadt, Uacpi.setFadt_setFadt, Proc.bind_apply, Proc.get_apply, ok_bind,
    ← AcpiFadt.prepare]
  generalize (s.fadt.copyFrom s.kernel.mem virt).prepare = fadt
  dsimp only
  rw [Uacpi.fadt_setFadt]
  rfl

/-- What `initialize_fadt` promises of the copy `fadt` that it leaves, when the installation of
the DSDT has left `before`. The address of the FACS is the 32-bit one if there is one. A register
block with an address is kept, and another one becomes the legacy block of its register. Nothing
else changes. -/
structure AcpiFadt.Initialized (fadt before : AcpiFadt) : Prop where
  facs : fadt.xFirmwareCtrl =
    if before.firmwareCtrl ≠ 0 then before.firmwareCtrl.setWidth 64 else before.xFirmwareCtrl
  kept : ∀ desc ∈ fadtRegisters, desc.address before ≠ 0 →
    Struct.sub fadt desc.xoffset 12 = Struct.sub before desc.xoffset 12
  converted : ∀ desc ∈ fadtRegisters, desc.address before = 0 →
    desc.IsSystemIo fadt (desc.legacyAddr before) (desc.length before)
  legacy : ∀ desc ∈ fadtRegisters, desc.legacyAddr fadt = desc.legacyAddr before ∧
    desc.length fadt = desc.length before
  rest : ∀ o k, o + k ≤ 276 → o + k ≤ 132 ∨ 140 ≤ o → (∀ desc ∈ fadtRegisters, desc.Apart o k) →
    Struct.sub fadt o k = Struct.sub before o k

/-- The address of the FACS is assigned, and nothing else. -/
theorem AcpiFadt.setFacs_sub (fadt : AcpiFadt) {o k : Nat} (h : o + k ≤ 276)
    (hdisjoint : o + k ≤ 132 ∨ 140 ≤ o) :
    Struct.sub (if fadt.firmwareCtrl ≠ 0 then
      fadt.setXFirmwareCtrl (fadt.firmwareCtrl.setWidth 64) else fadt) o k =
        Struct.sub fadt o k := by
  split
  · exact Struct.sub_setSub_of_disjoint _ _ h hdisjoint
  · rfl

/-- The blocks of the registers lie behind the address of the FACS, and their legacy fields in
front of it. -/
theorem fadtRegisters_apart_facs : ∀ desc ∈ fadtRegisters,
    140 ≤ desc.xoffset ∧ desc.offset + 4 ≤ 132 ∧ desc.lengthOffset + 1 ≤ 132 := by decide

theorem AcpiFadt.finish_initialized (fadt : AcpiFadt) : fadt.finish.Initialized fadt := by
  rw [AcpiFadt.finish]
  have hsub := fun o k => AcpiFadt.setFacs_sub fadt (o := o) (k := k)
  have hfacs : AcpiFadt.xFirmwareCtrl (if fadt.firmwareCtrl ≠ 0 then
      fadt.setXFirmwareCtrl (fadt.firmwareCtrl.setWidth 64) else fadt) =
        if fadt.firmwareCtrl ≠ 0 then fadt.firmwareCtrl.setWidth 64 else fadt.xFirmwareCtrl := by
    split
    · exact Struct.field_setField _ _ (by decide)
    · rfl
  generalize (if fadt.firmwareCtrl ≠ 0 then
    fadt.setXFirmwareCtrl (fadt.firmwareCtrl.setWidth 64) else fadt) = g at hsub hfacs ⊢
  have hrest : ∀ o k, o + k ≤ 276 → o + k ≤ 132 ∨ 140 ≤ o →
      (∀ desc ∈ fadtRegisters, desc.Apart o k) →
        Struct.sub (convertRegistersToGas g) o k = Struct.sub fadt o k :=
    fun o k h hdisjoint hapart => (convert_foldl_sub g h hapart).trans (hsub o k h hdisjoint)
  constructor
  · rw [← hfacs]
    exact convertRegistersToGas_field g (by decide) (by decide)
  · intro desc hdesc hne
    obtain ⟨hx, -, -⟩ := fadtRegisters_le desc hdesc
    obtain ⟨hbehind, -, -⟩ := fadtRegisters_apart_facs desc hdesc
    have haddress : desc.address g = desc.address fadt :=
      congrArg Struct.number (hsub (desc.xoffset + 4) 8 (by omega) (.inr (by omega)))
    have hne' : desc.address g ≠ 0 := fun hzero => hne (haddress.symm.trans hzero)
    rw [((convertRegistersToGas_spec g desc hdesc).1 hne').2]
    exact hsub desc.xoffset 12 hx (.inr hbehind)
  · intro desc hdesc hzero
    obtain ⟨hx, hoffset, hlength⟩ := fadtRegisters_le desc hdesc
    obtain ⟨hbehind, hfront, hfront'⟩ := fadtRegisters_apart_facs desc hdesc
    have haddress : desc.address g = desc.address fadt :=
      congrArg Struct.number (hsub (desc.xoffset + 4) 8 (by omega) (.inr (by omega)))
    have hlegacyAddr : desc.legacyAddr g = desc.legacyAddr fadt :=
      congrArg Struct.number (hsub desc.offset 4 hoffset (.inl hfront))
    have hlen : desc.length g = desc.length fadt :=
      congrArg Struct.number (hsub desc.lengthOffset 1 hlength (.inl hfront'))
    rw [← hlegacyAddr, ← hlen]
    exact (convertRegistersToGas_spec g desc hdesc).2 (haddress.trans hzero)
  · intro desc hdesc
    obtain ⟨-, hoffset, hlength⟩ := fadtRegisters_le desc hdesc
    obtain ⟨-, hfront, hfront'⟩ := fadtRegisters_apart_facs desc hdesc
    have hapart := fun d hd => fadtRegisters_apart_legacy d hd desc hdesc
    exact ⟨congrArg Struct.number
        (hrest desc.offset 4 hoffset (.inl hfront) fun d hd => (hapart d hd).1),
      congrArg Struct.number
        (hrest desc.lengthOffset 1 hlength (.inl hfront') fun d hd => (hapart d hd).2)⟩
  · exact hrest

/-- **What `initialize_fadt` leaves when it succeeds**, whatever the installation of the DSDT
does: the state that the installation leaves, with its FADT initialized. -/
theorem initializeFadt_initialized {install : Word → Proc Uacpi UacpiStatus} {virt : Word}
    {s t : Uacpi} (hrun : initializeFadt install virt s = .ok (.ok, t)) :
    ∃ serial' fadt ret u, fadt = (s.fadt.copyFrom s.kernel.mem virt).prepare ∧
      (if fadt.xDsdt ≠ 0 then install fadt.xDsdt else pure .ok)
        ((s.setSerial serial').setFadt fadt) = .ok (ret, u) ∧
      (ret = .ok ∨ ret = .overridden) ∧ t = u.setFadt t.fadt ∧ t.fadt.Initialized u.fadt := by
  obtain ⟨serial', fadt, hfadt, -, heq⟩ := initializeFadt_eq install virt s
  rw [heq, Proc.bind_apply] at hrun
  obtain ⟨⟨ret, u⟩, hinstall, hfinish⟩ := bind_eq_ok.mp hrun
  refine ⟨serial', fadt, ret, u, hfadt, hinstall, ?_⟩
  by_cases hret : ret ≠ .ok ∧ ret ≠ .overridden
  · rw [finishFadt_of_ne hret] at hfinish
    exact absurd (Prod.ext_iff.mp (Except.ok.inj hfinish)).1 hret.1
  · have hret' : ret = .ok ∨ ret = .overridden := by tauto
    rw [finishFadt_eq hret'] at hfinish
    have ht : u.setFadt u.fadt.finish = t := (Prod.ext_iff.mp (Except.ok.inj hfinish)).2
    have hfinished := u.fadt.finish_initialized
    generalize u.fadt.finish = finished at ht hfinished
    subst ht
    exact ⟨hret', rfl, hfinished⟩

/-- It succeeds when the installation of the DSDT does. -/
theorem initializeFadt_ok {install : Word → Proc Uacpi UacpiStatus}
    (hinstall : ∀ x, install x = pure .ok) (virt : Word) (s : Uacpi) :
    ∃ t, initializeFadt install virt s = .ok (.ok, t) := by
  obtain ⟨serial', fadt, -, -, heq⟩ := initializeFadt_eq install virt s
  generalize (s.setSerial serial').setFadt fadt = u at heq
  have hpure : (pure .ok : Proc Uacpi UacpiStatus) u = .ok (.ok, u) := rfl
  rw [hinstall, ite_self, Proc.bind_apply, hpure, ok_bind] at heq
  have hfinish := finishFadt_eq (.inl rfl) u
  generalize u.setFadt u.fadt.finish = v at hfinish
  exact ⟨v, heq.trans hfinish⟩

/-- The parts of a FADT at 0xC0000 that are not zero: its header and the address of the FACS; the
legacy fields of the PM1a event block, at port 0x600, and of the PM timer, at port 0x608; the FADT
itself as its DSDT; and the extended block of the PM timer. -/
def sampleFadt : List (Word × List Byte) :=
  [(0xC0000, lit "FACP" ++ [20, 1, 0, 0, 6, 115] ++ List.replicate 14 32),
    (0xC0024, [0, 128, 15, 0]),
    (0xC0038, [0, 6, 0, 0]),
    (0xC004C, [8, 6, 0, 0]),
    (0xC0058, [4]),
    (0xC005B, [4]),
    (0xC008C, [0, 0, 12, 0, 0, 0, 0, 0]),
    (0xC00D0, [0, 32, 0, 3, 240, 0, 208, 254, 0, 0, 0, 0])]

/-- The PM1a event block becomes a block of 32 bits at its port, and the block of the PM timer is
kept as it is in memory. -/
theorem initializeFadt_initialized_sample :
    ∃ t, initializeFadt (fun _ => pure .ok) 0xC0000
        (.loaded (.loaded (firmwareMemory sampleFadt)) none fun _ => 0) = .ok (.ok, t) ∧
      t.fadt.xFirmwareCtrl = 0xF8000 ∧
      RegisterDescription.IsSystemIo t.fadt ⟨56, 148, 88⟩ 0x600 4 ∧
      Struct.sub t.fadt 208 12 = loadStruct (firmwareMemory sampleFadt) 0xC00D0 12 := by
  let fadt := (AcpiFadt.copyFrom (.const 276 0) (firmwareMemory sampleFadt) 0xC0000).prepare
  have hfacs : fadt.firmwareCtrl = 0xF8000 := by decide
  have hevents : RegisterDescription.address ⟨56, 148, 88⟩ fadt = 0 ∧
      RegisterDescription.legacyAddr ⟨56, 148, 88⟩ fadt = 0x600 ∧
      RegisterDescription.length ⟨56, 148, 88⟩ fadt = 4 := by decide
  have htimer : RegisterDescription.address ⟨76, 208, 91⟩ fadt ≠ 0 := by decide
  have hblock : Struct.sub fadt 208 12 = loadStruct (firmwareMemory sampleFadt) 0xC00D0 12 :=
    Struct.ext_byte (by decide)
  obtain ⟨t, hrun⟩ := initializeFadt_ok (fun _ => rfl) 0xC0000
    (.loaded (.loaded (firmwareMemory sampleFadt)) none fun _ => 0)
  obtain ⟨serial', _, ret, u, rfl, hinstall, -, -, hinit⟩ := initializeFadt_initialized hrun
  rw [ite_self] at hinstall
  cases hinstall
  have hinit' : t.fadt.Initialized fadt := hinit
  refine ⟨t, hrun, ?_, ?_, ?_⟩
  · rw [hinit'.facs, hfacs]
    rfl
  · have hconverted := hinit'.converted ⟨56, 148, 88⟩ (by decide) hevents.1
    rwa [hevents.2.1, hevents.2.2] at hconverted
  · rw [hinit'.kept ⟨76, 208, 91⟩ (by decide) htimer, hblock]

end KptrOS
