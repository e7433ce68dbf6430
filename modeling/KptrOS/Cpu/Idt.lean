import KptrOS.Serial.Printf

/-!
# The interrupt descriptor table (`idt_set_descriptor` and `idt_init` in `kern/cpu/idt.c`)

A gate of the table holds the address of a stub in three fields, which the processor puts
together again. `idt_init` fills the first 48 gates and leaves out those without a stub.

- `idtSetDescriptor`, `idtInit`: the source's functions.
- `IdtEntry.image`, `decodeGate`: a packed descriptor, and how the processor reads it.
- `decodeGate_gate`: it reads the address that was stored.
- `idtSetDescriptor_spec`, `idtInit_spec`: one descriptor, and the loop.
- `idtInit_gates`: what the processor finds in every gate.
-/

namespace KptrOS

open CSem

/-! ## The table -/

/-- `KERNEL_CS`. -/
def kernelCs : BitVec 16 := 0x08

/-- `IDT_MAX_DESCRIPTORS`. -/
def idtMaxDescriptors : Nat := 256

/-- `idt_entry_t`. -/
structure IdtEntry where
  isrLow : BitVec 16
  kernelCs : BitVec 16
  ist : BitVec 8
  attributes : BitVec 8
  isrMid : BitVec 16
  isrHigh : BitVec 32
  reserved : BitVec 32
deriving DecidableEq

/-- A descriptor of zeros. -/
def IdtEntry.zero : IdtEntry := ⟨0, 0, 0, 0, 0, 0, 0⟩

/-- `idtr_t`. -/
structure Idtr where
  limit : BitVec 16
  base : Word
deriving DecidableEq

/-- The table and `idtr`, the register that `lidt` loads, and the serial port. -/
structure IdtState where
  idt : Arr idtMaxDescriptors IdtEntry
  idtr : Idtr
  register : Idtr
  serial : Com1

/-- The static variables before the first call. -/
def IdtState.atBoot (register : Idtr) (serial : Com1) : IdtState :=
  ⟨.const _ .zero, ⟨0, 0⟩, register, serial⟩

/-! ## The functions -/

/-- The fields that `idt_set_descriptor` writes. -/
def gate (isr : Word) (flags : BitVec 8) : IdtEntry where
  isrLow := (isr &&& 0xFFFF).setWidth 16
  kernelCs := kernelCs
  ist := 0
  attributes := flags
  isrMid := ((isr >>> 16) &&& 0xFFFF).setWidth 16
  isrHigh := ((isr >>> 32) &&& 0xFFFFFFFF).setWidth 32
  reserved := 0

/-- `idt_set_descriptor(vector, isr, flags)`. -/
def idtSetDescriptor (vector isr : Word) (flags : BitVec 8) (s : IdtState) : Exec IdtState :=
  if isr = 0 then do
    let serial ← serialPrintf (cstr "[ ERR ] Null ISR for vector: %x\n") [.word vector] s.serial
    return { s with serial }
  else do
    let idt ← s.idt.set vector.toNat (gate isr flags)
    return { s with idt }

/-- `(uint16_t)sizeof(idt_entry_t) * IDT_MAX_DESCRIPTORS - 1`. -/
def idtLimit : BitVec 16 := BitVec.ofNat 16 (16 * idtMaxDescriptors - 1)

/-- The limit takes in all descriptors. -/
example : idtLimit.toNat + 1 = 16 * idtMaxDescriptors := by decide

/-- An iteration of the loop of `idt_init`. -/
def idtInitVector (isrStubTable : Arr 48 Word) (i : Nat) (s : IdtState) : Exec IdtState := do
  let isr ← isrStubTable.get i
  idtSetDescriptor (BitVec.ofNat 64 i) isr 0x8E s

/-- `idt_init()`, with the address of `idt` and the contents of `isr_stub_table`. -/
def idtInit (idtAddr : Word) (isrStubTable : Arr 48 Word) (s : IdtState) : Exec IdtState := do
  let s := { s with idtr := ⟨idtLimit, idtAddr⟩ }
  let s ← forRange (idtInitVector isrStubTable) 48 0 s
  let s := { s with register := s.idtr }
  let serial ← serialWrite (cstr "[ OK ] IDT\n") s.serial
  return { s with serial }

/-! ## What the processor reads -/

/-- The sixteen bytes of a packed descriptor, as one number. -/
def IdtEntry.image (e : IdtEntry) : BitVec 128 :=
  e.reserved ++ e.isrHigh ++ e.isrMid ++ e.attributes ++ e.ist ++ e.kernelCs ++ e.isrLow

/-- A gate, as the processor understands it. -/
structure Gate where
  offset : Word
  selector : BitVec 16
  ist : BitVec 8
  attributes : BitVec 8
  reserved : BitVec 32
deriving DecidableEq

/-- Bit 7 of the attributes says that the gate is present. -/
def Gate.Present (g : Gate) : Prop := g.attributes.getLsbD 7 = true

instance (g : Gate) : Decidable g.Present := inferInstanceAs (Decidable (_ = _))

/-- The gate in sixteen bytes. -/
def decodeGate (image : BitVec 128) : Gate where
  offset := (image.extractLsb' 0 16).setWidth 64 |||
    (image.extractLsb' 48 16).setWidth 64 <<< 16 |||
    (image.extractLsb' 64 32).setWidth 64 <<< 32
  selector := image.extractLsb' 16 16
  ist := image.extractLsb' 32 8
  attributes := image.extractLsb' 40 8
  reserved := image.extractLsb' 96 32

/-- The gate in a packed descriptor. -/
theorem decodeGate_image (e : IdtEntry) :
    decodeGate e.image =
      { offset := e.isrLow.setWidth 64 ||| e.isrMid.setWidth 64 <<< 16 |||
          e.isrHigh.setWidth 64 <<< 32
        selector := e.kernelCs
        ist := e.ist
        attributes := e.attributes
        reserved := e.reserved } := by
  simp (disch := decide) only [decodeGate, IdtEntry.image, BitVec.extractLsb'_append_eq_of_add_le,
    BitVec.extractLsb'_append_eq_of_le, Nat.reduceSub, BitVec.extractLsb'_eq_self]

/-- A field that is shifted down and masked. -/
theorem setWidth_shift_and (x : Word) (lo w : Nat) :
    ((x >>> lo) &&& (BitVec.allOnes w).setWidth 64).setWidth w = x.extractLsb' lo w := by
  refine BitVec.eq_of_getLsbD_eq fun i hi => ?_
  have hbound : x.getLsbD (lo + i) = true → i < 64 := fun h =>
    Nat.lt_of_le_of_lt (Nat.le_add_left i lo) (BitVec.lt_of_getLsbD h)
  simpa [hi] using hbound

/-- The three parts of an address. -/
theorem gate_parts (isr : Word) (flags : BitVec 8) :
    (gate isr flags).isrLow = isr.extractLsb' 0 16 ∧
      (gate isr flags).isrMid = isr.extractLsb' 16 16 ∧
      (gate isr flags).isrHigh = isr.extractLsb' 32 32 := by
  have h16 : (0xFFFF : Word) = (BitVec.allOnes 16).setWidth 64 := by decide
  have h32 : (0xFFFFFFFF : Word) = (BitVec.allOnes 32).setWidth 64 := by decide
  refine ⟨?_, ?_, ?_⟩
  · have hlow := setWidth_shift_and isr 0 16
    rwa [BitVec.ushiftRight_zero, ← h16] at hlow
  · rw [← setWidth_shift_and, ← h16, gate]
  · rw [← setWidth_shift_and, ← h32, gate]

/-- An address is what its three parts make together. -/
theorem offset_of_parts (isr : Word) :
    (isr.extractLsb' 0 16).setWidth 64 ||| (isr.extractLsb' 16 16).setWidth 64 <<< 16 |||
      (isr.extractLsb' 32 32).setWidth 64 <<< 32 = isr := by
  have hupper : isr.extractLsb' 32 32 ++ isr.extractLsb' 16 16 = isr.extractLsb' 16 48 :=
    BitVec.extractLsb'_append_extractLsb'_eq_extractLsb' rfl
  have hall : isr.extractLsb' 16 48 ++ isr.extractLsb' 0 16 = isr.extractLsb' 0 64 :=
    BitVec.extractLsb'_append_extractLsb'_eq_extractLsb' rfl
  have hconcat := @BitVec.setWidth_append_append_eq_shiftLeft_setWidth_or _ _ _ 64
    (isr.extractLsb' 32 32) (isr.extractLsb' 16 16) (isr.extractLsb' 0 16)
  rw [hupper, hall, BitVec.extractLsb'_eq_self, BitVec.setWidth_eq] at hconcat
  rw [BitVec.or_comm, BitVec.or_comm (BitVec.setWidth 64 _), ← BitVec.or_assoc]
  exact hconcat.symm

/-- **The processor reads the address that was stored**, for all 64 bits. -/
theorem decodeGate_gate (isr : Word) (flags : BitVec 8) :
    decodeGate (gate isr flags).image = ⟨isr, kernelCs, 0, flags, 0⟩ := by
  obtain ⟨hlow, hmid, hhigh⟩ := gate_parts isr flags
  rw [decodeGate_image, hlow, hmid, hhigh, offset_of_parts]
  rfl

/-! ## One descriptor -/

/-- What is written about a missing stub. -/
def nullIsrText (vector : Word) : List Byte :=
  hexFormatText "[ ERR ] Null ISR for vector: " [(vector, "\n")]

theorem serialPrintf_nullIsr (vector : Word) (out : Com1) :
    serialPrintf (cstr "[ ERR ] Null ISR for vector: %x\n") [.word vector] out =
      .ok (out ++ nullIsrText vector) := by
  have hitems : formatItems (cstr "[ ERR ] Null ISR for vector: %x\n") =
      some (hexFormatItems "[ ERR ] Null ISR for vector: " [(vector, "\n")]) := by
    simp [lit, cstr, cText, formatItems, FormatItem.ofDirective, literals, hexFormatItems]
  exact serialPrintf_hexFormat hitems out

/-- Without a stub there is a message, and otherwise the gate of the vector is replaced. -/
theorem idtSetDescriptor_spec {vector : Word} (hv : vector.toNat < idtMaxDescriptors)
    (isr : Word) (flags : BitVec 8) (s : IdtState) :
    ∃ text, idtSetDescriptor vector isr flags s = .ok { s with
      idt := if isr = 0 then s.idt else s.idt.put vector.toNat (gate isr flags)
      serial := s.serial ++ text } := by
  rw [idtSetDescriptor]
  by_cases hisr : isr = 0
  · refine ⟨nullIsrText vector, ?_⟩
    rw [if_pos hisr, if_pos hisr, serialPrintf_nullIsr]
    rfl
  · refine ⟨[], ?_⟩
    rw [if_neg hisr, if_neg hisr, Arr.set_of_lt _ hv, List.append_nil]
    rfl

/-- No other gate changes. -/
theorem idtSetDescriptor_frame {vector : Word} (hv : vector.toNat < idtMaxDescriptors)
    (isr : Word) (flags : BitVec 8) (s : IdtState) :
    ∃ s', idtSetDescriptor vector isr flags s = .ok s' ∧
      ∀ w, w ≠ vector.toNat → s'.idt.get w = s.idt.get w := by
  obtain ⟨text, hrun⟩ := idtSetDescriptor_spec hv isr flags s
  refine ⟨_, hrun, fun w hw => ?_⟩
  by_cases hisr : isr = 0
  · exact congrArg (Arr.get · w) (if_pos hisr)
  · exact (congrArg (Arr.get · w) (if_neg hisr)).trans (Arr.get_put_of_ne _ hw _)

/-! ## The loop -/

/-- The gate that `idt_init` leaves for a vector. -/
def initGate (isrStubTable : Arr 48 Word) (v : Nat) : IdtEntry :=
  if h : v < 48 then
    if isrStubTable.elem ⟨v, h⟩ = 0 then .zero else gate (isrStubTable.elem ⟨v, h⟩) 0x8E
  else .zero

/-- An iteration fills a gate of zeros. -/
theorem idtInitVector_ok (isrStubTable : Arr 48 Word) {i : Nat} (hi : i < 48) {s : IdtState}
    (hzero : s.idt.get i = .ok .zero) :
    ∃ text, idtInitVector isrStubTable i s = .ok { s with
      idt := s.idt.put i (initGate isrStubTable i)
      serial := s.serial ++ text } := by
  have hvector : (BitVec.ofNat 64 i).toNat = i := by
    rw [BitVec.toNat_ofNat]
    omega
  have hmax : (BitVec.ofNat 64 i).toNat < idtMaxDescriptors := by
    rw [hvector]
    exact Nat.lt_trans hi (by decide)
  obtain ⟨text, hrun⟩ := idtSetDescriptor_spec hmax (isrStubTable.elem ⟨i, hi⟩) 0x8E s
  refine ⟨text, ?_⟩
  rw [idtInitVector, Arr.get_of_lt _ hi, ok_bind, hrun, hvector, initGate, dif_pos hi]
  by_cases hisr : isrStubTable.elem ⟨i, hi⟩ = 0
  · rw [if_pos hisr, if_pos hisr, Arr.put_eq_self _ hzero]
  · rw [if_neg hisr, if_neg hisr]

/-- The first `i` gates are filled, and the others are still zero. -/
structure FilledTo (isrStubTable : Arr 48 Word) (idtr : Idtr) (i : Nat) (s : IdtState) : Prop where
  idtr_eq : s.idtr = idtr
  filled : ∀ v, v < i → v < idtMaxDescriptors → s.idt.get v = .ok (initGate isrStubTable v)
  zero : ∀ v, i ≤ v → v < idtMaxDescriptors → s.idt.get v = .ok .zero

/-- The loop fills the table: an iteration writes the gate of its own vector only. -/
theorem idtInit_loop (isrStubTable : Arr 48 Word) {s : IdtState}
    (hzero : s.idt = .const _ .zero) :
    ∃ s', forRange (idtInitVector isrStubTable) 48 0 s = .ok s' ∧
      FilledTo isrStubTable s.idtr 48 s' := by
  have hstart : FilledTo isrStubTable s.idtr 0 s :=
    ⟨rfl, fun v hv => absurd hv (Nat.not_lt_zero v), fun v _ hv => by
      rw [hzero]
      exact Arr.get_const hv _⟩
  refine forRange_zero_inv _ hstart fun i s₁ hi h => ?_
  have hmax : i < idtMaxDescriptors := Nat.lt_trans hi (by decide)
  obtain ⟨text, hrun⟩ := idtInitVector_ok isrStubTable hi (h.zero i (Nat.le_refl i) hmax)
  refine ⟨_, hrun, h.idtr_eq, fun v hv hlt => ?_, fun v hv hlt => ?_⟩
  · rcases Nat.lt_succ_iff_lt_or_eq.mp hv with hv | rfl
    · exact (Arr.get_put_of_ne _ (Nat.ne_of_lt hv) _).trans (h.filled v hv hlt)
    · exact Arr.get_put_self _ hlt _
  · exact (Arr.get_put_of_ne _ (Nat.ne_of_gt hv) _).trans (h.zero v (Nat.le_of_succ_le hv) hlt)

/-- **`idt_init`** fills the first 48 gates, and loads the table. -/
theorem idtInit_spec (idtAddr : Word) (isrStubTable : Arr 48 Word) (register : Idtr)
    (serial : Com1) :
    ∃ s', idtInit idtAddr isrStubTable (.atBoot register serial) = .ok s' ∧
      s'.register = ⟨idtLimit, idtAddr⟩ ∧
      ∀ v, v < idtMaxDescriptors → s'.idt.get v = .ok (initGate isrStubTable v) := by
  let s₀ : IdtState := { IdtState.atBoot register serial with idtr := ⟨idtLimit, idtAddr⟩ }
  have hzero : s₀.idt = .const _ .zero := rfl
  obtain ⟨s₁, hloop, h⟩ := idtInit_loop isrStubTable hzero
  refine ⟨{ s₁ with register := s₁.idtr, serial := s₁.serial ++ lit "[ OK ] IDT\n" }, ?_,
    h.idtr_eq, fun v hv => ?_⟩
  · rw [idtInit, hloop, ok_bind]
    dsimp only
    rw [serialWrite_cstr]
    rfl
  · by_cases hstub : v < 48
    · exact h.filled v hstub hv
    · have hgate : initGate isrStubTable v = .zero := dif_neg hstub
      rw [hgate]
      exact h.zero v (Nat.le_of_not_lt hstub) hv

/-- **The gates decode to the stubs they were given.** For every table of stubs, `idt_init` on
a zeroed table leaves a gate for each vector below 48 with a stub, in which the processor reads
the address of the stub; the descriptors without a stub, and those from 48 on, are all zero.
And `idt_set_descriptor` changes no gate but its own, whatever the table holds. -/
theorem idtInit_gates (idtAddr : Word) (isrStubTable : Arr 48 Word) (register : Idtr)
    (serial : Com1) :
    (∃ s', idtInit idtAddr isrStubTable (.atBoot register serial) = .ok s' ∧
      s'.register = ⟨idtLimit, idtAddr⟩ ∧
      ∀ v, v < idtMaxDescriptors → ∃ e, s'.idt.get v = .ok e ∧
        (∀ isr, isrStubTable.get v = .ok isr → isr ≠ 0 →
          decodeGate e.image = ⟨isr, kernelCs, 0, 0x8E, 0⟩ ∧
            (decodeGate e.image).Present) ∧
        (48 ≤ v ∨ isrStubTable.get v = .ok 0 →
          e.image = 0 ∧ ¬ (decodeGate e.image).Present)) ∧
      ∀ vector isr flags s, vector.toNat < idtMaxDescriptors →
        ∃ s', idtSetDescriptor vector isr flags s = .ok s' ∧
          ∀ w, w ≠ vector.toNat → s'.idt.get w = s.idt.get w := by
  obtain ⟨s', hrun, hregister, hgates⟩ := idtInit_spec idtAddr isrStubTable register serial
  refine ⟨⟨s', hrun, hregister, fun v hv => ⟨_, hgates v hv, fun isr hisr hne => ?_,
    fun hnone => ?_⟩⟩, fun vector isr flags s hv => idtSetDescriptor_frame hv isr flags s⟩
  · have hstub : v < 48 := by
      by_contra h
      rw [Arr.get, dif_neg h] at hisr
      cases hisr
    rw [Arr.get_of_lt _ hstub] at hisr
    cases hisr
    have hpresent : (0x8E : BitVec 8).getLsbD 7 = true := by decide
    rw [initGate, dif_pos hstub, if_neg hne, decodeGate_gate]
    exact ⟨rfl, hpresent⟩
  · have hgate : initGate isrStubTable v = .zero := by
      rcases hnone with h48 | hnull
      · exact dif_neg (Nat.not_lt.mpr h48)
      · by_cases hstub : v < 48
        · rw [Arr.get_of_lt _ hstub] at hnull
          rw [initGate, dif_pos hstub, if_pos (Except.ok.inj hnull)]
        · exact dif_neg hstub
    rw [hgate]
    exact ⟨by decide, by decide⟩

end KptrOS
