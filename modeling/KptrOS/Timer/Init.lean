import KptrOS.Acpi.MapFrame
import KptrOS.Timer.Hpet

/-!
# What `timer_init` drives

The firmware's table names the register block of the HPET. `timer_init` maps the table itself
instead, and the mapping is a copy: the registers it reads and writes are bytes of a page that
the allocator has just handed out.

- `timerInit_ok`, `timerInit_zero`: what `timer_init` does once the mapping succeeds.
- `DrivesDevice`: the accesses go to the device.
- `timerInit_drivesDevice_iff`: when they do.
-/

namespace KptrOS

open CSem

/-! ## The steps of `timer_init` -/

/-- The upper half of a register. -/
theorem shiftRight_and_mask (capabilities : Word) :
    (capabilities >>> 32) &&& (0xFFFFFFFF : Word) = capabilities >>> 32 := by
  refine BitVec.eq_of_toNat_eq ?_
  have hlt : capabilities.toNat >>> 32 < 2 ^ 32 := by
    have := capabilities.isLt
    omega
  rw [BitVec.toNat_and, BitVec.toNat_ushiftRight]
  show (capabilities.toNat >>> 32) &&& (2 ^ 32 - 1) = capabilities.toNat >>> 32
  rw [Nat.and_two_pow_sub_one_eq_mod, Nat.mod_eq_of_lt hlt]

/-- The state of `timer_init` after it has read the period from the mapped page. -/
def TimerState.mapped (base : Word) (k : Kernel) (s : TimerState) : TimerState :=
  { s with
    kernel := k
    hpetBase := base
    hpetPeriod := load64 k.mem base >>> 32
    accesses := s.accesses ++ [.load base] }

/-- The state in which it returns. -/
def TimerState.started (base : Word) (k : Kernel) (s : TimerState) : TimerState :=
  (((s.mapped base k).store (base + hpetGeneralConfiguration) hpetEnableCnf).configured
    0 100).print (lit "[ OK ] HPET\n")

section

variable {find : CBuf → UacpiTable → Kernel → Exec (UacpiStatus × UacpiTable × Kernel)}
  {stale table : UacpiTable} {status : UacpiStatus} {slot base : Word} {s : TimerState}
  {k k₁ : Kernel}

/-- After the mapping the base is stored, the period read and the HPET enabled. -/
theorem timerInit_eq (hfind : find (cstr "HPET") stale s.kernel = .ok (status, table, k))
    (hmap : uacpiKernelMap table.virtAddr hpetRegSize slot k = .ok (base, k₁)) :
    timerInit find stale slot s = (do
      let (_, s) ← hpetConfigureTimer 0 100
        ((s.mapped base k₁).store (base + hpetGeneralConfiguration) hpetEnableCnf)
      return (0, s.print (lit "[ OK ] HPET\n"))) := by
  have hok : ∀ out, serialPrintf (cstr "[ OK ] HPET\n") [] out =
      .ok (out ++ lit "[ OK ] HPET\n") := serialPrintf_cstr (by simp [lit, cstr, cText])
  have hzero : base + hpetGeneralCapabilitiesId = base := BitVec.add_zero base
  rw [timerInit, hfind, ok_bind]
  dsimp only
  rw [hmap, ok_bind]
  dsimp only [hpetReadRegister, hpetWriteRegister]
  rw [hzero, shiftRight_and_mask]
  simp only [hok, ok_bind]
  rfl

/-- With a period `timer_init` returns 0. -/
theorem timerInit_ok (hfind : find (cstr "HPET") stale s.kernel = .ok (status, table, k))
    (hmap : uacpiKernelMap table.virtAddr hpetRegSize slot k = .ok (base, k₁))
    (hbase : base ≠ 0) (hperiod : load64 k₁.mem base >>> 32 ≠ 0) :
    timerInit find stale slot s = .ok (0, s.started base k₁) := by
  rw [timerInit_eq hfind hmap, hpetConfigureTimer_ok 0 100 hbase hperiod]
  rfl

/-- Without one it divides by zero. -/
theorem timerInit_zero (hfind : find (cstr "HPET") stale s.kernel = .ok (status, table, k))
    (hmap : uacpiKernelMap table.virtAddr hpetRegSize slot k = .ok (base, k₁))
    (hbase : base ≠ 0) (hperiod : load64 k₁.mem base >>> 32 = 0) :
    timerInit find stale slot s = .error .divideByZero := by
  rw [timerInit_eq hfind hmap, hpetConfigureTimer_zero 0 100 hbase hperiod]
  rfl

end

/-! ## The registers of the device -/

/-- `address.address` of the `struct acpi_hpet` at `table`: packed, 44 bytes in. -/
def acpiHpetAddress (m : Memory) (table : Word) : Word := load64 m (offset table 44)

/-- The value and the address of a store. -/
def HpetAccess.stored : HpetAccess → Option (Word × Word)
  | .load _ => none
  | .store addr value => some (addr, value)

/-- Between the two states the driver has read the period from the capabilities register of
the register block at `b`, and enabled the HPET and configured timer 0 there. -/
structure DrivesDevice (b : Word) (s s' : TimerState) : Prop where
  period : s'.hpetPeriod = load64 s'.kernel.mem b >>> 32
  stores : ∃ accesses comparator, s'.accesses = s.accesses ++ accesses ∧
    accesses.filterMap HpetAccess.stored =
      [(b + 0x10, hpetEnableCnf), (b + 0x100, hpetPeriodicCnf ||| hpetIntEnableCnf),
        (b + 0x108, comparator)]

/-- A store to another register keeps the capabilities. -/
theorem load64_store64_register {m : Memory} {base reg w : Word} (h8 : 8 ≤ reg.toNat)
    (hreg : reg.toNat < 2 ^ 32) :
    load64 (store64 m (base + reg) w) base = load64 m base := by
  refine load64_store64_of_disjoint fun i hi hin => ?_
  rw [InRange, offset] at hin
  bv_omega

section

variable {find : CBuf → UacpiTable → Kernel → Exec (UacpiStatus × UacpiTable × Kernel)}
  {stale table : UacpiTable} {slot base b : Word} {s : TimerState} {k k₁ : Kernel}

theorem started_load_base : load64 (s.started base k).kernel.mem base = load64 k.mem base := by
  show load64 (store64 (store64 (store64 k.mem (base + 0x10) _) (base + 0x100) _)
    (base + 0x108) _) base = _
  rw [load64_store64_register (by decide) (by decide),
    load64_store64_register (by decide) (by decide),
    load64_store64_register (by decide) (by decide)]

/-- The accesses of `timer_init`, in order. -/
theorem started_accesses : ∃ comparator, (s.started base k).accesses = s.accesses ++
    [.load base, .store (base + 0x10) hpetEnableCnf,
      .store (base + 0x100) (hpetPeriodicCnf ||| hpetIntEnableCnf),
      .store (base + 0x108) comparator] := by
  refine ⟨1000000000000000 / (load64 k.mem base >>> 32) * 100, ?_⟩
  show (((s.accesses ++ [_]) ++ [_]) ++ [_]) ++ [_] = _
  rw [List.append_assoc, List.append_assoc, List.append_assoc]
  rfl

/-- The page that is mapped is the device that is driven. -/
theorem started_drivesDevice_iff : DrivesDevice b s (s.started base k) ↔ b = base := by
  obtain ⟨comparator, haccesses⟩ := @started_accesses base s k
  constructor
  · rintro ⟨-, accesses, comparator', hsplit, hstores⟩
    rw [haccesses] at hsplit
    rw [← List.append_cancel_left hsplit] at hstores
    have henable : base + 0x10 = b + 0x10 :=
      congrArg Prod.fst (List.cons.inj hstores).1
    bv_omega
  · rintro rfl
    refine ⟨?_, _, comparator, haccesses, rfl⟩
    rw [started_load_base]
    rfl

/-- **When `timer_init` drives the device that the firmware describes**: exactly when the
register block that the table names is the page that the allocator is about to hand out. It
returns 0 unless the bits it takes for the period are zero. -/
theorem timerInit_drivesDevice_iff
    (hfind : find (cstr "HPET") stale s.kernel = .ok (.ok, table, k))
    (hmap : uacpiKernelMap table.virtAddr hpetRegSize slot k = .ok (base, k₁))
    (hbase : base ≠ 0) :
    ((∃ s', timerInit find stale slot s = .ok (0, s')) ↔ load64 k₁.mem base >>> 32 ≠ 0) ∧
      ∀ s', timerInit find stale slot s = .ok (0, s') →
        (DrivesDevice (acpiHpetAddress k.mem table.virtAddr) s s' ↔
          k.pmm.LowestFree (acpiHpetAddress k.mem table.virtAddr)) := by
  obtain ⟨hlowest, -⟩ := uacpiKernelMap_copies hmap hbase
  by_cases hperiod : load64 k₁.mem base >>> 32 = 0
  · have hrun := @timerInit_zero find stale table .ok slot base s k k₁ hfind hmap hbase hperiod
    refine ⟨iff_of_false ?_ fun h => h hperiod, fun s' h => ?_⟩
    · rintro ⟨s', h⟩
      rw [hrun] at h
      cases h
    · rw [hrun] at h
      cases h
  · have hrun := @timerInit_ok find stale table .ok slot base s k k₁ hfind hmap hbase hperiod
    refine ⟨iff_of_true ⟨_, hrun⟩ hperiod, fun s' h => ?_⟩
    rw [hrun] at h
    cases h
    rw [started_drivesDevice_iff]
    constructor
    · rintro h
      rwa [h]
    · intro h
      exact h.unique hlowest

end

/-! ### An example: a table outside the memory map -/

/-- A memory with a table at 0x5000 that names the registers at `b`: the signature "HPET", the
length 56 and the address. -/
def hpetTableMemory (b : Word) : Memory :=
  store64 (store64 (fun _ => 0) 0x5000 0x3854455048) (offset 0x5000 44) b

/-- A lookup that finds it. -/
def findSample (_signature : CBuf) (_stale : UacpiTable) (k : Kernel) :
    Exec (UacpiStatus × UacpiTable × Kernel) := .ok (.ok, ⟨0x5000, 0⟩, k)

/-- The timer's state before `timer_init`. -/
def TimerState.loaded (k : Kernel) : TimerState := ⟨k, 0, 0, 0, []⟩

theorem findSample_found (k : Kernel) :
    findSample (cstr "HPET") ⟨0, 0⟩ (TimerState.loaded k).kernel = .ok (.ok, ⟨0x5000, 0⟩, k) :=
  rfl

/-- The mapping of the table gives page 0x1000, and the period read from it is the length of
the table. -/
theorem sampleTimer_mapped (b : Word) :
    ∃ k k₁, bitmapInit sampleBoot (.loaded (hpetTableMemory b)) = .ok k ∧
      acpiHpetAddress k.mem 0x5000 = b ∧ k.pmm.LowestFree 0x1000 ∧
      uacpiKernelMap 0x5000 hpetRegSize 0xFFFF800000010058 k = .ok (0x1000, k₁) ∧
      load64 k₁.mem 0x1000 >>> 32 = 56 := by
  obtain ⟨k, hinit, hmem, href⟩ := sampleBoot_refines (.loaded (hpetTableMemory b))
  obtain ⟨s', serial', -, hmap⟩ :=
    uacpiKernelMap_refines href 0x5000 hpetRegSize 0xFFFF800000010058
  have hmap' : uacpiKernelMap 0x5000 hpetRegSize 0xFFFF800000010058 k = .ok (0x1000, _) := hmap
  obtain ⟨hlowest, hcopy⟩ := uacpiKernelMap_copies hmap' (by decide)
  refine ⟨k, _, hinit, ?_, hlowest, hmap', ?_⟩
  · rw [hmem]
    exact load64_store64 _ _ _
  · rw [hcopy, load64_memcpy (by decide) (by decide) (by decide), hmem]
    show load64 (hpetTableMemory b) 0x5000 >>> 32 = 56
    rw [hpetTableMemory, load64_store64_of_disjoint (by decide), load64_store64]
    rfl

/-- `timer_init` on this table. -/
theorem sampleTimer_started (b : Word) :
    ∃ k k₁, bitmapInit sampleBoot (.loaded (hpetTableMemory b)) = .ok k ∧
      acpiHpetAddress k.mem 0x5000 = b ∧ load64 k₁.mem 0x1000 >>> 32 = 56 ∧
      timerInit findSample ⟨0, 0⟩ 0xFFFF800000010058 (.loaded k) =
        .ok (0, (TimerState.loaded k).started 0x1000 k₁) := by
  obtain ⟨k, k₁, hinit, haddress, -, hmap, hperiod⟩ := sampleTimer_mapped b
  have hnonzero : load64 k₁.mem 0x1000 >>> 32 ≠ 0 := by
    rw [hperiod]
    decide
  exact ⟨k, k₁, hinit, haddress, hperiod,
    timerInit_ok (findSample_found k) hmap (by decide) hnonzero⟩

/-- A table that names page 0x1000 itself. -/
theorem timerInit_drivesDevice_sample :
    ∃ k s', bitmapInit sampleBoot (.loaded (hpetTableMemory 0x1000)) = .ok k ∧
      timerInit findSample ⟨0, 0⟩ 0xFFFF800000010058 (.loaded k) = .ok (0, s') ∧
      DrivesDevice 0x1000 (.loaded k) s' := by
  obtain ⟨k, k₁, hinit, haddress, hlowest, hmap, hperiod⟩ := sampleTimer_mapped 0x1000
  obtain ⟨hreturns, hdrives⟩ :=
    timerInit_drivesDevice_iff (findSample_found k) hmap (by decide)
  obtain ⟨s', hrun⟩ := hreturns.mpr (by rw [hperiod]; decide)
  have hiff : DrivesDevice (acpiHpetAddress k.mem 0x5000) (.loaded k) s' ↔
      k.pmm.LowestFree (acpiHpetAddress k.mem 0x5000) := hdrives s' hrun
  rw [haddress] at hiff
  exact ⟨k, s', hinit, hrun, hiff.mpr hlowest⟩

/-- With the usual address of an HPET, `timer_init` returns 0 and drives page 0x1000. -/
theorem timerInit_drives_copy :
    ∃ k s', bitmapInit sampleBoot (.loaded (hpetTableMemory 0xFED00000)) = .ok k ∧
      acpiHpetAddress k.mem 0x5000 = 0xFED00000 ∧
      timerInit findSample ⟨0, 0⟩ 0xFFFF800000010058 (.loaded k) = .ok (0, s') ∧
      s'.hpetPeriod = 56 ∧ DrivesDevice 0x1000 (.loaded k) s' ∧
      ¬ DrivesDevice 0xFED00000 (.loaded k) s' := by
  obtain ⟨k, k₁, hinit, haddress, hperiod, hrun⟩ := sampleTimer_started 0xFED00000
  refine ⟨k, _, hinit, haddress, hrun, hperiod, started_drivesDevice_iff.mpr rfl, ?_⟩
  rw [started_drivesDevice_iff]
  decide

end KptrOS
