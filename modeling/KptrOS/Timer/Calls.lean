import KptrOS.Lib.Runs
import KptrOS.Timer.Init

/-!
# What follows `timer_init`

`timer_init` checks neither of the calls it makes, nor the period it reads. What the later
calls find are the two static variables that it leaves.

- `TimerCall`: the later calls, with anything that the rest of the kernel does in between.
- `run_noBase`, `run_period`: without a base they are all refused, and with a base and a
  period none of them divides by zero.
- `timerInit_divides_iff`: when neither `timer_init` nor a later call divides by zero.
- `timerInit_null`, `timerInit_reportsFailure_iff`: what becomes of a failure.
-/

namespace KptrOS

open CSem

/-! ## Later calls -/

/-- What happens after `timer_init`. -/
inductive TimerCall where
  /-- `hpet_configure_timer(timer, interval_ms)`. -/
  | configure (timer intervalMs : Word)
  /-- `hpet_get_counter()`. -/
  | getCounter
  /-- Other parts of the kernel run. They do not see the static variables of `hpet.c`. -/
  | elsewhere (k : Kernel) (tick : Word)

/-- What a call returns. -/
inductive TimerResult where
  | code (ret : Int)
  | counter (value : Word)
  | none
deriving DecidableEq

/-- One call. -/
def TimerCall.step : TimerCall → TimerState → Exec (TimerResult × TimerState)
  | .configure timer intervalMs, s => do
    let r ← hpetConfigureTimer timer intervalMs s
    return (.code r.1, r.2)
  | .getCounter, s => do
    let r ← hpetGetCounter s
    return (.counter r.1, r.2)
  | .elsewhere k tick, s => return (.none, { s with kernel := k, tick := tick })

/-- How a call reports that the HPET is not initialized. -/
def TimerCall.refusal : TimerCall → TimerResult
  | .configure _ _ => .code (-1)
  | .getCounter => .counter 0
  | .elsewhere _ _ => .none

theorem hpetGetCounter_null {s : TimerState} (hbase : s.hpetBase = 0) :
    hpetGetCounter s = .ok (0, s.print (lit "[ ERR ] HPET not initialized\n")) := by
  rw [hpetGetCounter, if_pos hbase, serialWrite_cstr]
  rfl

theorem hpetGetCounter_ok {s : TimerState} (hbase : s.hpetBase ≠ 0) :
    hpetGetCounter s = .ok (hpetReadRegister hpetMainCounter s) := by
  rw [hpetGetCounter, if_neg hbase]
  rfl

/-- A call without a base is refused and touches no register. -/
theorem TimerCall.step_noBase (c : TimerCall) {s : TimerState} (hbase : s.hpetBase = 0) :
    ∃ s', c.step s = .ok (c.refusal, s') ∧ s'.hpetBase = 0 ∧ s'.accesses = s.accesses := by
  cases c with
  | configure timer intervalMs =>
    refine ⟨s.print (lit "[ ERR ] HPET not initialized\n"), ?_, hbase, rfl⟩
    rw [TimerCall.step, hpetConfigureTimer_null timer intervalMs hbase]
    rfl
  | getCounter =>
    refine ⟨s.print (lit "[ ERR ] HPET not initialized\n"), ?_, hbase, rfl⟩
    rw [TimerCall.step, hpetGetCounter_null hbase]
    rfl
  | elsewhere k tick => exact ⟨_, rfl, hbase, rfl⟩

/-- So is every later one. -/
theorem run_noBase (calls : List TimerCall) {s : TimerState} (hbase : s.hpetBase = 0) :
    ∃ s', run TimerCall.step calls s = .ok (calls.map TimerCall.refusal, s') ∧
      s'.hpetBase = 0 ∧ s'.accesses = s.accesses := by
  induction calls generalizing s with
  | nil => exact ⟨s, rfl, hbase, rfl⟩
  | cons c calls ih =>
    obtain ⟨s₁, hstep, hbase₁, haccesses₁⟩ := c.step_noBase hbase
    obtain ⟨s₂, hrun, hbase₂, haccesses₂⟩ := ih hbase₁
    exact ⟨s₂, run_cons_ok.mpr ⟨_, s₁, _, hstep, hrun, rfl⟩, hbase₂,
      haccesses₂.trans haccesses₁⟩

/-- A call with a base and a period succeeds and keeps both. -/
theorem TimerCall.step_period (c : TimerCall) {s : TimerState} (hbase : s.hpetBase ≠ 0)
    (hperiod : s.hpetPeriod ≠ 0) :
    ∃ o s', c.step s = .ok (o, s') ∧ s'.hpetBase ≠ 0 ∧ s'.hpetPeriod ≠ 0 := by
  cases c with
  | configure timer intervalMs =>
    refine ⟨.code 0, s.configured timer intervalMs, ?_, hbase, hperiod⟩
    rw [TimerCall.step, hpetConfigureTimer_ok timer intervalMs hbase hperiod]
    rfl
  | getCounter =>
    refine ⟨.counter (hpetReadRegister hpetMainCounter s).1,
      (hpetReadRegister hpetMainCounter s).2, ?_, hbase, hperiod⟩
    rw [TimerCall.step, hpetGetCounter_ok hbase]
    rfl
  | elsewhere k tick => exact ⟨.none, _, rfl, hbase, hperiod⟩

/-- So does every later one. -/
theorem run_period (calls : List TimerCall) {s : TimerState} (hbase : s.hpetBase ≠ 0)
    (hperiod : s.hpetPeriod ≠ 0) : ∃ outs s', run TimerCall.step calls s = .ok (outs, s') := by
  obtain ⟨outs, s', hrun, -⟩ := run_ok_inv
    (I := fun s : TimerState => s.hpetBase ≠ 0 ∧ s.hpetPeriod ≠ 0)
    (fun c _ hs => c.step_period hs.1 hs.2) calls ⟨hbase, hperiod⟩
  exact ⟨outs, s', hrun⟩

section

variable {find : CBuf → UacpiTable → Kernel → Exec (UacpiStatus × UacpiTable × Kernel)}
  {stale table : UacpiTable} {status : UacpiStatus} {slot base : Word} {s : TimerState}
  {k k₁ : Kernel}

/-! ## The division -/

/-- The state of `timer_init` after a mapping that failed: it has read the capabilities from
address 0 and written the configuration behind it. -/
def TimerState.startedNull (k : Kernel) (s : TimerState) : TimerState :=
  (((s.mapped 0 k).store hpetGeneralConfiguration hpetEnableCnf).print
    (lit "[ ERR ] HPET not initialized\n")).print (lit "[ OK ] HPET\n")

/-- **After a failed mapping** `timer_init` returns 0 all the same, having loaded from address
0 and stored to address 0x10. -/
theorem timerInit_null (hfind : find (cstr "HPET") stale s.kernel = .ok (status, table, k))
    (hmap : uacpiKernelMap table.virtAddr hpetRegSize slot k = .ok (0, k₁)) :
    timerInit find stale slot s = .ok (0, s.startedNull k₁) := by
  have hregister : 0 + hpetGeneralConfiguration = hpetGeneralConfiguration :=
    BitVec.zero_add _
  have hconfigure := @hpetConfigureTimer_null 0 100
    ((s.mapped 0 k₁).store hpetGeneralConfiguration hpetEnableCnf) rfl
  rw [timerInit_eq hfind hmap, hregister, hconfigure]
  rfl

/-- Neither `timer_init` nor any call after it divides by zero. -/
def NeverDividesByZero
    (find : CBuf → UacpiTable → Kernel → Exec (UacpiStatus × UacpiTable × Kernel))
    (stale : UacpiTable) (slot : Word) (s : TimerState) : Prop :=
  timerInit find stale slot s ≠ .error .divideByZero ∧
    ∀ ret s' calls, timerInit find stale slot s = .ok (ret, s') →
      run TimerCall.step calls s' ≠ .error .divideByZero

/-- **When the timer never divides by zero**: exactly when the mapping fails or the upper half
of the first eight bytes mapped is not zero. -/
theorem timerInit_divides_iff
    (hfind : find (cstr "HPET") stale s.kernel = .ok (status, table, k))
    (hmap : uacpiKernelMap table.virtAddr hpetRegSize slot k = .ok (base, k₁)) :
    NeverDividesByZero find stale slot s ↔ base = 0 ∨ load64 k₁.mem base >>> 32 ≠ 0 := by
  by_cases hbase : base = 0
  · subst hbase
    have hinit := timerInit_null hfind hmap
    refine iff_of_true ⟨fun h => ?_, fun ret s' calls h => ?_⟩ (.inl rfl)
    · rw [hinit] at h
      cases h
    · rw [hinit] at h
      cases h
      obtain ⟨s', hrun, -⟩ := @run_noBase calls (s.startedNull k₁) rfl
      rw [hrun]
      exact fun h => by cases h
  · by_cases hperiod : load64 k₁.mem base >>> 32 = 0
    · refine iff_of_false (fun h => h.1 (timerInit_zero hfind hmap hbase hperiod)) ?_
      rintro (h | h)
      · exact hbase h
      · exact h hperiod
    · have hinit := timerInit_ok hfind hmap hbase hperiod
      refine iff_of_true ⟨fun h => ?_, fun ret s' calls h => ?_⟩ (.inr hperiod)
      · rw [hinit] at h
        cases h
      · rw [hinit] at h
        cases h
        obtain ⟨outs, s', hrun⟩ := @run_period calls (s.started base k₁) hbase hperiod
        rw [hrun]
        exact fun h => by cases h

/-! ## The report of a failure -/

/-- A failure is reported by the return value and by every later call, and no register is
touched. -/
def ReportsFailure (failed : Prop) (r : Exec (Int × TimerState)) (s : TimerState) : Prop :=
  failed → ∃ ret s', r = .ok (ret, s') ∧ ret ≠ 0 ∧ s'.accesses = s.accesses ∧
    s'.hpetBase = 0 ∧ ∀ calls, ∃ s'', run TimerCall.step calls s' =
      .ok (calls.map TimerCall.refusal, s'') ∧ s''.accesses = s.accesses

/-- `timer_init` returns 0 or not at all. -/
theorem timerInit_ret (hfind : find (cstr "HPET") stale s.kernel = .ok (status, table, k))
    (hmap : uacpiKernelMap table.virtAddr hpetRegSize slot k = .ok (base, k₁)) {ret : Int}
    {s' : TimerState} (h : timerInit find stale slot s = .ok (ret, s')) : ret = 0 := by
  rw [timerInit_eq hfind hmap] at h
  obtain ⟨⟨_, s₁⟩, -, h⟩ := bind_eq_ok.mp h
  cases h
  rfl

/-- **When a failure is reported**: only if there is none. After a failed mapping the later
calls are refused, but `timer_init` has returned 0 and used address 0 as the base. -/
theorem timerInit_reportsFailure_iff
    (hfind : find (cstr "HPET") stale s.kernel = .ok (status, table, k))
    (hmap : uacpiKernelMap table.virtAddr hpetRegSize slot k = .ok (base, k₁)) :
    (ReportsFailure (status ≠ .ok ∨ base = 0) (timerInit find stale slot s) s ↔
        status = .ok ∧ base ≠ 0) ∧
      (base = 0 → ∃ s', timerInit find stale slot s = .ok (0, s') ∧ s'.accesses =
          s.accesses ++ [.load 0, .store hpetGeneralConfiguration hpetEnableCnf] ∧
        ∀ calls, ∃ s'', run TimerCall.step calls s' =
          .ok (calls.map TimerCall.refusal, s'') ∧ s''.accesses = s'.accesses) := by
  refine ⟨⟨fun hreports => ?_, ?_⟩, ?_⟩
  · by_contra hfailed
    rw [not_and_or, not_not] at hfailed
    obtain ⟨ret, s', hrun, hret, -⟩ := hreports hfailed
    exact hret (timerInit_ret hfind hmap hrun)
  · rintro ⟨hstatus, hbase⟩ (hfailed | hfailed)
    · exact absurd hstatus hfailed
    · exact absurd hfailed hbase
  · rintro rfl
    refine ⟨s.startedNull k₁, timerInit_null hfind hmap, List.append_assoc _ _ _,
      fun calls => ?_⟩
    obtain ⟨s'', hrun, -, haccesses⟩ := @run_noBase calls (s.startedNull k₁) rfl
    exact ⟨s'', hrun, haccesses⟩

end

/-! ### Examples: a timer with a period, a lookup that fails, a full allocator -/

/-- The table of 56 bytes gives the period 56. -/
theorem timerInit_divides_sample :
    ∃ k, bitmapInit sampleBoot (.loaded (hpetTableMemory 0xFED00000)) = .ok k ∧
      NeverDividesByZero findSample ⟨0, 0⟩ 0xFFFF800000010058 (.loaded k) := by
  obtain ⟨k, k₁, hinit, -, -, hmap, hperiod⟩ := sampleTimer_mapped 0xFED00000
  refine ⟨k, hinit, (timerInit_divides_iff (findSample_found k) hmap).mpr (.inr ?_)⟩
  rw [hperiod]
  decide

/-- A lookup that fails and leaves the structure as it is. -/
def findMissing (_signature : CBuf) (stale : UacpiTable) (k : Kernel) :
    Exec (UacpiStatus × UacpiTable × Kernel) := .ok (.notFound, stale, k)

theorem findMissing_failed (k : Kernel) (stale : UacpiTable) :
    findMissing (cstr "HPET") stale (TimerState.loaded k).kernel = .ok (.notFound, stale, k) :=
  rfl

/-- Without a table, what is mapped is whatever the stack held; the division faults when that
address holds zeros. -/
theorem timerInit_divides_byZero :
    ∃ k, bitmapInit sampleBoot (.loaded fun _ => 0) = .ok k ∧
      timerInit findMissing ⟨0x5000, 0⟩ 0xFFFF800000010058 (.loaded k) =
        .error .divideByZero := by
  obtain ⟨k, hinit, hmem, href⟩ := sampleBoot_refines (.loaded fun _ => 0)
  obtain ⟨s', serial', -, hmap⟩ :=
    uacpiKernelMap_refines href 0x5000 hpetRegSize 0xFFFF800000010058
  have hmap' : uacpiKernelMap 0x5000 hpetRegSize 0xFFFF800000010058 k = .ok (0x1000, _) := hmap
  obtain ⟨-, hcopy⟩ := uacpiKernelMap_copies hmap' (by decide)
  refine ⟨k, hinit, timerInit_zero (findMissing_failed k _) hmap' (by decide) ?_⟩
  rw [hcopy, load64_memcpy (by decide) (by decide) (by decide), hmem]
  rfl

/-- A memory map without a usable page. -/
def emptyBoot : Boot := { sampleBoot with memmap := [] }

/-- Every mapping over it fails. -/
theorem emptyBoot_unmapped :
    ∃ k k₁, bitmapInit emptyBoot (.loaded fun _ => 0) = .ok k ∧
      uacpiKernelMap 0x5000 hpetRegSize 0xFFFF800000010058 k = .ok (0, k₁) := by
  obtain ⟨s, tables, hfresh, -, hinit⟩ := bitmapInit_ok emptyBoot (.loaded fun _ => 0)
  rcases uacpiKernelMap_cases (k := { Kernel.loaded (fun _ => 0) with pmm := s, tables := tables })
    hfresh.inBounds 0x5000 hpetRegSize 0xFFFF800000010058 with
    ⟨i, _, _, hi, -⟩ | ⟨-, serial', hmap⟩
  · rw [hfresh.total] at hi
    exact absurd hi (Nat.not_lt_zero i)
  · exact ⟨_, _, hinit, hmap⟩

/-- The failed mapping is not reported, and address 0 is used as the base. -/
theorem timerInit_reportsFailure_null :
    ∃ k s', bitmapInit emptyBoot (.loaded fun _ => 0) = .ok k ∧
      timerInit findSample ⟨0, 0⟩ 0xFFFF800000010058 (.loaded k) = .ok (0, s') ∧
      s'.accesses = [.load 0, .store 0x10 1] := by
  obtain ⟨k, k₁, hinit, hmap⟩ := emptyBoot_unmapped
  obtain ⟨-, hnull⟩ := timerInit_reportsFailure_iff (findSample_found k) hmap
  obtain ⟨s', hrun, haccesses, -⟩ := hnull rfl
  exact ⟨k, s', hinit, hrun, haccesses⟩

/-- Neither failure is reported: not that of the mapping, and not that of the lookup, after
which a page is driven that holds whatever the stale address points to. -/
theorem timerInit_hidesFailure :
    (∃ k k₁, bitmapInit emptyBoot (.loaded fun _ => 0) = .ok k ∧
      uacpiKernelMap 0x5000 hpetRegSize 0xFFFF800000010058 k = .ok (0, k₁) ∧
      ∃ s', timerInit findSample ⟨0, 0⟩ 0xFFFF800000010058 (.loaded k) = .ok (0, s') ∧
        s'.accesses = [.load 0, .store 0x10 1]) ∧
    ∃ k s', bitmapInit sampleBoot (.loaded (hpetTableMemory 0)) = .ok k ∧
      timerInit findMissing ⟨0x5000, 0⟩ 0xFFFF800000010058 (.loaded k) = .ok (0, s') ∧
      s'.hpetBase = 0x1000 ∧ s'.accesses ≠ [] := by
  constructor
  · obtain ⟨k, k₁, hinit, hmap⟩ := emptyBoot_unmapped
    exact ⟨k, k₁, hinit, hmap, _, timerInit_null (findSample_found k) hmap, rfl⟩
  · obtain ⟨k, k₁, hinit, -, -, hmap, hperiod⟩ := sampleTimer_mapped 0
    have hnonzero : load64 k₁.mem 0x1000 >>> 32 ≠ 0 := by
      rw [hperiod]
      decide
    refine ⟨k, _, hinit, timerInit_ok (findMissing_failed k _) hmap (by decide) hnonzero,
      rfl, ?_⟩
    obtain ⟨comparator, haccesses⟩ := @started_accesses 0x1000 (.loaded k) k₁
    rw [haccesses]
    exact List.cons_ne_nil _ _

end KptrOS
