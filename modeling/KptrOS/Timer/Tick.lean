import KptrOS.Cpu.Report
import KptrOS.Lib.Runs
import KptrOS.Timer.Init

/-!
# The timer interrupt (`hpet_interrupt_handler` and `interrupt_handler` in `kern/cpu/idt.c`)

The handler is meant to acknowledge the interrupt at the base that `timer_init` has stored, and
to count it. It tests a local variable of that name, which is NULL, and returns.

- `hpetInterruptHandler`, `interruptHandler`: the source's functions.
- `interruptHandler_enters`: the dispatch is the one described in `Cpu/Frame.lean`.
- `interruptHandler_step`, `interruptHandler_run`: one interrupt, and any number of them,
  leave the timer as it is.
- `countsInterrupts_iff`: interrupts are counted exactly when there are none.
-/

namespace KptrOS

open CSem

/-! ## The functions -/

/-- `hpet_interrupt_handler(regs)`. The parameter is not used. -/
def hpetInterruptHandler (_regs : Registers) (s : TimerState) : Exec TimerState := do
  -- the local variable hides the one of `timers.h`, which is not included either
  let hpetBase : Word := 0
  if hpetBase = 0 then
    let serial ← serialWrite (cstr "[ ERR ] HPET base address is NULL\n") s.kernel.serial
    return { s with kernel.serial := serial }
  let s := s.store (hpetBase + 0x20) 1
  let s := { s with tick := s.tick + 1 }
  let serial ← serialPrintf (cstr "[ INFO ] HPET Interrupt: Tick %d\n") [.word s.tick]
    s.kernel.serial
  return { s with kernel.serial := serial }

/-- An interrupt: the frame that `interrupt_handler` is passed, which is missing for a NULL
pointer, and what a page fault handler finds in `cr2` and on the stack. -/
structure Interrupt where
  frame : Option Registers
  cr2 : Word
  stale : CpuState

/-- `interrupt_handler(regs)`: the loop that the execution ends in, if it does not return, and
the state. -/
def interruptHandler (e : Interrupt) (s : TimerState) : Exec (Option HaltLoop × TimerState) :=
  match e.frame with
  | none => do
    let serial ← serialWrite (cstr "[ ERR ] interrupt_handler called with NULL regs\n")
      s.kernel.serial
    return (none, { s with kernel.serial := serial })
  | some regs =>
    if regs.intNo = 14 then do
      let (loop, serial) ← pageFaultHandler e.cr2 regs e.stale s.kernel.serial
      return (some loop, { s with kernel.serial := serial })
    else if regs.intNo = 2 then do
      let s ← hpetInterruptHandler regs s
      return (none, s)
    else return (none, s)

/-! ## The dispatch -/

/-- The branch of `interrupt_handler` that the interrupt takes. -/
def Interrupt.enters (e : Interrupt) : Entered :=
  match e.frame with
  | none => .nullRegs
  | some regs =>
    if regs.intNo = 14 then .pageFaultHandler
    else if regs.intNo = 2 then .hpetInterruptHandler
    else .nothing

/-- The frame behind a pointer. -/
def frameAt (m : Memory) (regs : Word) : Option Registers :=
  if regs = 0 then none else some (readRegisters m regs)

theorem interruptHandler_enters (m : Memory) (regs cr2 : Word) (stale : CpuState) :
    Interrupt.enters ⟨frameAt m regs, cr2, stale⟩ = interruptHandlerEnters m regs := by
  rw [interruptHandlerEnters, Interrupt.enters, frameAt]
  by_cases hnull : regs = 0
  · rw [if_pos hnull, if_pos hnull]
  · rw [if_neg hnull, if_neg hnull]

/-! ## What an interrupt does -/

/-- The HPET handler writes its message. -/
theorem hpetInterruptHandler_ok (regs : Registers) (s : TimerState) :
    hpetInterruptHandler regs s =
      .ok (s.print (lit "[ ERR ] HPET base address is NULL\n")) := by
  rw [hpetInterruptHandler]
  dsimp only
  rw [if_pos rfl, serialWrite_cstr]
  rfl

/-- One interrupt returns, unless it is a page fault, and does no more than write text. -/
theorem interruptHandler_step {e : Interrupt} (he : e.enters ≠ .pageFaultHandler)
    (s : TimerState) : ∃ text, interruptHandler e s = .ok (none, s.print text) := by
  obtain ⟨frame, cr2, stale⟩ := e
  cases frame with
  | none =>
    refine ⟨lit "[ ERR ] interrupt_handler called with NULL regs\n", ?_⟩
    rw [interruptHandler]
    dsimp only
    rw [serialWrite_cstr]
    rfl
  | some regs =>
    rw [Interrupt.enters] at he
    rw [interruptHandler]
    dsimp only at he ⊢
    by_cases h14 : regs.intNo = 14
    · rw [if_pos h14] at he
      exact absurd rfl he
    · rw [if_neg h14]
      by_cases h2 : regs.intNo = 2
      · refine ⟨lit "[ ERR ] HPET base address is NULL\n", ?_⟩
        rw [if_pos h2, hpetInterruptHandler_ok]
        rfl
      · refine ⟨[], ?_⟩
        rw [if_neg h2, TimerState.print, List.append_nil]
        rfl

/-- And so does any number of them. -/
theorem interruptHandler_run {es : List Interrupt} (s : TimerState)
    (hes : ∀ e ∈ es, e.enters ≠ .pageFaultHandler) :
    ∃ outs text, run interruptHandler es s = .ok (outs, s.print text) := by
  induction es generalizing s with
  | nil =>
    refine ⟨[], [], ?_⟩
    rw [TimerState.print, List.append_nil]
    rfl
  | cons e es ih =>
    obtain ⟨text, hstep⟩ := interruptHandler_step (hes e List.mem_cons_self) s
    obtain ⟨outs, texts, hrun⟩ := ih (s.print text) fun e' he' =>
      hes e' (List.mem_cons_of_mem e he')
    refine ⟨none :: outs, text ++ texts, run_cons_ok.mpr ⟨none, _, outs, hstep, ?_, rfl⟩⟩
    rw [hrun, TimerState.print, TimerState.print, TimerState.print, List.append_assoc]

/-! ## Counting -/

/-- The number of interrupts that `interrupt_handler` dispatches to
`hpet_interrupt_handler`. -/
def dispatched (es : List Interrupt) : Nat :=
  es.countP fun e => e.enters = .hpetInterruptHandler

/-- The number of writes to the interrupt status register of the HPET at `base`. -/
def acknowledgements (base : Word) (accesses : List HpetAccess) : Nat :=
  accesses.countP fun
    | .load _ => false
    | .store addr _ => addr = base + 0x20

/-- Between the two states each of the interrupts is counted and acknowledged once. -/
structure CountsInterrupts (es : List Interrupt) (s s' : TimerState) : Prop where
  tick : s'.tick = s.tick + BitVec.ofNat 64 (dispatched es)
  acknowledged : acknowledgements s.hpetBase s'.accesses =
    acknowledgements s.hpetBase s.accesses + dispatched es

/-- **When no timer interrupt is lost**: when there was none. This holds whatever base
`timer_init` has stored, for every sequence of interrupts without a page fault, and the
handlers return. -/
theorem countsInterrupts_iff (es : List Interrupt) (s : TimerState)
    (hes : ∀ e ∈ es, e.enters ≠ .pageFaultHandler) :
    ∃ outs s', run interruptHandler es s = .ok (outs, s') ∧
      (CountsInterrupts es s s' ↔ ∀ e ∈ es, e.enters ≠ .hpetInterruptHandler) := by
  obtain ⟨outs, text, hrun⟩ := interruptHandler_run s hes
  refine ⟨outs, _, hrun, ?_⟩
  have hnone : dispatched es = 0 ↔ ∀ e ∈ es, e.enters ≠ .hpetInterruptHandler := by
    simp only [dispatched, List.countP_eq_zero, decide_eq_true_eq, ne_eq]
  rw [← hnone]
  constructor
  · rintro ⟨-, hacknowledged⟩
    rw [TimerState.print_accesses] at hacknowledged
    exact Nat.add_eq_left.mp hacknowledged.symm
  · intro hzero
    refine ⟨?_, ?_⟩
    · rw [hzero, TimerState.print_tick]
      exact (BitVec.add_zero s.tick).symm
    · rw [hzero, TimerState.print_accesses]
      rfl

/-- An interrupt with this vector. -/
def sampleInterrupt (intNo : Word) : Interrupt := ⟨some { sampleFault with intNo }, 0, staleZero⟩

/-- After `timer_init`, interrupts that are not the timer's leave the counter alone. -/
theorem countsInterrupts_sample :
    ∃ k s outs s', bitmapInit sampleBoot (.loaded (hpetTableMemory 0xFED00000)) = .ok k ∧
      timerInit findSample ⟨0, 0⟩ 0xFFFF800000010058 (.loaded k) = .ok (0, s) ∧
      run interruptHandler [⟨none, 0, staleZero⟩, sampleInterrupt 32] s = .ok (outs, s') ∧
      CountsInterrupts [⟨none, 0, staleZero⟩, sampleInterrupt 32] s s' := by
  obtain ⟨k, k₁, hinit, -, -, hstart⟩ := sampleTimer_started 0xFED00000
  obtain ⟨outs, s', hrun, hcounts⟩ := countsInterrupts_iff
    [⟨none, 0, staleZero⟩, sampleInterrupt 32] ((TimerState.loaded k).started 0x1000 k₁)
    (by decide)
  exact ⟨k, _, outs, s', hinit, hstart, hrun, hcounts.mpr (by decide)⟩

/-- After `timer_init` has stored the base 0x1000, a timer interrupt is not counted. -/
theorem interrupt_lost :
    ∃ k s outs s', bitmapInit sampleBoot (.loaded (hpetTableMemory 0xFED00000)) = .ok k ∧
      timerInit findSample ⟨0, 0⟩ 0xFFFF800000010058 (.loaded k) = .ok (0, s) ∧
      s.hpetBase = 0x1000 ∧ run interruptHandler [sampleInterrupt 2] s = .ok (outs, s') ∧
      dispatched [sampleInterrupt 2] = 1 ∧ s'.tick = s.tick ∧ s'.accesses = s.accesses ∧
      ¬ CountsInterrupts [sampleInterrupt 2] s s' := by
  obtain ⟨k, k₁, hinit, -, -, hstart⟩ := sampleTimer_started 0xFED00000
  obtain ⟨outs, text, hrun⟩ := @interruptHandler_run [sampleInterrupt 2]
    ((TimerState.loaded k).started 0x1000 k₁) (by decide)
  have hone : dispatched [sampleInterrupt 2] = 1 := by decide
  have hbase : ((TimerState.loaded k).started 0x1000 k₁).hpetBase = 0x1000 :=
    TimerState.print_hpetBase _ _
  refine ⟨k, _, outs, _, hinit, hstart, hbase, hrun, hone, TimerState.print_tick _ _,
    TimerState.print_accesses _ _, fun hcounts => ?_⟩
  have hacknowledged := hcounts.acknowledged
  rw [hone, TimerState.print_accesses] at hacknowledged
  exact Nat.succ_ne_self _ hacknowledged.symm

end KptrOS
