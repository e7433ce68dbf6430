import KptrOS.Cpu.Frame
import KptrOS.Serial.Printf

/-!
# Exception reports (`page_fault_handler` and `exception_handler` in `kern/cpu/idt.c`, `kern/panic.c`)

A page fault is reported with the state of the processor and ends in a loop around `hlt`.
The state is a local variable of `exception_handler` that `capture_cpu_state` prints and does
not fill, so that its initial content, whatever the stack holds, is a parameter here.

- `pageFaultHandler`, `exceptionHandler`, `captureCpuState`, `coredump`, `panic`: the
  source's functions.
- `faultText`, `stateText`: what is written about the fault and about the state.
- `coredump_ok`, `exceptionHandler_ok`, `pageFaultHandler_ok`: the functions write these
  texts, and nothing else.
-/

namespace KptrOS

open CSem

/-! ## The functions -/

/-- `cpu_state_t`. -/
structure CpuState where
  rip : Word
  rsp : Word
  rbp : Word
  rflags : Word
  registers : Arr 16 Word

/-- The loop around `hlt` that an execution ends in. -/
inductive HaltLoop where
  /-- The loop of `exception_handler`. -/
  | exceptionHandler
  /-- The loop of `panic` for a NULL state. -/
  | panicNull
  /-- The loop at the end of `panic`. -/
  | panic
deriving DecidableEq

/-- `capture_cpu_state(state)`: the state behind the pointer afterwards, and the output. -/
def captureCpuState : Option CpuState → Com1 → Exec (Option CpuState × Com1)
  | none, out => do
    return (none, ← serialWrite (cstr "[ ERR ] capture_cpu_state called with NULL state\n") out)
  | some state, out => do
    let out ← serialPrintf (cstr "[ DEBUG ] Captured CPU State: RIP=%x, RSP=%x, RBP=%x\n")
      [.word state.rip, .word state.rsp, .word state.rbp] out
    return (some state, out)

/-- A line of the core dump: a name and a value. -/
def coredumpLine (name : String) (value : Word) (out : Com1) : Exec Com1 := do
  let out ← serialWrite (cstr name) out
  let out ← serialWriteHex value out
  serialWrite (cstr "\n") out

/-- The loop of `coredump` over the registers. -/
def coredumpRegister (state : CpuState) (i : Nat) (out : Com1) : Exec Com1 := do
  let out ← serialWrite (cstr "REG[") out
  let out ← serialWriteDec (BitVec.ofNat 64 i) out
  coredumpLine "]: " (← state.registers.get i) out

/-- `coredump(state)`. -/
def coredump (state : CpuState) (out : Com1) : Exec Com1 := do
  let out ← serialWrite (cstr "\n--- CORE DUMP ---\n") out
  let out ← coredumpLine "RIP: " state.rip out
  let out ← coredumpLine "RSP: " state.rsp out
  let out ← coredumpLine "RBP: " state.rbp out
  let out ← coredumpLine "RFLAGS: " state.rflags out
  let out ← forRange (coredumpRegister state) 16 0 out
  serialWrite (cstr "--- END CORE DUMP ---\n") out

/-- `panic(state)`: the loop it ends in, and the output. -/
def panic (state : Option CpuState) (out : Com1) : Exec (HaltLoop × Com1) := do
  let out ← serialWrite (cstr "\n*** KERNEL PANIC ***\n") out
  let out ← serialWrite (cstr "Fuck happened?\n") out
  match state with
  | none =>
    let out ← serialWrite
      (cstr "[ ERR ] Panic called with NULL state. Cannot generate core dump.\n") out
    return (.panicNull, out)
  | some state =>
    let out ← coredump state out
    return (.panic, out)

/-- `exception_handler(vector, error_code)`, with its local variable `state` holding `stale`
before it is used. -/
def exceptionHandler (vector errorCode : Word) (stale : CpuState) (out : Com1) :
    Exec (HaltLoop × Com1) := do
  let out ← serialPrintf (cstr "[ EXCEPTION ] Vector: %x, Error Code: %x\n")
    [.word vector, .word errorCode] out
  let (captured, out) ← captureCpuState (some stale) out
  let state := captured.getD stale
  let out ← serialPrintf (cstr "[ DEBUG ] Captured CPU State: RIP=%x, RSP=%x, RBP=%x\n")
    [.word state.rip, .word state.rsp, .word state.rbp] out
  if state.rip = 0 ∨ state.rip = 1 then
    let out ← serialPrintf (cstr "[ ERR ] Invalid RIP value: %x\n") [.word state.rip] out
    return (.exceptionHandler, out)
  else panic (some state) out

/-- `if (flag) serial_write(set); else serial_write(clear);` -/
def serialWriteFlag (flag : Word) (set clear : String) (out : Com1) : Exec Com1 :=
  if flag ≠ 0 then serialWrite (cstr set) out else serialWrite (cstr clear) out

/-- `if (flag) serial_write(set);` -/
def serialWriteIf (flag : Word) (set : String) (out : Com1) : Exec Com1 :=
  if flag ≠ 0 then serialWrite (cstr set) out else return out

/-- `page_fault_handler(regs)`, with the value of `cr2`. -/
def pageFaultHandler (cr2 : Word) (regs : Registers) (stale : CpuState) (out : Com1) :
    Exec (HaltLoop × Com1) := do
  let out ← serialPrintf (cstr "[ ERR ] Page Fault at address: %x, Error Code: %x\n")
    [.word cr2, .word regs.errCode] out
  let out ← serialWriteFlag (regs.errCode &&& 1)
    "[ INFO ] Page-level protection violation\n" "[ INFO ] Non-present page\n" out
  let out ← serialWriteFlag (regs.errCode &&& 2)
    "[ INFO ] Write access\n" "[ INFO ] Read access\n" out
  let out ← serialWriteFlag (regs.errCode &&& 4)
    "[ INFO ] Fault in user-mode\n" "[ INFO ] Fault in kernel-mode\n" out
  let out ← serialWriteIf (regs.errCode &&& 8)
    "[ INFO ] Fault caused by reserved bit set\n" out
  let out ← serialWriteIf (regs.errCode &&& 16) "[ INFO ] Instruction fetch fault\n" out
  exceptionHandler regs.intNo regs.errCode stale out

/-! ## The texts -/

/-- The line with the captured state. -/
def capturedText (state : CpuState) : List Byte :=
  hexFormatText "[ DEBUG ] Captured CPU State: RIP="
    [(state.rip, ", RSP="), (state.rsp, ", RBP="), (state.rbp, "\n")]

/-- A line of the core dump. -/
def lineText (name : String) (value : Word) : List Byte := hexFormatText name [(value, "\n")]

/-- The line of a register. -/
def registerText (state : CpuState) (i : Fin 16) : List Byte :=
  lit "REG[" ++ (decText i ++ lineText "]: " (state.registers.elem i))

/-- The core dump. -/
def coredumpText (state : CpuState) : List Byte :=
  lit "\n--- CORE DUMP ---\n" ++ (lineText "RIP: " state.rip ++ (lineText "RSP: " state.rsp ++
    (lineText "RBP: " state.rbp ++ (lineText "RFLAGS: " state.rflags ++
      ((List.finRange 16).flatMap (registerText state) ++ lit "--- END CORE DUMP ---\n")))))

/-- `exception_handler` does not dump the state. -/
def CpuState.InvalidRip (state : CpuState) : Prop := state.rip = 0 ∨ state.rip = 1

instance (state : CpuState) : Decidable state.InvalidRip := inferInstanceAs (Decidable (_ ∨ _))

/-- What is written behind the captured state. -/
def outcomeText (state : CpuState) : List Byte :=
  if state.InvalidRip then
    hexFormatText "[ ERR ] Invalid RIP value: " [(state.rip, "\n")]
  else lit "\n*** KERNEL PANIC ***\n" ++ (lit "Fuck happened?\n" ++ coredumpText state)

/-- What is written about the state: it is captured twice, and then dumped. -/
def stateText (state : CpuState) : List Byte :=
  capturedText state ++ (capturedText state ++ outcomeText state)

/-- The loop that the report ends in. -/
def stateLoop (state : CpuState) : HaltLoop :=
  if state.InvalidRip then .exceptionHandler else .panic

/-- What is written about an exception before the state. -/
def exceptionText (vector errorCode : Word) : List Byte :=
  hexFormatText "[ EXCEPTION ] Vector: " [(vector, ", Error Code: "), (errorCode, "\n")]

/-- What is written about a flag. -/
def flagText (flag : Word) (set clear : String) : List Byte :=
  if flag ≠ 0 then lit set else lit clear

/-- What is written about a page fault before that. -/
def faultText (cr2 errorCode : Word) : List Byte :=
  hexFormatText "[ ERR ] Page Fault at address: "
      [(cr2, ", Error Code: "), (errorCode, "\n")] ++
    (flagText (errorCode &&& 1) "[ INFO ] Page-level protection violation\n"
      "[ INFO ] Non-present page\n" ++
    (flagText (errorCode &&& 2) "[ INFO ] Write access\n" "[ INFO ] Read access\n" ++
    (flagText (errorCode &&& 4) "[ INFO ] Fault in user-mode\n"
      "[ INFO ] Fault in kernel-mode\n" ++
    (flagText (errorCode &&& 8) "[ INFO ] Fault caused by reserved bit set\n" "" ++
    flagText (errorCode &&& 16) "[ INFO ] Instruction fetch fault\n" ""))))

/-! ## The functions write the texts -/

theorem serialPrintf_captured (state : CpuState) (out : Com1) :
    serialPrintf (cstr "[ DEBUG ] Captured CPU State: RIP=%x, RSP=%x, RBP=%x\n")
        [.word state.rip, .word state.rsp, .word state.rbp] out =
      .ok (out ++ capturedText state) := by
  have hitems : formatItems (cstr "[ DEBUG ] Captured CPU State: RIP=%x, RSP=%x, RBP=%x\n") =
      some (hexFormatItems "[ DEBUG ] Captured CPU State: RIP="
        [(state.rip, ", RSP="), (state.rsp, ", RBP="), (state.rbp, "\n")]) := by
    simp [lit, cstr, cText, formatItems, FormatItem.ofDirective, literals, hexFormatItems]
  exact serialPrintf_hexFormat hitems out

theorem serialPrintf_invalidRip (rip : Word) (out : Com1) :
    serialPrintf (cstr "[ ERR ] Invalid RIP value: %x\n") [.word rip] out =
      .ok (out ++ hexFormatText "[ ERR ] Invalid RIP value: " [(rip, "\n")]) := by
  have hitems : formatItems (cstr "[ ERR ] Invalid RIP value: %x\n") =
      some (hexFormatItems "[ ERR ] Invalid RIP value: " [(rip, "\n")]) := by
    simp [lit, cstr, cText, formatItems, FormatItem.ofDirective, literals, hexFormatItems]
  exact serialPrintf_hexFormat hitems out

theorem serialPrintf_exception (vector errorCode : Word) (out : Com1) :
    serialPrintf (cstr "[ EXCEPTION ] Vector: %x, Error Code: %x\n")
        [.word vector, .word errorCode] out =
      .ok (out ++ exceptionText vector errorCode) := by
  have hitems : formatItems (cstr "[ EXCEPTION ] Vector: %x, Error Code: %x\n") =
      some (hexFormatItems "[ EXCEPTION ] Vector: "
        [(vector, ", Error Code: "), (errorCode, "\n")]) := by
    simp [lit, cstr, cText, formatItems, FormatItem.ofDirective, literals, hexFormatItems]
  exact serialPrintf_hexFormat hitems out

theorem serialPrintf_pageFault (cr2 errorCode : Word) (out : Com1) :
    serialPrintf (cstr "[ ERR ] Page Fault at address: %x, Error Code: %x\n")
        [.word cr2, .word errorCode] out =
      .ok (out ++ hexFormatText "[ ERR ] Page Fault at address: "
        [(cr2, ", Error Code: "), (errorCode, "\n")]) := by
  have hitems : formatItems (cstr "[ ERR ] Page Fault at address: %x, Error Code: %x\n") =
      some (hexFormatItems "[ ERR ] Page Fault at address: "
        [(cr2, ", Error Code: "), (errorCode, "\n")]) := by
    simp [lit, cstr, cText, formatItems, FormatItem.ofDirective, literals, hexFormatItems]
  exact serialPrintf_hexFormat hitems out

theorem serialWriteFlag_ok (flag : Word) (set clear : String) (out : Com1) :
    serialWriteFlag flag set clear out = .ok (out ++ flagText flag set clear) := by
  rw [serialWriteFlag, flagText]
  by_cases hflag : flag ≠ 0
  · rw [if_pos hflag, if_pos hflag, serialWrite_cstr]
  · rw [if_neg hflag, if_neg hflag, serialWrite_cstr]

theorem serialWriteIf_ok (flag : Word) (set : String) (out : Com1) :
    serialWriteIf flag set out = .ok (out ++ flagText flag set "") := by
  rw [serialWriteIf, flagText]
  by_cases hflag : flag ≠ 0
  · rw [if_pos hflag, if_pos hflag, serialWrite_cstr]
  · have hempty : lit "" = [] := rfl
    rw [if_neg hflag, if_neg hflag, hempty, List.append_nil]
    rfl

theorem lineText_eq (name : String) (value : Word) :
    lineText name value = lit name ++ (hexText value ++ lit "\n") := by
  rw [lineText, hexFormatText, List.flatMap_singleton]

theorem coredumpLine_ok (name : String) (value : Word) (out : Com1) :
    coredumpLine name value out = .ok (out ++ lineText name value) := by
  simp only [coredumpLine, serialWrite_cstr, serialWriteHex_text, ok_bind, List.append_assoc,
    lineText_eq]

theorem coredumpRegister_ok (state : CpuState) (i : Fin 16) (out : Com1) :
    coredumpRegister state i out = .ok (out ++ registerText state i) := by
  have hi : (BitVec.ofNat 64 i).toNat = i := by
    rw [BitVec.toNat_ofNat]
    omega
  simp only [coredumpRegister, registerText, serialWrite_cstr, serialWriteDec_text, hi, ok_bind,
    Arr.get_of_lt _ i.isLt, coredumpLine_ok, List.append_assoc]

/-- The loop over the registers. -/
theorem coredumpRegisters_ok (state : CpuState) (out : Com1) :
    forRange (coredumpRegister state) 16 0 out =
      .ok (out ++ (List.finRange 16).flatMap (registerText state)) := by
  have hstep : ∀ i out', i < 16 →
      out' = out ++ ((List.finRange 16).take i).flatMap (registerText state) →
      ∃ out'', coredumpRegister state i out' = .ok out'' ∧
        out'' = out ++ ((List.finRange 16).take (i + 1)).flatMap (registerText state) := by
    rintro i _ hi rfl
    refine ⟨_, coredumpRegister_ok state ⟨i, hi⟩ _, ?_⟩
    have hlen : i < (List.finRange 16).length := by rwa [List.length_finRange]
    rw [List.take_succ_eq_append_getElem hlen, List.flatMap_append, List.flatMap_singleton,
      List.append_assoc, List.getElem_finRange]
    rfl
  obtain ⟨out', hrun, rfl⟩ := forRange_zero_inv
    (fun i (out' : Com1) =>
      out' = out ++ ((List.finRange 16).take i).flatMap (registerText state))
    (List.append_nil out).symm hstep
  exact hrun

theorem coredump_ok (state : CpuState) (out : Com1) :
    coredump state out = .ok (out ++ coredumpText state) := by
  simp only [coredump, coredumpText, serialWrite_cstr, coredumpLine_ok, coredumpRegisters_ok,
    ok_bind, List.append_assoc]

/-- The report of an exception. -/
theorem exceptionHandler_ok (vector errorCode : Word) (stale : CpuState) (out : Com1) :
    exceptionHandler vector errorCode stale out =
      .ok (stateLoop stale, out ++ (exceptionText vector errorCode ++ stateText stale)) := by
  rw [exceptionHandler, serialPrintf_exception, ok_bind, captureCpuState, serialPrintf_captured,
    ok_bind, pure_eq_ok, ok_bind]
  dsimp only [Option.getD_some]
  rw [serialPrintf_captured, ok_bind, stateLoop, stateText, outcomeText]
  by_cases hrip : stale.InvalidRip
  · rw [if_pos hrip, if_pos hrip, if_pos (show stale.rip = 0 ∨ stale.rip = 1 from hrip),
      serialPrintf_invalidRip]
    simp only [ok_bind, pure_eq_ok, List.append_assoc]
  · rw [if_neg hrip, if_neg hrip, if_neg (show ¬ (stale.rip = 0 ∨ stale.rip = 1) from hrip)]
    simp only [panic, serialWrite_cstr, coredump_ok, ok_bind, pure_eq_ok, List.append_assoc]

/-- **The report of a page fault**: the fault, as the frame describes it, and the state, as
the stack held it. -/
theorem pageFaultHandler_ok (cr2 : Word) (regs : Registers) (stale : CpuState) (out : Com1) :
    pageFaultHandler cr2 regs stale out =
      .ok (stateLoop stale, out ++ (faultText cr2 regs.errCode ++
        (exceptionText regs.intNo regs.errCode ++ stateText stale))) := by
  rw [pageFaultHandler, serialPrintf_pageFault, faultText]
  simp only [ok_bind, serialWriteFlag_ok, serialWriteIf_ok, exceptionHandler_ok,
    List.append_assoc]

end KptrOS
