import KptrOS.Machine.Memory

/-!
# The interrupt stubs (`kern/cpu/stub.asm`)

The processor delivers an interrupt by pushing its frame; the stub of the vector pushes
an error code where the processor has not, and the vector; `common_stub` pushes fifteen
registers and calls the C handler with the stack pointer as its argument.

- `Machine`, `Instr.exec`: the instructions that run before the handler.
- `Machine.deliver`, `isr`, `commonStub`: the processor's part and the two parts of a
  stub.
- `stackAt_pushAll`: the stack after a list of pushes.
- `handlerCall_stack`: the stack when the handler is called.
-/

namespace KptrOS

/-! ## The machine -/

/-- The general-purpose registers. -/
inductive Reg where
  | rax
  | rbx
  | rcx
  | rdx
  | rbp
  | rdi
  | rsi
  | rsp
  | r8
  | r9
  | r10
  | r11
  | r12
  | r13
  | r14
  | r15
deriving DecidableEq

/-- The state of the processor, and its memory. -/
structure Machine where
  regs : Reg → Word
  rip : Word
  cs : Word
  rflags : Word
  ss : Word
  mem : Memory

/-- Push a word. -/
def Machine.push (c : Machine) (w : Word) : Machine :=
  { c with
    regs := Function.update c.regs .rsp (c.regs .rsp - 8)
    mem := store64 c.mem (c.regs .rsp - 8) w }

/-- Push words, the first one first. -/
def Machine.pushAll (c : Machine) (ws : List Word) : Machine := ws.foldl Machine.push c

/-- Word `i` of the stack, counted from the stack pointer. -/
def Machine.stackAt (c : Machine) (i : Nat) : Word :=
  load64 c.mem (offset (c.regs .rsp) (8 * i))

/-- The instructions of a stub up to the call of the handler. -/
inductive Instr where
  | push (src : Reg)
  | pushImm (imm : Word)
  | mov (dst src : Reg)
  /-- A call, with the address of the next instruction. -/
  | call (ret : Word)

/-- One instruction. Where it continues is not modelled: the stubs run straight to the
handler. -/
def Instr.exec : Instr → Machine → Machine
  | .push src, c => c.push (c.regs src)
  | .pushImm imm, c => c.push imm
  | .mov dst src, c => { c with regs := Function.update c.regs dst (c.regs src) }
  | .call ret, c => c.push ret

/-- A sequence of instructions. -/
def execAll (is : List Instr) (c : Machine) : Machine := is.foldl (fun c i => i.exec c) c

/-! ## Interrupt delivery -/

/-- The vectors for which the processor pushes an error code. -/
def PushesErrorCode (v : Fin 48) : Prop :=
  v = 8 ∨ (10 ≤ v ∧ v ≤ 14) ∨ v = 17 ∨ v = 21 ∨ v = 29 ∨ v = 30

instance (v : Fin 48) : Decidable (PushesErrorCode v) :=
  inferInstanceAs (Decidable (_ ∨ _))

/-- The machine on the interrupt stack. -/
def Machine.onStack (c : Machine) (top : Word) : Machine :=
  { c with regs := Function.update c.regs .rsp top }

/-- The processor switches to the stack that ends at `top` and pushes its frame. -/
def Machine.deliver (c : Machine) (v : Fin 48) (errorCode top : Word) : Machine :=
  let frame := (c.onStack top).pushAll [c.ss, c.regs .rsp, c.rflags, c.cs, c.rip]
  if PushesErrorCode v then frame.push errorCode else frame

/-! ## The stubs -/

/-- The vectors declared with `ISR_EC`; the others are declared with `ISR_NO_EC`. -/
def isrEc : List (Fin 48) := [8, 10, 11, 12, 13, 14, 17, 21, 29, 30]

/-- `isr<v>`. -/
def isr (v : Fin 48) : List Instr :=
  if v ∈ isrEc then [.pushImm (BitVec.ofNat 64 v)]
  else [.pushImm 0, .pushImm (BitVec.ofNat 64 v)]

/-- The registers that `common_stub` pushes. -/
def pushedRegs : List Reg :=
  [.rax, .rbx, .rcx, .rdx, .rbp, .rdi, .rsi, .r8, .r9, .r10, .r11, .r12, .r13, .r14, .r15]

/-- `common_stub`, up to the call of `interrupt_handler`. -/
def commonStub (ret : Word) : List Instr :=
  pushedRegs.map .push ++ [.mov .rdi .rsp, .call ret]

/-- The machine when `interrupt_handler` is entered. -/
def handlerCall (c : Machine) (v : Fin 48) (errorCode top ret : Word) : Machine :=
  execAll (isr v ++ commonStub ret) (c.deliver v errorCode top)

/-! ## Pushing -/

theorem push_rsp (c : Machine) (w : Word) : (c.push w).regs .rsp = c.regs .rsp - 8 := by
  show Function.update c.regs .rsp (c.regs .rsp - 8) .rsp = _
  rw [Function.update_self]

theorem push_regs_of_ne (c : Machine) (w : Word) {r : Reg} (hr : r ≠ .rsp) :
    (c.push w).regs r = c.regs r := by
  show Function.update c.regs .rsp (c.regs .rsp - 8) r = _
  rw [Function.update_of_ne hr]

theorem stackAt_push_zero (c : Machine) (w : Word) : (c.push w).stackAt 0 = w := by
  rw [Machine.stackAt, push_rsp]
  show load64 (store64 c.mem (c.regs .rsp - 8) w) (offset (c.regs .rsp - 8) (8 * 0)) = w
  rw [Nat.mul_zero, offset_zero, load64_store64]

/-- A push leaves the words above it alone. -/
theorem load64_push (c : Machine) (w : Word) {i : Nat} (hi : i < 2 ^ 60) :
    load64 (c.push w).mem (offset (c.regs .rsp) (8 * i)) = c.stackAt i := by
  refine load64_store64_of_disjoint fun j hj => ?_
  have hoff : offset (offset (c.regs .rsp) (8 * i)) j =
      offset (c.regs .rsp - 8) (8 + 8 * i + j) := by
    unfold offset
    bv_omega
  rw [hoff, inRange_offset (by omega)]
  omega

/-- The stack below the word pushed. -/
theorem stackAt_push_succ (c : Machine) (w : Word) {i : Nat} (hi : i < 2 ^ 60) :
    (c.push w).stackAt (i + 1) = c.stackAt i := by
  have hoff : offset (c.regs .rsp - 8) (8 * (i + 1)) = offset (c.regs .rsp) (8 * i) := by
    unfold offset
    bv_omega
  rw [Machine.stackAt, push_rsp, hoff, load64_push c w hi]

theorem execAll_append (is is' : List Instr) (c : Machine) :
    execAll (is ++ is') c = execAll is' (execAll is c) :=
  List.foldl_append

theorem pushAll_append (c : Machine) (ws ws' : List Word) :
    c.pushAll (ws ++ ws') = (c.pushAll ws).pushAll ws' :=
  List.foldl_append

/-- **The stack after a list of pushes**: the words, last one first, and the stack
before. -/
theorem stackAt_pushAll (c : Machine) (ws : List Word) {i : Nat} (hi : i < 2 ^ 60) :
    (c.pushAll ws).stackAt i = (ws.reverse[i]?).getD (c.stackAt (i - ws.length)) := by
  induction ws using List.reverseRecOn generalizing i with
  | nil => rfl
  | append_singleton ws w ih =>
    rw [pushAll_append, List.reverse_append]
    show ((c.pushAll ws).push w).stackAt i = _
    cases i with
    | zero => exact stackAt_push_zero _ w
    | succ i =>
      rw [stackAt_push_succ _ w (by omega), ih (by omega), List.length_append]
      simp

theorem pushAll_regs_of_ne (c : Machine) (ws : List Word) {r : Reg} (hr : r ≠ .rsp) :
    (c.pushAll ws).regs r = c.regs r := by
  induction ws generalizing c with
  | nil => rfl
  | cons w ws ih =>
    show ((c.push w).pushAll ws).regs r = c.regs r
    rw [ih, push_regs_of_ne c w hr]

theorem pushAll_rsp (c : Machine) (ws : List Word) :
    (c.pushAll ws).regs .rsp = c.regs .rsp - BitVec.ofNat 64 (8 * ws.length) := by
  induction ws generalizing c with
  | nil => exact (BitVec.sub_zero _).symm
  | cons w ws ih =>
    show ((c.push w).pushAll ws).regs .rsp = _
    rw [ih, push_rsp, List.length_cons]
    bv_omega

/-- A sequence of register pushes pushes their values. -/
theorem execAll_push (rs : List Reg) (hrs : .rsp ∉ rs) (c : Machine) :
    execAll (rs.map .push) c = c.pushAll (rs.map c.regs) := by
  -- a push changes no register but the stack pointer, which is not pushed
  induction rs generalizing c with
  | nil => rfl
  | cons r rs ih =>
    rw [List.mem_cons, not_or] at hrs
    have hsame : rs.map (c.push (c.regs r)).regs = rs.map c.regs := by
      refine List.map_congr_left fun q hq => push_regs_of_ne c _ ?_
      rintro rfl
      exact hrs.2 hq
    show execAll (rs.map .push) (c.push (c.regs r)) = _
    rw [ih hrs.2, hsame]
    rfl

/-! ## The stack at the handler -/

/-- The error code of the frame: the processor's, or the stub's zero. -/
def errorWord (v : Fin 48) (errorCode : Word) : Word :=
  if PushesErrorCode v then errorCode else 0

/-- The words on the stack when the handler is called, in the order of their pushes. -/
def frameWords (c : Machine) (v : Fin 48) (errorCode : Word) : List Word :=
  [c.ss, c.regs .rsp, c.rflags, c.cs, c.rip, errorWord v errorCode, BitVec.ofNat 64 v] ++
    pushedRegs.map c.regs

/-- The stubs push an error code exactly where the processor does not. -/
theorem mem_isrEc : ∀ v : Fin 48, v ∈ isrEc ↔ PushesErrorCode v := by decide

/-- Both kinds of stub leave the same frame. -/
theorem execAll_isr (c : Machine) (v : Fin 48) (errorCode top : Word) :
    execAll (isr v) (c.deliver v errorCode top) =
      (c.onStack top).pushAll
        [c.ss, c.regs .rsp, c.rflags, c.cs, c.rip, errorWord v errorCode,
          BitVec.ofNat 64 v] := by
  rw [isr, Machine.deliver, errorWord]
  by_cases hv : PushesErrorCode v
  · rw [if_pos ((mem_isrEc v).mpr hv), if_pos hv, if_pos hv]
    rfl
  · rw [if_neg (fun h => hv ((mem_isrEc v).mp h)), if_neg hv, if_neg hv]
    rfl

theorem onStack_rsp (c : Machine) (top : Word) : (c.onStack top).regs .rsp = top := by
  show Function.update c.regs .rsp top .rsp = top
  rw [Function.update_self]

theorem onStack_regs_of_ne (c : Machine) (top : Word) {r : Reg} (hr : r ≠ .rsp) :
    (c.onStack top).regs r = c.regs r := by
  show Function.update c.regs .rsp top r = c.regs r
  rw [Function.update_of_ne hr]

/-- The frame is pushed, and then the handler called. -/
theorem handlerCall_eq (c : Machine) (v : Fin 48) (errorCode top ret : Word) :
    handlerCall c v errorCode top ret =
      execAll [.mov .rdi .rsp, .call ret]
        ((c.onStack top).pushAll (frameWords c v errorCode)) := by
  have hregs : ∀ ws : List Word, pushedRegs.map ((c.onStack top).pushAll ws).regs =
      pushedRegs.map c.regs := by
    refine fun ws => List.map_congr_left fun r hr => ?_
    have hne : r ≠ .rsp := by
      rintro rfl
      exact absurd hr (by decide)
    rw [pushAll_regs_of_ne _ ws hne, onStack_regs_of_ne c top hne]
  -- the stub's pushes continue the ones of the processor
  have hframe : execAll (isr v ++ pushedRegs.map .push) (c.deliver v errorCode top) =
      (c.onStack top).pushAll (frameWords c v errorCode) := by
    rw [execAll_append, execAll_isr, execAll_push pushedRegs (by decide), hregs,
      ← pushAll_append]
    rfl
  rw [handlerCall, commonStub, ← List.append_assoc, execAll_append, hframe]

/-- The call passes the address of the frame, and leaves the frame alone. -/
theorem execAll_call (frame : Machine) (ret : Word) :
    (execAll [.mov .rdi .rsp, .call ret] frame).regs .rdi = frame.regs .rsp ∧
      ∀ i, i < 2 ^ 60 →
        load64 (execAll [.mov .rdi .rsp, .call ret] frame).mem
          (offset (frame.regs .rsp) (8 * i)) = frame.stackAt i := by
  -- the return address goes below the frame that `rdi` points to
  let d : Machine := { frame with regs := Function.update frame.regs .rdi (frame.regs .rsp) }
  have hrsp : d.regs .rsp = frame.regs .rsp := by
    show Function.update frame.regs .rdi (frame.regs .rsp) .rsp = frame.regs .rsp
    rw [Function.update_of_ne (by decide)]
  constructor
  · show (d.push ret).regs .rdi = frame.regs .rsp
    rw [push_regs_of_ne d ret (by decide)]
    show Function.update frame.regs .rdi (frame.regs .rsp) .rdi = frame.regs .rsp
    rw [Function.update_self]
  · intro i hi
    show load64 (d.push ret).mem (offset (frame.regs .rsp) (8 * i)) = frame.stackAt i
    rw [← hrsp, load64_push d ret hi, Machine.stackAt, hrsp]
    rfl

/-- The address of the frame. -/
theorem handlerCall_rdi (c : Machine) (v : Fin 48) (errorCode top ret : Word) :
    (handlerCall c v errorCode top ret).regs .rdi = top - 176 := by
  rw [handlerCall_eq, (execAll_call _ ret).1, pushAll_rsp, onStack_rsp]
  rfl

/-- **The stack at the handler**, from the address that it is given: the frame, and above
it whatever was on the interrupt stack. -/
theorem handlerCall_stack (c : Machine) (v : Fin 48) (errorCode top ret : Word) {i : Nat}
    (hi : i < 2 ^ 60) :
    load64 (handlerCall c v errorCode top ret).mem
        (offset ((handlerCall c v errorCode top ret).regs .rdi) (8 * i)) =
      ((frameWords c v errorCode).reverse[i]?).getD
        (load64 c.mem (offset top (8 * (i - 22)))) := by
  have hbelow : (c.onStack top).stackAt (i - 22) =
      load64 c.mem (offset top (8 * (i - 22))) := by
    rw [Machine.stackAt, onStack_rsp]
    rfl
  have hlength : (frameWords c v errorCode).length = 22 := rfl
  rw [handlerCall_eq, (execAll_call _ ret).1, (execAll_call _ ret).2 i hi,
    stackAt_pushAll _ _ hi, hlength, hbelow]

end KptrOS
