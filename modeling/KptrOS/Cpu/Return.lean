import KptrOS.Cpu.Frame

/-!
# The way back from an interrupt (`common_stub` after the call)

When `interrupt_handler` returns, `common_stub` pops the fifteen registers, drops the vector
and the error code, and returns through the frame of the processor.

- `ReturnInstr.exec`: the instructions after the call.
- `ObeysCallingConvention`: what the stub relies on.
- `popAll_spec`, `returnAll_commonStub`: a list of pops loads each register from its word of
  the stack, and so does the end of the stub.
- `interrupt_transparent`: the interrupted context is restored.
-/

namespace KptrOS

/-! ## The instructions -/

/-- The instructions of a stub after the call of the handler. -/
inductive ReturnInstr where
  | pop (dst : Reg)
  /-- `add rsp, imm`, with the flags that it leaves. -/
  | addRsp (imm flags : Word)
  | iretq

/-- One instruction. -/
def ReturnInstr.exec : ReturnInstr → Machine → Machine
  | .pop dst, c =>
    let regs := Function.update c.regs .rsp (c.regs .rsp + 8)
    { c with regs := Function.update regs dst (c.stackAt 0) }
  | .addRsp imm flags, c =>
    { c with regs := Function.update c.regs .rsp (c.regs .rsp + imm), rflags := flags }
  | .iretq, c =>
    { c with
      rip := c.stackAt 0
      cs := c.stackAt 1
      rflags := c.stackAt 2
      regs := Function.update c.regs .rsp (c.stackAt 3)
      ss := c.stackAt 4 }

/-- A sequence of instructions. -/
def returnAll (is : List ReturnInstr) (c : Machine) : Machine :=
  is.foldl (fun c i => i.exec c) c

/-- The registers that `common_stub` pops. -/
def poppedRegs : List Reg :=
  [.r15, .r14, .r13, .r12, .r11, .r10, .r9, .r8, .rsi, .rdi, .rbp, .rdx, .rcx, .rbx, .rax]

/-- `common_stub`, after the call of `interrupt_handler`. -/
def commonStubReturn (flags : Word) : List ReturnInstr :=
  poppedRegs.map .pop ++ [.addRsp 16 flags, .iretq]

/-! ## The handler -/

/-- The registers that a callee preserves. -/
def calleeSaved : List Reg := [.rbx, .rbp, .r12, .r13, .r14, .r15]

/-- The handler was entered in `h` and has returned in `h'`, as the calling convention asks,
and has not written to the frame that it was given. -/
structure ObeysCallingConvention (h h' : Machine) : Prop where
  /-- The return address is popped. -/
  rsp : h'.regs .rsp = h.regs .rsp + 8
  saved : ∀ r ∈ calleeSaved, h'.regs r = h.regs r
  frame : ∀ a, InRange (h.regs .rdi) 176 a → h'.mem a = h.mem a

/-! ## Popping -/

section Pop

variable (c : Machine) (r : Reg)

theorem pop_dst : ((ReturnInstr.pop r).exec c).regs r = c.stackAt 0 := by
  show Function.update (Function.update c.regs .rsp (c.regs .rsp + 8)) r (c.stackAt 0) r = _
  rw [Function.update_self]

theorem pop_rsp (hr : r ≠ .rsp) :
    ((ReturnInstr.pop r).exec c).regs .rsp = c.regs .rsp + 8 := by
  show Function.update (Function.update c.regs .rsp (c.regs .rsp + 8)) r _ .rsp = _
  rw [Function.update_of_ne (Ne.symm hr), Function.update_self]

theorem pop_regs_of_ne {q : Reg} (hq : q ≠ r) (hrsp : q ≠ .rsp) :
    ((ReturnInstr.pop r).exec c).regs q = c.regs q := by
  show Function.update (Function.update c.regs .rsp (c.regs .rsp + 8)) r _ q = _
  rw [Function.update_of_ne hq, Function.update_of_ne hrsp]

theorem stackAt_pop (hr : r ≠ .rsp) (i : Nat) :
    ((ReturnInstr.pop r).exec c).stackAt i = c.stackAt (i + 1) := by
  have hoff : offset (c.regs .rsp + 8) (8 * i) = offset (c.regs .rsp) (8 * (i + 1)) := by
    unfold offset
    bv_omega
  rw [Machine.stackAt, pop_rsp c r hr, hoff]
  rfl

end Pop

/-- A register that is not popped is kept. -/
theorem popAll_regs_of_not_mem {rs : List Reg} {q : Reg} (hq : q ∉ rs) (hrsp : q ≠ .rsp)
    (c : Machine) : (returnAll (rs.map .pop) c).regs q = c.regs q := by
  induction rs generalizing c with
  | nil => rfl
  | cons r rs ih =>
    rw [List.mem_cons, not_or] at hq
    show (returnAll (rs.map .pop) ((ReturnInstr.pop r).exec c)).regs q = c.regs q
    rw [ih hq.2, pop_regs_of_ne c r hq.1 hrsp]

/-- **Popping a list of registers** loads each of them from its word of the stack, and leaves
the rest of the stack. -/
theorem popAll_spec {rs : List Reg} (hrs : .rsp ∉ rs) (hnodup : rs.Nodup) (c : Machine) :
    (∀ i r, rs[i]? = some r → (returnAll (rs.map .pop) c).regs r = c.stackAt i) ∧
      ∀ i, (returnAll (rs.map .pop) c).stackAt i = c.stackAt (i + rs.length) := by
  induction rs generalizing c with
  | nil =>
    refine ⟨fun i r hi => ?_, fun i => rfl⟩
    simp at hi
  | cons r rs ih =>
    rw [List.mem_cons, not_or] at hrs
    obtain ⟨hr, hnodup⟩ := List.nodup_cons.mp hnodup
    have hrsp : r ≠ .rsp := Ne.symm hrs.1
    obtain ⟨hregs, hstack⟩ := ih hrs.2 hnodup ((ReturnInstr.pop r).exec c)
    have hcons : returnAll ((r :: rs).map .pop) c =
        returnAll (rs.map .pop) ((ReturnInstr.pop r).exec c) := rfl
    rw [hcons]
    refine ⟨fun i q hi => ?_, fun i => ?_⟩
    · cases i with
      | zero =>
        obtain rfl : r = q := Option.some_inj.mp hi
        -- a register keeps the word that it was popped from, since it is popped only once
        rw [popAll_regs_of_not_mem hr hrsp, pop_dst]
      | succ i => rw [hregs i q hi, stackAt_pop c r hrsp]
    · rw [hstack, stackAt_pop c r hrsp]
      rfl

/-! ## The end of the stub -/

theorem addRsp_rsp (c : Machine) (w flags : Word) :
    ((ReturnInstr.addRsp w flags).exec c).regs .rsp = c.regs .rsp + w := by
  show Function.update c.regs .rsp (c.regs .rsp + w) .rsp = _
  rw [Function.update_self]

theorem addRsp_regs_of_ne (c : Machine) (w flags : Word) {r : Reg} (hr : r ≠ .rsp) :
    ((ReturnInstr.addRsp w flags).exec c).regs r = c.regs r := by
  show Function.update c.regs .rsp (c.regs .rsp + w) r = _
  rw [Function.update_of_ne hr]

/-- `add` skips the vector and the error code. -/
theorem stackAt_addRsp (c : Machine) (flags : Word) (i : Nat) :
    ((ReturnInstr.addRsp 16 flags).exec c).stackAt i = c.stackAt (i + 2) := by
  have hoff : offset (c.regs .rsp + 16) (8 * i) = offset (c.regs .rsp) (8 * (i + 2)) := by
    unfold offset
    bv_omega
  rw [Machine.stackAt, addRsp_rsp, hoff]
  rfl

/-- **What the end of the stub restores**, from the stack that it finds: the popped registers
from the first 15 words, and from the 18th on the five that `iretq` pops. -/
theorem returnAll_commonStub (h : Machine) (flags : Word) :
    let c' := returnAll (commonStubReturn flags) h
    (∀ (i : Nat) r, poppedRegs[i]? = some r → c'.regs r = h.stackAt i) ∧
      c'.rip = h.stackAt 17 ∧ c'.cs = h.stackAt 18 ∧ c'.rflags = h.stackAt 19 ∧
      c'.regs .rsp = h.stackAt 20 ∧ c'.ss = h.stackAt 21 := by
  obtain ⟨hregs, hstack⟩ := @popAll_spec poppedRegs (by decide) (by decide) h
  let popped := returnAll (poppedRegs.map .pop) h
  let added := (ReturnInstr.addRsp 16 flags).exec popped
  have hadded : ∀ i, added.stackAt i = h.stackAt (i + 17) := fun i => by
    rw [stackAt_addRsp, hstack]
    rfl
  have hend : returnAll (commonStubReturn flags) h = ReturnInstr.iretq.exec added := by
    show returnAll (poppedRegs.map .pop ++ [.addRsp 16 flags, .iretq]) h = _
    rw [returnAll, List.foldl_append]
    rfl
  rw [hend]
  refine ⟨fun i r hi => ?_, hadded 0, hadded 1, hadded 2, ?_, hadded 4⟩
  · have hne : r ≠ .rsp := by
      rintro rfl
      exact absurd (List.mem_of_getElem? hi) (by decide)
    show Function.update added.regs .rsp (added.stackAt 3) r = h.stackAt i
    rw [Function.update_of_ne hne, addRsp_regs_of_ne popped 16 flags hne, hregs i r hi]
  · show Function.update added.regs .rsp (added.stackAt 3) .rsp = h.stackAt 20
    rw [Function.update_self, hadded]

/-! ## The way back -/

/-- The call pushes its return address. -/
theorem execAll_call_rsp (frame : Machine) (ret : Word) :
    (execAll [.mov .rdi .rsp, .call ret] frame).regs .rsp + 8 = frame.regs .rsp := by
  let d : Machine := { frame with regs := Function.update frame.regs .rdi (frame.regs .rsp) }
  show (d.push ret).regs .rsp + 8 = frame.regs .rsp
  rw [push_rsp]
  show Function.update frame.regs .rdi (frame.regs .rsp) .rsp - 8 + 8 = frame.regs .rsp
  rw [Function.update_of_ne (by decide), BitVec.sub_add_cancel]

/-- The stack pointer at the handler's entry is one word below the frame. -/
theorem handlerCall_rsp (c : Machine) (v : Fin 48) (errorCode top ret : Word) :
    (handlerCall c v errorCode top ret).regs .rsp + 8 =
      (handlerCall c v errorCode top ret).regs .rdi := by
  rw [handlerCall_eq, execAll_call_rsp, (execAll_call _ ret).1]

/-- The frame is where the handler leaves the stack pointer, with the words that the stub and
the processor pushed. -/
theorem stackAt_of_obeys {c h' : Machine} {v : Fin 48} {errorCode top ret : Word}
    (hobeys : ObeysCallingConvention (handlerCall c v errorCode top ret) h') {i : Nat}
    (hi : i < 22) {w : Word} (hw : (frameLayout c v errorCode)[i]? = some w) :
    h'.stackAt i = w := by
  have hframe := handlerCall_stack c v errorCode top ret (Nat.lt_trans hi (by decide))
  rw [frameWords_reverse, hw, Option.getD_some] at hframe
  rw [Machine.stackAt, hobeys.rsp, handlerCall_rsp, ← hframe]
  refine load64_congr fun j hj => hobeys.frame _ ?_
  have hoff : ∀ p : Word, offset (offset p (8 * i)) j = offset p (8 * i + j) := by
    intro p
    unfold offset
    bv_omega
  rw [hoff, inRange_offset (by omega)]
  omega

/-- The stub pops in the reverse order of its pushes. -/
theorem poppedRegs_eq : poppedRegs = pushedRegs.reverse := rfl

/-- **Interrupts are transparent**: for every vector, context, error code and stack, a
handler that obeys the calling convention leaves the interrupted context as it was, once the
stub has returned. -/
theorem interrupt_transparent (c : Machine) (v : Fin 48) (errorCode top ret flags : Word)
    {h' : Machine}
    (hobeys : ObeysCallingConvention (handlerCall c v errorCode top ret) h') :
    let c' := returnAll (commonStubReturn flags) h'
    (∀ r, c'.regs r = c.regs r) ∧ c'.rip = c.rip ∧ c'.cs = c.cs ∧
      c'.rflags = c.rflags ∧ c'.ss = c.ss := by
  have hword : ∀ {i : Nat} {w : Word}, i < 22 → (frameLayout c v errorCode)[i]? = some w →
      h'.stackAt i = w := fun hi hw => stackAt_of_obeys hobeys hi hw
  obtain ⟨hregs, hrip, hcs, hrflags, hrsp, hss⟩ := returnAll_commonStub h' flags
  refine ⟨fun r => ?_, hrip.trans (hword (by decide) rfl), hcs.trans (hword (by decide) rfl),
    hrflags.trans (hword (by decide) rfl), hss.trans (hword (by decide) rfl)⟩
  by_cases hr : r = .rsp
  · rw [hr]
    exact hrsp.trans (hword (by decide) rfl)
  · have hmem : r ∈ poppedRegs := by
      revert hr
      cases r <;> decide
    obtain ⟨i, hi⟩ := List.mem_iff_getElem?.mp hmem
    obtain ⟨hlt, -⟩ := List.getElem?_eq_some_iff.mp hi
    have hlayout : (frameLayout c v errorCode)[i]? = some (c.regs r) := by
      rw [frameLayout, ← poppedRegs_eq,
        List.getElem?_append_left (hlt.trans_eq (List.length_map c.regs).symm),
        List.getElem?_map, hi]
      rfl
    exact (hregs i r hi).trans (hword (hlt.trans (by decide)) hlayout)

/-- A handler that returns with another value in `rax`. -/
def clobberRax (h : Machine) : Machine :=
  { h with regs := Function.update (Function.update h.regs .rsp (h.regs .rsp + 8)) .rax 7 }

theorem clobberRax_obeys (h : Machine) : ObeysCallingConvention h (clobberRax h) where
  rsp := by
    show Function.update (Function.update h.regs .rsp (h.regs .rsp + 8)) .rax 7 .rsp = _
    rw [Function.update_of_ne (by decide), Function.update_self]
  saved := fun r hr => by
    have hne : r ≠ .rax ∧ r ≠ .rsp := by
      constructor <;> rintro rfl <;> exact absurd hr (by decide)
    show Function.update (Function.update h.regs .rsp (h.regs .rsp + 8)) .rax 7 r = _
    rw [Function.update_of_ne hne.1, Function.update_of_ne hne.2]
  frame := fun _ _ => rfl

/-- A page fault, whose error code the processor pushes: `rax` is 5 again. -/
theorem interrupt_transparent_pageFault :
    let c : Machine :=
      { regs := fun _ => 5, rip := 0x400000, cs := 8, rflags := 2, ss := 16
        mem := fun _ => 0 }
    (returnAll (commonStubReturn 0x46) (clobberRax (handlerCall c 14 2 0x8000 0))).regs .rax =
      5 := by
  intro c
  exact (interrupt_transparent c 14 2 0x8000 0 0x46 (clobberRax_obeys _)).1 .rax

end KptrOS
