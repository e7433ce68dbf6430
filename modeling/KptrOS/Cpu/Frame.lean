import KptrOS.Cpu.Stub

/-!
# The interrupt frame (`registers_t` in `kern/cpu/idt.c`)

The C handler reads the frame through a structure of 23 fields. The stubs push 22
words, in another order.

- `readRegisters`, `interruptHandlerEnters`: the structure as it is read, and the
  branches of `interrupt_handler`.
- `readRegisters_handlerCall`: the field that each word lands in.
- `handlerCall_pageFault_iff`, `handlerCall_hpet_iff`: the dispatch goes by the error
  code.
- `frame_agrees_iff`: the frames for which the two layouts agree.
-/

namespace KptrOS

/-! ## The C side -/

/-- `registers_t`. -/
structure Registers where
  rdx : Word
  rcx : Word
  rbx : Word
  rax : Word
  rsi : Word
  rdi : Word
  rbp : Word
  rsp : Word
  r15 : Word
  r14 : Word
  r13 : Word
  r12 : Word
  r11 : Word
  r10 : Word
  r9 : Word
  r8 : Word
  intNo : Word
  errCode : Word
  rip : Word
  cs : Word
  rflags : Word
  userRsp : Word
  ss : Word

/-- The structure at `regs`: packed, so that field `i` is 8 * i bytes in. -/
def readRegisters (m : Memory) (regs : Word) : Registers :=
  let field i := load64 m (offset regs (8 * i))
  { rdx := field 0, rcx := field 1, rbx := field 2, rax := field 3
    rsi := field 4, rdi := field 5, rbp := field 6, rsp := field 7
    r15 := field 8, r14 := field 9, r13 := field 10, r12 := field 11
    r11 := field 12, r10 := field 13, r9 := field 14, r8 := field 15
    intNo := field 16, errCode := field 17
    rip := field 18, cs := field 19, rflags := field 20
    userRsp := field 21, ss := field 22 }

/-- The branches of `interrupt_handler`. -/
inductive Entered where
  /-- `regs` is NULL: a message is written. -/
  | nullRegs
  | pageFaultHandler
  | hpetInterruptHandler
  | nothing
deriving DecidableEq

/-- The branch that `interrupt_handler(regs)` takes. -/
def interruptHandlerEnters (m : Memory) (regs : Word) : Entered :=
  if regs = 0 then .nullRegs
  else if (readRegisters m regs).intNo = 14 then .pageFaultHandler
  else if (readRegisters m regs).intNo = 2 then .hpetInterruptHandler
  else .nothing

theorem enters_pageFault_iff {m : Memory} {regs : Word} :
    interruptHandlerEnters m regs = .pageFaultHandler ↔
      regs ≠ 0 ∧ (readRegisters m regs).intNo = 14 := by
  rw [interruptHandlerEnters]
  by_cases hnull : regs = 0
  · rw [if_pos hnull]
    exact iff_of_false nofun fun h => h.1 hnull
  · rw [if_neg hnull]
    by_cases h14 : (readRegisters m regs).intNo = 14
    · rw [if_pos h14]
      exact iff_of_true rfl ⟨hnull, h14⟩
    · rw [if_neg h14]
      refine iff_of_false ?_ fun h => h14 h.2
      split <;> exact nofun

theorem enters_hpet_iff {m : Memory} {regs : Word} :
    interruptHandlerEnters m regs = .hpetInterruptHandler ↔
      regs ≠ 0 ∧ (readRegisters m regs).intNo = 2 := by
  rw [interruptHandlerEnters]
  by_cases hnull : regs = 0
  · rw [if_pos hnull]
    exact iff_of_false nofun fun h => h.1 hnull
  · rw [if_neg hnull]
    by_cases h14 : (readRegisters m regs).intNo = 14
    · -- 14 is tested first, but it is not 2
      rw [if_pos h14, h14]
      exact iff_of_false nofun fun h => absurd h.2 (by decide)
    · rw [if_neg h14]
      by_cases h2 : (readRegisters m regs).intNo = 2
      · rw [if_pos h2]
        exact iff_of_true rfl ⟨hnull, h2⟩
      · rw [if_neg h2]
        exact iff_of_false nofun fun h => h2 h.2

/-! ## Where the pushed words land -/

/-- The frame as it lies in memory: the word pushed last has the lowest address. -/
def frameLayout (c : Machine) (v : Fin 48) (errorCode : Word) : List Word :=
  pushedRegs.reverse.map c.regs ++
    [BitVec.ofNat 64 v, errorWord v errorCode, c.rip, c.cs, c.rflags, c.regs .rsp, c.ss]

theorem frameWords_reverse (c : Machine) (v : Fin 48) (errorCode : Word) :
    (frameWords c v errorCode).reverse = frameLayout c v errorCode := by
  rw [frameWords, List.reverse_append, frameLayout, List.map_reverse]
  rfl

/-- Reading the structure from a memory that holds `ws` there, and then `above`. -/
theorem readRegisters_eq {m : Memory} {regs above : Word} {ws : List Word}
    (hws : ∀ i, i < 23 → load64 m (offset regs (8 * i)) = (ws[i]?).getD above) :
    readRegisters m regs =
      let field i := (ws[i]?).getD above
      { rdx := field 0, rcx := field 1, rbx := field 2, rax := field 3
        rsi := field 4, rdi := field 5, rbp := field 6, rsp := field 7
        r15 := field 8, r14 := field 9, r13 := field 10, r12 := field 11
        r11 := field 12, r10 := field 13, r9 := field 14, r8 := field 15
        intNo := field 16, errCode := field 17
        rip := field 18, cs := field 19, rflags := field 20
        userRsp := field 21, ss := field 22 } := by
  -- from right to left, as the offsets `8 * i` are literals on the left
  simp (disch := decide) only [readRegisters, ← hws]

/-- **The fields that the handler reads**, for every vector, every interrupted context
and every stack. -/
theorem readRegisters_handlerCall (c : Machine) (v : Fin 48) (errorCode top ret : Word) :
    readRegisters (handlerCall c v errorCode top ret).mem
        ((handlerCall c v errorCode top ret).regs .rdi) =
      { rdx := c.regs .r15, rcx := c.regs .r14, rbx := c.regs .r13, rax := c.regs .r12
        rsi := c.regs .r11, rdi := c.regs .r10, rbp := c.regs .r9, rsp := c.regs .r8
        r15 := c.regs .rsi, r14 := c.regs .rdi, r13 := c.regs .rbp, r12 := c.regs .rdx
        r11 := c.regs .rcx, r10 := c.regs .rbx, r9 := c.regs .rax, r8 := BitVec.ofNat 64 v
        intNo := errorWord v errorCode, errCode := c.rip
        rip := c.cs, cs := c.rflags, rflags := c.regs .rsp
        userRsp := c.ss, ss := load64 c.mem top } := by
  have hws : ∀ i, i < 23 →
      load64 (handlerCall c v errorCode top ret).mem
          (offset ((handlerCall c v errorCode top ret).regs .rdi) (8 * i)) =
        ((frameLayout c v errorCode)[i]?).getD (load64 c.mem top) := by
    intro i hi
    rw [handlerCall_stack c v errorCode top ret (Nat.lt_trans hi (by decide)),
      frameWords_reverse, Nat.sub_eq_zero_of_le (Nat.le_of_lt_succ hi), Nat.mul_zero,
      offset_zero]
  exact readRegisters_eq hws

/-- The frame is at address 0 when the stack ends right above it. -/
theorem handlerCall_rdi_eq_zero_iff (c : Machine) (v : Fin 48) (errorCode top ret : Word) :
    (handlerCall c v errorCode top ret).regs .rdi = 0 ↔ top = 176 := by
  rw [handlerCall_rdi]
  bv_omega

/-- The dispatch to the page fault handler goes by the error code. -/
theorem handlerCall_pageFault_iff (c : Machine) (v : Fin 48) (errorCode top ret : Word) :
    interruptHandlerEnters (handlerCall c v errorCode top ret).mem
        ((handlerCall c v errorCode top ret).regs .rdi) = .pageFaultHandler ↔
      top ≠ 176 ∧ errorWord v errorCode = 14 := by
  rw [enters_pageFault_iff, Ne, handlerCall_rdi_eq_zero_iff, readRegisters_handlerCall]

/-- And so does the one to the HPET handler. -/
theorem handlerCall_hpet_iff (c : Machine) (v : Fin 48) (errorCode top ret : Word) :
    interruptHandlerEnters (handlerCall c v errorCode top ret).mem
        ((handlerCall c v errorCode top ret).regs .rdi) = .hpetInterruptHandler ↔
      top ≠ 176 ∧ errorWord v errorCode = 2 := by
  rw [enters_hpet_iff, Ne, handlerCall_rdi_eq_zero_iff, readRegisters_handlerCall]

/-! ## When the layouts agree -/

/-- Each field that the stubs fill holds the value of its name in the interrupted
context. -/
structure FrameAgrees (c : Machine) (v : Fin 48) (errorCode : Word) (r : Registers) :
    Prop where
  rax : r.rax = c.regs .rax
  rbx : r.rbx = c.regs .rbx
  rcx : r.rcx = c.regs .rcx
  rdx : r.rdx = c.regs .rdx
  rbp : r.rbp = c.regs .rbp
  rdi : r.rdi = c.regs .rdi
  rsi : r.rsi = c.regs .rsi
  r8 : r.r8 = c.regs .r8
  r9 : r.r9 = c.regs .r9
  r10 : r.r10 = c.regs .r10
  r11 : r.r11 = c.regs .r11
  r12 : r.r12 = c.regs .r12
  r13 : r.r13 = c.regs .r13
  r14 : r.r14 = c.regs .r14
  r15 : r.r15 = c.regs .r15
  intNo : r.intNo = BitVec.ofNat 64 v
  errCode : r.errCode = errorWord v errorCode
  rip : r.rip = c.rip
  cs : r.cs = c.cs
  rflags : r.rflags = c.rflags
  userRsp : r.userRsp = c.regs .rsp
  ss : r.ss = c.ss

/-- What the C handler relies on: the fields are right, and it enters the page fault
handler for vector 14 and the HPET handler for vector 2, and for no others. -/
structure HandlerServes (c : Machine) (v : Fin 48) (errorCode : Word) (h : Machine) :
    Prop where
  fields : FrameAgrees c v errorCode (readRegisters h.mem (h.regs .rdi))
  pageFault : interruptHandlerEnters h.mem (h.regs .rdi) = .pageFaultHandler ↔ v = 14
  hpet : interruptHandlerEnters h.mem (h.regs .rdi) = .hpetInterruptHandler ↔ v = 2

/-- The frames whose words can trade places: fourteen registers are equal, and all the
other words are the vector. -/
structure WordsUniform (c : Machine) (v : Fin 48) (errorCode top : Word) : Prop where
  regs : ∀ r ∈ pushedRegs, r ≠ .r8 → c.regs r = c.regs .rdx
  r8 : c.regs .r8 = BitVec.ofNat 64 v
  errorCode : errorWord v errorCode = BitVec.ofNat 64 v
  rip : c.rip = BitVec.ofNat 64 v
  cs : c.cs = BitVec.ofNat 64 v
  rflags : c.rflags = BitVec.ofNat 64 v
  rsp : c.regs .rsp = BitVec.ofNat 64 v
  ss : c.ss = BitVec.ofNat 64 v
  /-- The word above the frame. -/
  above : load64 c.mem top = BitVec.ofNat 64 v

/-- A uniform frame that, for a page fault, is not at address 0. -/
structure FrameUniform (c : Machine) (v : Fin 48) (errorCode top : Word) : Prop where
  words : WordsUniform c v errorCode top
  notNull : v = 14 → top ≠ 176

/-- A vector is determined by its word. -/
theorem ofNat_vector_inj {v w : Fin 48} :
    BitVec.ofNat 64 v = BitVec.ofNat 64 w ↔ v = w := by
  constructor
  · intro h
    have hv := congrArg BitVec.toNat h
    rw [BitVec.toNat_ofNat, BitVec.toNat_ofNat] at hv
    omega
  · rintro rfl
    rfl

/-- The fields that the handler reads are all wrong by a shift of the frame, so that the
context's own values have to agree along it. -/
theorem WordsUniform.of_frameAgrees {c : Machine} {v : Fin 48} {errorCode top ret : Word}
    (h : FrameAgrees c v errorCode
      (readRegisters (handlerCall c v errorCode top ret).mem
        ((handlerCall c v errorCode top ret).regs .rdi))) :
    WordsUniform c v errorCode top := by
  rw [readRegisters_handlerCall] at h
  -- one chain leads through fourteen of the registers
  have hr12 : c.regs .r12 = c.regs .rdx := h.r12.symm
  have hrax : c.regs .rax = c.regs .rdx := h.rax.symm.trans hr12
  have hr9 : c.regs .r9 = c.regs .rdx := h.r9.symm.trans hrax
  have hrbp : c.regs .rbp = c.regs .rdx := h.rbp.symm.trans hr9
  have hr13 : c.regs .r13 = c.regs .rdx := h.r13.symm.trans hrbp
  have hrbx : c.regs .rbx = c.regs .rdx := h.rbx.symm.trans hr13
  have hr10 : c.regs .r10 = c.regs .rdx := h.r10.symm.trans hrbx
  have hrdi : c.regs .rdi = c.regs .rdx := h.rdi.symm.trans hr10
  have hr14 : c.regs .r14 = c.regs .rdx := h.r14.symm.trans hrdi
  have hrcx : c.regs .rcx = c.regs .rdx := h.rcx.symm.trans hr14
  have hr11 : c.regs .r11 = c.regs .rdx := h.r11.symm.trans hrcx
  have hrsi : c.regs .rsi = c.regs .rdx := h.rsi.symm.trans hr11
  have hr15 : c.regs .r15 = c.regs .rdx := h.r15.symm.trans hrsi
  -- and the other one from the vector to the word above the frame
  have herrorCode : errorWord v errorCode = BitVec.ofNat 64 v := h.intNo
  have hrip : c.rip = BitVec.ofNat 64 v := h.errCode.trans herrorCode
  have hcs : c.cs = BitVec.ofNat 64 v := h.rip.trans hrip
  have hrflags : c.rflags = BitVec.ofNat 64 v := h.cs.trans hcs
  have hrsp : c.regs .rsp = BitVec.ofNat 64 v := h.rflags.trans hrflags
  have hss : c.ss = BitVec.ofNat 64 v := h.userRsp.trans hrsp
  refine ⟨?_, h.r8.symm, herrorCode, hrip, hcs, hrflags, hrsp, hss, h.ss.trans hss⟩
  intro r hr hr8
  cases r
  all_goals
    first
      | assumption
      | rfl
      | exact absurd rfl hr8
      | exact absurd hr (by decide)

/-- Any two of the fourteen registers. -/
theorem WordsUniform.regs_eq {c : Machine} {v : Fin 48} {errorCode top : Word}
    (h : WordsUniform c v errorCode top) {q r : Reg} (hq : q ∈ pushedRegs ∧ q ≠ .r8)
    (hr : r ∈ pushedRegs ∧ r ≠ .r8) : c.regs q = c.regs r := by
  rw [h.regs q hq.1 hq.2, h.regs r hr.1 hr.2]

/-- A uniform frame is read right: no field can tell that it holds another's word. -/
theorem WordsUniform.frameAgrees {c : Machine} {v : Fin 48} {errorCode top : Word}
    (h : WordsUniform c v errorCode top) (ret : Word) :
    FrameAgrees c v errorCode
      (readRegisters (handlerCall c v errorCode top ret).mem
        ((handlerCall c v errorCode top ret).regs .rdi)) := by
  rw [readRegisters_handlerCall]
  exact
    { rax := h.regs_eq (by decide) (by decide)
      rbx := h.regs_eq (by decide) (by decide)
      rcx := h.regs_eq (by decide) (by decide)
      rdx := h.regs_eq (by decide) (by decide)
      rbp := h.regs_eq (by decide) (by decide)
      rdi := h.regs_eq (by decide) (by decide)
      rsi := h.regs_eq (by decide) (by decide)
      r8 := h.r8.symm
      r9 := h.regs_eq (by decide) (by decide)
      r10 := h.regs_eq (by decide) (by decide)
      r11 := h.regs_eq (by decide) (by decide)
      r12 := h.regs_eq (by decide) (by decide)
      r13 := h.regs_eq (by decide) (by decide)
      r14 := h.regs_eq (by decide) (by decide)
      r15 := h.regs_eq (by decide) (by decide)
      intNo := h.errorCode
      errCode := h.rip.trans h.errorCode.symm
      rip := h.cs.trans h.rip.symm
      cs := h.rflags.trans h.cs.symm
      rflags := h.rsp.trans h.rflags.symm
      userRsp := h.ss.trans h.rsp.symm
      ss := h.above.trans h.ss.symm }

/-- There is no uniform frame for the HPET's vector, since it has no error code. -/
theorem WordsUniform.vector_ne {c : Machine} {v : Fin 48} {errorCode top : Word}
    (h : WordsUniform c v errorCode top) : v ≠ 2 := by
  rintro rfl
  have hword : errorWord 2 errorCode = 0 := if_neg (by decide)
  exact absurd (hword.symm.trans h.errorCode) (by decide)

/-- **When the stubs and the handler agree**: exactly for a uniform frame. -/
theorem frame_agrees_iff (c : Machine) (v : Fin 48) (errorCode top ret : Word) :
    HandlerServes c v errorCode (handlerCall c v errorCode top ret) ↔
      FrameUniform c v errorCode top := by
  constructor
  · intro h
    refine ⟨.of_frameAgrees h.fields, ?_⟩
    rintro rfl rfl
    exact ((handlerCall_pageFault_iff c 14 errorCode 176 ret).mp (h.pageFault.mpr rfl)).1 rfl
  · intro h
    have hvec : ∀ w : Fin 48, errorWord v errorCode = BitVec.ofNat 64 w ↔ v = w := by
      intro w
      rw [h.words.errorCode, ofNat_vector_inj]
    have h14 : errorWord v errorCode = 14 ↔ v = 14 := hvec 14
    have h2 : errorWord v errorCode ≠ 2 := fun he => h.words.vector_ne ((hvec 2).mp he)
    refine ⟨h.words.frameAgrees ret, ?_, ?_⟩
    · rw [handlerCall_pageFault_iff, h14]
      exact ⟨fun hv => hv.2, fun hv => ⟨h.notNull hv, hv⟩⟩
    · rw [handlerCall_hpet_iff]
      exact iff_of_false (fun hv => h2 hv.2) h.words.vector_ne

/-- A page fault on a write to a page that is not present enters the HPET handler. -/
theorem page_fault_enters_hpet :
    let c : Machine :=
      { regs := fun _ => 0, rip := 0x400000, cs := 8, rflags := 2, ss := 16
        mem := fun _ => 0 }
    interruptHandlerEnters (handlerCall c 14 2 0x8000 0).mem
        ((handlerCall c 14 2 0x8000 0).regs .rdi) = .hpetInterruptHandler ∧
      ¬ HandlerServes c 14 2 (handlerCall c 14 2 0x8000 0) := by
  intro c
  have hhpet : interruptHandlerEnters (handlerCall c 14 2 0x8000 0).mem
      ((handlerCall c 14 2 0x8000 0).regs .rdi) = .hpetInterruptHandler := by
    have hword : errorWord 14 2 = 2 := if_pos (by decide)
    exact (handlerCall_hpet_iff c 14 2 0x8000 0).mpr ⟨by decide, hword⟩
  refine ⟨hhpet, fun h => ?_⟩
  have hpf := h.pageFault.mpr rfl
  rw [hhpet] at hpf
  exact absurd hpf (by decide)

end KptrOS
