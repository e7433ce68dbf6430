import KptrOS.Cpu.Coredump

/-!
# What the report of a page fault tells

A report is a text about the fault, from the frame, and one about the state, from the stack.
The second one tells apart all states that differ in a value it prints.

- `CpuState.PrintsAs`: two states agree on what is printed; `stateText_eq_iff`: they do
  exactly when their texts are the same.
- `DescribesFrame`, `report_faithful_iff`: when a report describes the frame.
-/

namespace KptrOS

open CSem

/-! ## What the report tells -/

/-- The two states agree on all that a report prints: the flags and the registers are left
out when there is no core dump. -/
structure CpuState.PrintsAs (s t : CpuState) : Prop where
  rip : s.rip = t.rip
  rsp : s.rsp = t.rsp
  rbp : s.rbp = t.rbp
  dump : ¬ s.InvalidRip → s.rflags = t.rflags ∧ s.registers = t.registers

/-- The captured values can be read back. -/
theorem capturedText_inj {s t : CpuState} {tail tail' : List Byte}
    (h : capturedText s ++ tail = capturedText t ++ tail') :
    (s.rip = t.rip ∧ s.rsp = t.rsp ∧ s.rbp = t.rbp) ∧ tail = tail' := by
  rw [capturedText, capturedText] at h
  obtain ⟨hrest, htail⟩ := hexFormatText_inj (by simp only [List.map_cons, List.map_nil]) h
  simp only [List.cons.injEq, Prod.mk.injEq, and_true] at hrest
  exact ⟨hrest, htail⟩

theorem CpuState.PrintsAs.invalidRip_iff {s t : CpuState} (h : s.PrintsAs t) :
    s.InvalidRip ↔ t.InvalidRip := by
  show s.rip = 0 ∨ s.rip = 1 ↔ t.rip = 0 ∨ t.rip = 1
  rw [h.rip]

/-- The loop depends on what is printed. -/
theorem CpuState.PrintsAs.stateLoop_eq {s t : CpuState} (h : s.PrintsAs t) :
    stateLoop s = stateLoop t := by
  by_cases hrip : s.InvalidRip
  · rw [stateLoop, stateLoop, if_pos hrip, if_pos (h.invalidRip_iff.mp hrip)]
  · rw [stateLoop, stateLoop, if_neg hrip, if_neg (mt h.invalidRip_iff.mpr hrip)]

theorem CpuState.PrintsAs.outcomeText_eq {s t : CpuState} (h : s.PrintsAs t) :
    outcomeText s = outcomeText t := by
  by_cases hrip : s.InvalidRip
  · rw [outcomeText, outcomeText, if_pos hrip, if_pos (h.invalidRip_iff.mp hrip), h.rip]
  · have hst : s = t := by
      obtain ⟨hrflags, hregs⟩ := h.dump hrip
      cases s
      cases t
      simp only [CpuState.mk.injEq]
      exact ⟨h.rip, h.rsp, h.rbp, hrflags, hregs⟩
    rw [hst]

/-- The text about a state tells all that it prints. -/
theorem stateText_eq_iff {s t : CpuState} : stateText s = stateText t ↔ s.PrintsAs t := by
  constructor
  · intro h
    obtain ⟨⟨hrip, hrsp, hrbp⟩, h⟩ := capturedText_inj h
    obtain ⟨-, h⟩ := capturedText_inj h
    refine ⟨hrip, hrsp, hrbp, fun hvalid => ?_⟩
    have hvalid' : ¬ t.InvalidRip := by rwa [CpuState.InvalidRip, ← hrip]
    rw [outcomeText, outcomeText, if_neg hvalid, if_neg hvalid'] at h
    -- the core dump determines the state
    obtain rfl := Codec.Reads.injective coredumpText_reads
      (List.append_cancel_left (List.append_cancel_left h))
    exact ⟨rfl, rfl⟩
  · intro h
    rw [stateText, stateText, h.outcomeText_eq, capturedText, capturedText, h.rip, h.rsp, h.rbp]

/-! ## The report and the frame -/

/-- How the state of a frame is to be printed: which field is the stack pointer, and which
are the sixteen registers. -/
structure FrameView where
  rsp : Registers → Word
  registers : Fin 16 → Registers → Word

/-- The state of the interrupted context, from its frame. -/
def FrameView.state (view : FrameView) (regs : Registers) : CpuState where
  rip := regs.rip
  rsp := view.rsp regs
  rbp := regs.rbp
  rflags := regs.rflags
  registers := ⟨fun i => view.registers i regs⟩

/-- The report prints the values of the frame wherever it prints values of the state. -/
def DescribesFrame (view : FrameView) (cr2 : Word) (regs : Registers) (stale : CpuState)
    (out : Com1) : Prop :=
  ∃ loop, pageFaultHandler cr2 regs stale out =
    .ok (loop, out ++ (faultText cr2 regs.errCode ++
      (exceptionText regs.intNo regs.errCode ++ stateText (view.state regs))))

/-- **When a report describes the frame**: when the stack happens to hold the values of the
frame that are printed as `exception_handler` reads it, behind what `page_fault_handler` prints.
And two reports on one frame are the same exactly when the stack held the same values then. -/
theorem report_faithful_iff (cr2 : Word) (regs : Registers) (out : Com1) :
    (∀ view stale, DescribesFrame view cr2 regs stale out ↔
      stale.PrintsAs (view.state regs)) ∧
    ∀ stale stale', pageFaultHandler cr2 regs stale out =
      pageFaultHandler cr2 regs stale' out ↔ stale.PrintsAs stale' := by
  refine ⟨fun view stale => ?_, fun stale stale' => ?_⟩
  · rw [DescribesFrame, pageFaultHandler_ok, ← stateText_eq_iff]
    constructor
    · rintro ⟨loop, h⟩
      have hout := congrArg Prod.snd (Except.ok.inj h)
      exact List.append_cancel_left (List.append_cancel_left (List.append_cancel_left hout))
    · intro h
      exact ⟨stateLoop stale, by rw [h]⟩
  · rw [pageFaultHandler_ok, pageFaultHandler_ok, ← stateText_eq_iff]
    constructor
    · intro h
      have hout := congrArg Prod.snd (Except.ok.inj h)
      exact List.append_cancel_left (List.append_cancel_left (List.append_cancel_left hout))
    · intro h
      rw [h, (stateText_eq_iff.mp h).stateLoop_eq]

/-- A page fault at 0x400000. -/
def sampleFault : Registers where
  rdx := 1
  rcx := 2
  rbx := 3
  rax := 4
  rsi := 5
  rdi := 6
  rbp := 0x8000
  rsp := 0
  r15 := 7
  r14 := 8
  r13 := 9
  r12 := 10
  r11 := 11
  r10 := 12
  r9 := 13
  r8 := 14
  intNo := 14
  errCode := 2
  rip := 0x400000
  cs := 8
  rflags := 0x202
  userRsp := 0x7000
  ss := 16

/-- A stack that held zeroes, and one that held `rip = 2` there. -/
def staleZero : CpuState := ⟨0, 0, 0, 0, .const 16 0⟩

def staleTwo : CpuState := ⟨2, 0, 0, 0, .const 16 0⟩

/-- The report of the fault prints `RIP=0`, and on another stack it ends in another loop. -/
theorem report_unfaithful :
    (∀ view, ¬ DescribesFrame view 0x400000 sampleFault staleZero []) ∧
      pageFaultHandler 0x400000 sampleFault staleZero [] ≠
        pageFaultHandler 0x400000 sampleFault staleTwo [] := by
  constructor
  · rintro view ⟨loop, h⟩
    rw [pageFaultHandler_ok] at h
    have hout := congrArg Prod.snd (Except.ok.inj h)
    obtain ⟨⟨hrip, -, -⟩, -⟩ := capturedText_inj
      (List.append_cancel_left (List.append_cancel_left (List.append_cancel_left hout)))
    have hzero : (0 : Word) = 0x400000 := hrip
    exact absurd hzero (by decide)
  · rw [pageFaultHandler_ok, pageFaultHandler_ok]
    intro h
    have hloop : stateLoop staleZero = stateLoop staleTwo :=
      congrArg Prod.fst (Except.ok.inj h)
    exact absurd hloop (by decide)

end KptrOS
