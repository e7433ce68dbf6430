import KptrOS.Acpi.KernelApi
import KptrOS.Mem.Isolation

/-!
# Mapping over the allocator

To the allocator a `uacpi_kernel_map` is an allocation, and a `uacpi_kernel_unmap`
frees an address that is not a page: that of a local variable.

- `AcpiCall`: the calls of the kernel and of uACPI that reach the allocator or the
  memory it manages.
- `AcpiCall.step_spec`: everything such a call does.
- `acpiSimulation`: every run is a run of the pool.
- `Pmm.Reachable`: the states of the allocator after `bitmap_init` and any calls.
-/

namespace KptrOS

open CSem

/-! ## Calls -/

/-- A call of a client of the allocator, of the mapping interface or of the log. -/
inductive AcpiCall where
  | page (c : PageCall)
  /-- `uacpi_kernel_map(addr, len)`, with its local variable at `slot`. -/
  | map (addr len slot : Word)
  /-- `uacpi_kernel_unmap(addr, len)`, with its parameter stored at `slot`. -/
  | unmap (addr len slot : Word)
  /-- `uacpi_kernel_log(level, buf)` with a NUL-terminated `buf`. -/
  | log (level : UacpiLogLevel) (buf : CBuf) (terminated : 0 ∈ buf)

/-- One call, with the pointer it returns. -/
def AcpiCall.step : AcpiCall → Kernel → Exec (Option Word × Kernel)
  | .page c, k => c.step k
  | .map addr len slot, k => do
    let r ← uacpiKernelMap addr len slot k
    return (some r.1, r.2)
  | .unmap addr len slot, k => do
    let k ← uacpiKernelUnmap addr len slot k
    return (none, k)
  | .log level buf _, k => do
    let k ← uacpiKernelLog level buf k
    return (none, k)

/-- What the call does to the pool. -/
def AcpiCall.op : AcpiCall → Pool.Op Word
  | .page c => c.op
  | .map _ _ _ => .alloc
  | .unmap _ _ slot => .free slot
  | .log _ _ _ => .skip

/-- The call on the pool. A mapping of page 0 is reported as a failure, although
the page is taken. -/
def AcpiCall.abstractStep (c : AcpiCall) (P : Pool Word) : Option Word × Pool Word :=
  match c with
  | .page c => c.abstractStep P
  | .map _ _ _ => (some (P.lowest.getD 0), P.alloc)
  | .unmap _ _ slot => (none, P.free slot)
  | .log _ _ _ => (none, P)

/-- What the call does to memory: a mapping copies the page that starts at `addr`. -/
def AcpiCall.effect (c : AcpiCall) (P : Pool Word) (m : Memory) : Memory :=
  match c with
  | .page c => c.effect P m
  | .map addr _ _ =>
    if P.lowest.getD 0 = 0 then m else (memcpy m (P.lowest.getD 0) addr pageSize).2
  | .unmap _ _ slot => (PageCall.free slot).effect P m
  | .log _ _ _ => m

/-- The local variable of the call is not at the address of a tracked page. -/
def AcpiCall.LocalUntracked (c : AcpiCall) (s : Pmm) : Prop :=
  match c with
  | .map _ _ slot => ¬ s.Tracked slot
  | .unmap _ _ slot => ¬ s.Tracked slot
  | _ => True

theorem AcpiCall.abstractStep_snd (c : AcpiCall) (P : Pool Word) :
    (c.abstractStep P).2 = P.apply c.op := by
  cases c with
  | page c => exact c.abstractStep_snd P
  | map addr len slot => rfl
  | unmap addr len slot => rfl
  | log level buf h => rfl

/-- A run on the pool applies the operations of its calls. -/
theorem trace_acpiStep_snd (calls : List AcpiCall) (P : Pool Word) :
    (trace AcpiCall.abstractStep calls P).2 = P.applyAll (calls.map AcpiCall.op) := by
  rw [trace_snd_eq_foldl AcpiCall.abstractStep_snd, Pool.applyAll, List.foldl_map]

/-! ## What a call does -/

/-- `uacpi_kernel_map` takes the lowest page that is not live, copies the page at
`addr` to it and returns it; it returns NULL when there is none, or when it is
page 0. -/
theorem uacpiKernelMap_refines {k : Kernel} {P : Pool Word} (h : k.pmm.Refines P)
    (addr len slot : Word) :
    ∃ s' serial', Pmm.Refines s' P.alloc ∧
      uacpiKernelMap addr len slot k = .ok (P.lowest.getD 0,
        { k with
          pmm := s', mem := (AcpiCall.map addr len slot).effect P k.mem,
          serial := serial' }) := by
  obtain ⟨serial', hfail⟩ : ∃ serial', serialPrintf
      (cstr "[ ERR ] Failed to allocate memory for mapping\n") [] k.serial =
        .ok serial' :=
    ⟨_, serialPrintf_cstr (by simp [lit, cstr, cText]) k.serial⟩
  rcases allocPage_refines h with
    ⟨page, bitmap', hlowest, href, halloc⟩ | ⟨hlowest, halloc⟩
  · by_cases hpage : page = 0
    · -- the pointer is taken for NULL, but its bit stays set
      subst hpage
      refine ⟨{ k.pmm with bitmap := bitmap' }, serial', href, ?_⟩
      rw [uacpiKernelMap, halloc, ok_bind, AcpiCall.effect, hlowest]
      dsimp only
      rw [if_pos rfl, hfail, ok_bind]
      rfl
    · refine ⟨{ k.pmm with bitmap := bitmap' }, k.serial, href, ?_⟩
      rw [uacpiKernelMap, halloc, ok_bind, AcpiCall.effect, hlowest]
      dsimp only [Option.getD_some, memcpy]
      rw [if_neg hpage, if_neg hpage, if_neg hpage]
      rfl
  · refine ⟨k.pmm, serial', ?_, ?_⟩
    · rwa [Pool.alloc_of_none hlowest]
    · rw [uacpiKernelMap, halloc, ok_bind, AcpiCall.effect, hlowest]
      dsimp only
      rw [if_pos rfl, hfail, ok_bind]
      rfl

/-- Everything a call does: it succeeds, returns what the pool says, keeps the
representation, changes memory as `AcpiCall.effect` tells and at most writes to the
serial port besides. -/
theorem AcpiCall.step_spec {k : Kernel} {P : Pool Word} (h : k.pmm.Refines P)
    (c : AcpiCall) :
    ∃ s' serial', Pmm.Refines s' (c.abstractStep P).2 ∧
      c.step k = .ok ((c.abstractStep P).1,
        { k with pmm := s', mem := c.effect P k.mem, serial := serial' }) := by
  cases c with
  | page c =>
    obtain ⟨s', href, hstep⟩ := c.step_spec h
    exact ⟨s', k.serial, href, hstep⟩
  | map addr len slot =>
    obtain ⟨s', serial', href, hmap⟩ := uacpiKernelMap_refines h addr len slot
    refine ⟨s', serial', href, ?_⟩
    rw [AcpiCall.step, hmap]
    rfl
  | unmap addr len slot =>
    obtain ⟨s', href, hstep⟩ := PageCall.step_spec h (.free slot)
    exact ⟨s', k.serial, href, hstep⟩
  | log level buf hbuf =>
    refine ⟨k.pmm, k.serial ++ (uacpiLogPrefix level ++ cText buf), h, ?_⟩
    rw [AcpiCall.step, uacpiKernelLog_text level hbuf]
    rfl

/-- The mapping interface simulates the pool. -/
theorem acpiSimulation :
    Simulation AcpiCall.step AcpiCall.abstractStep
      fun (k : Kernel) P => k.pmm.Refines P where
  step_ok := by
    intro c k P h
    obtain ⟨s', serial', href, hstep⟩ := c.step_spec h
    exact ⟨_, hstep, href⟩

/-- A run from a represented state, with the pool it ends in. -/
theorem acpi_run {k : Kernel} {P : Pool Word} (h : k.pmm.Refines P)
    (calls : List AcpiCall) :
    ∃ k', run AcpiCall.step calls k =
        .ok ((trace AcpiCall.abstractStep calls P).1, k') ∧
      k'.pmm.Refines (P.applyAll (calls.map AcpiCall.op)) := by
  obtain ⟨k', hrun, href⟩ := acpiSimulation.run calls h
  rw [trace_acpiStep_snd] at href
  exact ⟨k', hrun, href⟩

/-- Only `free_page` with the address of a page frees it: what an unmap frees is the
address of its own parameter. -/
theorem AcpiCall.op_ne_free_of_local {s : Pmm} {P : Pool Word} (h : s.Refines P)
    {c : AcpiCall} {page : Word} (hc : c ≠ .page (.free page))
    (hlocal : c.LocalUntracked s) (hpage : page ∈ P.items) : c.op ≠ .free page := by
  intro hop
  cases c with
  | page c => exact hc (congrArg AcpiCall.page (PageCall.op_eq_free.mp hop))
  | map addr len slot => cases hop
  | unmap addr len slot =>
    cases hop
    exact hlocal (h.tracked_iff.mpr hpage)
  | log level buf hbuf => cases hop

/-! ## Reachable states -/

/-- A state of the allocator that some run reaches from boot, on a map that the
bootloader provides. -/
def Pmm.Reachable (s : Pmm) : Prop :=
  ∃ boot k₀ k₁ calls outs k, WellFormed boot.memmap ∧ bitmapInit boot k₀ = .ok k₁ ∧
    run AcpiCall.step calls k₁ = .ok (outs, k) ∧ k.pmm = s

/-- **Every reachable state represents a pool of pages.** -/
theorem Pmm.Reachable.exists_pool {s : Pmm} (h : s.Reachable) :
    ∃ P : Pool Word, s.Refines P ∧ OfPages P := by
  obtain ⟨boot, k₀, k₁, calls, outs, k, hmap, hinit, hrun, rfl⟩ := h
  obtain ⟨k₁', hinit', -, href⟩ := bitmapInit_refines boot k₀ hmap
  rw [hinit] at hinit'
  cases hinit'
  have hpages : OfPages (.fresh (trackedPages boot.memmap) (trackedPages_nodup hmap)) :=
    fun page hpage => trackedPages_aligned hpage
  obtain ⟨-, hend⟩ := acpiSimulation.run_eq href hrun
  rw [trace_acpiStep_snd] at hend
  exact ⟨_, hend, hpages.applyAll _⟩

/-- `bitmap_init` reaches its own final state. -/
theorem bitmapInit_reachable {boot : Boot} {k₀ k₁ : Kernel} (hmap : WellFormed boot.memmap)
    (hinit : bitmapInit boot k₀ = .ok k₁) : k₁.pmm.Reachable :=
  ⟨boot, k₀, k₁, [], [], k₁, hmap, hinit, rfl, rfl⟩

/-- Only pages are tracked. -/
theorem Pmm.Refines.aligned {s : Pmm} {P : Pool Word} (h : s.Refines P) (hP : OfPages P)
    {addr : Word} (htracked : s.Tracked addr) : Aligned addr :=
  hP addr (h.tracked_iff.mp htracked)

end KptrOS
