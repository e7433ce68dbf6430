import KptrOS.Acpi.Balance
import KptrOS.Acpi.Coverage

/-!
# The early table buffer

`acpi_init` hands a page to uACPI, which keeps it as its table storage, and calls
`free_page` on the address of the variable that holds it. The page survives, because
that address is not a page.

- `UsesMapping`: what is assumed of `uacpi_setup_early_table_access`.
- `KeptAlong`: a page stays live, is not handed out and not zeroed along a run.
- `keptAlong_of_not_freed`: so is every live page that no call frees.
- `early_buffer_kept`: the buffer of a successful `acpi_init`.
-/

namespace KptrOS

open CSem

/-! ## What uACPI may do -/

/-- A call that uACPI makes while it sets up its tables: it maps, unmaps and logs, and
stores where it likes. -/
def AcpiCall.ThroughMapping : AcpiCall → Prop
  | .page (.store _ _) => True
  | .page _ => False
  | .map _ _ _ => True
  | .unmap _ _ _ => True
  | .log _ _ _ => True

/-- In state `k`, `uacpi_setup_early_table_access` reaches the allocator only through
the mapping interface. -/
def UsesMapping (setup : Word → Word → Kernel → Exec (UacpiStatus × Kernel))
    (k : Kernel) : Prop :=
  ∀ tmp len ret k', setup tmp len k = .ok (ret, k') →
    ∃ calls outs, run AcpiCall.step calls k = .ok (outs, k') ∧
      ∀ c ∈ calls, c.ThroughMapping ∧ c.LocalUntracked k.pmm

/-- No such call frees a page of the pool. -/
theorem AcpiCall.ThroughMapping.op_ne_free {s : Pmm} {P : Pool Word} (h : s.Refines P)
    {c : AcpiCall} (hc : c.ThroughMapping) (hlocal : c.LocalUntracked s) {page : Word}
    (hpage : page ∈ P.items) : c.op ≠ .free page := by
  refine AcpiCall.op_ne_free_of_local h ?_ hlocal hpage
  rintro rfl
  exact hc

/-! ## Pages that nobody frees -/

/-- The call ends in `free_page`. -/
def AcpiCall.CallsFreePage : AcpiCall → Prop
  | .page (.free _) => True
  | .unmap _ _ _ => True
  | _ => False

/-- All along a run the page is live and `alloc_page` would not hand it out, and no call
of `free_page` changes a byte of it. -/
def KeptAlong (page : Word) (calls : List AcpiCall) (k : Kernel) : Prop :=
  Always AcpiCall.step (fun k => k.pmm.Live page ∧ ¬ HandsOut k page) calls k ∧
    Along AcpiCall.step (fun c k => c.CallsFreePage → ∀ o k', c.step k = .ok (o, k') →
      ∀ a, InRange page pageSize a → k'.mem a = k.mem a) calls k

/-- A call of `free_page` on another address leaves the page alone. -/
theorem AcpiCall.effect_of_callsFreePage {c : AcpiCall} {P : Pool Word} (hP : OfPages P)
    {page : Word} (hpage : Aligned page) (hc : c.CallsFreePage) (hop : c.op ≠ .free page)
    (m : Memory) {a : Word} (ha : InRange page pageSize a) : c.effect P m a = m a := by
  cases c with
  | page c =>
    cases c with
    | alloc addr => exact hc.elim
    | free addr =>
      exact PageCall.effect_free hP hpage (fun h => hop (h ▸ rfl)) m ha
    | store addr byte => exact hc.elim
  | map addr len slot => exact hc.elim
  | unmap addr len slot =>
    exact PageCall.effect_free hP hpage (fun h => hop (h ▸ rfl)) m ha
  | log level buf hbuf => exact hc.elim

/-- A live page is not handed out. -/
theorem not_handsOut_of_live {k : Kernel} {P : Pool Word} (h : k.pmm.Refines P)
    {page : Word} (hlive : page ∈ P.live) : ¬ HandsOut k page := fun hout =>
  Pool.lowest_not_live ((handsOut_iff h).mp hout) hlive

/-- A live page that no call frees is kept. -/
theorem keptAlong_of_not_freed {calls : List AcpiCall} {k : Kernel} {P : Pool Word}
    (h : k.pmm.Refines P) (hP : OfPages P) {page : Word} (hlive : page ∈ P.live)
    (hcalls : ∀ c ∈ calls, c.op ≠ .free page) : KeptAlong page calls k := by
  induction calls generalizing k P with
  | nil => exact ⟨⟨h.live_iff.mpr hlive, not_handsOut_of_live h hlive⟩, trivial⟩
  | cons c calls ih =>
    obtain ⟨s', serial', href, hspec⟩ := c.step_spec h
    have hc := hcalls c List.mem_cons_self
    rw [AcpiCall.abstractStep_snd] at href
    have htail := ih (k := { k with
        pmm := s', mem := c.effect P k.mem, serial := serial' }) href (hP.apply c.op)
      (Pool.mem_live_apply hlive hc) fun d hd => hcalls d (List.mem_cons_of_mem c hd)
    -- the step is the one of `hspec`, and the rest of the run starts where it ends
    refine ⟨⟨⟨h.live_iff.mpr hlive, not_handsOut_of_live h hlive⟩, fun o k' hstep => ?_⟩,
      fun hfree o k' hstep a ha => ?_, fun o k' hstep => ?_⟩
    · rw [hspec] at hstep
      cases hstep
      exact htail.1
    · rw [hspec] at hstep
      cases hstep
      exact AcpiCall.effect_of_callsFreePage hP (hP page (P.live_sub page hlive)) hfree hc
        k.mem ha
    · rw [hspec] at hstep
      cases hstep
      exact htail.2

/-! ## `acpi_init` -/

/-- The state in which the buffer is handed over: the page is taken and zeroed. -/
def handover (k : Kernel) (page : Word) : Kernel :=
  { k with mem := (memset k.mem page 0 pageSize).2 }

/-- The steps of an `acpi_init` that returns 0. -/
theorem acpiInit_eq_zero_iff
    {setup : Word → Word → Kernel → Exec (UacpiStatus × Kernel)} {slot : Word}
    {k k' : Kernel} :
    acpiInit setup slot k = .ok (0, k') ↔
      ∃ page k₁ k₂ k₃, allocPage 0 k = .ok (page, k₁) ∧ page ≠ 0 ∧
        setup page 4096 (handover k₁ page) = .ok (.ok, k₂) ∧
        freePage slot k₂ = .ok k₃ ∧
        uacpiKernelLog .info (cstr "uACPI Started\n") k₃ = .ok k' := by
  constructor
  · intro h
    obtain ⟨⟨page, k₁⟩, halloc, h⟩ := bind_eq_ok.mp h
    dsimp only at h
    by_cases hpage : page = 0
    · rw [if_pos hpage] at h
      obtain ⟨k₂, -, h⟩ := bind_eq_ok.mp h
      cases h
    rw [if_neg hpage] at h
    obtain ⟨⟨ret, k₂⟩, hsetup, h⟩ := bind_eq_ok.mp h
    dsimp only at h
    by_cases hret : ret = .ok
    · rw [if_neg (not_not_intro hret)] at h
      obtain ⟨k₃, hfree, h⟩ := bind_eq_ok.mp h
      obtain ⟨k₄, hlog, h⟩ := bind_eq_ok.mp h
      cases h
      exact ⟨page, k₁, k₂, k₃, halloc, hpage, hret ▸ hsetup, hfree, hlog⟩
    · rw [if_pos hret] at h
      obtain ⟨k₃, -, h⟩ := bind_eq_ok.mp h
      obtain ⟨k₄, -, h⟩ := bind_eq_ok.mp h
      cases h
  · rintro ⟨page, k₁, k₂, k₃, halloc, hpage, hsetup, hfree, hlog⟩
    rw [handover] at hsetup
    rw [acpiInit, halloc, ok_bind]
    dsimp only
    rw [if_neg hpage, hsetup, ok_bind]
    dsimp only
    rw [if_neg (not_not_intro rfl), hfree, ok_bind, hlog]
    rfl

/-- A call of the mapping interface is one that uACPI may make. -/
theorem AcpiCall.IsMapping.throughMapping {c : AcpiCall} (h : c.IsMapping) :
    c.ThroughMapping := by
  cases c with
  | page c => exact h.elim
  | map addr len slot => trivial
  | unmap addr len slot => trivial
  | log level buf hbuf => trivial

/-- An `alloc_page` that sets the pointer has taken the lowest page of the pool. -/
theorem Pmm.Refines.allocPage_taken {k k₁ : Kernel} {P : Pool Word} {page : Word}
    (href : k.pmm.Refines P) (halloc : allocPage 0 k = .ok (page, k₁)) (hpage : page ≠ 0) :
    P.lowest = some page ∧ k₁.pmm.Refines P.alloc := by
  rcases allocPage_refines href with ⟨q, bitmap', hlowest, href', hspec⟩ | ⟨-, hspec⟩
  · rw [hspec] at halloc
    cases halloc
    exact ⟨hlowest, href'⟩
  · rw [hspec] at halloc
    cases halloc
    exact absurd rfl hpage

/-- A setup that goes through the mapping interface, and the two calls that `acpi_init` makes
after it, are one run. -/
theorem acpiInit_history {start k₂ k₃ k' : Kernel} {slot : Word} {calls : List AcpiCall}
    {outs : List (Option Word)} (hrun : run AcpiCall.step calls start = .ok (outs, k₂))
    (hfree : freePage slot k₂ = .ok k₃)
    (hlog : uacpiKernelLog .info (cstr "uACPI Started\n") k₃ = .ok k') :
    run AcpiCall.step (calls ++
        [.page (.free slot), .log .info (cstr "uACPI Started\n") (zero_mem_cstr _)]) start =
      .ok (outs ++ [none, none], k') := by
  refine run_append_ok.mpr ⟨outs, k₂, [none, none], hrun, ?_, rfl⟩
  refine run_cons_ok.mpr ⟨none, k₃, [none], ?_, ?_, rfl⟩
  · rw [AcpiCall.step, PageCall.step, hfree]
    rfl
  · refine run_cons_ok.mpr ⟨none, k', [], ?_, run_nil k', rfl⟩
    rw [AcpiCall.step, hlog]
    rfl

/-- **The early table buffer outlives `acpi_init`.** When `acpi_init` returns 0, the page
that it handed to `uacpi_setup_early_table_access` is kept from then on: during the
setup, through the `free_page` of `acpi_init` itself and in every later run of the
mapping interface. -/
theorem early_buffer_kept {k k' : Kernel} (hk : k.pmm.Reachable)
    {setup : Word → Word → Kernel → Exec (UacpiStatus × Kernel)}
    (hsetup : ∀ k₁, (∀ a, k₁.pmm.Tracked a ↔ k.pmm.Tracked a) → UsesMapping setup k₁)
    {slot : Word} (hslot : ¬ k.pmm.Tracked slot)
    (hinit : acpiInit setup slot k = .ok (0, k')) :
    ∃ page k₁ k₂ calls outs, allocPage 0 k = .ok (page, k₁) ∧ page ≠ 0 ∧
      setup page 4096 (handover k₁ page) = .ok (.ok, k₂) ∧
      run AcpiCall.step calls (handover k₁ page) = .ok (outs, k') ∧
      ∀ later : List AcpiCall, (∀ c ∈ later, c.IsMapping ∧ c.LocalUntracked k.pmm) →
        (∃ outs' k'', run AcpiCall.step later k' = .ok (outs', k'')) ∧
        KeptAlong page (calls ++ later) (handover k₁ page) := by
  obtain ⟨page, k₁, k₂, k₃, halloc, hpage, hset, hfree, hlog⟩ := acpiInit_eq_zero_iff.mp hinit
  obtain ⟨P, href, hP⟩ := hk.exists_pool
  obtain ⟨hlowest, href₁⟩ := href.allocPage_taken halloc hpage
  have hlive : page ∈ P.alloc.live := by
    rw [Pool.alloc_live_of_some hlowest]
    exact Finset.mem_insert_self page P.live
  have hitem : page ∈ P.items := Pool.lowest_mem hlowest
  have hstart : (handover k₁ page).pmm.Refines P.alloc := href₁
  have htracked : ∀ a, (handover k₁ page).pmm.Tracked a ↔ k.pmm.Tracked a := fun a =>
    hstart.tracked_iff.trans href.tracked_iff.symm
  obtain ⟨calls, outs, hrun, hcalls⟩ := hsetup _ htracked page 4096 .ok k₂ hset
  have hhistory := acpiInit_history hrun hfree hlog
  refine ⟨page, k₁, k₂, _, _, halloc, hpage, hset, hhistory, fun later hlater => ?_⟩
  have hend := (acpiSimulation.run_eq hstart hhistory).2
  obtain ⟨k'', hlast, -⟩ := acpi_run hend later
  refine ⟨⟨_, k'', hlast⟩, keptAlong_of_not_freed hstart (hP.apply .alloc) hlive ?_⟩
  intro c hc
  rcases List.mem_append.mp hc with hc | hc
  · rcases List.mem_append.mp hc with hc | hc
    · exact (hcalls c hc).1.op_ne_free hstart (hcalls c hc).2 hitem
    · rcases List.mem_pair.mp hc with rfl | rfl
      · rintro ⟨⟩
        exact hslot (href.tracked_iff.mpr hitem)
      · intro hop
        cases hop
  · obtain ⟨hmap, hlocal⟩ := hlater c hc
    exact hmap.throughMapping.op_ne_free href hlocal hitem

/-! ### An example: firmware with an empty XSDT -/

/-- Eight usable pages. -/
def earlyBoot : Boot := { sampleBoot with memmap := [⟨0x1000, 0x8000, memmapUsable⟩] }

/-- The memory that firmware leaves: tables at their addresses, and zeros elsewhere. -/
def firmwareMemory (tables : List (Word × List Byte)) : Memory := fun a =>
  tables.foldr (fun table rest =>
    if InRange table.1 table.2.length a then table.2.getD (a - table.1).toNat 0 else rest) 0

/-- An RSDP of revision 2 that names the XSDT at 0xE0000. -/
def sampleRsdp : List Byte :=
  lit "RSD PTR " ++ [31] ++ lit "      " ++ [2, 0, 0, 0, 0, 36, 0, 0, 0, 0, 0, 14, 0, 0, 0, 0, 0,
    206, 0, 0, 0]

/-- The RSDP, and an XSDT of 44 bytes whose only entry is null. -/
def earlyFirmware : Memory :=
  firmwareMemory [(0xF0000, sampleRsdp),
    (0xE0000, lit "XSDT" ++ [44, 0, 0, 0, 1, 208] ++ List.replicate 14 32 ++ List.replicate 20 0)]

/-- The calls of `uacpi_setup_early_table_access` on this firmware: the RSDP, the header of the
XSDT and the whole of it are mapped and unmapped. -/
def earlyCalls : List AcpiCall :=
  [.log .info (cstr "starting uACPI, version 3.0.0\n") (zero_mem_cstr _),
    .map 0xF0000 36 0xFFFF800000010018,
    .log .info (cstr "RSDP 0x00000000000F0000 00000024 v02 (      )\n") (zero_mem_cstr _),
    .unmap 0x2000 36 0xFFFF800000010038,
    .map 0xE0000 36 0xFFFF800000010018,
    .log .info (cstr "XSDT 0x00000000000E0000 0000002C v01 (               )\n")
      (zero_mem_cstr _),
    .unmap 0x3000 36 0xFFFF800000010038,
    .map 0xE0000 44 0xFFFF800000010018,
    .unmap 0x4000 44 0xFFFF800000010038]

/-- `uacpi_setup_early_table_access` on this firmware. -/
def earlySetup (_buffer _size : Word) (k : Kernel) : Exec (UacpiStatus × Kernel) := do
  let (outs, k) ← run AcpiCall.step earlyCalls k
  return (if some 0 ∈ outs then .mappingFailed else .ok, k)

theorem earlyBoot_wellFormed : WellFormed earlyBoot.memmap where
  bounded := by decide
  disjoint := List.pairwise_singleton _ _

/-- The pool of the eight pages. -/
def earlyPool : Pool Word :=
  .fresh [0x1000, 0x2000, 0x3000, 0x4000, 0x5000, 0x6000, 0x7000, 0x8000] (by decide)

theorem earlyCalls_local {s : Pmm} (h : ∀ a, s.Tracked a → Aligned a) :
    ∀ c ∈ earlyCalls, c.ThroughMapping ∧ c.LocalUntracked s := by
  have hlocal : ∀ a : Word, ¬ Aligned a → ¬ s.Tracked a := fun a ha htracked => ha (h a htracked)
  intro c hc
  simp only [earlyCalls, List.mem_cons, List.not_mem_nil, or_false] at hc
  rcases hc with rfl | rfl | rfl | rfl | rfl | rfl | rfl | rfl | rfl
  all_goals first
    | exact ⟨trivial, trivial⟩
    | exact ⟨trivial, hlocal _ (by decide)⟩

theorem earlySetup_usesMapping {k : Kernel} (h : ∀ a, k.pmm.Tracked a → Aligned a) :
    UsesMapping earlySetup k := by
  intro tmp len ret k' hset
  obtain ⟨⟨outs, k''⟩, hrun, hret⟩ := bind_eq_ok.mp hset
  cases hret
  exact ⟨earlyCalls, outs, hrun, earlyCalls_local h⟩

/-- On this firmware `acpi_init` succeeds, with the first page as the buffer. -/
theorem acpiInit_earlySetup {k : Kernel} (h : k.pmm.Refines earlyPool) :
    ∃ k₁ k', allocPage 0 k = .ok (0x1000, k₁) ∧
      acpiInit earlySetup 0xFFFF800000010058 k = .ok (0, k') := by
  have hlowest : earlyPool.lowest = some 0x1000 := by decide
  rcases allocPage_refines h with ⟨page, bitmap', hpage, href, halloc⟩ | ⟨hnone, -⟩
  · rw [hlowest] at hpage
    cases hpage
    let start := handover { k with pmm.bitmap := bitmap' } 0x1000
    have hstart : start.pmm.Refines earlyPool.alloc := href
    obtain ⟨k₂, hrun, hend⟩ := acpi_run hstart earlyCalls
    have houts : (trace AcpiCall.abstractStep earlyCalls earlyPool.alloc).1 =
        [none, some 0x2000, none, none, some 0x3000, none, none, some 0x4000, none] := rfl
    have hset : earlySetup 0x1000 4096 start = .ok (.ok, k₂) := by
      rw [earlySetup, hrun, ok_bind, houts]
      rfl
    have hfree : freePage 0xFFFF800000010058 k₂ = .ok k₂ :=
      freePage_of_not_mem hend (by
        rw [Pool.applyAll_items]
        decide)
    have hlog := uacpiKernelLog_text .info (zero_mem_cstr "uACPI Started\n") k₂
    exact ⟨_, _, halloc 0, acpiInit_eq_zero_iff.mpr
      ⟨0x1000, _, k₂, k₂, halloc 0, by decide, hset, hfree, hlog⟩⟩
  · rw [hlowest] at hnone
    cases hnone

/-- The buffer is kept through the setup and a mapping after it. -/
theorem early_buffer_kept_sample :
    ∃ k₁ k₂ k' calls, bitmapInit earlyBoot (.loaded earlyFirmware) = .ok k₁ ∧
      acpiInit earlySetup 0xFFFF800000010058 k₁ = .ok (0, k') ∧
      allocPage 0 k₁ = .ok (0x1000, k₂) ∧
      KeptAlong 0x1000 (calls ++ sampleMapping) (handover k₂ 0x1000) := by
  obtain ⟨k₁, hinit, -, href⟩ :=
    bitmapInit_refines earlyBoot (.loaded earlyFirmware) earlyBoot_wellFormed
  have hpool : earlyPool =
      .fresh (trackedPages earlyBoot.memmap) (trackedPages_nodup earlyBoot_wellFormed) :=
    Pool.ext_of_live (by decide) rfl
  have haligned : ∀ a, k₁.pmm.Tracked a → Aligned a := fun a =>
    href.aligned fun page hpage => trackedPages_aligned hpage
  rw [← hpool] at href
  obtain ⟨k₂, k', halloc, hacpi⟩ := acpiInit_earlySetup href
  obtain ⟨page, k₃, _, calls, _, halloc', -, -, -, hkept⟩ := early_buffer_kept
    (bitmapInit_reachable earlyBoot_wellFormed hinit)
    (fun k h => earlySetup_usesMapping fun a ha => haligned a ((h a).mp ha))
    (fun htracked => absurd (haligned _ htracked) (by decide)) hacpi
  rw [halloc] at halloc'
  cases halloc'
  exact ⟨k₁, k₂, k', calls, hinit, hacpi, halloc,
    (hkept sampleMapping (sampleMapping_local haligned)).2⟩

end KptrOS
