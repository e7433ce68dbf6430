import KptrOS.Acpi.EarlyTable

/-!
# The error path of `acpi_init`

When the tables cannot be set up, `acpi_init` means to give its page back, and passes
`free_page` the address of the variable that holds it. The page stays taken. The other error
path, for a page that could not be had, also takes page 0 for a failure after reserving it.

- `KeepsPages`: what is assumed of `uacpi_setup_early_table_access`.
- `RestoresOnFailure`: what the error paths are for.
- `acpiInit_restores_iff`: it holds exactly when there is nothing to give back.
-/

namespace KptrOS

open CSem

/-- `uacpi_setup_early_table_access` leaves the address table and the set of live pages as
it finds them. -/
def KeepsPages (setup : Word → Word → Kernel → Exec (UacpiStatus × Kernel)) : Prop :=
  ∀ buffer size k ret k', setup buffer size k = .ok (ret, k') →
    k'.pmm.pageAddrs = k.pmm.pageAddrs ∧ k'.pmm.totalPages = k.pmm.totalPages ∧
      ∀ page, k'.pmm.Live page ↔ k.pmm.Live page

/-- If `acpi_init` returns -1, the live pages are those from before the call. -/
def RestoresOnFailure (setup : Word → Word → Kernel → Exec (UacpiStatus × Kernel))
    (slot : Word) (k : Kernel) : Prop :=
  ∀ k', acpiInit setup slot k = .ok (-1, k') → ∀ page, k'.pmm.Live page ↔ k.pmm.Live page

section

variable {setup : Word → Word → Kernel → Exec (UacpiStatus × Kernel)} {slot : Word}
  {k : Kernel}

/-! ## The two error paths -/

/-- The state after a message of level `error` has been logged. -/
def loggedError (message : String) (k : Kernel) : Kernel :=
  { k with serial := k.serial ++ (uacpiLogPrefix .error ++ lit message) }

theorem uacpiKernelLog_error (message : String) (k : Kernel) :
    uacpiKernelLog .error (cstr message) k = .ok (loggedError message k) :=
  uacpiKernelLog_text .error (zero_mem_cstr message) k

/-- Without a page nothing but the message happens. -/
theorem acpiInit_of_alloc_zero {k₁ : Kernel} (halloc : allocPage 0 k = .ok (0, k₁)) :
    acpiInit setup slot k =
      .ok (-1, loggedError "[ ERR ] Failed to allocate memory for uACPI" k₁) := by
  rw [acpiInit, halloc, ok_bind]
  dsimp only
  rw [if_pos rfl, uacpiKernelLog_error]
  rfl

/-- `free_page` ignores an address that is not in the table. -/
theorem freePage_of_not_tracked (hk : k.pmm.InBounds) (hslot : ¬ k.pmm.Tracked slot) :
    freePage slot k = .ok k := by
  rcases freePage_cases hk slot with ⟨i, _, hi, hget, -⟩ | ⟨-, hrun⟩
  · exact absurd ⟨i, hi, hget⟩ hslot
  · exact hrun

/-- After a failed setup `free_page` is called on the address of the variable, and the page
stays as the setup left it. -/
theorem acpiInit_of_setup_failed {p : Word} {k₁ k₂ : Kernel} {ret : UacpiStatus}
    (halloc : allocPage 0 k = .ok (p, k₁)) (hp : p ≠ 0)
    (hsetup : setup p 4096 (handover k₁ p) = .ok (ret, k₂)) (hret : ret ≠ .ok)
    (hbounds : k₂.pmm.InBounds) (hslot : ¬ k₂.pmm.Tracked slot) :
    acpiInit setup slot k = .ok (-1, loggedError (uacpiStatusToString ret) k₂) := by
  have hfree : freePage slot (loggedError (uacpiStatusToString ret) k₂) =
      .ok (loggedError (uacpiStatusToString ret) k₂) := freePage_of_not_tracked hbounds hslot
  rw [acpiInit, halloc, ok_bind]
  dsimp only
  rw [if_neg hp]
  show (setup p 4096 (handover k₁ p) >>= _) = _
  rw [hsetup, ok_bind]
  dsimp only
  rw [if_pos hret, uacpiKernelLog_error, ok_bind, hfree]
  rfl

/-- A setup that succeeds is no failure of `acpi_init`. -/
theorem acpiInit_ne_of_setup_ok {p : Word} {k₁ k' : Kernel}
    (halloc : allocPage 0 k = .ok (p, k₁)) (hp : p ≠ 0)
    (hsetup : ∀ ret k₂, setup p 4096 (handover k₁ p) = .ok (ret, k₂) → ret = .ok) :
    acpiInit setup slot k ≠ .ok (-1, k') := by
  intro h
  rw [acpiInit, halloc, ok_bind] at h
  dsimp only at h
  rw [if_neg hp] at h
  obtain ⟨⟨ret, k₂⟩, hrun, h⟩ := bind_eq_ok.mp h
  rw [hsetup ret k₂ hrun] at h
  obtain ⟨k₃, -, h⟩ := bind_eq_ok.mp h
  obtain ⟨k₄, -, h⟩ := bind_eq_ok.mp h
  cases h

/-! ## What is given back -/

/-- The setup, given the page `p`, reports no failure. -/
def SetupSucceeds (setup : Word → Word → Kernel → Exec (UacpiStatus × Kernel))
    (k : Kernel) (p : Word) : Prop :=
  ∀ k₁ ret k₂, allocPage 0 k = .ok (p, k₁) →
    setup p 4096 (handover k₁ p) = .ok (ret, k₂) → ret = .ok

/-- **The error paths restore the allocator exactly when there is nothing to restore**: no
page was free, so that none was taken, or the page taken is not page 0 and the setup does not
fail with it. -/
theorem acpiInit_restores_iff (hk : k.pmm.Reachable) (hslot : ¬ k.pmm.Tracked slot)
    (hsetup : KeepsPages setup) :
    RestoresOnFailure setup slot k ↔
      ∀ p, k.pmm.LowestFree p → p ≠ 0 ∧ SetupSucceeds setup k p := by
  obtain ⟨P, href, -⟩ := hk.exists_pool
  rcases allocPage_refines href with
    ⟨page, bitmap', hlowest, href₁, halloc⟩ | ⟨hlowest, halloc⟩
  · have hdead : ¬ k.pmm.Live page := fun h =>
      Pool.lowest_not_live hlowest (href.live_iff.mp h)
    have hlive : Pmm.Live { k.pmm with bitmap := bitmap' } page := by
      rw [href₁.live_iff, Pool.alloc_live_of_some hlowest]
      exact Finset.mem_insert_self page P.live
    constructor
    · intro hrestores p hp
      obtain rfl : page = p := by
        rw [href.lowestFree_iff, hlowest] at hp
        exact Option.some_inj.mp hp
      -- page 0 is reserved and then reported as missing
      have hne : page ≠ 0 := by
        rintro rfl
        exact hdead ((hrestores _ (acpiInit_of_alloc_zero (halloc 0)) 0).mp hlive)
      refine ⟨hne, fun k₁ ret k₂ halloc₁ hrun => ?_⟩
      by_contra hret
      obtain ⟨haddrs, htotal, hsame⟩ := hsetup _ _ _ _ _ hrun
      rw [halloc 0] at halloc₁
      cases halloc₁
      -- after a failure the page is live, and the address of the variable frees nothing
      have hbounds : k₂.pmm.InBounds := by
        rw [Pmm.InBounds, htotal]
        exact href.inBounds
      have huntracked : ¬ k₂.pmm.Tracked slot := by
        rw [Pmm.Tracked, htotal, haddrs]
        exact hslot
      have hinit := acpiInit_of_setup_failed (halloc 0) hne hrun hret hbounds huntracked
      exact hdead ((hrestores _ hinit page).mp ((hsame page).mpr hlive))
    · intro hcond k' hinit
      obtain ⟨hne, hok⟩ := hcond page (href.lowestFree_iff.mpr hlowest)
      exact absurd hinit (acpiInit_ne_of_setup_ok (halloc 0) hne fun ret k₂ hrun =>
        hok _ ret k₂ (halloc 0) hrun)
  · constructor
    · intro _ p hp
      rw [href.lowestFree_iff, hlowest] at hp
      cases hp
    · intro _ k' hinit page
      rw [acpiInit_of_alloc_zero (halloc 0)] at hinit
      cases hinit
      exact Iff.rfl

end

/-! ### An example: the tables are not found -/

theorem keepsPages_const (ret : UacpiStatus) : KeepsPages fun _ _ k => .ok (ret, k) := by
  intro buffer size k ret' k' h
  cases h
  exact ⟨rfl, rfl, fun page => Iff.rfl⟩

/-- The address of a variable on the kernel's stack. -/
def stackSlot : Word := 0xFFFF800000010058

theorem stackSlot_untracked {s : Pmm} (h : s.Refines samplePool) : ¬ s.Tracked stackSlot := by
  rw [h.tracked_iff]
  decide

/-- A memory map without usable pages. -/
def fullBoot : Boot := { sampleBoot with memmap := [⟨0x3000, 0x1000, 1⟩] }

theorem fullBoot_wellFormed : WellFormed fullBoot.memmap where
  bounded := by decide
  disjoint := List.pairwise_singleton _ _

/-- Without a page `acpi_init` fails, and has nothing to give back. -/
theorem acpiInit_restores_sample :
    ∃ k₁ k', bitmapInit fullBoot (.loaded fun _ => 0) = .ok k₁ ∧
      acpiInit (fun _ _ k => .ok (.notFound, k)) stackSlot k₁ = .ok (-1, k') ∧
      RestoresOnFailure (fun _ _ k => .ok (.notFound, k)) stackSlot k₁ := by
  obtain ⟨k₁, hinit, -, href⟩ :=
    bitmapInit_refines fullBoot (.loaded fun _ => 0) fullBoot_wellFormed
  have hitems : trackedPages fullBoot.memmap = [] := by decide
  have hpool : ∀ p, ¬ k₁.pmm.LowestFree p := by
    intro p hp
    have hmem : p ∈ trackedPages fullBoot.memmap :=
      Pool.lowest_mem (href.lowestFree_iff.mp hp)
    rw [hitems] at hmem
    exact List.not_mem_nil hmem
  have hslot : ¬ k₁.pmm.Tracked stackSlot := by
    intro htracked
    have hmem : stackSlot ∈ trackedPages fullBoot.memmap := href.tracked_iff.mp htracked
    rw [hitems] at hmem
    exact List.not_mem_nil hmem
  have hrestores := (acpiInit_restores_iff (bitmapInit_reachable fullBoot_wellFormed hinit) hslot
    (keepsPages_const .notFound)).mpr fun p hp => absurd hp (hpool p)
  rcases allocPage_refines href with ⟨page, -, hlowest, -⟩ | ⟨-, halloc⟩
  · exact absurd (href.lowestFree_iff.mpr hlowest) (hpool page)
  · exact ⟨k₁, _, hinit, acpiInit_of_alloc_zero (halloc 0), hrestores⟩

/-- When the setup fails, the page that `acpi_init` took is lost. -/
theorem acpiInit_leaks :
    ∃ k₁ k', bitmapInit sampleBoot (.loaded fun _ => 0) = .ok k₁ ∧ k₁.pmm.Reachable ∧
      ¬ k₁.pmm.Tracked stackSlot ∧ KeepsPages (fun _ _ k => .ok (.notFound, k)) ∧
      acpiInit (fun _ _ k => .ok (.notFound, k)) stackSlot k₁ = .ok (-1, k') ∧
      ¬ k₁.pmm.Live 0x1000 ∧ k'.pmm.Live 0x1000 := by
  obtain ⟨k₁, hinit, -, href⟩ := sampleBoot_refines (.loaded fun _ => 0)
  rcases allocPage_refines href with ⟨page, bitmap', hlowest, href₁, halloc⟩ | ⟨hnone, -⟩
  · obtain rfl : page = 0x1000 := (Option.some_inj.mp hlowest).symm
    have hslot := stackSlot_untracked href
    have hrun : acpiInit (fun _ _ k => .ok (.notFound, k)) stackSlot k₁ = .ok (-1, _) :=
      acpiInit_of_setup_failed (halloc 0) (by decide) rfl (by decide) href₁.inBounds hslot
    refine ⟨k₁, _, hinit, bitmapInit_reachable sampleBoot_wellFormed hinit, hslot,
      keepsPages_const .notFound, hrun, ?_, ?_⟩
    · rw [href.live_iff]
      exact Finset.notMem_empty _
    · refine href₁.live_iff.mpr ?_
      rw [Pool.alloc_live_of_some hlowest]
      exact Finset.mem_insert_self _ _
  · cases hnone

end KptrOS
