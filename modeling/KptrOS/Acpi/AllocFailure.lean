import KptrOS.Acpi.InitFailure
import KptrOS.Acpi.MapFrame

/-!
# The report of a failed allocation

`alloc_page` has no status: a caller sets its pointer to NULL, and takes a pointer that is
still NULL for a failure. A page at address 0 cannot be told from one then. It is reserved,
and every caller reports that there is none.

- `FailureObservable`: NULL means that no page was reserved, to the caller of `alloc_page`,
  to that of `uacpi_kernel_map` and in `acpi_init`.
- `failureObservable_iff_lowestFree`: it holds in a state unless page 0 is the next one.
- `failureObservable_iff`: it holds in every run exactly if page 0 is not tracked.
-/

namespace KptrOS

open CSem

/-- A NULL pointer tells that no page was reserved. -/
structure FailureObservable (k : Kernel) : Prop where
  /-- The pointer is NULL after `alloc_page` exactly when no bit was set. -/
  alloc : ∃ p k', allocPage 0 k = .ok (p, k') ∧ (p = 0 ↔ k'.pmm.bitmap = k.pmm.bitmap)
  /-- A `uacpi_kernel_map` that returns NULL has set no bit. -/
  map : ∀ addr len slot k', uacpiKernelMap addr len slot k = .ok (0, k') →
    k'.pmm.bitmap = k.pmm.bitmap
  /-- An `acpi_init` without a page returns -1 and has set no bit. -/
  init : ∀ setup slot k₁, allocPage 0 k = .ok (0, k₁) →
    ∃ k', acpiInit setup slot k = .ok (-1, k') ∧ k'.pmm.bitmap = k.pmm.bitmap

/-! ## One call -/

/-- Setting a clear bit changes the bitmap. -/
theorem setBit_ne {bitmap bitmap' : Bitmap} {i : Nat} (hi : i < maxPages)
    (hclear : bitAt bitmap i = false) (hset : setBit bitmap i = .ok bitmap') :
    bitmap' ≠ bitmap := by
  rintro rfl
  have hbit := bitAt_of_setBit hi hset i
  rw [hclear, decide_eq_true rfl] at hbit
  cases hbit

/-- `uacpi_kernel_map` returns NULL when `alloc_page` did, with the bitmap as that left it. -/
theorem uacpiKernelMap_null {k k₁ k' : Kernel} {p addr len slot : Word}
    (halloc : allocPage 0 k = .ok (p, k₁))
    (h : uacpiKernelMap addr len slot k = .ok (0, k')) : p = 0 ∧ k'.pmm = k₁.pmm := by
  rw [uacpiKernelMap, halloc, ok_bind] at h
  dsimp only [memcpy] at h
  by_cases hp : p = 0
  · rw [if_pos hp] at h
    obtain ⟨serial', -, h⟩ := bind_eq_ok.mp h
    cases h
    exact ⟨hp, rfl⟩
  · rw [if_neg hp, if_neg hp] at h
    cases h
    exact absurd rfl hp

/-- And it does return NULL then. -/
theorem uacpiKernelMap_of_alloc_null {k k₁ : Kernel} (halloc : allocPage 0 k = .ok (0, k₁))
    (addr len slot : Word) :
    ∃ serial', uacpiKernelMap addr len slot k = .ok (0, { k₁ with serial := serial' }) := by
  obtain ⟨serial', hfail⟩ := serialPrintf_mapFailure k₁.serial
  refine ⟨serial', ?_⟩
  rw [uacpiKernelMap, halloc, ok_bind]
  dsimp only
  rw [if_pos rfl, hfail, ok_bind]
  rfl

/-- Page 0 is reserved, and the pointer stays NULL. -/
theorem allocPage_loses_zero {k : Kernel} (hk : k.pmm.InBounds) (hzero : k.pmm.LowestFree 0) :
    ∃ k', allocPage 0 k = .ok (0, k') ∧ k'.pmm.bitmap ≠ k.pmm.bitmap := by
  rcases allocPage_cases hk with
    ⟨i, page, bitmap', hi, hclear, hbefore, hpage, hset, hrun⟩ | ⟨hfull, -⟩
  · have hlowest : k.pmm.LowestFree page := ⟨i, hi, hpage, hclear, hbefore⟩
    obtain rfl : page = 0 := hlowest.unique hzero
    exact ⟨_, hrun 0, setBit_ne (Nat.lt_of_lt_of_le hi hk) hclear hset⟩
  · obtain ⟨i, hi, -, hclear, -⟩ := hzero
    rw [hfull i hi] at hclear
    cases hclear

/-- The callers see what `alloc_page` reports. -/
theorem failureObservable_of_alloc {k k₁ : Kernel} {p : Word}
    (halloc : allocPage 0 k = .ok (p, k₁)) (hp : p = 0 ↔ k₁.pmm.bitmap = k.pmm.bitmap) :
    FailureObservable k where
  alloc := ⟨p, k₁, halloc, hp⟩
  map := fun addr len slot k' hmap => by
    obtain ⟨hnull, hpmm⟩ := uacpiKernelMap_null halloc hmap
    rw [hpmm]
    exact hp.mp hnull
  init := fun setup slot k₂ halloc₂ => by
    rw [halloc] at halloc₂
    cases halloc₂
    exact ⟨_, acpiInit_of_alloc_zero halloc, hp.mp rfl⟩

/-- **A failure is observable unless page 0 is the next page.** -/
theorem failureObservable_iff_lowestFree {k : Kernel} (hk : k.pmm.InBounds) :
    FailureObservable k ↔ ¬ k.pmm.LowestFree 0 := by
  constructor
  · intro hobs hzero
    obtain ⟨p, k₁, halloc, hp⟩ := hobs.alloc
    obtain ⟨k₂, hlost, hchanged⟩ := allocPage_loses_zero hk hzero
    rw [halloc] at hlost
    cases hlost
    exact hchanged (hp.mp rfl)
  · intro hzero
    rcases allocPage_cases hk with
      ⟨i, page, bitmap', hi, hclear, hbefore, hpage, hset, hrun⟩ | ⟨-, hrun⟩
    · have hne : page ≠ 0 := by
        rintro rfl
        exact hzero ⟨i, hi, hpage, hclear, hbefore⟩
      exact failureObservable_of_alloc (hrun 0)
        (iff_of_false hne (setBit_ne (Nat.lt_of_lt_of_le hi hk) hclear hset))
    · exact failureObservable_of_alloc (hrun 0) (iff_of_true rfl rfl)

/-! ## Every run -/

/-- A page handed out whatever the pointer was before is that of the first clear bit. -/
theorem HandsOut.lowestFree {k : Kernel} {page : Word} (h : HandsOut k page) :
    k.pmm.LowestFree page := by
  obtain ⟨k', hrun⟩ := h (page + 1)
  have hne : page ≠ page + 1 := by bv_omega
  exact (allocPage_lowestFree hrun hne).1

/-- **When the failure of an allocation is observable.** After `bitmap_init`, on any memory
map, it is in a state that a run reaches unless the free page of lowest index is page 0; and
it is in all of these states exactly if page 0 is not among the pages that `bitmap_init` lists,
with its 64-bit rounding, for the usable entries. -/
theorem failureObservable_iff (boot : Boot) (k₀ : Kernel) :
    ∃ k₁, bitmapInit boot k₀ = .ok k₁ ∧
      (∀ calls, ∃ outs k, run PageCall.step calls k₁ = .ok (outs, k) ∧
        (FailureObservable k ↔ ¬ k.pmm.LowestFree 0)) ∧
      ((∀ calls outs k, run PageCall.step calls k₁ = .ok (outs, k) → FailureObservable k) ↔
        0 ∉ trackedPages boot.memmap) := by
  obtain ⟨s, tables, hfresh, -, hinit⟩ := bitmapInit_ok boot k₀
  let k₁ : Kernel := { k₀ with pmm := s, tables := tables }
  have hstart : k₁.pmm.Tracks (trackedPages boot.memmap) := hfresh.toTracks
  refine ⟨k₁, hinit, fun calls => ?_, fun hall hzero => ?_, fun hzero calls outs k hrun => ?_⟩
  · obtain ⟨outs, k, hrun, htracks⟩ := tracks_run hstart calls
    exact ⟨outs, k, hrun, failureObservable_iff_lowestFree htracks.inBounds⟩
  · -- allocate every page in front of page 0
    obtain ⟨calls, outs, k, hrun, hout⟩ := exists_handsOut (k := k₁) hfresh hzero
    have htracks := hstart.of_run hrun
    exact (failureObservable_iff_lowestFree htracks.inBounds).mp (hall calls outs k hrun)
      hout.lowestFree
  · have htracks := hstart.of_run hrun
    refine (failureObservable_iff_lowestFree htracks.inBounds).mpr ?_
    rintro ⟨i, hi, hpage, -⟩
    exact hzero (htracks.tracked_iff.mp ⟨i, hi, hpage⟩)

/-! ### An example: a usable entry at address 0 -/

/-- A usable entry that starts at address 0. -/
def zeroBoot : Boot := { sampleBoot with memmap := [⟨0, 0x1000, memmapUsable⟩] }

/-- Its page is reserved by the first `alloc_page`, `uacpi_kernel_map` or `acpi_init`, and
each of them reports that there is none. -/
theorem pageZero_lost :
    ∃ k₁ k₂ k₃ k₄, bitmapInit zeroBoot (.loaded fun _ => 0) = .ok k₁ ∧
      allocPage 0 k₁ = .ok (0, k₂) ∧ k₂.pmm.bitmap ≠ k₁.pmm.bitmap ∧
      uacpiKernelMap 0x5000 8 stackSlot k₁ = .ok (0, k₃) ∧ k₃.pmm.bitmap ≠ k₁.pmm.bitmap ∧
      acpiInit (fun _ _ k => .ok (.ok, k)) stackSlot k₁ = .ok (-1, k₄) ∧
      k₄.pmm.bitmap ≠ k₁.pmm.bitmap := by
  obtain ⟨s, tables, hfresh, -, hinit⟩ := bitmapInit_ok zeroBoot (.loaded fun _ => 0)
  have hpages : trackedPages zeroBoot.memmap = [0] := by decide
  rw [hpages] at hfresh
  have hlowest : s.LowestFree 0 :=
    ⟨0, hfresh.total ▸ Nat.one_pos, hfresh.addrs 0 0 rfl, hfresh.clear 0 Nat.one_pos,
      fun j hj => absurd hj (Nat.not_lt_zero j)⟩
  obtain ⟨k₂, halloc, hchanged⟩ := allocPage_loses_zero
    (k := { Kernel.loaded (fun _ => 0) with pmm := s, tables := tables }) hfresh.inBounds hlowest
  obtain ⟨serial', hmap⟩ := uacpiKernelMap_of_alloc_null halloc 0x5000 8 stackSlot
  exact ⟨_, k₂, { k₂ with serial := serial' }, _, hinit, halloc, hchanged, hmap, hchanged,
    acpiInit_of_alloc_zero halloc, hchanged⟩

end KptrOS
