import KptrOS.Acpi.Mapping
import KptrOS.Machine.Overlap
import KptrOS.Mem.Reserved

/-!
# What `uacpi_kernel_map` leaves alone

The copy spans a page whatever was asked for, and may run into the page that it fills. It
still writes that page only, and the bytes asked for are copied before any of them is
overwritten, as long as they lie outside the page.

- `uacpiKernelMap_cases`: everything a call can do, at the level of bitmap indices;
  `uacpiKernelMap_copies`: what one that succeeds has done; `uacpiKernelMap_repeats`: what
  it leaves in a page that begins behind the address.
- `Pmm.ReachedFrom`: the states of the allocator over a memory map, well formed or not.
- `uacpiKernelMap_frame`: the bit, the page and the bytes.
-/

namespace KptrOS

open CSem

/-! ## What a call can do -/

/-- The message on failure is written. -/
theorem serialPrintf_mapFailure (out : Com1) :
    ∃ out', serialPrintf (cstr "[ ERR ] Failed to allocate memory for mapping\n") [] out =
      .ok out' :=
  ⟨_, serialPrintf_cstr (by simp [lit, cstr, cText]) out⟩

/-- `uacpi_kernel_map` takes the page of the first clear bit and copies to it, or finds
every bit set and fails. A page at address 0 is taken and then reported as a failure. -/
theorem uacpiKernelMap_cases {k : Kernel} (hk : k.pmm.InBounds) (addr len slot : Word) :
    (∃ i page bitmap', i < k.pmm.totalPages ∧ bitAt k.pmm.bitmap i = false ∧
        k.pmm.pageAddrs.get i = .ok page ∧ setBit k.pmm.bitmap i = .ok bitmap' ∧
        (page ≠ 0 → uacpiKernelMap addr len slot k = .ok (page,
          { k with pmm.bitmap := bitmap', mem := (memcpy k.mem page addr pageSize).2 })) ∧
        (page = 0 → ∃ serial', uacpiKernelMap addr len slot k =
          .ok (0, { k with pmm.bitmap := bitmap', serial := serial' }))) ∨
      ((∀ i, i < k.pmm.totalPages → bitAt k.pmm.bitmap i = true) ∧
        ∃ serial', uacpiKernelMap addr len slot k = .ok (0, { k with serial := serial' })) := by
  obtain ⟨serial', hfail⟩ := serialPrintf_mapFailure k.serial
  rcases allocPage_cases hk with
    ⟨i, page, bitmap', hi, hclear, -, hpage, hset, hrun⟩ | ⟨hfull, hrun⟩
  · refine .inl ⟨i, page, bitmap', hi, hclear, hpage, hset, fun hne => ?_, fun hzero => ?_⟩
    · rw [uacpiKernelMap, hrun, ok_bind]
      dsimp only [memcpy]
      rw [if_neg hne, if_neg hne]
      rfl
    · refine ⟨serial', ?_⟩
      rw [uacpiKernelMap, hrun, ok_bind]
      dsimp only
      rw [if_pos hzero, hfail, ok_bind]
      rfl
  · refine .inr ⟨hfull, serial', ?_⟩
    rw [uacpiKernelMap, hrun, ok_bind]
    dsimp only
    rw [if_pos rfl, hfail, ok_bind]
    rfl

/-- A mapping that succeeds is a copy to the page of the first clear bit, in whatever order
the variables are. -/
theorem uacpiKernelMap_copies {k k' : Kernel} {addr len slot p : Word}
    (h : uacpiKernelMap addr len slot k = .ok (p, k')) (hp : p ≠ 0) :
    k.pmm.LowestFree p ∧ k'.mem = (memcpy k.mem p addr pageSize).2 := by
  rw [uacpiKernelMap] at h
  obtain ⟨⟨tmp, k₁⟩, halloc, h⟩ := bind_eq_ok.mp h
  dsimp only [memcpy] at h
  by_cases htmp : tmp = 0
  · rw [if_pos htmp] at h
    obtain ⟨serial', -, h⟩ := bind_eq_ok.mp h
    cases h
    exact absurd rfl hp
  · rw [if_neg htmp, if_neg htmp] at h
    cases h
    obtain ⟨hlowest, bitmap', rfl⟩ := allocPage_lowestFree halloc htmp
    exact ⟨hlowest, rfl⟩

/-- A mapping to a page above the address repeats the bytes in front of the page, if they are
fewer than a page. -/
theorem uacpiKernelMap_repeats {k k' : Kernel} {addr len slot p : Word}
    (h : uacpiKernelMap addr len slot k = .ok (p, k')) (hroom : p.toNat + pageSize ≤ 2 ^ 64)
    (hlt : addr < p) {i : Nat} (hi : i < pageSize) :
    k'.mem (offset p i) = k.mem (offset addr (i % (p.toNat - addr.toNat))) := by
  have hp : p ≠ 0 := by
    rintro rfl
    exact BitVec.not_lt_zero hlt
  obtain ⟨-, hmem⟩ := uacpiKernelMap_copies h hp
  rw [hmem]
  exact memcpy_repeats hroom hlt hi

/-! ## Reachable states over a map -/

/-- A call succeeds and keeps the table, on any memory map. -/
theorem tracks_acpiStep {k : Kernel} {pages : List Word} (h : k.pmm.Tracks pages)
    (c : AcpiCall) : ∃ o k', c.step k = .ok (o, k') ∧ k'.pmm.Tracks pages := by
  cases c with
  | page c => exact tracks_step h c
  | map addr len slot =>
    rcases uacpiKernelMap_cases h.inBounds addr len slot with
      ⟨i, page, bitmap', -, -, -, -, hne, hzero⟩ | ⟨-, serial', hrun⟩
    · by_cases hpage : page = 0
      · obtain ⟨serial', hrun⟩ := hzero hpage
        refine ⟨some 0, { k with pmm.bitmap := bitmap', serial := serial' }, ?_,
          ⟨h.total, h.bound, h.addrs⟩⟩
        rw [AcpiCall.step, hrun]
        rfl
      · refine ⟨some page, { k with
          pmm.bitmap := bitmap', mem := (memcpy k.mem page addr pageSize).2 }, ?_,
          ⟨h.total, h.bound, h.addrs⟩⟩
        rw [AcpiCall.step, hne hpage]
        rfl
    · refine ⟨some 0, { k with serial := serial' }, ?_, h⟩
      rw [AcpiCall.step, hrun]
      rfl
  | unmap addr len slot => exact tracks_step h (.free slot)
  | log level buf hbuf =>
    refine ⟨none, { k with serial := k.serial ++ (uacpiLogPrefix level ++ cText buf) }, ?_, h⟩
    rw [AcpiCall.step, uacpiKernelLog_text level hbuf]
    rfl

/-- A state of the allocator that some run reaches after `bitmap_init` on this map. -/
def Pmm.ReachedFrom (boot : Boot) (s : Pmm) : Prop :=
  ∃ k₀ k₁ calls outs k, bitmapInit boot k₀ = .ok k₁ ∧
    run AcpiCall.step calls k₁ = .ok (outs, k) ∧ k.pmm = s

/-- The address table is the one that `bitmap_init` built. -/
theorem Pmm.ReachedFrom.tracks {boot : Boot} {s : Pmm} (h : s.ReachedFrom boot) :
    s.Tracks (trackedPages boot.memmap) := by
  obtain ⟨k₀, k₁, calls, outs, k, hinit, hrun, rfl⟩ := h
  obtain ⟨s₁, tables, hfresh, -, hinit'⟩ := bitmapInit_ok boot k₀
  rw [hinit] at hinit'
  cases hinit'
  have hstart : Pmm.Tracks (Kernel.pmm { k₀ with pmm := s₁, tables := tables })
      (trackedPages boot.memmap) := hfresh.toTracks
  exact run_inv (I := fun k : Kernel => k.pmm.Tracks (trackedPages boot.memmap))
    (fun c _ hk => tracks_acpiStep hk c) hstart hrun

/-- A page whose bit is clear is not live, unless it is tracked twice. -/
theorem Pmm.Tracks.not_live {s : Pmm} {pages : List Word} (h : s.Tracks pages)
    (hnodup : pages.Nodup) {i : Nat} {page : Word} (hi : i < s.totalPages)
    (hpage : s.pageAddrs.get i = .ok page) (hclear : bitAt s.bitmap i = false) :
    ¬ s.Live page := by
  rintro ⟨j, hj, hpage', hset⟩
  rw [h.total] at hi hj
  rw [h.get_getElem hi] at hpage
  rw [h.get_getElem hj] at hpage'
  have hij : i = j :=
    hnodup.getElem_inj_iff.mp (Except.ok.inj (hpage.trans hpage'.symm))
  rw [← hij, hclear] at hset
  cases hset

/-! ## The frame -/

/-- **`uacpi_kernel_map` touches only its own page**, in every reachable state over a map
without a page at address 0. A call that fails changes nothing, and every page is live then.
A call that returns `p` sets one bit of one word, that of a page with a clear bit; it writes
to no byte outside the page; and it copies the bytes asked for when they lie outside the
page, even if the copy goes on into it. -/
theorem uacpiKernelMap_frame {boot : Boot} {k : Kernel} (hreach : k.pmm.ReachedFrom boot)
    (hzero : 0 ∉ trackedPages boot.memmap) (addr len slot : Word) :
    ∃ p k', uacpiKernelMap addr len slot k = .ok (p, k') ∧
      (p = 0 → k'.pmm = k.pmm ∧ k'.mem = k.mem ∧
        (∀ i, i < k.pmm.totalPages → testBit k.pmm.bitmap i = .ok true) ∧
        ∀ page, k.pmm.Tracked page → k.pmm.Live page) ∧
      (p ≠ 0 →
        k'.pmm.pageAddrs = k.pmm.pageAddrs ∧ k'.pmm.totalPages = k.pmm.totalPages ∧
        (∃ i, i < k.pmm.totalPages ∧ k.pmm.pageAddrs.get i = .ok p ∧
          testBit k.pmm.bitmap i = .ok false ∧
          ∀ (w : Fin (maxPages / 2)) b, (k'.pmm.bitmap.elem w).getLsbD b =
            ((k.pmm.bitmap.elem w).getLsbD b || decide (w.val = i / 8 ∧ b = i % 8))) ∧
        (WellFormed boot.memmap → ¬ k.pmm.Live p) ∧
        (∀ a, ¬ InRange p pageSize a → k'.mem a = k.mem a) ∧
        ((∀ i, i < min len.toNat pageSize → ¬ InRange p pageSize (offset addr i)) →
          ∀ i, i < min len.toNat pageSize → k'.mem (offset p i) = k.mem (offset addr i))) := by
  have htracks := hreach.tracks
  have hlt : ∀ i, i < k.pmm.totalPages → i < maxPages := fun i hi =>
    Nat.lt_of_lt_of_le hi htracks.inBounds
  rcases uacpiKernelMap_cases htracks.inBounds addr len slot with
    ⟨i, page, bitmap', hi, hclear, hpage, hset, hne, -⟩ | ⟨hfull, serial', hrun⟩
  · -- page 0 is not in the table
    have hnonzero : page ≠ 0 := by
      rintro rfl
      exact hzero (htracks.tracked_iff.mp ⟨i, hi, hpage⟩)
    have hsize : pageSize ≤ 2 ^ 64 := by decide
    refine ⟨page, _, hne hnonzero, fun h => absurd h hnonzero, fun _ => ⟨rfl, rfl,
      ⟨i, hi, hpage, ?_, getLsbD_of_setBit (hlt i hi) hset⟩, fun hmap => ?_, fun a ha => ?_,
      fun hdisj j hj => ?_⟩⟩
    · rw [testBit_of_lt _ (hlt i hi), hclear]
    · exact htracks.not_live (trackedPages_nodup hmap) hi hpage hclear
    · show (memcpy k.mem page addr pageSize).2 a = k.mem a
      exact memcpy_of_not_inRange hsize ha
    · show (memcpy k.mem page addr pageSize).2 (offset page j) = k.mem (offset addr j)
      exact memcpy_get_of_disjoint (hj.trans_le (Nat.min_le_right _ _)) hsize (hdisj j hj)
  · refine ⟨0, _, hrun, fun _ => ⟨rfl, rfl, fun i hi => ?_, fun page htracked => ?_⟩,
      fun h => absurd rfl h⟩
    · rw [testBit_of_lt _ (hlt i hi), hfull i hi]
    · obtain ⟨i, hi, hpage⟩ := htracked
      exact ⟨i, hi, hpage, hfull i hi⟩

/-- Sixteen bytes in front of the page that is taken: the copy runs into the page, but the
bytes asked for arrive. -/
theorem uacpiKernelMap_frame_overlap :
    ∃ k₁ k', bitmapInit sampleBoot (.loaded fun a => a.setWidth 8) = .ok k₁ ∧
      uacpiKernelMap 0xFF0 16 0xFFFF800000010058 k₁ = .ok (0x1000, k') ∧
      (∀ i, i < 16 → k'.mem (offset 0x1000 i) = (offset 0xFF0 i).setWidth 8) ∧
      k'.mem 0x2000 = 0 := by
  obtain ⟨k₁, hinit, hmem, href⟩ := sampleBoot_refines (.loaded fun a => a.setWidth 8)
  have hreach : k₁.pmm.ReachedFrom sampleBoot := ⟨_, k₁, [], [], k₁, hinit, rfl, rfl⟩
  obtain ⟨p, k', hrun, -, hframe⟩ := uacpiKernelMap_frame hreach (by decide) 0xFF0 16
    0xFFFF800000010058
  obtain ⟨s', serial', -, hmap⟩ := uacpiKernelMap_refines href 0xFF0 16 0xFFFF800000010058
  have hp : p = 0x1000 := (congrArg Prod.fst (Except.ok.inj (hrun.symm.trans hmap))).trans rfl
  subst hp
  obtain ⟨-, -, -, -, hother, hbytes⟩ := hframe (by decide)
  have hmem' : ∀ a, k₁.mem a = a.setWidth 8 := fun a => congrFun hmem a
  refine ⟨k₁, k', hinit, hrun, fun i hi => ?_, ?_⟩
  · rw [← hmem']
    exact hbytes (by decide) i hi
  · rw [hother _ (by decide), hmem']
    rfl

end KptrOS
