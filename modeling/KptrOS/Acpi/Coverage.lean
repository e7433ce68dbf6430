import KptrOS.Acpi.Mapping

/-!
# What a mapping covers

`uacpi_kernel_map` copies one page, whatever length was asked for. The first page of
the range is covered and belongs to the caller alone; what lies beyond it is whatever
follows the page in memory.

- `MapCovers`: the caller can use the whole range it asked for.
- `TailCovered`: nothing is wrong beyond the first page.
- `mapCovers_iff`: the first holds exactly when the second does.
-/

namespace KptrOS

open CSem

/-! ## The property -/

/-- The call gives up the mapping at `p`: it unmaps it, or frees the page. -/
def AcpiCall.Releases (p : Word) : AcpiCall → Prop
  | .unmap addr _ slot => addr = p ∨ slot = p
  | .page (.free addr) => addr = p
  | _ => False

/-- If `uacpi_kernel_map(addr, len)` returns a pointer `p`, the `len` bytes behind it
are those at `addr`, and none of them is in a page that was live before the call or
that a later `uacpi_kernel_map` returns before `p` is released. -/
def MapCovers (k : Kernel) (addr len slot : Word) : Prop :=
  ∀ p k', uacpiKernelMap addr len slot k = .ok (p, k') → p ≠ 0 →
    ∀ i, i < len.toNat →
      k'.mem (offset p i) = k.mem (offset addr i) ∧
      (∀ page, k.pmm.Live page → ¬ InRange page pageSize (offset p i)) ∧
      ∀ later outs k'' addr' len' slot' page k₃,
        (∀ c ∈ later, ¬ c.Releases p ∧ c.LocalUntracked k.pmm) →
        run AcpiCall.step later k' = .ok (outs, k'') →
        uacpiKernelMap addr' len' slot' k'' = .ok (page, k₃) → page ≠ 0 →
        ¬ InRange page pageSize (offset p i)

/-- Behind the first page of the range, the bytes that follow the lowest free page
are those of the range already, and belong to no tracked page, except perhaps to
page 0 when it is free. -/
def TailCovered (k : Kernel) (addr len : Word) : Prop :=
  ∀ p, k.pmm.LowestFree p → p ≠ 0 → ∀ i, pageSize ≤ i → i < len.toNat →
    k.mem (offset p i) = k.mem (offset addr i) ∧
    ∀ page, k.pmm.Tracked page → InRange page pageSize (offset p i) →
      page = 0 ∧ k.pmm.Free page

/-- A range of at most one page has no tail. -/
theorem tailCovered_of_le {k : Kernel} {addr len : Word} (hlen : len.toNat ≤ pageSize) :
    TailCovered k addr len := by
  intro p _ _ i hi hlt
  omega

/-! ## The mapping and the pages -/

/-- A call that does not release `p` does not free it. -/
theorem AcpiCall.op_ne_free_of_not_releases {c : AcpiCall} {p : Word}
    (h : ¬ c.Releases p) : c.op ≠ .free p := by
  intro hop
  cases c with
  | page c =>
    have hc : c = .free p := PageCall.op_eq_free.mp hop
    subst hc
    exact h rfl
  | map addr len slot => cases hop
  | unmap addr len slot =>
    cases hop
    exact h (.inr rfl)
  | log level buf hbuf => cases hop

/-- A map returns the lowest free page. -/
theorem exists_map_of_lowest {k : Kernel} {P : Pool Word} (h : k.pmm.Refines P) {p : Word}
    (hlowest : P.lowest = some p) (addr len slot : Word) :
    ∃ k', uacpiKernelMap addr len slot k = .ok (p, k') ∧ k'.pmm.Refines P.alloc := by
  obtain ⟨s', serial', href, hmap⟩ := uacpiKernelMap_refines h addr len slot
  rw [hlowest] at hmap
  exact ⟨_, hmap, href⟩

/-- What a successful map returns, and the state after it. -/
theorem uacpiKernelMap_eq {k k' : Kernel} {P : Pool Word} (h : k.pmm.Refines P)
    {addr len slot p : Word} (hmap : uacpiKernelMap addr len slot k = .ok (p, k'))
    (hp : p ≠ 0) :
    P.lowest = some p ∧ k'.pmm.Refines P.alloc ∧
      k'.mem = (memcpy k.mem p addr pageSize).2 := by
  obtain ⟨s', serial', href, hspec⟩ := uacpiKernelMap_refines h addr len slot
  rw [hspec] at hmap
  cases hmap
  cases hlowest : P.lowest with
  | none =>
    rw [hlowest] at hp
    exact absurd rfl hp
  | some q =>
    rw [hlowest, Option.getD_some] at hp
    refine ⟨rfl, href, ?_⟩
    show (AcpiCall.map addr len slot).effect P k.mem = _
    rw [AcpiCall.effect, hlowest, Option.getD_some, if_neg hp]

/-- A byte of the first page. -/
theorem inRange_first {p : Word} {i : Nat} (hi : i < pageSize) :
    InRange p pageSize (offset p i) :=
  (inRange_offset (Nat.lt_trans hi (by decide))).mpr hi

/-- A page that shares a byte of the first page of the mapping is that page. -/
theorem page_eq_of_first {p page : Word} (hp : Aligned p) (hpage : Aligned page) {i : Nat}
    (hi : i < pageSize) (hin : InRange page pageSize (offset p i)) : page = p := by
  by_contra hne
  exact pages_disjoint hpage hp hne hin (inRange_first hi)

/-- Repeated mapping returns every page that is free. -/
theorem exists_map_returns {k : Kernel} {P : Pool Word} (h : k.pmm.Refines P)
    {page : Word} (hpage : page ∈ P.available) :
    ∃ n outs k' k'', run AcpiCall.step (List.replicate n (.map 0 0 1)) k = .ok (outs, k') ∧
      uacpiKernelMap 0 0 1 k' = .ok (page, k'') := by
  obtain ⟨n, hn⟩ := P.exists_lowest_alloc hpage
  obtain ⟨k', hrun, href⟩ := acpi_run h (List.replicate n (.map 0 0 1))
  rw [List.map_replicate] at href
  obtain ⟨k'', hmap, -⟩ := exists_map_of_lowest href hn 0 0 1
  exact ⟨n, _, k', k'', hrun, hmap⟩

/-- What a map returns after a run is the lowest free page of the run's pool. -/
theorem lowest_of_map_after {k k' k'' : Kernel} {P : Pool Word} (h : k.pmm.Refines P)
    {later : List AcpiCall} {outs : List (Option Word)} {addr len slot page : Word}
    (hrun : run AcpiCall.step later k = .ok (outs, k'))
    (hmap : uacpiKernelMap addr len slot k' = .ok (page, k'')) (hpage : page ≠ 0) :
    (P.applyAll (later.map AcpiCall.op)).lowest = some page := by
  obtain ⟨-, href⟩ := acpiSimulation.run_eq h hrun
  rw [trace_acpiStep_snd] at href
  exact (uacpiKernelMap_eq href hmap hpage).1

/-- It belongs to the pool from the start. -/
theorem mem_of_map_after {k k' k'' : Kernel} {P : Pool Word} (h : k.pmm.Refines P)
    {later : List AcpiCall} {outs : List (Option Word)} {addr len slot page : Word}
    (hrun : run AcpiCall.step later k = .ok (outs, k'))
    (hmap : uacpiKernelMap addr len slot k' = .ok (page, k'')) (hpage : page ≠ 0) :
    page ∈ P.items := by
  have hmem := Pool.lowest_mem (lowest_of_map_after h hrun hmap hpage)
  rwa [Pool.applyAll_items] at hmem

/-! ## When the whole range is covered -/

/-- Beyond its first page a mapping is what memory held before. -/
theorem tail_mem {k : Kernel} {p addr : Word} {i : Nat} (hi : pageSize ≤ i)
    (hlt : i < 2 ^ 64) :
    (memcpy k.mem p addr pageSize).2 (offset p i) = k.mem (offset p i) := by
  refine memcpy_of_not_inRange (by decide) fun hin => ?_
  exact absurd ((inRange_offset hlt).mp hin) (Nat.not_lt.mpr hi)

theorem tailCovered_of_mapCovers {k : Kernel} {P : Pool Word} (h : k.pmm.Refines P)
    (hP : OfPages P) {addr len slot : Word} (hcov : MapCovers k addr len slot) :
    TailCovered k addr len := by
  intro p hlow hne i hi hlt
  have hlowest := h.lowestFree_iff.mp hlow
  have hi64 : i < 2 ^ 64 := Nat.lt_trans hlt len.isLt
  obtain ⟨k₁, hmap, href⟩ := exists_map_of_lowest h hlowest addr len slot
  obtain ⟨hbyte, hlive, hlater⟩ := hcov p k₁ hmap hne i hlt
  obtain ⟨-, -, hmem⟩ := uacpiKernelMap_eq h hmap hne
  refine ⟨?_, fun page htracked hin => ?_⟩
  · rw [hmem, tail_mem hi hi64] at hbyte
    exact hbyte
  · have hfree : page ∈ P.available := by
      refine Pool.mem_available.mpr ⟨h.tracked_iff.mp htracked, fun hdead => ?_⟩
      exact hlive page (h.live_iff.mpr hdead) hin
    refine ⟨?_, h.free_iff.mpr hfree⟩
    by_contra hpage
    -- otherwise a later map returns the page
    have hpp : page ≠ p := by
      rintro rfl
      exact absurd ((inRange_offset hi64).mp hin) (Nat.not_lt.mpr hi)
    have hfree' : page ∈ P.alloc.available := by
      rw [Pool.alloc_available_of_some hlowest]
      exact Finset.mem_erase.mpr ⟨hpp, hfree⟩
    obtain ⟨n, outs, k', k'', hrun, hreturn⟩ := exists_map_returns href hfree'
    refine hlater _ outs k' 0 0 1 page k'' (fun c hc => ?_) hrun hreturn hpage hin
    obtain rfl := List.eq_of_mem_replicate hc
    refine ⟨fun hrel => hrel, fun hlocal => ?_⟩
    exact absurd (h.aligned hP hlocal) (by decide)

theorem mapCovers_of_tailCovered {k : Kernel} {P : Pool Word} (h : k.pmm.Refines P)
    (hP : OfPages P) {addr len slot : Word}
    (hrange : ∀ i, i < len.toNat → ∀ page, k.pmm.Tracked page →
      ¬ InRange page pageSize (offset addr i))
    (htail : TailCovered k addr len) : MapCovers k addr len slot := by
  intro p k' hmap hne i hlt
  obtain ⟨hlowest, href, hmem⟩ := uacpiKernelMap_eq h hmap hne
  have hi64 : i < 2 ^ 64 := Nat.lt_trans hlt len.isLt
  have hitem := Pool.lowest_mem hlowest
  have hpAligned := hP p hitem
  by_cases hi : i < pageSize
  · refine ⟨?_, fun page hlive hin => ?_, ?_⟩
    · rw [hmem]
      refine memcpy_get_of_disjoint hi (by decide) ?_
      exact hrange i hlt p (h.tracked_iff.mpr hitem)
    · have hlive' := h.live_iff.mp hlive
      have heq := page_eq_of_first hpAligned (hP page (P.live_sub page hlive')) hi hin
      exact Pool.lowest_not_live hlowest (heq ▸ hlive')
    · -- `p` stays live, so no later map returns it
      intro later outs k'' addr' len' slot' page k₃ hkeep hrun hmap' hne' hin
      have hpage : page ∈ P.items := mem_of_map_after href hrun hmap' hne'
      have heq := page_eq_of_first hpAligned (hP page hpage) hi hin
      have hops : Pool.Op.free p ∉ later.map AcpiCall.op := by
        intro hmem'
        obtain ⟨c, hc, hop⟩ := List.mem_map.mp hmem'
        exact AcpiCall.op_ne_free_of_not_releases (hkeep c hc).1 hop
      exact Pool.lowest_applyAll_ne hlowest hops
        (lowest_of_map_after href hrun hmap' hne') heq
  · have hge := Nat.le_of_not_lt hi
    obtain ⟨hbyte, hpages⟩ := htail p (h.lowestFree_iff.mpr hlowest) hne i hge hlt
    refine ⟨?_, fun page hlive hin => ?_, ?_⟩
    · rw [hmem, tail_mem hge hi64, hbyte]
    · have hlive' := h.live_iff.mp hlive
      obtain ⟨-, hfree⟩ := hpages page (h.tracked_iff.mpr (P.live_sub page hlive')) hin
      exact (Pool.mem_available.mp (h.free_iff.mp hfree)).2 hlive'
    · -- the only page that `htail` leaves here is page 0, which a map never returns
      intro later outs k'' addr' len' slot' page k₃ hkeep hrun hmap' hne' hin
      have hpage : page ∈ P.items := mem_of_map_after href hrun hmap' hne'
      exact hne' (hpages page (h.tracked_iff.mpr hpage) hin).1

/-- **When a mapping covers the range that was asked for.** In every reachable state of
the allocator, over every memory and for every range outside the tracked pages:
exactly when nothing is wrong beyond the first page. -/
theorem mapCovers_iff {k : Kernel} (hk : k.pmm.Reachable) {addr len slot : Word}
    (hrange : ∀ i, i < len.toNat → ∀ page, k.pmm.Tracked page →
      ¬ InRange page pageSize (offset addr i)) :
    MapCovers k addr len slot ↔ TailCovered k addr len := by
  obtain ⟨P, href, hP⟩ := hk.exists_pool
  exact ⟨tailCovered_of_mapCovers href hP, mapCovers_of_tailCovered href hP hrange⟩

/-- Physical memory behind the usable region of the sample map. -/
theorem sampleRange {k : Kernel} (href : k.pmm.Refines samplePool) {len : Nat}
    (hlen : len ≤ 0x2000) :
    ∀ i, i < len → ∀ page, k.pmm.Tracked page →
      ¬ InRange page pageSize (offset 0x5000 i) := by
  intro i hi page htracked hin
  have hpage : page = 0x1000 ∨ page = 0x2000 := by
    simpa [samplePool, Pool.fresh] using href.tracked_iff.mp htracked
  rw [InRange, offset, pageSize] at hin
  rcases hpage with rfl | rfl
  · bv_omega
  · bv_omega

/-- The header of a table is covered. -/
theorem mapCovers_iff_sample :
    ∃ k₁, bitmapInit sampleBoot (.loaded fun _ => 0) = .ok k₁ ∧ MapCovers k₁ 0x5000 36 1 := by
  obtain ⟨k₁, hinit, -, href⟩ := sampleBoot_refines (.loaded fun _ => 0)
  exact ⟨k₁, hinit, (mapCovers_iff (bitmapInit_reachable sampleBoot_wellFormed hinit)
    (sampleRange href (by decide))).mpr (tailCovered_of_le (by decide))⟩

/-- A table of one page and a byte: the last byte of its mapping is in the page that
the next map returns. -/
theorem map_beyond_page :
    ∃ k₁ k₂ k₃, bitmapInit sampleBoot (.loaded fun _ => 0) = .ok k₁ ∧
      (∀ i, i < (0x1001 : Word).toNat → ∀ page, k₁.pmm.Tracked page →
        ¬ InRange page pageSize (offset 0x5000 i)) ∧
      uacpiKernelMap 0x5000 0x1001 1 k₁ = .ok (0x1000, k₂) ∧
      uacpiKernelMap 0x5000 0x1001 1 k₂ = .ok (0x2000, k₃) ∧
      InRange 0x2000 pageSize (offset 0x1000 0x1000) ∧
      ¬ MapCovers k₁ 0x5000 0x1001 1 := by
  obtain ⟨k₁, hinit, -, href⟩ := sampleBoot_refines (.loaded fun _ => 0)
  have hlowest : samplePool.lowest = some 0x1000 := by decide
  have hlowest' : samplePool.alloc.lowest = some 0x2000 := by decide
  obtain ⟨k₂, hmap, href₂⟩ := exists_map_of_lowest href hlowest 0x5000 0x1001 1
  obtain ⟨k₃, hmap', -⟩ := exists_map_of_lowest href₂ hlowest' 0x5000 0x1001 1
  refine ⟨k₁, k₂, k₃, hinit, sampleRange href (by decide), hmap, hmap', by decide,
    fun hcov => ?_⟩
  obtain ⟨-, -, hlater⟩ := hcov 0x1000 k₂ hmap (by decide) 0x1000 (by decide)
  exact hlater [] [] k₂ 0x5000 0x1001 1 0x2000 k₃ (fun c hc => absurd hc List.not_mem_nil)
    (run_nil k₂) hmap' (by decide) (by decide)

end KptrOS
