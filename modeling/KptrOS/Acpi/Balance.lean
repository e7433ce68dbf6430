import KptrOS.Acpi.Mapping

/-!
# Balance of mapping and unmapping

An unmap frees the address of a variable, so no page ever comes back: whatever is
mapped stays allocated.

- `Balanced`: every pointer that a run maps is unmapped once.
- `mapping_available_subset`: in a run of maps and unmaps what is free only shrinks.
- `mapping_balance_iff`: a balanced run gives every page back exactly when it maps
  nothing, or finds no page to map with.
-/

namespace KptrOS

open CSem

/-- A call of the mapping interface. -/
def AcpiCall.IsMapping : AcpiCall → Prop
  | .map _ _ _ => True
  | .unmap _ _ _ => True
  | _ => False

/-- Each non-NULL pointer that a map returns is unmapped once afterwards; `mapped`
are the pointers waiting for it. -/
def Balanced : (mapped : List Word) → List (AcpiCall × Option Word) → Prop
  | mapped, [] => mapped = []
  | mapped, (.map _ _ _, some p) :: events =>
    Balanced (if p = 0 then mapped else p :: mapped) events
  | mapped, (.unmap addr _ _, none) :: events =>
    addr ∈ mapped ∧ Balanced (mapped.erase addr) events
  | _, _ :: _ => False

/-- No call of the mapping interface frees a page of the pool. -/
theorem AcpiCall.op_ne_free {s : Pmm} {P : Pool Word} (h : s.Refines P) {c : AcpiCall}
    (hc : c.IsMapping) (hlocal : c.LocalUntracked s) {page : Word}
    (hpage : page ∈ P.items) : c.op ≠ .free page := by
  refine AcpiCall.op_ne_free_of_local h ?_ hlocal hpage
  rintro rfl
  exact hc

/-- A run of maps and unmaps frees nothing. -/
theorem mapping_available_subset {s : Pmm} {P : Pool Word} (h : s.Refines P)
    {calls : List AcpiCall} (hcalls : ∀ c ∈ calls, c.IsMapping ∧ c.LocalUntracked s) :
    (P.applyAll (calls.map AcpiCall.op)).available ⊆ P.available := by
  refine Pool.applyAll_available_subset fun page hpage hmem => ?_
  obtain ⟨c, hc, hop⟩ := List.mem_map.mp hmem
  obtain ⟨hmap, hlocal⟩ := hcalls c hc
  exact AcpiCall.op_ne_free h hmap hlocal hpage hop

/-- A balanced run that is not empty starts with a map. -/
theorem Balanced.head_map {c : AcpiCall} {o : Option Word}
    {events : List (AcpiCall × Option Word)} (h : Balanced [] ((c, o) :: events)) :
    c.op = .alloc := by
  cases c with
  | page c => exact h.elim
  | map addr len slot => rfl
  | unmap addr len slot =>
    cases o with
    | none => exact absurd h.1 List.not_mem_nil
    | some p => exact h.elim
  | log level buf hbuf => exact h.elim

/-- A page taken by the first call of a run of maps and unmaps is still taken at its
end. -/
theorem mapping_loses_page {s : Pmm} {P : Pool Word} (h : s.Refines P) {c : AcpiCall}
    {calls : List AcpiCall}
    (hcalls : ∀ d ∈ c :: calls, d.IsMapping ∧ d.LocalUntracked s)
    (hc : c.op = .alloc) {page : Word} (hpage : P.lowest = some page) :
    page ∉ (P.applyAll ((c :: calls).map AcpiCall.op)).available := by
  have hlive : page ∈ P.alloc.live := by
    rw [Pool.alloc_live_of_some hpage]
    exact Finset.mem_insert_self page P.live
  have hkept : page ∈ (P.alloc.applyAll (calls.map AcpiCall.op)).live := by
    refine Pool.mem_live_applyAll hlive fun hmem => ?_
    obtain ⟨d, hd, hop⟩ := List.mem_map.mp hmem
    obtain ⟨hmap, hlocal⟩ := hcalls d (List.mem_cons_of_mem c hd)
    exact AcpiCall.op_ne_free h hmap hlocal (Pool.lowest_mem hpage) hop
  intro havail
  rw [List.map_cons, hc, Pool.applyAll_cons] at havail
  exact (Pool.mem_available.mp havail).2 hkept

/-- **When mapping and unmapping balance.** From every reachable state, a run of maps
and unmaps in which each pointer returned is unmapped once ends with the free pages
it started with exactly when it is empty or started with no free page. -/
theorem mapping_balance_iff {k : Kernel} (hk : k.pmm.Reachable) {calls : List AcpiCall}
    (hcalls : ∀ c ∈ calls, c.IsMapping ∧ c.LocalUntracked k.pmm) :
    ∃ outs k', run AcpiCall.step calls k = .ok (outs, k') ∧
      (Balanced [] (calls.zip outs) →
        ((∀ page, k'.pmm.Free page ↔ k.pmm.Free page) ↔
          calls = [] ∨ ∀ page, ¬ k.pmm.Free page)) := by
  obtain ⟨P, href, -⟩ := hk.exists_pool
  obtain ⟨k', hrun, hend⟩ := acpi_run href calls
  refine ⟨_, k', hrun, fun hbal => ⟨fun hsame => ?_, ?_⟩⟩
  · cases calls with
    | nil => exact .inl rfl
    | cons c calls =>
      refine .inr fun page hfree => ?_
      -- the first call maps, and takes the lowest free page for good
      have havail := href.free_iff.mp hfree
      obtain ⟨lowest, hlowest⟩ : ∃ a, P.lowest = some a := by
        refine Option.ne_none_iff_exists'.mp fun hnone => ?_
        rw [Pool.lowest_eq_none_iff_available.mp hnone] at havail
        exact Finset.notMem_empty page havail
      have hbefore : k.pmm.Free lowest :=
        href.free_iff.mpr (Pool.lowest_mem_available hlowest)
      have hafter := hend.free_iff.mp ((hsame lowest).mpr hbefore)
      exact mapping_loses_page href hcalls hbal.head_map hlowest hafter
  · rintro (rfl | hnone) page
    · cases hrun
      exact Iff.rfl
    · refine iff_of_false (fun hfree => ?_) (hnone page)
      have havail := mapping_available_subset href hcalls (hend.free_iff.mp hfree)
      exact hnone page (href.free_iff.mpr havail)

/-- One mapping of the RSDP, unmapped again. The local variables are in the kernel's
stack. -/
def sampleMapping : List AcpiCall :=
  [.map 0x5000 36 0xFFFF800000010018, .unmap 0x1000 36 0xFFFF800000010038]

theorem sampleMapping_local {s : Pmm} (h : ∀ a, s.Tracked a → Aligned a) :
    ∀ c ∈ sampleMapping, c.IsMapping ∧ c.LocalUntracked s := by
  have hlocal : ∀ a : Word, ¬ Aligned a → ¬ s.Tracked a := fun a ha htracked => ha (h a htracked)
  intro c hc
  rw [sampleMapping, List.mem_pair] at hc
  rcases hc with rfl | rfl
  · exact ⟨trivial, hlocal _ (by decide)⟩
  · exact ⟨trivial, hlocal _ (by decide)⟩

theorem samplePool_pages : OfPages samplePool := by
  intro page hpage
  rcases List.mem_pair.mp hpage with rfl | rfl
  · decide
  · decide

/-- The run is balanced, and does not end with the free pages it started with. -/
theorem mapping_balance_iff_sample :
    ∃ k₁ k', bitmapInit sampleBoot (.loaded fun _ => 0) = .ok k₁ ∧
      run AcpiCall.step sampleMapping k₁ = .ok ([some 0x1000, none], k') ∧
      Balanced [] (sampleMapping.zip [some 0x1000, none]) ∧
      ¬ ∀ page, k'.pmm.Free page ↔ k₁.pmm.Free page := by
  obtain ⟨k₁, hinit, -, href⟩ := sampleBoot_refines (.loaded fun _ => 0)
  obtain ⟨outs, k', hrun, hiff⟩ := mapping_balance_iff
    (bitmapInit_reachable sampleBoot_wellFormed hinit)
    (sampleMapping_local fun a => href.aligned samplePool_pages)
  obtain ⟨k'', hrun', -⟩ := acpi_run href sampleMapping
  rw [hrun'] at hrun
  cases hrun
  have hbalanced : Balanced [] (sampleMapping.zip [some 0x1000, none]) :=
    ⟨List.mem_cons_self, rfl⟩
  refine ⟨k₁, k', hinit, hrun', hbalanced, fun hsame => ?_⟩
  rcases (hiff hbalanced).mp hsame with hnil | hnone
  · exact absurd hnil (List.cons_ne_nil _ _)
  · exact hnone 0x1000 (href.free_iff.mpr (by decide))

/-- The page that the RSDP was copied to is lost. -/
theorem sampleMapping_loses_page :
    ∃ k₁ k', bitmapInit sampleBoot (.loaded fun _ => 0) = .ok k₁ ∧
      run AcpiCall.step sampleMapping k₁ = .ok ([some 0x1000, none], k') ∧
      Balanced [] (sampleMapping.zip [some 0x1000, none]) ∧
      (∀ c ∈ sampleMapping, c.IsMapping ∧ c.LocalUntracked k₁.pmm) ∧
      k₁.pmm.Free 0x1000 ∧ ¬ k'.pmm.Free 0x1000 := by
  obtain ⟨k₁, hinit, -, href⟩ := sampleBoot_refines (.loaded fun _ => 0)
  obtain ⟨k', hrun, hend⟩ := acpi_run href sampleMapping
  refine ⟨k₁, k', hinit, hrun, ?_, sampleMapping_local fun a => href.aligned samplePool_pages,
    href.free_iff.mpr (by decide), fun hfree => ?_⟩
  · exact ⟨List.mem_cons_self, rfl⟩
  · exact absurd (hend.free_iff.mp hfree) (by decide)

end KptrOS
