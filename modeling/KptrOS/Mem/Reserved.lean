import KptrOS.Mem.Refinement

/-!
# Reserved memory

The second pass of `bitmap_init` is written to withdraw the pages that meet an
entry which is not usable. It never withdraws one (`reservedPasses_ok`), so what
is handed out is what the first pass tracked. Here nothing is assumed of the map:
usable entries may overlap each other and wrap, and a page may be tracked twice.

- `tracks_run`: every run succeeds and keeps the table of tracked pages.
- `exists_handsOut`: every tracked page is handed out in some run.
- `handsOut_avoidsReserved_iff`: reserved memory is never handed out exactly when
  the second pass has nothing to withdraw.
-/

namespace KptrOS

open CSem

/-- The page shares no byte with an entry that is not usable. -/
def AvoidsReserved (memmap : List MemmapEntry) (page : Word) : Prop :=
  ∀ entry ∈ memmap, entry.type ≠ memmapUsable →
    ∀ i, i < pageSize → ¬ entry.Covers (page.toNat + i)

/-! ## Runs on any map -/

/-- A call succeeds and keeps the table. -/
theorem tracks_step {k : Kernel} {pages : List Word} (h : k.pmm.Tracks pages)
    (c : PageCall) : ∃ o k', c.step k = .ok (o, k') ∧ k'.pmm.Tracks pages := by
  cases c with
  | alloc addr =>
    rcases allocPage_cases h.inBounds with
      ⟨_, page, bitmap', -, -, -, -, -, hrun⟩ | ⟨-, hrun⟩
    · refine ⟨some page, { k with pmm.bitmap := bitmap' }, ?_, ⟨h.total, h.bound, h.addrs⟩⟩
      rw [PageCall.step, hrun]
      rfl
    · refine ⟨some addr, k, ?_, h⟩
      rw [PageCall.step, hrun]
      rfl
  | free addr =>
    rcases freePage_cases h.inBounds addr with ⟨_, bitmap', -, -, -, -, hrun⟩ | ⟨-, hrun⟩
    · refine ⟨none, { k with
        mem := (memset k.mem addr 0 pageSize).2, pmm.bitmap := bitmap' }, ?_,
        ⟨h.total, h.bound, h.addrs⟩⟩
      rw [PageCall.step, hrun]
      rfl
    · refine ⟨none, k, ?_, h⟩
      rw [PageCall.step, hrun]
      rfl
  | store addr byte => exact ⟨none, _, rfl, h⟩

/-- A run succeeds and keeps the table. -/
theorem tracks_run {k : Kernel} {pages : List Word} (h : k.pmm.Tracks pages)
    (calls : List PageCall) :
    ∃ outs k', run PageCall.step calls k = .ok (outs, k') ∧ k'.pmm.Tracks pages :=
  run_ok_inv (fun c _ hk => tracks_step hk c) calls h

/-- The table is the same at the end of a run. -/
theorem Pmm.Tracks.of_run {k k' : Kernel} {pages : List Word} (h : k.pmm.Tracks pages)
    {calls : List PageCall} {outs : List (Option Word)}
    (hrun : run PageCall.step calls k = .ok (outs, k')) : k'.pmm.Tracks pages :=
  run_inv (I := fun k : Kernel => k.pmm.Tracks pages)
    (fun c _ hk => tracks_step hk c) h hrun

/-- Only tracked pages are handed out. -/
theorem HandsOut.mem_pages {k : Kernel} {pages : List Word} (h : k.pmm.Tracks pages)
    {page : Word} (hout : HandsOut k page) : page ∈ pages := by
  rcases allocPage_cases h.inBounds with
    ⟨i, p, _, hi, -, -, hp, -, hrun⟩ | ⟨-, hrun⟩
  · obtain ⟨k', hk'⟩ := hout 0
    rw [hrun] at hk'
    cases hk'
    have hi' : i < pages.length := h.total ▸ hi
    rw [h.get_getElem hi'] at hp
    cases hp
    exact List.getElem_mem hi'
  · exact absurd hout (not_handsOut_of_full hrun)

/-- With the first `n` bits set and the others clear, page `n` is taken. -/
theorem allocPage_of_bits {k : Kernel} {pages : List Word} (h : k.pmm.Tracks pages)
    {n : Nat} (hn : n < pages.length)
    (hbits : ∀ j, j < pages.length → bitAt k.pmm.bitmap j = decide (j < n)) :
    ∃ bitmap', (∀ j, bitAt bitmap' j = (bitAt k.pmm.bitmap j || decide (j = n))) ∧
      ∀ addr, allocPage addr k = .ok (pages[n], { k with pmm.bitmap := bitmap' }) := by
  rcases allocPage_cases h.inBounds with
    ⟨i, page, bitmap', hi, hclear, hmin, hpage, hset, halloc⟩ | ⟨hfull, -⟩
  · have hi' : i < pages.length := h.total ▸ hi
    rw [hbits i hi', decide_eq_false_iff_not] at hclear
    -- the first clear bit is not below `n`, and `n` is clear
    have hle : ¬ n < i := by
      intro hlt
      have hset := hmin n hlt
      rw [hbits n hn, decide_eq_true_eq] at hset
      exact Nat.lt_irrefl n hset
    obtain rfl : i = n := by omega
    rw [h.get_getElem hi'] at hpage
    cases hpage
    exact ⟨bitmap', bitAt_of_setBit (Nat.lt_of_lt_of_le hi h.inBounds) hset, halloc⟩
  · have hset := hfull n (h.total ▸ hn)
    rw [hbits n hn, decide_eq_true_eq] at hset
    exact absurd hset (Nat.lt_irrefl n)

/-- After `n` allocations from a fresh allocator the first `n` pages are taken. -/
theorem allocs_fresh {k : Kernel} {pages : List Word} (h : k.pmm.Fresh pages) {n : Nat}
    (hn : n ≤ pages.length) :
    ∃ outs k', run PageCall.step (List.replicate n (.alloc 0)) k = .ok (outs, k') ∧
      k'.pmm.Tracks pages ∧
      ∀ j, j < pages.length → bitAt k'.pmm.bitmap j = decide (j < n) := by
  induction n with
  | zero =>
    refine ⟨[], k, rfl, h.toTracks, fun j hj => ?_⟩
    rw [h.clear j hj]
    exact (decide_eq_false (Nat.not_lt_zero j)).symm
  | succ n ih =>
    obtain ⟨outs, k₁, hrun, htracks, hbits⟩ := ih (Nat.le_of_succ_le hn)
    obtain ⟨bitmap', hbits', halloc⟩ := allocPage_of_bits htracks hn hbits
    refine ⟨outs ++ [some pages[n]], { k₁ with pmm.bitmap := bitmap' }, ?_,
      ⟨htracks.total, htracks.bound, htracks.addrs⟩, fun j hj => ?_⟩
    · rw [List.replicate_succ']
      refine run_append_ok.mpr ⟨outs, k₁, [some pages[n]], hrun, ?_, rfl⟩
      refine run_cons_ok.mpr ⟨some pages[n], _, [], ?_, run_nil _, rfl⟩
      rw [PageCall.step, halloc]
      rfl
    · show bitAt bitmap' j = decide (j < n + 1)
      rw [hbits', hbits j hj, ← Bool.decide_or]
      exact decide_eq_decide.mpr (by omega)

/-- Every page that a fresh allocator tracks is handed out in some run. -/
theorem exists_handsOut {k : Kernel} {pages : List Word} (h : k.pmm.Fresh pages)
    {page : Word} (hpage : page ∈ pages) :
    ∃ calls outs k', run PageCall.step calls k = .ok (outs, k') ∧ HandsOut k' page := by
  obtain ⟨n, hn, rfl⟩ := List.getElem_of_mem hpage
  obtain ⟨outs, k', hrun, htracks, hbits⟩ := allocs_fresh h hn.le
  obtain ⟨bitmap', -, halloc⟩ := allocPage_of_bits htracks hn hbits
  exact ⟨_, outs, k', hrun, fun addr => ⟨_, halloc addr⟩⟩

/-! ## What is handed out after `bitmap_init` -/

/-- Every run after `bitmap_init` succeeds, and the pages handed out in these runs
are the tracked ones, no more and no fewer. -/
theorem handsOut_tracked (boot : Boot) (k₀ : Kernel) :
    ∃ k₁, bitmapInit boot k₀ = .ok k₁ ∧
      (∀ calls, ∃ outs k, run PageCall.step calls k₁ = .ok (outs, k)) ∧
      ∀ page, page ∈ trackedPages boot.memmap ↔ ∃ calls outs k,
        run PageCall.step calls k₁ = .ok (outs, k) ∧ HandsOut k page := by
  obtain ⟨s, tables, hfresh, -, hinit⟩ := bitmapInit_ok boot k₀
  let k₁ : Kernel := { k₀ with pmm := s, tables := tables }
  have hstart : k₁.pmm.Tracks (trackedPages boot.memmap) := hfresh.toTracks
  refine ⟨k₁, hinit, fun calls => ?_, fun page => ⟨fun hpage => ?_, ?_⟩⟩
  · obtain ⟨outs, k, hrun, -⟩ := tracks_run hstart calls
    exact ⟨outs, k, hrun⟩
  · exact exists_handsOut hfresh hpage
  · rintro ⟨calls, outs, k, hrun, hout⟩
    exact hout.mem_pages (hstart.of_run hrun)

/-- **When reserved memory is never handed out.** No page that is handed out in any
run after `bitmap_init` meets a reserved entry exactly when none of the pages that
the first pass tracks does. -/
theorem handsOut_avoidsReserved_iff (boot : Boot) (k₀ : Kernel) :
    ∃ k₁, bitmapInit boot k₀ = .ok k₁ ∧
      (∀ calls, ∃ outs k, run PageCall.step calls k₁ = .ok (outs, k)) ∧
      ((∀ calls outs k page, run PageCall.step calls k₁ = .ok (outs, k) →
          HandsOut k page → AvoidsReserved boot.memmap page) ↔
        ∀ page ∈ trackedPages boot.memmap, AvoidsReserved boot.memmap page) := by
  obtain ⟨k₁, hinit, htotal, hiff⟩ := handsOut_tracked boot k₀
  refine ⟨k₁, hinit, htotal, fun h page hpage => ?_, fun h calls outs k page hrun hout => ?_⟩
  · obtain ⟨calls, outs, k, hrun, hout⟩ := (hiff page).mp hpage
    exact h calls outs k page hrun hout
  · exact h page ((hiff page).mpr ⟨calls, outs, k, hrun, hout⟩)

/-- A usable region of two pages, the second of which firmware data covers in
part. -/
def overlapBoot : Boot :=
  { sampleBoot with memmap := [⟨0x1000, 0x2000, memmapUsable⟩, ⟨0x2800, 0x100, 1⟩] }

/-- The page with the firmware data is handed out by the second `alloc_page`. -/
theorem reserved_handedOut :
    ∃ k₁, bitmapInit overlapBoot (.loaded fun _ => 0) = .ok k₁ ∧
      (∃ calls outs k, run PageCall.step calls k₁ = .ok (outs, k) ∧ HandsOut k 0x2000) ∧
      ¬ AvoidsReserved overlapBoot.memmap 0x2000 := by
  obtain ⟨k₁, hinit, -, hiff⟩ := handsOut_tracked overlapBoot (.loaded fun _ => 0)
  refine ⟨k₁, hinit, (hiff 0x2000).mp (by decide), fun h => ?_⟩
  exact h ⟨0x2800, 0x100, 1⟩ (by decide) (by decide) 0x800 (by decide) (by
    rw [MemmapEntry.Covers]
    decide)

/-- Maps whose usable entries share no byte with the others are safe. -/
theorem trackedPages_avoidsReserved {memmap : List MemmapEntry}
    (hbound : ∀ e ∈ memmap, e.type = memmapUsable →
      e.base.toNat + e.length.toNat ≤ 2 ^ 64 - 4096)
    (hdisj : ∀ e ∈ memmap, ∀ f ∈ memmap, e.type = memmapUsable → f.type ≠ memmapUsable →
      ∀ a, e.Covers a → ¬ f.Covers a) :
    ∀ page ∈ trackedPages memmap, AvoidsReserved memmap page := by
  intro page hpage f hf hftype i hi
  obtain ⟨e, he, hmem⟩ := mem_trackedPages hpage
  have hetype := (mem_entryPages.mp hmem).1
  exact hdisj e he f hf hetype hftype _
    (entryPages_covers (hbound e he hetype) hmem hi)

end KptrOS
