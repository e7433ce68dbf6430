import KptrOS.Mem.Reserved

/-!
# `bitmap_init` ends and stays inside its arrays

The two passes of `bitmap_init` are a finite list of iterations, which the memory map alone
determines; the counters of the inner loops may wrap, but both meet their bounds. The
variables are in order before each iteration, whatever the map contains, and so they are for
every later call.

- `InitIteration`: one iteration of an inner loop.
- `initIterations`: those of a map, in the order of execution.
- `bitmapInit_eq_foldlM`: `bitmap_init` executes exactly these.
- `InitIteration.step_inBounds`: an iteration never faults and keeps `total_pages` in range;
  none of the second pass decrements it.
-/

namespace KptrOS

open CSem

/-! ## Iterations -/

/-- One iteration of an inner loop of `bitmap_init`. -/
inductive InitIteration where
  | append (addr : Word)
  | withdraw (addr : Word)

/-- The body of the iteration. -/
def InitIteration.step (s : Pmm) : InitIteration → Exec Pmm
  | .append addr => appendPage addr s
  | .withdraw addr => withdrawPage addr s

/-- The iterations of the first pass for an entry. -/
def usableIterations (entry : MemmapEntry) : List InitIteration :=
  if entry.type = memmapUsable then
    (List.range' 0 (pageCount entry)).map fun k =>
      .append (offset (pageStart entry) (pageSize * k))
  else []

/-- The iterations of the second pass for an entry. -/
def reservedIterations (entry : MemmapEntry) : List InitIteration :=
  if entry.type ≠ memmapUsable then
    (List.range' 0 (withdrawCount entry)).map fun k => .withdraw (withdrawAddr entry k)
  else []

/-- All iterations of `bitmap_init`. -/
def initIterations (memmap : List MemmapEntry) : List InitIteration :=
  memmap.flatMap usableIterations ++ memmap.flatMap reservedIterations

theorem usablePass_eq_foldlM (s : Pmm) (entry : MemmapEntry) :
    usablePass s entry = (usableIterations entry).foldlM InitIteration.step s := by
  rw [usableIterations]
  by_cases htype : entry.type = memmapUsable
  · rw [usablePass_eq_forRange htype, if_pos htype]
    exact forRange_eq_foldlM (fun k => InitIteration.append (offset (pageStart entry)
      (pageSize * k))) (fun it s => it.step s) (pageCount entry) 0 s
  · rw [usablePass, if_neg htype, if_neg htype]
    rfl

theorem reservedPass_eq_foldlM (s : Pmm) (entry : MemmapEntry) :
    reservedPass s entry = (reservedIterations entry).foldlM InitIteration.step s := by
  rw [reservedIterations]
  by_cases htype : entry.type ≠ memmapUsable
  · rw [reservedPass_eq_forRange htype, if_pos htype]
    exact forRange_eq_foldlM (fun k => InitIteration.withdraw (withdrawAddr entry k))
      (fun it s => it.step s) (withdrawCount entry) 0 s
  · rw [reservedPass, if_neg htype, if_neg htype]
    rfl

/-- A fold whose steps are folds themselves is one fold. -/
theorem foldlM_flatMap_of_eq {α β : Type} {f : Pmm → α → Exec Pmm} {g : Pmm → β → Exec Pmm}
    {its : α → List β} (h : ∀ s a, f s a = (its a).foldlM g s) (l : List α) (s : Pmm) :
    l.foldlM f s = (l.flatMap its).foldlM g s := by
  induction l generalizing s with
  | nil => rfl
  | cons a l ih =>
    rw [List.foldlM_cons, List.flatMap_cons, List.foldlM_append, h]
    exact congrArg _ (funext ih)

/-- **The loops of `bitmap_init`** execute `initIterations`, one after the other, and then
`load_pages`. -/
theorem bitmapInit_eq_foldlM (boot : Boot) (k : Kernel) :
    bitmapInit boot k = (do
      let s ← (initIterations boot.memmap).foldlM InitIteration.step
        { k.pmm with totalPages := 0 }
      let tables ← loadPages boot.tableAddrs boot.hhdmOffset boot.kernelAddr k.tables
      return { k with pmm := s, tables := tables }) := by
  rw [bitmapInit, initIterations, List.foldlM_append, bind_assoc,
    foldlM_flatMap_of_eq usablePass_eq_foldlM]
  simp only [foldlM_flatMap_of_eq reservedPass_eq_foldlM]

/-! ## Bounds -/

/-- An iteration succeeds: no index that it uses is out of bounds. It keeps `total_pages`
or, in the first pass, adds one to it below `MAX_PAGES`. -/
theorem InitIteration.step_inBounds {s : Pmm} (hs : s.InBounds) (it : InitIteration) :
    ∃ s', it.step s = .ok s' ∧ s'.InBounds ∧
      (s' = s ∨ ∃ addr, it = .append addr ∧ s'.totalPages = s.totalPages + 1) := by
  cases it with
  | append addr =>
    by_cases hroom : s.totalPages < maxPages
    · obtain ⟨bitmap', hclear, -⟩ := clearBit_spec s.bitmap hroom
      refine ⟨⟨bitmap', s.pageAddrs.put s.totalPages addr, s.totalPages + 1⟩, ?_, hroom,
        .inr ⟨addr, rfl, rfl⟩⟩
      show appendPage addr s = _
      rw [appendPage, if_pos hroom, Arr.set_of_lt _ hroom, ok_bind, hclear]
      rfl
    · refine ⟨s, ?_, hs, .inl rfl⟩
      show appendPage addr s = _
      rw [appendPage, if_neg hroom]
      rfl
  | withdraw addr => exact ⟨s, withdrawPage_ok hs addr, hs, .inl rfl⟩

/-- So do all iterations of a list. -/
theorem iterations_inBounds (its : List InitIteration) {s : Pmm} (hs : s.InBounds) :
    ∃ s', its.foldlM InitIteration.step s = .ok s' ∧ s'.InBounds := by
  induction its generalizing s with
  | nil => exact ⟨s, rfl, hs⟩
  | cons it its ih =>
    obtain ⟨s₁, hstep, hs₁, -⟩ := it.step_inBounds hs
    obtain ⟨s₂, hrest, hs₂⟩ := ih hs₁
    refine ⟨s₂, ?_, hs₂⟩
    rw [List.foldlM_cons, hstep]
    exact hrest

/-- **`bitmap_init` ends and stays in bounds on every memory map.** It executes the finite
list `initIterations`; before each of them `total_pages` is at most `MAX_PAGES`, and the
iteration succeeds without decrementing it. The function then returns, and so does every
later call of `alloc_page` and `free_page`, with `total_pages` as it is. -/
theorem bitmapInit_inBounds (boot : Boot) (k : Kernel) :
    (bitmapInit boot k = do
      let s ← (initIterations boot.memmap).foldlM InitIteration.step
        { k.pmm with totalPages := 0 }
      let tables ← loadPages boot.tableAddrs boot.hhdmOffset boot.kernelAddr k.tables
      return { k with pmm := s, tables := tables }) ∧
    (∀ before it after, initIterations boot.memmap = before ++ it :: after →
      ∃ s s', before.foldlM InitIteration.step { k.pmm with totalPages := 0 } = .ok s ∧
        s.totalPages ≤ maxPages ∧ it.step s = .ok s' ∧ s.totalPages ≤ s'.totalPages ∧
        s'.totalPages ≤ maxPages) ∧
    ∃ k₁, bitmapInit boot k = .ok k₁ ∧ k₁.pmm.totalPages ≤ maxPages ∧
      ∀ calls, ∃ outs k₂, run PageCall.step calls k₁ = .ok (outs, k₂) ∧
        k₂.pmm.totalPages = k₁.pmm.totalPages := by
  refine ⟨bitmapInit_eq_foldlM boot k, fun before it after _ => ?_, ?_⟩
  · have hzero : Pmm.InBounds { k.pmm with totalPages := 0 } := Nat.zero_le maxPages
    obtain ⟨s, hbefore, hs⟩ := iterations_inBounds before hzero
    obtain ⟨s', hstep, hs', hchange⟩ := it.step_inBounds hs
    refine ⟨s, s', hbefore, hs, hstep, ?_, hs'⟩
    rcases hchange with rfl | ⟨addr, -, htotal⟩
    · exact Nat.le_refl _
    · rw [htotal]
      exact Nat.le_succ _
  · obtain ⟨s, tables, hfresh, -, hinit⟩ := bitmapInit_ok boot k
    refine ⟨_, hinit, hfresh.inBounds, fun calls => ?_⟩
    obtain ⟨outs, k₂, hrun, htracks⟩ := tracks_run (k := { k with pmm := s, tables := tables })
      hfresh.toTracks calls
    exact ⟨outs, k₂, hrun, htracks.total.trans hfresh.total.symm⟩

end KptrOS
