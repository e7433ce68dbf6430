import Mathlib.Data.List.Forall2
import KptrOS.Acpi.MapFrame

/-!
# The order of frees

What a list of `free_page` calls leaves depends on which addresses it frees, not on their
order nor on how often each is freed. Nothing is assumed of the memory map: a page may be
tracked twice, in which case only its first bit is cleared.

- `freePages`: `free_page` on each address of a list.
- `Freed`: the bitmap and the memory after it, byte by byte and bit by bit;
  `Freed.unique`: there is only one such state.
- `Pmm.freeIndices`: the indices of the clear bits, in ascending order; each `alloc_page`
  removes the first of them (`freeIndices_of_setBit`).
- `freePages_order`: both together, in every reachable state.
-/

namespace KptrOS

open CSem

/-- `free_page` on each address, in the order of the list. -/
def freePages (addrs : List Word) (k : Kernel) : Exec Kernel :=
  addrs.foldlM (fun k addr => freePage addr k) k

/-! ## What is freed -/

/-- Index `i` is the first that tracks the address. -/
def Pmm.TracksAt (s : Pmm) (addr : Word) (i : Nat) : Prop :=
  i < s.totalPages ∧ s.pageAddrs.get i = .ok addr ∧ ∀ j, j < i → s.pageAddrs.get j ≠ .ok addr

theorem Pmm.TracksAt.unique {s : Pmm} {addr : Word} {i j : Nat} (hi : s.TracksAt addr i)
    (hj : s.TracksAt addr j) : i = j := by
  rcases Nat.lt_trichotomy i j with h | h | h
  · exact absurd hi.2.1 (hj.2.2 i h)
  · exact h
  · exact absurd hj.2.1 (hi.2.2 j h)

/-- The byte at `a` lies in the page of one of the addresses. -/
def Pmm.Zeroes (s : Pmm) (addrs : List Word) (a : Word) : Prop :=
  ∃ addr ∈ addrs, s.Tracked addr ∧ InRange addr pageSize a

/-- Bit `b` of word `w` is that of one of the addresses. -/
def Pmm.Clears (s : Pmm) (addrs : List Word) (w b : Nat) : Prop :=
  ∃ addr ∈ addrs, ∃ i, s.TracksAt addr i ∧ w = i / 8 ∧ b = i % 8

/-- `k'` is `k` with the pages of the addresses zeroed and their bits cleared. -/
structure Freed (addrs : List Word) (k k' : Kernel) : Prop where
  frame : ∃ mem bitmap, k' = { k with mem := mem, pmm.bitmap := bitmap }
  zeroed : ∀ a, k.pmm.Zeroes addrs a → k'.mem a = 0
  kept : ∀ a, ¬ k.pmm.Zeroes addrs a → k'.mem a = k.mem a
  bits : ∀ (w : Fin (maxPages / 2)) b, (k'.pmm.bitmap.elem w).getLsbD b = true ↔
    (k.pmm.bitmap.elem w).getLsbD b = true ∧ ¬ k.pmm.Clears addrs w b

theorem Pmm.zeroes_cons {s : Pmm} {addr : Word} {addrs : List Word} {a : Word} :
    s.Zeroes (addr :: addrs) a ↔
      (s.Tracked addr ∧ InRange addr pageSize a) ∨ s.Zeroes addrs a := by
  simp only [Zeroes, List.mem_cons, or_and_right, exists_or, exists_eq_left]

theorem Pmm.clears_cons {s : Pmm} {addr : Word} {addrs : List Word} {w b : Nat} :
    s.Clears (addr :: addrs) w b ↔
      (∃ i, s.TracksAt addr i ∧ w = i / 8 ∧ b = i % 8) ∨ s.Clears addrs w b := by
  simp only [Clears, List.mem_cons, or_and_right, exists_or, exists_eq_left]

/-- Nothing is freed by no call. -/
theorem Freed.nil (k : Kernel) : Freed [] k k where
  frame := ⟨k.mem, k.pmm.bitmap, rfl⟩
  zeroed := by
    rintro a ⟨addr, haddr, -⟩
    cases haddr
  kept := fun a _ => rfl
  bits := fun w b => by
    refine ⟨fun h => ⟨h, ?_⟩, fun h => h.1⟩
    rintro ⟨addr, haddr, -⟩
    cases haddr

/-- One call. -/
theorem freePage_freed {k : Kernel} (hk : k.pmm.InBounds) (addr : Word) :
    ∃ k', freePage addr k = .ok k' ∧ Freed [addr] k k' := by
  rcases freePage_scan hk addr with ⟨i, hi, hhit, hmin, hrun⟩ | ⟨hmiss, hrun⟩
  · have hi' : i < maxPages := Nat.lt_of_lt_of_le hi hk
    obtain ⟨bitmap', hclear, -⟩ := clearBit_spec k.pmm.bitmap hi'
    refine ⟨_, hrun bitmap' hclear, ⟨_, bitmap', rfl⟩, fun a ha => ?_, fun a ha => ?_,
      fun w b => ?_⟩
    · obtain ⟨_, hmem, -, ha⟩ := ha
      obtain rfl := List.mem_singleton.mp hmem
      exact memset_get ha
    · refine memset_of_not_inRange (by decide) fun hin => ha ?_
      exact ⟨addr, List.mem_singleton_self addr, ⟨i, hi, hhit⟩, hin⟩
    · show (bitmap'.elem w).getLsbD b = true ↔ _
      rw [getLsbD_of_clearBit hi' hclear, Bool.and_eq_true, Bool.not_eq_true',
        decide_eq_false_iff_not]
      refine and_congr_right fun _ => not_congr ⟨fun h => ?_, ?_⟩
      · exact ⟨addr, List.mem_singleton_self addr, i, ⟨hi, hhit, hmin⟩, h⟩
      · rintro ⟨_, hmem, j, hj, h⟩
        obtain rfl := List.mem_singleton.mp hmem
        obtain rfl : i = j := Pmm.TracksAt.unique ⟨hi, hhit, hmin⟩ hj
        exact h
  · refine ⟨k, hrun, ⟨k.mem, k.pmm.bitmap, rfl⟩, fun a ha => ?_, fun a _ => rfl, fun w b => ?_⟩
    · obtain ⟨_, hmem, ⟨i, hi, hhit⟩, -⟩ := ha
      obtain rfl := List.mem_singleton.mp hmem
      exact absurd hhit (hmiss i hi)
    · refine ⟨fun h => ⟨h, ?_⟩, fun h => h.1⟩
      rintro ⟨_, hmem, i, ⟨hi, hhit, -⟩, -⟩
      obtain rfl := List.mem_singleton.mp hmem
      exact absurd hhit (hmiss i hi)

/-- One call after another: the table that decides what is freed does not change. -/
theorem Freed.cons {addr : Word} {addrs : List Word} {k k₁ k₂ : Kernel}
    (h₁ : Freed [addr] k k₁) (h₂ : Freed addrs k₁ k₂) : Freed (addr :: addrs) k k₂ := by
  obtain ⟨mem₁, bitmap₁, rfl⟩ := h₁.frame
  obtain ⟨mem₂, bitmap₂, rfl⟩ := h₂.frame
  refine ⟨⟨mem₂, bitmap₂, rfl⟩, fun a ha => ?_, fun a ha => ?_, fun w b => ?_⟩
  · by_cases hlater : k.pmm.Zeroes addrs a
    · exact h₂.zeroed a hlater
    · rw [h₂.kept a hlater]
      refine h₁.zeroed a (Pmm.zeroes_cons.mpr (.inl ?_))
      exact (Pmm.zeroes_cons.mp ha).resolve_right hlater
  · rw [h₂.kept a fun h => ha (Pmm.zeroes_cons.mpr (.inr h))]
    refine h₁.kept a fun h => ha ?_
    obtain ⟨b, hb, hin⟩ := h
    obtain rfl := List.mem_singleton.mp hb
    exact Pmm.zeroes_cons.mpr (.inl hin)
  · rw [h₂.bits, h₁.bits, and_assoc, ← not_or]
    refine and_congr_right fun _ => not_congr ?_
    rw [Pmm.clears_cons, Pmm.clears_cons]
    refine or_congr ⟨fun h => h.resolve_right ?_, .inl⟩ Iff.rfl
    rintro ⟨_, hmem, -⟩
    cases hmem

/-- What a list of calls leaves. -/
theorem freePages_freed {k : Kernel} (hk : k.pmm.InBounds) (addrs : List Word) :
    ∃ k', freePages addrs k = .ok k' ∧ Freed addrs k k' := by
  induction addrs generalizing k with
  | nil => exact ⟨k, rfl, .nil k⟩
  | cons addr addrs ih =>
    obtain ⟨k₁, hrun₁, h₁⟩ := freePage_freed hk addr
    have hk₁ : k₁.pmm.InBounds := by
      obtain ⟨mem, bitmap, rfl⟩ := h₁.frame
      exact hk
    obtain ⟨k₂, hrun₂, h₂⟩ := ih hk₁
    refine ⟨k₂, ?_, h₁.cons h₂⟩
    rw [freePages, List.foldlM_cons, hrun₁]
    exact hrun₂

/-- **Only the set of addresses counts.** -/
theorem Freed.unique {addrs addrs' : List Word} {k k₁ k₂ : Kernel} (h₁ : Freed addrs k k₁)
    (h₂ : Freed addrs' k k₂) (hsame : ∀ a, a ∈ addrs ↔ a ∈ addrs') : k₁ = k₂ := by
  have hzeroes : ∀ a, k.pmm.Zeroes addrs a ↔ k.pmm.Zeroes addrs' a := fun a =>
    exists_congr fun addr => and_congr_left fun _ => hsame addr
  have hclears : ∀ w b, k.pmm.Clears addrs w b ↔ k.pmm.Clears addrs' w b := fun w b =>
    exists_congr fun addr => and_congr_left fun _ => hsame addr
  have hmem : k₁.mem = k₂.mem := by
    funext a
    by_cases ha : k.pmm.Zeroes addrs a
    · rw [h₁.zeroed a ha, h₂.zeroed a ((hzeroes a).mp ha)]
    · rw [h₁.kept a ha, h₂.kept a fun h => ha ((hzeroes a).mpr h)]
  have hbitmap : k₁.pmm.bitmap = k₂.pmm.bitmap := by
    refine congrArg Arr.mk (funext fun w => BitVec.eq_of_getLsbD_eq fun b _ => ?_)
    rw [Bool.eq_iff_iff]
    exact (h₁.bits w b).trans (((and_congr_right fun _ => not_congr (hclears w b))).trans
      (h₂.bits w b).symm)
  obtain ⟨mem₁, bitmap₁, rfl⟩ := h₁.frame
  obtain ⟨mem₂, bitmap₂, rfl⟩ := h₂.frame
  obtain rfl : mem₁ = mem₂ := hmem
  obtain rfl : bitmap₁ = bitmap₂ := hbitmap
  rfl

/-! ## What is allocated next -/

/-- The indices of the clear bits, in ascending order. -/
def Pmm.freeIndices (s : Pmm) : List Nat :=
  (List.range s.totalPages).filter fun i => !bitAt s.bitmap i

theorem Pmm.mem_freeIndices {s : Pmm} {i : Nat} :
    i ∈ s.freeIndices ↔ i < s.totalPages ∧ bitAt s.bitmap i = false := by
  rw [freeIndices, List.mem_filter, List.mem_range, Bool.not_eq_true']

theorem Pmm.freeIndices_pairwise (s : Pmm) : s.freeIndices.Pairwise (· < ·) :=
  List.pairwise_lt_range.filter _

/-- Taking the first clear bit leaves the others. -/
theorem freeIndices_of_setBit {s : Pmm} {i : Nat} {rest : List Nat} {bitmap' : Bitmap}
    (h : s.freeIndices = i :: rest)
    (hbits : ∀ j, bitAt bitmap' j = (bitAt s.bitmap j || decide (j = i))) :
    Pmm.freeIndices { s with bitmap := bitmap' } = rest := by
  have hpairwise := s.freeIndices_pairwise
  rw [h, List.pairwise_cons] at hpairwise
  have hfilter : Pmm.freeIndices { s with bitmap := bitmap' } =
      s.freeIndices.filter fun j => j ≠ i := by
    rw [Pmm.freeIndices, Pmm.freeIndices, List.filter_filter]
    refine List.filter_congr fun j _ => ?_
    rw [hbits, Bool.not_or, Bool.and_comm, decide_not]
  rw [hfilter, h, List.filter_cons_of_neg (by simp), List.filter_eq_self]
  exact fun j hj => decide_eq_true (Nat.ne_of_gt (hpairwise.1 j hj))

/-- `alloc_page` takes the first of the free indices. -/
theorem allocPage_freeIndices {k : Kernel} (hk : k.pmm.InBounds) {i : Nat} {rest : List Nat}
    (h : k.pmm.freeIndices = i :: rest) :
    ∃ page bitmap', k.pmm.pageAddrs.get i = .ok page ∧
      Pmm.freeIndices { k.pmm with bitmap := bitmap' } = rest ∧
      ∀ addr, allocPage addr k = .ok (page, { k with pmm.bitmap := bitmap' }) := by
  have hpairwise := k.pmm.freeIndices_pairwise
  have hhead : i ∈ k.pmm.freeIndices := h ▸ List.mem_cons_self
  obtain ⟨hi, hclear⟩ := Pmm.mem_freeIndices.mp hhead
  rw [h, List.pairwise_cons] at hpairwise
  rcases allocPage_cases hk with
    ⟨j, page, bitmap', hj, hclear', hbefore, hpage, hset, hrun⟩ | ⟨hfull, -⟩
  · -- the scan stops at the smallest of the free indices
    have hfree : j ∈ k.pmm.freeIndices := Pmm.mem_freeIndices.mpr ⟨hj, hclear'⟩
    rw [h] at hfree
    obtain rfl : j = i := by
      rcases List.mem_cons.mp hfree with hij | hrest
      · exact hij
      · have hset := hbefore i (hpairwise.1 j hrest)
        rw [hclear] at hset
        cases hset
    exact ⟨page, bitmap', hpage,
      freeIndices_of_setBit h (bitAt_of_setBit (Nat.lt_of_lt_of_le hj hk) hset), hrun⟩
  · rw [hfull i hi] at hclear
    cases hclear

/-- As many calls as there are presets, one for each of the lowest free indices. -/
theorem allocPages_freeIndices {k : Kernel} (hk : k.pmm.InBounds) {presets : List Word}
    (hroom : presets.length ≤ k.pmm.freeIndices.length) :
    ∃ pages k', run PageCall.step (presets.map .alloc) k = .ok (pages.map some, k') ∧
      List.Forall₂ (fun i page => k.pmm.pageAddrs.get i = .ok page)
        (k.pmm.freeIndices.take presets.length) pages := by
  induction presets generalizing k with
  | nil => exact ⟨[], k, rfl, .nil⟩
  | cons addr presets ih =>
    cases hfree : k.pmm.freeIndices with
    | nil =>
      rw [hfree] at hroom
      exact absurd hroom (Nat.not_succ_le_zero _)
    | cons i rest =>
      obtain ⟨page, bitmap', hpage, hrest, halloc⟩ := allocPage_freeIndices hk hfree
      rw [hfree] at hroom
      obtain ⟨pages, k', hrun, hpages⟩ := ih (k := { k with pmm.bitmap := bitmap' }) hk
        (by rw [hrest]; exact Nat.le_of_succ_le_succ hroom)
      refine ⟨page :: pages, k', run_cons_ok.mpr ⟨some page, _, pages.map some, ?_, hrun, rfl⟩,
        .cons hpage ?_⟩
      · rw [PageCall.step, halloc]
        rfl
      · rw [hrest] at hpages
        exact hpages

/-! ## In every reachable state -/

/-- **Frees commute, may be repeated, and are refilled from the lowest index.** In every
reachable state over any memory map, two lists with the same elements leave the same bitmap
and the same memory. As long as there are free pages then, each `alloc_page` returns the one
of the lowest index, in strictly ascending order. -/
theorem freePages_order {boot : Boot} {k : Kernel} (hreach : k.pmm.ReachedFrom boot)
    {addrs addrs' : List Word} (hsame : ∀ a, a ∈ addrs ↔ a ∈ addrs') :
    ∃ k', freePages addrs k = .ok k' ∧ freePages addrs' k = .ok k' ∧
      k'.pmm.freeIndices.Pairwise (· < ·) ∧
      (∀ i, i ∈ k'.pmm.freeIndices ↔
        i < k'.pmm.totalPages ∧ testBit k'.pmm.bitmap i = .ok false) ∧
      ∀ presets : List Word, presets.length ≤ k'.pmm.freeIndices.length →
        ∃ pages k'', run PageCall.step (presets.map .alloc) k' = .ok (pages.map some, k'') ∧
          List.Forall₂ (fun i page => k'.pmm.pageAddrs.get i = .ok page)
            (k'.pmm.freeIndices.take presets.length) pages := by
  have hk := hreach.tracks.inBounds
  obtain ⟨k₁, hrun₁, h₁⟩ := freePages_freed hk addrs
  obtain ⟨k₂, hrun₂, h₂⟩ := freePages_freed hk addrs'
  obtain rfl : k₁ = k₂ := h₁.unique h₂ hsame
  have hk₁ : k₁.pmm.InBounds := by
    obtain ⟨mem, bitmap, rfl⟩ := h₁.frame
    exact hk
  refine ⟨k₁, hrun₁, hrun₂, k₁.pmm.freeIndices_pairwise, fun i => ?_, fun presets hroom =>
    allocPages_freeIndices hk₁ hroom⟩
  rw [Pmm.mem_freeIndices]
  refine and_congr_right fun hi => ?_
  rw [testBit_of_lt _ (Nat.lt_of_lt_of_le hi hk₁)]
  exact ⟨congrArg Except.ok, Except.ok.inj⟩

/-- Both pages are allocated and freed, in either order, once or twice, with an address that
is not a page. -/
theorem freePages_order_sample :
    ∃ k₁ k₂ k', bitmapInit sampleBoot (.loaded fun _ => 0) = .ok k₁ ∧
      run AcpiCall.step [.page (.alloc 0), .page (.alloc 0)] k₁ =
        .ok ([some 0x1000, some 0x2000], k₂) ∧
      freePages [0x2000, 7, 0x1000, 0x2000] k₂ = .ok k' ∧
      freePages [0x1000, 0x2000, 7] k₂ = .ok k' := by
  obtain ⟨k₁, hinit, -, href⟩ := sampleBoot_refines (.loaded fun _ => 0)
  obtain ⟨k₂, hrun, -⟩ := acpi_run href [.page (.alloc 0), .page (.alloc 0)]
  have hreach : k₂.pmm.ReachedFrom sampleBoot := ⟨_, k₁, _, _, k₂, hinit, hrun, rfl⟩
  have hsame : ∀ a : Word, a ∈ [0x2000, 7, 0x1000, 0x2000] ↔ a ∈ [0x1000, 0x2000, 7] := by
    intro a
    grind
  obtain ⟨k', hfree, hfree', -⟩ := freePages_order hreach hsame
  exact ⟨k₁, k₂, k', hinit, hrun.trans rfl, hfree, hfree'⟩

end KptrOS
