import Mathlib.Data.List.Basic
import KptrOS.Mem.Pmm

/-!
# What `bitmap_init` builds

The list of pages that a memory map provides, in 64-bit arithmetic, and the
proof that `bitmap_init` terminates on every map, stays inside its arrays and
tracks exactly the first `MAX_PAGES` of that list, all of them free.

- `entryPages`, `trackedPages`: the pages of an entry and of a map.
- `usablePass_fresh`: one entry of the first pass appends the pages of the entry.
- `reservedPass_ok`: the second pass changes nothing, on any map: its guard
  `total_pages > MAX_PAGES` is never true.
- `bitmapInit_ok`: the whole function.
- `trackedPages_nodup`, `entryPages_spec`: on the maps that the bootloader
  provides the pages are distinct and lie inside their entries.
-/

namespace KptrOS

open CSem

/-! ## Rounding -/

theorem getLsbD_pageMask {i : Nat} (hi : i < 64) :
    pageMask.getLsbD i = decide (12 ≤ i) := by
  have hall : ∀ j : Fin 64, pageMask.getLsbD j.val = decide (12 ≤ j.val) := by decide
  exact hall ⟨i, hi⟩

/-- Masking rounds down to a page boundary. -/
theorem and_pageMask_toNat (x : Word) :
    (x &&& pageMask).toNat = x.toNat / pageSize * pageSize := by
  have hshift : x &&& pageMask = x >>> 12 <<< 12 := by
    refine BitVec.eq_of_getLsbD_eq fun i hi => ?_
    rw [BitVec.getLsbD_and, getLsbD_pageMask hi, BitVec.getLsbD_shiftLeft,
      BitVec.getLsbD_ushiftRight]
    by_cases h : 12 ≤ i
    · simp [h, hi, Nat.add_sub_cancel' h]
    · simp [h]
  have hx : x.toNat / 4096 * 4096 < 2 ^ 64 :=
    Nat.lt_of_le_of_lt (Nat.div_mul_le_self _ _) x.isLt
  rw [hshift, BitVec.toNat_shiftLeft, BitVec.toNat_ushiftRight,
    Nat.shiftRight_eq_div_pow, Nat.shiftLeft_eq]
  exact Nat.mod_eq_of_lt hx

theorem pageStart_toNat (entry : MemmapEntry) :
    (pageStart entry).toNat =
      (entry.base.toNat + 4095) % 2 ^ 64 / pageSize * pageSize := by
  have hsum : (entry.base + 4096 - 1).toNat =
      (entry.base.toNat + 4095) % 2 ^ 64 := by
    have hassoc : entry.base + 4096 - 1 = entry.base + 4095 := by bv_omega
    rw [hassoc, BitVec.toNat_add]
    rfl
  rw [pageStart, and_pageMask_toNat, hsum]

theorem pageEnd_toNat (entry : MemmapEntry) :
    (pageEnd entry).toNat =
      (entry.base.toNat + entry.length.toNat) % 2 ^ 64 / pageSize * pageSize := by
  rw [pageEnd, and_pageMask_toNat, BitVec.toNat_add]

theorem aligned_pageStart (entry : MemmapEntry) : Aligned (pageStart entry) := by
  rw [Aligned, pageStart_toNat, Nat.mul_mod_left]

theorem aligned_pageEnd (entry : MemmapEntry) : Aligned (pageEnd entry) := by
  rw [Aligned, pageEnd_toNat, Nat.mul_mod_left]

/-! ## The pages of a memory map -/

/-- The number of iterations of the first pass for an entry. -/
def pageCount (entry : MemmapEntry) : Nat :=
  ((pageEnd entry).toNat - (pageStart entry).toNat) / pageSize

/-- The pages that an entry contributes, in ascending order. -/
def entryPages (entry : MemmapEntry) : List Word :=
  if entry.type = memmapUsable then
    (List.range (pageCount entry)).map
      fun i => offset (pageStart entry) (pageSize * i)
  else []

/-- The pages of the usable entries, in map order. -/
def usablePages (memmap : List MemmapEntry) : List Word :=
  memmap.flatMap entryPages

/-- The pages that fit into `page_addrs`. -/
def trackedPages (memmap : List MemmapEntry) : List Word :=
  (usablePages memmap).take maxPages

/-- The allocator tracks `pages`. -/
structure Pmm.Tracks (s : Pmm) (pages : List Word) : Prop where
  total : s.totalPages = pages.length
  bound : pages.length ≤ maxPages
  addrs : ∀ i a, pages[i]? = some a → s.pageAddrs.get i = .ok a

/-- The allocator tracks `pages`, and all of them are free. -/
structure Pmm.Fresh (s : Pmm) (pages : List Word) : Prop extends s.Tracks pages where
  clear : ∀ i, i < pages.length → bitAt s.bitmap i = false

/-! ## The first pass -/

/-- A page stored behind the table, with its bit cleared, extends it. -/
theorem Pmm.Fresh.concat {s : Pmm} {pages : List Word} (hs : s.Fresh pages)
    (hroom : pages.length < maxPages) (a : Word) {bitmap' : Bitmap}
    (hbits : ∀ j, bitAt bitmap' j = (bitAt s.bitmap j && !decide (j = s.totalPages))) :
    Pmm.Fresh ⟨bitmap', s.pageAddrs.put s.totalPages a, s.totalPages + 1⟩ (pages ++ [a]) := by
  have htotal : s.totalPages < maxPages := hs.total ▸ hroom
  have hlt : ∀ i, i < (pages ++ [a]).length → i ≠ pages.length → i < pages.length := by
    intro i hi hne
    rw [List.length_append, List.length_singleton] at hi
    omega
  refine ⟨⟨by simp [hs.total], by rw [List.length_append]; exact hroom,
    fun i b hb => ?_⟩, fun i hi => ?_⟩
  · by_cases hi : i = pages.length
    · subst hi
      rw [List.getElem?_concat_length] at hb
      cases hb
      rw [← hs.total]
      exact Arr.get_put_self _ htotal a
    · rw [List.getElem?_append_left (hlt i (List.getElem?_eq_some_iff.mp hb).1 hi)] at hb
      rw [Arr.get_put_of_ne _ (hs.total ▸ hi)]
      exact hs.addrs i b hb
  · show bitAt bitmap' i = false
    rw [hbits]
    by_cases hi' : i = s.totalPages
    · simp [hi']
    · rw [hs.clear i (hlt i hi (hs.total ▸ hi')), Bool.false_and]

/-- One iteration appends its page, as long as there is room. -/
theorem appendPage_fresh {s : Pmm} {pages : List Word}
    (hs : s.Fresh (pages.take maxPages)) (a : Word) :
    ∃ s', appendPage a s = .ok s' ∧ s'.Fresh ((pages ++ [a]).take maxPages) := by
  by_cases hroom : pages.length < maxPages
  · have htake : pages.take maxPages = pages := List.take_of_length_le hroom.le
    have htake' : (pages ++ [a]).take maxPages = pages ++ [a] :=
      List.take_of_length_le (by
        rw [List.length_append]
        exact hroom)
    rw [htake] at hs
    rw [htake']
    have htotal : s.totalPages < maxPages := hs.total ▸ hroom
    obtain ⟨bitmap', hclear, hbits⟩ := clearBit_spec s.bitmap htotal
    refine ⟨_, ?_, hs.concat hroom a hbits⟩
    rw [appendPage, if_pos htotal, Arr.set_of_lt _ htotal, ok_bind, hclear]
    rfl
  · -- the table is full: the page is dropped, as `take` does
    have hfull : maxPages ≤ pages.length := Nat.le_of_not_lt hroom
    have htotal : ¬ s.totalPages < maxPages := by
      rw [hs.total, List.length_take, Nat.min_eq_left hfull]
      exact Nat.lt_irrefl _
    refine ⟨s, by rw [appendPage, if_neg htotal]; rfl, ?_⟩
    rwa [List.take_append_of_le_length hfull]

/-- The counter of the first pass is below the end exactly for the pages of the
entry: it reaches the end without wrapping. -/
theorem offset_pageStart_lt (entry : MemmapEntry) {k : Nat}
    (hk : k ≤ pageCount entry) :
    offset (pageStart entry) (pageSize * k) < pageEnd entry ↔
      k < pageCount entry := by
  have hs := aligned_pageStart entry
  have he := aligned_pageEnd entry
  have hlt := (pageEnd entry).isLt
  have hlt' := (pageStart entry).isLt
  unfold pageCount at *
  unfold Aligned pageSize at *
  rw [BitVec.lt_def, offset, BitVec.toNat_add, BitVec.toNat_ofNat]
  omega

/-- The counter of the first pass after `k` iterations. -/
theorem offset_pageStart_succ (entry : MemmapEntry) (k : Nat) :
    offset (pageStart entry) (pageSize * k) + 4096 =
      offset (pageStart entry) (pageSize * (k + 1)) := by
  refine BitVec.eq_of_toNat_eq ?_
  have h : (4096 : Word).toNat = 4096 := rfl
  rw [BitVec.toNat_add, h, offset, offset, BitVec.toNat_add, BitVec.toNat_add,
    BitVec.toNat_ofNat, BitVec.toNat_ofNat]
  unfold pageSize
  omega

/-- One entry of the first pass is a counted loop: it terminates. -/
theorem usablePass_eq_forRange {entry : MemmapEntry} (htype : entry.type = memmapUsable)
    (s : Pmm) :
    usablePass s entry = forRange
      (fun k => appendPage (offset (pageStart entry) (pageSize * k))) (pageCount entry) 0 s := by
  have hcount : pageCount entry < 2 ^ 64 := by
    have := (pageEnd entry).isLt
    unfold pageCount pageSize
    omega
  have hstart : offset (pageStart entry) (pageSize * 0) = pageStart entry :=
    offset_zero _
  have hloop : forLoop (· < pageEnd entry) (· + 4096) appendPage (2 ^ 64)
      (offset (pageStart entry) (pageSize * 0)) s =
      forRange (fun k => appendPage (offset (pageStart entry) (pageSize * k)))
        (pageCount entry) 0 s := by
    refine forLoop_eq_forRange (fun k => offset (pageStart entry) (pageSize * k))
      (offset_pageStart_succ entry) hcount (fun k _ hk => ?_) ?_ s
    · exact decide_eq_true
        ((offset_pageStart_lt entry (by omega)).mpr (by omega))
    · refine decide_eq_false fun h => ?_
      have := (offset_pageStart_lt entry (by omega)).mp h
      omega
  rw [hstart] at hloop
  rw [usablePass, if_pos htype, hloop]

/-- One entry of the first pass appends the pages of the entry. -/
theorem usablePass_fresh {s : Pmm} {pages : List Word}
    (hs : s.Fresh (pages.take maxPages)) (entry : MemmapEntry) :
    ∃ s', usablePass s entry = .ok s' ∧
      s'.Fresh ((pages ++ entryPages entry).take maxPages) := by
  rw [entryPages]
  by_cases htype : entry.type = memmapUsable
  · rw [if_pos htype, usablePass_eq_forRange htype]
    have h0 : s.Fresh ((pages ++ (List.range 0).map
        fun i => offset (pageStart entry) (pageSize * i)).take maxPages) := by
      rwa [List.range_zero, List.map_nil, List.append_nil]
    -- after `i` iterations the first `i` pages of the entry are there
    refine forRange_zero_inv
      (fun i (s : Pmm) => s.Fresh ((pages ++ (List.range i).map
        fun i => offset (pageStart entry) (pageSize * i)).take maxPages))
      h0 fun i s _ hI => ?_
    rw [List.range_succ, List.map_append, ← List.append_assoc]
    exact appendPage_fresh hI _
  · rw [usablePass, if_neg htype, if_neg htype, List.append_nil]
    exact ⟨s, rfl, hs⟩

/-- The first pass. -/
theorem usablePasses_fresh (memmap : List MemmapEntry) {s : Pmm} {pages : List Word}
    (hs : s.Fresh (pages.take maxPages)) :
    ∃ s', memmap.foldlM usablePass s = .ok s' ∧
      s'.Fresh ((pages ++ usablePages memmap).take maxPages) := by
  induction memmap generalizing s pages with
  | nil => exact ⟨s, rfl, by simpa [usablePages] using hs⟩
  | cons entry memmap ih =>
    obtain ⟨s₁, hs₁, hfresh₁⟩ := usablePass_fresh hs entry
    obtain ⟨s₂, hs₂, hfresh₂⟩ := ih hfresh₁
    refine ⟨s₂, ?_, ?_⟩
    · rw [List.foldlM_cons, hs₁]
      exact hs₂
    · simpa [usablePages] using hfresh₂

/-! ## The second pass -/

/-- The guard of the second pass is false whenever the variables are in order. -/
theorem withdrawPage_ok {s : Pmm} (hs : s.InBounds) (addr : Word) :
    withdrawPage addr s = .ok s := by
  rw [withdrawPage, if_neg (Nat.not_lt.mpr hs)]
  rfl

/-- The number of iterations of the second pass for an entry. -/
def withdrawCount (entry : MemmapEntry) : Nat :=
  ((pageStart entry).toNat - (pageEnd entry).toNat) / pageSize

/-- The counter of the second pass after `k` iterations. -/
def withdrawAddr (entry : MemmapEntry) (k : Nat) : Word :=
  pageStart entry - BitVec.ofNat 64 (pageSize * k)

/-- Both bounds are aligned, so the counter meets the end exactly. -/
theorem lt_withdrawAddr (entry : MemmapEntry) {k : Nat}
    (hk : k ≤ withdrawCount entry) :
    pageEnd entry < withdrawAddr entry k ↔ k < withdrawCount entry := by
  have hs := aligned_pageStart entry
  have he := aligned_pageEnd entry
  have hlt := (pageEnd entry).isLt
  have hlt' := (pageStart entry).isLt
  unfold withdrawCount at *
  unfold Aligned pageSize at *
  rw [BitVec.lt_def, withdrawAddr, BitVec.toNat_sub, BitVec.toNat_ofNat]
  unfold pageSize
  omega

theorem withdrawAddr_succ (entry : MemmapEntry) (k : Nat) :
    withdrawAddr entry k - 4096 = withdrawAddr entry (k + 1) := by
  refine BitVec.eq_of_toNat_eq ?_
  have h : (4096 : Word).toNat = 4096 := rfl
  rw [BitVec.toNat_sub, h, withdrawAddr, withdrawAddr, BitVec.toNat_sub,
    BitVec.toNat_sub, BitVec.toNat_ofNat, BitVec.toNat_ofNat]
  unfold pageSize
  omega

/-- One entry of the second pass is a counted loop: it terminates. -/
theorem reservedPass_eq_forRange {entry : MemmapEntry} (htype : entry.type ≠ memmapUsable)
    (s : Pmm) :
    reservedPass s entry =
      forRange (fun k => withdrawPage (withdrawAddr entry k)) (withdrawCount entry) 0 s := by
  have hcount : withdrawCount entry < 2 ^ 64 := by
    have := (pageStart entry).isLt
    unfold withdrawCount pageSize
    omega
  have hstart : withdrawAddr entry 0 = pageStart entry := by
    simp [withdrawAddr]
  have hloop : forLoop (pageEnd entry < ·) (· - 4096) withdrawPage (2 ^ 64)
      (withdrawAddr entry 0) s =
      forRange (fun k => withdrawPage (withdrawAddr entry k))
        (withdrawCount entry) 0 s := by
    refine forLoop_eq_forRange (withdrawAddr entry) (withdrawAddr_succ entry)
      hcount (fun k _ hk => ?_) ?_ s
    · exact decide_eq_true ((lt_withdrawAddr entry (by omega)).mpr (by omega))
    · refine decide_eq_false fun h => ?_
      have := (lt_withdrawAddr entry (by omega)).mp h
      omega
  rw [hstart] at hloop
  rw [reservedPass, if_pos htype, hloop]

/-- The second pass runs over an entry only when the entry holds no page
boundary, downwards, and withdraws nothing even then. -/
theorem reservedPass_ok {s : Pmm} (hs : s.InBounds) (entry : MemmapEntry) :
    reservedPass s entry = .ok s := by
  by_cases htype : entry.type ≠ memmapUsable
  · rw [reservedPass_eq_forRange htype]
    -- every iteration finds the guard false
    have hkeep : ∀ i s', i < withdrawCount entry → s' = s →
        ∃ s'', withdrawPage (withdrawAddr entry i) s' = .ok s'' ∧ s'' = s :=
      fun i s' _ h => ⟨s, h ▸ withdrawPage_ok (h ▸ hs) _, rfl⟩
    obtain ⟨s', hs', rfl⟩ := forRange_zero_inv (fun _ s' => s' = s) rfl hkeep
    exact hs'
  · rw [reservedPass, if_neg htype]
    rfl

/-- The second pass. -/
theorem reservedPasses_ok (memmap : List MemmapEntry) {s : Pmm} (hs : s.InBounds) :
    memmap.foldlM reservedPass s = .ok s := by
  induction memmap with
  | nil => rfl
  | cons entry memmap ih =>
    rw [List.foldlM_cons, reservedPass_ok hs]
    exact ih

/-! ## The whole function -/

theorem Pmm.Tracks.inBounds {s : Pmm} {pages : List Word} (hs : s.Tracks pages) :
    s.InBounds := by
  rw [Pmm.InBounds, hs.total]
  exact hs.bound

/-- Whatever the table holds, none of it is below `total_pages = 0`. -/
theorem Pmm.Fresh.empty (s : Pmm) :
    Pmm.Fresh { s with totalPages := 0 } (List.take maxPages []) := by
  refine ⟨⟨rfl, Nat.zero_le _, fun i a h => ?_⟩, fun i h => absurd h (Nat.not_lt_zero i)⟩
  simp at h

/-- `bitmap_init` returns on every memory map and from every state. -/
theorem bitmapInit_ok (boot : Boot) (k : Kernel) :
    ∃ s tables, s.Fresh (trackedPages boot.memmap) ∧
      loadPages boot.tableAddrs boot.hhdmOffset boot.kernelAddr k.tables =
        .ok tables ∧
      bitmapInit boot k = .ok { k with pmm := s, tables := tables } := by
  obtain ⟨s, hs, hfresh⟩ := usablePasses_fresh boot.memmap (.empty k.pmm)
  obtain ⟨tables, htables, -⟩ := loadPages_ok boot.tableAddrs boot.hhdmOffset
    boot.kernelAddr k.tables
  refine ⟨s, tables, by simpa [trackedPages] using hfresh, htables, ?_⟩
  rw [bitmapInit, hs, ok_bind, reservedPasses_ok _ hfresh.inBounds, ok_bind, htables]
  rfl

/-! ## The pages of a map -/

/-- The bytes of an entry, counted without wrapping. -/
def MemmapEntry.Covers (entry : MemmapEntry) (a : Nat) : Prop :=
  entry.base.toNat ≤ a ∧ a < entry.base.toNat + entry.length.toNat

/-- A page of an entry, without wrapping. -/
theorem pageAt_toNat (entry : MemmapEntry) {i : Nat} (hi : i < pageCount entry) :
    (offset (pageStart entry) (pageSize * i)).toNat =
        (pageStart entry).toNat + pageSize * i ∧
      (pageStart entry).toNat + pageSize * i + pageSize ≤ (pageEnd entry).toNat := by
  have hlt := (pageEnd entry).isLt
  unfold pageCount at hi
  rw [offset, BitVec.toNat_add, BitVec.toNat_ofNat]
  unfold pageSize at *
  omega

/-- The pages of an entry are the aligned ones between its rounded bounds. -/
theorem mem_entryPages {entry : MemmapEntry} {a : Word} :
    a ∈ entryPages entry ↔ entry.type = memmapUsable ∧ Aligned a ∧
      (pageStart entry).toNat ≤ a.toNat ∧
      a.toNat + pageSize ≤ (pageEnd entry).toNat := by
  rw [entryPages]
  by_cases htype : entry.type = memmapUsable
  · rw [if_pos htype, List.mem_map]
    constructor
    · rintro ⟨i, hi, rfl⟩
      obtain ⟨haddr, hend⟩ := pageAt_toNat entry (List.mem_range.mp hi)
      refine ⟨htype, ?_, by omega, by omega⟩
      have hs := aligned_pageStart entry
      rw [Aligned] at *
      rw [haddr, Nat.add_mul_mod_self_left, hs]
    · rintro ⟨-, ha, hlo, hhi⟩
      have hs := aligned_pageStart entry
      have he := aligned_pageEnd entry
      have hi : (a.toNat - (pageStart entry).toNat) / pageSize < pageCount entry := by
        unfold pageCount
        unfold Aligned pageSize at *
        omega
      refine ⟨_, List.mem_range.mpr hi, BitVec.eq_of_toNat_eq ?_⟩
      rw [(pageAt_toNat entry hi).1]
      unfold Aligned pageSize at *
      omega
  · rw [if_neg htype]
    exact ⟨fun h => absurd h List.not_mem_nil, fun h => absurd h.1 htype⟩

theorem entryPages_nodup (entry : MemmapEntry) : (entryPages entry).Nodup := by
  rw [entryPages]
  by_cases htype : entry.type = memmapUsable
  · rw [if_pos htype]
    refine List.Nodup.map_on (fun i hi j hj hij => ?_) List.nodup_range
    have h := congrArg BitVec.toNat hij
    rw [(pageAt_toNat entry (List.mem_range.mp hi)).1,
      (pageAt_toNat entry (List.mem_range.mp hj)).1] at h
    unfold pageSize at h
    omega
  · rw [if_neg htype]
    exact List.nodup_nil

theorem mem_trackedPages {memmap : List MemmapEntry} {a : Word}
    (h : a ∈ trackedPages memmap) : ∃ entry ∈ memmap, a ∈ entryPages entry :=
  List.mem_flatMap.mp (List.mem_of_mem_take h)

theorem trackedPages_aligned {memmap : List MemmapEntry} {a : Word}
    (h : a ∈ trackedPages memmap) : Aligned a := by
  obtain ⟨entry, -, ha⟩ := mem_trackedPages h
  exact (mem_entryPages.mp ha).2.1

/-- What the bootloader guarantees: the usable entries of the map do not wrap,
not even when their ends are rounded up to a page, and no two of them share a
byte. -/
structure WellFormed (memmap : List MemmapEntry) : Prop where
  bounded : ∀ entry ∈ memmap, entry.type = memmapUsable →
    entry.base.toNat + entry.length.toNat ≤ 2 ^ 64 - 4096
  disjoint : memmap.Pairwise fun e f => e.type = memmapUsable →
    f.type = memmapUsable → ∀ a, e.Covers a → ¬ f.Covers a

/-- The pages of a usable entry that does not wrap lie inside the entry. -/
theorem entryPages_covers {entry : MemmapEntry} {a : Word}
    (hbound : entry.base.toNat + entry.length.toNat ≤ 2 ^ 64 - 4096)
    (ha : a ∈ entryPages entry) {i : Nat} (hi : i < pageSize) :
    entry.Covers (a.toNat + i) := by
  obtain ⟨-, haligned, hlo, hhi⟩ := mem_entryPages.mp ha
  rw [pageStart_toNat] at hlo
  rw [pageEnd_toNat] at hhi
  rw [MemmapEntry.Covers]
  unfold Aligned pageSize at *
  omega

/-- On the maps that the bootloader provides no page is tracked twice. -/
theorem trackedPages_nodup {memmap : List MemmapEntry} (h : WellFormed memmap) :
    (trackedPages memmap).Nodup := by
  refine (List.nodup_flatMap.mpr ⟨fun e _ => entryPages_nodup e, ?_⟩).sublist
    (List.take_sublist _ _)
  refine h.disjoint.imp_of_mem fun {e f} he hf hdisj a hae haf => ?_
  have hetype := (mem_entryPages.mp hae).1
  have hftype := (mem_entryPages.mp haf).1
  have hzero : 0 < pageSize := by decide
  exact hdisj hetype hftype _ (entryPages_covers (h.bounded e he hetype) hae hzero)
    (entryPages_covers (h.bounded f hf hftype) haf hzero)

end KptrOS
