import Mathlib.Data.List.Sort
import KptrOS.Mem.BitmapInit

/-!
# The pages that `bitmap_init` finds

`entryPages` counts in wrapping 64-bit words, as the loop does. Here the pages of an entry
are described without the loop: of all aligned addresses in ascending order, those whose
page lies inside the entry. On entries that do not wrap the two agree.

- `addressPages`, `MemmapEntry.pages`, `mapPages`: the pages of the address space, of an
  entry, and of the usable entries of a map.
- `entryPages_eq_pages`: the rounded bounds of the loop lose and add no page.
- `usablePasses_usableEntries`, `bitmapInit_pmm`: both passes skip the entries that are not
  usable, whatever their bounds are.
- `bitmapInit_usable`: what the function builds.
-/

namespace KptrOS

open CSem

/-! ## Pages of the address space -/

/-- Every page boundary of the address space, in ascending order. -/
def addressPages : List Word :=
  (List.range (2 ^ 52)).map fun i => BitVec.ofNat 64 (pageSize * i)

theorem mem_addressPages {a : Word} : a ∈ addressPages ↔ Aligned a := by
  rw [addressPages, List.mem_map]
  constructor
  · rintro ⟨i, -, rfl⟩
    rw [Aligned, BitVec.toNat_ofNat]
    unfold pageSize
    omega
  · intro ha
    have hlt := a.isLt
    refine ⟨a.toNat / pageSize, List.mem_range.mpr ?_, BitVec.eq_of_toNat_eq ?_⟩
    · unfold pageSize
      omega
    · rw [BitVec.toNat_ofNat]
      unfold Aligned pageSize at *
      omega

theorem addressPages_pairwise : addressPages.Pairwise (· < ·) := by
  rw [addressPages, List.pairwise_map]
  refine (List.pairwise_lt_range).imp_of_mem fun {i j} hi hj hij => ?_
  have hj' := List.mem_range.mp hj
  rw [BitVec.lt_def, BitVec.toNat_ofNat, BitVec.toNat_ofNat]
  unfold pageSize
  omega

/-! ## Pages of an entry -/

/-- The pages that lie inside an entry, in ascending order. -/
def MemmapEntry.pages (entry : MemmapEntry) : List Word :=
  addressPages.filter fun a => entry.base.toNat ≤ a.toNat ∧
    a.toNat + pageSize ≤ entry.base.toNat + entry.length.toNat

/-- The usable entries of a map. -/
def usableEntries (memmap : List MemmapEntry) : List MemmapEntry :=
  memmap.filter fun entry => entry.type = memmapUsable

/-- The pages of the usable entries, in map order. -/
def mapPages (memmap : List MemmapEntry) : List Word :=
  (usableEntries memmap).flatMap MemmapEntry.pages

theorem mem_pages {entry : MemmapEntry} {a : Word} :
    a ∈ entry.pages ↔ Aligned a ∧ entry.base.toNat ≤ a.toNat ∧
      a.toNat + pageSize ≤ entry.base.toNat + entry.length.toNat := by
  rw [MemmapEntry.pages, List.mem_filter, mem_addressPages, decide_eq_true_eq]

theorem entryPages_pairwise (entry : MemmapEntry) : (entryPages entry).Pairwise (· < ·) := by
  rw [entryPages]
  by_cases htype : entry.type = memmapUsable
  · rw [if_pos htype, List.pairwise_map]
    refine (List.pairwise_lt_range).imp_of_mem fun {i j} hi hj hij => ?_
    rw [BitVec.lt_def, (pageAt_toNat entry (List.mem_range.mp hi)).1,
      (pageAt_toNat entry (List.mem_range.mp hj)).1]
    unfold pageSize
    omega
  · rw [if_neg htype]
    exact List.Pairwise.nil

/-- Rounding the start of an entry up and its end down leaves the pages inside it. -/
theorem entryPages_eq_pages {entry : MemmapEntry} (htype : entry.type = memmapUsable)
    (hbound : entry.base.toNat + entry.length.toNat ≤ 2 ^ 64 - 4096) :
    entryPages entry = entry.pages := by
  refine (entryPages_pairwise entry).eq_of_mem_iff (addressPages_pairwise.filter _) fun a => ?_
  rw [mem_entryPages, mem_pages, pageStart_toNat, pageEnd_toNat]
  unfold Aligned pageSize
  constructor
  · rintro ⟨-, ha, hlo, hhi⟩
    omega
  · rintro ⟨ha, hlo, hhi⟩
    refine ⟨htype, ha, ?_, ?_⟩ <;> omega

/-! ## Pages of a map -/

theorem usableEntries_cons_of_usable {entry : MemmapEntry} (h : entry.type = memmapUsable)
    (memmap : List MemmapEntry) :
    usableEntries (entry :: memmap) = entry :: usableEntries memmap := by
  simp [usableEntries, h]

theorem usableEntries_cons_of_reserved {entry : MemmapEntry} (h : entry.type ≠ memmapUsable)
    (memmap : List MemmapEntry) : usableEntries (entry :: memmap) = usableEntries memmap := by
  simp [usableEntries, h]

theorem usablePages_eq_mapPages {memmap : List MemmapEntry}
    (hbound : ∀ entry ∈ memmap, entry.type = memmapUsable →
      entry.base.toNat + entry.length.toNat ≤ 2 ^ 64 - 4096) :
    usablePages memmap = mapPages memmap := by
  rw [usablePages, mapPages]
  induction memmap with
  | nil => rw [usableEntries, List.filter_nil, List.flatMap_nil, List.flatMap_nil]
  | cons entry memmap ih =>
    have hrest := ih fun e he => hbound e (List.mem_cons_of_mem entry he)
    rw [List.flatMap_cons, hrest]
    by_cases htype : entry.type = memmapUsable
    · rw [usableEntries_cons_of_usable htype, List.flatMap_cons,
        entryPages_eq_pages htype (hbound entry List.mem_cons_self htype)]
    · rw [usableEntries_cons_of_reserved htype, entryPages, if_neg htype, List.nil_append]

/-- The first pass skips the entries that are not usable. -/
theorem usablePasses_usableEntries (memmap : List MemmapEntry) (s : Pmm) :
    memmap.foldlM usablePass s = (usableEntries memmap).foldlM usablePass s := by
  induction memmap generalizing s with
  | nil => rfl
  | cons entry memmap ih =>
    rw [List.foldlM_cons]
    by_cases htype : entry.type = memmapUsable
    · rw [usableEntries_cons_of_usable htype, List.foldlM_cons]
      exact congrArg _ (funext ih)
    · rw [usableEntries_cons_of_reserved htype, usablePass, if_neg htype, ← ih s]
      rfl

/-- What `bitmap_init` leaves of the allocator is what the first pass leaves. -/
theorem bitmapInit_pmm {boot : Boot} {k k' : Kernel} (h : bitmapInit boot k = .ok k') :
    boot.memmap.foldlM usablePass { k.pmm with totalPages := 0 } = .ok k'.pmm := by
  obtain ⟨s, hs, hfresh⟩ := usablePasses_fresh boot.memmap (.empty k.pmm)
  rw [bitmapInit, hs, ok_bind, reservedPasses_ok _ hfresh.inBounds, ok_bind] at h
  obtain ⟨tables, -, h⟩ := bind_eq_ok.mp h
  cases h
  exact hs

/-- **`bitmap_init` builds exactly the usable pages** when the usable entries do not wrap:
the first `MAX_PAGES` pages of the map, all of them free. Any map with the same usable
entries, whatever else it contains, gives the same allocator. -/
theorem bitmapInit_usable {boot : Boot} (k : Kernel)
    (hbound : ∀ entry ∈ boot.memmap, entry.type = memmapUsable →
      entry.base.toNat + entry.length.toNat ≤ 2 ^ 64 - 4096) :
    ∃ k', bitmapInit boot k = .ok k' ∧
      k'.pmm.totalPages = min (mapPages boot.memmap).length maxPages ∧
      (∀ i page, i < k'.pmm.totalPages → (mapPages boot.memmap)[i]? = some page →
        k'.pmm.pageAddrs.get i = .ok page) ∧
      (∀ i, i < k'.pmm.totalPages → testBit k'.pmm.bitmap i = .ok false) ∧
      ∀ boot' k'', usableEntries boot'.memmap = usableEntries boot.memmap →
        bitmapInit boot' k = .ok k'' → k''.pmm = k'.pmm := by
  obtain ⟨s, tables, hfresh, -, hinit⟩ := bitmapInit_ok boot k
  have hpages : trackedPages boot.memmap = (mapPages boot.memmap).take maxPages := by
    rw [trackedPages, usablePages_eq_mapPages hbound]
  rw [hpages] at hfresh
  refine ⟨_, hinit, ?_, fun i page hi hpage => ?_, fun i hi => ?_, fun boot' k'' husable h => ?_⟩
  · rw [hfresh.total, List.length_take, Nat.min_comm]
  · refine hfresh.addrs i page ?_
    rw [List.getElem?_take_of_lt (Nat.lt_of_lt_of_le hi hfresh.inBounds), hpage]
  · rw [testBit_of_lt _ (Nat.lt_of_lt_of_le hi hfresh.inBounds)]
    exact congrArg Except.ok (hfresh.clear i (hfresh.total ▸ hi))
  · have hpass := bitmapInit_pmm h
    rw [usablePasses_usableEntries, husable, ← usablePasses_usableEntries,
      bitmapInit_pmm hinit] at hpass
    exact (Except.ok.inj hpass).symm

/-- An unaligned usable entry, one shorter than a page, and a reserved one that wraps. -/
def unalignedBoot : Boot where
  memmap := [⟨0x1800, 0x2A00, memmapUsable⟩, ⟨0xFFFFFFFFFFFFF000, 0x3000, 1⟩,
    ⟨0x8000, 0x800, memmapUsable⟩]
  hhdmOffset := 0
  kernelAddr := 0
  tableAddrs := ⟨0x100000, 0x101000, 0x102000, 0x103000⟩

theorem bitmapInit_usable_unaligned :
    ∃ k', bitmapInit unalignedBoot (.loaded fun _ => 0) = .ok k' ∧ k'.pmm.totalPages = 2 ∧
      k'.pmm.pageAddrs.get 0 = .ok 0x2000 ∧ k'.pmm.pageAddrs.get 1 = .ok 0x3000 := by
  have hbound : ∀ entry ∈ unalignedBoot.memmap, entry.type = memmapUsable →
      entry.base.toNat + entry.length.toNat ≤ 2 ^ 64 - 4096 := by decide
  have hpages : mapPages unalignedBoot.memmap = [0x2000, 0x3000] :=
    (usablePages_eq_mapPages hbound).symm.trans (by decide)
  obtain ⟨k', hinit, htotal, haddrs, -⟩ := bitmapInit_usable (.loaded fun _ => 0) hbound
  rw [hpages] at htotal haddrs
  have htwo : k'.pmm.totalPages = 2 := htotal.trans (by decide)
  exact ⟨k', hinit, htwo, haddrs 0 _ (by omega) rfl, haddrs 1 _ (by omega) rfl⟩

end KptrOS
