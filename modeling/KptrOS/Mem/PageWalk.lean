import KptrOS.Mem.Paging

/-!
# What the page tables map

The 4-level walk of the processor over the tables that `load_pages` leaves, and
the two mappings the function is written for.

- `walk`: present bit required at each level, frame in bits 51:12.
- `physWords`: physical memory with the four static tables in it.
- `IdentityMapped`, `KernelMapped`: the two intended mappings.
- `loadPages_not_identityMapped`, `loadPages_not_kernelMapped`: neither is ever
  established. The identity loop stores the last byte address of each page, so
  that the flag bits come out as `0xFFF`, and entry 0 ends up holding `virt | 1`;
  the kernel loop fills a leaf table that only entry 0 of the upper tables
  reaches.
-/

namespace KptrOS

open CSem

/-! ## The walk -/

/-- Bit 0 of an entry. -/
def present (entry : Word) : Bool := entry.getLsbD 0

/-- Bits 51:12 of an entry, as an address. -/
def frame (entry : Word) : Word :=
  BitVec.ofNat 64 (entry.toNat / 2 ^ 12 % 2 ^ 40 * 2 ^ 12)

/-- Bits 11:0 of an entry. -/
def flags (entry : Word) : Nat := entry.toNat % 2 ^ 12

/-- The index that an address has in the tables of a level (0 is the leaf). -/
def tableIndex (v : Word) (level : Nat) : Nat :=
  v.toNat / 2 ^ (12 + 9 * level) % 512

/-- The walk from a table of the given level, over a memory of 64-bit words: the
leaf entry it ends at and the physical address. -/
def walk (phys : Word → Word) (v : Word) :
    (level : Nat) → (table : Word) → Option (Word × Word)
  | 0, table =>
    let entry := phys (offset table (8 * tableIndex v 0))
    if present entry then some (entry, offset (frame entry) (v.toNat % 2 ^ 12))
    else none
  | level + 1, table =>
    let entry := phys (offset table (8 * tableIndex v (level + 1)))
    if present entry then walk phys v level (frame entry) else none

/-- Entry `i` of a table (0 outside). -/
def entryAt (t : Arr entries Word) (i : Nat) : Word := (t.get i).toOption.getD 0

/-- The word at a physical address, when the static tables lie at their addresses
and `rest` is everywhere else. -/
def physWords (addrs : TableAddrs) (t : PageTables) (rest : Word → Word)
    (a : Word) : Word :=
  if InRange addrs.pml4 pageSize a then entryAt t.pml4 ((a - addrs.pml4).toNat / 8)
  else if InRange addrs.pdpt pageSize a then
    entryAt t.pdpt ((a - addrs.pdpt).toNat / 8)
  else if InRange addrs.pd pageSize a then entryAt t.pd ((a - addrs.pd).toNat / 8)
  else if InRange addrs.pt pageSize a then entryAt t.pt ((a - addrs.pt).toNat / 8)
  else rest a

/-- The walk from `pml4`. -/
def translate (addrs : TableAddrs) (t : PageTables) (rest : Word → Word)
    (v : Word) : Option (Word × Word) :=
  walk (physWords addrs t rest) v 3 addrs.pml4

/-- The table addresses, usable as physical addresses: four distinct pages below
`2^52`. -/
structure TableAddrs.Valid (addrs : TableAddrs) : Prop where
  aligned : ∀ a ∈ [addrs.pml4, addrs.pdpt, addrs.pd, addrs.pt], Aligned a
  small : ∀ a ∈ [addrs.pml4, addrs.pdpt, addrs.pd, addrs.pt], a.toNat < 2 ^ 52
  distinct : [addrs.pml4, addrs.pdpt, addrs.pd, addrs.pt].Nodup

/-- What of the processor decides which bits of a leaf entry are reserved. -/
structure Cpu where
  /-- The width of a physical address, at most 52. -/
  maxPhyAddr : Nat
  /-- `EFER.NXE`. -/
  nxe : Bool

/-- No reserved bit of a leaf entry is set. -/
def ReservedClear (cpu : Cpu) (entry : Word) : Prop :=
  (∀ i, cpu.maxPhyAddr ≤ i → i < 52 → entry.getLsbD i = false) ∧
    (cpu.nxe = false → entry.getLsbD 63 = false)

/-- Every address below `MAX_PAGES` is mapped to itself, present and writable. -/
def IdentityMapped (cpu : Cpu) (addrs : TableAddrs) (t : PageTables)
    (rest : Word → Word) : Prop :=
  ∀ v : Word, v.toNat < maxPages →
    ∃ leaf, translate addrs t rest v = some (leaf, v) ∧ flags leaf = 0x03 ∧
      ReservedClear cpu leaf

/-- The `MAX_PAGES` bytes at `hhdmOffset` are mapped to those at `kernelAddr`. -/
def KernelMapped (addrs : TableAddrs) (t : PageTables) (rest : Word → Word)
    (hhdmOffset kernelAddr : Word) : Prop :=
  ∀ off, off < maxPages → ∃ leaf,
    translate addrs t rest (offset hhdmOffset off) =
      some (leaf, offset kernelAddr off)

/-! ## Entries -/

theorem entryAt_of_get {t : Arr entries Word} {i : Nat} {w : Word}
    (h : t.get i = .ok w) : entryAt t i = w := by
  rw [entryAt, h]
  rfl

theorem or_three_toNat {a : Word} (ha : Aligned a) :
    (a ||| 0x03).toNat = a.toNat + 3 := by
  have hdiv : a.toNat = 2 ^ 12 * (a.toNat / 4096) := by
    unfold Aligned pageSize at ha
    omega
  have h3 : (0x03 : Word).toNat = 3 := rfl
  rw [BitVec.toNat_or, h3, hdiv, ← Nat.two_pow_add_eq_or_of_lt (by decide)]

/-- An entry made of a page address and two flags points to the page. -/
theorem frame_or_three {a : Word} (ha : Aligned a) (hsmall : a.toNat < 2 ^ 52) :
    frame (a ||| 0x03) = a := by
  refine BitVec.eq_of_toNat_eq ?_
  rw [frame, or_three_toNat ha, BitVec.toNat_ofNat]
  unfold Aligned pageSize at ha
  omega

theorem present_or_three (a : Word) : present (a ||| 0x03) = true := by
  simp [present]

/-! ## Reading the tables in memory -/

theorem tableOffset_lt {i : Nat} (hi : i < entries) : 8 * i < pageSize := by
  unfold entries at hi
  unfold pageSize
  omega

theorem inRange_table {p : Word} {i : Nat} (hi : i < entries) :
    InRange p pageSize (offset p (8 * i)) := by
  have := tableOffset_lt hi
  unfold pageSize at *
  exact (inRange_offset (by omega)).mpr this

theorem table_index {p : Word} {i : Nat} (hi : i < entries) :
    (offset p (8 * i) - p).toNat / 8 = i := by
  unfold entries at hi
  rw [offset_sub_toNat p (by omega)]
  omega

section Tables

variable {addrs : TableAddrs} (t : PageTables) (rest : Word → Word)

theorem physWords_pml4 {i : Nat} (hi : i < entries) :
    physWords addrs t rest (offset addrs.pml4 (8 * i)) = entryAt t.pml4 i := by
  rw [physWords, if_pos (inRange_table hi), table_index hi]

/-- An entry of one table is not in another. -/
theorem TableAddrs.Valid.not_inRange (hv : addrs.Valid) {p q : Word}
    (hp : p ∈ [addrs.pml4, addrs.pdpt, addrs.pd, addrs.pt])
    (hq : q ∈ [addrs.pml4, addrs.pdpt, addrs.pd, addrs.pt]) (hpq : p ≠ q) {i : Nat}
    (hi : i < entries) : ¬ InRange q pageSize (offset p (8 * i)) :=
  pages_disjoint (hv.aligned p hp) (hv.aligned q hq) hpq (inRange_table hi)

/-- The four addresses are distinct. -/
theorem TableAddrs.Valid.ne (hv : addrs.Valid) :
    (addrs.pdpt ≠ addrs.pml4 ∧ addrs.pd ≠ addrs.pml4 ∧ addrs.pt ≠ addrs.pml4) ∧
      (addrs.pd ≠ addrs.pdpt ∧ addrs.pt ≠ addrs.pdpt) ∧ addrs.pt ≠ addrs.pd := by
  have hne := hv.distinct
  simp only [List.nodup_cons, List.mem_cons, List.not_mem_nil, or_false, not_or] at hne
  obtain ⟨⟨h1, h2, h3⟩, ⟨h4, h5⟩, h6, -⟩ := hne
  exact ⟨⟨Ne.symm h1, Ne.symm h2, Ne.symm h3⟩, ⟨Ne.symm h4, Ne.symm h5⟩, Ne.symm h6⟩

theorem physWords_pdpt (hv : addrs.Valid) {i : Nat} (hi : i < entries) :
    physWords addrs t rest (offset addrs.pdpt (8 * i)) = entryAt t.pdpt i := by
  obtain ⟨⟨hpml4, -, -⟩, -⟩ := hv.ne
  rw [physWords, if_neg (hv.not_inRange (by simp) (by simp) hpml4 hi),
    if_pos (inRange_table hi), table_index hi]

theorem physWords_pd (hv : addrs.Valid) {i : Nat} (hi : i < entries) :
    physWords addrs t rest (offset addrs.pd (8 * i)) = entryAt t.pd i := by
  obtain ⟨⟨-, hpml4, -⟩, ⟨hpdpt, -⟩, -⟩ := hv.ne
  rw [physWords, if_neg (hv.not_inRange (by simp) (by simp) hpml4 hi),
    if_neg (hv.not_inRange (by simp) (by simp) hpdpt hi),
    if_pos (inRange_table hi), table_index hi]

theorem physWords_pt (hv : addrs.Valid) {i : Nat} (hi : i < entries) :
    physWords addrs t rest (offset addrs.pt (8 * i)) = entryAt t.pt i := by
  obtain ⟨⟨-, -, hpml4⟩, ⟨-, hpdpt⟩, hpd⟩ := hv.ne
  rw [physWords, if_neg (hv.not_inRange (by simp) (by simp) hpml4 hi),
    if_neg (hv.not_inRange (by simp) (by simp) hpdpt hi),
    if_neg (hv.not_inRange (by simp) (by simp) hpd hi),
    if_pos (inRange_table hi), table_index hi]

end Tables

/-- In the first 2 MiB the upper levels use entry 0. -/
theorem tableIndex_eq_zero {v : Word} (hv : v.toNat < 2 ^ 21) {level : Nat}
    (hl : 1 ≤ level) : tableIndex v level = 0 := by
  have hpow : 2 ^ 21 ≤ 2 ^ (12 + 9 * level) :=
    Nat.pow_le_pow_right (by decide) (by omega)
  rw [tableIndex, Nat.div_eq_of_lt (Nat.lt_of_lt_of_le hv hpow), Nat.zero_mod]

/-- One level up, through a present entry. -/
theorem walk_succ {phys : Word → Word} {v table next : Word} {level : Nat}
    (hpres : present next = true)
    (hentry : phys (offset table (8 * tableIndex v (level + 1))) = next) :
    walk phys v (level + 1) table = walk phys v level (frame next) := by
  rw [walk, hentry]
  exact if_pos hpres

/-- After `load_pages` the walk of a low address ends in the static leaf table. -/
theorem translate_low {addrs : TableAddrs} (hv : addrs.Valid)
    {hhdmOffset kernelAddr : Word} {t t' : PageTables}
    (hload : loadPages addrs hhdmOffset kernelAddr t = .ok t')
    (rest : Word → Word) {v : Word} (hlow : v.toNat < 2 ^ 21) :
    translate addrs t' rest v =
      walk (physWords addrs t' rest) v 0 addrs.pt := by
  obtain ⟨t₁, hrun, hpml4, hpdpt, hpd, -⟩ :=
    loadPages_ok addrs hhdmOffset kernelAddr t
  rw [hload] at hrun
  cases hrun
  have h0 : 0 < entries := by decide
  have hal := hv.aligned
  have hsm := hv.small
  simp only [List.mem_cons, List.not_mem_nil, or_false, forall_eq_or_imp,
    forall_eq] at hal hsm
  -- one upper level: entry 0 is present and points to the next table
  have hstep : ∀ {level : Nat} {table next : Word} {tbl : Arr entries Word}
      {old : Arr entries Word}, Aligned next → next.toNat < 2 ^ 52 →
      tbl = old.put 0 (next ||| 0x03) →
      physWords addrs t' rest (offset table (8 * 0)) = entryAt tbl 0 →
      walk (physWords addrs t' rest) v (level + 1) table =
        walk (physWords addrs t' rest) v level next := by
    intro level table next tbl old hnal hnsm htbl hphys
    have hnext : entryAt tbl 0 = next ||| 0x03 :=
      entryAt_of_get (by rw [htbl, Arr.get_put_self _ h0])
    have hidx := tableIndex_eq_zero hlow (Nat.le_add_left 1 level)
    rw [walk_succ (present_or_three next) (by rw [hidx, hphys, hnext]),
      frame_or_three hnal hnsm]
  rw [translate, hstep hal.2.1 hsm.2.1 hpml4 (physWords_pml4 t' rest h0),
    hstep hal.2.2.1 hsm.2.2.1 hpdpt (physWords_pdpt t' rest hv h0),
    hstep hal.2.2.2 hsm.2.2.2 hpd (physWords_pd t' rest hv h0)]

/-- The leaf entry and the address that a successful walk of a low address
yields. -/
theorem translate_low_eq_some {addrs : TableAddrs} (hv : addrs.Valid)
    {hhdmOffset kernelAddr : Word} {t t' : PageTables}
    (hload : loadPages addrs hhdmOffset kernelAddr t = .ok t')
    {rest : Word → Word} {v leaf a : Word} (hlow : v.toNat < 2 ^ 21)
    (h : translate addrs t' rest v = some (leaf, a)) :
    leaf = entryAt t'.pt (v.toNat / 2 ^ 12) ∧
      a = offset (frame leaf) (v.toNat % 2 ^ 12) := by
  have hidx : tableIndex v 0 = v.toNat / 2 ^ 12 := by
    unfold tableIndex
    omega
  have hlt : tableIndex v 0 < entries := by
    unfold entries
    omega
  rw [translate_low hv hload rest hlow, walk, physWords_pt t' rest hv hlt,
    hidx] at h
  split at h
  · cases h
    exact ⟨rfl, rfl⟩
  · cases h

/-! ## The identity mapping -/

/-- Entry 0 of the leaf table is overwritten by the kernel loop. -/
theorem leaf_zero {addrs : TableAddrs} {hhdmOffset kernelAddr : Word}
    {t t' : PageTables}
    (hload : loadPages addrs hhdmOffset kernelAddr t = .ok t') :
    entryAt t'.pt 0 = (hhdmOffset + BitVec.ofNat 64 (maxPages - 1)) ||| 1 := by
  obtain ⟨t₁, hrun, -, -, -, hpt⟩ := loadPages_ok addrs hhdmOffset kernelAddr t
  rw [hload] at hrun
  cases hrun
  exact entryAt_of_get (hpt 0)

/-- Entry 1, when no offset of the kernel loop selects it, holds the last byte
address of page 1 with the flags or-ed in. -/
theorem leaf_one {addrs : TableAddrs} {hhdmOffset kernelAddr : Word}
    {t t' : PageTables}
    (hload : loadPages addrs hhdmOffset kernelAddr t = .ok t')
    (hslot : ∀ off, off < maxPages → slot hhdmOffset off ≠ 1) :
    entryAt t'.pt 1 = 0x1FFF := by
  obtain ⟨t₁, hrun, -, -, -, hpt⟩ := loadPages_ok addrs hhdmOffset kernelAddr t
  rw [hload] at hrun
  cases hrun
  have hnone : kernelEntry hhdmOffset kernelAddr maxPages 1 = none := by
    rw [kernelEntry, if_neg (by decide), lastOff_eq_none.mpr hslot]
    rfl
  have hid : identityEntry maxPages 1 = some 0x1FFF := by decide
  have h1 := hpt 1
  rw [hnone, hid] at h1
  exact entryAt_of_get h1

/-- Page 0 is mapped to itself with the flags 3 only when the last address of the
higher-half window is 2 or 3 modulo `2^52`. -/
theorem window_of_page_zero {w : Word} (hframe : frame (w ||| 1) = 0)
    (hflags : flags (w ||| 1) = 0x03) :
    w.toNat % 2 ^ 52 = 2 ∨ w.toNat % 2 ^ 52 = 3 := by
  have h1 : (1 : Word).toNat = 1 := rfl
  have hlow : w.toNat % 2 ^ 12 ||| 1 = 3 := by
    rw [flags, BitVec.toNat_or, h1, Nat.or_mod_two_pow] at hflags
    exact hflags
  have hhigh : w.toNat / 2 ^ 12 % 2 ^ 40 = 0 := by
    have hz := congrArg BitVec.toNat hframe
    rw [frame, BitVec.toNat_ofNat, BitVec.toNat_or, h1, Nat.or_div_two_pow] at hz
    have hor : w.toNat / 2 ^ 12 ||| 1 / 2 ^ 12 = w.toNat / 2 ^ 12 := Nat.or_zero _
    rw [hor] at hz
    have h0 : (0 : Word).toNat = 0 := rfl
    omega
  have hle : w.toNat % 2 ^ 12 ≤ 3 := hlow ▸ Nat.left_le_or
  have hcase : w.toNat % 2 ^ 12 = 2 ∨ w.toNat % 2 ^ 12 = 3 := by
    generalize w.toNat % 2 ^ 12 = r at hlow hle
    interval_cases r <;> simp_all
  omega

/-- `load_pages` never establishes the identity mapping. If page 0 came out right,
the window would end just above a multiple of `2^52`, so that the kernel loop
would leave entry 1 to the identity loop, whose flags are `0xFFF`. -/
theorem not_identityMapped {addrs : TableAddrs} (hv : addrs.Valid) (cpu : Cpu)
    {hhdmOffset kernelAddr : Word} {t t' : PageTables}
    (hload : loadPages addrs hhdmOffset kernelAddr t = .ok t')
    (rest : Word → Word) : ¬ IdentityMapped cpu addrs t' rest := by
  intro hmap
  obtain ⟨leaf₀, hwalk₀, hflags₀, -⟩ := hmap 0 (by decide)
  obtain ⟨hleaf₀, hframe₀⟩ := translate_low_eq_some hv hload (by decide) hwalk₀
  have hentry₀ : leaf₀ =
      (hhdmOffset + BitVec.ofNat 64 (maxPages - 1)) ||| 1 :=
    hleaf₀.trans (leaf_zero hload)
  have hframe : frame leaf₀ = 0 := by
    have hz : (0 : Word).toNat % 2 ^ 12 = 0 := rfl
    rw [hz, offset_zero] at hframe₀
    exact hframe₀.symm
  rw [hentry₀] at hframe hflags₀
  -- so the window ends at 2 or 3, and none of its offsets selects entry 1
  have hwin := window_of_page_zero hframe hflags₀
  have hslot : ∀ off, off < maxPages → slot hhdmOffset off ≠ 1 := by
    intro off hoff
    rw [BitVec.toNat_add, BitVec.toNat_ofNat] at hwin
    unfold slot pageSize
    unfold maxPages at hoff hwin
    omega
  -- the entry of page 1 is then the one of the identity loop
  obtain ⟨leaf₁, hwalk₁, hflags₁, -⟩ := hmap 4096 (by decide)
  obtain ⟨hleaf₁, -⟩ := translate_low_eq_some hv hload (by decide) hwalk₁
  have hentry₁ : leaf₁ = 0x1FFF := hleaf₁.trans (leaf_one hload hslot)
  rw [hentry₁] at hflags₁
  exact absurd hflags₁ (by decide)

/-! ### An example: the usual higher-half addresses -/

/-- Four consecutive pages for the static tables. -/
def sampleAddrs : TableAddrs := ⟨0x1000, 0x2000, 0x3000, 0x4000⟩

theorem sampleAddrs_valid : sampleAddrs.Valid where
  aligned := by simp [sampleAddrs, Aligned, pageSize]
  small := by simp [sampleAddrs]
  distinct := by decide

/-- **The identity mapping is never established**, whatever the higher-half
offset, the kernel address and the content of the tables before. -/
theorem loadPages_not_identityMapped {addrs : TableAddrs} (hv : addrs.Valid)
    (cpu : Cpu) (hhdmOffset kernelAddr : Word) (t : PageTables)
    (rest : Word → Word) :
    ∃ t', loadPages addrs hhdmOffset kernelAddr t = .ok t' ∧
      ¬ IdentityMapped cpu addrs t' rest := by
  obtain ⟨t', hload, -⟩ := loadPages_ok addrs hhdmOffset kernelAddr t
  exact ⟨t', hload, not_identityMapped hv cpu hload rest⟩

theorem loadPages_not_identityMapped_sample :
    ∃ t', loadPages sampleAddrs 0xFFFF800000000000 0xFFFFFFFF80000000 .zeroed =
        .ok t' ∧ ¬ IdentityMapped ⟨48, true⟩ sampleAddrs t' fun _ => 0 :=
  loadPages_not_identityMapped sampleAddrs_valid ⟨48, true⟩ 0xFFFF800000000000
    0xFFFFFFFF80000000 .zeroed fun _ => 0

/-- At the usual higher-half offset, address 0 is mapped elsewhere: the walk ends
in the entry that the kernel loop wrote last. -/
theorem identityMapped_fails_at_zero :
    ∃ t', loadPages sampleAddrs 0xFFFF800000000000 0xFFFFFFFF80000000 .zeroed =
        .ok t' ∧
      (∀ leaf, translate sampleAddrs t' (fun _ => 0) 0 ≠ some (leaf, 0)) ∧
      ¬ IdentityMapped ⟨48, true⟩ sampleAddrs t' fun _ => 0 := by
  obtain ⟨t', hload, -⟩ :=
    loadPages_ok sampleAddrs 0xFFFF800000000000 0xFFFFFFFF80000000 .zeroed
  have hne : ∀ leaf, translate sampleAddrs t' (fun _ => 0) 0 ≠ some (leaf, 0) := by
    intro leaf h
    obtain ⟨rfl, hframe⟩ :=
      translate_low_eq_some sampleAddrs_valid hload (by decide) h
    have hzero : entryAt t'.pt ((0 : Word).toNat / 2 ^ 12) = 0xFFFF80000007FFFF :=
      leaf_zero hload
    rw [hzero] at hframe
    exact absurd hframe (by decide)
  refine ⟨t', hload, hne, fun hmap => ?_⟩
  obtain ⟨leaf, h, -⟩ := hmap 0 (by decide)
  exact hne leaf h

/-! ## The kernel mapping -/

/-- An address of the upper canonical half selects an entry of the upper half of
`pml4`. -/
theorem tableIndex_of_higherHalf {v : Word}
    (hhigh : 0xFFFF800000000000 ≤ v.toNat) :
    256 ≤ tableIndex v 3 ∧ tableIndex v 3 < entries := by
  have := v.isLt
  unfold tableIndex entries
  omega

/-- The walk of a higher-half address stops at once: `load_pages` fills only
entry 0 of `pml4`. -/
theorem translate_of_higherHalf {addrs : TableAddrs}
    {hhdmOffset kernelAddr : Word} {t' : PageTables}
    (hload : loadPages addrs hhdmOffset kernelAddr .zeroed = .ok t')
    (rest : Word → Word) {v : Word} (hhigh : 0xFFFF800000000000 ≤ v.toNat) :
    translate addrs t' rest v = none := by
  obtain ⟨t₁, hrun, hpml4, -⟩ :=
    loadPages_ok addrs hhdmOffset kernelAddr .zeroed
  rw [hload] at hrun
  cases hrun
  obtain ⟨hge, hlt⟩ := tableIndex_of_higherHalf hhigh
  have hentry : entryAt t'.pml4 (tableIndex v 3) = 0 := by
    refine entryAt_of_get ?_
    rw [hpml4, Arr.get_put_of_ne _ (by omega)]
    exact Arr.get_const hlt 0
  rw [translate, walk, physWords_pml4 t' rest hlt, hentry]
  exact if_neg (by decide)

theorem not_kernelMapped {addrs : TableAddrs} {hhdmOffset kernelAddr : Word}
    {t' : PageTables}
    (hload : loadPages addrs hhdmOffset kernelAddr .zeroed = .ok t')
    (rest : Word → Word) (hhigh : 0xFFFF800000000000 ≤ hhdmOffset.toNat) :
    ¬ KernelMapped addrs t' rest hhdmOffset kernelAddr := by
  intro hmap
  obtain ⟨leaf, h⟩ := hmap 0 (by decide)
  rw [offset_zero, translate_of_higherHalf hload rest hhigh] at h
  cases h

/-- **The kernel mapping is never established**: for every canonical higher-half
offset the walk fails at the first level. -/
theorem loadPages_not_kernelMapped (addrs : TableAddrs)
    (hhdmOffset kernelAddr : Word)
    (hhigh : 0xFFFF800000000000 ≤ hhdmOffset.toNat) (rest : Word → Word) :
    ∃ t', loadPages addrs hhdmOffset kernelAddr .zeroed = .ok t' ∧
      ¬ KernelMapped addrs t' rest hhdmOffset kernelAddr := by
  obtain ⟨t', hload, -⟩ := loadPages_ok addrs hhdmOffset kernelAddr .zeroed
  exact ⟨t', hload, not_kernelMapped hload rest hhigh⟩

theorem loadPages_not_kernelMapped_sample :
    ∃ t', loadPages sampleAddrs 0xFFFF800000000000 0x200000 .zeroed = .ok t' ∧
      ¬ KernelMapped sampleAddrs t' (fun _ => 0) 0xFFFF800000000000 0x200000 :=
  loadPages_not_kernelMapped sampleAddrs 0xFFFF800000000000 0x200000 (by decide)
    fun _ => 0

/-- A page-aligned offset and a page-aligned kernel address below `2^52` for
which the first byte of the window is not mapped at all. -/
theorem kernelMapped_fails_at_hhdm :
    ∃ t', loadPages sampleAddrs 0xFFFF800000000000 0x200000 .zeroed = .ok t' ∧
      translate sampleAddrs t' (fun _ => 0) 0xFFFF800000000000 = none ∧
      ¬ KernelMapped sampleAddrs t' (fun _ => 0) 0xFFFF800000000000 0x200000 := by
  obtain ⟨t', hload, -⟩ :=
    loadPages_ok sampleAddrs 0xFFFF800000000000 0x200000 .zeroed
  exact ⟨t', hload, translate_of_higherHalf hload _ (by decide),
    not_kernelMapped hload _ (by decide)⟩

end KptrOS
