import KptrOS.Lib.CSem
import KptrOS.Machine.Memory
import KptrOS.Mem.Bitmap
import KptrOS.Mem.Paging
import KptrOS.Serial.Serial

/-!
# The physical page allocator (`kern/mem/pmm.c`)

The state of the kernel as far as memory management sees it, and the three
entry points of the allocator.

- `allocPage`, `freePage`, `bitmapInit`: the source's functions. The `len`
  argument of the first two is overwritten with `PAGE_SIZE` before it is read,
  and is left out.
- `allocPage_cases`, `freePage_cases`: everything a call can do, at the level
  of bitmap indices and without any assumption on the tracked addresses.
-/

namespace KptrOS

open CSem

/-- `LIMINE_MEMMAP_USABLE`. -/
def memmapUsable : Word := 0

/-- `struct limine_memmap_entry`. -/
structure MemmapEntry where
  base : Word
  length : Word
  type : Word
deriving DecidableEq

/-- What the bootloader and the linker provide: the memory map, the higher-half
offset, the address of the kernel file and those of the static tables. -/
structure Boot where
  memmap : List MemmapEntry
  hhdmOffset : Word
  kernelAddr : Word
  tableAddrs : TableAddrs

/-- The static variables of the allocator. -/
structure Pmm where
  bitmap : Bitmap
  pageAddrs : Arr maxPages Word
  totalPages : Nat

/-- The state of the kernel: the allocator's variables, the memory they describe,
the static page tables and the serial console. The kernel's own variables are
not part of `mem`: no tracked page lies over the kernel image. -/
structure Kernel where
  pmm : Pmm
  mem : Memory
  tables : PageTables
  serial : Com1

/-- The kernel as it is loaded: the static variables are zero, except
`total_pages`. -/
def Kernel.loaded (mem : Memory) : Kernel where
  pmm := ⟨.const _ 0, .const _ 0, maxPages⟩
  mem := mem
  tables := .zeroed
  serial := []

/-! ## Allocation -/

/-- `alloc_page(&p)` with `p = addr` before the call: the value of `p` after it,
and the state. -/
def allocPage (addr : Word) (k : Kernel) : Exec (Word × Kernel) := do
  let free ← forFirst (fun index => do return !(← testBit k.pmm.bitmap index))
    k.pmm.totalPages 0
  match free with
  | some index =>
    let bitmap ← setBit k.pmm.bitmap index
    let page ← k.pmm.pageAddrs.get index
    return (page, { k with pmm.bitmap := bitmap })
  | none => return (addr, k)

/-- `free_page(addr)`. -/
def freePage (addr : Word) (k : Kernel) : Exec Kernel := do
  let hit ← forFirst (fun index => do return (← k.pmm.pageAddrs.get index) == addr)
    k.pmm.totalPages 0
  match hit with
  | some index =>
    let mem := (memset k.mem addr 0 pageSize).2
    let bitmap ← clearBit k.pmm.bitmap index
    return { k with mem := mem, pmm.bitmap := bitmap }
  | none => return k

/-! ## Initialisation -/

/-- `~(PAGE_SIZE - 1)`, an `int`, widened to 64 bits. -/
def pageMask : Word := (~~~(4096#32 - 1#32)).signExtend 64

/-- `(region_start + PAGE_SIZE - 1) & ~(PAGE_SIZE - 1)`. -/
def pageStart (entry : MemmapEntry) : Word := (entry.base + 4096 - 1) &&& pageMask

/-- `region_end & ~(PAGE_SIZE - 1)`. -/
def pageEnd (entry : MemmapEntry) : Word := (entry.base + entry.length) &&& pageMask

/-- Body of the usable pass: append a page while there is room. -/
def appendPage (addr : Word) (s : Pmm) : Exec Pmm :=
  if s.totalPages < maxPages then do
    let pageAddrs ← s.pageAddrs.set s.totalPages addr
    let bitmap ← clearBit s.bitmap s.totalPages
    return { bitmap, pageAddrs, totalPages := s.totalPages + 1 }
  else return s

/-- Body of the non-usable pass. The decrement wraps as `size_t` does. -/
def withdrawPage (addr : Word) (s : Pmm) : Exec Pmm :=
  if s.totalPages > maxPages then do
    let pageAddrs ← s.pageAddrs.set s.totalPages addr
    let bitmap ← setBit s.bitmap s.totalPages
    return { bitmap, pageAddrs, totalPages := (s.totalPages + 2 ^ 64 - 1) % 2 ^ 64 }
  else return s

/-- One entry in the first pass of `bitmap_init`. A 64-bit counter that has not
left its loop after `2 ^ 64` steps never does. -/
def usablePass (s : Pmm) (entry : MemmapEntry) : Exec Pmm :=
  if entry.type = memmapUsable then
    forLoop (· < pageEnd entry) (· + 4096) appendPage (2 ^ 64) (pageStart entry) s
  else return s

/-- One entry in the second pass of `bitmap_init`. -/
def reservedPass (s : Pmm) (entry : MemmapEntry) : Exec Pmm :=
  if entry.type ≠ memmapUsable then
    forLoop (pageEnd entry < ·) (· - 4096) withdrawPage (2 ^ 64) (pageStart entry) s
  else return s

/-- `bitmap_init`. -/
def bitmapInit (boot : Boot) (k : Kernel) : Exec Kernel := do
  let s ← boot.memmap.foldlM usablePass { k.pmm with totalPages := 0 }
  let s ← boot.memmap.foldlM reservedPass s
  let tables ← loadPages boot.tableAddrs boot.hhdmOffset boot.kernelAddr k.tables
  return { k with pmm := s, tables := tables }

/-! ## The pages of a state -/

/-- `addr` is in the address table. -/
def Pmm.Tracked (s : Pmm) (addr : Word) : Prop :=
  ∃ i, i < s.totalPages ∧ s.pageAddrs.get i = .ok addr

/-- `addr` is tracked, with its bit set. -/
def Pmm.Live (s : Pmm) (addr : Word) : Prop :=
  ∃ i, i < s.totalPages ∧ s.pageAddrs.get i = .ok addr ∧ bitAt s.bitmap i = true

/-- `addr` is tracked, with its bit clear. -/
def Pmm.Free (s : Pmm) (addr : Word) : Prop :=
  ∃ i, i < s.totalPages ∧ s.pageAddrs.get i = .ok addr ∧ bitAt s.bitmap i = false

/-- `addr` is the page of the first clear bit. -/
def Pmm.LowestFree (s : Pmm) (addr : Word) : Prop :=
  ∃ i, i < s.totalPages ∧ s.pageAddrs.get i = .ok addr ∧ bitAt s.bitmap i = false ∧
    ∀ j, j < i → bitAt s.bitmap j = true

/-- There is only one first clear bit. -/
theorem Pmm.LowestFree.unique {s : Pmm} {a b : Word} (ha : s.LowestFree a)
    (hb : s.LowestFree b) : a = b := by
  obtain ⟨i, -, hpage, hclear, hbefore⟩ := ha
  obtain ⟨j, -, hpage', hclear', hbefore'⟩ := hb
  rcases Nat.lt_trichotomy i j with hij | rfl | hij
  · exact absurd (hbefore' i hij) (by rw [hclear]; exact Bool.false_ne_true)
  · exact Except.ok.inj (hpage.symm.trans hpage')
  · exact absurd (hbefore j hij) (by rw [hclear']; exact Bool.false_ne_true)

/-! ## What a call can do -/

/-- The variables are in order: no index below `total_pages` is out of bounds. -/
def Pmm.InBounds (s : Pmm) : Prop := s.totalPages ≤ maxPages

/-- `alloc_page` takes the first clear bit, or does nothing when there is none. -/
theorem allocPage_cases {k : Kernel} (hk : k.pmm.InBounds) :
    (∃ i page bitmap', i < k.pmm.totalPages ∧ bitAt k.pmm.bitmap i = false ∧
        (∀ j, j < i → bitAt k.pmm.bitmap j = true) ∧
        k.pmm.pageAddrs.get i = .ok page ∧
        setBit k.pmm.bitmap i = .ok bitmap' ∧
        ∀ addr, allocPage addr k =
          .ok (page, { k with pmm.bitmap := bitmap' })) ∨
      ((∀ j, j < k.pmm.totalPages → bitAt k.pmm.bitmap j = true) ∧
        ∀ addr, allocPage addr k = .ok (addr, k)) := by
  have htest : ∀ i, i < k.pmm.totalPages →
      ∃ b, (do return !(← testBit k.pmm.bitmap i) : Exec Bool) = .ok b ∧
        (b = true ↔ bitAt k.pmm.bitmap i = false) := by
    intro i hi
    have hi' : i < maxPages := Nat.lt_of_lt_of_le hi hk
    refine ⟨!bitAt k.pmm.bitmap i, ?_, Iff.of_eq (Bool.not_eq_true' _)⟩
    rw [testBit_of_lt _ hi']
    rfl
  rcases forFirst_zero_spec htest with
    ⟨i, hi, hclear, hmin, hscan⟩ | ⟨hnone, hscan⟩
  · left
    have hi' : i < maxPages := Nat.lt_of_lt_of_le hi hk
    obtain ⟨bitmap', hset, -⟩ := setBit_spec k.pmm.bitmap hi'
    refine ⟨i, k.pmm.pageAddrs.elem ⟨i, hi'⟩, bitmap', hi, hclear,
      fun j hj => ?_, Arr.get_of_lt _ hi', hset, fun addr => ?_⟩
    · simpa using hmin j hj
    · rw [allocPage, hscan, ok_bind]
      dsimp only
      rw [hset, ok_bind, Arr.get_of_lt _ hi', ok_bind]
      rfl
  · right
    refine ⟨fun j hj => ?_, fun addr => ?_⟩
    · simpa using hnone j hj
    · rw [allocPage, hscan, ok_bind]
      rfl

/-- An `alloc_page` that sets the pointer has taken the page of the first clear bit, in
whatever order the variables are. -/
theorem allocPage_lowestFree {addr page : Word} {k k' : Kernel}
    (h : allocPage addr k = .ok (page, k')) (hne : page ≠ addr) :
    k.pmm.LowestFree page ∧
      ∃ bitmap', k' = { k with pmm.bitmap := bitmap' } := by
  rw [allocPage] at h
  obtain ⟨free, hscan, h⟩ := bind_eq_ok.mp h
  cases free with
  | none =>
    cases h
    exact absurd rfl hne
  | some index =>
    obtain ⟨bitmap', -, h⟩ := bind_eq_ok.mp h
    obtain ⟨page', hpage, h⟩ := bind_eq_ok.mp h
    cases h
    obtain ⟨-, hindex, hhit, hbefore⟩ := forFirst_eq_some hscan
    have htest : ∀ {i b}, (do return !(← testBit k.pmm.bitmap i) : Exec Bool) = .ok b →
        bitAt k.pmm.bitmap i = !b := by
      intro i b hi
      obtain ⟨bit, hbit, hi⟩ := bind_eq_ok.mp hi
      cases hi
      rw [bitAt_of_testBit hbit, Bool.not_not]
    rw [Nat.zero_add] at hindex
    exact ⟨⟨index, hindex, hpage, htest hhit, fun j hj => htest (hbefore j (Nat.zero_le j) hj)⟩,
      bitmap', rfl⟩

/-- `free_page` acts on the first index that tracks the address, or does nothing when none
does. -/
theorem freePage_scan {k : Kernel} (hk : k.pmm.InBounds) (addr : Word) :
    (∃ i, i < k.pmm.totalPages ∧ k.pmm.pageAddrs.get i = .ok addr ∧
        (∀ j, j < i → k.pmm.pageAddrs.get j ≠ .ok addr) ∧
        ∀ bitmap', clearBit k.pmm.bitmap i = .ok bitmap' → freePage addr k = .ok { k with
          mem := (memset k.mem addr 0 pageSize).2, pmm.bitmap := bitmap' }) ∨
      ((∀ j, j < k.pmm.totalPages → k.pmm.pageAddrs.get j ≠ .ok addr) ∧
        freePage addr k = .ok k) := by
  have htest : ∀ i, i < k.pmm.totalPages →
      ∃ b, (do return (← k.pmm.pageAddrs.get i) == addr : Exec Bool) = .ok b ∧
        (b = true ↔ k.pmm.pageAddrs.get i = .ok addr) := by
    intro i hi
    have hi' : i < maxPages := Nat.lt_of_lt_of_le hi hk
    refine ⟨k.pmm.pageAddrs.elem ⟨i, hi'⟩ == addr, ?_, ?_⟩
    · rw [Arr.get_of_lt _ hi']
      rfl
    · rw [Arr.get_of_lt _ hi', beq_iff_eq]
      exact ⟨congrArg Except.ok, Except.ok.inj⟩
  rcases forFirst_zero_spec htest with
    ⟨i, hi, hhit, hmin, hscan⟩ | ⟨hnone, hscan⟩
  · refine .inl ⟨i, hi, hhit, hmin, fun bitmap' hclear => ?_⟩
    rw [freePage, hscan, ok_bind]
    dsimp only
    rw [hclear, ok_bind]
    rfl
  · refine .inr ⟨hnone, ?_⟩
    rw [freePage, hscan, ok_bind]
    rfl

/-- `free_page` zeroes the page and clears the bit of the first index that tracks
the address, or does nothing when none does. -/
theorem freePage_cases {k : Kernel} (hk : k.pmm.InBounds) (addr : Word) :
    (∃ i bitmap', i < k.pmm.totalPages ∧ k.pmm.pageAddrs.get i = .ok addr ∧
        (∀ j, j < i → k.pmm.pageAddrs.get j ≠ .ok addr) ∧
        (∀ j, bitAt bitmap' j = (bitAt k.pmm.bitmap j && !decide (j = i))) ∧
        freePage addr k = .ok { k with
          mem := (memset k.mem addr 0 pageSize).2, pmm.bitmap := bitmap' }) ∨
      ((∀ j, j < k.pmm.totalPages → k.pmm.pageAddrs.get j ≠ .ok addr) ∧
        freePage addr k = .ok k) := by
  rcases freePage_scan hk addr with ⟨i, hi, hhit, hmin, hrun⟩ | hmiss
  · obtain ⟨bitmap', hclear, hbits⟩ := clearBit_spec k.pmm.bitmap (Nat.lt_of_lt_of_le hi hk)
    exact .inl ⟨i, bitmap', hi, hhit, hmin, hbits, hrun bitmap' hclear⟩
  · exact .inr hmiss

end KptrOS
