import KptrOS.Lib.Pool
import KptrOS.Lib.Runs
import KptrOS.Mem.BitmapInit

/-!
# The allocator refines a pool of pages

Clients of the allocator see a pool: the pages that `bitmap_init` found, in map
order, and the set of those that are live. The bitmap words, the address table
and the two linear searches are its implementation.

- `Pmm.Refines`: how the static variables represent a pool.
- `allocPage_refines`, `freePage_refines`: the two calls are `Pool.alloc` and
  `Pool.free`, with their effect on memory.
- `PageCall.step_spec`: everything a call of a client does.
- `pageSimulation`: every run is a run of the pool.
- `allocator_refines_pool`: the statement for every run after `bitmap_init`.
-/

namespace KptrOS

open CSem

/-! ## Calls -/

/-- What a client of the allocator does: the two calls, and a byte written to a
page that it owns. -/
inductive PageCall where
  /-- `alloc_page(&p)` with `p = addr` before the call. -/
  | alloc (addr : Word)
  /-- `free_page(addr)`. -/
  | free (addr : Word)
  /-- `*(uint8_t *)addr = byte`. -/
  | store (addr : Word) (byte : Byte)

/-- One call, with the value that `alloc_page` leaves in `*addr`. -/
def PageCall.step : PageCall → Kernel → Exec (Option Word × Kernel)
  | .alloc addr, k => do
    let r ← allocPage addr k
    return (some r.1, r.2)
  | .free addr, k => do
    let k ← freePage addr k
    return (none, k)
  | .store addr byte, k =>
    return (none, { k with mem := Function.update k.mem addr byte })

/-- What the call does to the pool. -/
def PageCall.op : PageCall → Pool.Op Word
  | .alloc _ => .alloc
  | .free addr => .free addr
  | .store _ _ => .skip

/-- The call on the pool. -/
def PageCall.abstractStep (c : PageCall) (P : Pool Word) : Option Word × Pool Word :=
  match c with
  | .alloc addr => (some (P.lowest.getD addr), P.alloc)
  | .free addr => (none, P.free addr)
  | .store _ _ => (none, P)

/-- What the call does to memory. -/
def PageCall.effect (c : PageCall) (P : Pool Word) (m : Memory) : Memory :=
  match c with
  | .alloc _ => m
  | .free addr => if addr ∈ P.items then (memset m addr 0 pageSize).2 else m
  | .store addr byte => Function.update m addr byte

theorem PageCall.op_eq_free {c : PageCall} {addr : Word} :
    c.op = .free addr ↔ c = .free addr := by
  cases c <;> simp [PageCall.op]

theorem PageCall.abstractStep_snd (c : PageCall) (P : Pool Word) :
    (c.abstractStep P).2 = P.apply c.op := by
  cases c <;> rfl

/-- A run on the pool applies the operations of its calls. -/
theorem trace_abstractStep_snd (calls : List PageCall) (P : Pool Word) :
    (trace PageCall.abstractStep calls P).2 = P.applyAll (calls.map PageCall.op) := by
  rw [trace_snd_eq_foldl PageCall.abstractStep_snd, Pool.applyAll, List.foldl_map]

/-! ## Representation -/

/-- The static variables represent the pool: the address table lists its items,
and the bit of an item tells whether it is live. -/
structure Pmm.Refines (s : Pmm) (P : Pool Word) : Prop extends s.Tracks P.items where
  bits : ∀ i a, P.items[i]? = some a → bitAt s.bitmap i = decide (a ∈ P.live)

theorem Pmm.Fresh.refines {s : Pmm} {pages : List Word} (h : s.Fresh pages)
    (hnodup : pages.Nodup) : s.Refines (.fresh pages hnodup) where
  toTracks := h.toTracks
  bits := fun i a ha => by
    obtain ⟨hi, -⟩ := List.getElem?_eq_some_iff.mp ha
    rw [h.clear i hi]
    exact (decide_eq_false (Finset.notMem_empty a)).symm

theorem Pmm.Tracks.get_getElem {s : Pmm} {pages : List Word} (h : s.Tracks pages)
    {i : Nat} (hi : i < pages.length) : s.pageAddrs.get i = .ok pages[i] :=
  h.addrs i _ (List.getElem?_eq_getElem hi)

theorem Pmm.Refines.bit_getElem {s : Pmm} {P : Pool Word} (h : s.Refines P) {i : Nat}
    (hi : i < P.items.length) : bitAt s.bitmap i = decide (P.items[i] ∈ P.live) :=
  h.bits i _ (List.getElem?_eq_getElem hi)

/-- A property of the table entry of an item, by its index or by its page. -/
theorem Pmm.Tracks.exists_index_iff {s : Pmm} {pages : List Word} (h : s.Tracks pages)
    {addr : Word} {p : Nat → Prop} :
    (∃ i, i < s.totalPages ∧ s.pageAddrs.get i = .ok addr ∧ p i) ↔
      ∃ i, pages[i]? = some addr ∧ p i := by
  constructor
  · rintro ⟨i, hi, hget, hp⟩
    have hi' : i < pages.length := h.total ▸ hi
    rw [h.get_getElem hi'] at hget
    cases hget
    exact ⟨i, List.getElem?_eq_getElem hi', hp⟩
  · rintro ⟨i, hi, hp⟩
    obtain ⟨hlt, -⟩ := List.getElem?_eq_some_iff.mp hi
    exact ⟨i, h.total ▸ hlt, h.addrs i addr hi, hp⟩

theorem Pmm.Tracks.tracked_iff {s : Pmm} {pages : List Word} (h : s.Tracks pages)
    {addr : Word} : s.Tracked addr ↔ addr ∈ pages := by
  rw [List.mem_iff_getElem?]
  simpa [Pmm.Tracked] using h.exists_index_iff (p := fun _ => True)

theorem Pmm.Refines.live_iff {s : Pmm} {P : Pool Word} (h : s.Refines P) {addr : Word} :
    s.Live addr ↔ addr ∈ P.live := by
  rw [Pmm.Live, h.exists_index_iff]
  constructor
  · rintro ⟨i, hi, hbit⟩
    rwa [h.bits i addr hi, decide_eq_true_eq] at hbit
  · intro hlive
    obtain ⟨i, hi⟩ := List.mem_iff_getElem?.mp (P.live_sub addr hlive)
    exact ⟨i, hi, (h.bits i addr hi).trans (decide_eq_true hlive)⟩

theorem Pmm.Refines.free_iff {s : Pmm} {P : Pool Word} (h : s.Refines P) {addr : Word} :
    s.Free addr ↔ addr ∈ P.available := by
  rw [Pmm.Free, h.exists_index_iff, Pool.mem_available]
  constructor
  · rintro ⟨i, hi, hbit⟩
    rw [h.bits i addr hi, decide_eq_false_iff_not] at hbit
    exact ⟨List.mem_of_getElem? hi, hbit⟩
  · rintro ⟨hmem, hdead⟩
    obtain ⟨i, hi⟩ := List.mem_iff_getElem?.mp hmem
    exact ⟨i, hi, (h.bits i addr hi).trans (decide_eq_false hdead)⟩

theorem Pmm.Refines.lowestFree_iff {s : Pmm} {P : Pool Word} (h : s.Refines P)
    {addr : Word} : s.LowestFree addr ↔ P.lowest = some addr := by
  rw [Pmm.LowestFree, h.exists_index_iff]
  constructor
  · rintro ⟨i, hi, hbit, hmin⟩
    obtain ⟨hlt, rfl⟩ := List.getElem?_eq_some_iff.mp hi
    rw [h.bit_getElem hlt, decide_eq_false_iff_not] at hbit
    refine Pool.lowest_eq_getElem hlt hbit fun j hj => ?_
    have hset := hmin j hj
    rwa [h.bit_getElem (hj.trans hlt), decide_eq_true_eq] at hset
  · intro hlowest
    obtain ⟨-, i, hi, rfl, hmin⟩ := List.find?_eq_some_iff_getElem.mp hlowest
    refine ⟨i, List.getElem?_eq_getElem hi, ?_, fun j hj => ?_⟩
    · exact (h.bit_getElem hi).trans (decide_eq_false (Pool.lowest_not_live hlowest))
    · rw [h.bit_getElem (hj.trans hi)]
      simpa using hmin j hj

/-- `alloc_page` takes the lowest page that is not live and touches nothing but
the bitmap; with every page live it does nothing. -/
theorem allocPage_refines {k : Kernel} {P : Pool Word} (h : k.pmm.Refines P) :
    (∃ page bitmap', P.lowest = some page ∧
        Pmm.Refines { k.pmm with bitmap := bitmap' } P.alloc ∧
        ∀ addr, allocPage addr k = .ok (page, { k with pmm.bitmap := bitmap' })) ∨
      (P.lowest = none ∧ ∀ addr, allocPage addr k = .ok (addr, k)) := by
  rcases allocPage_cases h.inBounds with
    ⟨i, page, bitmap', hi, hclear, hmin, hpage, hset, hrun⟩ | ⟨hfull, hrun⟩
  · left
    have hi' : i < P.items.length := h.total ▸ hi
    rw [h.bit_getElem hi', decide_eq_false_iff_not] at hclear
    have hlowest : P.lowest = some P.items[i] := by
      refine Pool.lowest_eq_getElem hi' hclear fun j hj => ?_
      have hbit := hmin j hj
      rwa [h.bit_getElem (hj.trans hi'), decide_eq_true_eq] at hbit
    have hitem : page = P.items[i] := by
      rw [h.get_getElem hi'] at hpage
      exact (Except.ok.inj hpage).symm
    refine ⟨page, bitmap', hitem ▸ hlowest, ⟨⟨h.total, h.bound, h.addrs⟩, ?_⟩, hrun⟩
    -- the bit of the page taken, and of every other page
    intro j a ha
    obtain ⟨hj, rfl⟩ := List.getElem?_eq_some_iff.mp ha
    rw [bitAt_of_setBit (Nat.lt_of_lt_of_le hi h.inBounds) hset, h.bit_getElem hj,
      Pool.alloc_live_of_some hlowest, Bool.eq_iff_iff]
    simp only [Bool.or_eq_true, decide_eq_true_eq, Finset.mem_insert, Pool.alloc_items]
    rw [P.nodup.getElem_inj_iff]
    exact Or.comm
  · right
    -- every bit is set, hence every item is live
    refine ⟨Pool.lowest_eq_none_iff.mpr (Finset.Subset.antisymm ?_ ?_), hrun⟩
    · exact fun a ha => List.mem_toFinset.mpr (P.live_sub a ha)
    · intro a ha
      obtain ⟨i, hi, rfl⟩ := List.getElem_of_mem (List.mem_toFinset.mp ha)
      have hbit := hfull i (h.total ▸ hi)
      rwa [h.bit_getElem hi, decide_eq_true_eq] at hbit

/-- `free_page` zeroes a page of the pool and gives it back; on any other address
it does nothing. -/
theorem freePage_refines {k : Kernel} {P : Pool Word} (h : k.pmm.Refines P)
    (addr : Word) :
    (∃ bitmap', addr ∈ P.items ∧
        Pmm.Refines { k.pmm with bitmap := bitmap' } (P.free addr) ∧
        freePage addr k = .ok { k with
          mem := (memset k.mem addr 0 pageSize).2, pmm.bitmap := bitmap' }) ∨
      (addr ∉ P.items ∧ freePage addr k = .ok k) := by
  rcases freePage_cases h.inBounds addr with
    ⟨i, bitmap', hi, hhit, -, hbits, hrun⟩ | ⟨hmiss, hrun⟩
  · left
    have hi' : i < P.items.length := h.total ▸ hi
    have hitem : addr = P.items[i] := by
      rw [h.get_getElem hi'] at hhit
      exact (Except.ok.inj hhit).symm
    refine ⟨bitmap', hitem ▸ List.getElem_mem hi',
      ⟨⟨h.total, h.bound, h.addrs⟩, ?_⟩, hrun⟩
    -- no other index tracks the address, so no other bit had to be cleared
    intro j a ha
    obtain ⟨hj, rfl⟩ := List.getElem?_eq_some_iff.mp ha
    rw [hbits, h.bit_getElem hj, Pool.free_live, hitem, Bool.eq_iff_iff]
    simp only [Bool.and_eq_true, Bool.not_eq_true', decide_eq_false_iff_not,
      decide_eq_true_eq, Finset.mem_erase, ne_eq, Pool.free_items]
    rw [P.nodup.getElem_inj_iff]
    exact and_comm
  · right
    refine ⟨fun ha => ?_, hrun⟩
    obtain ⟨i, hi, rfl⟩ := List.getElem_of_mem ha
    exact hmiss i (h.total ▸ hi) (h.get_getElem hi)

/-! ## Runs -/

/-- Everything a call does: it succeeds, returns what the pool says, keeps the
representation, and changes memory as `PageCall.effect` tells. -/
theorem PageCall.step_spec {k : Kernel} {P : Pool Word} (h : k.pmm.Refines P)
    (c : PageCall) :
    ∃ s', Pmm.Refines s' (c.abstractStep P).2 ∧
      c.step k = .ok ((c.abstractStep P).1,
        { k with pmm := s', mem := c.effect P k.mem }) := by
  cases c with
  | alloc addr =>
    rcases allocPage_refines h with
      ⟨page, bitmap', hlowest, href, hrun⟩ | ⟨hlowest, hrun⟩
    · refine ⟨_, href, ?_⟩
      rw [PageCall.step, hrun, PageCall.abstractStep, hlowest]
      rfl
    · refine ⟨k.pmm, ?_, ?_⟩
      · show k.pmm.Refines P.alloc
        rwa [Pool.alloc_of_none hlowest]
      · rw [PageCall.step, hrun, PageCall.abstractStep, hlowest]
        rfl
  | free addr =>
    rcases freePage_refines h addr with
      ⟨bitmap', hmem, href, hrun⟩ | ⟨hmiss, hrun⟩
    · refine ⟨_, href, ?_⟩
      rw [PageCall.step, hrun, PageCall.effect, if_pos hmem]
      rfl
    · refine ⟨k.pmm, ?_, ?_⟩
      · show k.pmm.Refines (P.free addr)
        rwa [Pool.free_of_not_live (Pool.not_live_of_not_mem hmiss)]
      · rw [PageCall.step, hrun, PageCall.effect, if_neg hmiss]
        rfl
  | store addr byte => exact ⟨k.pmm, h, rfl⟩

/-- The allocator simulates the pool. -/
theorem pageSimulation :
    Simulation PageCall.step PageCall.abstractStep
      fun (k : Kernel) P => k.pmm.Refines P where
  step_ok := by
    intro c k P h
    obtain ⟨s', href, hstep⟩ := PageCall.step_spec h c
    exact ⟨_, hstep, href⟩

/-- After `bitmap_init` on a map that the bootloader provides, the allocator
represents the pool of its pages, none of them live. -/
theorem bitmapInit_refines (boot : Boot) (k : Kernel) (hmap : WellFormed boot.memmap) :
    ∃ k', bitmapInit boot k = .ok k' ∧ k'.mem = k.mem ∧
      k'.pmm.Refines (.fresh (trackedPages boot.memmap) (trackedPages_nodup hmap)) := by
  obtain ⟨s, tables, hfresh, -, hinit⟩ := bitmapInit_ok boot k
  exact ⟨_, hinit, rfl, hfresh.refines (trackedPages_nodup hmap)⟩

/-- `alloc_page` hands out `page`, whatever `*addr` held before. -/
def HandsOut (k : Kernel) (page : Word) : Prop :=
  ∀ addr, ∃ k', allocPage addr k = .ok (page, k')

/-- With every page live, the result is the old value of `*addr`, whatever it is. -/
theorem not_handsOut_of_full {k : Kernel} {page : Word}
    (hfull : ∀ addr, allocPage addr k = .ok (addr, k)) : ¬ HandsOut k page := by
  intro hout
  obtain ⟨_, hk'⟩ := hout (page + 1)
  rw [hfull] at hk'
  have heq : page + 1 = page := congrArg Prod.fst (Except.ok.inj hk')
  bv_omega

/-- A page is handed out exactly when it is the lowest that is not live. -/
theorem handsOut_iff {k : Kernel} {P : Pool Word} (h : k.pmm.Refines P) {page : Word} :
    HandsOut k page ↔ P.lowest = some page := by
  rcases allocPage_refines h with ⟨p, bitmap', hlowest, -, hrun⟩ | ⟨hlowest, hrun⟩
  · rw [hlowest]
    constructor
    · intro hout
      obtain ⟨k', hk'⟩ := hout 0
      rw [hrun] at hk'
      cases hk'
      rfl
    · rintro ⟨⟩ addr
      exact ⟨_, hrun addr⟩
  · rw [hlowest]
    exact ⟨fun hout => absurd hout (not_handsOut_of_full hrun), fun hnone => by cases hnone⟩

/-- The bits that are set below `total_pages` are as many as the live pages. -/
theorem countP_bitAt {s : Pmm} {P : Pool Word} (h : s.Refines P) :
    (List.range s.totalPages).countP (bitAt s.bitmap) = P.live.card := by
  rw [h.total]
  exact Pool.countP_range_bits h.bits

/-- With every page live `alloc_page` leaves everything alone, and only then. -/
theorem allocPage_unchanged_iff {k : Kernel} {P : Pool Word} (h : k.pmm.Refines P)
    (addr : Word) :
    allocPage addr k = .ok (addr, k) ↔ P.live = P.items.toFinset := by
  rw [← Pool.lowest_eq_none_iff]
  rcases allocPage_refines h with ⟨p, bitmap', hlowest, href, hrun⟩ | ⟨hlowest, hrun⟩
  · rw [hrun, hlowest]
    refine ⟨fun hsame => ?_, fun hnone => by cases hnone⟩
    -- the bit of the page taken was clear, and is set afterwards
    have hk : { k with pmm.bitmap := bitmap' } = k :=
      congrArg Prod.snd (Except.ok.inj hsame)
    have hbitmap : bitmap' = k.pmm.bitmap :=
      congrArg (fun k : Kernel => k.pmm.bitmap) hk
    rw [hbitmap] at href
    obtain ⟨i, hi⟩ := List.mem_iff_getElem?.mp (Pool.lowest_mem hlowest)
    have hafter := href.bits i p hi
    rw [h.bits i p hi, decide_eq_decide, Pool.alloc_live_of_some hlowest] at hafter
    exact absurd (hafter.mpr (Finset.mem_insert_self p P.live))
      (Pool.lowest_not_live hlowest)
  · exact ⟨fun _ => hlowest, fun _ => hrun addr⟩

theorem freePage_of_not_mem {k : Kernel} {P : Pool Word} (h : k.pmm.Refines P)
    {addr : Word} (haddr : addr ∉ P.items) : freePage addr k = .ok k := by
  rcases freePage_refines h addr with ⟨_, hmem, -, -⟩ | ⟨-, hrun⟩
  · exact absurd hmem haddr
  · exact hrun

/-- A page handed out is not handed out again before it is freed. -/
theorem not_handsOut_again {k k' : Kernel} {P : Pool Word} (h : k.pmm.Refines P)
    {page addr : Word} (hout : HandsOut k page) {later : List PageCall}
    {outs : List (Option Word)} (hkept : .free page ∉ later)
    (hrun : run PageCall.step (.alloc addr :: later) k = .ok (outs, k')) :
    ¬ HandsOut k' page := by
  obtain ⟨-, href⟩ := pageSimulation.run_eq h hrun
  rw [trace_abstractStep_snd] at href
  intro hagain
  have hfirst := (handsOut_iff h).mp hout
  have hsecond := (handsOut_iff href).mp hagain
  have hops : Pool.Op.free page ∉ later.map PageCall.op := by
    rw [List.mem_map]
    rintro ⟨c, hc, hop⟩
    exact hkept (PageCall.op_eq_free.mp hop ▸ hc)
  exact Pool.lowest_applyAll_ne hfirst hops hsecond rfl

/-! ## The allocator is a pool -/

/-- **The allocator refines a pool.** After `bitmap_init`, every list of calls runs
without a fault, returns what the pool of tracked pages returns, and ends in a
state that represents the pool's. There `alloc_page` leaves everything unchanged
exactly when every page is live, `free_page` ignores every address that is not
tracked, as many bits are set as pages are live, and no page that is handed out is
handed out again before it is passed to `free_page`. -/
theorem allocator_refines_pool (boot : Boot) (k₀ : Kernel)
    (hmap : WellFormed boot.memmap) :
    ∃ k₁ P₀, bitmapInit boot k₀ = .ok k₁ ∧ P₀.items = trackedPages boot.memmap ∧
      P₀.live = ∅ ∧ k₁.pmm.Refines P₀ ∧
      ∀ calls : List PageCall, ∃ k,
        run PageCall.step calls k₁ =
          .ok ((trace PageCall.abstractStep calls P₀).1, k) ∧
        let P := (trace PageCall.abstractStep calls P₀).2
        k.pmm.Refines P ∧
        (∀ page, HandsOut k page ↔ P.lowest = some page) ∧
        (∀ addr, allocPage addr k = .ok (addr, k) ↔ P.live = P.items.toFinset) ∧
        (∀ addr, addr ∉ P.items → freePage addr k = .ok k) ∧
        (List.range k.pmm.totalPages).countP (bitAt k.pmm.bitmap) = P.live.card ∧
        ∀ page addr later outs k', HandsOut k page →
          .free page ∉ later →
          run PageCall.step (.alloc addr :: later) k = .ok (outs, k') →
          ¬ HandsOut k' page := by
  obtain ⟨k₁, hinit, -, href⟩ := bitmapInit_refines boot k₀ hmap
  refine ⟨k₁, _, hinit, rfl, rfl, href, fun calls => ?_⟩
  obtain ⟨k, hrun, hk⟩ := pageSimulation.run calls href
  exact ⟨k, hrun, hk, fun page => handsOut_iff hk, allocPage_unchanged_iff hk,
    fun addr => freePage_of_not_mem hk, countP_bitAt hk,
    fun page addr later outs k' hout hkept => not_handsOut_again hk hout hkept⟩

/-- Two usable pages and a reserved one. -/
def sampleBoot : Boot where
  memmap := [⟨0x1000, 0x2000, memmapUsable⟩, ⟨0x3000, 0x1000, 1⟩]
  hhdmOffset := 0xFFFF800000000000
  kernelAddr := 0xFFFFFFFF80000000
  tableAddrs := ⟨0x100000, 0x101000, 0x102000, 0x103000⟩

theorem sampleBoot_wellFormed : WellFormed sampleBoot.memmap where
  bounded := by decide
  disjoint := by
    simp [sampleBoot, memmapUsable]

/-- The pool of the sample map. -/
def samplePool : Pool Word := .fresh [0x1000, 0x2000] (by decide)

theorem sampleBoot_refines (k₀ : Kernel) :
    ∃ k₁, bitmapInit sampleBoot k₀ = .ok k₁ ∧ k₁.mem = k₀.mem ∧
      k₁.pmm.Refines samplePool := by
  obtain ⟨k₁, hinit, hmem, href⟩ := bitmapInit_refines sampleBoot k₀ sampleBoot_wellFormed
  have hpool : samplePool =
      .fresh (trackedPages sampleBoot.memmap) (trackedPages_nodup sampleBoot_wellFormed) :=
    Pool.ext_of_live (by decide) rfl
  exact ⟨k₁, hinit, hmem, hpool ▸ href⟩

theorem allocator_refines_pool_sample :
    ∃ k₁ k, bitmapInit sampleBoot (.loaded fun _ => 0) = .ok k₁ ∧
      run PageCall.step [.alloc 7, .alloc 7, .alloc 7, .free 0x1000, .alloc 7] k₁ =
        .ok ([some 0x1000, some 0x2000, some 7, none, some 0x1000], k) := by
  obtain ⟨k₁, P₀, hinit, hitems, hlive, -, hall⟩ :=
    allocator_refines_pool sampleBoot (.loaded fun _ => 0) sampleBoot_wellFormed
  obtain ⟨k, hrun, -⟩ :=
    hall [.alloc 7, .alloc 7, .alloc 7, .free 0x1000, .alloc 7]
  have hP₀ : P₀ = samplePool := Pool.ext_of_live (hitems.trans (by decide)) hlive
  refine ⟨k₁, k, hinit, hrun.trans ?_⟩
  rw [hP₀]
  rfl

end KptrOS
