import KptrOS.Acpi.EarlyTable
import KptrOS.Uacpi.TableArray

/-!
# What the table code keeps

Every procedure of `tables.c` keeps one contract, from which the results about its runs follow.

- `Uacpi.Sound`: the allocator represents a pool; the buffer of the array consists of pages that
  are in use; a referenced table that has to be mapped is mapped, in such a page.
- `Uacpi.Evolves`: the kernel has gone through a run of the mapping interface, and the tables
  that were installed before are still there, under the same indices.
- `tablesContract`: the two together; `Uacpi.room` bounds how often a page can be mapped.
- `mapTable_kept`, `unmapTable_kept`, …: the procedures that the others are made of keep it.
-/

namespace KptrOS

open CSem

/-! ## Runs of the kernel -/

/-- The kernel has gone through calls of the mapping interface and stores. -/
def Kernel.Runs (k k' : Kernel) : Prop :=
  ∃ calls outs, run AcpiCall.step calls k = .ok (outs, k') ∧
    ∀ c ∈ calls, c.ThroughMapping ∧ c.LocalUntracked k.pmm

/-- What such a run does to the pool. -/
theorem Kernel.Runs.pool {k k' : Kernel} (h : k.Runs k') {P : Pool Word} (href : k.pmm.Refines P) :
    ∃ ops, k'.pmm.Refines (P.applyAll ops) ∧ ∀ page ∈ P.items, .free page ∉ ops := by
  obtain ⟨calls, outs, hrun, hcalls⟩ := h
  obtain ⟨-, hend⟩ := acpiSimulation.run_eq href hrun
  rw [trace_acpiStep_snd] at hend
  refine ⟨_, hend, fun page hpage hmem => ?_⟩
  obtain ⟨c, hc, hop⟩ := List.mem_map.mp hmem
  exact (hcalls c hc).1.op_ne_free href (hcalls c hc).2 hpage hop

theorem Kernel.Runs.tracked_iff {k k' : Kernel} (h : k.Runs k') {P : Pool Word}
    (href : k.pmm.Refines P) (addr : Word) : k'.pmm.Tracked addr ↔ k.pmm.Tracked addr := by
  obtain ⟨ops, href', -⟩ := h.pool href
  rw [href'.tracked_iff, href.tracked_iff, Pool.applyAll_items]

/-- Pages in use stay in use. -/
theorem Kernel.Runs.live {k k' : Kernel} (h : k.Runs k') {P : Pool Word}
    (href : k.pmm.Refines P) {page : Word} (hlive : k.pmm.Live page) : k'.pmm.Live page := by
  obtain ⟨ops, href', hops⟩ := h.pool href
  have hmem := href.live_iff.mp hlive
  exact href'.live_iff.mpr (Pool.mem_live_applyAll hmem (hops page (P.live_sub page hmem)))

/-- Pages that can be taken afterwards could be taken before. -/
theorem Kernel.Runs.free {k k' : Kernel} (h : k.Runs k') {P : Pool Word}
    (href : k.pmm.Refines P) {page : Word} (hfree : k'.pmm.Free page) : k.pmm.Free page := by
  obtain ⟨ops, href', hops⟩ := h.pool href
  exact href.free_iff.mpr (Pool.applyAll_available_subset hops (href'.free_iff.mp hfree))

theorem Kernel.Runs.refl (k : Kernel) : k.Runs k := ⟨[], [], rfl, nofun⟩

theorem Kernel.Runs.trans {k₁ k₂ k₃ : Kernel} (h : k₁.Runs k₂) (h' : k₂.Runs k₃) {P : Pool Word}
    (href : k₁.pmm.Refines P) : k₁.Runs k₃ := by
  have htracked := h.tracked_iff href
  obtain ⟨calls, outs, hrun, hcalls⟩ := h
  obtain ⟨calls', outs', hrun', hcalls'⟩ := h'
  refine ⟨calls ++ calls', _, run_append_ok.mpr ⟨_, _, _, hrun, hrun', rfl⟩, fun c hc => ?_⟩
  rcases List.mem_append.mp hc with hc | hc
  · exact hcalls c hc
  · refine ⟨(hcalls' c hc).1, ?_⟩
    have hlocal := (hcalls' c hc).2
    cases c with
    | page c => trivial
    | map addr len slot => exact fun hslot => hlocal ((htracked slot).mpr hslot)
    | unmap addr len slot => exact fun hslot => hlocal ((htracked slot).mpr hslot)
    | log level buf hbuf => trivial

/-- One call. -/
theorem Kernel.Runs.of_call {k k' : Kernel} {c : AcpiCall} {o : Option Word}
    (hstep : c.step k = .ok (o, k')) (hmapping : c.ThroughMapping)
    (hlocal : c.LocalUntracked k.pmm) : k.Runs k' := by
  refine ⟨[c], [o], run_cons_ok.mpr ⟨o, k', [], hstep, run_nil k', rfl⟩, fun d hd => ?_⟩
  rw [List.mem_singleton.mp hd]
  exact ⟨hmapping, hlocal⟩

/-- Memory that changes within a range changes by stores. -/
theorem Kernel.Runs.of_stores {k : Kernel} {p : Word} {n : Nat} (hn : n ≤ 2 ^ 64) {m : Memory}
    (h : ∀ a, ¬ InRange p n a → m a = k.mem a) : k.Runs { k with mem := m } := by
  suffices hruns : ∃ calls outs, run AcpiCall.step calls k = .ok (outs, { k with mem := m }) ∧
      ∀ c ∈ calls, ∃ a b, c = .page (.store a b) by
    obtain ⟨calls, outs, hrun, hcalls⟩ := hruns
    refine ⟨calls, outs, hrun, fun c hc => ?_⟩
    obtain ⟨a, b, rfl⟩ := hcalls c hc
    exact ⟨trivial, trivial⟩
  induction n generalizing m with
  | zero =>
    have hm : m = k.mem := funext fun a => h a (Nat.not_lt_zero _)
    rw [hm]
    exact ⟨[], [], rfl, nofun⟩
  | succ n ih =>
    -- the bytes but the last one are stored first
    obtain ⟨calls, outs, hrun, hcalls⟩ := ih (by omega)
      (m := fun a => if InRange p n a then m a else k.mem a) fun a ha => if_neg ha
    have hlast : Function.update (fun a => if InRange p n a then m a else k.mem a) (offset p n)
        (m (offset p n)) = m := by
      funext a
      by_cases ha : a = offset p n
      · rw [ha, Function.update_self]
      · rw [Function.update_of_ne ha]
        by_cases hin : InRange p n a
        · exact if_pos hin
        · rw [if_neg hin]
          refine (h a fun hin' => ?_).symm
          have heq : (a - p).toNat = n :=
            Nat.le_antisymm (Nat.le_of_lt_succ hin') (Nat.le_of_not_lt hin)
          exact ha (by rw [← heq, offset_sub])
    have hstep : AcpiCall.step (.page (.store (offset p n) (m (offset p n))))
        { k with mem := fun a => if InRange p n a then m a else k.mem a } =
          .ok (none, { k with mem := m }) := by
      show Except.ok (none, { k with mem := Function.update _ _ _ }) = _
      rw [hlast]
    refine ⟨calls ++ [.page (.store (offset p n) (m (offset p n)))], outs ++ [none],
      run_append_ok.mpr ⟨outs, _, [none], hrun,
        run_cons_ok.mpr ⟨none, _, [], hstep, run_nil _, rfl⟩, rfl⟩, fun c hc => ?_⟩
    rcases List.mem_append.mp hc with hc | hc
    · exact hcalls c hc
    · exact ⟨_, _, List.mem_singleton.mp hc⟩

/-! ## The contract -/

/-- How often a page can still be taken. -/
def Uacpi.room (s : Uacpi) : Nat :=
  (List.range s.kernel.pmm.totalPages).countP fun i => !bitAt s.kernel.pmm.bitmap i

theorem Uacpi.room_eq {s : Uacpi} {P : Pool Word} (href : s.kernel.pmm.Refines P) :
    s.room = P.available.card := by
  have hlive := countP_bitAt href
  have hsplit := List.length_eq_countP_add_countP (bitAt s.kernel.pmm.bitmap)
    (l := List.range s.kernel.pmm.totalPages)
  have hsub : P.live ⊆ P.items.toFinset := fun a ha => List.mem_toFinset.mpr (P.live_sub a ha)
  rw [List.length_range, hlive, href.total] at hsplit
  rw [Pool.available, Finset.card_sdiff_of_subset hsub, List.toFinset_card_of_nodup P.nodup,
    room, href.total]
  have hnot : (fun i => !bitAt s.kernel.pmm.bitmap i) =
      fun i => decide (¬ bitAt s.kernel.pmm.bitmap i = true) := by
    funext i
    cases bitAt s.kernel.pmm.bitmap i <;> rfl
  rw [hnot]
  omega

/-- The two entries are about the same table, which has not become valid again. -/
structure InstalledTable.Same (t u : InstalledTable) : Prop where
  physAddr : u.physAddr = t.physAddr
  hdr : u.hdr = t.hdr
  origin : u.origin = t.origin
  invalid : t.flags &&& tableInvalid ≠ 0 → u.flags &&& tableInvalid ≠ 0

theorem InstalledTable.Same.refl (t : InstalledTable) : t.Same t := ⟨rfl, rfl, rfl, id⟩

theorem InstalledTable.Same.trans {t u v : InstalledTable} (h : t.Same u) (h' : u.Same v) :
    t.Same v :=
  ⟨h'.physAddr.trans h.physAddr, h'.hdr.trans h.hdr, h'.origin.trans h.origin,
    fun hinvalid => h'.invalid (h.invalid hinvalid)⟩

/-- The address lies in the buffer of the array. -/
def Uacpi.Storage (s : Uacpi) (a : Word) : Prop :=
  ∃ idx, 16 ≤ idx ∧ idx < s.capacity ∧ InRange (s.tables.slot idx) 64 a

/-- The address lies outside the pages of the allocator. -/
def Uacpi.Outside (s : Uacpi) (a : Word) : Prop :=
  ∀ page, s.kernel.pmm.Tracked page → ¬ InRange page pageSize a

/-- The address lies in no page that can be taken, and not in the buffer: the table code does
not write there. -/
def Uacpi.Spared (s : Uacpi) (a : Word) : Prop :=
  (∀ page, s.kernel.pmm.Free page → ¬ InRange page pageSize a) ∧ ¬ s.Storage a

/-- `p` is a page in use, away from the array, with a copy of what lies at `addr` outside the
allocator's pages. -/
structure Uacpi.MapsTo (s : Uacpi) (p addr : Word) : Prop where
  nonzero : p ≠ 0
  live : s.kernel.pmm.Live p
  apart : ∀ a, InRange p pageSize a → ¬ s.Storage a
  copy : ∀ i, i < pageSize → s.Outside (offset addr i) →
    s.kernel.mem (offset p i) = s.kernel.mem (offset addr i)

/-- A table that has to be mapped while it is referenced is mapped. -/
def Uacpi.Mapped (s : Uacpi) (t : InstalledTable) : Prop :=
  t.IsPhysical → t.referenceCount ≠ 0 → s.MapsTo t.ptr t.physAddr

/-- The invariant of the table code. -/
structure Uacpi.Sound (s : Uacpi) : Prop where
  pool : ∃ P : Pool Word, s.kernel.pmm.Refines P ∧ OfPages P
  locals : ∀ i, ¬ s.kernel.pmm.Tracked (s.frames i)
  size_le : s.size ≤ s.capacity
  span : 64 * s.tables.dynamicCapacity ≤ 2 ^ 64
  storage : ∀ a, s.Storage a → ∃ page, s.kernel.pmm.Live page ∧ InRange page pageSize a
  mapped : ∀ idx, idx < s.size → s.Mapped (s.entry idx)

/-- What configures the table code. -/
structure Uacpi.SameSettings (s t : Uacpi) : Prop where
  earlyTableAccess : t.earlyTableAccess = s.earlyTableAccess
  installationHandler : t.installationHandler = s.installationHandler
  flags : t.flags = s.flags
  logLevel : t.logLevel = s.logLevel
  rsdpResponse : t.rsdpResponse = s.rsdpResponse
  frames : t.frames = s.frames
  dynamicStorage : t.tables.dynamicStorage = s.tables.dynamicStorage
  dynamicCapacity : t.tables.dynamicCapacity = s.tables.dynamicCapacity

/-- How the state may change. -/
structure Uacpi.Evolves (s t : Uacpi) : Prop extends s.SameSettings t where
  runs : s.kernel.Runs t.kernel
  frame : ∀ a, s.Spared a → t.kernel.mem a = s.kernel.mem a
  size_le : s.size ≤ t.size
  same : ∀ idx, idx < s.size → (s.entry idx).Same (t.entry idx)

/-- What was installed stays as it is. What is added has no references, except for the entry
`granted`, which has one. -/
structure Uacpi.Grants (s t : Uacpi) (granted : Option Nat) : Prop extends s.Evolves t where
  entry : ∀ idx, idx < s.size → t.entry idx = s.entry idx
  granted_new : ∀ idx ∈ granted, s.size ≤ idx ∧ idx < t.size
  fresh : ∀ idx, s.size ≤ idx → idx < t.size → (t.entry idx).flags &&& tableInvalid = 0 ∧
    (t.entry idx).referenceCount = if granted = some idx then 1 else 0

/-- What is added has no references. -/
abbrev Uacpi.Extends (s t : Uacpi) : Prop := s.Grants t none

theorem Uacpi.SameSettings.refl (s : Uacpi) : s.SameSettings s :=
  ⟨rfl, rfl, rfl, rfl, rfl, rfl, rfl, rfl⟩

theorem Uacpi.SameSettings.trans {s t u : Uacpi} (h : s.SameSettings t) (h' : t.SameSettings u) :
    s.SameSettings u :=
  ⟨h'.1.trans h.1, h'.2.trans h.2, h'.3.trans h.3, h'.4.trans h.4, h'.5.trans h.5,
    h'.6.trans h.6, h'.7.trans h.7, h'.8.trans h.8⟩

theorem Uacpi.SameSettings.capacity {s t : Uacpi} (h : s.SameSettings t) :
    t.capacity = s.capacity := congrArg (16 + ·) h.dynamicCapacity

theorem Uacpi.SameSettings.slot {s t : Uacpi} (h : s.SameSettings t) (idx : Nat) :
    t.tables.slot idx = s.tables.slot idx := by
  rw [TableArray.slot, TableArray.slot, h.dynamicStorage]

theorem Uacpi.SameSettings.storage {s t : Uacpi} (h : s.SameSettings t) (a : Word) :
    t.Storage a ↔ s.Storage a := by
  simp only [Uacpi.Storage, h.capacity, h.slot]

theorem Uacpi.Evolves.refl (s : Uacpi) : s.Evolves s :=
  ⟨.refl s, .refl _, fun _ _ => rfl, Nat.le_refl _, fun _ _ => .refl _⟩

theorem Uacpi.Evolves.spared {s t : Uacpi} (hs : s.Sound) (h : s.Evolves t) {a : Word}
    (ha : s.Spared a) : t.Spared a := by
  obtain ⟨P, href, -⟩ := hs.pool
  exact ⟨fun page hfree => ha.1 page (h.runs.free href hfree),
    fun hstorage => ha.2 ((h.toSameSettings.storage a).mp hstorage)⟩

theorem Uacpi.Evolves.outside_iff {s t : Uacpi} (hs : s.Sound) (h : s.Evolves t) (a : Word) :
    t.Outside a ↔ s.Outside a := by
  obtain ⟨P, href, -⟩ := hs.pool
  exact forall_congr' fun page => imp_congr_left (h.runs.tracked_iff href page)

theorem Uacpi.Evolves.trans {s t u : Uacpi} (hs : s.Sound) (h : s.Evolves t) (h' : t.Evolves u) :
    s.Evolves u := by
  obtain ⟨P, href, -⟩ := hs.pool
  exact ⟨h.toSameSettings.trans h'.toSameSettings, h.runs.trans h'.runs href,
    fun a ha => (h'.frame a (h.spared hs ha)).trans (h.frame a ha), h.size_le.trans h'.size_le,
    fun idx hidx => (h.same idx hidx).trans (h'.same idx (hidx.trans_le h.size_le))⟩

/-- Memory outside the allocator's pages is not written. -/
theorem Uacpi.Sound.spared_of_outside {s : Uacpi} (hs : s.Sound) {a : Word} (ha : s.Outside a) :
    s.Spared a := by
  refine ⟨fun page hfree => ha page ?_, fun hstorage => ?_⟩
  · obtain ⟨i, hi, hpage, -⟩ := hfree
    exact ⟨i, hi, hpage⟩
  · obtain ⟨page, ⟨i, hi, hpage, -⟩, hin⟩ := hs.storage a hstorage
    exact ha page ⟨i, hi, hpage⟩ hin

/-- Nor is a mapped page. -/
theorem Uacpi.MapsTo.spared {s : Uacpi} (hs : s.Sound) {p addr : Word} (h : s.MapsTo p addr)
    {a : Word} (ha : InRange p pageSize a) : s.Spared a := by
  obtain ⟨P, href, hP⟩ := hs.pool
  have hlive := href.live_iff.mp h.live
  refine ⟨fun page hfree => ?_, h.apart a ha⟩
  obtain ⟨hmem, hnot⟩ := Pool.mem_available.mp (href.free_iff.mp hfree)
  refine pages_disjoint (hP p (P.live_sub p hlive)) (hP page hmem) ?_ ha
  rintro rfl
  exact hnot hlive

/-- A mapped page stays what it is. -/
theorem Uacpi.MapsTo.evolve {s t : Uacpi} (hs : s.Sound) (hst : s.Evolves t) {p addr : Word}
    (h : s.MapsTo p addr) : t.MapsTo p addr := by
  obtain ⟨P, href, -⟩ := hs.pool
  refine ⟨h.nonzero, hst.runs.live href h.live,
    fun a ha hstorage => h.apart a ha ((hst.toSameSettings.storage a).mp hstorage),
    fun i hi hout => ?_⟩
  have hout' := (hst.outside_iff hs _).mp hout
  have hin : InRange p pageSize (offset p i) :=
    (inRange_offset (hi.trans (by decide))).mpr hi
  rw [hst.frame _ (h.spared hs hin), hst.frame _ (hs.spared_of_outside hout')]
  exact h.copy i hi hout'

theorem Uacpi.Extends.refl (s : Uacpi) : s.Extends s :=
  ⟨.refl s, fun _ _ => rfl, nofun, fun _ hle hlt => absurd hlt (Nat.not_lt.mpr hle)⟩

/-- Steps in a row, of which one at most grants an entry. -/
theorem Uacpi.Grants.trans {s t u : Uacpi} {g g' : Option Nat} (hs : s.Sound)
    (h : s.Grants t g) (h' : t.Grants u g') (hone : g = none ∨ g' = none) :
    s.Grants u (g <|> g') := by
  refine ⟨h.toEvolves.trans hs h'.toEvolves,
    fun idx hidx => (h'.entry idx (hidx.trans_le h.size_le)).trans (h.entry idx hidx),
    fun idx hidx => ?_, fun idx hle hlt => ?_⟩
  · cases g with
    | none => exact ⟨h.size_le.trans (h'.granted_new idx hidx).1, (h'.granted_new idx hidx).2⟩
    | some j => exact ⟨(h.granted_new idx hidx).1, (h.granted_new idx hidx).2.trans_le h'.size_le⟩
  · by_cases hold : idx < t.size
    · have hnot : g' ≠ some idx := fun hg =>
        absurd (h'.granted_new idx hg).1 (Nat.not_le.mpr hold)
      rw [h'.entry idx hold]
      refine ⟨(h.fresh idx hle hold).1, (h.fresh idx hle hold).2.trans ?_⟩
      cases g with
      | none => exact (if_neg nofun).trans (if_neg hnot).symm
      | some j => rfl
    · refine ⟨(h'.fresh idx (Nat.le_of_not_lt hold) hlt).1,
        (h'.fresh idx (Nat.le_of_not_lt hold) hlt).2.trans ?_⟩
      cases g with
      | none => rfl
      | some j =>
        have hj := (h.granted_new j rfl).2
        have hne : j ≠ idx := fun heq => hold (heq ▸ hj)
        rw [hone.resolve_left nofun, if_neg nofun]
        exact (if_neg fun heq => hne (Option.some.inj heq)).symm

theorem Uacpi.Extends.trans {s t u : Uacpi} (hs : s.Sound) (h : s.Extends t)
    (h' : t.Extends u) : s.Extends u := Uacpi.Grants.trans hs h h' (.inl rfl)

/-- Pages are only taken. -/
theorem Uacpi.Evolves.room_le {s t : Uacpi} (hs : s.Sound) (h : s.Evolves t) :
    t.room ≤ s.room := by
  obtain ⟨P, href, -⟩ := hs.pool
  obtain ⟨ops, href', hops⟩ := h.runs.pool href
  rw [Uacpi.room_eq href, Uacpi.room_eq href']
  exact Finset.card_le_card (Pool.applyAll_available_subset hops)

/-- The contract of the table code: what it installs is added to what is installed. -/
def tablesContract : Contract Uacpi where
  inv := Uacpi.Sound
  step s t := s.Extends t ∧ t.Sound
  refl s hs := ⟨.refl s, hs⟩
  trans _ _ _ hs h h' := ⟨h.1.trans hs h'.1, h'.2⟩
  inv_step _ _ _ h := h.2

/-! ## Entries -/

theorem Uacpi.entry_of_lt (s : Uacpi) {idx : Nat} (h : idx < 16) :
    s.entry idx = s.tables.inlineStorage.elem ⟨idx, h⟩ := dif_pos h

theorem Uacpi.entry_of_le (s : Uacpi) {idx : Nat} (h : 16 ≤ idx) :
    s.entry idx = .load s.kernel.mem (s.tables.slot idx) := dif_neg (Nat.not_lt.mpr h)

/-- An entry depends on the array and on its bytes in memory. -/
theorem Uacpi.entry_congr {s t : Uacpi} {idx : Nat} (htables : t.tables = s.tables)
    (hmem : 16 ≤ idx → ∀ i, i < 64 → t.kernel.mem (offset (s.tables.slot idx) i) =
      s.kernel.mem (offset (s.tables.slot idx) i)) : t.entry idx = s.entry idx := by
  by_cases h : idx < 16
  · rw [Uacpi.entry_of_lt _ h, Uacpi.entry_of_lt _ h, htables]
  · rw [Uacpi.entry_of_le _ (Nat.le_of_not_lt h), Uacpi.entry_of_le _ (Nat.le_of_not_lt h),
      htables]
    exact InstalledTable.load_congr (hmem (Nat.le_of_not_lt h))

/-- Offsets that are 64 bytes apart. -/
theorem not_inRange_offset {p : Word} {a b n : Nat} (ha : a + n ≤ 2 ^ 64) (hb : b < 2 ^ 64)
    (h : b < a ∨ a + n ≤ b) : ¬ InRange (offset p a) n (offset p b) := by
  have hsub : offset p b - offset p a = BitVec.ofNat 64 b - BitVec.ofNat 64 a := by
    rw [offset, offset]
    bv_omega
  rw [InRange, hsub, BitVec.toNat_sub, BitVec.toNat_ofNat, BitVec.toNat_ofNat,
    Nat.mod_eq_of_lt hb]
  rcases Nat.eq_zero_or_pos n with rfl | hn
  · exact Nat.not_lt_zero _
  · rw [Nat.mod_eq_of_lt (by omega : a < 2 ^ 64)]
    omega

/-- A slot shares no byte with another one. -/
theorem TableArray.slot_disjoint {tables : TableArray} (hspan : 64 * tables.dynamicCapacity ≤ 2 ^ 64)
    {idx j : Nat} (hidx : 16 ≤ idx ∧ idx < 16 + tables.dynamicCapacity)
    (hj : 16 ≤ j ∧ j < 16 + tables.dynamicCapacity) (hne : j ≠ idx) {i : Nat} (hi : i < 64) :
    ¬ InRange (tables.slot idx) 64 (offset (tables.slot j) i) := by
  rw [TableArray.slot, TableArray.slot, offset_offset]
  exact not_inRange_offset (by omega) (by omega) (by omega)

theorem Uacpi.setEntry_sameSettings (s : Uacpi) (idx : Nat) (table : InstalledTable) :
    s.SameSettings (s.setEntry idx table) := by
  rw [Uacpi.setEntry]
  split
  · exact ⟨rfl, rfl, rfl, rfl, rfl, rfl, rfl, rfl⟩
  · exact ⟨rfl, rfl, rfl, rfl, rfl, rfl, rfl, rfl⟩

@[simp] theorem Uacpi.size_setEntry (s : Uacpi) (idx : Nat) (table : InstalledTable) :
    (s.setEntry idx table).size = s.size := by
  rw [Uacpi.setEntry]
  split <;> rfl

@[simp] theorem Uacpi.pmm_setEntry (s : Uacpi) (idx : Nat) (table : InstalledTable) :
    (s.setEntry idx table).kernel.pmm = s.kernel.pmm := by
  rw [Uacpi.setEntry]
  split <;> rfl

@[simp] theorem Uacpi.entry_setEntry_self (s : Uacpi) (idx : Nat) (table : InstalledTable) :
    (s.setEntry idx table).entry idx = table := by
  rw [Uacpi.setEntry]
  by_cases h : idx < 16
  · rw [if_pos h, Uacpi.entry_of_lt _ h]
    exact if_pos rfl
  · rw [if_neg h, Uacpi.entry_of_le _ (Nat.le_of_not_lt h)]
    exact InstalledTable.load_store _ _ _

theorem Uacpi.entry_setEntry_of_ne {s : Uacpi} (hspan : 64 * s.tables.dynamicCapacity ≤ 2 ^ 64)
    {idx j : Nat} (hidx : idx < s.capacity) (hj : j < s.capacity) (hne : j ≠ idx)
    (table : InstalledTable) : (s.setEntry idx table).entry j = s.entry j := by
  rw [Uacpi.setEntry]
  by_cases h : idx < 16
  · rw [if_pos h]
    by_cases hj16 : j < 16
    · rw [Uacpi.entry_of_lt _ hj16, Uacpi.entry_of_lt _ hj16]
      exact if_neg hne
    · rw [Uacpi.entry_of_le _ (Nat.le_of_not_lt hj16), Uacpi.entry_of_le _ (Nat.le_of_not_lt hj16)]
      rfl
  · rw [if_neg h]
    refine Uacpi.entry_congr rfl fun hj16 i hi => ?_
    exact InstalledTable.store_of_not_inRange
      (TableArray.slot_disjoint hspan ⟨Nat.le_of_not_lt h, hidx⟩ ⟨hj16, hj⟩ hne hi)

/-- Writing an entry is a run of stores. -/
theorem Uacpi.runs_setEntry (s : Uacpi) (idx : Nat) (table : InstalledTable) :
    s.kernel.Runs (s.setEntry idx table).kernel := by
  rw [Uacpi.setEntry]
  split
  · exact .refl _
  · exact .of_stores (by decide) fun a ha => InstalledTable.store_of_not_inRange ha

/-! ## Steps that keep the contract -/

theorem Uacpi.Mapped.evolve {s t : Uacpi} (hs : s.Sound) (hst : s.Evolves t)
    {table : InstalledTable} (h : s.Mapped table) : t.Mapped table :=
  fun hphysical hcount => (h hphysical hcount).evolve hs hst

/-- The invariant is kept when the tables that are referenced are mapped. -/
theorem Uacpi.Sound.evolve {s t : Uacpi} (hs : s.Sound) (hst : s.Evolves t)
    (hcap : t.size ≤ s.capacity) (hmapped : ∀ idx, idx < t.size → t.Mapped (t.entry idx)) :
    t.Sound := by
  obtain ⟨P, href, hP⟩ := hs.pool
  obtain ⟨ops, href', -⟩ := hst.runs.pool href
  constructor
  · exact ⟨_, href', hP.applyAll ops⟩
  · intro i htracked
    rw [hst.frames] at htracked
    exact hs.locals i ((hst.runs.tracked_iff href _).mp htracked)
  · rw [hst.toSameSettings.capacity]
    exact hcap
  · rw [hst.dynamicCapacity]
    exact hs.span
  · intro a ha
    obtain ⟨page, hlive, hin⟩ := hs.storage a ((hst.toSameSettings.storage a).mp ha)
    exact ⟨page, hst.runs.live href hlive, hin⟩
  · exact hmapped

/-- A step that leaves the installed tables alone. -/
theorem Uacpi.Sound.step {s t : Uacpi} (hs : s.Sound) (hruns : s.kernel.Runs t.kernel)
    (hsettings : s.SameSettings t) (hframe : ∀ a, s.Spared a → t.kernel.mem a = s.kernel.mem a)
    (hsize : t.size = s.size) (hentry : ∀ idx, idx < s.size → t.entry idx = s.entry idx) :
    s.Extends t ∧ t.Sound := by
  have hevolves : s.Evolves t := by
    refine ⟨hsettings, hruns, hframe, hsize.ge, fun idx hidx => ?_⟩
    rw [hentry idx hidx]
    exact .refl _
  refine ⟨⟨hevolves, hentry, nofun, fun idx hle hlt => ?_⟩,
    hs.evolve hevolves (hsize.trans_le hs.size_le) fun idx hidx => ?_⟩
  · rw [hsize] at hlt
    exact absurd hlt (Nat.not_lt.mpr hle)
  rw [hsize] at hidx
  rw [hentry idx hidx]
  exact (hs.mapped idx hidx).evolve hs hevolves

/-- Writing an entry writes to the buffer only. -/
theorem Uacpi.setEntry_frame {s : Uacpi} {idx : Nat} (hidx : idx < s.capacity)
    (table : InstalledTable) {a : Word} (ha : s.Spared a) :
    (s.setEntry idx table).kernel.mem a = s.kernel.mem a := by
  rw [Uacpi.setEntry]
  by_cases h : idx < 16
  · rw [if_pos h]
  · rw [if_neg h]
    exact InstalledTable.store_of_not_inRange fun hin =>
      ha.2 ⟨idx, Nat.le_of_not_lt h, hidx, hin⟩

/-- An entry is written. -/
theorem Uacpi.Sound.setEntry {s : Uacpi} (hs : s.Sound) {idx : Nat} (hidx : idx < s.size)
    {table : InstalledTable} (hsame : (s.entry idx).Same table) (hmapped : s.Mapped table) :
    s.Evolves (s.setEntry idx table) ∧ (s.setEntry idx table).Sound := by
  have hcapacity := hidx.trans_le hs.size_le
  have hentry : ∀ j, j < s.size → j ≠ idx → (s.setEntry idx table).entry j = s.entry j :=
    fun j hj hne => Uacpi.entry_setEntry_of_ne hs.span hcapacity (hj.trans_le hs.size_le) hne table
  have hsize := s.size_setEntry idx table
  have hevolves : s.Evolves (s.setEntry idx table) := by
    refine ⟨s.setEntry_sameSettings idx table, s.runs_setEntry idx table,
      fun a ha => Uacpi.setEntry_frame hcapacity table ha, hsize.ge, fun j hj => ?_⟩
    by_cases hne : j = idx
    · rw [hne, Uacpi.entry_setEntry_self]
      exact hsame
    · rw [hentry j hj hne]
      exact .refl _
  refine ⟨hevolves, hs.evolve hevolves (hsize.trans_le hs.size_le) fun j hj => ?_⟩
  rw [hsize] at hj
  by_cases hne : j = idx
  · rw [hne, Uacpi.entry_setEntry_self]
    exact hmapped.evolve hs hevolves
  · rw [hentry j hj hne]
    exact (hs.mapped j hj).evolve hs hevolves

/-- The state with one more entry, which is still to be written. -/
def Uacpi.grow (s : Uacpi) : Uacpi := { s with tables.sizeIncludingInline := s.size + 1 }

/-- An entry is appended. -/
theorem Uacpi.Sound.push {s : Uacpi} (hs : s.Sound) (hroom : s.size < s.capacity)
    {table : InstalledTable} (hvalid : table.flags &&& tableInvalid = 0)
    (hcount : table.referenceCount = 0) :
    s.Extends (s.grow.setEntry s.size table) ∧ (s.grow.setEntry s.size table).Sound := by
  have hsettings : s.SameSettings s.grow := ⟨rfl, rfl, rfl, rfl, rfl, rfl, rfl, rfl⟩
  have hentry : ∀ j, j < s.size → (s.grow.setEntry s.size table).entry j = s.entry j :=
    fun j hj => Uacpi.entry_setEntry_of_ne (s := s.grow) hs.span hroom (hj.trans hroom)
      (Nat.ne_of_lt hj) table
  have hsize : (s.grow.setEntry s.size table).size = s.size + 1 := s.grow.size_setEntry _ _
  have hevolves : s.Evolves (s.grow.setEntry s.size table) := by
    refine ⟨hsettings.trans (s.grow.setEntry_sameSettings _ _), s.grow.runs_setEntry _ _,
      fun a ha => Uacpi.setEntry_frame (s := s.grow) hroom table ha, ?_, fun j hj => ?_⟩
    · rw [hsize]
      exact Nat.le_succ _
    · rw [hentry j hj]
      exact .refl _
  refine ⟨⟨hevolves, hentry, nofun, fun j hle hj => ?_⟩, hs.evolve hevolves ?_ fun j hj => ?_⟩
  · rw [hsize] at hj
    obtain rfl := Nat.le_antisymm (Nat.le_of_lt_succ hj) hle
    rw [Uacpi.entry_setEntry_self]
    exact ⟨hvalid, hcount⟩
  · rw [hsize]
    exact hroom
  · rw [hsize] at hj
    rcases Nat.lt_succ_iff_lt_or_eq.mp hj with hlt | rfl
    · rw [hentry j hlt]
      exact (hs.mapped j hlt).evolve hs hevolves
    · rw [Uacpi.entry_setEntry_self]
      exact fun _ hne => absurd hcount hne

/-- A new entry gets its first reference. -/
theorem Uacpi.Grants.grant {s t : Uacpi} (hs : s.Sound) (h : s.Extends t) (ht : t.Sound)
    {idx : Nat} (hnew : s.size ≤ idx) (hidx : idx < t.size) {table : InstalledTable}
    (htable : table = { t.entry idx with referenceCount := 1 }) (hmapped : t.Mapped table) :
    s.Grants (t.setEntry idx table) (some idx) ∧ (t.setEntry idx table).Sound := by
  obtain ⟨hevolves, hsound⟩ := ht.setEntry hidx (htable ▸ ⟨rfl, rfl, rfl, id⟩) hmapped
  have hentry : ∀ j, j < t.size → j ≠ idx → (t.setEntry idx table).entry j = t.entry j :=
    fun j hj hne => Uacpi.entry_setEntry_of_ne ht.span (hidx.trans_le ht.size_le)
      (hj.trans_le ht.size_le) hne table
  refine ⟨⟨h.toEvolves.trans hs hevolves, fun j hj => ?_, fun j hj => ?_, fun j hle hj => ?_⟩,
    hsound⟩
  · rw [hentry j (hj.trans_le h.size_le) (Nat.ne_of_lt (hj.trans_le hnew))]
    exact h.entry j hj
  · cases hj
    rw [Uacpi.size_setEntry]
    exact ⟨hnew, hidx⟩
  · rw [Uacpi.size_setEntry] at hj
    obtain ⟨hvalid, hcount⟩ := h.fresh j hle hj
    by_cases hne : j = idx
    · subst hne
      rw [Uacpi.entry_setEntry_self, htable]
      exact ⟨hvalid, (if_pos rfl).symm⟩
    · rw [hentry j hj hne]
      refine ⟨hvalid, hcount.trans ?_⟩
      rw [if_neg nofun, if_neg fun heq => hne (Option.some.inj heq).symm]

/-! ## The procedures below the table code -/

section

variable {s : Uacpi}

/-- A mapping takes the lowest page that is not live, if there is one. -/
theorem mapTable_eq (hs : s.Sound) {P : Pool Word} (href : s.kernel.pmm.Refines P)
    (addr len : Word) :
    ∃ k, k.pmm.Refines P.alloc ∧
      k.mem = (AcpiCall.map addr len (s.frames s.frame)).effect P s.kernel.mem ∧
      s.kernel.Runs k ∧
      mapTable addr len s = .ok (P.lowest.getD 0, { s with kernel := k, frame := s.frame + 1 }) := by
  obtain ⟨pmm', serial', href', hmap⟩ :=
    uacpiKernelMap_refines href addr len (s.frames s.frame)
  refine ⟨_, href', rfl, ?_, by rw [mapTable, hmap]; rfl⟩
  refine .of_call (c := .map addr len (s.frames s.frame)) (o := some (P.lowest.getD 0)) ?_ trivial
    (hs.locals s.frame)
  rw [AcpiCall.step, hmap]
  rfl

/-- A mapping writes to the page that it takes. -/
theorem map_effect_of_not_available {P : Pool Word} {a : Word}
    (ha : ∀ page ∈ P.available, ¬ InRange page pageSize a) (addr len slot : Word) (m : Memory) :
    (AcpiCall.map addr len slot).effect P m a = m a := by
  rw [AcpiCall.effect]
  cases hlowest : P.lowest with
  | none => rfl
  | some p =>
    by_cases hp : p = 0
    · rw [hp]
      rfl
    · rw [Option.getD_some, if_neg hp]
      exact memcpy_of_not_inRange (by decide) (ha p (Pool.lowest_mem_available hlowest))

/-- **A mapping uses up a page.** When it succeeds, the page is in use from then on, and shows
what lies at the address; it succeeds if there is a page, unless the page is at address 0. -/
theorem mapTable_spec (hs : s.Sound) (addr len : Word) :
    Returns (mapTable addr len) s fun p t => (s.Extends t ∧ t.Sound) ∧ t.tables = s.tables ∧
      t.room = s.room - 1 ∧ (p ≠ 0 → 0 < s.room ∧ t.MapsTo p addr) ∧
      (0 < s.room → ¬ s.kernel.pmm.Tracked 0 → p ≠ 0) := by
  obtain ⟨P, href, hP⟩ := hs.pool
  obtain ⟨k, href', hmem, hruns, hrun⟩ := mapTable_eq hs href addr len
  have hframe : ∀ a, s.Spared a → k.mem a = s.kernel.mem a := by
    intro a ha
    rw [hmem]
    exact map_effect_of_not_available (fun page hpage => ha.1 page (href.free_iff.mpr hpage))
      addr len _ _
  have hentry : ∀ idx, idx < s.size →
      Uacpi.entry { s with kernel := k, frame := s.frame + 1 } idx = s.entry idx := by
    intro idx hidx
    refine Uacpi.entry_congr rfl fun h16 i hi => ?_
    obtain ⟨page, hlive, hin⟩ := hs.storage _ ⟨idx, h16, hidx.trans_le hs.size_le,
      (inRange_offset (by omega)).mpr hi⟩
    have hlive' := href.live_iff.mp hlive
    show k.mem _ = _
    rw [hmem]
    refine map_effect_of_not_available (fun p hp => ?_) addr len _ _
    obtain ⟨hmem, hnot⟩ := Pool.mem_available.mp hp
    refine pages_disjoint (hP page (P.live_sub page hlive')) (hP p hmem) ?_ hin
    rintro rfl
    exact hnot hlive'
  obtain ⟨hextends, ht⟩ := hs.step (t := { s with kernel := k, frame := s.frame + 1 }) hruns
    ⟨rfl, rfl, rfl, rfl, rfl, rfl, rfl, rfl⟩ hframe rfl hentry
  have hroom : Uacpi.room { s with kernel := k, frame := s.frame + 1 } = P.alloc.available.card :=
    Uacpi.room_eq href'
  refine .of_eq hrun ⟨⟨hextends, ht⟩, rfl, ?_, fun hp => ?_, fun hpos hzero => ?_⟩
  · rw [hroom, Uacpi.room_eq href, Pool.card_available_alloc]
  · obtain ⟨p, hlowest⟩ : ∃ p, P.lowest = some p := by
      cases hlowest : P.lowest with
      | none =>
        rw [hlowest] at hp
        exact absurd rfl hp
      | some p => exact ⟨p, rfl⟩
    rw [hlowest, Option.getD_some] at hp ⊢
    have havailable := Pool.lowest_mem_available hlowest
    have haligned := hP p (Pool.lowest_mem hlowest)
    refine ⟨?_, hp, ?_, fun a ha hstorage => ?_, fun i hi hout => ?_⟩
    · rw [Uacpi.room_eq href]
      exact Finset.card_pos.mpr ⟨p, havailable⟩
    · refine (Pmm.Refines.live_iff href').mpr ?_
      rw [Pool.alloc_live_of_some hlowest]
      exact Finset.mem_insert_self p P.live
    · obtain ⟨page, hlive, hin⟩ := hs.storage a hstorage
      have hlive' := href.live_iff.mp hlive
      refine pages_disjoint haligned (hP page (P.live_sub page hlive')) ?_ ha hin
      rintro rfl
      exact Pool.lowest_not_live hlowest hlive'
    · have hdisjoint : ¬ InRange p pageSize (offset addr i) :=
        ((hextends.outside_iff hs _).mp hout) p (href.tracked_iff.mpr (Pool.lowest_mem hlowest))
      show k.mem _ = k.mem _
      rw [hmem, AcpiCall.effect, hlowest, Option.getD_some, if_neg hp,
        memcpy_get_of_disjoint hi (by decide) hdisjoint,
        memcpy_of_not_inRange (by decide) hdisjoint]
  · cases hlowest : P.lowest with
    | none =>
      rw [Uacpi.room_eq href, Pool.lowest_eq_none_iff_available.mp hlowest] at hpos
      exact absurd hpos (Nat.lt_irrefl 0)
    | some p =>
      rw [Option.getD_some]
      rintro rfl
      exact hzero (href.tracked_iff.mpr (Pool.lowest_mem hlowest))

/-- The state with another number of calls of the mapping interface behind it. -/
def Uacpi.setFrame (s : Uacpi) (frame : Nat) : Uacpi := { s with frame := frame }

/-- An unmapping does nothing: what it frees is the address of its parameter. -/
theorem unmapTable_eq (hs : s.Sound) (addr len : Word) :
    unmapTable addr len s = .ok ((), s.setFrame (s.frame + 1)) := by
  obtain ⟨P, href, -⟩ := hs.pool
  have hmiss : s.frames s.frame ∉ P.items := fun hmem =>
    hs.locals s.frame (href.tracked_iff.mpr hmem)
  rw [unmapTable, uacpiKernelUnmap, freePage_of_not_mem href hmiss]
  rfl

/-- The state with another serial output. -/
def Uacpi.setSerial (s : Uacpi) (serial : Com1) : Uacpi := { s with kernel.serial := serial }

/-- A message changes nothing but the serial output. -/
theorem uacpiLogLvl_eq (s : Uacpi) (lvl : UacpiLogLevel) (message : Message) {args : List Arg}
    (hsuits : message.Suits args) :
    ∃ serial', uacpiLogLvl lvl message args s = .ok ((), s.setSerial serial') ∧
      s.kernel.Runs (s.setSerial serial').kernel := by
  rw [uacpiLogLvl]
  cases s.shouldLog lvl with
  | false => exact ⟨s.kernel.serial, rfl, .refl _⟩
  | true =>
    obtain ⟨text, -, hlog⟩ := message.log hsuits lvl s.kernel
    refine ⟨_, by rw [if_pos rfl, hlog]; rfl, ?_⟩
    have hnul : ∀ bytes : List Byte, (0 : Byte) ∈ cText bytes ++ [0] := fun bytes =>
      List.mem_append_right _ List.mem_cons_self
    refine .of_call (c := .log lvl (cText (loggedText text) ++ [0]) (hnul _)) (o := none) ?_ trivial
      trivial
    rw [AcpiCall.step, uacpiKernelLog_text lvl (hnul _)]
    have htext : cText (cText (loggedText text) ++ [0]) = cText (loggedText text) := by
      rw [cText_append fun b hb => by simpa using List.mem_takeWhile_imp hb]
    rw [htext]
    rfl

end

/-- The contract while fewer than `n` pages can be taken. -/
def tablesBelow (n : Nat) : Contract Uacpi :=
  tablesContract.below Uacpi.room (fun _ _ hs h => h.1.room_le hs) n

section

variable {n : Nat} {s : Uacpi}

theorem mapTable_kept (addr len : Word) : (tablesBelow n).Kept (mapTable addr len) :=
  fun _ hs => (mapTable_spec hs.1 addr len).mono fun _ _ h => h.1

/-- A step that changes nothing but what the contract does not mention. -/
theorem Uacpi.Sound.idle (hs : s.Sound) {t : Uacpi} (hruns : s.kernel.Runs t.kernel)
    (hmem : t.kernel.mem = s.kernel.mem) (htables : t.tables = s.tables)
    (hsettings : s.SameSettings t) : s.Extends t ∧ t.Sound :=
  hs.step hruns hsettings (fun _ _ => congrFun hmem _)
    (congrArg TableArray.sizeIncludingInline htables) fun _ _ =>
      Uacpi.entry_congr htables fun _ _ _ => congrFun hmem _

theorem Uacpi.Sound.setFrame (hs : s.Sound) (frame : Nat) :
    s.Extends (s.setFrame frame) ∧ (s.setFrame frame).Sound :=
  hs.idle (.refl _) rfl rfl ⟨rfl, rfl, rfl, rfl, rfl, rfl, rfl, rfl⟩

theorem unmapTable_kept (addr len : Word) : (tablesBelow n).Kept (unmapTable addr len) :=
  fun s hs => .of_eq (unmapTable_eq hs.1 addr len) (hs.1.setFrame (s.frame + 1))

/-- Printing changes nothing that the contract mentions. -/
theorem Uacpi.Sound.setSerial (hs : s.Sound) {serial : Com1}
    (hruns : s.kernel.Runs (s.setSerial serial).kernel) :
    s.Extends (s.setSerial serial) ∧ (s.setSerial serial).Sound :=
  hs.idle hruns rfl rfl ⟨rfl, rfl, rfl, rfl, rfl, rfl, rfl, rfl⟩

theorem uacpiLogLvl_kept (lvl : UacpiLogLevel) (message : Message) {args : List Arg}
    (hsuits : message.Suits args) : (tablesBelow n).Kept (uacpiLogLvl lvl message args) := by
  intro s hs
  obtain ⟨serial', hrun, hruns⟩ := uacpiLogLvl_eq s lvl message hsuits
  exact .of_eq hrun (hs.1.setSerial hruns)

theorem loadAt_eq (p : Word) (k : Nat) :
    loadAt p k s = .ok (loadStruct s.kernel.mem p k, s) := rfl

theorem loadAt_kept (p : Word) (k : Nat) : (tablesBelow n).Kept (loadAt p k) := fun _ hs =>
  .of_eq (loadAt_eq p k) ⟨.refl _, hs.1⟩

theorem readTable_eq {idx : Nat} (hidx : idx < s.size) :
    readTable idx s = .ok (s.entry idx, s) := if_neg (Nat.not_le.mpr hidx)

theorem modifyTable_eq {idx : Nat} (hidx : idx < s.size) (f : InstalledTable → InstalledTable) :
    modifyTable idx f s = .ok ((), s.setEntry idx (f (s.entry idx))) :=
  if_neg (Nat.not_le.mpr hidx)

/-- Changes of the static variables that the contract does not mention. -/
theorem modify_kept {f : Uacpi → Uacpi} (h : ∀ s, (f s).kernel = s.kernel ∧
    (f s).tables = s.tables ∧ s.SameSettings (f s)) :
    (tablesBelow n).Kept (modify f : Proc Uacpi PUnit) := by
  intro s hs
  obtain ⟨hkernel, htables, hsettings⟩ := h s
  refine .of_eq (Proc.modify_apply f s) (hs.1.idle ?_ (by rw [hkernel]) htables hsettings)
  rw [hkernel]
  exact .refl _

end

end KptrOS
