import KptrOS.Acpi.Coverage

/-!
# Mappings and the memory they map

`uacpi_kernel_map` returns a copy, so a store through the pointer is not a store to
the physical range, nor to another mapping of it.

- `MapState`: the kernel, the mappings of one physical range, and the last value
  stored to each byte of the range by any way.
- `Coherent`: every way of reading a byte gives the last value stored to it.
- `MapOp.Transparent`: the step does nothing that a copy could not follow.
- `always_coherent_iff`: a run is coherent throughout exactly when all its steps are
  transparent.
-/

namespace KptrOS

open CSem

/-! ## Stores to a mapped range -/

/-- The kernel while a physical range is mapped, any number of times. -/
structure MapState where
  kernel : Kernel
  /-- The pointers returned for the range so far. -/
  mappings : List Word
  /-- The value that was last stored to byte `i` of the range, by any way. -/
  last : Nat → Byte

/-- The addresses that name the range at `addr`: itself, and its mappings. -/
def MapState.views (s : MapState) (addr : Word) : List Word := addr :: s.mappings

/-- The range, before it is mapped. -/
def MapState.unmapped (k : Kernel) (addr : Word) : MapState where
  kernel := k
  mappings := []
  last := fun i => k.mem (offset addr i)

/-- A mapping of the range, or a store to byte `i` of it through one of its names. -/
inductive MapOp where
  | map (slot : Word)
  | store (view : Word) (i : Nat) (byte : Byte)

/-- One operation on the range of `len` bytes at `addr`. -/
def MapOp.step (addr len : Word) : MapOp → MapState → Exec (Option Word × MapState)
  | .map slot, s => do
    let (p, k) ← uacpiKernelMap addr len slot s.kernel
    let mappings := if p = 0 then s.mappings else p :: s.mappings
    return (some p, { s with kernel := k, mappings := mappings })
  | .store view i byte, s =>
    let mem := Function.update s.kernel.mem (offset view i) byte
    return (none,
      { s with kernel.mem := mem, last := Function.update s.last i byte })

/-- A store goes through a name of the range, inside it. -/
def MapOp.Valid (addr len : Word) (op : MapOp) (s : MapState) : Prop :=
  match op with
  | .map _ => True
  | .store view i _ => view ∈ s.views addr ∧ i < len.toNat

/-- A load through any name of the range gives the last value stored. -/
def Coherent (addr len : Word) (s : MapState) : Prop :=
  ∀ view ∈ s.views addr, ∀ i, i < len.toNat →
    s.kernel.mem (offset view i) = s.last i

/-- A store is transparent when every other name of its byte holds the stored value
already, and so does every other byte of the range that it hits. A mapping is when the
page it takes holds none of the range, or only bytes that the copy does not change. -/
def MapOp.Transparent (addr len : Word) (op : MapOp) (s : MapState) : Prop :=
  match op with
  | .map _ =>
    ∀ p, s.kernel.pmm.LowestFree p → p ≠ 0 → ∀ i, i < len.toNat →
      InRange p pageSize (offset addr i) →
      s.kernel.mem (offset addr (offset addr i - p).toNat) =
        s.kernel.mem (offset addr i)
  | .store view i byte =>
    ∀ view' ∈ s.views addr, ∀ j, j < len.toNat →
      ((offset view' j = offset view i ∧ j ≠ i) ∨
        (offset view' j ≠ offset view i ∧ j = i)) →
      s.kernel.mem (offset view' j) = byte

/-! ## One step -/

/-- The mappings are live pages of the pool. -/
def MapState.Wf (s : MapState) : Prop :=
  ∃ P : Pool Word, s.kernel.pmm.Refines P ∧ OfPages P ∧ ∀ p ∈ s.mappings, p ∈ P.live

/-- The state after a mapping. -/
theorem map_step {s : MapState} {P : Pool Word} (h : s.kernel.pmm.Refines P)
    (addr len slot : Word) :
    ∃ k', (MapOp.map slot).step addr len s = .ok (some (P.lowest.getD 0),
        { s with
          kernel := k'
          mappings := if P.lowest.getD 0 = 0 then s.mappings
            else P.lowest.getD 0 :: s.mappings }) ∧
      k'.pmm.Refines P.alloc ∧
      k'.mem = if P.lowest.getD 0 = 0 then s.kernel.mem
        else (memcpy s.kernel.mem (P.lowest.getD 0) addr pageSize).2 := by
  obtain ⟨s', serial', href, hmap⟩ := uacpiKernelMap_refines h addr len slot
  refine ⟨{ s.kernel with
    pmm := s', mem := (AcpiCall.map addr len slot).effect P s.kernel.mem,
    serial := serial' }, ?_, href, rfl⟩
  rw [MapOp.step, hmap]
  rfl

/-- Every operation succeeds. -/
theorem MapOp.step_ok {addr len : Word} (op : MapOp) {s : MapState} (hs : s.Wf) :
    ∃ o s', op.step addr len s = .ok (o, s') := by
  obtain ⟨P, href, -, -⟩ := hs
  cases op with
  | map slot =>
    obtain ⟨k', hstep, -⟩ := map_step href addr len slot
    exact ⟨_, _, hstep⟩
  | store view i byte => exact ⟨_, _, rfl⟩

/-- The mappings stay live. -/
theorem MapOp.step_wf {addr len : Word} {op : MapOp} {s s' : MapState} {o : Option Word}
    (hs : s.Wf) (hstep : op.step addr len s = .ok (o, s')) : s'.Wf := by
  obtain ⟨P, href, hP, hlive⟩ := hs
  cases op with
  | map slot =>
    obtain ⟨k', hspec, href', -⟩ := map_step href addr len slot
    rw [hspec] at hstep
    cases hstep
    refine ⟨P.alloc, href', hP.apply .alloc, fun p hp => ?_⟩
    cases hlowest : P.lowest with
    | none =>
      rw [hlowest] at hp
      exact P.live_subset_alloc (hlive p hp)
    | some q =>
      rw [hlowest, Option.getD_some] at hp
      rw [Pool.alloc_live_of_some hlowest, Finset.mem_insert]
      by_cases hq : q = 0
      · rw [if_pos hq] at hp
        exact .inr (hlive p hp)
      · rw [if_neg hq] at hp
        exact (List.mem_cons.mp hp).imp_right (hlive p)
  | store view i byte =>
    cases hstep
    exact ⟨P, href, hP, hlive⟩

/-- The store changes memory at one address and the last value at one index: the two have to
agree at this name of byte `j`. -/
theorem store_coherent_at {s : MapState} {view view' : Word} {i j : Nat} {byte : Byte}
    (hbyte : s.kernel.mem (offset view' j) = s.last j) :
    Function.update s.kernel.mem (offset view i) byte (offset view' j) =
        Function.update s.last i byte j ↔
      ((offset view' j = offset view i ∧ j ≠ i) ∨
          (offset view' j ≠ offset view i ∧ j = i) →
        s.kernel.mem (offset view' j) = byte) := by
  by_cases haddr : offset view' j = offset view i
  · rw [haddr, Function.update_self]
    by_cases hji : j = i
    · subst hji
      rw [Function.update_self]
      simp
    · rw [Function.update_of_ne hji, ← hbyte, haddr]
      simp [hji, eq_comm]
  · rw [Function.update_of_ne haddr]
    by_cases hji : j = i
    · subst hji
      rw [Function.update_self]
      simp [haddr]
    · rw [Function.update_of_ne hji]
      simp [haddr, hji, hbyte]

/-- A store keeps coherence exactly when it is transparent. -/
theorem store_coherent_iff {addr len : Word} {s : MapState} (hcoh : Coherent addr len s)
    {view : Word} {i : Nat} {byte : Byte} :
    Coherent addr len
        { s with
          kernel.mem := Function.update s.kernel.mem (offset view i) byte
          last := Function.update s.last i byte } ↔
      (MapOp.store view i byte).Transparent addr len s := by
  constructor
  · intro h view' hview' j hj
    exact (store_coherent_at (hcoh view' hview' j hj)).mp (h view' hview' j hj)
  · intro h view' hview' j hj
    exact (store_coherent_at (hcoh view' hview' j hj)).mpr (h view' hview' j hj)

/-- A copy to a page that is not live leaves the live pages alone. -/
theorem memcpy_lowest_of_live {P : Pool Word} (hP : OfPages P) {p view : Word}
    (hlowest : P.lowest = some p) (hlive : view ∈ P.live) (m : Memory) (addr : Word) {i : Nat}
    (hi : i < pageSize) :
    (memcpy m p addr pageSize).2 (offset view i) = m (offset view i) := by
  have hne : view ≠ p := fun h => Pool.lowest_not_live hlowest (h ▸ hlive)
  exact memcpy_of_not_inRange (by decide)
    (pages_disjoint (hP view (P.live_sub view hlive)) (hP p (Pool.lowest_mem hlowest)) hne
      (inRange_first hi))

/-- The names of the range agree after the copy exactly when the copy leaves the range
alone. -/
theorem copy_coherent_iff {addr len p : Word} (hlen : len.toNat ≤ pageSize)
    {s s' : MapState} (hcoh : Coherent addr len s)
    (hmem : s'.kernel.mem = (memcpy s.kernel.mem p addr pageSize).2)
    (hlast : s'.last = s.last) (hviews : s'.mappings = p :: s.mappings)
    (hframe : ∀ view ∈ s.mappings, ∀ i, i < pageSize →
      s'.kernel.mem (offset view i) = s.kernel.mem (offset view i)) :
    Coherent addr len s' ↔ ∀ i, i < len.toNat →
      (memcpy s.kernel.mem p addr pageSize).2 (offset addr i) =
        s.kernel.mem (offset addr i) := by
  have hbefore := hcoh addr List.mem_cons_self
  constructor
  · intro h i hi
    have hafter := h addr List.mem_cons_self i hi
    rwa [hmem, hlast, ← hbefore i hi] at hafter
  · intro hkeep view hview i hi
    rw [hlast]
    rw [MapState.views, hviews] at hview
    -- the range itself, the new mapping, and the older ones
    rcases List.mem_cons.mp hview with rfl | hview
    · rw [hmem, hkeep i hi, hbefore i hi]
    rcases List.mem_cons.mp hview with rfl | hview
    · rw [hmem, memcpy_get_of_keeps (hi.trans_le hlen) (by decide) (hkeep i hi),
        hbefore i hi]
    · rw [hframe view hview i (hi.trans_le hlen)]
      exact hcoh view (List.mem_cons_of_mem addr hview) i hi

/-- A mapping keeps coherence exactly when it is transparent. -/
theorem map_coherent_iff {addr len slot : Word} (hlen : len.toNat ≤ pageSize)
    {s s' : MapState} {o : Option Word} (hs : s.Wf) (hcoh : Coherent addr len s)
    (hstep : (MapOp.map slot).step addr len s = .ok (o, s')) :
    Coherent addr len s' ↔ (MapOp.map slot).Transparent addr len s := by
  obtain ⟨P, href, hP, hlive⟩ := hs
  obtain ⟨k', hspec, -, hmem⟩ := map_step href addr len slot
  rw [hspec] at hstep
  cases hstep
  by_cases hp : P.lowest.getD 0 = 0
  · -- NULL is returned, and nothing is copied
    rw [if_pos hp] at hmem
    refine iff_of_true ?_ fun p hlow hne => ?_
    · intro view hview i hi
      rw [MapState.views, if_pos hp] at hview
      show k'.mem (offset view i) = s.last i
      rw [hmem]
      exact hcoh view hview i hi
    · rw [href.lowestFree_iff.mp hlow] at hp
      exact absurd hp hne
  · rw [if_neg hp] at hmem ⊢
    obtain ⟨p, hlowest⟩ : ∃ p, P.lowest = some p :=
      Option.ne_none_iff_exists'.mp fun hnone => hp (by rw [hnone]; rfl)
    rw [hlowest, Option.getD_some] at hmem hp ⊢
    -- older mappings are other pages
    have hframe : ∀ view ∈ s.mappings, ∀ i, i < pageSize →
        k'.mem (offset view i) = s.kernel.mem (offset view i) := fun view hview i hi => by
      rw [hmem]
      exact memcpy_lowest_of_live hP hlowest (hlive view hview) s.kernel.mem addr hi
    have hcopy : Coherent addr len ⟨k', p :: s.mappings, s.last⟩ ↔ _ :=
      copy_coherent_iff hlen hcoh hmem rfl rfl hframe
    rw [hcopy, memcpy_keeps_source_iff (by decide)]
    constructor
    · intro h q hlow _
      have hq : q = p := Option.some.inj ((href.lowestFree_iff.mp hlow).symm.trans hlowest)
      exact hq ▸ h
    · exact fun h => h p (href.lowestFree_iff.mpr hlowest) hp

/-! ## Runs -/

/-- **When mappings behave as the memory they map.** Whatever is mapped and stored, in
any order: each load through any name of the range gives the last value stored to its
byte, all along the run, exactly when every step of the run is transparent. -/
theorem always_coherent_iff {k : Kernel} (hk : k.pmm.Reachable) {addr len : Word}
    (hlen : len.toNat ≤ pageSize) {ops : List MapOp}
    (hvalid : Along (MapOp.step addr len) (MapOp.Valid addr len) ops (.unmapped k addr)) :
    (∃ outs s', run (MapOp.step addr len) ops (.unmapped k addr) = .ok (outs, s')) ∧
      (Always (MapOp.step addr len) (Coherent addr len) ops (.unmapped k addr) ↔
        Along (MapOp.step addr len) (MapOp.Transparent addr len) ops (.unmapped k addr)) := by
  obtain ⟨P, href, hP⟩ := hk.exists_pool
  have hwf : (MapState.unmapped k addr).Wf :=
    ⟨P, href, hP, fun p hp => absurd hp List.not_mem_nil⟩
  have hstart : Coherent addr len (.unmapped k addr) := by
    intro view hview i _
    obtain rfl := List.mem_singleton.mp hview
    rfl
  have hok : ∀ op s, s.Wf → MapOp.Valid addr len op s →
      ∃ o s', op.step addr len s = .ok (o, s') := fun op s hs _ => op.step_ok hs
  have hkeep : ∀ op s o s', s.Wf → MapOp.Valid addr len op s →
      op.step addr len s = .ok (o, s') → s'.Wf := fun op s o s' hs _ => MapOp.step_wf hs
  refine ⟨run_of_along hok hkeep hvalid hwf,
    always_iff_along hok hkeep (fun op s o s' hs hcoh _ hstep => ?_) hvalid hwf hstart⟩
  cases op with
  | map slot => exact map_coherent_iff hlen hs hcoh hstep
  | store view i byte =>
    cases hstep
    exact store_coherent_iff hcoh

/-- Sixteen device registers are mapped, and register 3 is written with what it holds. -/
theorem always_coherent_iff_sample :
    ∃ k₁, bitmapInit sampleBoot (.loaded fun a => a.setWidth 8) = .ok k₁ ∧
      Always (MapOp.step 0x5000 16) (Coherent 0x5000 16) [.map 1, .store 0x1000 3 3]
        (.unmapped k₁ 0x5000) := by
  obtain ⟨k₁, hinit, hmem₀, href⟩ := sampleBoot_refines (.loaded fun a => a.setWidth 8)
  have hlowest : samplePool.lowest.getD 0 = 0x1000 := by decide
  obtain ⟨k', hmap, -, hmem⟩ := map_step (s := .unmapped k₁ 0x5000) href 0x5000 16 1
  rw [hlowest, if_neg (by decide)] at hmap hmem
  -- the page that is taken lies apart from the registers
  have hapart : ∀ i, i < (16 : Word).toNat → ¬ InRange 0x1000 pageSize (offset 0x5000 i) := by
    decide
  have hregister : k'.mem (offset 0x5000 3) = 3 := by
    rw [hmem, memcpy_of_not_inRange (by decide) (hapart 3 (by decide))]
    show k₁.mem (offset 0x5000 3) = 3
    rw [hmem₀]
    rfl
  have hvalid : Along (MapOp.step 0x5000 16) (MapOp.Valid 0x5000 16) [.map 1, .store 0x1000 3 3]
      (.unmapped k₁ 0x5000) := by
    refine ⟨trivial, fun o s hstep => ⟨?_, fun _ _ _ => trivial⟩⟩
    rw [hmap] at hstep
    cases hstep
    exact ⟨List.mem_cons_of_mem _ List.mem_cons_self, by decide⟩
  refine ⟨k₁, hinit, (always_coherent_iff (bitmapInit_reachable sampleBoot_wellFormed hinit)
    (by decide) hvalid).2.mpr ⟨fun p hlow _ i hi hin => ?_,
      fun o s hstep => ⟨?_, fun _ _ _ => trivial⟩⟩⟩
  · have hp : p = 0x1000 := Option.some.inj ((href.lowestFree_iff.mp hlow).symm.trans (by decide))
    rw [hp] at hin
    exact absurd hin (hapart i hi)
  · rw [hmap] at hstep
    cases hstep
    intro view hview j hj hother
    have hdistinct : ∀ j, j < (16 : Word).toNat → offset 0x5000 j ≠ offset 0x1000 3 ∧
        (offset 0x1000 j = offset 0x1000 3 → j = 3) := by decide
    rcases List.mem_pair.mp hview with rfl | rfl
    · rcases hother with ⟨heq, -⟩ | ⟨-, rfl⟩
      · exact absurd heq (hdistinct j hj).1
      · exact hregister
    · rcases hother with ⟨heq, hne⟩ | ⟨hne, rfl⟩
      · exact absurd ((hdistinct j hj).2 heq) hne
      · exact absurd rfl hne

/-- A register write through the mapping of a device does not reach the device. -/
theorem store_misses_device :
    ∃ k₁ s₁ s₂, bitmapInit sampleBoot (.loaded fun _ => 0) = .ok k₁ ∧
      (MapOp.map 1).step 0x5000 16 (.unmapped k₁ 0x5000) = .ok (some 0x1000, s₁) ∧
      (MapOp.store 0x1000 0 1).Valid 0x5000 16 s₁ ∧
      (MapOp.store 0x1000 0 1).step 0x5000 16 s₁ = .ok (none, s₂) ∧
      s₂.last 0 = 1 ∧ s₂.kernel.mem 0x5000 = 0 ∧ ¬ Coherent 0x5000 16 s₂ := by
  obtain ⟨k₁, hinit, hmem₀, href⟩ := sampleBoot_refines (.loaded fun _ => 0)
  have hlowest : samplePool.lowest.getD 0 = 0x1000 := by decide
  obtain ⟨k', hmap, -, hmem⟩ :=
    map_step (s := .unmapped k₁ 0x5000) href 0x5000 16 1
  rw [hlowest] at hmap hmem
  have hdevice : Function.update k'.mem (offset 0x1000 0) 1 0x5000 = 0 := by
    rw [Function.update_of_ne (by decide), hmem, if_neg (by decide),
      memcpy_of_not_inRange (by decide) (by decide)]
    show k₁.mem 0x5000 = 0
    rw [hmem₀]
    rfl
  refine ⟨k₁, _, _, hinit, hmap, ⟨?_, by decide⟩, rfl, rfl, hdevice, fun hcoh => ?_⟩
  · exact List.mem_cons_of_mem _ List.mem_cons_self
  · -- a load from the device gives 0, and the last value stored is 1
    have hload : Function.update k'.mem (offset 0x1000 0) 1 0x5000 = 1 :=
      hcoh 0x5000 List.mem_cons_self 0 (by decide)
    exact absurd (hdevice.symm.trans hload) (by decide)

end KptrOS
