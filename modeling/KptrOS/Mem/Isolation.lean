import KptrOS.Mem.Refinement

/-!
# The contents of pages

A page is the memory that its address names. As long as clients write only to
pages they own, a page that was freed stays zero until it is handed out again,
and a call on one page leaves every other live page alone.

- `ConfinedRun`: every store of a run hits a page that is live at that moment.
- `PageCall.effect_frame`, `PageCall.effect_zeroPage`: one call.
- `zeroPage_run`: a page freed during a run, and not live at its end, is zero.
- `pages_isolated`: the statement for every run after `bitmap_init`.
-/

namespace KptrOS

open CSem

/-- All bytes of the page are zero. -/
def ZeroPage (m : Memory) (page : Word) : Prop :=
  ∀ a, InRange page pageSize a → m a = 0

/-- A store hits a live page. -/
def PageCall.Confined (c : PageCall) (P : Pool Word) : Prop :=
  match c with
  | .store addr _ => ∃ page ∈ P.live, InRange page pageSize addr
  | _ => True

/-- Every store of the run hits a page that is live when it is made. -/
def ConfinedRun : List PageCall → Pool Word → Prop
  | [], _ => True
  | c :: calls, P => c.Confined P ∧ ConfinedRun calls (P.apply c.op)

/-- The items of the pool are pages. -/
def OfPages (P : Pool Word) : Prop := ∀ page ∈ P.items, Aligned page

theorem OfPages.apply {P : Pool Word} (h : OfPages P) (op : Pool.Op Word) :
    OfPages (P.apply op) := by
  rw [OfPages, Pool.apply_items]
  exact h

theorem OfPages.applyAll {P : Pool Word} (h : OfPages P) (ops : List (Pool.Op Word)) :
    OfPages (P.applyAll ops) := by
  rw [OfPages, Pool.applyAll_items]
  exact h

/-! ## One call -/

/-- A call that neither frees the page nor stores to it leaves its bytes alone. -/
theorem PageCall.effect_frame {c : PageCall} {P : Pool Word} (hP : OfPages P)
    {page : Word} (hpage : Aligned page) (hfree : c ≠ .free page)
    (hstore : ∀ addr byte, c = .store addr byte → ¬ InRange page pageSize addr)
    (m : Memory) {a : Word} (ha : InRange page pageSize a) :
    c.effect P m a = m a := by
  cases c with
  | alloc addr => rfl
  | free addr =>
    show (if addr ∈ P.items then (memset m addr 0 pageSize).2 else m) a = m a
    by_cases haddr : addr ∈ P.items
    · have hne : page ≠ addr := fun h => hfree (h ▸ rfl)
      rw [if_pos haddr]
      exact memset_of_not_inRange (by decide)
        (pages_disjoint hpage (hP addr haddr) hne ha)
    · rw [if_neg haddr]
  | store addr byte =>
    have hne : a ≠ addr := fun h => hstore addr byte rfl (h ▸ ha)
    exact Function.update_of_ne hne byte m

/-- Freeing an address leaves every page alone but the one there. -/
theorem PageCall.effect_free {P : Pool Word} (hP : OfPages P) {page addr : Word}
    (hpage : Aligned page) (hne : page ≠ addr) (m : Memory) {a : Word}
    (ha : InRange page pageSize a) : (PageCall.free addr).effect P m a = m a := by
  refine PageCall.effect_frame hP hpage ?_ ?_ m ha
  · rintro ⟨⟩
    exact hne rfl
  · intro addr' byte hc
    cases hc

/-- Freeing a page zeroes it, and a page that is zero and not live stays zero under
every confined call. -/
theorem PageCall.effect_zeroPage {c : PageCall} {P : Pool Word} (hP : OfPages P)
    {page : Word} (hpage : page ∈ P.items) (hconf : c.Confined P) {m : Memory}
    (h : c = .free page ∨ (page ∉ P.live ∧ ZeroPage m page)) :
    ZeroPage (c.effect P m) page := by
  intro a ha
  by_cases hc : c = .free page
  · subst hc
    show (if page ∈ P.items then (memset m page 0 pageSize).2 else m) a = 0
    rw [if_pos hpage, memset_get ha]
    rfl
  · obtain ⟨hdead, hzero⟩ := h.resolve_left hc
    rw [PageCall.effect_frame hP (hP page hpage) hc ?_ m ha]
    · exact hzero a ha
    · -- the store goes to a live page, which is another one
      rintro addr byte rfl hin
      obtain ⟨q, hq, hin'⟩ := hconf
      have hne : page ≠ q := fun h => hdead (h ▸ hq)
      exact pages_disjoint (hP page hpage) (hP q (P.live_sub q hq)) hne hin hin'

/-! ## Runs -/

/-- A page that was freed during a run, or was free and zero before it, is zero at
the end unless it is live there. -/
theorem zeroPage_run {calls : List PageCall} {k k' : Kernel} {P : Pool Word}
    {outs : List (Option Word)} {page : Word} (h : k.pmm.Refines P) (hP : OfPages P)
    (hpage : page ∈ P.items) (hconf : ConfinedRun calls P)
    (hrun : run PageCall.step calls k = .ok (outs, k'))
    (hdead : page ∉ (P.applyAll (calls.map PageCall.op)).live)
    (hfreed : .free page ∈ calls ∨ (page ∉ P.live → ZeroPage k.mem page)) :
    ZeroPage k'.mem page := by
  induction calls generalizing k P outs with
  | nil =>
    cases hrun
    exact hfreed.resolve_left List.not_mem_nil hdead
  | cons c calls ih =>
    obtain ⟨hc, hcalls⟩ := hconf
    obtain ⟨o, k₁, outs₁, hstep, hrest, -⟩ := run_cons_ok.mp hrun
    obtain ⟨s', href, hspec⟩ := PageCall.step_spec h c
    rw [hspec] at hstep
    cases hstep
    rw [PageCall.abstractStep_snd] at href
    refine ih href (hP.apply c.op) (by rwa [Pool.apply_items]) hcalls hrest hdead ?_
    rcases hfreed with hfreed | hzero
    · rcases List.mem_cons.mp hfreed with hfree | hlater
      · exact .inr fun _ => PageCall.effect_zeroPage hP hpage hc (.inl hfree.symm)
      · exact .inl hlater
    · -- a page that leaves the live set in this step is the one freed by it
      refine .inr fun hdead₁ => PageCall.effect_zeroPage hP hpage hc ?_
      by_cases hfree : c = .free page
      · exact .inl hfree
      · have hdead₀ : page ∉ P.live := fun hlive =>
          hdead₁ (Pool.mem_live_apply hlive fun hop => hfree (PageCall.op_eq_free.mp hop))
        exact .inr ⟨hdead₀, hzero hdead₀⟩

/-- `alloc_page` changes no memory. -/
theorem allocPage_mem {k k' : Kernel} {P : Pool Word} (h : k.pmm.Refines P)
    {addr page : Word} (hrun : allocPage addr k = .ok (page, k')) : k'.mem = k.mem := by
  rcases allocPage_refines h with ⟨_, _, -, -, hspec⟩ | ⟨-, hspec⟩
  · rw [hspec] at hrun
    cases hrun
    rfl
  · rw [hspec] at hrun
    cases hrun
    rfl

/-- `free_page` changes no page but the one it is given. -/
theorem freePage_frame {k k' : Kernel} {P : Pool Word} (h : k.pmm.Refines P)
    (hP : OfPages P) {addr page a : Word} (hpage : page ∈ P.items) (hne : page ≠ addr)
    (hrun : freePage addr k = .ok k') (ha : InRange page pageSize a) :
    k'.mem a = k.mem a := by
  obtain ⟨s', -, hspec⟩ := PageCall.step_spec h (.free addr)
  have hstep : PageCall.step (.free addr) k = .ok (none, k') := by
    rw [PageCall.step, hrun]
    rfl
  rw [hspec] at hstep
  cases hstep
  exact PageCall.effect_free hP (hP page hpage) hne k.mem ha

/-- **Freed pages carry no data, and no owner disturbs another.** In every run after
`bitmap_init` whose stores go to pages live at that moment: a page that is handed
out after having been freed is all zero, `alloc_page` changes no byte of a live
page, and `free_page(a)` none but those of the page at `a`. -/
theorem pages_isolated (boot : Boot) (k₀ : Kernel) (hmap : WellFormed boot.memmap) :
    ∃ k₁ P₀, bitmapInit boot k₀ = .ok k₁ ∧ P₀.items = trackedPages boot.memmap ∧
      P₀.live = ∅ ∧ k₁.pmm.Refines P₀ ∧
      ∀ calls : List PageCall, ConfinedRun calls P₀ → ∃ k,
        run PageCall.step calls k₁ =
          .ok ((trace PageCall.abstractStep calls P₀).1, k) ∧
        let P := (trace PageCall.abstractStep calls P₀).2
        k.pmm.Refines P ∧
        (∀ page addr k', HandsOut k page → .free page ∈ calls →
          allocPage addr k = .ok (page, k') → ZeroPage k'.mem page) ∧
        (∀ addr out k', allocPage addr k = .ok (out, k') →
          ∀ page ∈ P.live, ∀ a, InRange page pageSize a → k'.mem a = k.mem a) ∧
        ∀ addr k', freePage addr k = .ok k' → ∀ page ∈ P.live, page ≠ addr →
          ∀ a, InRange page pageSize a → k'.mem a = k.mem a := by
  obtain ⟨k₁, hinit, -, href⟩ := bitmapInit_refines boot k₀ hmap
  have hP₀ : OfPages (.fresh (trackedPages boot.memmap) (trackedPages_nodup hmap)) :=
    fun page hpage => trackedPages_aligned hpage
  refine ⟨k₁, _, hinit, rfl, rfl, href, fun calls hconf => ?_⟩
  obtain ⟨k, hrun, hk⟩ := pageSimulation.run calls href
  refine ⟨k, hrun, hk, ?_⟩
  rw [trace_abstractStep_snd] at hk ⊢
  have hP := hP₀.applyAll (calls.map PageCall.op)
  refine ⟨fun page addr k' hout hfreed halloc => ?_, fun addr out k' halloc page _ a _ => ?_,
    fun addr k' hfree page hlive hne a ha => ?_⟩
  · have hlowest := (handsOut_iff hk).mp hout
    have hitem := Pool.lowest_mem hlowest
    rw [Pool.applyAll_items] at hitem
    rw [allocPage_mem hk halloc]
    exact zeroPage_run href hP₀ hitem hconf hrun (Pool.lowest_not_live hlowest)
      (.inl hfreed)
  · rw [allocPage_mem hk halloc]
  · exact freePage_frame hk hP (Pool.live_sub _ page hlive) hne hfree ha

theorem pages_isolated_sample :
    ∃ k₁ k k', bitmapInit sampleBoot (.loaded fun _ => 0xFF) = .ok k₁ ∧
      run PageCall.step [.alloc 0, .store 0x1004 5, .free 0x1000] k₁ =
        .ok ([some 0x1000, none, none], k) ∧
      allocPage 0 k = .ok (0x1000, k') ∧ ZeroPage k'.mem 0x1000 := by
  obtain ⟨k₁, P₀, hinit, hitems, hlive, -, hall⟩ :=
    pages_isolated sampleBoot (.loaded fun _ => 0xFF) sampleBoot_wellFormed
  have hP₀ : P₀ = samplePool := Pool.ext_of_live (hitems.trans (by decide)) hlive
  subst hP₀
  have hconf : ConfinedRun [.alloc 0, .store 0x1004 5, .free 0x1000] samplePool :=
    ⟨trivial, ⟨0x1000, by decide, by decide⟩, trivial, trivial⟩
  obtain ⟨k, hrun, hk, hzero, -⟩ := hall _ hconf
  have hout : HandsOut k 0x1000 := (handsOut_iff hk).mpr (by decide)
  obtain ⟨k', hk'⟩ := hout 0
  exact ⟨k₁, k, k', hinit, hrun, hk',
    hzero 0x1000 0 k' hout (List.mem_cons_of_mem _ (List.mem_cons_of_mem _ List.mem_cons_self)) hk'⟩

end KptrOS
