import Mathlib.Order.Bounds.Basic
import KptrOS.Mem.Paging

/-!
# `load_pages`, page by page

The loops of `load_pages` step through `MAX_PAGES` bytes and rewrite entry 0 of the leaf
table after each of them. An entry keeps the last of the stores to it, so that one store for
each page has the same effect.

- `Selects`: the offset of the kernel loop stores under slot `j`.
- `lastOff_eq_some_iff`: `lastOff` is the greatest offset that selects a slot.
- `pageEntry`, `loadPagesByPage`: the entry of a page, and the function with one store for
  each page.
- `loadPages_eq_byPage`: the two functions are equal, on all tables.
-/

namespace KptrOS

open CSem

/-! ## The last store under a slot -/

/-- The kernel loop stores under slot `j` at `off`. -/
def Selects (hhdmOffset : Word) (j off : Nat) : Prop :=
  off < maxPages ∧
    (((hhdmOffset + BitVec.ofNat 64 off) &&& 0x1FFFFF) / BitVec.ofNat 64 pageSize).toNat = j

theorem selects_iff {hhdmOffset : Word} {j off : Nat} :
    Selects hhdmOffset j off ↔ off < maxPages ∧ slot hhdmOffset off = j := by
  refine and_congr_right fun hoff => ?_
  have hlt : off < 2 ^ 64 := by
    unfold maxPages at hoff
    omega
  rw [slot_eq hhdmOffset hlt]

theorem lastOff_eq_some_iff {hhdmOffset : Word} {j n off : Nat} :
    lastOff hhdmOffset j n = some off ↔
      IsGreatest {o | o < n ∧ slot hhdmOffset o = j} off := by
  induction n with
  | zero =>
    refine ⟨nofun, fun h => ?_⟩
    exact absurd h.1.1 (Nat.not_lt_zero off)
  | succ n ih =>
    rw [lastOff]
    by_cases hn : slot hhdmOffset n = j
    · have hlast : IsGreatest {o | o < n + 1 ∧ slot hhdmOffset o = j} n :=
        ⟨⟨Nat.lt_succ_self n, hn⟩, fun o ho => Nat.le_of_lt_succ ho.1⟩
      rw [if_pos hn, Option.some_inj]
      exact ⟨fun h => h ▸ hlast, fun h => hlast.unique h⟩
    · -- offset `n` is not in the set
      have hset : {o | o < n + 1 ∧ slot hhdmOffset o = j} =
          {o | o < n ∧ slot hhdmOffset o = j} := by
        ext o
        constructor
        · rintro ⟨ho, hj⟩
          refine ⟨Nat.lt_of_le_of_ne (Nat.le_of_lt_succ ho) fun h => hn ?_, hj⟩
          rwa [← h]
        · rintro ⟨ho, hj⟩
          exact ⟨Nat.lt_succ_of_lt ho, hj⟩
      rw [if_neg hn, ih, hset]

theorem lastOff_of_isGreatest {hhdmOffset : Word} {j off : Nat}
    (h : IsGreatest {o | Selects hhdmOffset j o} off) :
    lastOff hhdmOffset j maxPages = some off := by
  have hset : {o | Selects hhdmOffset j o} = {o | o < maxPages ∧ slot hhdmOffset o = j} :=
    Set.ext fun o => selects_iff
  exact lastOff_eq_some_iff.mpr (hset ▸ h)

theorem lastOff_of_not_selects {hhdmOffset : Word} {j : Nat}
    (h : ∀ off, ¬ Selects hhdmOffset j off) : lastOff hhdmOffset j maxPages = none :=
  lastOff_eq_none.mpr fun off hoff hslot => h off (selects_iff.mpr ⟨hoff, hslot⟩)

/-! ## One store for each page -/

/-- The store that entry `j` of the leaf table keeps, if there is one. -/
def pageEntry (hhdmOffset kernelAddr : Word) (j : Nat) : Option Word :=
  if j = 0 then some ((hhdmOffset + BitVec.ofNat 64 (maxPages - 1)) ||| 1)
  else match lastOff hhdmOffset j maxPages with
    | some off => some ((kernelAddr + BitVec.ofNat 64 off) ||| 0x03)
    | none =>
      if j < maxPages / pageSize then some (BitVec.ofNat 64 (pageSize * j + (pageSize - 1)))
      else none

/-- The store of a page that is touched. -/
def pageStore (hhdmOffset kernelAddr : Word) (j : Nat) (pt : Arr entries Word) :
    Exec (Arr entries Word) :=
  match pageEntry hhdmOffset kernelAddr j with
  | some entry => pt.set j entry
  | none => .ok pt

/-- `load_pages` with one store for each page. -/
def loadPagesByPage (addrs : TableAddrs) (hhdmOffset kernelAddr : Word) (t : PageTables) :
    Exec PageTables := do
  let pd ← t.pd.set 0 (addrs.pt ||| 0x03)
  let pdpt ← t.pdpt.set 0 (addrs.pd ||| 0x03)
  let pml4 ← t.pml4.set 0 (addrs.pdpt ||| 0x03)
  let pt ← forRange (pageStore hhdmOffset kernelAddr) entries 0 t.pt
  return { pml4, pdpt, pd, pt }

/-- The last address of a page has the flag bits set already. -/
theorem lastAddress_or_three (j : Nat) :
    BitVec.ofNat 64 (4096 * j + 4095) ||| 0x03 = BitVec.ofNat 64 (4096 * j + 4095) := by
  have hbits : 4096 * j + 4095 = 2 ^ 2 * (1024 * j + 1023) ||| 3 := by
    rw [← Nat.two_pow_add_eq_or_of_lt (by decide)]
    omega
  have h3 : (0x03 : Word) = BitVec.ofNat 64 3 := rfl
  rw [hbits, h3, ← BitVec.ofNat_or, Nat.or_assoc, Nat.or_self]

/-- The identity loop leaves the last address of each of its pages. -/
theorem identityEntry_maxPages (j : Nat) :
    identityEntry maxPages j = if j < maxPages / pageSize then
      some (BitVec.ofNat 64 (pageSize * j + (pageSize - 1))) else none := by
  unfold identityEntry maxPages pageSize
  by_cases hj : j < 128
  · have hlast : min (512 * 1024 - 1) (j * 4096 + (4096 - 1)) = 4096 * j + 4095 := by omega
    rw [if_pos (by omega), if_pos (by omega), hlast, lastAddress_or_three]
  · rw [if_neg (by omega), if_neg (by omega)]

/-- Both loops together leave `pageEntry`. -/
theorem pageEntry_elim (hhdmOffset kernelAddr : Word) (j : Nat) (old : Exec Word) :
    (kernelEntry hhdmOffset kernelAddr maxPages j).elim
        ((identityEntry maxPages j).elim old .ok) .ok =
      (pageEntry hhdmOffset kernelAddr j).elim old .ok := by
  rw [kernelEntry, pageEntry]
  by_cases hj : j = 0
  · rw [if_pos hj, if_pos hj, if_neg (by decide)]
    rfl
  · rw [if_neg hj, if_neg hj, identityEntry_maxPages]
    cases lastOff hhdmOffset j maxPages <;> rfl

/-- The leaf table after one store for each page. -/
theorem pageLoop_ok (hhdmOffset kernelAddr : Word) (pt : Arr entries Word) :
    ∃ pt', forRange (pageStore hhdmOffset kernelAddr) entries 0 pt = .ok pt' ∧
      ∀ j, j < entries →
        pt'.get j = (pageEntry hhdmOffset kernelAddr j).elim (pt.get j) .ok := by
  have hstart : ∀ j, pt.get j =
      if j < 0 then (pageEntry hhdmOffset kernelAddr j).elim (pt.get j) .ok else pt.get j :=
    fun j => (if_neg (Nat.not_lt_zero j)).symm
  have hstep : ∀ i (s : Arr entries Word), i < entries →
      (∀ j, s.get j =
        if j < i then (pageEntry hhdmOffset kernelAddr j).elim (pt.get j) .ok else pt.get j) →
      ∃ s', pageStore hhdmOffset kernelAddr i s = .ok s' ∧ ∀ j, s'.get j =
        if j < i + 1 then (pageEntry hhdmOffset kernelAddr j).elim (pt.get j) .ok
        else pt.get j := by
    intro i s hi hI
    have hother : ∀ j, j ≠ i → s.get j =
        if j < i + 1 then (pageEntry hhdmOffset kernelAddr j).elim (pt.get j) .ok
        else pt.get j := by
      intro j hj
      rw [hI j]
      exact if_congr (by omega) rfl rfl
    rw [pageStore]
    cases hentry : pageEntry hhdmOffset kernelAddr i with
    | some entry =>
      refine ⟨s.put i entry, Arr.set_of_lt s hi entry, fun j => ?_⟩
      by_cases hj : j = i
      · rw [hj, Arr.get_put_self _ hi, if_pos (Nat.lt_succ_self i), hentry]
        rfl
      · rw [Arr.get_put_of_ne _ hj, hother j hj]
    | none =>
      refine ⟨s, rfl, fun j => ?_⟩
      by_cases hj : j = i
      · rw [hj, hI i, if_neg (Nat.lt_irrefl i), if_pos (Nat.lt_succ_self i), hentry]
        rfl
      · exact hother j hj
  obtain ⟨pt', hrun, hI⟩ := forRange_zero_inv _ hstart hstep
  exact ⟨pt', hrun, fun j hj => (hI j).trans (if_pos hj)⟩

/-- The byte-stepping loops and the loop over the pages are the same function. -/
theorem loadPages_eq_byPage (addrs : TableAddrs) (hhdmOffset kernelAddr : Word)
    (t : PageTables) :
    loadPages addrs hhdmOffset kernelAddr t = loadPagesByPage addrs hhdmOffset kernelAddr t := by
  obtain ⟨⟨pml4, pdpt, pd, pt⟩, hload, hpml4, hpdpt, hpd, hpt⟩ :=
    loadPages_ok addrs hhdmOffset kernelAddr t
  obtain ⟨pt', hrun, hpt'⟩ := pageLoop_ok hhdmOffset kernelAddr t.pt
  have h0 : 0 < entries := by decide
  have hleaf : pt = pt' := Arr.ext_get fun j hj => by
    rw [hpt j, hpt' j hj, pageEntry_elim]
  dsimp only at hpml4 hpdpt hpd
  rw [hload, loadPagesByPage, Arr.set_of_lt _ h0, ok_bind, Arr.set_of_lt _ h0, ok_bind,
    Arr.set_of_lt _ h0, ok_bind, hrun, ok_bind, hleaf, hpml4, hpdpt, hpd]
  rfl

/-! ## The entries -/

/-- **The closed form of `load_pages`**, from zeroed tables: the entries of the leaf table
after the loops, those of the upper tables, and the equivalence with one store for each
page. Every store is in bounds. -/
theorem loadPages_closedForm (addrs : TableAddrs) (hhdmOffset kernelAddr : Word) :
    ∃ t, loadPages addrs hhdmOffset kernelAddr .zeroed = .ok t ∧
      loadPagesByPage addrs hhdmOffset kernelAddr .zeroed = .ok t ∧
      t.pt.get 0 = .ok ((hhdmOffset + BitVec.ofNat 64 (maxPages - 1)) ||| 1) ∧
      (∀ j off, 1 ≤ j → IsGreatest {o | Selects hhdmOffset j o} off →
        t.pt.get j = .ok ((kernelAddr + BitVec.ofNat 64 off) ||| 3)) ∧
      (∀ j, 1 ≤ j → j ≤ 127 → (∀ off, ¬ Selects hhdmOffset j off) →
        t.pt.get j = .ok (BitVec.ofNat 64 (4096 * j + 4095))) ∧
      (∀ j, 128 ≤ j → j < entries → (∀ off, ¬ Selects hhdmOffset j off) →
        t.pt.get j = .ok 0) ∧
      ∀ j, 1 ≤ j → j < entries →
        t.pml4.get j = .ok 0 ∧ t.pdpt.get j = .ok 0 ∧ t.pd.get j = .ok 0 := by
  obtain ⟨t, hload, hpml4, hpdpt, hpd, hpt⟩ :=
    loadPages_ok addrs hhdmOffset kernelAddr .zeroed
  have hentry : ∀ j, t.pt.get j = (pageEntry hhdmOffset kernelAddr j).elim
      (PageTables.zeroed.pt.get j) .ok := fun j => by rw [hpt j, pageEntry_elim]
  refine ⟨t, hload, (loadPages_eq_byPage addrs hhdmOffset kernelAddr _).symm.trans hload,
    hentry 0, fun j off hj hoff => ?_, fun j hj hlt hnone => ?_, fun j hge hlt hnone => ?_,
    fun j hj hlt => ?_⟩
  · rw [hentry j, pageEntry, if_neg (by omega), lastOff_of_isGreatest hoff]
    rfl
  · rw [hentry j, pageEntry, if_neg (by omega), lastOff_of_not_selects hnone]
    have hpage : j < maxPages / pageSize := Nat.lt_of_le_of_lt hlt (by decide)
    dsimp only
    rw [if_pos hpage]
    rfl
  · rw [hentry j, pageEntry, if_neg (by omega), lastOff_of_not_selects hnone]
    have hpage : ¬ j < maxPages / pageSize := Nat.not_lt.mpr (Nat.le_trans (by decide) hge)
    dsimp only
    rw [if_neg hpage]
    exact Arr.get_const hlt 0
  · have hne : j ≠ 0 := by omega
    rw [hpml4, hpdpt, hpd, Arr.get_put_of_ne _ hne, Arr.get_put_of_ne _ hne,
      Arr.get_put_of_ne _ hne]
    exact ⟨Arr.get_const hlt 0, Arr.get_const hlt 0, Arr.get_const hlt 0⟩

end KptrOS
