import Mathlib.Data.Finset.Card
import Mathlib.Data.Finset.Dedup
import Mathlib.Data.List.Nodup

/-!
# An ordered pool of resources

What a bitmap allocator is for: a finite list of distinct items, some of which
are live. Allocation takes the first item that is not live; freeing an item
makes it available again, and is harmless on an item that is not live or does
not belong to the pool.

- `Pool.lowest_eq_none_iff`: allocation fails exactly when everything is live.
- `Pool.lowest_applyAll_ne`: a live item is not taken again before it is freed.
- `Pool.exists_lowest_alloc`: repeated allocation reaches every available item.
- `Pool.countP_range_bits`: a bit for each item that tells whether it is live
  counts the live set.
-/

/-- Distinct items in a fixed order, and which of them are live. -/
structure Pool (α : Type) [DecidableEq α] where
  /-- The items, in the order in which they are tried. -/
  items : List α
  /-- The items in use. -/
  live : Finset α
  nodup : items.Nodup
  live_sub : ∀ a ∈ live, a ∈ items

namespace Pool

variable {α : Type} [DecidableEq α]

/-- The pool in which nothing is live. -/
def fresh (items : List α) (nodup : items.Nodup) : Pool α where
  items := items
  live := ∅
  nodup := nodup
  live_sub := fun a ha => absurd ha (Finset.notMem_empty a)

/-- The first item that is not live. -/
def lowest (P : Pool α) : Option α := P.items.find? (· ∉ P.live)

/-- The items that are not live. -/
def available (P : Pool α) : Finset α := P.items.toFinset \ P.live

theorem mem_available {P : Pool α} {a : α} :
    a ∈ P.available ↔ a ∈ P.items ∧ a ∉ P.live := by
  rw [available, Finset.mem_sdiff, List.mem_toFinset]

theorem lowest_mem {P : Pool α} {a : α} (h : P.lowest = some a) :
    a ∈ P.items := List.mem_of_find?_eq_some h

theorem lowest_not_live {P : Pool α} {a : α} (h : P.lowest = some a) :
    a ∉ P.live := by
  simpa using List.find?_some h

theorem lowest_mem_available {P : Pool α} {a : α} (h : P.lowest = some a) :
    a ∈ P.available := mem_available.mpr ⟨lowest_mem h, lowest_not_live h⟩

/-- Nothing can be taken exactly when every item is live. -/
theorem lowest_eq_none_iff {P : Pool α} :
    P.lowest = none ↔ P.live = P.items.toFinset := by
  rw [lowest, List.find?_eq_none]
  constructor
  · intro h
    ext a
    rw [List.mem_toFinset]
    exact ⟨P.live_sub a, fun ha => by simpa using h a ha⟩
  · intro h a ha
    rw [h]
    simpa using ha

theorem lowest_eq_none_iff_available {P : Pool α} :
    P.lowest = none ↔ P.available = ∅ := by
  rw [lowest_eq_none_iff, available, Finset.sdiff_eq_empty_iff_subset]
  constructor
  · intro h
    exact h.ge
  · intro h
    refine Finset.Subset.antisymm (fun a ha => ?_) h
    exact List.mem_toFinset.mpr (P.live_sub a ha)

/-- The item at index `i` is taken when it is the first that is not live. -/
theorem lowest_eq_getElem {P : Pool α} {i : Nat} (hi : i < P.items.length)
    (hfree : P.items[i] ∉ P.live)
    (hmin : ∀ j (hj : j < i), P.items[j] ∈ P.live) :
    P.lowest = some P.items[i] := by
  refine List.find?_eq_some_iff_getElem.mpr
    ⟨by simpa using hfree, i, hi, rfl, fun j hj => ?_⟩
  simpa using hmin j hj

/-! ## Operations -/

/-- Take the first item that is not live. -/
def alloc (P : Pool α) : Pool α where
  items := P.items
  live := P.lowest.elim P.live (insert · P.live)
  nodup := P.nodup
  live_sub := by
    intro a ha
    cases hl : P.lowest with
    | none =>
      rw [hl] at ha
      exact P.live_sub a ha
    | some b =>
      rw [hl] at ha
      rcases Finset.mem_insert.mp ha with rfl | ha
      · exact lowest_mem hl
      · exact P.live_sub a ha

/-- Give an item back. -/
def free (P : Pool α) (a : α) : Pool α where
  items := P.items
  live := P.live.erase a
  nodup := P.nodup
  live_sub := fun b hb => P.live_sub b (Finset.mem_of_mem_erase hb)

@[simp] theorem alloc_items (P : Pool α) : P.alloc.items = P.items := rfl

@[simp] theorem free_items (P : Pool α) (a : α) : (P.free a).items = P.items := rfl

@[simp] theorem free_live (P : Pool α) (a : α) :
    (P.free a).live = P.live.erase a := rfl

theorem alloc_live_of_some {P : Pool α} {a : α} (h : P.lowest = some a) :
    P.alloc.live = insert a P.live := by
  simp [alloc, h]

theorem live_subset_alloc (P : Pool α) : P.live ⊆ P.alloc.live := by
  cases h : P.lowest with
  | none => simp [alloc, h]
  | some a =>
    rw [alloc_live_of_some h]
    exact Finset.subset_insert a P.live

theorem ext_of_live {P Q : Pool α} (hi : P.items = Q.items)
    (hl : P.live = Q.live) : P = Q := by
  obtain ⟨_, _, _, _⟩ := P
  cases hi
  cases hl
  rfl

theorem alloc_of_none {P : Pool α} (h : P.lowest = none) : P.alloc = P :=
  ext_of_live rfl (by simp [alloc, h])

/-- Freeing an item that is not live changes nothing. -/
theorem free_of_not_live {P : Pool α} {a : α} (h : a ∉ P.live) : P.free a = P :=
  ext_of_live rfl (Finset.erase_eq_of_notMem h)

/-- An item outside the pool is not live. -/
theorem not_live_of_not_mem {P : Pool α} {a : α} (h : a ∉ P.items) :
    a ∉ P.live := fun ha => h (P.live_sub a ha)

theorem alloc_available_of_some {P : Pool α} {a : α} (h : P.lowest = some a) :
    P.alloc.available = P.available.erase a := by
  ext b
  rw [mem_available, Finset.mem_erase, mem_available, alloc_live_of_some h,
    Finset.mem_insert, not_or, alloc_items]
  tauto

theorem card_available_alloc (P : Pool α) : P.alloc.available.card = P.available.card - 1 := by
  cases hlowest : P.lowest with
  | none =>
    rw [alloc_of_none hlowest, lowest_eq_none_iff_available.mp hlowest]
    rfl
  | some a =>
    rw [alloc_available_of_some hlowest, Finset.card_erase_of_mem (lowest_mem_available hlowest)]

theorem alloc_available_subset (P : Pool α) : P.alloc.available ⊆ P.available :=
  Finset.sdiff_subset_sdiff (Finset.Subset.refl _) P.live_subset_alloc

/-! ## Runs -/

/-- What a client can do to a pool. -/
inductive Op (α : Type) where
  | alloc
  | free (a : α)
  | skip
deriving DecidableEq

/-- One operation. -/
def apply (P : Pool α) : Op α → Pool α
  | .alloc => P.alloc
  | .free a => P.free a
  | .skip => P

/-- A sequence of operations. -/
def applyAll (P : Pool α) (ops : List (Op α)) : Pool α := ops.foldl apply P

@[simp] theorem applyAll_nil (P : Pool α) : P.applyAll [] = P := rfl

@[simp] theorem applyAll_cons (P : Pool α) (op : Op α) (ops : List (Op α)) :
    P.applyAll (op :: ops) = (P.apply op).applyAll ops := rfl

@[simp] theorem apply_items (P : Pool α) (op : Op α) :
    (P.apply op).items = P.items := by
  cases op <;> rfl

@[simp] theorem applyAll_items (P : Pool α) (ops : List (Op α)) :
    (P.applyAll ops).items = P.items := by
  induction ops generalizing P with
  | nil => rfl
  | cons op ops ih => rw [applyAll_cons, ih, apply_items]

/-- Only freeing an item ends its life. -/
theorem mem_live_apply {P : Pool α} {a : α} {op : Op α} (ha : a ∈ P.live)
    (hop : op ≠ .free a) : a ∈ (P.apply op).live := by
  cases op with
  | alloc => exact P.live_subset_alloc ha
  | free b =>
    have hne : a ≠ b := fun h => hop (h ▸ rfl)
    exact Finset.mem_erase.mpr ⟨hne, ha⟩
  | skip => exact ha

/-- An item stays live as long as it is not freed. -/
theorem mem_live_applyAll {P : Pool α} {a : α} {ops : List (Op α)}
    (ha : a ∈ P.live) (hops : .free a ∉ ops) : a ∈ (P.applyAll ops).live := by
  induction ops generalizing P with
  | nil => exact ha
  | cons op ops ih =>
    rw [List.mem_cons, not_or] at hops
    exact ih (mem_live_apply ha (Ne.symm hops.1)) hops.2

/-- **No double allocation**: the item taken by an allocation is not the one a
later allocation takes, unless it was freed in between. -/
theorem lowest_applyAll_ne {P : Pool α} {a b : α} {ops : List (Op α)}
    (ha : P.lowest = some a) (hops : .free a ∉ ops)
    (hb : (P.alloc.applyAll ops).lowest = some b) : b ≠ a := by
  have hlive : a ∈ P.alloc.live := by
    rw [alloc_live_of_some ha]
    exact Finset.mem_insert_self a P.live
  rintro rfl
  exact lowest_not_live hb (mem_live_applyAll hlive hops)

/-- Without freeing, what is available only shrinks. -/
theorem applyAll_available_subset {P : Pool α} {ops : List (Op α)}
    (hops : ∀ a ∈ P.items, .free a ∉ ops) :
    (P.applyAll ops).available ⊆ P.available := by
  induction ops generalizing P with
  | nil => exact Finset.Subset.refl _
  | cons op ops ih =>
    have htail : ∀ a ∈ (P.apply op).items, Op.free a ∉ ops := by
      intro a ha h
      rw [apply_items] at ha
      exact hops a ha (List.mem_cons_of_mem op h)
    refine Finset.Subset.trans (ih htail) ?_
    cases op with
    | alloc => exact P.alloc_available_subset
    | free b =>
      have hb : b ∉ P.items := fun hb => hops b hb List.mem_cons_self
      have : P.free b = P := free_of_not_live (not_live_of_not_mem hb)
      exact (congrArg available this).subset
    | skip => exact Finset.Subset.refl _

/-- **Every available item is reached**: some number of allocations makes it the
next one to be taken. -/
theorem exists_lowest_alloc (P : Pool α) {a : α} (ha : a ∈ P.available) :
    ∃ n, (P.applyAll (List.replicate n .alloc)).lowest = some a := by
  -- on the number of available items: each allocation of another item takes one away
  induction hn : P.available.card generalizing P with
  | zero =>
    rw [Finset.card_eq_zero.mp hn] at ha
    exact absurd ha (Finset.notMem_empty a)
  | succ n ih =>
    cases hl : P.lowest with
    | none =>
      rw [lowest_eq_none_iff_available.mp hl] at ha
      exact absurd ha (Finset.notMem_empty a)
    | some b =>
      by_cases hab : b = a
      · exact ⟨0, hab ▸ hl⟩
      · have hrest : P.alloc.available = P.available.erase b :=
          alloc_available_of_some hl
        have hcard : P.alloc.available.card = n := by
          rw [hrest, Finset.card_erase_of_mem (lowest_mem_available hl), hn]
          rfl
        have hmem : a ∈ P.alloc.available := by
          rw [hrest]
          exact Finset.mem_erase.mpr ⟨Ne.symm hab, ha⟩
        obtain ⟨m, hm⟩ := ih P.alloc hmem hcard
        exact ⟨m + 1, hm⟩

/-! ## Counting -/

omit [DecidableEq α] in
/-- Counting the indices of a list whose elements pass is counting the elements. -/
theorem countP_range_length {xs : List α} {p : α → Bool} {q : Nat → Bool}
    (h : ∀ i a, xs[i]? = some a → q i = p a) :
    (List.range xs.length).countP q = xs.countP p := by
  induction xs generalizing q with
  | nil => rfl
  | cons x xs ih =>
    have hhead : q 0 = p x := h 0 x rfl
    have htail : (List.range xs.length).countP (q ∘ Nat.succ) = xs.countP p :=
      ih fun i a ha => h (i + 1) a ha
    rw [List.length_cons, List.range_succ_eq_map, List.countP_cons, List.countP_map,
      htail, hhead, List.countP_cons]

/-- The live items, counted along the list, are as many as the live set has. -/
theorem countP_live (P : Pool α) :
    P.items.countP (· ∈ P.live) = P.live.card := by
  have hfilter : (P.items.filter (· ∈ P.live)).toFinset = P.live := by
    ext a
    simp only [List.mem_toFinset, List.mem_filter, decide_eq_true_eq]
    exact ⟨And.right, fun ha => ⟨P.live_sub a ha, ha⟩⟩
  rw [List.countP_eq_length_filter, ← hfilter,
    List.toFinset_card_of_nodup (P.nodup.filter _), hfilter]

/-- A bit for each index that tells whether its item is live counts the live
items. -/
theorem countP_range_bits {P : Pool α} {bit : Nat → Bool}
    (h : ∀ i a, P.items[i]? = some a → bit i = decide (a ∈ P.live)) :
    (List.range P.items.length).countP bit = P.live.card := by
  rw [countP_range_length h, countP_live]

end Pool
