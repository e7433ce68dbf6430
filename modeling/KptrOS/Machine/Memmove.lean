import KptrOS.Machine.Memory

/-!
# `memmove` (`kern/mem/memmove.c`)

The direction of the loop depends on which of the pointers is larger; equal pointers are left
alone.

- `memmoveDownLoop`, `memmove`: the source's function. Its upward loop is the one of `memcpy`.
- `memmoveDownLoop_eq_copy`: the downward loop as a list of moves.
- `byteMoves_safe`, `byteMoves_reverse_safe`: each direction is safe where it is taken;
  `memmove_eq_copy`: so `memmove` copies in a safe order.
- `memmove_moves`: the result, for all overlaps.
-/

namespace KptrOS

open BlockCopy

/-- `for (size_t i = n; i > 0; i--) pdest[i - 1] = psrc[i - 1];` -/
def memmoveDownLoop (dest src : Word) : (n : Nat) → Memory → Memory
  | 0, m => m
  | i + 1, m => memmoveDownLoop dest src i (Function.update m (offset dest i) (m (offset src i)))

/-- `void *memmove(void *dest, const void *src, size_t n)`: the returned pointer and the
memory left behind. -/
def memmove (m : Memory) (dest src : Word) (n : Nat) : Word × Memory :=
  if src > dest then (dest, memcpyLoop m dest src n)
  else if src < dest then (dest, memmoveDownLoop dest src n m)
  else (dest, m)

/-! ## The loops as moves -/

theorem memmoveDownLoop_eq_copy (m : Memory) (dest src : Word) (n : Nat) :
    memmoveDownLoop dest src n m = copy ((List.range n).reverse.map (byteMove dest src)) m := by
  induction n generalizing m with
  | zero => rfl
  | succ n ih =>
    rw [memmoveDownLoop, ih, List.range_succ, List.reverse_append, List.reverse_singleton,
      List.singleton_append, List.map_cons]
    rfl

section

variable {m : Memory} {dest src : Word} {n : Nat}

/-- An address of a range that does not wrap. -/
theorem offset_toNat {p : Word} {i : Nat} (hp : p.toNat + n ≤ 2 ^ 64) (hi : i < n) :
    (offset p i).toNat = p.toNat + i := by
  rw [offset, BitVec.toNat_add, BitVec.toNat_ofNat]
  omega

theorem offset_ne {p q : Word} {i j : Nat} (hp : p.toNat + n ≤ 2 ^ 64)
    (hq : q.toNat + n ≤ 2 ^ 64) (hi : i < n) (hj : j < n) (h : p.toNat + i ≠ q.toNat + j) :
    offset p i ≠ offset q j := by
  intro heq
  have hnat := congrArg BitVec.toNat heq
  rw [offset_toNat hp hi, offset_toNat hq hj] at hnat
  exact h hnat

variable (hdest : dest.toNat + n ≤ 2 ^ 64) (hsrc : src.toNat + n ≤ 2 ^ 64)

include hdest hsrc

/-- Upwards, a byte that has been written lies below the source bytes still to be read, if the
destination does not lie above the source. -/
theorem byteMoves_safe (hle : dest ≤ src) :
    Safe ((List.range n).map (byteMove dest src)) := by
  rw [BitVec.le_def] at hle
  refine List.pairwise_map.mpr (List.pairwise_lt_range.imp_of_mem fun {i j} hi hj hij => ?_)
  rw [List.mem_range] at hi hj
  exact ⟨offset_ne hdest hsrc hi hj (by omega), offset_ne hdest hdest hi hj (by omega)⟩

/-- Downwards it lies above them, if the source does not lie above the destination. -/
theorem byteMoves_reverse_safe (hle : src ≤ dest) :
    Safe ((List.range n).reverse.map (byteMove dest src)) := by
  rw [BitVec.le_def] at hle
  refine List.pairwise_map.mpr (List.pairwise_reverse.mpr
    (List.pairwise_lt_range.imp_of_mem fun {i j} hi hj hij => ?_))
  rw [List.mem_range] at hi hj
  exact ⟨offset_ne hdest hsrc hj hi (by omega), offset_ne hdest hdest hj hi (by omega)⟩

omit hsrc in
/-- An address outside a destination that does not wrap. -/
theorem not_inRange_of_outside {a : Word}
    (ha : a.toNat < dest.toNat ∨ dest.toNat + n ≤ a.toNat) : ¬ InRange dest n a := by
  intro hin
  obtain ⟨i, hi, -, rfl⟩ := hin.exists_offset
  rw [offset_toNat hdest hi] at ha
  omega

/-- In either direction `memmove` makes the moves in a safe order. With equal pointers it makes
none, but then they would do nothing. -/
theorem memmove_eq_copy (m : Memory) :
    ∃ is : List Nat, (∀ i, i ∈ is ↔ i < n) ∧ Safe (is.map (byteMove dest src)) ∧
      memmove m dest src n = (dest, copy (is.map (byteMove dest src)) m) := by
  rw [memmove]
  by_cases hup : src > dest
  · refine ⟨List.range n, fun i => List.mem_range,
      byteMoves_safe hdest hsrc (BitVec.le_of_lt hup), ?_⟩
    rw [if_pos hup, memcpyLoop_eq_copy]
  · rw [if_neg hup]
    by_cases hdown : src < dest
    · refine ⟨(List.range n).reverse, fun i => List.mem_reverse.trans List.mem_range,
        byteMoves_reverse_safe hdest hsrc (BitVec.le_of_lt hdown), ?_⟩
      rw [if_pos hdown, memmoveDownLoop_eq_copy]
    · obtain rfl : src = dest := BitVec.eq_of_toNat_eq (by
        rw [gt_iff_lt, BitVec.lt_def] at hup
        rw [BitVec.lt_def] at hdown
        omega)
      refine ⟨List.range n, fun i => List.mem_range,
        byteMoves_safe hdest hsrc (BitVec.le_refl src), ?_⟩
      have hself : ∀ mv ∈ (List.range n).map (byteMove src src), mv.1 = mv.2 := by
        intro mv hmv
        obtain ⟨i, -, rfl⟩ := List.mem_map.mp hmv
        rfl
      rw [if_neg hdown, copy_of_eq hself]

/-- **`memmove` moves any range**, whether the ranges are disjoint, overlap in either
direction or are the same: the destination holds what the source held before, nothing else
changes, and the destination is returned. -/
theorem memmove_moves :
    (memmove m dest src n).1 = dest ∧
      (∀ i, i < n → (memmove m dest src n).2 (offset dest i) = m (offset src i)) ∧
      ∀ a, (a.toNat < dest.toNat ∨ dest.toNat + n ≤ a.toNat) →
        (memmove m dest src n).2 a = m a := by
  obtain ⟨is, his, hsafe, hrun⟩ := memmove_eq_copy hdest hsrc m
  rw [hrun]
  refine ⟨rfl, fun i hi => ?_, fun a ha => ?_⟩
  · exact copy_get hsafe (List.mem_map_of_mem ((his i).mpr hi)) m
  · exact copy_byteMoves_of_not_inRange (by omega) (fun i => (his i).mp)
      (not_inRange_of_outside hdest ha)

end

/-- Four bytes are moved up by one, and back. -/
theorem memmove_moves_overlap :
    let m : Memory := fun a => a.setWidth 8
    let up := (memmove m 0x1001 0x1000 4).2
    (∀ i, i < 4 → up (offset 0x1001 i) = m (offset 0x1000 i)) ∧ up 0x1005 = 5 ∧
      ∀ i, i < 4 → (memmove up 0x1000 0x1001 4).2 (offset 0x1000 i) = m (offset 0x1000 i) := by
  intro m up
  obtain ⟨-, hup, hkept⟩ := @memmove_moves m 0x1001 0x1000 4 (by decide) (by decide)
  obtain ⟨-, hdown, -⟩ := @memmove_moves up 0x1000 0x1001 4 (by decide) (by decide)
  refine ⟨hup, hkept 0x1005 (.inr (by decide)), fun i hi => ?_⟩
  rw [hdown i hi]
  exact hup i hi

end KptrOS
