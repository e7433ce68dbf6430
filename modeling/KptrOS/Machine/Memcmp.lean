import KptrOS.Lib.Compare
import KptrOS.Machine.Memory

/-!
# `memcmp` (`kern/mem/memcmp.c`)

The loop stops at the first difference. So it computes the lexicographic comparison of the two
byte sequences, and the laws of that order are laws of `memcmp`, although two calls may stop at
different bytes.

- `memcmpLoop`, `memcmp`: the source's function.
- `bytesAt`: the bytes of a range, as numbers. `memcmp_eq_sign`: their comparison.
- `memcmp_lexicographic`: the sign of the result, the order laws, and longer ranges.
-/

namespace KptrOS

open Compare

/-- The iterations of `memcmp` from `i` on, of which there are at most `count`. -/
def memcmpLoop (m : Memory) (s1 s2 : Word) : (count i : Nat) → Int
  | 0, _ => 0
  | count + 1, i =>
    if m (offset s1 i) ≠ m (offset s2 i) then
      if m (offset s1 i) < m (offset s2 i) then -1 else 1
    else memcmpLoop m s1 s2 count (i + 1)

/-- `int memcmp(const void *s1, const void *s2, size_t n)`. -/
def memcmp (m : Memory) (s1 s2 : Word) (n : Nat) : Int := memcmpLoop m s1 s2 n 0

/-- The `n` bytes from `p` on, unsigned. -/
def bytesAt (m : Memory) (p : Word) (n : Nat) : List Nat :=
  (List.range n).map fun i => (m (offset p i)).toNat

theorem bytesAt_length (m : Memory) (p : Word) (n : Nat) : (bytesAt m p n).length = n := by
  rw [bytesAt, List.length_map, List.length_range]

theorem bytesAt_add (m : Memory) (p : Word) (n k : Nat) :
    ∃ rest, bytesAt m p (n + k) = bytesAt m p n ++ rest := by
  rw [bytesAt, List.range_add, List.map_append]
  exact ⟨_, rfl⟩

theorem bytesAt_eq_iff {m : Memory} {p q : Word} {n : Nat} :
    bytesAt m p n = bytesAt m q n ↔ ∀ i, i < n → m (offset p i) = m (offset q i) := by
  simp only [bytesAt, List.map_inj_left, List.mem_range, BitVec.toNat_inj]

/-- The remaining iterations compare the remaining bytes. -/
theorem memcmpLoop_eq_sign (m : Memory) (s1 s2 : Word) (count i : Nat) :
    memcmpLoop m s1 s2 count i =
      sign ((List.range' i count).map fun j => (m (offset s1 j)).toNat)
        ((List.range' i count).map fun j => (m (offset s2 j)).toNat) := by
  induction count generalizing i with
  | zero => exact (sign_self []).symm
  | succ count ih =>
    rw [memcmpLoop, List.range'_succ, List.map_cons, List.map_cons]
    by_cases heq : m (offset s1 i) = m (offset s2 i)
    · rw [if_neg (not_not.mpr heq), ih, heq, sign_cons_self]
    · have hne : (m (offset s1 i)).toNat ≠ (m (offset s2 i)).toNat :=
        fun h => heq (BitVec.eq_of_toNat_eq h)
      rw [if_pos heq, sign_cons_of_ne hne]
      rcases Nat.lt_or_gt_of_ne hne with hlt | hgt
      · rw [if_pos (BitVec.lt_def.mpr hlt), sign_of_lt hlt]
      · have hnot : ¬ m (offset s1 i) < m (offset s2 i) := fun h =>
          Nat.lt_asymm hgt (BitVec.lt_def.mp h)
        rw [if_neg hnot, sign_of_gt hgt]

/-- **`memcmp` compares the byte sequences.** -/
theorem memcmp_eq_sign (m : Memory) (s1 s2 : Word) (n : Nat) :
    memcmp m s1 s2 n = sign (bytesAt m s1 n) (bytesAt m s2 n) := by
  rw [memcmp, memcmpLoop_eq_sign, bytesAt, bytesAt, List.range_eq_range']

/-- Bytes are unsigned: 0x80 is more than 0x7F. -/
example : memcmp (fun a => if a = 0 then 0x80 else 0x7F) 0 1 1 = 1 := by decide

/-- **`memcmp` is the unsigned lexicographic order** of the `n` bytes from its arguments on. Its
sign is that of the comparison, it is 0 if all bytes agree, it is antisymmetric and transitive,
and a difference within the first `n` bytes is the result for more bytes, too. -/
theorem memcmp_lexicographic (m : Memory) (s1 s2 : Word) (n : Nat) :
    (memcmp m s1 s2 n < 0 ↔ bytesAt m s1 n < bytesAt m s2 n) ∧
      (0 < memcmp m s1 s2 n ↔ bytesAt m s2 n < bytesAt m s1 n) ∧
      (memcmp m s1 s2 n = 0 ↔ ∀ i, i < n → m (offset s1 i) = m (offset s2 i)) ∧
      memcmp m s2 s1 n = -memcmp m s1 s2 n ∧
      (∀ s3, memcmp m s1 s2 n ≤ 0 → memcmp m s2 s3 n ≤ 0 → memcmp m s1 s3 n ≤ 0 ∧
        (memcmp m s1 s2 n < 0 ∨ memcmp m s2 s3 n < 0 → memcmp m s1 s3 n < 0)) ∧
      ∀ k, n ≤ k → memcmp m s1 s2 n ≠ 0 → memcmp m s1 s2 k = memcmp m s1 s2 n := by
  simp only [memcmp_eq_sign]
  refine ⟨sign_neg, sign_pos, sign_eq_zero.trans bytesAt_eq_iff, sign_swap _ _,
    fun s3 => sign_trans, fun k hk hne => ?_⟩
  obtain ⟨j, rfl⟩ := Nat.exists_eq_add_of_le hk
  obtain ⟨us, hus⟩ := bytesAt_add m s1 n j
  obtain ⟨vs, hvs⟩ := bytesAt_add m s2 n j
  have hlength : (bytesAt m s1 n).length = (bytesAt m s2 n).length := by
    rw [bytesAt_length, bytesAt_length]
  rw [hus, hvs, sign_append hlength (fun h => hne (sign_eq_zero.mpr h))]

end KptrOS
