import KptrOS.Machine.Memmove

/-!
# `memcpy` where the ranges overlap

`memcpy` copies upwards whatever the pointers are. This is what `memmove` does, too, unless the
destination begins inside the source; there the first bytes of the source are repeated all over
the destination.

- `byteMoves_disjoint_safe`: without an overlap the upward copy is safe.
- `byteMoves_eq_shift`: with one it moves the bytes of one row.
- `memcpy_memmove`: both cases, and when the second one is still a copy.
-/

namespace KptrOS

open BlockCopy

section

variable {m : Memory} {dest src : Word} {n : Nat}
  (hdest : dest.toNat + n ≤ 2 ^ 64) (hsrc : src.toNat + n ≤ 2 ^ 64)

include hdest hsrc

/-- No byte of the destination is one of the source. -/
theorem byteMoves_disjoint_safe (hdisjoint : src.toNat + n ≤ dest.toNat) :
    Safe ((List.range n).map (byteMove dest src)) := by
  refine List.pairwise_map.mpr (List.pairwise_lt_range.imp_of_mem fun {i j} hi hj hij => ?_)
  rw [List.mem_range] at hi hj
  exact ⟨offset_ne hdest hsrc hi hj (by omega), offset_ne hdest hdest hi hj (by omega)⟩

/-- Where the upward copy is safe, it is the copy of `memmove`. -/
theorem memcpy_eq_memmove (hsafe : Safe ((List.range n).map (byteMove dest src))) :
    memcpy m dest src n = memmove m dest src n := by
  obtain ⟨is, his, hsafe', hrun⟩ := memmove_eq_copy hdest hsrc m
  have hmem : ∀ mv, mv ∈ (List.range n).map (byteMove dest src) ↔
      mv ∈ is.map (byteMove dest src) := by
    intro mv
    simp only [List.mem_map, List.mem_range, his]
  rw [hrun, memcpy, memcpyLoop_eq_copy, copy_eq_of_safe hsafe hsafe' hmem]

omit hdest hsrc in
/-- Behind the start of the source the destination is the same row of bytes, further on. -/
theorem offset_dest (hlt : src < dest) (i : Nat) :
    offset dest i = offset src (i + (dest.toNat - src.toNat)) := by
  have hdist : dest = offset src (dest.toNat - src.toNat) := by
    rw [BitVec.lt_def] at hlt
    refine BitVec.eq_of_toNat_eq ?_
    have hd := dest.isLt
    rw [offset, BitVec.toNat_add, BitVec.toNat_ofNat]
    omega
  rw [offset, offset, Nat.add_comm i, BitVec.ofNat_add, ← BitVec.add_assoc]
  exact congrArg (· + BitVec.ofNat 64 i) hdist

omit hdest hsrc in
theorem byteMoves_eq_shift (hlt : src < dest) :
    (List.range n).map (byteMove dest src) =
      (List.range n).map (shift (offset src) (dest.toNat - src.toNat)) := by
  refine List.map_congr_left fun i _ => ?_
  rw [byteMove, shift, offset_dest hlt]

omit hsrc in
/-- The upward copy to a higher address repeats the bytes in front of the destination. -/
theorem memcpy_repeats (hlt : src < dest) {i : Nat} (hi : i < n) :
    (memcpy m dest src n).2 (offset dest i) =
      m (offset src (i % (dest.toNat - src.toNat))) := by
  have hnat : src.toNat < dest.toNat := BitVec.lt_def.mp hlt
  have hinj : ∀ i j, i < n + (dest.toNat - src.toNat) → j < n + (dest.toNat - src.toNat) →
      offset src i = offset src j → i = j := by
    intro i j hi hj heq
    by_contra hne
    have hrow : src.toNat + (n + (dest.toNat - src.toNat)) ≤ 2 ^ 64 := by omega
    exact offset_ne hrow hrow hi hj (by omega) heq
  show memcpyLoop m dest src n (offset dest i) = _
  rw [memcpyLoop_eq_copy, byteMoves_eq_shift hlt, offset_dest hlt,
    copy_shift (by omega) hinj m (by omega), Nat.add_mod_right]

/-- **`memcpy` and `memmove`**, for all contents and pointers: they agree when the destination
does not begin behind the start of the source, or the ranges are disjoint. Otherwise `memcpy`
repeats the bytes from the source up to the destination and changes nothing else; they agree
then exactly when the source repeats these bytes already. -/
theorem memcpy_memmove :
    ((dest ≤ src ∨ src.toNat + n ≤ dest.toNat) →
        memcpy m dest src n = memmove m dest src n) ∧
      (src < dest → dest.toNat < src.toNat + n →
        (∀ i, i < n → (memcpy m dest src n).2 (offset dest i) =
            m (offset src (i % (dest.toNat - src.toNat)))) ∧
          (∀ a, (a.toNat < dest.toNat ∨ dest.toNat + n ≤ a.toNat) →
            (memcpy m dest src n).2 a = m a) ∧
          (memcpy m dest src n = memmove m dest src n ↔ ∀ i, i < n →
            m (offset src i) = m (offset src (i % (dest.toNat - src.toNat))))) := by
  refine ⟨?_, fun hlt _ => ⟨fun i => memcpy_repeats hdest hlt, fun a ha =>
    memcpy_of_not_inRange (by omega) (not_inRange_of_outside hdest ha), ?_⟩⟩
  · rintro (hle | hdisjoint)
    · exact memcpy_eq_memmove hdest hsrc (byteMoves_safe hdest hsrc hle)
    · exact memcpy_eq_memmove hdest hsrc (byteMoves_disjoint_safe hdest hsrc hdisjoint)
  · obtain ⟨is, his, hsafe, hrun⟩ := memmove_eq_copy hdest hsrc m
    have hmoved : ∀ i, i < n → (memmove m dest src n).2 (offset dest i) = m (offset src i) := by
      intro i hi
      rw [hrun]
      exact copy_get hsafe (List.mem_map_of_mem ((his i).mpr hi)) m
    constructor
    · intro heq i hi
      rw [← hmoved i hi, ← heq]
      exact memcpy_repeats hdest hlt hi
    · intro hperiodic
      refine Prod.ext (by rw [hrun, memcpy]) (funext fun a => ?_)
      by_cases ha : InRange dest n a
      · obtain ⟨i, hi, -, rfl⟩ := ha.exists_offset
        rw [memcpy_repeats hdest hlt hi, hmoved i hi, hperiodic i hi]
      · rw [memcpy_of_not_inRange (by omega) ha, hrun]
        exact (copy_byteMoves_of_not_inRange (by omega) (fun i => (his i).mp) ha).symm

end

/-- The copy of a page to 256 bytes further on fills it with the first 256 bytes; back it is a
move. -/
theorem memcpy_memmove_page :
    let m : Memory := fun a => (a >>> 4).setWidth 8
    (∀ i, i < 4096 →
        (memcpy m 0x6000 0x5F00 4096).2 (offset 0x6000 i) = m (offset 0x5F00 (i % 256))) ∧
      memcpy m 0x6000 0x5F00 4096 ≠ memmove m 0x6000 0x5F00 4096 ∧
      memcpy m 0x5F00 0x6000 4096 = memmove m 0x5F00 0x6000 4096 := by
  intro m
  obtain ⟨-, hover⟩ := @memcpy_memmove m 0x6000 0x5F00 4096 (by decide) (by decide)
  obtain ⟨hrepeats, -, hiff⟩ := hover (by decide) (by decide)
  obtain ⟨hagree, -⟩ := @memcpy_memmove m 0x5F00 0x6000 4096 (by decide) (by decide)
  refine ⟨hrepeats, fun heq => ?_, hagree (.inl (by decide))⟩
  have hperiodic := hiff.mp heq 256 (by decide)
  exact absurd hperiodic (by decide)

end KptrOS
