import Mathlib.Tactic.IntervalCases
import KptrOS.Lib.CSem
import KptrOS.Machine.Memory

/-!
# The allocation bitmap (`kern/mem/pmm.c`, lines 7–13)

`bitmap` is an array of 64-bit words of which the code uses the low eight bits:
index `i` lives in bit `i % 8` of word `i / 8`. The masks are computed in `int`
and converted to 64 bits by the compound assignment, so the complement reaches
the upper 56 bits of the word through sign extension only
(`clearMask_eq`).

`setBit_spec`, `clearBit_spec` and `testBit_of_lt` say that below `MAX_PAGES`
the three helpers never leave the array and behave as an array of independent
bits.
-/

namespace KptrOS

open CSem

/-- `MAX_PAGES`. -/
def maxPages : Nat := 65536 * 8

/-- `static uint64_t bitmap[MAX_PAGES / 2]`. -/
abbrev Bitmap := Arr (maxPages / 2) Word

/-- `1 << (index % 8)`, an `int`. -/
def bitMask (index : Nat) : BitVec 32 := 1#32 <<< (index % 8)

/-- `bitmap[index / 8] |= (1 << (index % 8))`. -/
def setBit (bitmap : Bitmap) (index : Nat) : Exec Bitmap := do
  let word ← bitmap.get (index / 8)
  bitmap.set (index / 8) (word ||| (bitMask index).signExtend 64)

/-- `bitmap[index / 8] &= ~(1 << (index % 8))`. -/
def clearBit (bitmap : Bitmap) (index : Nat) : Exec Bitmap := do
  let word ← bitmap.get (index / 8)
  bitmap.set (index / 8) (word &&& (~~~bitMask index).signExtend 64)

/-- `(bitmap[index / 8] & (1 << (index % 8))) != 0`. -/
def testBit (bitmap : Bitmap) (index : Nat) : Exec Bool := do
  let word ← bitmap.get (index / 8)
  return (word &&& (bitMask index).signExtend 64) != 0

/-! ## Masks -/

/-- The mask is positive as an `int`: widening it adds no bits. -/
theorem setMask_eq (index : Nat) :
    (bitMask index).signExtend 64 = BitVec.twoPow 64 (index % 8) := by
  have h : index % 8 < 8 := Nat.mod_lt _ (by decide)
  unfold bitMask
  generalize index % 8 = k at h ⊢
  interval_cases k <;> rfl

/-- The complement is negative as an `int`: widening it sets the upper bits. -/
theorem clearMask_eq (index : Nat) :
    (~~~bitMask index).signExtend 64 = ~~~BitVec.twoPow 64 (index % 8) := by
  rw [BitVec.signExtend_not (by decide), setMask_eq]

/-- Masking with one bit tests that bit. -/
theorem and_twoPow_ne_zero (word : Word) {k : Nat} (hk : k < 64) :
    ((word &&& BitVec.twoPow 64 k) != 0) = word.getLsbD k := by
  cases hb : word.getLsbD k with
  | false =>
    have h0 : word &&& BitVec.twoPow 64 k = 0 := by
      refine BitVec.eq_of_getLsbD_eq fun j hj => ?_
      by_cases hjk : k = j
      · subst hjk
        simp [hb]
      · simp [BitVec.getLsbD_twoPow, hjk]
    rw [h0]
    rfl
  | true =>
    have hne : word &&& BitVec.twoPow 64 k ≠ 0 := by
      intro h0
      have hbit : (word &&& BitVec.twoPow 64 k).getLsbD k = true := by
        rw [BitVec.getLsbD_and, BitVec.getLsbD_twoPow, hb]
        simp [hk]
      rw [h0] at hbit
      simp at hbit
    exact bne_iff_ne.mpr hne

/-! ## The helpers as an array of bits -/

/-- Bit `index` of the bitmap (false outside the array). -/
def bitAt (bitmap : Bitmap) (index : Nat) : Bool :=
  if h : index / 8 < maxPages / 2 then
    (bitmap.elem ⟨index / 8, h⟩).getLsbD (index % 8)
  else false

theorem word_index_lt {index : Nat} (h : index < maxPages) :
    index / 8 < maxPages / 2 := by
  unfold maxPages at h ⊢
  omega

/-- `test_bit` reads the bit and stays inside the array. -/
theorem testBit_of_word_lt (bitmap : Bitmap) {index : Nat} (hw : index / 8 < maxPages / 2) :
    testBit bitmap index = .ok (bitAt bitmap index) := by
  have hk : index % 8 < 64 := by omega
  rw [testBit, Arr.get_of_lt _ hw, ok_bind, pure_eq_ok, setMask_eq,
    and_twoPow_ne_zero _ hk, bitAt, dif_pos hw]

theorem testBit_of_lt (bitmap : Bitmap) {index : Nat} (h : index < maxPages) :
    testBit bitmap index = .ok (bitAt bitmap index) :=
  testBit_of_word_lt bitmap (word_index_lt h)

/-- A test that does not fault reads the bit. -/
theorem bitAt_of_testBit {bitmap : Bitmap} {index : Nat} {b : Bool}
    (h : testBit bitmap index = .ok b) : bitAt bitmap index = b := by
  by_cases hw : index / 8 < maxPages / 2
  · rw [testBit_of_word_lt _ hw] at h
    exact Except.ok.inj h
  · rw [testBit, Arr.get, dif_neg hw] at h
    cases h

/-- `set_bit` writes one bit of one word. -/
theorem setBit_eq (bitmap : Bitmap) {index : Nat} (h : index < maxPages) :
    setBit bitmap index = .ok (bitmap.put (index / 8)
      (bitmap.elem ⟨index / 8, word_index_lt h⟩ |||
        BitVec.twoPow 64 (index % 8))) := by
  rw [setBit, Arr.get_of_lt _ (word_index_lt h), ok_bind,
    Arr.set_of_lt _ (word_index_lt h), setMask_eq]

/-- `clear_bit` writes one bit of one word. -/
theorem clearBit_eq (bitmap : Bitmap) {index : Nat} (h : index < maxPages) :
    clearBit bitmap index = .ok (bitmap.put (index / 8)
      (bitmap.elem ⟨index / 8, word_index_lt h⟩ &&&
        ~~~BitVec.twoPow 64 (index % 8))) := by
  rw [clearBit, Arr.get_of_lt _ (word_index_lt h), ok_bind,
    Arr.set_of_lt _ (word_index_lt h), clearMask_eq]

/-- What `set_bit` does to every bit of every word, used by the allocator or not. -/
theorem getLsbD_of_setBit {bitmap bitmap' : Bitmap} {index : Nat} (h : index < maxPages)
    (hset : setBit bitmap index = .ok bitmap') (w : Fin (maxPages / 2)) (b : Nat) :
    (bitmap'.elem w).getLsbD b =
      ((bitmap.elem w).getLsbD b || decide (w.val = index / 8 ∧ b = index % 8)) := by
  rw [setBit_eq bitmap h] at hset
  cases hset
  by_cases hw : w.val = index / 8
  · obtain rfl : w = ⟨index / 8, word_index_lt h⟩ := Fin.ext hw
    simp only [Arr.put, BitVec.getLsbD_or, BitVec.getLsbD_twoPow, true_and, if_true]
    by_cases hb : b = index % 8
    · subst hb
      simp [Nat.lt_trans (Nat.mod_lt index (by decide : 8 > 0)) (by decide : 8 < 64)]
    · simp [hb, Ne.symm hb]
  · simp [Arr.put, hw]

/-- The same for `clear_bit`. -/
theorem getLsbD_of_clearBit {bitmap bitmap' : Bitmap} {index : Nat} (h : index < maxPages)
    (hclear : clearBit bitmap index = .ok bitmap') (w : Fin (maxPages / 2)) (b : Nat) :
    (bitmap'.elem w).getLsbD b =
      ((bitmap.elem w).getLsbD b && !decide (w.val = index / 8 ∧ b = index % 8)) := by
  rw [clearBit_eq bitmap h] at hclear
  cases hclear
  by_cases hw : w.val = index / 8
  · obtain rfl : w = ⟨index / 8, word_index_lt h⟩ := Fin.ext hw
    simp only [Arr.put, BitVec.getLsbD_and, BitVec.getLsbD_not, BitVec.getLsbD_twoPow,
      true_and, if_true]
    by_cases hb : b < 64
    · simp [hb, eq_comm, Nat.lt_trans (Nat.mod_lt index (by decide : 8 > 0)) (by decide : 8 < 64)]
    · simp [hb, BitVec.getLsbD_of_ge _ _ (Nat.le_of_not_lt hb)]
  · simp [Arr.put, hw]

/-- A write that changes one bit of one word changes one bit of the array. -/
theorem bitAt_of_words {bitmap bitmap' : Bitmap} {index : Nat} (h : index < maxPages)
    {g : Bool → Bool → Bool} (hg : g false false = false)
    (hwords : ∀ (w : Fin (maxPages / 2)) (b : Nat), (bitmap'.elem w).getLsbD b =
      g ((bitmap.elem w).getLsbD b) (decide (w.val = index / 8 ∧ b = index % 8))) (j : Nat) :
    bitAt bitmap' j = g (bitAt bitmap j) (decide (j = index)) := by
  unfold bitAt
  by_cases hj : j / 8 < maxPages / 2
  · have hbit : (j / 8 = index / 8 ∧ j % 8 = index % 8) ↔ j = index := by omega
    rw [dif_pos hj, dif_pos hj, hwords]
    exact congrArg (g _) (decide_eq_decide.mpr hbit)
  · have hne : j ≠ index := fun he => hj (he ▸ word_index_lt h)
    rw [dif_neg hj, dif_neg hj, decide_eq_false hne, hg]

theorem bitAt_of_setBit {bitmap bitmap' : Bitmap} {index : Nat} (h : index < maxPages)
    (hset : setBit bitmap index = .ok bitmap') (j : Nat) :
    bitAt bitmap' j = (bitAt bitmap j || decide (j = index)) :=
  bitAt_of_words (g := or) h rfl (getLsbD_of_setBit h hset) j

theorem bitAt_of_clearBit {bitmap bitmap' : Bitmap} {index : Nat} (h : index < maxPages)
    (hclear : clearBit bitmap index = .ok bitmap') (j : Nat) :
    bitAt bitmap' j = (bitAt bitmap j && !decide (j = index)) :=
  bitAt_of_words (g := fun x y => x && !y) h rfl (getLsbD_of_clearBit h hclear) j

/-- `set_bit` sets its bit and no other. -/
theorem setBit_spec (bitmap : Bitmap) {index : Nat} (h : index < maxPages) :
    ∃ bitmap', setBit bitmap index = .ok bitmap' ∧
      ∀ j, bitAt bitmap' j = (bitAt bitmap j || decide (j = index)) :=
  ⟨_, setBit_eq bitmap h, bitAt_of_setBit h (setBit_eq bitmap h)⟩

/-- `clear_bit` clears its bit and no other. -/
theorem clearBit_spec (bitmap : Bitmap) {index : Nat} (h : index < maxPages) :
    ∃ bitmap', clearBit bitmap index = .ok bitmap' ∧
      ∀ j, bitAt bitmap' j = (bitAt bitmap j && !decide (j = index)) :=
  ⟨_, clearBit_eq bitmap h, bitAt_of_clearBit h (clearBit_eq bitmap h)⟩

end KptrOS
