import KptrOS.Lib.Runs
import KptrOS.Mem.Bitmap

/-!
# The bitmap as an array of bits

`set_bit`, `clear_bit` and `test_bit` implement an array of `MAX_PAGES` bits, one update or
one look at a time. What they do to the words is said here for all 64 bits of each of them,
eight of which the array uses.

- `bits`: the array that a bitmap represents.
- `WritesBit`: one bit is written, and nothing else; `WritesBit.bits_eq`: on the array this is
  an update.
- `bits_independent`: the two writes do this.
- `bitSimulation`, `bits_run`: every list of calls is a run of the array.
-/

namespace KptrOS

open CSem

/-- The bits that a bitmap represents. -/
def bits (bitmap : Bitmap) (index : Fin maxPages) : Bool := bitAt bitmap index

/-! ## One call -/

/-- Between the two bitmaps the bit of `index` is given a value, and nothing else happens: to
no other bit of the array, and to no other bit of any word. -/
structure WritesBit (index : Nat) (value : Bool) (bitmap bitmap' : Bitmap) : Prop where
  self : testBit bitmap' index = .ok value
  other : ∀ j, j < maxPages → j ≠ index → testBit bitmap' j = testBit bitmap j
  word : ∀ (w : Fin (maxPages / 2)) (k : Nat), ¬ (w.val = index / 8 ∧ k = index % 8) →
    (bitmap'.elem w).getLsbD k = (bitmap.elem w).getLsbD k

theorem setBit_writesBit {bitmap bitmap' : Bitmap} {index : Nat} (h : index < maxPages)
    (hset : setBit bitmap index = .ok bitmap') : WritesBit index true bitmap bitmap' where
  self := by
    rw [testBit_of_lt _ h, bitAt_of_setBit h hset, decide_eq_true rfl, Bool.or_true]
  other := fun j hj hne => by
    rw [testBit_of_lt _ hj, testBit_of_lt _ hj, bitAt_of_setBit h hset, decide_eq_false hne,
      Bool.or_false]
  word := fun w k hk => by
    rw [getLsbD_of_setBit h hset, decide_eq_false hk, Bool.or_false]

theorem clearBit_writesBit {bitmap bitmap' : Bitmap} {index : Nat} (h : index < maxPages)
    (hclear : clearBit bitmap index = .ok bitmap') : WritesBit index false bitmap bitmap' where
  self := by
    rw [testBit_of_lt _ h, bitAt_of_clearBit h hclear, decide_eq_true rfl, Bool.not_true,
      Bool.and_false]
  other := fun j hj hne => by
    rw [testBit_of_lt _ hj, testBit_of_lt _ hj, bitAt_of_clearBit h hclear,
      decide_eq_false hne, Bool.not_false, Bool.and_true]
  word := fun w k hk => by
    rw [getLsbD_of_clearBit h hclear, decide_eq_false hk, Bool.not_false, Bool.and_true]

/-- On the array it is an update. -/
theorem WritesBit.bits_eq {bitmap bitmap' : Bitmap} {index : Fin maxPages} {value : Bool}
    (h : WritesBit index value bitmap bitmap') :
    bits bitmap' = Function.update (bits bitmap) index value := by
  funext j
  by_cases hj : j = index
  · subst hj
    rw [Function.update_self]
    exact bitAt_of_testBit h.self
  · have hother := h.other j j.isLt fun he => hj (Fin.ext he)
    rw [testBit_of_lt bitmap j.isLt] at hother
    rw [Function.update_of_ne hj]
    exact bitAt_of_testBit hother

/-- **The bits are independent**, whatever the words hold: below `MAX_PAGES` the word of an
index lies in the bitmap, and each of the two writes succeeds and writes one bit. -/
theorem bits_independent (bitmap : Bitmap) {index : Nat} (h : index < maxPages) :
    index / 8 < maxPages / 2 ∧
      (∃ bitmap', setBit bitmap index = .ok bitmap' ∧ WritesBit index true bitmap bitmap') ∧
      ∃ bitmap', clearBit bitmap index = .ok bitmap' ∧ WritesBit index false bitmap bitmap' := by
  refine ⟨word_index_lt h, ?_, ?_⟩
  · obtain ⟨bitmap', hset, -⟩ := setBit_spec bitmap h
    exact ⟨bitmap', hset, setBit_writesBit h hset⟩
  · obtain ⟨bitmap', hclear, -⟩ := clearBit_spec bitmap h
    exact ⟨bitmap', hclear, clearBit_writesBit h hclear⟩

/-- The last bit is cleared in a bitmap of ones: the unused bits of its word stay as they
are. -/
theorem bits_independent_last :
    ∃ bitmap', clearBit (.const _ (BitVec.allOnes 64)) 524287 = .ok bitmap' ∧
      testBit bitmap' 524287 = .ok false ∧
      ∀ w k, 8 ≤ k → (bitmap'.elem w).getLsbD k = (BitVec.allOnes 64).getLsbD k := by
  obtain ⟨-, -, bitmap', hclear, hwrites⟩ :=
    @bits_independent (.const _ (BitVec.allOnes 64)) 524287 (by decide)
  refine ⟨bitmap', hclear, hwrites.self, fun w k hk => hwrites.word w k ?_⟩
  rintro ⟨-, rfl⟩
  exact absurd hk (by decide)

/-! ## Any number of calls -/

/-- A call of a helper. -/
inductive BitCall where
  | set (index : Fin maxPages)
  | clear (index : Fin maxPages)
  | test (index : Fin maxPages)

/-- One call, with the result of a test. -/
def BitCall.step : BitCall → Bitmap → Exec (Option Bool × Bitmap)
  | .set index, bitmap => do
    let bitmap ← setBit bitmap index
    return (none, bitmap)
  | .clear index, bitmap => do
    let bitmap ← clearBit bitmap index
    return (none, bitmap)
  | .test index, bitmap => do
    let b ← testBit bitmap index
    return (some b, bitmap)

/-- The call on the array. -/
def BitCall.abstractStep : BitCall → (Fin maxPages → Bool) → Option Bool × (Fin maxPages → Bool)
  | .set index, a => (none, Function.update a index true)
  | .clear index, a => (none, Function.update a index false)
  | .test index, a => (some (a index), a)

/-- Every call is a call on the array. -/
theorem bitSimulation :
    Simulation BitCall.step BitCall.abstractStep fun bitmap a => bits bitmap = a where
  step_ok := by
    rintro c bitmap _ rfl
    cases c with
    | set index =>
      obtain ⟨bitmap', hset, -⟩ := setBit_spec bitmap index.isLt
      refine ⟨bitmap', ?_, (setBit_writesBit index.isLt hset).bits_eq⟩
      rw [BitCall.step, hset]
      rfl
    | clear index =>
      obtain ⟨bitmap', hclear, -⟩ := clearBit_spec bitmap index.isLt
      refine ⟨bitmap', ?_, (clearBit_writesBit index.isLt hclear).bits_eq⟩
      rw [BitCall.step, hclear]
      rfl
    | test index =>
      refine ⟨bitmap, ?_, rfl⟩
      rw [BitCall.step, testBit_of_lt _ index.isLt]
      rfl

/-- **The helpers implement an array of bits**: every list of calls succeeds, with the results
of the array. -/
theorem bits_run (calls : List BitCall) (bitmap : Bitmap) :
    ∃ bitmap', run BitCall.step calls bitmap =
        .ok ((trace BitCall.abstractStep calls (bits bitmap)).1, bitmap') ∧
      bits bitmap' = (trace BitCall.abstractStep calls (bits bitmap)).2 :=
  bitSimulation.run calls rfl

end KptrOS
