import KptrOS.Machine.Memory
import KptrOS.Lib.CSem

/-!
# Structures in memory

Packed structures as arrays of bytes, with fields at fixed offsets, lowest byte first.

- `littleEndian`: the number in a sequence of bytes; `littleEndian_extract`: a number is the
  one in its own bytes.
- `Struct n`: a structure of `n` bytes; `Struct.sub`, `Struct.setSub`: a structure in it, and
  `Struct.field`, `Struct.setField`: a number in it.
- `loadStruct`, `storeStruct`: a structure in memory, with `loadStruct_storeStruct`.
-/

namespace KptrOS

open CSem

theorem offset_offset (p : Word) (i j : Nat) : offset (offset p i) j = offset p (i + j) := by
  rw [offset, offset, offset, BitVec.add_assoc, ← BitVec.ofNat_add]

/-! ## Numbers in bytes -/

theorem bits_succ (n : Nat) : 8 + 8 * n = 8 * (n + 1) := by omega

/-- The number in the bytes `f 0`, …, `f (n - 1)`. -/
def littleEndian (f : Nat → Byte) : (n : Nat) → BitVec (8 * n)
  | 0 => 0#0
  | n + 1 => (f n ++ littleEndian f n).cast (bits_succ n)

theorem getLsbD_littleEndian (f : Nat → Byte) {n i : Nat} (hi : i < 8 * n) :
    (littleEndian f n).getLsbD i = (f (i / 8)).getLsbD (i % 8) := by
  induction n with
  | zero => exact absurd hi (Nat.not_lt_zero i)
  | succ n ih =>
    rw [littleEndian, BitVec.getLsbD_cast, BitVec.getLsbD_append]
    by_cases hlow : i < 8 * n
    · rw [if_pos hlow, ih hlow]
    · rw [if_neg hlow]
      have hn : i / 8 = n := by omega
      have hmod : i - 8 * n = i % 8 := by omega
      rw [hn, hmod]

/-- It depends on these bytes only. -/
theorem littleEndian_congr {f g : Nat → Byte} {n : Nat} (h : ∀ i, i < n → f i = g i) :
    littleEndian f n = littleEndian g n := by
  refine BitVec.eq_of_getLsbD_eq fun i hi => ?_
  rw [getLsbD_littleEndian f hi, getLsbD_littleEndian g hi, h _ (by omega)]

/-- A number is the one in its own bytes. -/
theorem littleEndian_extract {n : Nat} (w : BitVec (8 * n)) :
    littleEndian (fun i => w.extractLsb' (8 * i) 8) n = w := by
  refine BitVec.eq_of_getLsbD_eq fun i hi => ?_
  have hbit : 8 * (i / 8) + i % 8 = i := Nat.div_add_mod i 8
  have hlow : i % 8 < 8 := Nat.mod_lt i (by decide)
  rw [getLsbD_littleEndian _ hi, BitVec.getLsbD_extractLsb', hbit, decide_eq_true hlow,
    Bool.true_and]

/-- A load is the number in the bytes of memory. -/
theorem load64_eq_littleEndian (m : Memory) (a : Word) :
    load64 m a = littleEndian (fun i => m (offset a i)) 8 := by
  refine BitVec.eq_of_getLsbD_eq fun i hi => ?_
  rw [load64, getLsbD_loadBytes m a hi, getLsbD_littleEndian _ hi]

/-! ## Structures -/

/-- A packed structure of `n` bytes. -/
abbrev Struct (n : Nat) := Arr n Byte

namespace Struct

variable {n k : Nat}

/-- The byte at an offset. -/
def byte (s : Struct n) (i : Nat) : Byte := if h : i < n then s.elem ⟨i, h⟩ else 0

/-- The structure of `k` bytes at an offset. -/
def sub (s : Struct n) (offset k : Nat) : Struct k := ⟨fun i => s.byte (offset + i)⟩

/-- The structure with another one written over it at an offset. -/
def setSub (s : Struct n) (offset : Nat) (t : Struct k) : Struct n :=
  ⟨fun j => if offset ≤ j.val ∧ j.val < offset + k then t.byte (j - offset) else s.elem j⟩

/-- The structure as a number, and a number as a structure. -/
def number (s : Struct n) : BitVec (8 * n) := littleEndian s.byte n

def ofNumber (w : BitVec (8 * n)) : Struct n := ⟨fun i => w.extractLsb' (8 * i.val) 8⟩

/-- The field of `size` bytes at an offset. -/
def field (s : Struct n) (offset size : Nat) : BitVec (8 * size) := (s.sub offset size).number

/-- The structure with the field at an offset replaced. -/
def setField (s : Struct n) (offset size : Nat) (w : BitVec (8 * size)) : Struct n :=
  s.setSub offset (ofNumber w)

/-- The `size` characters at an offset. -/
def text (s : Struct n) (offset size : Nat) : List Byte :=
  (List.range size).map fun i => s.byte (offset + i)

/-- What a pointer to an offset points to, up to the end of the structure. -/
def pointer (s : Struct n) (offset : Nat) : List Byte := (List.ofFn s.elem).drop offset

theorem byte_of_lt (s : Struct n) {i : Nat} (h : i < n) : s.byte i = s.elem ⟨i, h⟩ := dif_pos h

theorem byte_sub (s : Struct n) (offset : Nat) {i : Nat} (h : i < k) :
    (s.sub offset k).byte i = s.byte (offset + i) := byte_of_lt _ h

theorem byte_setSub (s : Struct n) (offset : Nat) (t : Struct k) {i : Nat} (h : i < n) :
    (s.setSub offset t).byte i =
      if offset ≤ i ∧ i < offset + k then t.byte (i - offset) else s.byte i := by
  rw [byte_of_lt _ h, byte_of_lt s h]
  rfl

/-- Structures with the same bytes are equal. -/
theorem ext_byte {s t : Struct n} (h : ∀ i, i < n → s.byte i = t.byte i) : s = t := by
  refine Arr.ext_get fun i hi => ?_
  rw [Arr.get_of_lt _ hi, Arr.get_of_lt _ hi, ← byte_of_lt, ← byte_of_lt, h i hi]

/-- What has been written over the structure. -/
@[simp] theorem sub_setSub (s : Struct n) {offset : Nat} (t : Struct k) (h : offset + k ≤ n) :
    (s.setSub offset t).sub offset k = t :=
  ext_byte fun i hi => by
    rw [byte_sub _ _ hi, byte_setSub _ _ _ (by omega), if_pos (by omega), Nat.add_sub_cancel_left]

/-- What lies beside it. -/
theorem sub_setSub_of_disjoint (s : Struct n) {offset offset' k' : Nat} (t : Struct k)
    (h : offset' + k' ≤ n) (hdisjoint : offset' + k' ≤ offset ∨ offset + k ≤ offset') :
    (s.setSub offset t).sub offset' k' = s.sub offset' k' :=
  ext_byte fun i hi => by
    rw [byte_sub _ _ hi, byte_sub _ _ hi, byte_setSub _ _ _ (by omega), if_neg (by omega)]

@[simp] theorem number_ofNumber (w : BitVec (8 * n)) : (ofNumber w).number = w := by
  rw [number]
  refine Eq.trans (littleEndian_congr fun i hi => ?_) (littleEndian_extract w)
  exact byte_of_lt _ hi

/-- A field that has been replaced. -/
theorem field_setField (s : Struct n) {offset size : Nat} (w : BitVec (8 * size))
    (h : offset + size ≤ n) : (s.setField offset size w).field offset size = w := by
  rw [field, setField, sub_setSub _ _ h, number_ofNumber]

/-- A field beside one that has been replaced. -/
theorem field_setField_of_disjoint (s : Struct n) {offset size offset' size' : Nat}
    (w : BitVec (8 * size)) (h : offset' + size' ≤ n)
    (hdisjoint : offset' + size' ≤ offset ∨ offset + size ≤ offset') :
    (s.setField offset size w).field offset' size' = s.field offset' size' := by
  rw [field, setField, sub_setSub_of_disjoint _ _ h hdisjoint, field]

theorem pointer_length (s : Struct n) (offset : Nat) :
    (s.pointer offset).length = n - offset := by
  rw [pointer, List.length_drop, List.length_ofFn]

end Struct

/-- The structure of `n` bytes at an address. -/
def loadStruct (m : Memory) (p : Word) (n : Nat) : Struct n := ⟨fun i => m (offset p i)⟩

theorem byte_loadStruct (m : Memory) (p : Word) {n i : Nat} (h : i < n) :
    (loadStruct m p n).byte i = m (offset p i) := Struct.byte_of_lt _ h

theorem loadStruct_congr {m m' : Memory} {p q : Word} {n : Nat}
    (h : ∀ i, i < n → m (offset p i) = m' (offset q i)) :
    loadStruct m p n = loadStruct m' q n :=
  Struct.ext_byte fun i hi => by rw [byte_loadStruct m p hi, byte_loadStruct m' q hi, h i hi]

/-- The memory with a structure stored at an address. -/
def storeStruct {n : Nat} (m : Memory) (p : Word) (s : Struct n) : Memory := fun a =>
  if InRange p n a then s.byte (a - p).toNat else m a

theorem loadStruct_storeStruct {n : Nat} (hn : n ≤ 2 ^ 64) (m : Memory) (p : Word)
    (s : Struct n) : loadStruct (storeStruct m p s) p n = s :=
  Struct.ext_byte fun i hi => by
    rw [byte_loadStruct _ _ hi, storeStruct, if_pos ((inRange_offset (by omega)).mpr hi),
      offset_sub_toNat p (by omega)]

theorem storeStruct_of_not_inRange {n : Nat} {m : Memory} {p : Word} {s : Struct n} {a : Word}
    (h : ¬ InRange p n a) : storeStruct m p s a = m a := if_neg h

end KptrOS
