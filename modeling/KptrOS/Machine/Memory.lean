import Mathlib.Data.BitVec
import KptrOS.Lib.BlockCopy

/-!
# Byte memory

The memory of the machine, with the string functions of `kern/mem/memset.c` and
`kern/mem/memcpy.c`. Addresses are 64-bit words and wrap, as pointer arithmetic
does on the machine; physical and virtual addresses coincide, as the kernel
takes them to.

- `offset p i`: the address of `p[i]` for a byte pointer `p`.
- `InRange p n a`: `a` is one of the `n` bytes from `p` on.
- `memset_get`, `memset_of_not_inRange`: what `memset` leaves behind.
- `memcpyLoop_eq_copy`: the loop of `memcpy` as a list of moves;
  `copy_byteMoves_of_not_inRange`: what such moves leave alone.
- `memcpy_get`, `memcpy_of_not_inRange`: what the forward byte copy of `memcpy`
  leaves behind, for every overlap of the two ranges: byte `i` of the
  destination is read from the source after the bytes before it were written.
-/

namespace KptrOS

/-- `uint8_t`. -/
abbrev Byte := BitVec 8

/-- `uint64_t`, `uintptr_t` and pointers. -/
abbrev Word := BitVec 64

/-- The byte at every address. -/
abbrev Memory := Word → Byte

/-- `PAGE_SIZE`. -/
def pageSize : Nat := 4096

/-- The address `p + i` of byte `i` behind a pointer. -/
def offset (p : Word) (i : Nat) : Word := p + BitVec.ofNat 64 i

/-- `a` is one of the `n` bytes from `p` on. -/
def InRange (p : Word) (n : Nat) (a : Word) : Prop := (a - p).toNat < n

instance (p : Word) (n : Nat) (a : Word) : Decidable (InRange p n a) :=
  inferInstanceAs (Decidable (_ < _))

@[simp] theorem offset_zero (p : Word) : offset p 0 = p := BitVec.add_zero p

theorem offset_sub_toNat (p : Word) {i : Nat} (hi : i < 2 ^ 64) :
    (offset p i - p).toNat = i := by
  rw [offset, BitVec.add_comm, BitVec.add_sub_cancel, BitVec.toNat_ofNat,
    Nat.mod_eq_of_lt hi]

theorem inRange_offset {p : Word} {n i : Nat} (hi : i < 2 ^ 64) :
    InRange p n (offset p i) ↔ i < n := by
  rw [InRange, offset_sub_toNat p hi]

theorem InRange.mono {p a : Word} {n k : Nat} (h : InRange p n a)
    (hk : n ≤ k) : InRange p k a := Nat.lt_of_lt_of_le h hk

/-- Every address is at some offset from `p`. -/
theorem offset_sub (p a : Word) : offset p (a - p).toNat = a := by
  rw [offset, BitVec.ofNat_toNat, BitVec.setWidth_eq, BitVec.add_comm,
    BitVec.sub_add_cancel]

/-- A byte of a range, by its offset. -/
theorem InRange.exists_offset {p a : Word} {n : Nat} (h : InRange p n a) :
    ∃ i, i < n ∧ i < 2 ^ 64 ∧ a = offset p i :=
  ⟨(a - p).toNat, h, BitVec.isLt _, (offset_sub p a).symm⟩

/-! ## Pages -/

/-- `p` is the address of a page. -/
def Aligned (p : Word) : Prop := p.toNat % pageSize = 0

instance (p : Word) : Decidable (Aligned p) := inferInstanceAs (Decidable (_ = _))

/-- The page of an address in `InRange p pageSize`. -/
theorem InRange.page_eq {p a : Word} (hp : Aligned p)
    (h : InRange p pageSize a) : p.toNat = a.toNat / pageSize * pageSize := by
  unfold Aligned at hp
  unfold InRange at h
  rw [BitVec.toNat_sub] at h
  unfold pageSize at *
  omega

/-- Different pages share no byte. -/
theorem pages_disjoint {p q a : Word} (hp : Aligned p) (hq : Aligned q)
    (hpq : p ≠ q) (h : InRange p pageSize a) : ¬ InRange q pageSize a := by
  intro h'
  exact hpq (BitVec.eq_of_toNat_eq ((h.page_eq hp).trans (h'.page_eq hq).symm))

/-! ## `memset` -/

/-- The loop of `memset`, after `n` iterations. -/
def memsetLoop (m : Memory) (s : Word) (b : Byte) (n : Nat) : Memory :=
  n.fold (fun i _ m => Function.update m (offset s i) b) m

/-- `void *memset(void *s, int c, size_t n)`: the returned pointer and the
memory left behind. -/
def memset (m : Memory) (s : Word) (c : BitVec 32) (n : Nat) : Word × Memory :=
  (s, memsetLoop m s (c.setWidth 8) n)

@[simp] theorem memsetLoop_succ (m : Memory) (s : Word) (b : Byte) (n : Nat) :
    memsetLoop m s b (n + 1) =
      Function.update (memsetLoop m s b n) (offset s n) b := by
  simp [memsetLoop]

theorem memset_get {m : Memory} {s : Word} {c : BitVec 32} {n : Nat} {a : Word}
    (h : InRange s n a) : (memset m s c n).2 a = c.setWidth 8 := by
  show memsetLoop m s (c.setWidth 8) n a = c.setWidth 8
  induction n with
  | zero => exact absurd h (Nat.not_lt_zero _)
  | succ n ih =>
    rw [memsetLoop_succ]
    by_cases ha : a = offset s n
    · rw [ha, Function.update_self]
    · rw [Function.update_of_ne ha]
      refine ih (Nat.lt_of_le_of_ne (Nat.le_of_lt_succ h) fun hn => ha ?_)
      rw [← hn, offset_sub]

theorem memset_of_not_inRange {m : Memory} {s : Word} {c : BitVec 32} {n : Nat}
    (hn : n ≤ 2 ^ 64) {a : Word} (h : ¬ InRange s n a) :
    (memset m s c n).2 a = m a := by
  show memsetLoop m s (c.setWidth 8) n a = m a
  induction n with
  | zero => rfl
  | succ n ih =>
    have ha : a ≠ offset s n := by
      rintro rfl
      exact h ((inRange_offset hn).mpr (Nat.lt_succ_self n))
    rw [memsetLoop_succ, Function.update_of_ne ha]
    exact ih (by omega) fun h' => h (h'.mono (Nat.le_succ n))

/-! ## Moves of bytes -/

/-- Byte `i` of the source to byte `i` of the destination. -/
def byteMove (dest src : Word) (i : Nat) : Word × Word := (offset dest i, offset src i)

/-- In any order the moves write only the bytes of the destination. -/
theorem copy_byteMoves_of_not_inRange {m : Memory} {dest src : Word} {n : Nat}
    (hn : n ≤ 2 ^ 64) {is : List Nat} (his : ∀ i ∈ is, i < n) {a : Word}
    (h : ¬ InRange dest n a) : BlockCopy.copy (is.map (byteMove dest src)) m a = m a := by
  refine BlockCopy.copy_of_not_target (fun mv hmv => ?_) m
  obtain ⟨i, hi, rfl⟩ := List.mem_map.mp hmv
  rintro rfl
  have hlt := his i hi
  exact h ((inRange_offset (by omega)).mpr hlt)

/-! ## `memcpy` -/

/-- The loop of `memcpy`, after `n` iterations. -/
def memcpyLoop (m : Memory) (dest src : Word) (n : Nat) : Memory :=
  n.fold (fun i _ m => Function.update m (offset dest i) (m (offset src i))) m

/-- `void *memcpy(void *dest, const void *src, size_t n)`: the returned pointer
and the memory left behind. -/
def memcpy (m : Memory) (dest src : Word) (n : Nat) : Word × Memory :=
  (dest, memcpyLoop m dest src n)

@[simp] theorem memcpyLoop_succ (m : Memory) (dest src : Word) (n : Nat) :
    memcpyLoop m dest src (n + 1) =
      Function.update (memcpyLoop m dest src n) (offset dest n)
        (memcpyLoop m dest src n (offset src n)) := by
  simp [memcpyLoop]

theorem memcpyLoop_eq_copy (m : Memory) (dest src : Word) (n : Nat) :
    memcpyLoop m dest src n = BlockCopy.copy ((List.range n).map (byteMove dest src)) m := by
  induction n with
  | zero => rfl
  | succ n ih =>
    rw [memcpyLoop_succ, List.range_succ, List.map_append, BlockCopy.copy, List.foldl_append,
      ih]
    rfl

/-- Iterations write only the bytes of the destination. -/
theorem memcpyLoop_of_not_inRange {m : Memory} {dest src : Word} {n : Nat}
    (hn : n ≤ 2 ^ 64) {a : Word} (h : ¬ InRange dest n a) :
    memcpyLoop m dest src n a = m a := by
  rw [memcpyLoop_eq_copy]
  exact copy_byteMoves_of_not_inRange hn (fun i => List.mem_range.mp) h

/-- A byte of the destination keeps the value its own iteration wrote. -/
theorem memcpyLoop_stable {m : Memory} {dest src : Word} {k n : Nat}
    (hk : k ≤ n) (hn : n ≤ 2 ^ 64) {a : Word} (h : InRange dest k a) :
    memcpyLoop m dest src n a = memcpyLoop m dest src k a := by
  induction n, hk using Nat.le_induction with
  | base => rfl
  | succ n hkn ih =>
    have ha : a ≠ offset dest n := by
      rintro rfl
      exact absurd ((inRange_offset hn).mp h) (Nat.not_lt.mpr hkn)
    rw [memcpyLoop_succ, Function.update_of_ne ha]
    exact ih (by omega)

/-- **The forward copy**: byte `i` of the destination is the source byte, as the
copy leaves it when the first `i` destination bytes cover it, and as it was
before otherwise. -/
theorem memcpy_get {m : Memory} {dest src : Word} {n i : Nat} (hi : i < n)
    (hn : n ≤ 2 ^ 64) :
    (memcpy m dest src n).2 (offset dest i) =
      if InRange dest i (offset src i) then (memcpy m dest src n).2 (offset src i)
      else m (offset src i) := by
  show memcpyLoop m dest src n (offset dest i) =
    if InRange dest i (offset src i) then memcpyLoop m dest src n (offset src i)
    else m (offset src i)
  have hwritten : memcpyLoop m dest src n (offset dest i) =
      memcpyLoop m dest src i (offset src i) := by
    have hin : InRange dest (i + 1) (offset dest i) :=
      (inRange_offset (by omega)).mpr (Nat.lt_succ_self i)
    rw [memcpyLoop_stable hi hn hin, memcpyLoop_succ, Function.update_self]
  rw [hwritten]
  by_cases hcov : InRange dest i (offset src i)
  · rw [if_pos hcov, memcpyLoop_stable hi.le hn hcov]
  · rw [if_neg hcov, memcpyLoop_of_not_inRange (by omega) hcov]

theorem memcpy_of_not_inRange {m : Memory} {dest src : Word} {n : Nat}
    (hn : n ≤ 2 ^ 64) {a : Word} (h : ¬ InRange dest n a) :
    (memcpy m dest src n).2 a = m a :=
  memcpyLoop_of_not_inRange hn h

/-- Copying from outside the destination gives the source byte. -/
theorem memcpy_get_of_disjoint {m : Memory} {dest src : Word} {n i : Nat}
    (hi : i < n) (hn : n ≤ 2 ^ 64) (h : ¬ InRange dest n (offset src i)) :
    (memcpy m dest src n).2 (offset dest i) = m (offset src i) := by
  rw [memcpy_get hi hn, if_neg fun h' => h (h'.mono hi.le)]

/-- When source byte `i` is destination byte `d`, and source byte `d` is a destination
byte before `d`, the copy meets `d` before `i`. -/
theorem overlap_lt {dest src : Word} {i d : Nat} (hd : d < 2 ^ 63)
    (hi : offset src i = offset dest d) (hcov : InRange dest d (offset src d)) : d < i := by
  by_contra hge
  unfold InRange at hcov
  have hshift : offset src d = offset dest (d + (d - i)) := by
    have h1 : offset src d = offset (offset src i) (d - i) := by
      rw [offset, offset, offset, BitVec.add_assoc, ← BitVec.ofNat_add]
      congr 2
      omega
    rw [h1, hi, offset, offset, offset, BitVec.add_assoc, ← BitVec.ofNat_add]
  rw [hshift, offset_sub_toNat dest (by omega)] at hcov
  omega

/-- **When a copy leaves its source alone**: exactly when each source byte that lies
in the destination has the value that is copied to it. -/
theorem memcpy_keeps_source_iff {m : Memory} {dest src : Word} {len n : Nat}
    (hn : n ≤ 2 ^ 63) :
    (∀ i, i < len → (memcpy m dest src n).2 (offset src i) = m (offset src i)) ↔
      ∀ i, i < len → InRange dest n (offset src i) →
        m (offset src (offset src i - dest).toNat) = m (offset src i) := by
  have hwritten : ∀ d, d < n → (memcpy m dest src n).2 (offset dest d) =
      if InRange dest d (offset src d) then (memcpy m dest src n).2 (offset src d)
      else m (offset src d) := fun d hd => memcpy_get hd (by omega)
  constructor
  · -- source byte `i` is destination byte `d`, which the copy set to source byte `d`
    intro hkeep i hi hin
    obtain ⟨d, hd, hd64, hid⟩ := hin.exists_offset
    rw [hid, offset_sub_toNat dest hd64, ← hid]
    have hget := hwritten d hd
    rw [← hid, hkeep i hi] at hget
    by_cases hcov : InRange dest d (offset src d)
    · rw [if_pos hcov, hkeep d ((overlap_lt (by omega) hid hcov).trans hi)] at hget
      exact hget.symm
    · rw [if_neg hcov] at hget
      exact hget.symm
  · -- source byte `d` itself may have been overwritten before, but then `d < i`
    intro hsame i
    induction i using Nat.strong_induction_on with
    | _ i ih =>
      intro hi
      by_cases hin : InRange dest n (offset src i)
      · have hsrc := hsame i hi hin
        obtain ⟨d, hd, hd64, hid⟩ := hin.exists_offset
        rw [hid, offset_sub_toNat dest hd64, ← hid] at hsrc
        have hget := hwritten d hd
        rw [← hid] at hget
        by_cases hcov : InRange dest d (offset src d)
        · have hlt := overlap_lt (by omega) hid hcov
          rw [hget, if_pos hcov, ih d hlt (hlt.trans hi), hsrc]
        · rw [hget, if_neg hcov, hsrc]
      · exact memcpy_of_not_inRange (by omega) hin

/-- A copy that leaves its source alone copies it. -/
theorem memcpy_get_of_keeps {m : Memory} {dest src : Word} {n i : Nat} (hi : i < n)
    (hn : n ≤ 2 ^ 64)
    (hkeep : (memcpy m dest src n).2 (offset src i) = m (offset src i)) :
    (memcpy m dest src n).2 (offset dest i) = m (offset src i) := by
  rw [memcpy_get hi hn]
  by_cases hcov : InRange dest i (offset src i)
  · rw [if_pos hcov, hkeep]
  · rw [if_neg hcov]

/-! ## Loads and stores -/

/-- The `n` bytes from `a` on, the first one lowest. -/
def loadBytes (m : Memory) (a : Word) : (n : Nat) → BitVec (8 * n)
  | 0 => 0#0
  | n + 1 => (m (offset a n) ++ loadBytes m a n).cast (by omega)

/-- An 8-byte load. -/
def load64 (m : Memory) (a : Word) : Word := loadBytes m a 8

/-- The memory with the `n` bytes of `w` stored from `a` on. -/
def storeBytes (m : Memory) (a : Word) {n : Nat} (w : BitVec (8 * n)) : Memory := fun x =>
  if InRange a n x then w.extractLsb' (8 * (x - a).toNat) 8 else m x

/-- An 8-byte store. -/
def store64 (m : Memory) (a w : Word) : Memory := storeBytes m a (n := 8) w

theorem getLsbD_loadBytes (m : Memory) (a : Word) {n i : Nat} (hi : i < 8 * n) :
    (loadBytes m a n).getLsbD i = (m (offset a (i / 8))).getLsbD (i % 8) := by
  induction n with
  | zero => exact absurd hi (Nat.not_lt_zero i)
  | succ n ih =>
    rw [loadBytes, BitVec.getLsbD_cast, BitVec.getLsbD_append]
    by_cases hlow : i < 8 * n
    · rw [if_pos hlow, ih hlow]
    · rw [if_neg hlow]
      congr 2
      · congr 1
        omega
      · omega

/-- A load depends on the bytes it reads. -/
theorem load64_congr {m m' : Memory} {a b : Word}
    (h : ∀ i, i < 8 → m (offset a i) = m' (offset b i)) : load64 m a = load64 m' b := by
  refine BitVec.eq_of_getLsbD_eq fun i hi => ?_
  rw [load64, load64, getLsbD_loadBytes m a hi, getLsbD_loadBytes m' b hi, h _ (by omega)]

/-- A load from the beginning of a copy whose source begins outside it. -/
theorem load64_memcpy {m : Memory} {dest src : Word} {n : Nat} (h8 : 8 ≤ n) (hn : n ≤ 2 ^ 64)
    (hdisj : ∀ i, i < 8 → ¬ InRange dest n (offset src i)) :
    load64 (memcpy m dest src n).2 dest = load64 m src :=
  load64_congr fun i hi => memcpy_get_of_disjoint (by omega) hn (hdisj i hi)

/-- A load after a store to the same address. -/
theorem load64_store64 (m : Memory) (a w : Word) : load64 (store64 m a w) a = w := by
  refine BitVec.eq_of_getLsbD_eq fun i hi => ?_
  have hi8 : i / 8 < 2 ^ 64 := by omega
  rw [load64, getLsbD_loadBytes _ a hi, store64, storeBytes,
    if_pos ((inRange_offset hi8).mpr (by omega)), offset_sub_toNat a hi8,
    BitVec.getLsbD_extractLsb']
  have hbit : 8 * (i / 8) + i % 8 = i := Nat.div_add_mod i 8
  have hlow : i % 8 < 8 := Nat.mod_lt i (by decide)
  rw [hbit, decide_eq_true hlow, Bool.true_and]

/-- A load that shares no byte with a store. -/
theorem load64_store64_of_disjoint {m : Memory} {a b w : Word}
    (h : ∀ i, i < 8 → ¬ InRange a 8 (offset b i)) :
    load64 (store64 m a w) b = load64 m b :=
  load64_congr fun i hi => if_neg (h i hi)

end KptrOS
