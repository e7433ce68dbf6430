import KptrOS.Lib.CSem
import KptrOS.Machine.Memory
import KptrOS.Mem.Bitmap

/-!
# The static page tables (`kern/mem/paging.c`)

`load_pages` fills one leaf table twice, byte by byte: once with the identity,
once with the kernel's file address under the slots that 21 bits of the
higher-half offset select, rewriting entry 0 of the leaf table after every
store of the second loop.

- `loadPages`: the source's loops, with every store bounds-checked.
- `lastOff`: the last offset of the second loop that selects a slot.
- `loadPages_ok`: the closed form. No store is out of bounds; the upper tables
  change at entry 0 only; each leaf entry is given by the last store to it.
-/

namespace KptrOS

open CSem

/-- `ENTRIES`. -/
def entries : Nat := 512

/-- The four static tables. -/
structure PageTables where
  pml4 : Arr entries Word
  pdpt : Arr entries Word
  pd : Arr entries Word
  pt : Arr entries Word

/-- The tables as the loader leaves them (`.bss`). -/
def PageTables.zeroed : PageTables :=
  ⟨.const entries 0, .const entries 0, .const entries 0, .const entries 0⟩

/-- Link-time addresses of the four tables. -/
structure TableAddrs where
  pml4 : Word
  pdpt : Word
  pd : Word
  pt : Word

/-- Body of the identity loop: `pt[addr / PAGE_SIZE] = addr | 0x03`. -/
def identityStore (addr : Nat) (pt : Arr entries Word) : Exec (Arr entries Word) :=
  pt.set (addr / pageSize) (BitVec.ofNat 64 addr ||| 0x03)

/-- Body of the kernel loop: one store under the slot of `virt`, then `MAX_PAGES`
stores to entry 0. -/
def kernelStore (hhdmOffset kernelAddr : Word) (off : Nat)
    (pt : Arr entries Word) : Exec (Arr entries Word) := do
  let virt := hhdmOffset + BitVec.ofNat 64 off
  let phys := kernelAddr + BitVec.ofNat 64 off
  let index := (virt &&& 0x1FFFFF) / BitVec.ofNat 64 pageSize
  let pt ← pt.set index.toNat (phys ||| 0x03)
  forRange (fun _ pt => pt.set 0 (virt ||| 1)) maxPages 0 pt

/-- `load_pages`, given the table addresses, `hhdm_request.response->offset` and
`executable_file_request.response->executable_file->address`. -/
def loadPages (addrs : TableAddrs) (hhdmOffset kernelAddr : Word)
    (t : PageTables) : Exec PageTables := do
  let pt ← forRange identityStore maxPages 0 t.pt
  let pd ← t.pd.set 0 (addrs.pt ||| 0x03)
  let pdpt ← t.pdpt.set 0 (addrs.pd ||| 0x03)
  let pml4 ← t.pml4.set 0 (addrs.pdpt ||| 0x03)
  let pt ← forRange (kernelStore hhdmOffset kernelAddr) maxPages 0 pt
  return { pml4, pdpt, pd, pt }

/-! ## The identity loop -/

/-- What the identity loop has stored in entry `j` after its first `n` addresses:
the last of them that falls into page `j`. -/
def identityEntry (n j : Nat) : Option Word :=
  if j * pageSize < n then
    some (BitVec.ofNat 64 (min (n - 1) (j * pageSize + (pageSize - 1))) ||| 0x03)
  else none

theorem identityEntry_succ (n j : Nat) :
    identityEntry (n + 1) j =
      if j = n / pageSize then some (BitVec.ofNat 64 n ||| 0x03)
      else identityEntry n j := by
  unfold identityEntry pageSize
  by_cases hj : j = n / 4096
  · have hlast : min (n + 1 - 1) (j * 4096 + (4096 - 1)) = n := by omega
    rw [if_pos hj, if_pos (by omega), hlast]
  · rw [if_neg hj]
    by_cases hlt : j * 4096 < n
    · have hlast : min (n + 1 - 1) (j * 4096 + (4096 - 1)) =
          min (n - 1) (j * 4096 + (4096 - 1)) := by omega
      rw [if_pos (by omega), if_pos hlt, hlast]
    · rw [if_neg (by omega), if_neg hlt]

/-- The leaf table after the identity loop. -/
theorem identityLoop_ok (pt : Arr entries Word) :
    ∃ pt', forRange identityStore maxPages 0 pt = .ok pt' ∧
      ∀ j, pt'.get j = (identityEntry maxPages j).elim (pt.get j) .ok := by
  refine forRange_zero_inv
    (fun n (pt' : Arr entries Word) =>
      ∀ j, pt'.get j = (identityEntry n j).elim (pt.get j) .ok)
    (fun j => by simp [identityEntry]) ?_
  intro n pt' hn hI
  have hbound : n / pageSize < entries := by
    unfold maxPages at hn
    unfold pageSize entries
    omega
  refine ⟨_, Arr.set_of_lt _ hbound _, fun j => ?_⟩
  rw [identityEntry_succ]
  by_cases hj : j = n / pageSize
  · rw [if_pos hj, hj, Arr.get_put_self _ hbound]
    rfl
  · rw [if_neg hj, Arr.get_put_of_ne _ hj, hI]

/-! ## The kernel loop -/

/-- The slot of the leaf table that the kernel loop computes for an offset. -/
def slot (hhdmOffset : Word) (off : Nat) : Nat :=
  (hhdmOffset.toNat + off) % 2 ^ 21 / pageSize

theorem slot_lt (hhdmOffset : Word) (off : Nat) :
    slot hhdmOffset off < entries := by
  unfold slot pageSize entries
  omega

/-- The source's index computation is `slot`. -/
theorem slot_eq (hhdmOffset : Word) {off : Nat} (hoff : off < 2 ^ 64) :
    (((hhdmOffset + BitVec.ofNat 64 off) &&& 0x1FFFFF) /
      BitVec.ofNat 64 pageSize).toNat = slot hhdmOffset off := by
  have hmask : (0x1FFFFF : Word).toNat = 2 ^ 21 - 1 := rfl
  have hsize : (BitVec.ofNat 64 pageSize).toNat = pageSize := rfl
  rw [BitVec.toNat_udiv, BitVec.toNat_and, hmask, hsize,
    Nat.and_two_pow_sub_one_eq_mod, BitVec.toNat_add, BitVec.toNat_ofNat,
    Nat.mod_eq_of_lt hoff, slot]
  have hdvd : (2 : Nat) ^ 21 ∣ 2 ^ 64 := Nat.pow_dvd_pow 2 (by decide)
  rw [Nat.mod_mod_of_dvd _ hdvd]

/-- The last offset below `n` whose slot is `j`. -/
def lastOff (hhdmOffset : Word) (j : Nat) : Nat → Option Nat
  | 0 => none
  | n + 1 => if slot hhdmOffset n = j then some n else lastOff hhdmOffset j n

theorem lastOff_eq_none {hhdmOffset : Word} {j n : Nat} :
    lastOff hhdmOffset j n = none ↔ ∀ off, off < n → slot hhdmOffset off ≠ j := by
  induction n with
  | zero => simp [lastOff]
  | succ n ih =>
    by_cases h : slot hhdmOffset n = j
    · rw [lastOff, if_pos h]
      refine ⟨nofun, fun h' => absurd h (h' n (Nat.lt_succ_self n))⟩
    · rw [lastOff, if_neg h, ih]
      constructor
      · intro h' off hoff
        rcases Nat.lt_succ_iff_lt_or_eq.mp hoff with hlt | rfl
        · exact h' off hlt
        · exact h
      · intro h' off hoff
        exact h' off (Nat.lt_succ_of_lt hoff)

/-- What the kernel loop has stored in entry `j` after its first `n` offsets:
entry 0 holds the last rewrite, the others the last store under their slot. -/
def kernelEntry (hhdmOffset kernelAddr : Word) (n j : Nat) : Option Word :=
  if j = 0 then
    if n = 0 then none
    else some ((hhdmOffset + BitVec.ofNat 64 (n - 1)) ||| 1)
  else (lastOff hhdmOffset j n).map fun off =>
    (kernelAddr + BitVec.ofNat 64 off) ||| 0x03

/-- Storing one value over and over is storing it once. -/
theorem forRange_set_const {pt : Arr entries Word} {i : Nat} (hi : i < entries)
    (v : Word) {count : Nat} (hcount : 0 < count) (start : Nat) :
    forRange (fun _ (pt : Arr entries Word) => pt.set i v) count start pt =
      .ok (pt.put i v) := by
  obtain ⟨count, rfl⟩ := Nat.exists_eq_add_of_lt hcount
  rw [Nat.zero_add, forRange, Arr.set_of_lt _ hi, ok_bind]
  have hloop : ∃ pt', forRange (fun _ (pt : Arr entries Word) => pt.set i v)
      count (start + 1) (pt.put i v) = .ok pt' ∧ pt' = pt.put i v := by
    refine forRange_inv (fun _ (pt' : Arr entries Word) => pt' = pt.put i v) rfl ?_
    rintro _ _ _ _ rfl
    exact ⟨_, Arr.set_of_lt _ hi _, Arr.put_eq_self _ (Arr.get_put_self _ hi v)⟩
  obtain ⟨_, hrun, rfl⟩ := hloop
  exact hrun

/-- One iteration of the kernel loop: two entries change. -/
theorem kernelStore_ok (hhdmOffset kernelAddr : Word) {off : Nat}
    (hoff : off < maxPages) (pt : Arr entries Word) :
    kernelStore hhdmOffset kernelAddr off pt =
      .ok ((pt.put (slot hhdmOffset off)
        ((kernelAddr + BitVec.ofNat 64 off) ||| 0x03)).put 0
        ((hhdmOffset + BitVec.ofNat 64 off) ||| 1)) := by
  have hlt : off < 2 ^ 64 := by
    unfold maxPages at hoff
    omega
  unfold kernelStore
  dsimp only
  rw [slot_eq hhdmOffset hlt, Arr.set_of_lt pt (slot_lt hhdmOffset off), ok_bind]
  exact forRange_set_const (by decide) _ (by decide) 0

/-- The leaf table after the kernel loop. -/
theorem kernelLoop_ok (hhdmOffset kernelAddr : Word) (pt : Arr entries Word) :
    ∃ pt', forRange (kernelStore hhdmOffset kernelAddr) maxPages 0 pt = .ok pt' ∧
      ∀ j, pt'.get j =
        (kernelEntry hhdmOffset kernelAddr maxPages j).elim (pt.get j) .ok := by
  refine forRange_zero_inv
    (fun n (pt' : Arr entries Word) => ∀ j, pt'.get j =
      (kernelEntry hhdmOffset kernelAddr n j).elim (pt.get j) .ok)
    (fun j => by simp [kernelEntry, lastOff]) ?_
  intro n pt' hn hI
  refine ⟨_, kernelStore_ok hhdmOffset kernelAddr hn pt', fun j => ?_⟩
  by_cases hj0 : j = 0
  · -- entry 0 is rewritten after every other store
    subst hj0
    rw [Arr.get_put_self _ (by decide)]
    simp [kernelEntry]
  · have hslot := slot_lt hhdmOffset n
    rw [Arr.get_put_of_ne _ hj0, kernelEntry, if_neg hj0, lastOff]
    by_cases hj : slot hhdmOffset n = j
    · rw [if_pos hj, ← hj, Arr.get_put_self _ hslot]
      rfl
    · rw [if_neg hj, Arr.get_put_of_ne _ (Ne.symm hj), hI, kernelEntry,
        if_neg hj0]

/-! ## The closed form -/

/-- **`load_pages` in closed form**: it never stores out of bounds, changes the
upper tables at entry 0 only, and leaves in each leaf entry the last store of
the kernel loop or else of the identity loop. -/
theorem loadPages_ok (addrs : TableAddrs) (hhdmOffset kernelAddr : Word)
    (t : PageTables) :
    ∃ t', loadPages addrs hhdmOffset kernelAddr t = .ok t' ∧
      t'.pml4 = t.pml4.put 0 (addrs.pdpt ||| 0x03) ∧
      t'.pdpt = t.pdpt.put 0 (addrs.pd ||| 0x03) ∧
      t'.pd = t.pd.put 0 (addrs.pt ||| 0x03) ∧
      ∀ j, t'.pt.get j =
        (kernelEntry hhdmOffset kernelAddr maxPages j).elim
          ((identityEntry maxPages j).elim (t.pt.get j) .ok) .ok := by
  obtain ⟨pt₁, hrun₁, hpt₁⟩ := identityLoop_ok t.pt
  obtain ⟨pt₂, hrun₂, hpt₂⟩ := kernelLoop_ok hhdmOffset kernelAddr pt₁
  have h0 : 0 < entries := by decide
  refine ⟨⟨_, _, _, pt₂⟩, ?_, rfl, rfl, rfl, fun j => ?_⟩
  · rw [loadPages, hrun₁, ok_bind, Arr.set_of_lt _ h0, ok_bind,
      Arr.set_of_lt _ h0, ok_bind, Arr.set_of_lt _ h0, ok_bind, hrun₂]
    rfl
  · rw [hpt₂, hpt₁]

end KptrOS
