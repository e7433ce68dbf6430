import Mathlib.Data.List.Basic
import Mathlib.Logic.Function.Basic

/-!
# Copying cells one after another

A list of moves, each from one cell of a memory to another. When the ranges overlap, a move may
read what an earlier one has written; the order of the moves decides whether it does.

- `copy`: the moves in the order of the list.
- `Safe`: no cell is written twice, or written before it is read.
- `copy_get`: what safe moves leave; `copy_of_not_target`, `copy_of_eq`: what any moves leave
  alone; `copy_eq_of_safe`: in every safe order the moves do the same.
- `copy_shift`: moves along a row of cells, each `d` cells on, repeat the first `d` cells.
-/

namespace BlockCopy

universe u v

variable {A : Type u} {V : Type v} [DecidableEq A]

/-- The move to `mv.1` from `mv.2`. -/
def move (m : A → V) (mv : A × A) : A → V := Function.update m mv.1 (m mv.2)

/-- The moves of a list, one after another. -/
def copy (moves : List (A × A)) (m : A → V) : A → V := moves.foldl move m

/-- What a move writes is neither read nor written later. -/
def Safe (moves : List (A × A)) : Prop :=
  moves.Pairwise fun mv later => mv.1 ≠ later.2 ∧ mv.1 ≠ later.1

/-- Only targets are written. -/
theorem copy_of_not_target {moves : List (A × A)} {a : A} (h : ∀ mv ∈ moves, mv.1 ≠ a)
    (m : A → V) : copy moves m a = m a := by
  induction moves generalizing m with
  | nil => rfl
  | cons mv moves ih =>
    show copy moves (move m mv) a = m a
    rw [ih (fun later hlater => h later (List.mem_cons_of_mem mv hlater)), move,
      Function.update_of_ne (h mv List.mem_cons_self).symm]

/-- Moves from a cell to itself do nothing. -/
theorem copy_of_eq {moves : List (A × A)} (h : ∀ mv ∈ moves, mv.1 = mv.2) (m : A → V) :
    copy moves m = m := by
  induction moves with
  | nil => rfl
  | cons mv moves ih =>
    have hmove : move m mv = m := by
      rw [move, ← h mv List.mem_cons_self, Function.update_eq_self]
    show copy moves (move m mv) = m
    rw [hmove, ih fun later hlater => h later (List.mem_cons_of_mem mv hlater)]

/-- **Safe moves copy**: each target has the value that its source had before all of them. -/
theorem copy_get {moves : List (A × A)} (hsafe : Safe moves) {mv : A × A} (h : mv ∈ moves)
    (m : A → V) : copy moves m mv.1 = m mv.2 := by
  induction moves generalizing m with
  | nil => cases h
  | cons first moves ih =>
    obtain ⟨hfirst, hrest⟩ := List.pairwise_cons.mp hsafe
    show copy moves (move m first) mv.1 = m mv.2
    rcases List.mem_cons.mp h with rfl | hlater
    · rw [copy_of_not_target (fun later hlater => (hfirst later hlater).2.symm), move,
        Function.update_self]
    · rw [ih hrest hlater, move, Function.update_of_ne (hfirst mv hlater).1.symm]

/-- The order of the moves does not matter, as long as it is safe. -/
theorem copy_eq_of_safe {moves moves' : List (A × A)} (hsafe : Safe moves)
    (hsafe' : Safe moves') (h : ∀ mv, mv ∈ moves ↔ mv ∈ moves') (m : A → V) :
    copy moves m = copy moves' m := by
  funext a
  by_cases ha : ∃ mv ∈ moves, mv.1 = a
  · obtain ⟨mv, hmv, rfl⟩ := ha
    rw [copy_get hsafe hmv, copy_get hsafe' ((h mv).mp hmv)]
  · have hnot : ∀ mv ∈ moves, mv.1 ≠ a := fun mv hmv he => ha ⟨mv, hmv, he⟩
    rw [copy_of_not_target hnot, copy_of_not_target fun mv hmv => hnot mv ((h mv).mpr hmv)]

/-! ## Moves along a row -/

/-- Cell `i` of a row to cell `i + d`. -/
def shift (cell : Nat → A) (d i : Nat) : A × A := (cell (i + d), cell i)

/-- **Forward moves repeat the start of the row**: after `n` of them cell `j` has the value that
cell `j % d` had at first. -/
theorem copy_shift {cell : Nat → A} {d n : Nat} (hd : 0 < d)
    (hcell : ∀ i j, i < n + d → j < n + d → cell i = cell j → i = j) (m : A → V) {j : Nat}
    (hj : j < n + d) : copy ((List.range n).map (shift cell d)) m (cell j) = m (cell (j % d)) := by
  induction n generalizing j with
  | zero => rw [Nat.mod_eq_of_lt (by rwa [Nat.zero_add] at hj), List.range_zero]; rfl
  | succ n ih =>
    have hinner := fun {j} => @ih (fun i j hi hj => hcell i j (by omega) (by omega)) j
    have hlast : copy ((List.range (n + 1)).map (shift cell d)) m =
        move (copy ((List.range n).map (shift cell d)) m) (shift cell d n) := by
      rw [List.range_succ, List.map_append, copy, List.foldl_append]
      rfl
    rw [hlast, move]
    by_cases hnew : j = n + d
    · -- the value of cell `n` is itself a copy, unless `n < d`
      subst hnew
      show Function.update _ (cell (n + d)) _ (cell (n + d)) = _
      rw [Function.update_self, Nat.add_mod_right]
      exact hinner (by omega)
    · have hne : cell j ≠ cell (n + d) := fun he =>
        hnew (hcell j (n + d) hj (by omega) he)
      show Function.update _ (cell (n + d)) _ (cell j) = _
      rw [Function.update_of_ne hne]
      exact hinner (by omega)

end BlockCopy
