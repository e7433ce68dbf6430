import Mathlib.Data.List.Lex
import Mathlib.Order.Lattice

/-!
# Comparison functions

A comparison function of C returns an `int` whose sign is the result. Where it computes the
comparison of a linear order, the laws of the order are laws of the function.

- `sign`: the comparison of a linear order. `sign_neg`, `sign_pos`, `sign_eq_zero`: what its
  sign means.
- `sign_swap`, `sign_trans`: two arguments exchanged, and three of them.
- `sign_cons`, `sign_append`: lists compare lexicographically; a difference is final.
-/

namespace Compare

universe u v

variable {α : Type u} {β : Type v} [LinearOrder α] [LinearOrder β]

/-- The result of comparing `a` to `b`. -/
def sign (a b : α) : Int := if a < b then -1 else if b < a then 1 else 0

section

variable {a b c : α}

theorem sign_of_lt (h : a < b) : sign a b = -1 := if_pos h

theorem sign_of_gt (h : b < a) : sign a b = 1 := by
  rw [sign, if_neg h.not_gt, if_pos h]

@[simp] theorem sign_self (a : α) : sign a a = 0 := by
  rw [sign, if_neg (lt_irrefl a), if_neg (lt_irrefl a)]

theorem sign_neg : sign a b < 0 ↔ a < b := by
  rcases lt_trichotomy a b with hlt | rfl | hgt
  · rw [sign_of_lt hlt]
    exact iff_of_true (by decide) hlt
  · rw [sign_self]
    exact iff_of_false (by decide) (lt_irrefl a)
  · rw [sign_of_gt hgt]
    exact iff_of_false (by decide) hgt.not_gt

/-- Exchanging the arguments negates the result. -/
theorem sign_swap (a b : α) : sign b a = -sign a b := by
  rcases lt_trichotomy a b with hlt | rfl | hgt
  · rw [sign_of_lt hlt, sign_of_gt hlt]
    rfl
  · rw [sign_self]
    rfl
  · rw [sign_of_gt hgt, sign_of_lt hgt]

theorem sign_pos : 0 < sign a b ↔ b < a := by
  rw [← @sign_neg _ _ b a, sign_swap a b, Int.neg_lt_zero_iff]

theorem sign_nonpos : sign a b ≤ 0 ↔ a ≤ b := by
  rw [← Int.not_lt, sign_pos, not_lt]

theorem sign_eq_zero : sign a b = 0 ↔ a = b := by
  have hboth : a = b ↔ a ≤ b ∧ b ≤ a := le_antisymm_iff
  rw [hboth, ← @sign_nonpos _ _ a b, ← @sign_nonpos _ _ b a, sign_swap a b]
  omega

/-- Transitivity; the result is strict if one of the two is. -/
theorem sign_trans (hab : sign a b ≤ 0) (hbc : sign b c ≤ 0) :
    sign a c ≤ 0 ∧ (sign a b < 0 ∨ sign b c < 0 → sign a c < 0) := by
  rw [sign_nonpos] at hab hbc ⊢
  rw [sign_neg, sign_neg, sign_neg]
  refine ⟨hab.trans hbc, ?_⟩
  rintro (hlt | hlt)
  · exact hlt.trans_le hbc
  · exact hab.trans_lt hlt

/-- The result depends on the order of the arguments only. -/
theorem sign_congr {c d : β} (hlt : a < b ↔ c < d) (hgt : b < a ↔ d < c) :
    sign a b = sign c d := by
  rw [sign, sign]
  exact if_congr hlt rfl (if_congr hgt rfl rfl)

end

/-! ## Lists -/

theorem sign_cons_self (x : α) (xs ys : List α) : sign (x :: xs) (x :: ys) = sign xs ys := by
  have hcons : ∀ xs ys : List α, x :: xs < x :: ys ↔ xs < ys := fun xs ys =>
    List.cons_lt_cons_iff.trans (by simp)
  exact sign_congr (hcons xs ys) (hcons ys xs)

theorem sign_cons_of_ne {x y : α} (h : x ≠ y) (xs ys : List α) :
    sign (x :: xs) (y :: ys) = sign x y := by
  have hcons : ∀ {x y : α} (xs ys : List α), x ≠ y → (x :: xs < y :: ys ↔ x < y) :=
    fun xs ys h => List.cons_lt_cons_iff.trans (by simp [h])
  exact sign_congr (hcons xs ys h) (hcons ys xs h.symm)

/-- What follows a difference of two lists of one length does not count. -/
theorem sign_append {xs ys : List α} (hlength : xs.length = ys.length) (h : xs ≠ ys)
    (us vs : List α) : sign (xs ++ us) (ys ++ vs) = sign xs ys := by
  induction xs generalizing ys with
  | nil => exact absurd (List.length_eq_zero_iff.mp hlength.symm).symm h
  | cons x xs ih =>
    cases ys with
    | nil => cases hlength
    | cons y ys =>
      by_cases hxy : x = y
      · subst hxy
        have hne : xs ≠ ys := fun he => h (congrArg (x :: ·) he)
        rw [List.cons_append, List.cons_append, sign_cons_self, sign_cons_self,
          ih (Nat.succ.inj hlength) hne]
      · rw [List.cons_append, List.cons_append, sign_cons_of_ne hxy, sign_cons_of_ne hxy]

end Compare
