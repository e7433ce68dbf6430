import Mathlib.Data.Nat.Digits.Lemmas

/-!
# Positional numerals

Texts that stand for numbers: a base, a character for each digit, and the digits in a row, the
highest first.

- `value`: the number that digits stand for; `valueFrom` starts with a number read before.
- `Canonical`: digits without superfluous zeros; `Canonical.unique`: the number determines
  them; `canonical_digits`: every number has some.
- `parse`: reading a text back, given the digit of each character.
- `fixed`: numerals of a fixed width; `parse_fixed` reads them back, and `fixed_lt_iff`
  compares them as texts.
-/

namespace Numeral

variable {σ : Type} {b : Nat}

/-! ## Digits -/

/-- The number that the digits stand for, the highest first. -/
def value (b : Nat) (ds : List Nat) : Nat := ds.foldl (fun v d => v * b + d) 0

theorem value_concat (b : Nat) (ds : List Nat) (d : Nat) :
    value b (ds ++ [d]) = value b ds * b + d := List.foldl_concat ..

theorem value_singleton (b d : Nat) : value b [d] = d := by
  show 0 * b + d = d
  rw [Nat.zero_mul, Nat.zero_add]

theorem value_eq_ofDigits (b : Nat) (ds : List Nat) :
    value b ds = Nat.ofDigits b ds.reverse := by
  induction ds using List.reverseRecOn with
  | nil => rfl
  | append_singleton ds d ih =>
    rw [value_concat, ih, List.reverse_append, List.reverse_singleton, List.singleton_append,
      Nat.ofDigits_cons, Nat.mul_comm, Nat.add_comm]

/-- The number after more digits have been read behind `v`. -/
def valueFrom (b v : Nat) (ds : List Nat) : Nat := ds.foldl (fun v d => v * b + d) v

@[simp] theorem valueFrom_nil (b v : Nat) : valueFrom b v [] = v := rfl

@[simp] theorem valueFrom_cons (b v d : Nat) (ds : List Nat) :
    valueFrom b v (d :: ds) = valueFrom b (v * b + d) ds := rfl

theorem value_eq_valueFrom (b : Nat) (ds : List Nat) : value b ds = valueFrom b 0 ds := rfl

/-- Digits do not make a number smaller. -/
theorem le_valueFrom (hb : 0 < b) (v : Nat) (ds : List Nat) : v ≤ valueFrom b v ds := by
  induction ds generalizing v with
  | nil => exact Nat.le_refl v
  | cons d ds ih =>
    have hstep : v ≤ v * b + d := (Nat.le_mul_of_pos_right v hb).trans (Nat.le_add_right _ d)
    exact hstep.trans (ih (v * b + d))

/-- Digits of base `b` that begin with 0 only if that is all there is. -/
structure Canonical (b : Nat) (ds : List Nat) : Prop where
  nonempty : ds ≠ []
  lt : ∀ d ∈ ds, d < b
  leading : ds.head? = some 0 → ds = [0]

/-- Except for 0 they are those that division finds. -/
theorem Canonical.reverse_eq {ds : List Nat} (h : Canonical b ds) (hb : 1 < b)
    (hne : ds ≠ [0]) : ds.reverse = Nat.digits b (value b ds) := by
  rw [value_eq_ofDigits]
  refine (Nat.digits_ofDigits b hb ds.reverse (fun d hd => h.lt d (List.mem_reverse.mp hd))
    fun hrev => ?_).symm
  rw [List.getLast_reverse]
  intro hzero
  refine hne (h.leading ?_)
  rw [List.head?_eq_some_head h.nonempty, hzero]

/-- The number determines its canonical digits. -/
theorem Canonical.unique {ds es : List Nat} (hb : 1 < b) (hd : Canonical b ds)
    (he : Canonical b es) (hvalue : value b ds = value b es) : ds = es := by
  have hzero : ∀ {ds : List Nat}, Canonical b ds → value b ds = 0 → ds = [0] := by
    intro ds h hv
    by_contra hne
    have hrev := h.reverse_eq hb hne
    rw [hv, Nat.digits_zero, List.reverse_eq_nil_iff] at hrev
    exact h.nonempty hrev
  by_cases hv : value b ds = 0
  · rw [hzero hd hv, hzero he (hvalue ▸ hv)]
  · have hne : ∀ {ds : List Nat}, value b ds ≠ 0 → ds ≠ [0] := by
      rintro ds hv rfl
      exact hv (value_singleton b 0)
    rw [← List.reverse_inj, hd.reverse_eq hb (hne hv), he.reverse_eq hb (hne (hvalue ▸ hv)),
      hvalue]

/-- The canonical digits of a number. -/
theorem canonical_digits (hb : 1 < b) (v : Nat) :
    Canonical b (if v = 0 then [0] else Nat.digits b v).reverse ∧
      value b (if v = 0 then [0] else Nat.digits b v).reverse = v := by
  rw [value_eq_ofDigits, List.reverse_reverse]
  by_cases hv : v = 0
  · subst hv
    rw [if_pos rfl]
    refine ⟨⟨List.cons_ne_nil 0 [], fun d hd => ?_, fun _ => rfl⟩, Nat.ofDigits_singleton⟩
    rw [List.mem_singleton.mp hd]
    exact Nat.lt_trans Nat.zero_lt_one hb
  · rw [if_neg hv]
    have hne : Nat.digits b v ≠ [] := Nat.digits_ne_nil_iff_ne_zero.mpr hv
    refine ⟨⟨fun h => hne (List.reverse_eq_nil_iff.mp h), fun d hd => ?_, fun hhead => ?_⟩,
      Nat.ofDigits_digits b v⟩
    · exact Nat.digits_lt_base hb (List.mem_reverse.mp hd)
    · rw [List.head?_reverse, List.getLast?_eq_some_getLast hne] at hhead
      exact absurd (Option.some_inj.mp hhead) (Nat.getLast_digit_ne_zero b hv)

/-! ## Texts -/

/-- The number that a text stands for, unless it is empty or a character has no digit. -/
def parse (b : Nat) (digit : σ → Option Nat) : List σ → Option Nat
  | [] => none
  | text => (text.mapM digit).map (value b)

section

variable {char : Nat → σ} {digit : σ → Option Nat}

theorem mapM_digit_map {ds : List Nat} (hread : ∀ d ∈ ds, digit (char d) = some d) :
    (ds.map char).mapM digit = some ds := by
  induction ds with
  | nil => rfl
  | cons d ds ih =>
    rw [List.map_cons, List.mapM_cons, hread d List.mem_cons_self,
      ih fun e he => hread e (List.mem_cons_of_mem d he)]
    rfl

/-- The characters of digits are read back. -/
theorem parse_map {ds : List Nat} (hne : ds ≠ [])
    (hread : ∀ d ∈ ds, digit (char d) = some d) :
    parse b digit (ds.map char) = some (value b ds) := by
  have hmap := mapM_digit_map hread
  cases ds with
  | nil => exact absurd rfl hne
  | cons d ds =>
    show ((char d :: ds.map char).mapM digit).map (value b) = _
    rw [← List.map_cons, hmap]
    rfl

/-! ## Fixed width -/

/-- The lowest `n` digits of a number, the highest first. -/
def fixed (b : Nat) (char : Nat → σ) : (n : Nat) → Nat → List σ
  | 0, _ => []
  | n + 1, v => fixed b char n (v / b) ++ [char (v % b)]

theorem fixed_length (b : Nat) (char : Nat → σ) (n v : Nat) :
    (fixed b char n v).length = n := by
  induction n generalizing v with
  | zero => rfl
  | succ n ih => rw [fixed, List.length_append, ih, List.length_singleton]

theorem fixed_eq_map (b : Nat) (char : Nat → σ) (n v : Nat) :
    fixed b char n v = (fixed b id n v).map char := by
  induction n generalizing v with
  | zero => rfl
  | succ n ih =>
    rw [fixed, fixed, ih, List.map_append]
    rfl

theorem fixed_lt (hb : 0 < b) {n v d : Nat} (h : d ∈ fixed b id n v) : d < b := by
  induction n generalizing v with
  | zero => cases h
  | succ n ih =>
    rcases List.mem_append.mp h with h | h
    · exact ih h
    · rw [List.mem_singleton.mp h]
      exact Nat.mod_lt v hb

theorem value_fixed (b n v : Nat) : value b (fixed b id n v) = v % b ^ n := by
  induction n generalizing v with
  | zero => rw [Nat.pow_zero, Nat.mod_one, fixed, value, List.foldl_nil]
  | succ n ih =>
    rw [fixed, value_concat, ih, Nat.pow_succ, Nat.mul_comm (b ^ n), Nat.mod_mul, Nat.add_comm,
      Nat.mul_comm]
    rfl

/-- Texts that differ in their last characters only, or before. -/
theorem concat_lt_concat [LT σ] {xs ys : List σ} {x y : σ} (h : xs.length = ys.length) :
    xs ++ [x] < ys ++ [y] ↔ xs < ys ∨ xs = ys ∧ x < y := by
  induction xs generalizing ys with
  | nil =>
    obtain rfl := List.length_eq_zero_iff.mp h.symm
    simp [List.cons_lt_cons_iff]
  | cons c xs ih =>
    cases ys with
    | nil => cases h
    | cons d ys =>
      have hih := @ih ys (Nat.succ.inj h)
      rw [List.cons_append, List.cons_append, List.cons_lt_cons_iff, List.cons_lt_cons_iff, hih,
        List.cons.injEq, and_or_left, or_assoc, and_assoc]

variable (hread : ∀ d, d < b → digit (char d) = some d)

include hread

/-- A numeral of fixed width is read back. -/
theorem parse_fixed {n v : Nat} (hb : 0 < b) (hn : 0 < n) (hv : v < b ^ n) :
    parse b digit (fixed b char n v) = some v := by
  have hne : fixed b id n v ≠ [] := by
    intro h
    have hlength := fixed_length b id n v
    rw [h] at hlength
    exact absurd hlength (Nat.ne_of_lt hn)
  rw [fixed_eq_map, parse_map hne fun d hd => hread d (fixed_lt hb hd), value_fixed,
    Nat.mod_eq_of_lt hv]

/-- The numeral determines the number, up to its width. -/
theorem fixed_inj {n v w : Nat} (hb : 0 < b) (h : fixed b char n v = fixed b char n w) :
    v % b ^ n = w % b ^ n := by
  have hmap : ∀ v, (fixed b char n v).mapM digit = some (fixed b id n v) := fun v => by
    rw [fixed_eq_map]
    exact mapM_digit_map fun d hd => hread d (fixed_lt hb hd)
  have hdigits := hmap v
  rw [h, hmap w] at hdigits
  rw [← value_fixed, ← value_fixed, Option.some_inj.mp hdigits]

/-- **Numerals of one width compare as their numbers do.** -/
theorem fixed_lt_iff [LT σ] (hchar : ∀ d e, d < b → e < b → (char d < char e ↔ d < e))
    {n v w : Nat} (hb : 0 < b) (hv : v < b ^ n) (hw : w < b ^ n) :
    fixed b char n v < fixed b char n w ↔ v < w := by
  induction n generalizing v w with
  | zero =>
    rw [Nat.pow_zero, Nat.lt_one_iff] at hv hw
    rw [hv, hw]
    exact iff_of_false (List.not_lt_nil _) (Nat.lt_irrefl 0)
  | succ n ih =>
    have hv' : v / b < b ^ n := Nat.div_lt_of_lt_mul (by rwa [Nat.pow_succ'] at hv)
    have hw' : w / b < b ^ n := Nat.div_lt_of_lt_mul (by rwa [Nat.pow_succ'] at hw)
    have heq : fixed b char n (v / b) = fixed b char n (w / b) ↔ v / b = w / b := by
      refine ⟨fun h => ?_, congrArg _⟩
      have hmod := fixed_inj hread hb h
      rwa [Nat.mod_eq_of_lt hv', Nat.mod_eq_of_lt hw'] at hmod
    rw [fixed, fixed, concat_lt_concat (by rw [fixed_length, fixed_length]), ih hv' hw',
      heq, hchar _ _ (Nat.mod_lt v hb) (Nat.mod_lt w hb)]
    -- compare the quotients first, then the remainders
    have hdv := Nat.div_add_mod v b
    have hdw := Nat.div_add_mod w b
    have hmv := Nat.mod_lt v hb
    have hmw := Nat.mod_lt w hb
    constructor
    · rintro (hlt | ⟨hq, hlt⟩)
      · exact Nat.lt_of_div_lt_div hlt
      · rw [hq] at hdv
        omega
    · intro hlt
      rcases Nat.lt_or_eq_of_le (Nat.div_le_div_right hlt.le) with hq | hq
      · exact .inl hq
      · refine .inr ⟨hq, ?_⟩
        rw [hq] at hdv
        omega

end

end Numeral
