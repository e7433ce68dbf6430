import Mathlib.Data.List.Basic
import Mathlib.Data.List.Range

/-!
# Executions of C code

The computational layer shared by every embedding of a C function: executions
that may fault, fixed-size arrays whose accesses are bounds-checked, and the
three loop shapes of C.

- `Exec α`: a result, or the `Fault` that stopped the execution. A fault stands
  for undefined behaviour (or for a loop that never exits), so a theorem that
  concludes `= .ok _` says in passing that no access was out of bounds.
- `FaultsOnly`: a result that satisfies a condition, or one particular fault.
- `Arr n α`: an array of `n` elements; `Arr.get`/`Arr.set` fault outside.
  `Arr.Holds b i xs`: the elements of `b` from index `i` on are `xs`.
- `forRange`: `for (i = start; i < start + count; i++)`, with the invariant rules
  `forRange_inv` and, for loops from 0, `forRange_zero_inv`.
- `forFirst`: a search loop, `for (…) if (test(i)) return i;`, with its
  specification `forFirst_spec`, and `forFirst_zero_spec` for searches from 0.
- `forLoop`: `for (x = init; cond(x); x = next(x))` with an arbitrary counter,
  run with a bound on its iterations; `forLoop_eq_forRange` replaces it by a
  `forRange` once the number of iterations is known.
- `udiv`: unsigned division, which faults for the divisor 0.
-/

namespace CSem

universe u v

/-- Why an execution has no result. -/
inductive Fault where
  /-- An array access outside the array. -/
  | outOfBounds
  /-- A loop that has not exited after every value of its counter. -/
  | diverged
  /-- A variadic argument that is missing or of the wrong kind. -/
  | badArgument
  /-- A division by zero. -/
  | divideByZero
deriving DecidableEq, Repr

/-- An execution: a result, or the fault that stopped it. -/
abbrev Exec (α : Type u) := Except Fault α

@[simp] theorem ok_bind {α β : Type u} (a : α) (f : α → Exec β) :
    ((Except.ok a : Exec α) >>= f) = f a := rfl

@[simp] theorem pure_eq_ok {α : Type u} (a : α) : (pure a : Exec α) = .ok a := rfl

/-- A sequence of two executions succeeds exactly when both do. -/
theorem bind_eq_ok {α β : Type u} {x : Exec α} {f : α → Exec β} {b : β} :
    (x >>= f) = .ok b ↔ ∃ a, x = .ok a ∧ f a = .ok b := by
  cases x with
  | error e =>
    constructor
    · intro h
      cases h
    · rintro ⟨a, h, -⟩
      cases h
  | ok a =>
    constructor
    · intro h
      exact ⟨a, rfl, h⟩
    · rintro ⟨a', h, h'⟩
      cases h
      exact h'

/-- A conditional step in front of the rest. -/
theorem ite_seq {α β : Type u} {p : Prop} [Decidable p] (x y : Exec α) (f : α → Exec β) :
    (if p then x >>= f else y >>= f) = (if p then x else y) >>= f :=
  (apply_ite (· >>= f) p x y).symm

/-- The execution has a result that satisfies `Q`, or stops with the fault `e`. -/
def FaultsOnly {α : Type u} (e : Fault) (x : Exec α) (Q : α → Prop) : Prop :=
  (∃ a, x = .ok a ∧ Q a) ∨ x = .error e

/-- Sequencing rule. -/
theorem FaultsOnly.bind {α β : Type u} {e : Fault} {x : Exec α} {f : α → Exec β} {Q : α → Prop}
    {R : β → Prop} (hx : FaultsOnly e x Q) (hf : ∀ a, Q a → FaultsOnly e (f a) R) :
    FaultsOnly e (x >>= f) R := by
  rcases hx with ⟨a, rfl, hQ⟩ | rfl
  · exact hf a hQ
  · exact .inr rfl

/-! ## Division -/

/-- `a / b` for unsigned operands. -/
def udiv {w : Nat} (a b : BitVec w) : Exec (BitVec w) :=
  if b = 0 then .error .divideByZero else .ok (a / b)

theorem udiv_zero {w : Nat} (a : BitVec w) : udiv a 0 = .error .divideByZero := if_pos rfl

theorem udiv_of_ne_zero {w : Nat} (a : BitVec w) {b : BitVec w} (hb : b ≠ 0) :
    udiv a b = .ok (a / b) := if_neg hb

/-! ## Arrays -/

/-- A C array of `n` elements. -/
structure Arr (n : Nat) (α : Type u) where
  /-- The element at each index. -/
  elem : Fin n → α

namespace Arr

variable {n : Nat} {α : Type u}

/-- `a[i]` as an rvalue. -/
def get (a : Arr n α) (i : Nat) : Exec α :=
  if h : i < n then .ok (a.elem ⟨i, h⟩) else .error .outOfBounds

/-- The array with element `i` replaced (unchanged when `i` is outside). -/
def put (a : Arr n α) (i : Nat) (v : α) : Arr n α :=
  ⟨fun j => if j.val = i then v else a.elem j⟩

/-- `a[i] = v`. -/
def set (a : Arr n α) (i : Nat) (v : α) : Exec (Arr n α) :=
  if i < n then .ok (a.put i v) else .error .outOfBounds

/-- The array all of whose elements are `v`. -/
def const (n : Nat) (v : α) : Arr n α := ⟨fun _ => v⟩

theorem get_of_lt (a : Arr n α) {i : Nat} (h : i < n) :
    a.get i = .ok (a.elem ⟨i, h⟩) := dif_pos h

theorem set_of_lt (a : Arr n α) {i : Nat} (h : i < n) (v : α) :
    a.set i v = .ok (a.put i v) := if_pos h

@[simp] theorem get_const {i : Nat} (h : i < n) (v : α) :
    (const n v).get i = .ok v := dif_pos h

@[simp] theorem get_put_self (a : Arr n α) {i : Nat} (h : i < n) (v : α) :
    (a.put i v).get i = .ok v := by
  rw [get_of_lt _ h]
  simp [put]

theorem get_put_of_ne (a : Arr n α) {i j : Nat} (h : j ≠ i) (v : α) :
    (a.put i v).get j = a.get j := by
  unfold get
  by_cases hj : j < n
  · rw [dif_pos hj, dif_pos hj]
    simp [put, h]
  · rw [dif_neg hj, dif_neg hj]

/-- Writing an element's own value back changes nothing. -/
theorem put_eq_self (a : Arr n α) {i : Nat} {v : α} (h : a.get i = .ok v) :
    a.put i v = a := by
  obtain ⟨elem⟩ := a
  refine congrArg Arr.mk (funext fun j => ?_)
  by_cases hj : j.val = i
  · have hi : i < n := hj ▸ j.isLt
    rw [get_of_lt _ hi] at h
    have hv : elem ⟨i, hi⟩ = v := Except.ok.inj h
    show (if j.val = i then v else elem j) = elem j
    rw [if_pos hj, ← hv]
    exact congrArg elem (Fin.ext hj.symm)
  · exact if_neg hj

/-- Arrays with the same elements are equal. -/
theorem ext_get {a b : Arr n α} (h : ∀ i, i < n → a.get i = b.get i) : a = b := by
  obtain ⟨elem⟩ := a
  obtain ⟨elem'⟩ := b
  refine congrArg Arr.mk (funext fun i => ?_)
  have hget := h i.val i.isLt
  rw [get_of_lt _ i.isLt, get_of_lt _ i.isLt] at hget
  exact Except.ok.inj hget

/-- The elements from index `i` on are `xs`. -/
def Holds (b : Arr n α) (i : Nat) (xs : List α) : Prop :=
  ∀ k x, xs[k]? = some x → b.get (i + k) = .ok x

theorem holds_nil (b : Arr n α) (i : Nat) : b.Holds i [] := fun k x h => by simp at h

theorem holds_cons {b : Arr n α} {i : Nat} {x : α} {xs : List α} :
    b.Holds i (x :: xs) ↔ b.get i = .ok x ∧ b.Holds (i + 1) xs := by
  constructor
  · intro h
    refine ⟨h 0 x rfl, fun k y hk => ?_⟩
    rw [Nat.add_assoc, Nat.add_comm 1 k]
    exact h (k + 1) y hk
  · rintro ⟨hx, hxs⟩ k y hk
    cases k with
    | zero =>
      cases hk
      exact hx
    | succ k =>
      rw [Nat.add_comm k 1, ← Nat.add_assoc]
      exact hxs k y hk

theorem holds_append {b : Arr n α} {i : Nat} {xs ys : List α} :
    b.Holds i (xs ++ ys) ↔ b.Holds i xs ∧ b.Holds (i + xs.length) ys := by
  induction xs generalizing i with
  | nil => exact ⟨fun h => ⟨holds_nil b i, h⟩, fun h => h.2⟩
  | cons x xs ih =>
    rw [List.cons_append, holds_cons, holds_cons, ih, and_assoc, List.length_cons,
      Nat.add_assoc, Nat.add_comm 1]

theorem Holds.get_eq {b : Arr n α} {i : Nat} {xs : List α} (h : b.Holds i xs) {k : Nat}
    (hk : k < xs.length) : b.get (i + k) = .ok xs[k] :=
  h k _ (List.getElem?_eq_getElem hk)

/-- What is held begins with its own prefixes. -/
theorem Holds.take {b : Arr n α} {i : Nat} {xs : List α} (h : b.Holds i xs) (k : Nat) :
    b.Holds i (xs.take k) := by
  rw [← List.take_append_drop k xs] at h
  exact (holds_append.mp h).1

/-- Arrays that agree on the indices of the list hold it together. -/
theorem Holds.congr {b b' : Arr n α} {i : Nat} {xs : List α} (h : b.Holds i xs)
    (hsame : ∀ j, i ≤ j → j < i + xs.length → b'.get j = b.get j) : b'.Holds i xs := by
  intro k x hk
  obtain ⟨hlt, -⟩ := List.getElem?_eq_some_iff.mp hk
  rw [hsame (i + k) (Nat.le_add_right i k) (Nat.add_lt_add_left hlt i)]
  exact h k x hk

/-- The array as a list, from an index on, starts with what is held there. -/
theorem Holds.drop_ofFn {b : Arr n α} {i : Nat} {xs : List α} (h : b.Holds i xs) :
    ∃ rest, (List.ofFn b.elem).drop i = xs ++ rest := by
  induction xs generalizing i with
  | nil => exact ⟨_, rfl⟩
  | cons x xs ih =>
    obtain ⟨hx, hxs⟩ := holds_cons.mp h
    obtain ⟨rest, hrest⟩ := ih hxs
    refine ⟨rest, ?_⟩
    by_cases hi : i < n
    · rw [get_of_lt b hi] at hx
      have hlen : i < (List.ofFn b.elem).length := by rwa [List.length_ofFn]
      rw [List.drop_eq_getElem_cons hlen, hrest, List.getElem_ofFn, Except.ok.inj hx,
        List.cons_append]
    · rw [get, dif_neg hi] at hx
      cases hx

end Arr

/-! ## Counted loops -/

variable {σ : Type u}

/-- `for (i = start; i < start + count; i++) s = body(i, s);` -/
def forRange (body : Nat → σ → Exec σ) : (count start : Nat) → σ → Exec σ
  | 0, _, s => .ok s
  | count + 1, start, s => do
    let s' ← body start s
    forRange body count (start + 1) s'

/-- Invariant rule for counted loops: an invariant indexed by the counter that
every iteration re-establishes (without faulting) holds at the exit. -/
theorem forRange_inv {body : Nat → σ → Exec σ} (I : Nat → σ → Prop)
    {count start : Nat} {s : σ} (h0 : I start s)
    (hstep : ∀ i s, start ≤ i → i < start + count → I i s →
      ∃ s', body i s = .ok s' ∧ I (i + 1) s') :
    ∃ s', forRange body count start s = .ok s' ∧ I (start + count) s' := by
  induction count generalizing start s with
  | zero => exact ⟨s, rfl, h0⟩
  | succ count ih =>
    obtain ⟨s₁, hs₁, hI₁⟩ := hstep start s (Nat.le_refl _) (by omega) h0
    obtain ⟨s₂, hs₂, hI₂⟩ := ih hI₁ fun i s hi hlt =>
      hstep i s (by omega) (by omega)
    refine ⟨s₂, ?_, ?_⟩
    · rw [forRange, hs₁]
      exact hs₂
    · rwa [show start + (count + 1) = start + 1 + count by omega]

/-- Invariant rule for the loops that count from 0. -/
theorem forRange_zero_inv {body : Nat → σ → Exec σ} (I : Nat → σ → Prop)
    {count : Nat} {s : σ} (h0 : I 0 s)
    (hstep : ∀ i s, i < count → I i s → ∃ s', body i s = .ok s' ∧ I (i + 1) s') :
    ∃ s', forRange body count 0 s = .ok s' ∧ I count s' := by
  have hloop : ∃ s', forRange body count 0 s = .ok s' ∧ I (0 + count) s' :=
    forRange_inv I h0 fun i s _ hi => hstep i s (by rwa [Nat.zero_add] at hi)
  rwa [Nat.zero_add] at hloop

/-- A counted loop goes through the list of its counter's values. -/
theorem forRange_eq_foldlM {α : Type v} (f : Nat → α) (body : α → σ → Exec σ)
    (count start : Nat) (s : σ) :
    forRange (fun i => body (f i)) count start s =
      ((List.range' start count).map f).foldlM (fun s a => body a s) s := by
  induction count generalizing start s with
  | zero => rfl
  | succ count ih =>
    rw [forRange, List.range'_succ, List.map_cons, List.foldlM_cons]
    exact congrArg _ (funext fun s => ih (start + 1) s)

/-! ## Search loops -/

/-- `for (i = start; i < start + count; i++) if (test(i)) return i;` -/
def forFirst (test : Nat → Exec Bool) : (count start : Nat) → Exec (Option Nat)
  | 0, _ => .ok none
  | count + 1, start => do
    let found ← test start
    if found then .ok (some start) else forFirst test count (start + 1)

/-- What a search loop returns when its test decides `p` without faulting: the
first index that passes, or nothing when none does. -/
theorem forFirst_spec {test : Nat → Exec Bool} {p : Nat → Prop} {count start : Nat}
    (htest : ∀ i, start ≤ i → i < start + count →
      ∃ b, test i = .ok b ∧ (b = true ↔ p i)) :
    (∃ i, start ≤ i ∧ i < start + count ∧ p i ∧
        (∀ j, start ≤ j → j < i → ¬ p j) ∧
        forFirst test count start = .ok (some i)) ∨
      ((∀ j, start ≤ j → j < start + count → ¬ p j) ∧
        forFirst test count start = .ok none) := by
  induction count generalizing start with
  | zero => exact .inr ⟨fun j hj hlt => by omega, rfl⟩
  | succ count ih =>
    obtain ⟨b, hhead, hp⟩ := htest start (Nat.le_refl _) (by omega)
    cases b with
    | true =>
      refine .inl ⟨start, Nat.le_refl _, by omega, hp.mp rfl,
        fun j hj hlt => by omega, ?_⟩
      rw [forFirst, hhead]
      rfl
    | false =>
      -- the head fails the test, so the search goes on behind it
      have hnot : ¬ p start := fun h => Bool.noConfusion (hp.mpr h)
      have hrec : forFirst test (count + 1) start =
          forFirst test count (start + 1) := by
        rw [forFirst, hhead]
        rfl
      have hbefore : ∀ j, start ≤ j → (start + 1 ≤ j → ¬ p j) → ¬ p j := by
        intro j hj h
        rcases Nat.eq_or_lt_of_le hj with rfl | hlt
        · exact hnot
        · exact h hlt
      rcases @ih (start + 1) fun i hi hlt => htest i (by omega) (by omega) with
        ⟨i, hi, hlt, hpi, hmin, hres⟩ | ⟨hnone, hres⟩
      · refine .inl ⟨i, by omega, by omega, hpi, fun j hj hji => ?_, ?_⟩
        · exact hbefore j hj fun hj' => hmin j hj' hji
        · rw [hrec, hres]
      · refine .inr ⟨fun j hj hlt' => ?_, ?_⟩
        · exact hbefore j hj fun hj' => hnone j hj' (by omega)
        · rw [hrec, hres]

/-- What a search from 0 returns. -/
theorem forFirst_zero_spec {test : Nat → Exec Bool} {p : Nat → Prop} {count : Nat}
    (htest : ∀ i, i < count → ∃ b, test i = .ok b ∧ (b = true ↔ p i)) :
    (∃ i, i < count ∧ p i ∧ (∀ j, j < i → ¬ p j) ∧
        forFirst test count 0 = .ok (some i)) ∨
      ((∀ j, j < count → ¬ p j) ∧ forFirst test count 0 = .ok none) := by
  have htest' : ∀ i, 0 ≤ i → i < 0 + count → ∃ b, test i = .ok b ∧ (b = true ↔ p i) :=
    fun i _ hi => htest i (by rwa [Nat.zero_add] at hi)
  rcases forFirst_spec htest' with ⟨i, -, hi, hp, hmin, hres⟩ | ⟨hnone, hres⟩
  · rw [Nat.zero_add] at hi
    exact .inl ⟨i, hi, hp, fun j => hmin j (Nat.zero_le j), hres⟩
  · rw [Nat.zero_add] at hnone
    exact .inr ⟨fun j => hnone j (Nat.zero_le j), hres⟩

/-- A search that returns an index has found the test false before it and true there. -/
theorem forFirst_eq_some {test : Nat → Exec Bool} {count start i : Nat}
    (h : forFirst test count start = .ok (some i)) :
    start ≤ i ∧ i < start + count ∧ test i = .ok true ∧
      ∀ j, start ≤ j → j < i → test j = .ok false := by
  induction count generalizing start with
  | zero => cases h
  | succ count ih =>
    rw [forFirst] at h
    obtain ⟨found, hhead, h⟩ := bind_eq_ok.mp h
    cases found with
    | true =>
      obtain rfl : start = i := Option.some.inj (Except.ok.inj h)
      exact ⟨Nat.le_refl _, by omega, hhead, fun j hj hlt => by omega⟩
    | false =>
      obtain ⟨hi, hlt, htest, hbefore⟩ := ih h
      refine ⟨by omega, by omega, htest, fun j hj hji => ?_⟩
      rcases Nat.eq_or_lt_of_le hj with rfl | hj
      · exact hhead
      · exact hbefore j hj hji

/-! ## Loops with an arbitrary counter -/

variable {ι : Type v}

/-- `for (x = init; cond(x); x = next(x)) s = body(x, s);`, given up as
`diverged` once the condition has held `bound` times. -/
def forLoop (cond : ι → Bool) (next : ι → ι) (body : ι → σ → Exec σ) :
    (bound : Nat) → ι → σ → Exec σ
  | 0, _, _ => .error .diverged
  | bound + 1, x, s =>
    if cond x then do
      let s' ← body x s
      forLoop cond next body bound (next x) s'
    else .ok s

/-- A loop whose counter runs through `c start, c (start + 1), …` and fails its
condition first after `count` steps is the counted loop over those values. -/
theorem forLoop_eq_forRange {cond : ι → Bool} {next : ι → ι}
    {body : ι → σ → Exec σ} (c : Nat → ι) (hnext : ∀ k, next (c k) = c (k + 1))
    {bound count start : Nat} (hbound : count < bound)
    (hcond : ∀ k, start ≤ k → k < start + count → cond (c k) = true)
    (hexit : cond (c (start + count)) = false) (s : σ) :
    forLoop cond next body bound (c start) s =
      forRange (fun k => body (c k)) count start s := by
  induction count generalizing bound start s with
  | zero =>
    obtain ⟨bound, rfl⟩ := Nat.exists_eq_succ_of_ne_zero (Nat.ne_of_gt hbound)
    have : cond (c start) = false := hexit
    simp [forLoop, forRange, this]
  | succ count ih =>
    obtain ⟨bound, rfl⟩ : ∃ b, bound = b + 1 := ⟨bound - 1, by omega⟩
    have hhead := hcond start (Nat.le_refl _) (by omega)
    -- `bound` and `count` decrease together, so the bound is never what ends the loop
    have htail : ∀ s', forLoop cond next body bound (c (start + 1)) s' =
        forRange (fun k => body (c k)) count (start + 1) s' := by
      refine ih (by omega) (fun k hk hlt => hcond k (by omega) (by omega)) ?_
      rwa [show start + 1 + count = start + (count + 1) by omega]
    rw [forLoop, if_pos hhead, hnext, forRange]
    exact congrArg _ (funext htail)

end CSem
