import KptrOS.Lib.CSem

/-!
# Procedures with a state

A procedure of a component is an execution that also transforms the component's state.

- `Proc σ α`: such a procedure, with the `do` notation of `StateT`.
- `Returns m s Q`: from state `s` the procedure returns, and what it returns and leaves
  behind satisfies `Q`.
- `Contract σ`: what every procedure of a component keeps: an invariant, and a relation
  between the states before and after that is closed under sequencing.
- `Contract.Kept`: a procedure that returns from every state that satisfies the invariant
  and moves along the relation, with its rules for composing procedures.
- `Contract.below`: the same contract while a measure that never grows is below a bound,
  for recursions that use up what is measured.
-/

namespace CSem

universe u

variable {σ α β : Type u}

/-- A procedure on the state `σ`. -/
abbrev Proc (σ α : Type u) := StateT σ Exec α

namespace Proc

/-- An access to undefined memory, or another fault. -/
def fault (e : Fault) : Proc σ α := fun _ => .error e

/-- `if (c) m;`. -/
def when (c : Prop) [Decidable c] (m : Proc σ PUnit) : Proc σ PUnit :=
  if c then m else pure .unit

theorem pure_apply (a : α) (s : σ) : (pure a : Proc σ α) s = .ok (a, s) := rfl

theorem bind_apply (m : Proc σ α) (f : α → Proc σ β) (s : σ) :
    (m >>= f) s = m s >>= fun r => f r.1 r.2 := rfl

theorem get_apply (s : σ) : (get : Proc σ σ) s = .ok (s, s) := rfl

theorem modify_apply (f : σ → σ) (s : σ) :
    (modify f : Proc σ PUnit) s = .ok (.unit, f s) := rfl

end Proc

/-! ## What a procedure returns -/

/-- From `s` the procedure returns, and its result and the state it leaves satisfy `Q`. -/
def Returns (m : Proc σ α) (s : σ) (Q : α → σ → Prop) : Prop :=
  ∃ a s', m s = .ok (a, s') ∧ Q a s'

namespace Returns

variable {m : Proc σ α} {f : α → Proc σ β} {s : σ} {Q : α → σ → Prop} {R : β → σ → Prop}

theorem of_eq {a : α} {t : σ} (h : m s = .ok (a, t)) (hQ : Q a t) : Returns m s Q :=
  ⟨a, t, h, hQ⟩

theorem pure {a : α} (h : Q a s) : Returns (Pure.pure a) s Q := ⟨a, s, rfl, h⟩

theorem get {Q : σ → σ → Prop} (h : Q s s) : Returns (MonadState.get : Proc σ σ) s Q :=
  ⟨s, s, rfl, h⟩

theorem modify {f : σ → σ} {Q : PUnit → σ → Prop} (h : Q .unit (f s)) :
    Returns (fun s => .ok (.unit, f s) : Proc σ PUnit) s Q := ⟨_, f s, rfl, h⟩

theorem mono {Q' : α → σ → Prop} (h : Returns m s Q) (hQ : ∀ a s', Q a s' → Q' a s') :
    Returns m s Q' := by
  obtain ⟨a, s', hm, hq⟩ := h
  exact ⟨a, s', hm, hQ a s' hq⟩

/-- Sequencing rule. -/
theorem bind (hm : Returns m s Q) (hf : ∀ a s', Q a s' → Returns (f a) s' R) :
    Returns (m >>= f) s R := by
  obtain ⟨a, s', hm, hq⟩ := hm
  obtain ⟨b, s'', hf, hr⟩ := hf a s' hq
  refine ⟨b, s'', ?_, hr⟩
  rw [Proc.bind_apply, hm]
  exact hf

end Returns

/-! ## Contracts -/

/-- An invariant of a component, and how its state may change while the invariant holds. -/
structure Contract (σ : Type u) where
  inv : σ → Prop
  step : σ → σ → Prop
  refl : ∀ s, inv s → step s s
  trans : ∀ s t r, inv s → step s t → step t r → step s r
  inv_step : ∀ s t, inv s → step s t → inv t

namespace Contract

variable {C : Contract σ}

/-- The procedure returns from every state that satisfies the invariant, and keeps the
contract. -/
def Kept (C : Contract σ) (m : Proc σ α) : Prop :=
  ∀ s, C.inv s → Returns m s fun _ s' => C.step s s'

namespace Kept

variable {m : Proc σ α} {f : α → Proc σ β}

theorem pure (a : α) : C.Kept (Pure.pure a : Proc σ α) := fun s hs =>
  Returns.pure (C.refl s hs)

theorem get : C.Kept (MonadState.get : Proc σ σ) := fun s hs => Returns.get (C.refl s hs)

/-- Sequencing rule, when the first procedure tells something about its result. -/
theorem bind_of {Q : α → σ → σ → Prop}
    (hm : ∀ s, C.inv s → Returns m s fun a s' => C.step s s' ∧ Q a s s')
    (hf : ∀ a s s', C.inv s → C.inv s' → Q a s s' →
      Returns (f a) s' fun _ s'' => C.step s' s'') :
    C.Kept (m >>= f) := by
  intro s hs
  refine (hm s hs).bind fun a s' h => ?_
  exact (hf a s s' hs (C.inv_step s s' hs h.1) h.2).mono fun b s'' h' =>
    C.trans s s' s'' hs h.1 h'

/-- Sequencing rule. -/
theorem bind (hm : C.Kept m) (hf : ∀ a, C.Kept (f a)) : C.Kept (m >>= f) :=
  bind_of (Q := fun _ _ _ => True)
    (fun s hs => (hm s hs).mono fun _ _ h => ⟨h, trivial⟩)
    (fun a _ s' _ hs' _ => hf a s' hs')

/-- A procedure that keeps the contract, behind a step. -/
theorem after (hm : C.Kept m) {s t : σ} (hs : C.inv s) (h : C.step s t) :
    Returns m t fun _ u => C.step s u :=
  (hm t (C.inv_step s t hs h)).mono fun _ u h' => C.trans s t u hs h h'

theorem ite {c : Prop} [Decidable c] {m m' : Proc σ α} (hm : c → C.Kept m)
    (hm' : ¬ c → C.Kept m') : C.Kept (if c then m else m') := by
  by_cases hc : c
  · rw [if_pos hc]
    exact hm hc
  · rw [if_neg hc]
    exact hm' hc

theorem when {c : Prop} [Decidable c] {m : Proc σ PUnit} (hm : c → C.Kept m) :
    C.Kept (Proc.when c m) := ite hm fun _ => pure _

end Kept

/-- Sequencing rule for procedures that keep the contract and tell something about their
results. -/
theorem bind {m : Proc σ α} {f : α → Proc σ β} {s : σ} {Q : α → σ → Prop} {R : β → σ → Prop}
    (hs : C.inv s) (hm : Returns m s fun a t => C.step s t ∧ Q a t)
    (hf : ∀ a t, C.inv t → Q a t → Returns (f a) t fun b u => C.step t u ∧ R b u) :
    Returns (m >>= f) s fun b u => C.step s u ∧ R b u :=
  hm.bind fun a t h => (hf a t (C.inv_step s t hs h.1) h.2).mono fun _ u h' =>
    ⟨C.trans s t u hs h.1 h'.1, h'.2⟩

/-- The same behind a procedure about whose result nothing is to be known. -/
theorem Kept.bind_returns {m : Proc σ α} {f : α → Proc σ β} (hm : C.Kept m) {s : σ}
    {R : β → σ → Prop} (hs : C.inv s)
    (hf : ∀ a t, C.inv t → Returns (f a) t fun b u => C.step t u ∧ R b u) :
    Returns (m >>= f) s fun b u => C.step s u ∧ R b u :=
  Contract.bind (Q := fun _ _ => True) hs ((hm s hs).mono fun _ _ h => ⟨h, trivial⟩) fun a t ht _ => hf a t ht

/-- The contract while a measure is below `n`. -/
def below (C : Contract σ) (measure : σ → Nat)
    (hmeasure : ∀ s t, C.inv s → C.step s t → measure t ≤ measure s) (n : Nat) : Contract σ where
  inv s := C.inv s ∧ measure s < n
  step := C.step
  refl s hs := C.refl s hs.1
  trans s t r hs := C.trans s t r hs.1
  inv_step s t hs h := ⟨C.inv_step s t hs.1 h, Nat.lt_of_le_of_lt (hmeasure s t hs.1 h) hs.2⟩

end Contract

end CSem
