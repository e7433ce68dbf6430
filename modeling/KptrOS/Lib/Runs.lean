import KptrOS.Lib.CSem

/-!
# Runs of a system and their simulation

A system is a step function on calls: it takes a call and a state and either
faults or returns an output and the next state. `run` feeds it a list of calls.

- `run_append_ok`: a run splits at every prefix.
- `run_ok_inv`: when every call succeeds and keeps an invariant, so does every run;
  `run_inv` is the same of a run that has finished.
- `Always`, `Along`: what every state of a run satisfies and what every call of it
  meets; `always_iff_along` relates the two.
- `Simulation`: every call of the concrete system succeeds, with the output that
  the abstract system gives, and keeps the two states related;
  `Simulation.run` carries this from one call to every list of calls.
-/

namespace CSem

universe u v w

variable {ε : Type v} {σ ω : Type u}

/-- Execute a list of calls, collecting their outputs. -/
def run (step : ε → σ → Exec (ω × σ)) : List ε → σ → Exec (List ω × σ)
  | [], s => .ok ([], s)
  | e :: es, s => do
    let r ← step e s
    let rs ← run step es r.2
    return (r.1 :: rs.1, rs.2)

variable {step : ε → σ → Exec (ω × σ)}

@[simp] theorem run_nil (s : σ) : run step [] s = .ok ([], s) := rfl

theorem run_cons_ok {e : ε} {es : List ε} {s s' : σ} {os : List ω} :
    run step (e :: es) s = .ok (os, s') ↔
      ∃ o s₁ os₁, step e s = .ok (o, s₁) ∧ run step es s₁ = .ok (os₁, s') ∧
        os = o :: os₁ := by
  rw [run]
  constructor
  · intro h
    obtain ⟨⟨o, s₁⟩, hstep, h⟩ := bind_eq_ok.mp h
    obtain ⟨⟨os₁, s₂⟩, hrun, h⟩ := bind_eq_ok.mp h
    cases h
    exact ⟨o, s₁, os₁, hstep, hrun, rfl⟩
  · rintro ⟨o, s₁, os₁, hstep, hrun, rfl⟩
    simp only [hstep, ok_bind, hrun, pure_eq_ok]

/-- A run of a concatenation is a run of the prefix followed by one of the
suffix. -/
theorem run_append_ok {es₁ es₂ : List ε} {s s' : σ} {os : List ω} :
    run step (es₁ ++ es₂) s = .ok (os, s') ↔
      ∃ os₁ s₁ os₂, run step es₁ s = .ok (os₁, s₁) ∧
        run step es₂ s₁ = .ok (os₂, s') ∧ os = os₁ ++ os₂ := by
  induction es₁ generalizing s os with
  | nil =>
    constructor
    · intro h
      exact ⟨[], s, os, rfl, h, rfl⟩
    · rintro ⟨os₁, s₁, os₂, h₁, h₂, rfl⟩
      cases h₁
      exact h₂
  | cons e es ih =>
    rw [List.cons_append, run_cons_ok]
    constructor
    · rintro ⟨o, s₁, os₁, hstep, hrun, rfl⟩
      obtain ⟨os₂, s₂, os₃, h₂, h₃, rfl⟩ := ih.mp hrun
      exact ⟨o :: os₂, s₂, os₃, run_cons_ok.mpr ⟨o, s₁, os₂, hstep, h₂, rfl⟩,
        h₃, rfl⟩
    · rintro ⟨os₁, s₂, os₂, h₁, h₂, rfl⟩
      obtain ⟨o, s₁, os₃, hstep, h₃, rfl⟩ := run_cons_ok.mp h₁
      exact ⟨o, s₁, os₃ ++ os₂, hstep, ih.mpr ⟨os₃, s₂, os₂, h₃, h₂, rfl⟩, rfl⟩

/-- Invariant rule: when every call succeeds and keeps the invariant, so does every
run. -/
theorem run_ok_inv {I : σ → Prop}
    (hstep : ∀ e s, I s → ∃ o s', step e s = .ok (o, s') ∧ I s')
    (es : List ε) {s : σ} (h0 : I s) :
    ∃ os s', run step es s = .ok (os, s') ∧ I s' := by
  induction es generalizing s with
  | nil => exact ⟨[], s, rfl, h0⟩
  | cons e es ih =>
    obtain ⟨o, s₁, he, h₁⟩ := hstep e s h0
    obtain ⟨os, s₂, hes, h₂⟩ := ih h₁
    exact ⟨o :: os, s₂, run_cons_ok.mpr ⟨o, s₁, os, he, hes, rfl⟩, h₂⟩

/-- The state in which a finished run ends satisfies the invariant. -/
theorem run_inv {I : σ → Prop}
    (hstep : ∀ e s, I s → ∃ o s', step e s = .ok (o, s') ∧ I s')
    {es : List ε} {s s' : σ} {os : List ω} (h0 : I s)
    (hrun : run step es s = .ok (os, s')) : I s' := by
  obtain ⟨os₁, s₁, hrun₁, h₁⟩ := run_ok_inv hstep es h0
  rw [hrun] at hrun₁
  cases hrun₁
  exact h₁

/-! ## What holds all along a run -/

/-- Every state of the run satisfies `I`. -/
def Always (step : ε → σ → Exec (ω × σ)) (I : σ → Prop) : List ε → σ → Prop
  | [], s => I s
  | e :: es, s => I s ∧ ∀ o s', step e s = .ok (o, s') → Always step I es s'

/-- Every call of the run meets `Q` in the state in which it is made. -/
def Along (step : ε → σ → Exec (ω × σ)) (Q : ε → σ → Prop) : List ε → σ → Prop
  | [], _ => True
  | e :: es, s => Q e s ∧ ∀ o s', step e s = .ok (o, s') → Along step Q es s'

theorem Always.head {I : σ → Prop} {es : List ε} {s : σ} (h : Always step I es s) :
    I s := by
  cases es with
  | nil => exact h
  | cons e es => exact h.1

section Exact

variable {J : σ → Prop} {V : ε → σ → Prop}
  (hok : ∀ e s, J s → V e s → ∃ o s', step e s = .ok (o, s'))
  (hJ : ∀ e s o s', J s → V e s → step e s = .ok (o, s') → J s')

include hok hJ

/-- A run of valid calls succeeds. -/
theorem run_of_along {es : List ε} {s : σ} (hV : Along step V es s) (hs : J s) :
    ∃ os s', run step es s = .ok (os, s') := by
  induction es generalizing s with
  | nil => exact ⟨[], s, rfl⟩
  | cons e es ih =>
    obtain ⟨o, s₁, hstep⟩ := hok e s hs hV.1
    obtain ⟨os, s₂, hrun⟩ := ih (hV.2 o s₁ hstep) (hJ e s o s₁ hs hV.1 hstep)
    exact ⟨o :: os, s₂, run_cons_ok.mpr ⟨o, s₁, os, hstep, hrun, rfl⟩⟩

/-- **Exact conditions carry over to runs**: when a valid call keeps `I` exactly if it
meets `Q`, a run of valid calls satisfies `I` throughout exactly if all its calls
meet `Q`. -/
theorem always_iff_along {I : σ → Prop} {Q : ε → σ → Prop}
    (hI : ∀ e s o s', J s → I s → V e s → step e s = .ok (o, s') → (I s' ↔ Q e s))
    {es : List ε} {s : σ} (hV : Along step V es s) (hs : J s) (h0 : I s) :
    Always step I es s ↔ Along step Q es s := by
  induction es generalizing s with
  | nil => exact iff_of_true h0 trivial
  | cons e es ih =>
    obtain ⟨hv, hrest⟩ := hV
    constructor
    · rintro ⟨-, halways⟩
      -- the call does succeed, and `I` of the state after it gives `Q`
      obtain ⟨o, s₁, hstep⟩ := hok e s hs hv
      refine ⟨(hI e s o s₁ hs h0 hv hstep).mp (halways o s₁ hstep).head,
        fun o s₁ hstep => ?_⟩
      have htail := halways o s₁ hstep
      exact (ih (hrest o s₁ hstep) (hJ e s o s₁ hs hv hstep) htail.head).mp htail
    · rintro ⟨hq, halong⟩
      refine ⟨h0, fun o s₁ hstep => ?_⟩
      have h₁ := (hI e s o s₁ hs h0 hv hstep).mpr hq
      exact (ih (hrest o s₁ hstep) (hJ e s o s₁ hs hv hstep) h₁).mpr (halong o s₁ hstep)

end Exact

/-! ## Simulation by a total system -/

variable {α : Type w}

/-- Outputs and final state of an abstract system, which never faults. -/
def trace (astep : ε → α → ω × α) : List ε → α → List ω × α
  | [], a => ([], a)
  | e :: es, a =>
    ((astep e a).1 :: (trace astep es (astep e a).2).1,
      (trace astep es (astep e a).2).2)

/-- The final state of an abstract run, when the states change by `f`. -/
theorem trace_snd_eq_foldl {astep : ε → α → ω × α} {f : α → ε → α}
    (hf : ∀ e a, (astep e a).2 = f a e) (es : List ε) (a : α) :
    (trace astep es a).2 = es.foldl f a := by
  induction es generalizing a with
  | nil => rfl
  | cons e es ih =>
    show (trace astep es (astep e a).2).2 = es.foldl f (f a e)
    rw [ih, hf]

/-- `R` relates concrete to abstract states so that every concrete call succeeds
with the abstract output and leads to related states. -/
structure Simulation (step : ε → σ → Exec (ω × σ)) (astep : ε → α → ω × α)
    (R : σ → α → Prop) : Prop where
  step_ok : ∀ e s a, R s a →
    ∃ s', step e s = .ok ((astep e a).1, s') ∧ R s' (astep e a).2

/-- **Simulation of runs**: from related states every list of calls succeeds,
gives the outputs of the abstract run and ends in related states. -/
theorem Simulation.run {astep : ε → α → ω × α} {R : σ → α → Prop}
    (sim : Simulation step astep R) (es : List ε) {s : σ} {a : α} (h : R s a) :
    ∃ s', run step es s = .ok ((trace astep es a).1, s') ∧
      R s' (trace astep es a).2 := by
  induction es generalizing s a with
  | nil => exact ⟨s, rfl, h⟩
  | cons e es ih =>
    obtain ⟨s₁, hstep, h₁⟩ := sim.step_ok e s a h
    obtain ⟨s₂, hrun, h₂⟩ := ih h₁
    exact ⟨s₂, run_cons_ok.mpr ⟨_, s₁, _, hstep, hrun, rfl⟩, h₂⟩

/-- A finished run from related states is the abstract run. -/
theorem Simulation.run_eq {astep : ε → α → ω × α} {R : σ → α → Prop}
    (sim : Simulation step astep R) {es : List ε} {s s' : σ} {a : α}
    {os : List ω} (h : R s a) (hrun : CSem.run step es s = .ok (os, s')) :
    os = (trace astep es a).1 ∧ R s' (trace astep es a).2 := by
  obtain ⟨s₁, hrun₁, h₁⟩ := sim.run es h
  rw [hrun] at hrun₁
  cases hrun₁
  exact ⟨rfl, h₁⟩

end CSem
