import Mathlib.Algebra.Order.Group.Nat
import KptrOS.Timer.Hpet

/-!
# The interval that a timer is given

A millisecond has 10¹² femtoseconds. `hpet_configure_timer` divides 10¹⁵ of them by the
period, those of a second, and multiplies by the number of milliseconds, modulo 2⁶⁴.

- `EncodesInterval`: a comparator holds the ticks of an interval, up to truncation.
- `comparatorTicks`: what is written instead.
- `CancelsExcess`: the multiplication wraps by the amount that is too much.
- `hpetConfigureTimer_interval_iff`: only then, or for an interval of 0, is the value right.
-/

namespace KptrOS

open CSem

/-- `ticks` counter periods of `period` femtoseconds are `ms` milliseconds: at least the
ticks of one millisecond, rounded down, `ms` times, and no more than fit into all of them. -/
def EncodesInterval (period ms ticks : Nat) : Prop :=
  ms * (10 ^ 12 / period) ≤ ticks ∧ ticks ≤ ms * 10 ^ 12 / period

/-- `(1000000000000000 / hpet_period) * interval_ms`, in 64 bits. -/
def comparatorTicks (period ms : Nat) : Nat := 10 ^ 15 / period * ms % 2 ^ 64

/-- The ticks of `ms` seconds exceed those of `ms` milliseconds by a positive multiple of
2⁶⁴, up to the truncation of both. -/
def CancelsExcess (period ms : Nat) : Prop :=
  ∃ wraps, 0 < wraps ∧ ms * (10 ^ 12 / period) + wraps * 2 ^ 64 ≤ 10 ^ 15 / period * ms ∧
    10 ^ 15 / period * ms ≤ ms * 10 ^ 12 / period + wraps * 2 ^ 64

/-! ## The count of ticks -/

section

variable {period ms : Nat}

/-- The ticks of `ms` seconds are more than those of `ms` milliseconds. -/
theorem ticks_lt_ticksOfSeconds (hpos : 1 ≤ period) (hlt : period < 2 ^ 32) (hms : 0 < ms) :
    ms * 10 ^ 12 / period < 10 ^ 15 / period * ms := by
  have hround : 10 ^ 15 < period * (10 ^ 15 / period + 1) := Nat.lt_mul_div_succ _ hpos
  have hperiod : 10 ^ 12 < 10 ^ 15 / period * period := by
    rw [Nat.mul_comm, Nat.add_mul, Nat.one_mul] at hround
    omega
  refine (Nat.div_lt_iff_lt_mul hpos).mpr ?_
  calc ms * 10 ^ 12 < ms * (10 ^ 15 / period * period) := Nat.mul_lt_mul_of_pos_left hperiod hms
    _ = 10 ^ 15 / period * ms * period := by ring

/-- A product that does not wrap is right for an interval of 0 only. -/
theorem encodesInterval_iff_of_lt (hpos : 1 ≤ period) (hlt : period < 2 ^ 32)
    (hfits : 10 ^ 15 / period * ms < 2 ^ 64) :
    EncodesInterval period ms (comparatorTicks period ms) ↔ ms = 0 := by
  rw [EncodesInterval, comparatorTicks, Nat.mod_eq_of_lt hfits]
  constructor
  · rintro ⟨-, hle⟩
    by_contra hms
    exact absurd hle (Nat.not_le.mpr (ticks_lt_ticksOfSeconds hpos hlt (Nat.pos_of_ne_zero hms)))
  · rintro rfl
    rw [Nat.zero_mul, Nat.zero_mul, Nat.mul_zero]
    exact ⟨Nat.le_refl 0, Nat.zero_le _⟩

/-- **When the ticks are right.** -/
theorem encodesInterval_iff (hpos : 1 ≤ period) (hlt : period < 2 ^ 32)
    (hms : ms * 10 ^ 12 / period < 2 ^ 64) :
    EncodesInterval period ms (comparatorTicks period ms) ↔
      ms = 0 ∨ CancelsExcess period ms := by
  by_cases hfits : 10 ^ 15 / period * ms < 2 ^ 64
  · rw [encodesInterval_iff_of_lt hpos hlt hfits]
    refine ⟨.inl, fun h => h.resolve_right ?_⟩
    rintro ⟨wraps, hwraps, hle, -⟩
    omega
  · rw [EncodesInterval, comparatorTicks, CancelsExcess]
    have hsplit := Nat.div_add_mod (10 ^ 15 / period * ms) (2 ^ 64)
    constructor
    · rintro ⟨hlo, hhi⟩
      -- the high half of the product is what has been lost
      refine .inr ⟨10 ^ 15 / period * ms / 2 ^ 64,
        Nat.div_pos (Nat.le_of_not_lt hfits) (by decide), ?_, ?_⟩ <;> omega
    · rintro (rfl | ⟨wraps, -, hle, hge⟩)
      · exact absurd (Nat.two_pow_pos 64) hfits
      · have hmod : 10 ^ 15 / period * ms % 2 ^ 64 = 10 ^ 15 / period * ms - wraps * 2 ^ 64 := by
          omega
        rw [hmod]
        omega

end

/-! ## The comparator -/

/-- The value written in 64-bit arithmetic. -/
theorem comparatorTicks_toNat (period ms : Word) :
    ((1000000000000000 : Word) / period * ms).toNat =
      comparatorTicks period.toNat ms.toNat := by
  rw [BitVec.toNat_mul, BitVec.toNat_udiv]
  rfl

/-- **When a timer is configured for the interval asked for.** With a base and a period below
2³² the comparator of the timer is written, last; what is written are the ticks of the
interval exactly if the interval is 0, or the product wraps by the excess. Without a wrap it
is 0 or wrong. -/
theorem hpetConfigureTimer_interval_iff {timer intervalMs : Word} {s : TimerState}
    (hbase : s.hpetBase ≠ 0) (hpos : 1 ≤ s.hpetPeriod.toNat) (hlt : s.hpetPeriod.toNat < 2 ^ 32)
    (hms : intervalMs.toNat * 10 ^ 12 / s.hpetPeriod.toNat < 2 ^ 64) :
    ∃ s' ticks, hpetConfigureTimer timer intervalMs s = .ok (0, s') ∧
      s'.accesses = s.accesses ++
        [.store (s.hpetBase + hpetTimerConfigCapability timer)
          (hpetPeriodicCnf ||| hpetIntEnableCnf),
        .store (s.hpetBase + hpetTimerComparator timer) ticks] ∧
      (EncodesInterval s.hpetPeriod.toNat intervalMs.toNat ticks.toNat ↔
        intervalMs = 0 ∨ CancelsExcess s.hpetPeriod.toNat intervalMs.toNat) ∧
      (10 ^ 15 / s.hpetPeriod.toNat * intervalMs.toNat < 2 ^ 64 →
        (EncodesInterval s.hpetPeriod.toNat intervalMs.toNat ticks.toNat ↔ intervalMs = 0)) := by
  have hperiod : s.hpetPeriod ≠ 0 := by
    intro h
    rw [h] at hpos
    exact absurd hpos (by decide)
  have hzero : intervalMs = 0 ↔ intervalMs.toNat = 0 := by
    rw [← BitVec.toNat_inj]
    rfl
  refine ⟨_, 1000000000000000 / s.hpetPeriod * intervalMs,
    hpetConfigureTimer_ok timer intervalMs hbase hperiod, ?_, ?_, fun hfits => ?_⟩
  · show (s.accesses ++ [_]) ++ [_] = _
    rw [List.append_assoc]
    rfl
  · rw [comparatorTicks_toNat, hzero]
    exact encodesInterval_iff hpos hlt hms
  · rw [comparatorTicks_toNat, hzero]
    exact encodesInterval_iff_of_lt hpos hlt hfits

/-- A timer of 14.318 MHz, that is with a period of 69841279 fs, with its registers at 0x1000. -/
def fourteenMegahertz : TimerState := ⟨.loaded fun _ => 0, 0x1000, 69841279, 0, []⟩

/-- Some long intervals do come out right: the product wraps 775 times. -/
theorem hpetConfigureTimer_interval_wraps :
    ∃ s' ticks, hpetConfigureTimer 2 999466281718634 fourteenMegahertz = .ok (0, s') ∧
      s'.accesses = [.store 0x1140 (hpetPeriodicCnf ||| hpetIntEnableCnf),
        .store 0x1148 ticks] ∧ EncodesInterval 69841279 999466281718634 ticks.toNat := by
  obtain ⟨s', ticks, hrun, haccesses, hiff, -⟩ :=
    @hpetConfigureTimer_interval_iff 2 999466281718634 fourteenMegahertz (by decide) (by decide)
      (by decide) (by decide)
  exact ⟨s', ticks, hrun, haccesses,
    hiff.mpr (.inr ⟨775, by decide, by decide, by decide⟩)⟩

/-- A timer of 10 MHz with its registers at 0x1000. -/
def tenMegahertz : TimerState := ⟨.loaded fun _ => 0, 0x1000, 100000000, 0, []⟩

/-- For 100 ms it is given the ticks of 100 s. -/
theorem hpetConfigureTimer_seconds :
    ∃ s', hpetConfigureTimer 0 100 tenMegahertz = .ok (0, s') ∧
      s'.accesses = [.store 0x1100 (hpetPeriodicCnf ||| hpetIntEnableCnf),
        .store 0x1108 1000000000] ∧
      100 * 10 ^ 12 / 100000000 = 1000000 ∧ ¬ EncodesInterval 100000000 100 1000000000 := by
  refine ⟨_, hpetConfigureTimer_ok 0 100 (by decide) (by decide), rfl, by decide, ?_⟩
  rw [EncodesInterval]
  omega

end KptrOS
