/-
`wave_math.cpp`: the quintic blend, the dispersion relation, the stroke of a
wavemaker and the table of transfer gains, in exact arithmetic.

The arithmetic is that of an ordered field. The functions of `<cmath>` are a
parameter, `Libm`: `Libm.real` has the real ones, and what holds without any
property of them is stated for every `Libm`. Reading a list outside its bounds gives
`none`.
-/
import Mathlib
import Wavemakers.Numeric

set_option autoImplicit false

namespace WavemakerController

open Numeric

/-- What the source uses of `<cmath>`. -/
structure Libm (K : Type) where
  pi : K
  sin : K → K
  cos : K → K
  sinh : K → K
  cosh : K → K
  tanh : K → K
  exp : K → K
  sqrt : K → K
  pow : K → K → K

noncomputable def Libm.real : Libm ℝ where
  pi := Real.pi
  sin := Real.sin
  cos := Real.cos
  sinh := Real.sinh
  cosh := Real.cosh
  tanh := Real.tanh
  exp := Real.exp
  sqrt := Real.sqrt
  pow x y := x ^ y

inductive WavemakerType where
  | piston | flap
  /-- any other text -/
  | other
  deriving DecidableEq, Repr

variable {K : Type} [Field K] [LinearOrder K]

/-! ## The blend -/

/-- Peak of `ds` for the quintic blend. -/
def kQuinticPeakVelocityFactor : K := 15 / 8

structure Blend (K : Type) where
  /-- blend factor, 0 -> 1 -/
  s : K
  ds : K

def quintic_blend (elapsed duration : K) : Blend K :=
  let u := std_clamp (elapsed / duration) 0 1
  let u2 := u * u
  let u3 := u2 * u
  let u4 := u3 * u
  let u5 := u4 * u
  { s := 10 * u3 - 15 * u4 + 6 * u5
    ds := (30 * u2 - 60 * u3 + 30 * u4) / duration }

theorem quintic_blend_zero [IsStrictOrderedRing K] (duration : K) :
    (quintic_blend 0 duration).s = 0 := by
  have hu : std_clamp ((0 : K) / duration) 0 1 = 0 := by
    rw [zero_div]
    exact std_clamp_le le_rfl zero_le_one
  simp only [quintic_blend, hu, mul_zero, sub_zero, add_zero]

/-! ## Waves -/

def solve_dispersion (m : Libm K) (omega depth : K) : K :=
  let g := 981 / 100
  let mu0 := omega * omega * depth / g
  -- Eckart 1952 approximation
  let mu_a := mu0 / m.sqrt (m.tanh mu0)
  -- Beji 2013 correction terms
  let alpha := 109 / 100
  let beta0 := 155 / 100
  let beta1 := 130 / 100
  let beta2 := 216 / 1000
  let fc := m.pow mu0 alpha * m.exp (-(beta0 + beta1 * mu0 + beta2 * mu0 * mu0))
  mu_a * (1 + fc)

/-- H/S -/
def transfer_ratio (m : Libm K) (mu : K) (type : WavemakerType) (hinge_fraction : K) : K :=
  match type with
  | .piston => 4 * m.sinh mu * m.sinh mu / (m.sinh (2 * mu) + 2 * mu)
  | _ =>
      let hinge_mu := mu * hinge_fraction
      let bracket := m.sinh mu + (m.cosh hinge_mu - m.cosh mu) / (mu - hinge_mu)
      4 * m.sinh mu * bracket / (m.sinh (2 * mu) + 2 * mu)

def compute_stroke (m : Libm K) (mu target_height : K) (type : WavemakerType)
    (hinge_fraction : K) : K :=
  target_height / transfer_ratio m mu type hinge_fraction

/-! ## Gains -/

structure GainLookup (K : Type) where
  gain : K
  /-- period outside the table; gain is the nearest end value -/
  clamped : Bool

/-- `std::upper_bound`: the index of the first entry above the period. -/
def upper_bound (periods : List K) (period : K) : ℕ :=
  periods.findIdx fun x => decide (period < x)

def interpolate_gain (periods values : List K) (period : K) : Option (GainLookup K) := do
  let front ← periods.head?
  if period ≤ front then return ⟨← values.head?, decide (period < front)⟩
  let back ← periods.getLast?
  if back ≤ period then return ⟨← values.getLast?, decide (back < period)⟩
  -- periods[i - 1] <= period < periods[i]
  let i := upper_bound periods period
  let p0 ← periods[i - 1]?
  let p1 ← periods[i]?
  let v0 ← values[i - 1]?
  let v1 ← values[i]?
  let fraction := (period - p0) / (p1 - p0)
  return ⟨v0 + fraction * (v1 - v0), false⟩

end WavemakerController
