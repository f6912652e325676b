/-
`wave_trajectory.cpp`: the regular wave and the pregenerated wave, each with its
blend from the start position, its peak velocity and its samples.

The positions of a pregenerated wave are not empty, which its record carries.
-/
import Mathlib
import Wavemakers.WaveMath

set_option autoImplicit false

namespace WavemakerController

open Numeric

variable {K : Type} [Field K] [LinearOrder K]

/-! ## The regular wave -/

structure WavemakerGeometry (K : Type) where
  type : WavemakerType
  water_depth : K
  /-- above the tank floor -/
  flap_attachment_height : K
  upright_position : K
  upright_is_minimum : Bool
  /-- measured / theoretical wave height -/
  transfer_gain : K
  /-- flap only -/
  hinge_height : K

/-- Regular wave with a quintic blend from the start position over one period. -/
structure WaveTrajectory (K : Type) where
  upright_position_ : K
  upright_is_minimum_ : Bool
  amplitude_ : K
  omega_ : K
  start_position_ : K
  startup_duration_ : K

namespace WaveTrajectory

def configure (m : Libm K) (geometry : WavemakerGeometry K) (wave_height period start_position : K) :
    WaveTrajectory K :=
  let omega := 2 * m.pi / period
  let mu := solve_dispersion m omega geometry.water_depth
  let flap := decide (geometry.type = .flap)
  let hinge := if flap then geometry.hinge_height else 0
  let stroke := compute_stroke m mu wave_height geometry.type (hinge / geometry.water_depth) /
    geometry.transfer_gain
  let amplitude := stroke / 2
  { omega_ := omega
    -- The stroke is at the still-water level; scale it up to the attachment point.
    amplitude_ :=
      if flap then
        amplitude * ((geometry.flap_attachment_height - hinge) / (geometry.water_depth - hinge))
      else amplitude
    upright_position_ := geometry.upright_position
    upright_is_minimum_ := geometry.upright_is_minimum
    start_position_ := start_position
    startup_duration_ := period }

variable (m : Libm K) (w : WaveTrajectory K)

def required_minimum : K :=
  if w.upright_is_minimum_ then w.upright_position_ else w.upright_position_ - w.amplitude_

def required_maximum : K :=
  w.upright_position_ + w.amplitude_ * (if w.upright_is_minimum_ then 2 else 1)

/-- The wave without the blend: position and velocity. -/
def wave (wave_time : K) : K × K :=
  if w.upright_is_minimum_ then
    (w.upright_position_ + w.amplitude_ * (1 - m.cos (w.omega_ * wave_time)),
      w.amplitude_ * w.omega_ * m.sin (w.omega_ * wave_time))
  else
    (w.upright_position_ + w.amplitude_ * m.sin (w.omega_ * wave_time),
      w.amplitude_ * w.omega_ * m.cos (w.omega_ * wave_time))

def sample (elapsed : K) : K × K :=
  -- Phase is continuous across the blend only because startup_duration_ equals the period.
  let wave_time :=
    if w.upright_is_minimum_ ∧ elapsed < w.startup_duration_ then elapsed
    else elapsed - w.startup_duration_
  let (wave_position, wave_velocity) := w.wave m wave_time
  if elapsed < w.startup_duration_ then
    let b := quintic_blend elapsed w.startup_duration_
    (w.start_position_ + b.s * (wave_position - w.start_position_),
      b.ds * (wave_position - w.start_position_) + b.s * wave_velocity)
  else (wave_position, wave_velocity)

def kBlendSamples : ℕ := 10000

def kSamplingMargin : K := 1 / 10000

/-- The samples the peak is searched over. -/
def blend_speed (i : ℕ) : K := |(w.sample m (w.startup_duration_ * i / kBlendSamples)).2|

def peak_velocity : K :=
  (List.range (kBlendSamples + 1)).foldl (fun peak i => max peak (w.blend_speed m i))
    (w.amplitude_ * w.omega_) * (1 + kSamplingMargin)

end WaveTrajectory

/-! ## The pregenerated wave -/

/-- Linear interpolation of positions; `true` once elapsed reaches duration. -/
def sample_pregenerated [FloorSemiring K] (positions : List K) (sample_interval elapsed duration : K) :
    Option (K × K × Bool) :=
  if duration ≤ elapsed then positions.getLast?.map fun back => (back, 0, true)
  else do
    let sample := elapsed / sample_interval
    -- A single position leaves no pair to index; the subtraction of the source wraps there.
    let index := min ⌊sample⌋₊ (positions.length - 2)
    let fraction := sample - index
    let before ← positions[index]?
    let after ← positions[index + 1]?
    let delta := after - before
    return (before + fraction * delta, delta / sample_interval, false)

/-- Sampled positions, played after a quintic blend from the start position to
the first of them. -/
structure PregeneratedWaveTrajectory (K : Type) where
  positions_ : List K
  nonempty : positions_ ≠ []
  sample_interval_ : K
  start_position_ : K
  blend_duration_ : K

namespace PregeneratedWaveTrajectory

variable (w : PregeneratedWaveTrajectory K)

def front : K := w.positions_.head w.nonempty

/-- Blend plus samples. -/
def duration : K := w.blend_duration_ + w.sample_interval_ * (w.positions_.length - 1 : ℕ)

def peak_velocity : K :=
  let peak :=
    if 0 < w.blend_duration_ then
      kQuinticPeakVelocityFactor * |w.front - w.start_position_| / w.blend_duration_
    else 0
  (w.positions_.zip w.positions_.tail).foldl
    (fun peak x => max peak (|x.2 - x.1| / w.sample_interval_)) peak

def sample [FloorSemiring K] (elapsed : K) : Option (K × K × Bool) :=
  if elapsed < w.blend_duration_ then
    let b := quintic_blend elapsed w.blend_duration_
    let delta := w.front - w.start_position_
    some (w.start_position_ + b.s * delta, b.ds * delta, false)
  else
    sample_pregenerated w.positions_ w.sample_interval_ (elapsed - w.blend_duration_)
      (w.duration - w.blend_duration_)

end PregeneratedWaveTrajectory

/-! ## What every motion needs of them -/

section Exact

variable [IsStrictOrderedRing K]

theorem WaveTrajectory.peak_velocity_nonneg (m : Libm K) (w : WaveTrajectory K) :
    0 ≤ w.peak_velocity m := by
  have hmem : 0 ∈ List.range (WaveTrajectory.kBlendSamples + 1) := by
    rw [List.mem_range]
    exact Nat.succ_pos _
  have hpeak := mem_le_foldl_max (w.blend_speed m) hmem (w.amplitude_ * w.omega_)
  have hspeed : 0 ≤ w.blend_speed m 0 := abs_nonneg _
  have hmargin : (0 : K) ≤ 1 + WaveTrajectory.kSamplingMargin := by
    unfold WaveTrajectory.kSamplingMargin
    positivity
  exact mul_nonneg (hspeed.trans hpeak) hmargin

theorem PregeneratedWaveTrajectory.peak_velocity_nonneg (w : PregeneratedWaveTrajectory K) :
    0 ≤ w.peak_velocity := by
  unfold peak_velocity
  refine le_trans ?_ (le_foldl_max _ _ _)
  split
  · rename_i hblend
    unfold kQuinticPeakVelocityFactor
    positivity
  · exact le_rfl

omit [IsStrictOrderedRing K] in
/-- Interpolation never reads a position that is not there: with a single position
the duration is zero, and with more of them the index is at most that of the last
pair. -/
theorem sample_pregenerated_defined [FloorSemiring K] {positions : List K} (hne : positions ≠ [])
    (sample_interval : K) {elapsed : K} (ht : 0 ≤ elapsed) :
    ∃ r, sample_pregenerated positions sample_interval elapsed
      (sample_interval * (positions.length - 1 : ℕ)) = some r := by
  have hlen : 0 < positions.length := List.length_pos_iff.mpr hne
  unfold sample_pregenerated
  split
  · rw [List.getLast?_eq_some_getLast hne]
    exact ⟨_, rfl⟩
  · rename_i hbefore
    have htwo : 2 ≤ positions.length := by
      by_contra hone
      apply hbefore
      rw [show positions.length - 1 = 0 by omega, Nat.cast_zero, mul_zero]
      exact ht
    have hindex : min ⌊elapsed / sample_interval⌋₊ (positions.length - 2) + 1 <
        positions.length := by
      have hle := min_le_right ⌊elapsed / sample_interval⌋₊ (positions.length - 2)
      omega
    dsimp only
    rw [List.getElem?_eq_getElem hindex,
      List.getElem?_eq_getElem (Nat.lt_of_succ_lt hindex)]
    exact ⟨_, rfl⟩

theorem PregeneratedWaveTrajectory.sample_defined [FloorSemiring K]
    (w : PregeneratedWaveTrajectory K) (elapsed : K) : ∃ r, w.sample elapsed = some r := by
  unfold sample
  split
  · exact ⟨_, rfl⟩
  · rename_i hblend
    have hrest : w.duration - w.blend_duration_ =
        w.sample_interval_ * (w.positions_.length - 1 : ℕ) := add_sub_cancel_left _ _
    rw [hrest]
    exact sample_pregenerated_defined w.nonempty _ (sub_nonneg.mpr (not_lt.mp hblend))

end Exact

end WavemakerController
