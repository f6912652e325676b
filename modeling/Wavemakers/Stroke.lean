/-
The stroke of a wavemaker in real arithmetic: defined, positive and ordered by hinge.

Everything rests on the wavenumber being positive and on the hyperbolic cosine being
strictly convex. The bracket of the flap's transfer ratio is `sinh mu` minus the slope of a
secant of `cosh` that ends at `mu`: a secant is less steep than the tangent at its right
end, so the bracket is positive, and it becomes steeper as its left end moves up, so the
bracket falls with the hinge.
-/
import Mathlib
import Wavemakers.QuinticBlend
import Wavemakers.TravelLimits

set_option autoImplicit false

namespace WavemakerController

open Numeric

/-! ## The hyperbolic cosine -/

theorem strictConvexOn_cosh : StrictConvexOn ℝ Set.univ Real.cosh := by
  apply strictConvexOn_univ_of_deriv2_pos Real.continuous_cosh
  intro x
  rw [Function.iterate_succ, Function.iterate_one, Function.comp_apply, Real.deriv_cosh,
    Real.deriv_sinh]
  exact Real.cosh_pos x

/-- A secant is less steep than the tangent at its right end. -/
theorem secant_lt_sinh {x y : ℝ} (h : x < y) :
    (Real.cosh y - Real.cosh x) / (y - x) < Real.sinh y := by
  obtain ⟨c, hc, hslope⟩ := exists_hasDerivAt_eq_slope Real.cosh Real.sinh h
    Real.continuous_cosh.continuousOn fun t _ => Real.hasDerivAt_cosh t
  rw [← hslope]
  exact Real.sinh_lt_sinh.mpr hc.2

/-- A secant gets steeper as its left end moves up. -/
theorem secant_lt_secant {x x' y : ℝ} (h : x < x') (h' : x' < y) :
    (Real.cosh y - Real.cosh x) / (y - x) < (Real.cosh y - Real.cosh x') / (y - x') :=
  strictConvexOn_cosh.secant_strict_mono_aux3 (Set.mem_univ x) (Set.mem_univ y) h h'

/-! ## The wavenumber -/

/-- The deep-water value the approximation starts from. -/
noncomputable def deep_water (omega depth : ℝ) : ℝ := omega * omega * depth / (981 / 100)

theorem tanh_pos {x : ℝ} (hx : 0 < x) : 0 < Real.tanh x := by
  rw [Real.tanh_eq_sinh_div_cosh]
  exact div_pos (Real.sinh_pos_iff.mpr hx) (Real.cosh_pos x)

theorem deep_water_pos {omega depth : ℝ} (homega : 0 < omega) (hdepth : 0 < depth) :
    0 < deep_water omega depth := by
  unfold deep_water
  positivity

theorem solve_dispersion_pos {omega depth : ℝ} (homega : 0 < omega) (hdepth : 0 < depth) :
    0 < solve_dispersion Libm.real omega depth := by
  have hmu0 : 0 < omega * omega * depth / (981 / 100) := by positivity
  have hroot := Real.sqrt_pos.mpr (tanh_pos hmu0)
  have hcorrection := mul_pos (Real.rpow_pos_of_pos hmu0 (109 / 100)) (Real.exp_pos
    (-(155 / 100 + 130 / 100 * (omega * omega * depth / (981 / 100)) + 216 / 1000 *
      (omega * omega * depth / (981 / 100)) * (omega * omega * depth / (981 / 100)))))
  unfold solve_dispersion
  exact mul_pos (div_pos hmu0 hroot) (add_pos one_pos hcorrection)

/-! ## The transfer ratio -/

/-- The flap's bracket, as `sinh` minus a secant. -/
theorem bracket_eq (mu x : ℝ) :
    Real.sinh mu + (Real.cosh x - Real.cosh mu) / (mu - x) =
      Real.sinh mu - (Real.cosh mu - Real.cosh x) / (mu - x) := by
  ring

theorem denominator_pos {mu : ℝ} (hmu : 0 < mu) : 0 < Real.sinh (2 * mu) + 2 * mu := by
  have htwo : 0 < 2 * mu := by linarith
  exact add_pos (Real.sinh_pos_iff.mpr htwo) htwo

/-- The hinge is below the surface in terms of the wavenumber too. -/
theorem hinge_lt {mu hinge_fraction : ℝ} (hmu : 0 < mu) (hhinge : hinge_fraction < 1) :
    mu * hinge_fraction < mu := mul_lt_of_lt_one_right hmu hhinge

/-- **The transfer ratio is positive**, of a piston and of a flap hinged below the
surface. -/
theorem transfer_ratio_pos {mu hinge_fraction : ℝ} (type : WavemakerType) (hmu : 0 < mu)
    (hhinge : hinge_fraction < 1) : 0 < transfer_ratio Libm.real mu type hinge_fraction := by
  have hsinh : 0 < Real.sinh mu := Real.sinh_pos_iff.mpr hmu
  have hden := denominator_pos hmu
  have hflap : 0 < 4 * Real.sinh mu * (Real.sinh mu + (Real.cosh (mu * hinge_fraction) -
      Real.cosh mu) / (mu - mu * hinge_fraction)) / (Real.sinh (2 * mu) + 2 * mu) := by
    -- a secant of `cosh` is below its slope at the right end
    have hbracket : 0 < Real.sinh mu + (Real.cosh (mu * hinge_fraction) - Real.cosh mu) /
        (mu - mu * hinge_fraction) := by
      rw [bracket_eq]
      exact sub_pos.mpr (secant_lt_sinh (hinge_lt hmu hhinge))
    positivity
  cases type with
  | piston => exact div_pos (by positivity) hden
  | flap => exact hflap
  | other => exact hflap

/-- **A higher hinge has a smaller transfer ratio.** -/
theorem transfer_ratio_lt {mu x y : ℝ} (hmu : 0 < mu) (hxy : x < y) (hy : y < 1) :
    transfer_ratio Libm.real mu .flap y < transfer_ratio Libm.real mu .flap x := by
  have hsinh : 0 < Real.sinh mu := Real.sinh_pos_iff.mpr hmu
  have hsecant := secant_lt_secant (mul_lt_mul_of_pos_left hxy hmu) (hinge_lt hmu hy)
  have hbracket : Real.sinh mu + (Real.cosh (mu * y) - Real.cosh mu) / (mu - mu * y) <
      Real.sinh mu + (Real.cosh (mu * x) - Real.cosh mu) / (mu - mu * x) := by
    rw [bracket_eq, bracket_eq]
    exact sub_lt_sub_left hsecant _
  apply div_lt_div_of_pos_right _ (denominator_pos hmu)
  exact mul_lt_mul_of_pos_left hbracket (by positivity)

/-! ## The amplitude -/

/-- What `on_configure` has checked of a geometry. -/
structure WavemakerGeometry.Valid (g : WavemakerGeometry ℝ) : Prop where
  type : g.type = .piston ∨ g.type = .flap
  depth_pos : 0 < g.water_depth
  gain_pos : 0 < g.transfer_gain
  flap : g.type = .flap → 0 ≤ g.hinge_height ∧ g.hinge_height < g.water_depth ∧
    g.water_depth ≤ g.flap_attachment_height

namespace WavemakerGeometry

variable {g : WavemakerGeometry ℝ} {wave_height period start_position : ℝ}

/-- The hinge `configure` uses. -/
noncomputable def hinge (g : WavemakerGeometry ℝ) : ℝ :=
  if decide (g.type = .flap) = true then g.hinge_height else 0

/-- The wavenumber `configure` uses. -/
noncomputable def wavenumber (g : WavemakerGeometry ℝ) (period : ℝ) : ℝ :=
  solve_dispersion Libm.real (2 * Real.pi / period) g.water_depth

/-- Everything `configure`, `solve_dispersion` and `compute_stroke` divide by, in the order
they do it. The last two are the flap's. -/
noncomputable def divisors (g : WavemakerGeometry ℝ) (period : ℝ) : List ℝ :=
  [period,
    981 / 100, Real.sqrt (Real.tanh (deep_water (2 * Real.pi / period) g.water_depth)),
    g.water_depth,
    Real.sinh (2 * g.wavenumber period) + 2 * g.wavenumber period,
    transfer_ratio Libm.real (g.wavenumber period) g.type (g.hinge / g.water_depth),
    g.transfer_gain, 2] ++
  if g.type = .flap then
    [g.wavenumber period - g.wavenumber period * (g.hinge / g.water_depth),
      g.water_depth - g.hinge]
  else []

theorem Valid.hinge_lt_depth (h : g.Valid) : g.hinge < g.water_depth := by
  unfold hinge
  by_cases hflap : g.type = .flap
  · rw [if_pos (decide_eq_true hflap)]
    exact (h.flap hflap).2.1
  · rw [if_neg (by simpa using hflap)]
    exact h.depth_pos

theorem Valid.hinge_fraction_lt (h : g.Valid) : g.hinge / g.water_depth < 1 :=
  (div_lt_one h.depth_pos).mpr h.hinge_lt_depth

theorem Valid.wavenumber_pos (h : g.Valid) (hperiod : 0 < period) : 0 < g.wavenumber period :=
  solve_dispersion_pos (div_pos Real.two_pi_pos hperiod) h.depth_pos

theorem Valid.ratio_pos (h : g.Valid) (hperiod : 0 < period) :
    0 < transfer_ratio Libm.real (g.wavenumber period) g.type (g.hinge / g.water_depth) :=
  transfer_ratio_pos g.type (h.wavenumber_pos hperiod) h.hinge_fraction_lt

/-- Nothing is divided by zero. -/
theorem Valid.divisors_ne_zero (h : g.Valid) (hperiod : 0 < period) :
    ∀ d ∈ g.divisors period, d ≠ 0 := by
  have hmu := h.wavenumber_pos hperiod
  have hroot : 0 < Real.sqrt (Real.tanh (deep_water (2 * Real.pi / period) g.water_depth)) :=
    Real.sqrt_pos.mpr (tanh_pos (deep_water_pos (div_pos Real.two_pi_pos hperiod) h.depth_pos))
  have hplain : ∀ d ∈ [period,
      981 / 100, Real.sqrt (Real.tanh (deep_water (2 * Real.pi / period) g.water_depth)),
      g.water_depth,
      Real.sinh (2 * g.wavenumber period) + 2 * g.wavenumber period,
      transfer_ratio Libm.real (g.wavenumber period) g.type (g.hinge / g.water_depth),
      g.transfer_gain, 2], 0 < d := by
    simp only [List.forall_mem_cons, List.not_mem_nil, false_implies, implies_true, and_true]
    exact ⟨hperiod, by norm_num, hroot, h.depth_pos, denominator_pos hmu, h.ratio_pos hperiod,
      h.gain_pos, by norm_num⟩
  have hflap : ∀ d ∈ [g.wavenumber period - g.wavenumber period * (g.hinge / g.water_depth),
      g.water_depth - g.hinge], 0 < d := by
    simp only [List.forall_mem_cons, List.not_mem_nil, false_implies, implies_true, and_true]
    exact ⟨sub_pos.mpr (hinge_lt hmu h.hinge_fraction_lt), sub_pos.mpr h.hinge_lt_depth⟩
  intro d hd
  rcases List.mem_append.mp hd with hd | hd
  · exact (hplain d hd).ne'
  · split at hd
    · exact (hflap d hd).ne'
    · exact absurd hd List.not_mem_nil

/-- The amplitude of a configured wave, with the flap's lever. -/
theorem amplitude_eq (g : WavemakerGeometry ℝ) (wave_height period start_position : ℝ) :
    (WaveTrajectory.configure Libm.real g wave_height period start_position).amplitude_ =
      wave_height / transfer_ratio Libm.real (g.wavenumber period) g.type (g.hinge / g.water_depth) /
        g.transfer_gain / 2 *
      if g.type = .flap then (g.flap_attachment_height - g.hinge) / (g.water_depth - g.hinge)
      else 1 := by
  unfold WaveTrajectory.configure compute_stroke
  dsimp only
  by_cases hflap : g.type = .flap
  · rw [if_pos (decide_eq_true hflap), if_pos hflap]
    rfl
  · rw [if_neg (by simpa using hflap), if_neg hflap, mul_one]
    rfl

/-- The lever of a flap: from the still-water level up to the attachment. -/
theorem Valid.lever_pos (h : g.Valid) (hflap : g.type = .flap) :
    0 < (g.flap_attachment_height - g.hinge) / (g.water_depth - g.hinge) := by
  have hdepth := h.hinge_lt_depth
  have hattached := (h.flap hflap).2.2
  exact div_pos (by linarith) (by linarith)

/-- **The amplitude of every wave is positive.** -/
theorem Valid.amplitude_pos (h : g.Valid) (hheight : 0 < wave_height) (hperiod : 0 < period) :
    0 < (WaveTrajectory.configure Libm.real g wave_height period start_position).amplitude_ := by
  have hstroke := div_pos (div_pos (div_pos hheight (h.ratio_pos hperiod)) h.gain_pos) two_pos
  rw [amplitude_eq]
  split
  · rename_i hflap
    exact mul_pos hstroke (h.lever_pos hflap)
  · rw [mul_one]
    exact hstroke

/-- **A higher hinge needs a larger amplitude.** -/
theorem Valid.amplitude_lt {hinge_height : ℝ} (h : g.Valid)
    (h' : { g with hinge_height := hinge_height }.Valid) (hflap : g.type = .flap)
    (hhinge : g.hinge_height < hinge_height) (hheight : 0 < wave_height) (hperiod : 0 < period) :
    (WaveTrajectory.configure Libm.real g wave_height period start_position).amplitude_ <
      (WaveTrajectory.configure Libm.real { g with hinge_height := hinge_height } wave_height period
        start_position).amplitude_ := by
  obtain ⟨-, hlow, hattached⟩ := h.flap hflap
  -- both geometries have the same wavenumber; only the hinge moves
  have hlow' : hinge_height < g.water_depth := (h'.flap hflap).2.1
  have hg : g.hinge = g.hinge_height := if_pos (decide_eq_true hflap)
  have hg' : { g with hinge_height := hinge_height }.hinge = hinge_height :=
    if_pos (decide_eq_true hflap)
  have hratio := h.ratio_pos hperiod
  have hratio' := h'.ratio_pos hperiod
  have hlever := h.lever_pos hflap
  rw [amplitude_eq, amplitude_eq, if_pos hflap, if_pos hflap]
  rw [hg] at hratio hlever ⊢
  rw [hg'] at hratio' ⊢
  change 0 < transfer_ratio Libm.real (g.wavenumber period) g.type
    (hinge_height / g.water_depth) at hratio'
  change _ < wave_height / transfer_ratio Libm.real (g.wavenumber period) g.type
    (hinge_height / g.water_depth) / g.transfer_gain / 2 *
      ((g.flap_attachment_height - hinge_height) / (g.water_depth - hinge_height))
  -- a smaller wave for each stroke, so a longer stroke for the wave
  have hsmaller : transfer_ratio Libm.real (g.wavenumber period) g.type
      (hinge_height / g.water_depth) < transfer_ratio Libm.real (g.wavenumber period) g.type
      (g.hinge_height / g.water_depth) := by
    rw [hflap]
    exact transfer_ratio_lt (h.wavenumber_pos hperiod)
      (div_lt_div_of_pos_right hhinge h.depth_pos) ((div_lt_one h.depth_pos).mpr hlow')
  have hstroke : wave_height / transfer_ratio Libm.real (g.wavenumber period) g.type
      (g.hinge_height / g.water_depth) / g.transfer_gain / 2 <
      wave_height / transfer_ratio Libm.real (g.wavenumber period) g.type
        (hinge_height / g.water_depth) / g.transfer_gain / 2 := by
    apply div_lt_div_of_pos_right _ two_pos
    apply div_lt_div_of_pos_right _ h.gain_pos
    exact div_lt_div_of_pos_left hheight hratio' hsmaller
  -- the lever does not get shorter either
  have hlever' : (g.flap_attachment_height - g.hinge_height) / (g.water_depth - g.hinge_height) ≤
      (g.flap_attachment_height - hinge_height) / (g.water_depth - hinge_height) := by
    rw [div_le_div_iff₀ (sub_pos.mpr hlow) (sub_pos.mpr hlow')]
    nlinarith
  have hpos := div_pos (div_pos (div_pos hheight hratio') h.gain_pos) two_pos
  exact mul_lt_mul hstroke hlever' hlever hpos.le

/-- **The stroke computation is defined, positive and ordered by hinge height.** -/
theorem stroke_defined (h : g.Valid) (wave_height period start_position : ℝ)
    (hheight : 0 < wave_height) (hperiod : 0 < period) :
    (∀ d ∈ g.divisors period, d ≠ 0) ∧
    0 < transfer_ratio Libm.real (g.wavenumber period) g.type (g.hinge / g.water_depth) ∧
    0 < (WaveTrajectory.configure Libm.real g wave_height period start_position).amplitude_ ∧
    (g.type = .flap → ∀ hinge_height, g.hinge_height < hinge_height →
      hinge_height < g.water_depth →
      (WaveTrajectory.configure Libm.real g wave_height period start_position).amplitude_ <
        (WaveTrajectory.configure Libm.real { g with hinge_height := hinge_height } wave_height
          period start_position).amplitude_) := by
  refine ⟨h.divisors_ne_zero hperiod, h.ratio_pos hperiod, h.amplitude_pos hheight hperiod, ?_⟩
  intro hflap hinge_height hhinge hdepth
  obtain ⟨hnonneg, -, hattached⟩ := h.flap hflap
  have h' : { g with hinge_height := hinge_height }.Valid :=
    ⟨h.type, h.depth_pos, h.gain_pos, fun _ => ⟨hnonneg.trans hhinge.le, hdepth, hattached⟩⟩
  exact h.amplitude_lt h' hflap hhinge hheight hperiod

/-- A flap in a metre of water. -/
noncomputable def flap_tank (hinge_height : ℝ) : WavemakerGeometry ℝ where
  type := .flap
  water_depth := 1
  flap_attachment_height := 3 / 2
  upright_position := 0
  upright_is_minimum := false
  transfer_gain := 1
  hinge_height := hinge_height

theorem flap_tank_valid {hinge_height : ℝ} (h : 0 ≤ hinge_height ∧ hinge_height < 1) :
    (flap_tank hinge_height).Valid :=
  ⟨.inr rfl, one_pos, one_pos, fun _ => ⟨h.1, h.2, by norm_num [flap_tank]⟩⟩

/-- The tank hinged on the floor and at half depth. -/
theorem stroke_defined_flap_tank :
    (WaveTrajectory.configure Libm.real (flap_tank 0) (1 / 10) 2 0).amplitude_ <
      (WaveTrajectory.configure Libm.real (flap_tank (1 / 2)) (1 / 10) 2 0).amplitude_ :=
  (stroke_defined (flap_tank_valid (by norm_num)) (1 / 10) 2 0 (by norm_num)
    (by norm_num)).2.2.2 rfl (1 / 2) (by norm_num [flap_tank]) (by norm_num [flap_tank])

end WavemakerGeometry

/-! ## What the node hands to `configure` -/

section Gains

variable {K : Type} [LinearOrder K] {periods values : List K} {period : K}

theorem lt_upper_bound {x : K} (h : periods[upper_bound periods period]? = some x) : period < x := by
  have hfound := List.findIdx_of_getElem?_eq_some h
  exact of_decide_eq_true hfound

theorem le_of_lt_upper_bound {i : ℕ} {x : K} (hi : i < upper_bound periods period)
    (h : periods[i]? = some x) : x ≤ period := by
  obtain ⟨hlen, rfl⟩ := List.getElem?_eq_some_iff.mp h
  have hbefore := List.not_of_lt_findIdx hi
  exact not_lt.mp (of_decide_eq_false hbefore)

/-- An interpolated gain is a mean of two gains of the table. -/
theorem interpolate_gain_pos [Field K] [IsStrictOrderedRing K] (hvalues : ∀ v ∈ values, 0 < v)
    {r : GainLookup K} (h : interpolate_gain periods values period = some r) : 0 < r.gain := by
  simp only [interpolate_gain, Option.bind_eq_bind, Option.bind_eq_some_iff, Option.pure_def] at h
  obtain ⟨front, hfront, h⟩ := h
  by_cases hbelow : period ≤ front
  · rw [if_pos hbelow, Option.bind_eq_some_iff] at h
    obtain ⟨v, hv, heq⟩ := h
    cases heq
    exact hvalues v (List.mem_of_mem_head? hv)
  · rw [if_neg hbelow, Option.bind_eq_some_iff] at h
    obtain ⟨back, -, h⟩ := h
    split at h
    · rw [Option.bind_eq_some_iff] at h
      obtain ⟨v, hv, heq⟩ := h
      cases heq
      exact hvalues v (List.mem_of_mem_getLast? hv)
    · simp only [Option.bind_eq_some_iff, Option.some.injEq] at h
      obtain ⟨p0, hp0, p1, hp1, v0, hv0, v1, hv1, rfl⟩ := h
      have hgain0 := hvalues v0 (List.mem_of_getElem? hv0)
      have hgain1 := hvalues v1 (List.mem_of_getElem? hv1)
      -- the period lies between the two entries; the first of them cannot be above it
      have hlt : period < p1 := lt_upper_bound hp1
      have hindex : 0 < upper_bound periods period := by
        apply Nat.pos_of_ne_zero
        intro hzero
        rw [hzero, ← List.head?_eq_getElem?, hfront] at hp1
        cases hp1
        exact hbelow hlt.le
      have hle : p0 ≤ period := le_of_lt_upper_bound (Nat.sub_lt hindex Nat.one_pos) hp0
      have hp : 0 < p1 - p0 := sub_pos.mpr (hle.trans_lt hlt)
      have hf0 : 0 ≤ (period - p0) / (p1 - p0) := div_nonneg (sub_nonneg.mpr hle) hp.le
      have hf1 : (period - p0) / (p1 - p0) ≤ 1 :=
        (div_le_one hp).mpr (sub_le_sub_right hlt.le _)
      have hmean := mean_mem hf0 hf1 ⟨min_le_left v0 v1, le_max_left v0 v1⟩
        ⟨min_le_right v0 v1, le_max_right v0 v1⟩
      exact (lt_min hgain0 hgain1).trans_le hmean.1

end Gains

section Node

variable {p : Params ℝ} {n : Node ℝ}

theorem transfer_gain_pos (h : on_configure p = some n) {period gain : ℝ}
    (hgain : n.transfer_gain period = some gain) : 0 < gain := by
  obtain ⟨rfl, -, hgains, hconst⟩ := on_configure_geometry h
  unfold Node.transfer_gain at hgain
  split at hgain
  · cases hgain
    exact hconst
  · obtain ⟨r, hr, rfl⟩ := Option.map_eq_some_iff.mp hgain
    exact interpolate_gain_pos hgains hr

/-- **Every wave an accepted configuration prepares** has a valid geometry, and with it a
positive amplitude. -/
theorem configure_wave_valid (h : on_configure p = some n) {start_position : ℝ} {goal : Goal ℝ}
    {w : WaveTrajectory ℝ} (hw : n.configure_wave Libm.real start_position goal = some w) :
    ∃ g : WavemakerGeometry ℝ, g.Valid ∧ 0 < goal.height ∧ 0 < goal.period ∧
      w = .configure Libm.real g goal.height goal.period start_position ∧ 0 < w.amplitude_ := by
  unfold Node.configure_wave at hw
  -- the two refusals of `configure_wave`, then the gain for the period
  obtain ⟨-, hw⟩ := Option.ite_none_left_eq_some.mp hw
  obtain ⟨hgoal, hw⟩ := Option.ite_none_left_eq_some.mp hw
  obtain ⟨gain, hgain, rfl⟩ := Option.map_eq_some_iff.mp hw
  have hheight : 0 < goal.height := not_le.mp fun hle => hgoal (.inr (.inr (.inl hle)))
  have hperiod : 0 < goal.period := not_le.mp fun hle => hgoal (.inr (.inr (.inr hle)))
  have hpos := transfer_gain_pos h hgain
  obtain ⟨rfl, ⟨htype, hdepth, hflap⟩, -, -⟩ := on_configure_geometry h
  refine ⟨_, ⟨htype, hdepth, hpos, hflap⟩, hheight, hperiod, rfl, ?_⟩
  exact WavemakerGeometry.Valid.amplitude_pos ⟨htype, hdepth, hpos, hflap⟩ hheight hperiod

end Node

end WavemakerController
