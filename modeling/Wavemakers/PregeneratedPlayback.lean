/-
Playback of pregenerated positions, interval by interval.

The source finds the interval by truncating a quotient and clamping it to the last pair.
In exact arithmetic the clamp never acts: `sample_playing` says which pair is read at
every time, `sample_done` and `sample_blending` cover the rest. What is claimed of whole
playbacks is read off these three. Between two samples the position runs on a straight
line, so it stays between them; and every junction is reached from both sides at the same
position, so the peak velocity of the pieces bounds the whole motion.
-/
import Mathlib.Algebra.Order.Floor.Semifield
import Wavemakers.QuinticBlend
import Wavemakers.WaveTrajectory

set_option autoImplicit false

namespace WavemakerController

open Numeric

namespace PregeneratedWaveTrajectory

variable {K : Type}

theorem head_eq (w : PregeneratedWaveTrajectory K) : w.positions_[0]? = some w.front := by
  unfold front
  rw [List.head_eq_getElem]
  exact List.getElem?_eq_getElem _

variable [Field K]

theorem duration_sub (w : PregeneratedWaveTrajectory K) :
    w.duration - w.blend_duration_ = w.sample_interval_ * (w.positions_.length - 1 : ℕ) :=
  add_sub_cancel_left _ _

variable [LinearOrder K] {w : PregeneratedWaveTrajectory K}

/-! ## The peak velocity -/

theorem blend_le_peak (hb : 0 < w.blend_duration_) :
    kQuinticPeakVelocityFactor * |w.front - w.start_position_| / w.blend_duration_ ≤
      w.peak_velocity := by
  unfold peak_velocity
  rw [if_pos hb]
  exact le_foldl_max _ _ _

theorem interval_le_peak {i : ℕ} {p q : K} (hp : w.positions_[i]? = some p)
    (hq : w.positions_[i + 1]? = some q) : |q - p| / w.sample_interval_ ≤ w.peak_velocity := by
  have hmem : (p, q) ∈ w.positions_.zip w.positions_.tail := by
    apply List.mem_iff_getElem?.mpr
    refine ⟨i, ?_⟩
    rw [List.getElem?_zip_eq_some, List.getElem?_tail]
    exact ⟨hp, hq⟩
  exact mem_le_foldl_max (fun x : K × K => |x.2 - x.1| / w.sample_interval_) hmem _

variable [FloorSemiring K]

/-! ## One sample -/

theorem sample_blending {t : K} (ht : t < w.blend_duration_) :
    w.sample t = some
      (w.start_position_ + (quintic_blend t w.blend_duration_).s * (w.front - w.start_position_),
        (quintic_blend t w.blend_duration_).ds * (w.front - w.start_position_), false) :=
  if_pos ht

variable [IsStrictOrderedRing K]

/-- The interval `i` of the playback reads the positions `i` and `i + 1`. -/
theorem sample_playing {i : ℕ} {p q t : K} (hh : 0 < w.sample_interval_)
    (hp : w.positions_[i]? = some p) (hq : w.positions_[i + 1]? = some q)
    (hlo : w.blend_duration_ + i * w.sample_interval_ ≤ t)
    (hhi : t < w.blend_duration_ + (i + 1 : ℕ) * w.sample_interval_) :
    w.sample t = some (p + (t - (w.blend_duration_ + i * w.sample_interval_)) *
      ((q - p) / w.sample_interval_), (q - p) / w.sample_interval_, false) := by
  have hlen : i + 1 < w.positions_.length := (List.getElem?_eq_some_iff.mp hq).1
  have hi : (0 : K) ≤ i * w.sample_interval_ := mul_nonneg (Nat.cast_nonneg i) hh.le
  -- the truncated quotient is the number of the interval
  have hfloor : ⌊(t - w.blend_duration_) / w.sample_interval_⌋₊ = i := by
    apply Nat.floor_eq_iff (div_nonneg (by linarith) hh.le) |>.mpr
    constructor
    · rw [le_div_iff₀ hh]
      linarith
    · rw [div_lt_iff₀ hh]
      push_cast at hhi ⊢
      linarith
  have hclamp : min i (w.positions_.length - 2) = i := by omega
  have hbefore : ¬ w.sample_interval_ * (w.positions_.length - 1 : ℕ) ≤ t - w.blend_duration_ := by
    have hcast : ((i + 1 : ℕ) : K) ≤ ((w.positions_.length - 1 : ℕ) : K) :=
      Nat.cast_le.mpr (by omega)
    have hmul := mul_le_mul_of_nonneg_right hcast hh.le
    rw [mul_comm]
    apply not_le.mpr
    linarith
  unfold sample sample_pregenerated
  rw [if_neg (by linarith), duration_sub, if_neg hbefore]
  simp only [hfloor, hclamp, hp, hq, Option.bind_eq_bind, Option.bind_some, Option.pure_def,
    Option.some.injEq, Prod.mk.injEq, and_true]
  field_simp
  ring

theorem sample_done {t : K} (hh : 0 < w.sample_interval_) (ht : w.duration ≤ t) :
    w.sample t = some (w.positions_.getLast w.nonempty, 0, true) := by
  have hrest : (0 : K) ≤ w.sample_interval_ * (w.positions_.length - 1 : ℕ) :=
    mul_nonneg hh.le (Nat.cast_nonneg _)
  have hblend : w.blend_duration_ ≤ t := by
    have h := w.duration_sub
    linarith
  unfold sample sample_pregenerated
  rw [if_neg (not_lt.mpr hblend), if_pos (sub_le_sub_right ht _),
    List.getLast?_eq_some_getLast w.nonempty]
  rfl

/-- Every time is in the blend, in one of the intervals or past the end. -/
theorem sample_cases (hh : 0 < w.sample_interval_) (t : K) :
    t < w.blend_duration_ ∨
    (∃ (i : ℕ) (p q : K), w.positions_[i]? = some p ∧ w.positions_[i + 1]? = some q ∧
      w.blend_duration_ + i * w.sample_interval_ ≤ t ∧
      t < w.blend_duration_ + (i + 1 : ℕ) * w.sample_interval_) ∨
    w.duration ≤ t := by
  by_cases hblend : t < w.blend_duration_
  · exact .inl hblend
  · by_cases hdone : w.duration ≤ t
    · exact .inr (.inr hdone)
    · have hpos : 0 ≤ (t - w.blend_duration_) / w.sample_interval_ :=
        div_nonneg (sub_nonneg.mpr (not_lt.mp hblend)) hh.le
      have hle := Nat.floor_le hpos
      have hlt := Nat.lt_floor_add_one ((t - w.blend_duration_) / w.sample_interval_)
      rw [le_div_iff₀ hh] at hle
      rw [div_lt_iff₀ hh] at hlt
      have hlast : ⌊(t - w.blend_duration_) / w.sample_interval_⌋₊ < w.positions_.length - 1 := by
        rw [Nat.floor_lt hpos, div_lt_iff₀ hh, mul_comm, ← duration_sub]
        exact sub_lt_sub_right (not_le.mp hdone) _
      refine .inr (.inl ⟨⌊(t - w.blend_duration_) / w.sample_interval_⌋₊, _, _,
        List.getElem?_eq_getElem (by omega), List.getElem?_eq_getElem (by omega), ?_, ?_⟩)
      · linarith
      · push_cast
        linarith

/-! ## The position over time -/

/-- The position of a sample. -/
def position (w : PregeneratedWaveTrajectory K) (t : K) : K := ((w.sample t).map (·.1)).getD 0

omit [IsStrictOrderedRing K] in
theorem position_eq {t : K} {r : K × K × Bool} (h : w.sample t = some r) : w.position t = r.1 := by
  rw [position, h]
  rfl

/-- **Every sample is played**, also the last one, which ends the playback. -/
theorem sample_at (hh : 0 < w.sample_interval_) {i : ℕ} {p : K} (hp : w.positions_[i]? = some p) :
    ∃ v done, w.sample (w.blend_duration_ + i * w.sample_interval_) = some (p, v, done) := by
  have hlen : i < w.positions_.length := (List.getElem?_eq_some_iff.mp hp).1
  by_cases hlast : i + 1 < w.positions_.length
  · obtain ⟨q, hq⟩ : ∃ q, w.positions_[i + 1]? = some q := ⟨_, List.getElem?_eq_getElem hlast⟩
    refine ⟨(q - p) / w.sample_interval_, false, ?_⟩
    rw [sample_playing hh hp hq le_rfl (by push_cast; linarith)]
    simp only [sub_self, zero_mul, add_zero]
  · refine ⟨0, true, ?_⟩
    have hend : w.duration = w.blend_duration_ + i * w.sample_interval_ := by
      unfold duration
      rw [show w.positions_.length - 1 = i by omega, mul_comm]
    have hback : w.positions_.getLast w.nonempty = p := by
      rw [List.getLast_eq_getElem]
      have heq : w.positions_.length - 1 = i := by omega
      apply Option.some.inj
      rw [← List.getElem?_eq_getElem, heq, hp]
    rw [sample_done hh hend.le, hback]

/-- An interval with both its ends, as one straight line. -/
theorem position_playing (hh : 0 < w.sample_interval_) {i : ℕ} {p q t : K}
    (hp : w.positions_[i]? = some p) (hq : w.positions_[i + 1]? = some q)
    (ht : t ∈ Set.Icc (w.blend_duration_ + i * w.sample_interval_)
      (w.blend_duration_ + (i + 1 : ℕ) * w.sample_interval_)) :
    w.position t = p + (t - (w.blend_duration_ + i * w.sample_interval_)) *
      ((q - p) / w.sample_interval_) := by
  rcases ht.2.lt_or_eq with hlt | heq
  · exact position_eq (sample_playing hh hp hq ht.1 hlt)
  · obtain ⟨v, done, hsample⟩ := sample_at hh hq
    rw [heq, position_eq hsample]
    push_cast
    field_simp
    ring

/-- The blend with both its ends. -/
theorem position_blending (hh : 0 < w.sample_interval_) (hb : 0 < w.blend_duration_) {t : K}
    (ht : t ≤ w.blend_duration_) :
    w.position t =
      w.start_position_ + (quintic_blend t w.blend_duration_).s * (w.front - w.start_position_) := by
  rcases ht.lt_or_eq with hlt | rfl
  · exact position_eq (sample_blending hlt)
  · obtain ⟨v, done, hsample⟩ := sample_at hh (head_eq w)
    rw [Nat.cast_zero, zero_mul, add_zero] at hsample
    rw [position_eq hsample, (quintic_blend_done hb le_rfl).1]
    ring

/-- The playback is never faster than its peak. -/
theorem position_speedBound (hh : 0 < w.sample_interval_) (hb : 0 ≤ w.blend_duration_) :
    SpeedBound w.peak_velocity (Set.Ici 0) w.position := by
  have hnonneg := w.peak_velocity_nonneg
  have hdone : w.blend_duration_ ≤ w.duration :=
    le_add_of_nonneg_right (mul_nonneg hh.le (Nat.cast_nonneg _))
  -- the samples, one interval after the other
  have hplaying : SpeedBound w.peak_velocity (Set.Icc w.blend_duration_ w.duration) w.position := by
    have hgrid := SpeedBound.grid (a := w.blend_duration_) (c := w.peak_velocity) (f := w.position)
      hh.le (w.positions_.length - 1) ?_
    · rwa [mul_comm, ← duration] at hgrid
    · intro i hi
      obtain ⟨p, hp⟩ : ∃ p, w.positions_[i]? = some p := ⟨_, List.getElem?_eq_getElem (by omega)⟩
      obtain ⟨q, hq⟩ : ∃ q, w.positions_[i + 1]? = some q :=
        ⟨_, List.getElem?_eq_getElem (by omega)⟩
      have hspeed : |(q - p) / w.sample_interval_| ≤ w.peak_velocity := by
        rw [abs_div, abs_of_pos hh]
        exact interval_le_peak hp hq
      exact (SpeedBound.linear hspeed).mono (Set.subset_univ _)
        fun t ht => position_playing hh hp hq ht
  -- after the end nothing moves
  have hend : SpeedBound w.peak_velocity (Set.Ici w.duration) w.position :=
    (SpeedBound.const hnonneg (w.positions_.getLast w.nonempty)).mono (Set.subset_univ _)
      fun t ht => position_eq (sample_done hh ht)
  have hafter : SpeedBound w.peak_velocity (Set.Ici w.blend_duration_) w.position := by
    apply SpeedBound.glue (show w.duration ∈ Set.Ici w.blend_duration_ from hdone)
    · exact hplaying.mono (fun t ht => ht) fun _ _ => rfl
    · exact hend.mono (fun t ht => ht.2) fun _ _ => rfl
  rcases hb.lt_or_eq with hpos | hzero
  · apply SpeedBound.glue (show w.blend_duration_ ∈ Set.Ici 0 from hb)
    · have hblend := blended_speedBound hpos w.start_position_ (w.front - w.start_position_) Set.univ
      exact (hblend.le (blend_le_peak hpos)).mono (Set.subset_univ _)
        fun t ht => position_blending hh hpos ht.2
    · exact hafter.mono (fun t ht => ht.2) fun _ _ => rfl
  · rwa [← hzero] at hafter

theorem velocity_le_peak (hh : 0 < w.sample_interval_) {t : K} {r : K × K × Bool} (ht : 0 ≤ t)
    (hr : w.sample t = some r) : |r.2.1| ≤ w.peak_velocity := by
  rcases sample_cases hh t with hblend | ⟨i, p, q, hp, hq, hlo, hhi⟩ | hdone
  · have hpos : 0 < w.blend_duration_ := ht.trans_lt hblend
    obtain ⟨hds, hpeak⟩ := quintic_blend_ds_mem t hpos
    rw [sample_blending hblend] at hr
    obtain rfl := Option.some.inj hr
    refine le_trans ?_ (blend_le_peak hpos)
    rw [abs_mul, abs_of_nonneg hds, mul_div_right_comm]
    exact mul_le_mul_of_nonneg_right hpeak (abs_nonneg _)
  · rw [sample_playing hh hp hq hlo hhi] at hr
    obtain rfl := Option.some.inj hr
    refine le_trans (le_of_eq ?_) (interval_le_peak hp hq)
    rw [abs_div, abs_of_pos hh]
  · rw [sample_done hh hdone] at hr
    obtain rfl := Option.some.inj hr
    rw [abs_zero]
    exact w.peak_velocity_nonneg

/-- **Playback never moves faster than its declared peak.** -/
theorem playback_speed (w : PregeneratedWaveTrajectory K) (hh : 0 < w.sample_interval_)
    (hb : 0 ≤ w.blend_duration_) (t₁ t₂ : K) (h₁ : 0 ≤ t₁) (h₂ : 0 ≤ t₂) :
    ∃ r₁ r₂, w.sample t₁ = some r₁ ∧ w.sample t₂ = some r₂ ∧
      |r₁.1 - r₂.1| ≤ w.peak_velocity * |t₁ - t₂| ∧
      |r₁.2.1| ≤ w.peak_velocity ∧ |r₂.2.1| ≤ w.peak_velocity := by
  obtain ⟨r₁, hr₁⟩ := w.sample_defined t₁
  obtain ⟨r₂, hr₂⟩ := w.sample_defined t₂
  have hspeed := position_speedBound hh hb t₂ h₂ t₁ h₁
  rw [position_eq hr₁, position_eq hr₂] at hspeed
  exact ⟨r₁, r₂, hr₁, hr₂, hspeed, velocity_le_peak hh h₁ hr₁, velocity_le_peak hh h₂ hr₂⟩

/-- A short playback across the end of its blend. -/
theorem playback_speed_blend_end :
    ∃ r₁ r₂ : ℚ × ℚ × Bool,
      sample ⟨[1, 3], List.cons_ne_nil _ _, 1 / 2, 0, 1⟩ (1 / 2) = some r₁ ∧
      sample ⟨[1, 3], List.cons_ne_nil _ _, 1 / 2, 0, 1⟩ (5 / 4) = some r₂ ∧
      |r₁.1 - r₂.1| ≤ 4 * |(1 / 2 : ℚ) - 5 / 4| ∧ |r₁.2.1| ≤ 4 ∧ |r₂.2.1| ≤ 4 := by
  have hpeak : peak_velocity ⟨[1, 3], List.cons_ne_nil _ _, 1 / 2, 0, 1⟩ = (4 : ℚ) := by
    decide +kernel
  have h := playback_speed (⟨[1, 3], List.cons_ne_nil _ _, 1 / 2, 0, 1⟩ :
    PregeneratedWaveTrajectory ℚ) (by norm_num) (by norm_num) (1 / 2) (5 / 4) (by norm_num)
    (by norm_num)
  rwa [hpeak] at h

/-! ## Fidelity to the samples -/

/-- In the blend the position goes from the start position towards the first sample and
never back. -/
theorem blending_monotone {t₁ t₂ : K} (h₁ : 0 ≤ t₁) (hle : t₁ ≤ t₂) (h₂ : t₂ < w.blend_duration_) :
    ∃ x₁ v₁ x₂ v₂, w.sample t₁ = some (x₁, v₁, false) ∧ w.sample t₂ = some (x₂, v₂, false) ∧
      (w.start_position_ ≤ w.front → w.start_position_ ≤ x₁ ∧ x₁ ≤ x₂ ∧ x₂ ≤ w.front) ∧
      (w.front ≤ w.start_position_ → w.front ≤ x₂ ∧ x₂ ≤ x₁ ∧ x₁ ≤ w.start_position_) := by
  have hpos : 0 < w.blend_duration_ := (h₁.trans hle).trans_lt h₂
  obtain ⟨hmono, -⟩ := quintic_blend_step hpos hle
  obtain ⟨hlo, -⟩ := quintic_blend_mem t₁ w.blend_duration_
  obtain ⟨-, hhi⟩ := quintic_blend_mem t₂ w.blend_duration_
  refine ⟨_, _, _, _, sample_blending (hle.trans_lt h₂), sample_blending h₂, ?_, ?_⟩
  · intro hup
    have hdelta : 0 ≤ w.front - w.start_position_ := sub_nonneg.mpr hup
    have hbelow := mul_nonneg hlo hdelta
    have hbetween := mul_nonneg hmono hdelta
    have habove := mul_nonneg (sub_nonneg.mpr hhi) hdelta
    refine ⟨?_, ?_, ?_⟩
    · linarith
    · linarith
    · linarith
  · intro hdown
    have hdelta : 0 ≤ w.start_position_ - w.front := sub_nonneg.mpr hdown
    have hbelow := mul_nonneg hlo hdelta
    have hbetween := mul_nonneg hmono hdelta
    have habove := mul_nonneg (sub_nonneg.mpr hhi) hdelta
    refine ⟨?_, ?_, ?_⟩
    · linarith
    · linarith
    · linarith

/-- Between two samples the position is between them. -/
theorem position_between (hh : 0 < w.sample_interval_) {i : ℕ} {p q t : K}
    (hp : w.positions_[i]? = some p) (hq : w.positions_[i + 1]? = some q)
    (ht : t ∈ Set.Icc (w.blend_duration_ + i * w.sample_interval_)
      (w.blend_duration_ + (i + 1 : ℕ) * w.sample_interval_)) :
    min p q ≤ w.position t ∧ w.position t ≤ max p q := by
  rw [position_playing hh hp hq ht]
  obtain ⟨hlo, hhi⟩ := ht
  -- the position is a weighted mean of the two samples
  obtain ⟨f, hf⟩ : ∃ f, f = (t - (w.blend_duration_ + i * w.sample_interval_)) /
    w.sample_interval_ := ⟨_, rfl⟩
  have hf0 : 0 ≤ f := by
    rw [hf]
    exact div_nonneg (sub_nonneg.mpr hlo) hh.le
  have hf1 : f ≤ 1 := by
    rw [hf, div_le_one hh]
    push_cast at hhi
    linarith
  have hline : (t - (w.blend_duration_ + i * w.sample_interval_)) * ((q - p) / w.sample_interval_) =
      f * (q - p) := by
    rw [hf]
    ring
  rw [hline]
  exact mean_mem hf0 hf1 ⟨min_le_left p q, le_max_left p q⟩ ⟨min_le_right p q, le_max_right p q⟩

/-- The playback reports its end exactly from its duration on. -/
theorem done_iff (hh : 0 < w.sample_interval_) {t x v : K} {done : Bool}
    (h : w.sample t = some (x, v, done)) :
    (done = true ↔ w.duration ≤ t) ∧
      (done = true → x = w.positions_.getLast w.nonempty ∧ v = 0) := by
  have hrest : (0 : K) ≤ w.sample_interval_ * (w.positions_.length - 1 : ℕ) :=
    mul_nonneg hh.le (Nat.cast_nonneg _)
  have hduration : w.duration = w.blend_duration_ +
    w.sample_interval_ * (w.positions_.length - 1 : ℕ) := rfl
  rcases sample_cases hh t with hblend | ⟨i, p, q, hp, hq, hlo, hhi⟩ | hdone
  · rw [sample_blending hblend] at h
    cases h
    have hbefore : ¬ w.duration ≤ t := by linarith
    simp only [Bool.false_eq_true, hbefore, false_implies, and_self]
  · have hlen : i + 1 < w.positions_.length := (List.getElem?_eq_some_iff.mp hq).1
    have hcast : ((i + 1 : ℕ) : K) ≤ ((w.positions_.length - 1 : ℕ) : K) :=
      Nat.cast_le.mpr (by omega)
    have hmul := mul_le_mul_of_nonneg_left hcast hh.le
    rw [sample_playing hh hp hq hlo hhi] at h
    cases h
    have hbefore : ¬ w.duration ≤ t := by linarith
    simp only [Bool.false_eq_true, hbefore, false_implies, and_self]
  · rw [sample_done hh hdone] at h
    cases h
    simp only [hdone, implies_true, and_self]

/-- **Playback is faithful to the samples.** -/
theorem playback_faithful (w : PregeneratedWaveTrajectory K) (hh : 0 < w.sample_interval_) :
    -- no position outside the list is read
    (∀ t, 0 ≤ t → ∃ r, w.sample t = some r) ∧
    -- every sample is played at its time
    (∀ (i : ℕ) p, w.positions_[i]? = some p → ∃ v done,
      w.sample (w.blend_duration_ + i * w.sample_interval_) = some (p, v, done)) ∧
    -- and between two of them lies what is between them
    (∀ (i : ℕ) p q t, w.positions_[i]? = some p → w.positions_[i + 1]? = some q →
      w.blend_duration_ + i * w.sample_interval_ ≤ t →
      t ≤ w.blend_duration_ + (i + 1 : ℕ) * w.sample_interval_ →
        ∃ x v done, w.sample t = some (x, v, done) ∧ min p q ≤ x ∧ x ≤ max p q) ∧
    -- the blend goes from the start position to the first sample
    (0 < w.blend_duration_ → ∃ v, w.sample 0 = some (w.start_position_, v, false)) ∧
    (∀ t₁ t₂, 0 ≤ t₁ → t₁ ≤ t₂ → t₂ < w.blend_duration_ → ∃ x₁ v₁ x₂ v₂,
      w.sample t₁ = some (x₁, v₁, false) ∧ w.sample t₂ = some (x₂, v₂, false) ∧
      (w.start_position_ ≤ w.front → w.start_position_ ≤ x₁ ∧ x₁ ≤ x₂ ∧ x₂ ≤ w.front) ∧
      (w.front ≤ w.start_position_ → w.front ≤ x₂ ∧ x₂ ≤ x₁ ∧ x₁ ≤ w.start_position_)) ∧
    -- and the end is reported exactly from the duration on
    (∀ t x v done, 0 ≤ t → w.sample t = some (x, v, done) →
      (done = true ↔ w.duration ≤ t) ∧
        (done = true → x = w.positions_.getLast w.nonempty ∧ v = 0)) := by
  refine ⟨fun t _ => w.sample_defined t, fun i p hp => sample_at hh hp, ?_, ?_, ?_, ?_⟩
  · intro i p q t hp hq hlo hhi
    obtain ⟨⟨x, v, done⟩, hr⟩ := w.sample_defined t
    have hbetween := position_between hh hp hq ⟨hlo, hhi⟩
    rw [position_eq hr] at hbetween
    exact ⟨x, v, done, hr, hbetween⟩
  · intro hpos
    refine ⟨(quintic_blend 0 w.blend_duration_).ds * (w.front - w.start_position_), ?_⟩
    rw [sample_blending hpos, (quintic_blend_start _).1, zero_mul, add_zero]
  · intro t₁ t₂ h₁ hle h₂
    exact blending_monotone h₁ hle h₂
  · intro t x v done _ hr
    exact done_iff hh hr

/-- A single sample ends the playback when the blend ends. -/
theorem playback_faithful_single_sample :
    ∃ v done, sample (⟨[2], List.cons_ne_nil _ _, 1 / 10, 0, 1⟩ : PregeneratedWaveTrajectory ℚ)
      (1 + (0 : ℕ) * (1 / 10)) = some (2, v, done) :=
  (playback_faithful (⟨[2], List.cons_ne_nil _ _, 1 / 10, 0, 1⟩ : PregeneratedWaveTrajectory ℚ)
    (by norm_num)).2.1 0 2 rfl

end PregeneratedWaveTrajectory

end WavemakerController
