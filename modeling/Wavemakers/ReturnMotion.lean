/-
The return to upright as the sequence of setpoints it writes.

`Return.run` is the loop of `move_to_upright` over the rounds it goes through, with every
way out of it. A round that gets as far as `publish_and_write_setpoint` writes the
clamped position of its time; so the written setpoints are the values of one function of
time, taken at the rounds' times. That function is monotone towards the upright position,
stays inside the limits and keeps the return's speed limit: the duration is chosen so, and
clamping brings setpoints only closer together. A start outside the limits changes
nothing, because the upright position is inside them.
-/
import Wavemakers.QuinticBlend
import Wavemakers.TravelLimits
import Wavemakers.WavemakerNode

set_option autoImplicit false

namespace WavemakerController

open Numeric

/-! ## The loop -/

/-- What a round of the loop finds. -/
structure Round (K : Type) where
  /-- `rclcpp::ok()` and no stop asked for -/
  running : Bool
  soft_stop_active : Bool
  faulted : Bool
  /-- `elapsed()` -/
  t : K
  /-- the drive, at the write -/
  enabled : Bool
  drive_fault : Bool
  /-- the measured position after it -/
  final_position : K

section Loop

variable {K : Type} [Field K] [LinearOrder K]

namespace Return

/-- The setpoint of a time, clamped. -/
def setpoint (n : Node K) (r : Return K) (t : K) : K := n.clamped_position (r.sample t).1

/-- The setpoints a sequence of rounds writes, each with its time, and the status the
loop ends with; `none` while it still runs. -/
def run (n : Node K) (r : Return K) (tolerance : K) :
    List (Round K) → List (K × K) × Option WavemakerNode.ReturnStatus
  | [] => ([], none)
  | x :: rounds =>
      if x.running = false then ([], some .Stopped)
      else if x.soft_stop_active then ([], some .Stopped)
      else if x.faulted then ([], some .Fault)
      else
        let written := (x.t, r.setpoint n x.t)
        match n.publish_and_write_setpoint x.enabled x.drive_fault (r.sample x.t).1
            r.velocity_cap_mps with
        | .error _ => ([written], some .Fault)
        | .ok _ =>
            if r.duration ≤ x.t ∧
                |x.final_position - n.params.wavemaker_upright_position_m| ≤ tolerance then
              ([written], some .Success)
            else if r.deadline ≤ x.t then ([written], some .Timeout)
            else
              let (later, status) := r.run n tolerance rounds
              (written :: later, status)

/-- What is written are the setpoints of the first rounds. -/
theorem run_written (n : Node K) (r : Return K) (tolerance : K) (rounds : List (Round K)) :
    ∃ k, (r.run n tolerance rounds).1 = (rounds.take k).map fun x => (x.t, r.setpoint n x.t) := by
  induction rounds with
  | nil => exact ⟨0, rfl⟩
  | cons x rounds ih =>
      obtain ⟨k, hk⟩ := ih
      unfold run
      by_cases hrunning : x.running = false
      · rw [if_pos hrunning]
        exact ⟨0, rfl⟩
      · rw [if_neg hrunning]
        by_cases hstop : x.soft_stop_active = true
        · rw [if_pos hstop]
          exact ⟨0, rfl⟩
        · rw [if_neg hstop]
          by_cases hfault : x.faulted = true
          · rw [if_pos hfault]
            exact ⟨0, rfl⟩
          · rw [if_neg hfault]
            dsimp only
            -- from here on this round's setpoint is written, whatever ends the loop
            split
            · exact ⟨1, rfl⟩
            · split
              · exact ⟨1, rfl⟩
              · split
                · exact ⟨1, rfl⟩
                · refine ⟨k + 1, ?_⟩
                  dsimp only
                  rw [List.take_succ_cons, List.map_cons, hk]

end Return

end Loop

/-! ## The setpoints over time -/

section Exact

variable {K : Type} [Field K] [LinearOrder K] {p : Params K} {n : Node K} {start tolerance : K}
  {r : Return K}

theorem Configured.return_duration_pos (h : Configured p n)
    (hr : n.move_to_upright start tolerance = some r) : 0 < r.duration := by
  obtain ⟨-, -, hduration, -⟩ := move_to_upright_spec hr
  rw [hduration, h.params]
  exact lt_max_of_lt_right (h.returns _ (by simp))

/-- The sample of a return, from its start towards upright. -/
theorem return_sample (hr : n.move_to_upright start tolerance = some r) (t : K) :
    (r.sample t).1 = start + (quintic_blend t r.duration).s *
      (n.params.wavemaker_upright_position_m - start) := by
  obtain ⟨hstart, hdelta, -⟩ := move_to_upright_spec hr
  rw [Return.sample, hstart, hdelta]

variable [IsStrictOrderedRing K]

/-- The setpoints stay inside the limits. -/
theorem Configured.setpoint_inside (h : Configured p n) (r : Return K) (t : K) :
    n.goal_position_minimum_ ≤ r.setpoint n t ∧ r.setpoint n t ≤ n.goal_position_maximum_ :=
  h.clamped _

/-- Upright itself is not clamped. -/
theorem Configured.clamped_upright (h : Configured p n) :
    n.clamped_position p.wavemaker_upright_position_m = p.wavemaker_upright_position_m := by
  obtain ⟨hlow, hhigh⟩ := h.upright_inside
  exact std_clamp_self hlow hhigh

/-- **The setpoints go towards upright and not past it.** -/
theorem Configured.setpoint_monotone (h : Configured p n)
    (hr : n.move_to_upright start tolerance = some r) {t₁ t₂ : K} (ht : t₁ ≤ t₂) :
    (start ≤ p.wavemaker_upright_position_m →
      r.setpoint n t₁ ≤ r.setpoint n t₂ ∧ r.setpoint n t₂ ≤ p.wavemaker_upright_position_m) ∧
    (p.wavemaker_upright_position_m ≤ start →
      r.setpoint n t₂ ≤ r.setpoint n t₁ ∧ p.wavemaker_upright_position_m ≤ r.setpoint n t₂) := by
  obtain ⟨hmono, -⟩ := quintic_blend_step (h.return_duration_pos hr) ht
  obtain ⟨-, hone⟩ := quintic_blend_mem t₂ r.duration
  -- clamping keeps the order and leaves upright where it is
  have hle : n.goal_position_minimum_ ≤ n.goal_position_maximum_ := h.ordered.le
  have hupright := h.clamped_upright
  unfold Return.setpoint
  rw [return_sample hr, return_sample hr, h.params]
  constructor
  · intro hup
    have hdelta : 0 ≤ p.wavemaker_upright_position_m - start := sub_nonneg.mpr hup
    have hstep := mul_nonneg hmono hdelta
    have hrest := mul_nonneg (sub_nonneg.mpr hone) hdelta
    refine ⟨std_clamp_mono hle (by linarith), ?_⟩
    calc n.clamped_position (start + (quintic_blend t₂ r.duration).s *
          (p.wavemaker_upright_position_m - start))
        ≤ n.clamped_position p.wavemaker_upright_position_m := std_clamp_mono hle (by linarith)
      _ = p.wavemaker_upright_position_m := hupright
  · intro hdown
    have hdelta : 0 ≤ start - p.wavemaker_upright_position_m := sub_nonneg.mpr hdown
    have hstep := mul_nonneg hmono hdelta
    have hrest := mul_nonneg (sub_nonneg.mpr hone) hdelta
    refine ⟨std_clamp_mono hle (by linarith), ?_⟩
    calc p.wavemaker_upright_position_m
        = n.clamped_position p.wavemaker_upright_position_m := hupright.symm
      _ ≤ n.clamped_position (start + (quintic_blend t₂ r.duration).s *
          (p.wavemaker_upright_position_m - start)) := std_clamp_mono hle (by linarith)

/-- **The setpoints keep the return's speed limit.** -/
theorem Configured.setpoint_speedBound (h : Configured p n)
    (hr : n.move_to_upright start tolerance = some r) :
    SpeedBound p.return_to_upright_max_velocity_mps Set.univ (r.setpoint n) := by
  have hduration := h.return_duration_pos hr
  obtain ⟨-, -, hmax, -⟩ := move_to_upright_spec hr
  -- the duration is long enough for the blend's steepest point
  have hlimit : kQuinticPeakVelocityFactor * |r.delta| / r.duration ≤
      p.return_to_upright_max_velocity_mps := by
    rw [hmax, h.params]
    exact return_peak_le (h.returns _ (by simp)) (h.returns _ (by simp))
  have hblend := (blended_speedBound hduration r.start r.delta Set.univ).le hlimit
  intro t₁ h₁ t₂ h₂
  exact (abs_std_clamp_sub_le h.ordered.le).trans (hblend t₁ h₁ t₂ h₂)

/-- **From its duration on a return writes the upright position.** -/
theorem Configured.setpoint_done (h : Configured p n)
    (hr : n.move_to_upright start tolerance = some r) {t : K} (ht : r.duration ≤ t) :
    r.setpoint n t = p.wavemaker_upright_position_m := by
  rw [Return.setpoint, return_sample hr, (quintic_blend_done (h.return_duration_pos hr) ht).1,
    h.params, one_mul, add_sub_cancel, h.clamped_upright]

/-- **A return to upright is monotone, bounded and does not overshoot**, over any rounds of
its loop whose times do not decrease. -/
theorem return_to_upright_setpoints (h : on_configure p = some n)
    (hr : n.move_to_upright start tolerance = some r) (rounds : List (Round K))
    (htimes : (rounds.map Round.t).Pairwise (· ≤ ·)) :
    (r.run n tolerance rounds).1.Pairwise (fun a b =>
      (start ≤ p.wavemaker_upright_position_m → a.2 ≤ b.2) ∧
      (p.wavemaker_upright_position_m ≤ start → b.2 ≤ a.2) ∧
      |b.2 - a.2| ≤ p.return_to_upright_max_velocity_mps * (b.1 - a.1)) ∧
    ∀ a ∈ (r.run n tolerance rounds).1,
      (start ≤ p.wavemaker_upright_position_m → a.2 ≤ p.wavemaker_upright_position_m) ∧
      (p.wavemaker_upright_position_m ≤ start → p.wavemaker_upright_position_m ≤ a.2) ∧
      (n.goal_position_minimum_ ≤ a.2 ∧ a.2 ≤ n.goal_position_maximum_) ∧
      (r.duration ≤ a.1 → a.2 = p.wavemaker_upright_position_m) := by
  have hcfg := on_configure_spec h
  obtain ⟨k, hk⟩ := r.run_written n tolerance rounds
  rw [hk]
  constructor
  · have hsorted : (rounds.take k).Pairwise fun x y => x.t ≤ y.t :=
      (List.pairwise_map.mp htimes).sublist (List.take_sublist k rounds)
    apply List.pairwise_map.mpr
    apply hsorted.imp
    intro x y hxy
    have hmono := hcfg.setpoint_monotone hr hxy
    have hspeed := hcfg.setpoint_speedBound hr x.t (Set.mem_univ _) y.t (Set.mem_univ _)
    rw [abs_of_nonneg (sub_nonneg.mpr hxy)] at hspeed
    exact ⟨fun hup => (hmono.1 hup).1, fun hdown => (hmono.2 hdown).1, hspeed⟩
  · intro a ha
    obtain ⟨x, -, rfl⟩ := List.mem_map.mp ha
    have hmono := hcfg.setpoint_monotone hr (le_refl x.t)
    exact ⟨fun hup => (hmono.1 hup).2, fun hdown => (hmono.2 hdown).2,
      hcfg.setpoint_inside r x.t, fun ht => hcfg.setpoint_done hr ht⟩

/-- A return of the bench tank from outside its limits, over three rounds of its loop. -/
theorem return_to_upright_from_outside :
    ∃ (n : Node ℚ) (r : Return ℚ), on_configure (bench .linear 1) = some n ∧
      n.move_to_upright (1001 / 1000) (1 / 500) = some r ∧
      (r.run n (1 / 500) [⟨true, false, false, 0, true, false, 1001 / 1000⟩,
        ⟨true, false, false, 1, true, false, 9 / 10⟩,
        ⟨true, false, false, 20, true, false, 0⟩]).1.length = 3 ∧
      ∀ a ∈ (r.run n (1 / 500) [⟨true, false, false, 0, true, false, 1001 / 1000⟩,
        ⟨true, false, false, 1, true, false, 9 / 10⟩,
        ⟨true, false, false, 20, true, false, 0⟩]).1, r.duration ≤ a.1 → a.2 = 0 := by
  have heval : ((on_configure (bench .linear 1)).bind fun n =>
      (n.move_to_upright (1001 / 1000) (1 / 500)).map fun r =>
        (r.run n (1 / 500) [⟨true, false, false, 0, true, false, 1001 / 1000⟩,
          ⟨true, false, false, 1, true, false, 9 / 10⟩,
          ⟨true, false, false, 20, true, false, 0⟩]).1.length) = some 3 := by
    decide +kernel
  obtain ⟨n, hn, heval⟩ := Option.bind_eq_some_iff.mp heval
  obtain ⟨r, hr, hlen⟩ := Option.map_eq_some_iff.mp heval
  refine ⟨n, r, hn, hr, hlen, fun a ha => ?_⟩
  exact ((return_to_upright_setpoints hn hr _ (by decide +kernel)).2 a ha).2.2.2

end Exact

end WavemakerController
