/-
The table of transfer gains that `on_configure` accepts, and what
`interpolate_gain` computes from it.

The index comes from `std::upper_bound` and the two ends return early, so knots
and ends meet at equality. The proof has one statement for each of the three
returns and then one for the closed stretch between two neighbouring entries,
`gain_between`: at its ends the three returns agree with the straight line.
Everything else is read off the stretches: the value at a knot, the bounds, and,
through `SpeedBound.row`, that the gain never jumps.
-/
import Wavemakers.NodeConfig
import Wavemakers.SpeedBound
import Wavemakers.Stroke
import Wavemakers.TravelLimits
import Mathlib.Topology.Instances.Rat

set_option autoImplicit false

namespace WavemakerController

open Numeric

variable {K : Type} [Field K] [LinearOrder K]

/-! ## Accepted tables -/

/-- Entry `i` of a table. -/
def Entry (periods values : List K) (i : ℕ) (p v : K) : Prop :=
  periods[i]? = some p ∧ values[i]? = some v

/-- The straight line through two points. -/
def GainTable.line (p v q w x : K) : K := v + (x - p) / (q - p) * (w - v)

/-- A table that passes the checks and is not empty. -/
structure GainTable (periods values : List K) : Prop where
  length_eq : values.length = periods.length
  two_le : 2 ≤ periods.length
  ascending : periods.Pairwise (· < ·)
  values_pos : ∀ v ∈ values, 0 < v

omit [Field K] in
theorem ascending_iff (l : List K) : ascending l = true ↔ l.Pairwise (· < ·) := by
  rw [← List.isChain_iff_pairwise]
  induction l with
  | nil => simp [ascending]
  | cons a l ih =>
      cases l with
      | nil => simp [ascending]
      | cons b l =>
          rw [List.isChain_cons_cons, ← ih]
          simp [ascending]

/-- **The checks of `on_configure`.** -/
theorem valid_gains.table {p : Params K} (h : valid_gains p)
    (hne : p.wavemaker_transfer_gain_periods ≠ []) :
    GainTable p.wavemaker_transfer_gain_periods p.wavemaker_transfer_gain_values := by
  obtain ⟨hlen, hone, -, hvalues, hascending⟩ := h
  have hpos := List.length_pos_iff.mpr hne
  refine ⟨hlen.symm, by omega, (ascending_iff _).mp hascending, ?_⟩
  intro v hv
  have hnot := List.any_eq_false.mp hvalues v hv
  simp only [not_finite_positive, isfinite_eq, Bool.not_true, Bool.false_or, decide_eq_true_eq,
    not_le] at hnot
  exact hnot

namespace GainTable

variable {periods values : List K} (h : GainTable periods values)

include h

theorem entry_lt {i j : ℕ} {p q v w : K} (hij : i < j) (hi : Entry periods values i p v)
    (hj : Entry periods values j q w) : p < q := by
  obtain ⟨hilt, rfl⟩ := List.getElem?_eq_some_iff.mp hi.1
  obtain ⟨hjlt, rfl⟩ := List.getElem?_eq_some_iff.mp hj.1
  exact List.pairwise_iff_getElem.mp h.ascending i j hilt hjlt hij

theorem entry_le {i j : ℕ} {p q v w : K} (hij : i ≤ j) (hi : Entry periods values i p v)
    (hj : Entry periods values j q w) : p ≤ q := by
  rcases Nat.lt_or_eq_of_le hij with hlt | rfl
  · exact (h.entry_lt hlt hi hj).le
  · rw [Option.some.inj (hi.1.symm.trans hj.1)]

theorem exists_entry {i : ℕ} (hi : i < periods.length) : ∃ p v, Entry periods values i p v := by
  have hv : i < values.length := by rw [h.length_eq]; exact hi
  exact ⟨periods[i], values[i], List.getElem?_eq_getElem hi, List.getElem?_eq_getElem hv⟩

/-- The two ends. -/
theorem ends : ∃ front first back last, Entry periods values 0 front first ∧
    Entry periods values (periods.length - 1) back last ∧ front < back := by
  have htwo := h.two_le
  obtain ⟨front, first, hfront⟩ := h.exists_entry (i := 0) (by omega)
  obtain ⟨back, last, hback⟩ := h.exists_entry (i := periods.length - 1) (by omega)
  exact ⟨front, first, back, last, hfront, hback, h.entry_lt (by omega) hfront hback⟩

/-! ## The three returns -/

omit h in
theorem gain_front {front first x : K} (hfront : Entry periods values 0 front first)
    (hx : x ≤ front) : interpolate_gain periods values x = some ⟨first, decide (x < front)⟩ := by
  have hp : periods.head? = some front := by rw [List.head?_eq_getElem?]; exact hfront.1
  have hv : values.head? = some first := by rw [List.head?_eq_getElem?]; exact hfront.2
  simp only [interpolate_gain, hp, hv, Option.bind_eq_bind, Option.bind_some, if_pos hx,
    Option.pure_def]

theorem gain_back {front first back last x : K} (hfront : Entry periods values 0 front first)
    (hback : Entry periods values (periods.length - 1) back last) (hx : back ≤ x) :
    interpolate_gain periods values x = some ⟨last, decide (back < x)⟩ := by
  have htwo := h.two_le
  have hlt := h.entry_lt (by omega) hfront hback
  have hp : periods.head? = some front := by rw [List.head?_eq_getElem?]; exact hfront.1
  have hp' : periods.getLast? = some back := by rw [List.getLast?_eq_getElem?]; exact hback.1
  have hv : values.getLast? = some last := by
    rw [List.getLast?_eq_getElem?, h.length_eq]
    exact hback.2
  have hnot : ¬ x ≤ front := not_le.mpr (hlt.trans_le hx)
  simp only [interpolate_gain, hp, hp', hv, Option.bind_eq_bind, Option.bind_some, if_neg hnot,
    if_pos hx, Option.pure_def]

/-- The search stops right behind the entry at or below the period. -/
theorem upper_bound_eq {i : ℕ} {p q v w x : K} (hi : Entry periods values i p v)
    (hj : Entry periods values (i + 1) q w) (hp : p ≤ x) (hq : x < q) :
    upper_bound periods x = i + 1 := by
  obtain ⟨hlt, heq⟩ := List.getElem?_eq_some_iff.mp hj.1
  refine (List.findIdx_eq hlt).mpr ⟨?_, ?_⟩
  · rw [heq]
    exact decide_eq_true hq
  · intro j hji
    obtain ⟨r, u, hr⟩ := h.exists_entry (i := j) (by omega)
    have hle := h.entry_le (Nat.lt_succ_iff.mp hji) hr hi
    obtain ⟨_, hget⟩ := List.getElem?_eq_some_iff.mp hr.1
    rw [hget]
    exact decide_eq_false (not_lt.mpr (hle.trans hp))

theorem gain_inside {i : ℕ} {front first p q v w x : K} (hfront : Entry periods values 0 front first)
    (hi : Entry periods values i p v) (hj : Entry periods values (i + 1) q w) (hx : front < x)
    (hp : p ≤ x) (hq : x < q) :
    interpolate_gain periods values x = some ⟨line p v q w x, false⟩ := by
  obtain ⟨-, -, back, last, -, hback, -⟩ := h.ends
  obtain ⟨hlen, -⟩ := List.getElem?_eq_some_iff.mp hj.1
  have hbelow : x < back := hq.trans_le (h.entry_le (by omega) hj hback)
  have hhead : periods.head? = some front := by rw [List.head?_eq_getElem?]; exact hfront.1
  have hlast : periods.getLast? = some back := by rw [List.getLast?_eq_getElem?]; exact hback.1
  simp only [interpolate_gain, hhead, hlast, h.upper_bound_eq hi hj hp hq, Nat.add_sub_cancel,
    hi.1, hi.2, hj.1, hj.2, Option.bind_eq_bind, Option.bind_some, if_neg (not_le.mpr hx),
    if_neg (not_le.mpr hbelow), Option.pure_def, line]

/-! ## Between two entries -/

omit [LinearOrder K] h in
theorem line_left (p v q w : K) : line p v q w p = v := by simp [line]

omit h in
theorem line_right {p v q w : K} (hpq : p < q) : line p v q w q = w := by
  rw [line, div_self (sub_ne_zero.mpr hpq.ne'), one_mul, add_sub_cancel]

/-- **One stretch.** From one entry to the next, both included, the gain is the
straight line between them. -/
theorem gain_between {i : ℕ} {p q v w x : K} (hi : Entry periods values i p v)
    (hj : Entry periods values (i + 1) q w) (hp : p ≤ x) (hq : x ≤ q) :
    ∃ clamped, interpolate_gain periods values x = some ⟨line p v q w x, clamped⟩ := by
  obtain ⟨front, first, back, last, hfront, hback, hends⟩ := h.ends
  have hpq := h.entry_lt i.lt_succ_self hi hj
  have hfp := h.entry_le i.zero_le hfront hi
  rcases hfp.trans hp |>.lt_or_eq with hx | rfl
  · rcases hq.lt_or_eq with hq | rfl
    · exact ⟨false, h.gain_inside hfront hi hj hx hp hq⟩
    · rw [line_right hpq]
      by_cases hnext : i + 2 < periods.length
      · -- an inner knot is the left end of the stretch behind it
        obtain ⟨r, u, hr⟩ := h.exists_entry hnext
        refine ⟨false, ?_⟩
        rw [h.gain_inside hfront hj hr hx le_rfl (h.entry_lt (Nat.lt_succ_self _) hj hr), line_left]
      · obtain ⟨hlen, -⟩ := List.getElem?_eq_some_iff.mp hj.1
        have hidx : periods.length - 1 = i + 1 := by omega
        rw [hidx] at hback
        cases Option.some.inj (hback.1.symm.trans hj.1)
        cases Option.some.inj (hback.2.symm.trans hj.2)
        rw [← hidx] at hback
        exact ⟨_, h.gain_back hfront hback le_rfl⟩
  · -- the first entry itself: the early return
    have hpf : p = front := le_antisymm hp hfp
    have hzero : i = 0 := by
      by_contra hne
      exact absurd (h.entry_lt (Nat.pos_of_ne_zero hne) hfront hi) (by rw [hpf]; exact lt_irrefl _)
    subst hzero hpf
    cases Option.some.inj (hfront.2.symm.trans hi.2)
    rw [line_left]
    exact ⟨_, gain_front hfront le_rfl⟩

/-- A period inside the table lies on one of the stretches, where the search finds it. -/
theorem exists_between {front first back last x : K} (hfront : Entry periods values 0 front first)
    (hback : Entry periods values (periods.length - 1) back last) (hlo : front ≤ x)
    (hhi : x < back) : ∃ i p q v w, upper_bound periods x = i + 1 ∧
      Entry periods values i p v ∧ Entry periods values (i + 1) q w ∧ p ≤ x ∧ x < q := by
  have hlt : upper_bound periods x < periods.length := by
    refine List.findIdx_lt_length_of_exists ⟨back, List.mem_of_getElem? hback.1, ?_⟩
    exact decide_eq_true hhi
  obtain ⟨q, w, hq⟩ := h.exists_entry hlt
  have hxq := lt_upper_bound hq.1
  have hpos : upper_bound periods x ≠ 0 := by
    intro hzero
    rw [hzero] at hq
    cases Option.some.inj (hfront.1.symm.trans hq.1)
    exact absurd hlo (not_le.mpr hxq)
  obtain ⟨i, hi⟩ := Nat.exists_eq_succ_of_ne_zero hpos
  obtain ⟨p, v, hp⟩ := h.exists_entry (i := i) (by omega)
  rw [hi] at hq
  exact ⟨i, p, q, v, w, hi, hp, hq, le_of_lt_upper_bound (by omega) hp.1, hxq⟩

/-! ## The whole table -/

/-- The lookup is defined everywhere. -/
theorem defined (x : K) : ∃ r, interpolate_gain periods values x = some r := by
  obtain ⟨front, first, back, last, hfront, hback, -⟩ := h.ends
  rcases le_or_gt x front with hx | hx
  · exact ⟨_, gain_front hfront hx⟩
  · rcases le_or_gt back x with hx' | hx'
    · exact ⟨_, h.gain_back hfront hback hx'⟩
    · obtain ⟨i, p, q, v, w, -, hi, hj, hp, hq⟩ := h.exists_between hfront hback hx.le hx'
      exact ⟨_, h.gain_inside hfront hi hj hx hp hq⟩

theorem clamped_iff {front first back last x : K} {r : GainLookup K}
    (hfront : Entry periods values 0 front first)
    (hback : Entry periods values (periods.length - 1) back last)
    (hr : interpolate_gain periods values x = some r) :
    r.clamped = true ↔ x < front ∨ back < x := by
  have htwo := h.two_le
  have hends := h.entry_lt (by omega) hfront hback
  rcases le_or_gt x front with hx | hx
  · rw [gain_front hfront hx] at hr
    cases hr
    simp [not_lt.mpr (hx.trans hends.le)]
  · rcases le_or_gt back x with hx' | hx'
    · rw [h.gain_back hfront hback hx'] at hr
      cases hr
      simp [not_lt.mpr hx.le]
    · obtain ⟨i, p, q, v, w, -, hi, hj, hp, hq⟩ := h.exists_between hfront hback hx.le hx'
      rw [h.gain_inside hfront hi hj hx hp hq] at hr
      cases hr
      simp [not_lt.mpr hx.le, not_lt.mpr hx'.le]

variable [IsStrictOrderedRing K]

/-- **The gain never jumps.** The steepest stretch bounds how fast it changes. -/
theorem speed_bound {f : K → K}
    (hf : ∀ x, ∃ clamped, interpolate_gain periods values x = some ⟨f x, clamped⟩) :
    ∃ c, SpeedBound c Set.univ f := by
  obtain ⟨front, first, back, last, hfront, hback, hends⟩ := h.ends
  have hgain : ∀ {x y : K} {clamped : Bool},
      interpolate_gain periods values x = some ⟨y, clamped⟩ → f x = y := by
    intro x y clamped hx
    obtain ⟨_, hfx⟩ := hf x
    rw [hfx] at hx
    cases hx
    rfl
  let knot : ℕ → K := fun i => periods.getD i 0
  let value : ℕ → K := fun i => values.getD i 0
  let slope : ℕ → K := fun i => (value (i + 1) - value i) / (knot (i + 1) - knot i)
  have hentry : ∀ {i : ℕ}, i < periods.length → Entry periods values i (knot i) (value i) := by
    intro i hi
    obtain ⟨p, v, hp, hv⟩ := h.exists_entry hi
    refine ⟨?_, ?_⟩
    · simp only [knot, List.getD_eq_getElem?_getD, hp, Option.getD_some]
    · simp only [value, List.getD_eq_getElem?_getD, hv, Option.getD_some]
  let n := periods.length - 1
  have htwo := h.two_le
  let c := ∑ i ∈ Finset.range n, |slope i|
  have hc : 0 ≤ c := Finset.sum_nonneg fun i _ => abs_nonneg _
  refine ⟨c, ?_⟩
  have hrow : SpeedBound c (Set.Icc (knot 0) (knot n)) f := by
    refine (SpeedBound.row n (fun i hi => ?_) fun i hi => ?_).2
    · exact (h.entry_lt i.lt_succ_self (hentry (by omega)) (hentry (by omega))).le
    · have hslope : |slope i| ≤ c :=
        Finset.single_le_sum (f := fun i => |slope i|) (fun i _ => abs_nonneg _)
          (Finset.mem_range.mpr hi)
      have hline : SpeedBound c (Set.Icc (knot i) (knot (i + 1)))
          fun x => value i + (x - knot i) * slope i := SpeedBound.linear hslope
      refine hline.mono subset_rfl ?_
      rintro x ⟨hx, hx'⟩
      obtain ⟨clamped, hline⟩ := h.gain_between (hentry (by omega)) (hentry (by omega)) hx hx'
      rw [hgain hline, line]
      ring
  have hknot0 : knot 0 = front :=
    Option.some.inj ((hentry (by omega)).1.symm.trans hfront.1)
  have hknotn : knot n = back :=
    Option.some.inj ((hentry (by omega)).1.symm.trans hback.1)
  rw [hknot0, hknotn] at hrow
  -- outside the table the gain stands still
  refine .glue (m := front) (Set.mem_univ _) ?_ (.glue (m := back) ⟨trivial, hends.le⟩ ?_ ?_)
  · refine (SpeedBound.const hc first).mono (Set.subset_univ _) ?_
    rintro x ⟨-, hx⟩
    exact hgain (gain_front hfront hx)
  · refine hrow.mono ?_ fun _ _ => rfl
    rintro x ⟨⟨-, hx⟩, hx'⟩
    exact ⟨hx, hx'⟩
  · refine (SpeedBound.const hc last).mono (Set.subset_univ _) ?_
    rintro x ⟨-, hx⟩
    exact hgain (h.gain_back hfront hback hx)

end GainTable

/-! ## The interpolation -/

variable [TopologicalSpace K]

/-- What a lookup in the table is to do. -/
structure Interpolates (periods values : List K) (lookup : K → GainLookup K) : Prop where
  /-- no list is read outside its bounds -/
  returns : ∀ x, interpolate_gain periods values x = some (lookup x)
  /-- where it divides, the search has found two entries and the divisor is not zero -/
  divides : ∀ front first back last x, Entry periods values 0 front first →
    Entry periods values (periods.length - 1) back last → front < x → x < back →
    ∃ i p q v w, upper_bound periods x = i + 1 ∧ Entry periods values i p v ∧
      Entry periods values (i + 1) q w ∧ q - p ≠ 0
  knot : ∀ i p v, Entry periods values i p v → (lookup p).gain = v
  between : ∀ i p q v w, Entry periods values i p v → Entry periods values (i + 1) q w →
    ∀ x, p ≤ x → x ≤ q → (lookup x).gain = v + (x - p) / (q - p) * (w - v) ∧
      min v w ≤ (lookup x).gain ∧ (lookup x).gain ≤ max v w
  below : ∀ front first, Entry periods values 0 front first →
    ∀ x, x ≤ front → (lookup x).gain = first
  above : ∀ back last, Entry periods values (periods.length - 1) back last →
    ∀ x, back ≤ x → (lookup x).gain = last
  clamped : ∀ front first back last x, Entry periods values 0 front first →
    Entry periods values (periods.length - 1) back last →
    ((lookup x).clamped = true ↔ x < front ∨ back < x)
  continuous : Continuous fun x => (lookup x).gain
  positive : ∀ x, 0 < (lookup x).gain

variable [IsStrictOrderedRing K] [OrderTopology K]

theorem GainTable.interpolates {periods values : List K} (h : GainTable periods values) :
    ∃ lookup, Interpolates periods values lookup := by
  choose lookup hlookup using h.defined
  have hgain : ∀ {x : K} {r : GainLookup K},
      interpolate_gain periods values x = some r → lookup x = r := by
    intro x r hr
    exact Option.some.inj ((hlookup x).symm.trans hr)
  obtain ⟨front, first, back, last, hfront, hback, hends⟩ := h.ends
  have hbetween : ∀ {i : ℕ} {p q v w : K}, Entry periods values i p v →
      Entry periods values (i + 1) q w → ∀ x, p ≤ x → x ≤ q →
      (lookup x).gain = line p v q w x := by
    intro i p q v w hi hj x hx hx'
    obtain ⟨clamped, hline⟩ := h.gain_between hi hj hx hx'
    rw [hgain hline]
  refine ⟨lookup, hlookup, ?_, ?_, ?_, ?_, ?_, ?_, ?_, ?_⟩
  · intro front first back last x hfront hback hx hx'
    obtain ⟨i, p, q, v, w, hidx, hi, hj, -, -⟩ := h.exists_between hfront hback hx.le hx'
    have hlt := h.entry_lt i.lt_succ_self hi hj
    exact ⟨i, p, q, v, w, hidx, hi, hj, sub_ne_zero.mpr hlt.ne'⟩
  · intro i p v hi
    obtain ⟨hlen, -⟩ := List.getElem?_eq_some_iff.mp hi.1
    by_cases hnext : i + 1 < periods.length
    · obtain ⟨q, w, hj⟩ := h.exists_entry hnext
      rw [hbetween hi hj p le_rfl (h.entry_lt i.lt_succ_self hi hj).le, line_left]
    · have hidx : i = periods.length - 1 := by omega
      rw [hidx] at hi
      rw [hgain (h.gain_back hfront hi le_rfl)]
  · intro i p q v w hi hj x hx hx'
    have hd : 0 < q - p := sub_pos.mpr (h.entry_lt i.lt_succ_self hi hj)
    have hmean := mean_mem (div_nonneg (sub_nonneg.mpr hx) hd.le)
      ((div_le_one hd).mpr (sub_le_sub_right hx' p)) ⟨min_le_left v w, le_max_left v w⟩
      ⟨min_le_right v w, le_max_right v w⟩
    rw [hbetween hi hj x hx hx']
    exact ⟨rfl, hmean⟩
  · intro front first hfront x hx
    rw [hgain (gain_front hfront hx)]
  · intro back last hback x hx
    rw [hgain (h.gain_back hfront hback hx)]
  · intro front first back last x hfront hback
    exact h.clamped_iff hfront hback (hlookup x)
  · obtain ⟨c, hc⟩ := h.speed_bound (f := fun x => (lookup x).gain)
      fun x => ⟨(lookup x).clamped, hlookup x⟩
    exact hc.continuous
  · exact fun x => interpolate_gain_pos h.values_pos (hlookup x)

/-- **The gain table is interpolated correctly.** For every table that `on_configure`
accepts, the empty one apart, and every period. -/
theorem interpolate_gain_correct {p : Params K} (hvalid : valid_gains p)
    (hne : p.wavemaker_transfer_gain_periods ≠ []) :
    ∃ lookup, Interpolates p.wavemaker_transfer_gain_periods p.wavemaker_transfer_gain_values
      lookup :=
  (hvalid.table hne).interpolates

/-- Three points, as the unit tests have them. -/
def three_points : Params ℚ :=
  { bench .linear 1 with wavemaker_transfer_gain_periods := [1, 2, 4]
                         wavemaker_transfer_gain_values := [6 / 5, 1, 9 / 10] }

/-- Between the last two points. -/
theorem interpolate_gain_three_points :
    valid_gains three_points ∧
    ∃ r, interpolate_gain [1, 2, 4] [6 / 5, 1, 9 / 10] (3 : ℚ) = some r ∧ r.gain = 19 / 20 ∧
      r.clamped = false := by
  have hvalid : valid_gains three_points := by decide +kernel
  obtain ⟨lookup, h⟩ := interpolate_gain_correct hvalid (by decide +kernel)
  refine ⟨hvalid, lookup 3, h.returns 3, ?_, ?_⟩
  · rw [(h.between 1 2 4 1 (9 / 10) ⟨rfl, rfl⟩ ⟨rfl, rfl⟩ 3 (by norm_num) (by norm_num)).1]
    norm_num
  · have hiff := h.clamped 1 (6 / 5) 4 (9 / 10) 3 ⟨rfl, rfl⟩ ⟨rfl, rfl⟩
    by_contra hclamped
    rcases hiff.mp (by simpa using hclamped) with hlt | hlt
    · exact absurd hlt (by norm_num)
    · exact absurd hlt (by norm_num)

end WavemakerController
