/-
The text of a start, written by the bridge and read by the web server.

`snprintf` rounds the height to four and the period to three decimals, and cuts the text to
its buffer; `STARTING_RE` finds the two numbers again, and `float` makes doubles of them.
Here is what survives: as long as the text fits, the server reads the double nearest to the
rounded value (`search_starting_text`, `float_to_fixed`). That double is close enough to
the value itself for the tolerances of `_check_start`, in both directions, except for values
so large that the distance between doubles is about the last decimal (`legible`).
-/
import Mathlib.Data.List.TakeWhile
import Wavemakers.WebServer

set_option autoImplicit false

namespace WavemakerWeb

open WavemakerBridge Binary64

/-! ## Writing -/

/-- The value printed, in units of the last decimal. -/
def units (digits : ℕ) (x : ℚ) : ℕ := (half_even (x * 10 ^ digits)).toNat

/-- The decimals, with their leading zeros. -/
def decimals (digits n : ℕ) : List Char :=
  List.replicate (digits - (Nat.toDigits 10 (n % 10 ^ digits)).length) '0' ++
    Nat.toDigits 10 (n % 10 ^ digits)

theorem units_cast (digits : ℕ) {x : ℚ} (hx : 0 ≤ x) :
    (units digits x : ℚ) = half_even (x * 10 ^ digits) := by
  have hnonneg : 0 ≤ half_even (x * 10 ^ digits) := by
    apply le_half_even_of_le
    rw [Int.cast_zero]
    positivity
  have hint : (units digits x : ℤ) = half_even (x * 10 ^ digits) := Int.toNat_of_nonneg hnonneg
  rw [← hint, Int.cast_natCast]

theorem to_fixed_toList {digits : ℕ} {x : ℚ} (hx : 0 ≤ x) :
    (to_fixed digits x).toList =
      Nat.toDigits 10 (units digits x / 10 ^ digits) ++
        '.' :: decimals digits (units digits x) := by
  have hz : 0 ≤ x * 10 ^ digits := by positivity
  have hfloor : 0 ≤ ⌊x * 10 ^ digits⌋ := Int.floor_nonneg.mpr hz
  have hlow : ((⌊x * 10 ^ digits⌋.toNat : ℕ) : ℚ) = (⌊x * 10 ^ digits⌋ : ℚ) := by
    exact_mod_cast Int.toNat_of_nonneg hfloor
  have heven : ⌊x * 10 ^ digits⌋.toNat % 2 = 0 ↔ ⌊x * 10 ^ digits⌋ % 2 = 0 := by omega
  have hunits : (if x * 10 ^ digits - (⌊x * 10 ^ digits⌋.toNat : ℚ) < 1 / 2 ∨
      x * 10 ^ digits - (⌊x * 10 ^ digits⌋.toNat : ℚ) = 1 / 2 ∧ ⌊x * 10 ^ digits⌋.toNat % 2 = 0
      then ⌊x * 10 ^ digits⌋.toNat else ⌊x * 10 ^ digits⌋.toNat + 1) = units digits x := by
    simp only [hlow, heven, units, half_even]
    split
    · rfl
    · omega
  unfold to_fixed
  dsimp only
  rw [hunits]
  simp only [decimals, String.toList_append, String.toList_ofList, Nat.toList_repr,
    ← String.length_toList, List.append_assoc]
  rfl

theorem decimals_length {digits : ℕ} (hd : 0 < digits) (n : ℕ) :
    (decimals digits n).length = digits := by
  have hle : (Nat.toDigits 10 (n % 10 ^ digits)).length ≤ digits :=
    (Nat.length_toDigits_le_iff (by decide) hd).mpr (Nat.mod_lt _ (by positivity))
  rw [decimals, List.length_append, List.length_replicate]
  omega

theorem isDigit_of_mem_decimals {digits n : ℕ} {c : Char} (h : c ∈ decimals digits n) :
    c.isDigit = true := by
  rcases List.mem_append.mp h with hzero | hdigit
  · rw [List.eq_of_mem_replicate hzero]
    rfl
  · exact Nat.isDigit_of_mem_toDigits (by decide) (by decide) hdigit

/-- Put together again, the digits are the value. -/
theorem ofDigitChars_to_fixed {digits : ℕ} (hd : 0 < digits) (n : ℕ) :
    Nat.ofDigitChars 10 (Nat.toDigits 10 (n / 10 ^ digits) ++ decimals digits n) 0 = n := by
  have hfrac : Nat.ofDigitChars 10 (decimals digits n) 0 = n % 10 ^ digits := by
    rw [decimals, Nat.ofDigitChars_append, Nat.ofDigitChars_replicate_zero, Nat.mul_zero,
      Nat.ofDigitChars_ten_toDigits]
  rw [Nat.ofDigitChars_append, Nat.ofDigitChars_ten_toDigits,
    Nat.ofDigitChars_eq_ofDigitChars_zero, decimals_length hd, hfrac]
  exact Nat.div_add_mod n (10 ^ digits)

/-! ## Reading a number -/

section Reading

variable {whole fraction : List Char}

theorem split_sign_of_digit {c : Char} {cs : List Char} (h : c.isDigit = true) :
    split_sign (c :: cs) = (false, c :: cs) := by
  unfold split_sign
  split
  · rename_i heq
    cases heq
    cases h
  · rename_i heq
    cases heq
    cases h
  · rfl

/-- `float` of digits, a point and digits. -/
theorem float_decimal (hw : ∀ c ∈ whole, c.isDigit = true) (hne : whole ≠ [])
    (hf : ∀ c ∈ fraction, c.isDigit = true) :
    float (whole ++ '.' :: fraction) =
      some (to_double (Nat.ofDigitChars 10 (whole ++ fraction) 0 / 10 ^ fraction.length)) := by
  have hsign : split_sign (whole ++ '.' :: fraction) = (false, whole ++ '.' :: fraction) := by
    obtain ⟨c, cs, rfl⟩ := List.exists_cons_of_ne_nil hne
    exact split_sign_of_digit (hw c (by simp))
  have htake : (whole ++ '.' :: fraction).takeWhile Char.isDigit = whole := by
    rw [List.takeWhile_append_of_pos hw, List.takeWhile_cons_of_neg (by decide), List.append_nil]
  have hdrop : (whole ++ '.' :: fraction).dropWhile Char.isDigit = '.' :: fraction := by
    rw [List.dropWhile_append_of_pos hw, List.dropWhile_cons_of_neg (by decide)]
  have hfraction : fraction_part ('.' :: fraction) = (fraction, []) := by
    rw [fraction_part, List.takeWhile_eq_self_iff.mpr hf, List.dropWhile_eq_nil_iff.mpr hf]
  have hempty : ¬ whole ++ fraction = [] := fun h => hne (List.append_eq_nil_iff.mp h).1
  -- no sign, no exponent: whole part, point, fraction
  unfold float
  rw [hsign]
  dsimp only
  rw [htake, hdrop, hfraction]
  dsimp only
  rw [if_neg hempty, exponent_part, Option.map_some, if_neg (by decide), zero_sub, zpow_neg,
    zpow_natCast, ← div_eq_mul_inv]

end Reading

/-- The value the server reads. -/
def read (digits : ℕ) (x : ℚ) : ℚ := nearest (units digits x / 10 ^ digits)

theorem float_to_fixed {digits : ℕ} (hd : 0 < digits) {x : ℚ} (hx : 0 ≤ x)
    (hlen : (to_fixed digits x).toList.length ≤ 60) :
    float (to_fixed digits x).toList = some (.fin (read digits x)) := by
  have hdigits : ∀ n, ∀ c ∈ Nat.toDigits 10 n, c.isDigit = true := fun n c hc =>
    Nat.isDigit_of_mem_toDigits (by decide) (by decide) hc
  rw [to_fixed_toList hx, float_decimal (hdigits _) Nat.toDigits_ne_nil
    (fun c hc => isDigit_of_mem_decimals hc), ofDigitChars_to_fixed hd, decimals_length hd]
  -- sixty characters are far from the largest double
  have hwhole : units digits x / 10 ^ digits < 10 ^ 60 := by
    apply (Nat.length_toDigits_le_iff (b := 10) (by decide) (by decide)).mp
    rw [to_fixed_toList hx, List.length_append] at hlen
    omega
  have hsmall : |(units digits x : ℚ) / 10 ^ digits| ≤ ((1 : ℤ) : ℚ) * 2 ^ (200 : ℤ) := by
    have hnat : units digits x < 10 ^ 60 * 10 ^ digits :=
      (Nat.div_lt_iff_lt_mul (by positivity)).mp hwhole
    have hcast : (units digits x : ℚ) < 10 ^ 60 * 10 ^ digits := by exact_mod_cast hnat
    rw [abs_of_nonneg (by positivity), div_le_iff₀ (by positivity)]
    apply hcast.le.trans
    apply mul_le_mul_of_nonneg_right _ (by positivity)
    norm_num
  have hlt : |nearest (units digits x / 10 ^ digits)| < 2 ^ 1024 := by
    apply (abs_nearest_le_of_le (by decide) (by decide) hsmall).trans_lt
    rw [Int.cast_one, one_mul, ← zpow_natCast (2 : ℚ) 1024]
    exact zpow_lt_zpow_right₀ one_lt_two (by decide)
  rw [to_double, if_pos hlt]
  rfl

/-! ## Finding the numbers -/

theorem in_class_of_isDigit {c : Char} (h : c.isDigit = true) : in_class c = true := by
  rw [in_class, h, Bool.true_or]

theorem in_class_of_mem_to_fixed {digits : ℕ} {x : ℚ} (hx : 0 ≤ x) {c : Char}
    (h : c ∈ (to_fixed digits x).toList) : in_class c = true := by
  rw [to_fixed_toList hx] at h
  rcases List.mem_append.mp h with hwhole | hrest
  · exact in_class_of_isDigit (Nat.isDigit_of_mem_toDigits (by decide) (by decide) hwhole)
  · rcases List.mem_cons.mp hrest with rfl | hfraction
    · rfl
    · exact in_class_of_isDigit (isDigit_of_mem_decimals hfraction)

theorem to_fixed_ne_nil {digits : ℕ} {x : ℚ} (hx : 0 ≤ x) : (to_fixed digits x).toList ≠ [] := by
  rw [to_fixed_toList hx]
  exact List.append_ne_nil_of_right_ne_nil _ (List.cons_ne_nil _ _)

theorem literal_append (text cs : List Char) : literal text (text ++ cs) = some cs := by
  rw [literal, if_pos (List.isPrefixOf_iff_prefix.mpr (List.prefix_append _ _)),
    List.drop_left]

/-- A group ends at the blank behind it. -/
theorem group_append {number cs : List Char} (hne : number ≠ [])
    (h : ∀ c ∈ number, in_class c = true) :
    group (number ++ ' ' :: cs) = some (number, ' ' :: cs) := by
  have htake : (number ++ ' ' :: cs).takeWhile in_class = number := by
    rw [List.takeWhile_append_of_pos h, List.takeWhile_cons_of_neg (by decide), List.append_nil]
  have hdrop : (number ++ ' ' :: cs).dropWhile in_class = ' ' :: cs := by
    rw [List.dropWhile_append_of_pos h, List.dropWhile_cons_of_neg (by decide)]
  rw [group, htake, hdrop, if_neg hne]

theorem starting_at_append {height period : List Char} (hh : height ≠ [])
    (hhc : ∀ c ∈ height, in_class c = true) (hp : period ≠ [])
    (hpc : ∀ c ∈ period, in_class c = true) :
    starting_at ("height ".toList ++ (height ++ (" m, period ".toList ++
      (period ++ " s".toList)))) = some (height, period) := by
  have hm : " m, period ".toList = ' ' :: "m, period ".toList := by decide
  have hs : " s".toList = ' ' :: "s".toList := by decide
  have hheight : group (height ++ (" m, period ".toList ++ (period ++ " s".toList))) =
      some (height, " m, period ".toList ++ (period ++ " s".toList)) := by
    rw [hm]
    exact group_append hh hhc
  have hperiod : group (period ++ " s".toList) = some (period, " s".toList) := by
    rw [hs]
    exact group_append hp hpc
  have hend : literal " s".toList " s".toList = some [] := by decide
  rw [starting_at, literal_append, Option.bind_some, hheight, Option.bind_some, literal_append,
    Option.bind_some, hperiod, Option.bind_some, hend, Option.map_some]

theorem search_of_starting_at {cs : List Char} {r : List Char × List Char}
    (h : starting_at cs = some r) : search cs = some r := by
  cases cs with
  | nil => cases h
  | cons c cs => rw [search, h, Option.some_or]

/-- Nothing starts before the first `h`. -/
theorem search_append {text cs : List Char} (h : ∀ c ∈ text, c ≠ 'h') :
    search (text ++ cs) = search cs := by
  induction text with
  | nil => rfl
  | cons c text ih =>
      have hc : starting_at (c :: (text ++ cs)) = none := by
        have hno : ¬ "height ".toList.isPrefixOf (c :: (text ++ cs)) = true := by
          intro hprefix
          have hhead := List.cons_prefix_cons.mp (List.isPrefixOf_iff_prefix.mp hprefix)
          exact h c (by simp) hhead.1.symm
        rw [starting_at, literal, if_neg hno, Option.bind_none]
      rw [List.cons_append, search, hc, Option.none_or]
      exact ih fun d hd => h d (List.mem_cons_of_mem _ hd)

/-- **The numbers are found again**, if the text is not cut. -/
theorem search_starting_text {height period : ℚ} (hh : 0 ≤ height) (hp : 0 ≤ period)
    (hlen : (to_fixed 4 height).toList.length + (to_fixed 3 period).toList.length ≤ 60) :
    search (starting_text height period).toList =
      some ((to_fixed 4 height).toList, (to_fixed 3 period).toList) := by
  have hwhole : ("Starting wave: height " ++ to_fixed 4 height ++ " m, period " ++
      to_fixed 3 period ++ " s").toList =
      "Starting wave: ".toList ++ ("height ".toList ++ ((to_fixed 4 height).toList ++
        (" m, period ".toList ++ ((to_fixed 3 period).toList ++ " s".toList)))) := by
    have hhead : "Starting wave: height ".toList = "Starting wave: ".toList ++ "height ".toList := by
      decide
    simp only [String.toList_append, hhead, List.append_assoc]
  have hfits : ("Starting wave: height " ++ to_fixed 4 height ++ " m, period " ++
      to_fixed 3 period ++ " s").toList.length ≤ 95 := by
    -- 35 characters besides the numbers, in a buffer of 96 with its end mark
    have h1 : "Starting wave: ".toList.length = 15 := by decide
    have h2 : "height ".toList.length = 7 := by decide
    have h3 : " m, period ".toList.length = 11 := by decide
    have h4 : " s".toList.length = 2 := by decide
    rw [hwhole]
    simp only [List.length_append, h1, h2, h3, h4]
    omega
  -- so nothing is cut, and the pattern matches at the only place it can
  have hbefore : "Starting wave: ".toList.all (· != 'h') = true := by decide
  rw [starting_text, String.toList_ofList, List.take_of_length_le hfits, hwhole,
    search_append fun c hc => bne_iff_ne.mp (List.all_eq_true.mp hbefore c hc)]
  exact search_of_starting_at (starting_at_append (to_fixed_ne_nil hh)
    (fun _ => in_class_of_mem_to_fixed hh) (to_fixed_ne_nil hp)
    (fun _ => in_class_of_mem_to_fixed hp))

/-! ## How far the value read is from the value printed -/

/-- The decimal printed is within half a unit of its last place. -/
theorem abs_units_sub_le (digits : ℕ) {x : ℚ} (hx : 0 ≤ x) :
    |(units digits x : ℚ) / 10 ^ digits - x| ≤ 1 / 2 / 10 ^ digits := by
  have hu : (0 : ℚ) < 10 ^ digits := by positivity
  have heq : (units digits x : ℚ) / 10 ^ digits - x =
      (half_even (x * 10 ^ digits) - x * 10 ^ digits) / 10 ^ digits := by
    rw [units_cast digits hx, sub_div, mul_div_cancel_right₀ _ hu.ne']
  rw [heq, abs_div, abs_of_pos hu]
  exact div_le_div_of_nonneg_right (abs_half_even_sub_le_half _) hu.le

/-- Printing does not cross a whole number. -/
theorem units_le {digits : ℕ} {x : ℚ} (hx : 0 ≤ x) {n : ℕ} (h : x ≤ n) :
    (units digits x : ℚ) / 10 ^ digits ≤ n := by
  have hu : (0 : ℚ) < 10 ^ digits := by positivity
  have hle : half_even (x * 10 ^ digits) ≤ (n * 10 ^ digits : ℤ) := by
    apply half_even_le_of_le
    push_cast
    exact mul_le_mul_of_nonneg_right h hu.le
  rw [div_le_iff₀ hu, units_cast digits hx]
  exact_mod_cast hle

theorem le_units {digits : ℕ} {x : ℚ} {n : ℕ} (h : n ≤ x) :
    (n : ℚ) ≤ units digits x / 10 ^ digits := by
  have hu : (0 : ℚ) < 10 ^ digits := by positivity
  have hle : (n * 10 ^ digits : ℤ) ≤ half_even (x * 10 ^ digits) := by
    apply le_half_even_of_le
    push_cast
    exact mul_le_mul_of_nonneg_right h hu.le
  rw [le_div_iff₀ hu, units_cast digits (n.cast_nonneg.trans h)]
  exact_mod_cast hle

/-- Below `2 ^ 53` units of `2 ^ e`, reading adds at most half such a unit. -/
theorem abs_read_sub_le (digits : ℕ) {x : ℚ} (hx : 0 ≤ x) {n : ℕ} {e : ℤ} (he : -1074 ≤ e)
    (hn : (n : ℚ) = 2 ^ 53 * 2 ^ e) (h : x ≤ n) :
    |read digits x - x| ≤ 1 / 2 / 10 ^ digits + 2 ^ e / 2 := by
  have hprint := abs_units_sub_le digits hx
  -- twice rounded: to the last decimal, and then to a double
  have hround : |read digits x - units digits x / 10 ^ digits| ≤ 2 ^ e / 2 := by
    apply abs_nearest_sub_le he
    rw [abs_of_nonneg (by positivity), ← hn]
    exact units_le hx h
  have htri := abs_sub_le (read digits x) (units digits x / 10 ^ digits) x
  linarith

/-- From `2 ^ 52` units of `2 ^ e` on, a value is read as it was if the unit is longer than
the last decimal. -/
theorem read_eq (digits : ℕ) {x : ℚ} (hx : nearest x = x) {n : ℕ} {e : ℤ}
    (hn : (n : ℚ) = 2 ^ 52 * 2 ^ e) (h : n ≤ x) (hunit : 1 / 10 ^ digits < (2 : ℚ) ^ e) :
    read digits x = x := by
  have hx0 : 0 ≤ x := n.cast_nonneg.trans h
  have hprint := abs_units_sub_le digits hx0
  apply nearest_eq_of_near hx
  · rw [← hn]
    exact h
  · rw [← hn]
    exact le_units h
  · rw [abs_sub_comm]
    have hhalf : (1 : ℚ) / 2 / 10 ^ digits = 1 / 10 ^ digits / 2 := by ring
    linarith

/-! ## What the check makes of it -/

/-- The text of a start fits its buffer, and neither value lies where the distance between
doubles is about the last decimal. -/
def legible (height period : ℚ) : Bool :=
  decide ((to_fixed 4 height).toList.length + (to_fixed 3 period).toList.length ≤ 60) &&
    (decide (height < 2 ^ 37) || decide (2 ^ 39 ≤ height)) &&
    (decide (period < 2 ^ 40) || decide (2 ^ 43 ≤ period))

theorem abs_read_height_sub_le {height : ℚ} (hh : 0 ≤ height) (hdouble : nearest height = height)
    (h : height < 2 ^ 37 ∨ 2 ^ 39 ≤ height) :
    |read 4 height - height| ≤ 1 / 20000 + 1 / 2 ^ 17 := by
  rcases h with hlt | hle
  · apply (abs_read_sub_le 4 hh (n := 2 ^ 37) (e := -16) (by decide) (by norm_num)
      (by exact_mod_cast hlt.le)).trans
    norm_num
  · rw [read_eq 4 hdouble (n := 2 ^ 39) (e := -13) (by norm_num) (by exact_mod_cast hle)
      (by norm_num), sub_self, abs_zero]
    norm_num

theorem abs_read_period_sub_le {period : ℚ} (hp : 0 ≤ period) (hdouble : nearest period = period)
    (h : period < 2 ^ 40 ∨ 2 ^ 43 ≤ period) :
    |read 3 period - period| ≤ 1 / 2000 + 1 / 2 ^ 14 := by
  rcases h with hlt | hle
  · apply (abs_read_sub_le 3 hp (n := 2 ^ 40) (e := -13) (by decide) (by norm_num)
      (by exact_mod_cast hlt.le)).trans
    norm_num
  · rw [read_eq 3 hdouble (n := 2 ^ 43) (e := -9) (by norm_num) (by exact_mod_cast hle)
      (by norm_num), sub_self, abs_zero]
    norm_num

section Tolerance

variable {q sent tolerance : ℚ} {k e : ℤ}

/-- A double above the tolerance that the difference reaches. -/
theorem differs_of_le (hk : |k| ≤ 2 ^ 53) (he : -1074 ≤ e) (htol : tolerance ≤ (k - 1 : ℤ) * 2 ^ e)
    (hk' : |k - 1| ≤ 2 ^ 53) (h : k * 2 ^ e ≤ |q - sent|) :
    differs (.fin q) sent tolerance = true := by
  have he0 : (0 : ℚ) < 2 ^ e := zpow_pos two_pos _
  have htolerance := nearest_le_of_le hk' he htol
  have hdifference := le_abs_nearest_of_le hk he h
  push_cast at htolerance
  exact decide_eq_true (by linarith)

/-- A double below the tolerance that the difference does not pass. -/
theorem differs_eq_false (hk : |k| ≤ 2 ^ 53) (he : -1074 ≤ e) (htol : k * 2 ^ e ≤ tolerance)
    (h : |q - sent| ≤ k * 2 ^ e) : differs (.fin q) sent tolerance = false := by
  have htolerance := le_nearest_of_le hk he htol
  have hdifference := abs_nearest_le_of_le hk he h
  exact decide_eq_false (by linarith)

end Tolerance

/-- `_check_start` finds the values used different from the ones sent. -/
def mismatch (used : Double × Double) (height period : ℚ) : Bool :=
  differs used.1 height (6 / 100000) || differs used.2 period (6 / 10000)

/-- The pair the server reads. -/
def read_values (wave : ℚ × ℚ) : Double × Double := (.fin (read 4 wave.1), .fin (read 3 wave.2))

/-- Positive doubles. -/
def Wave (wave : ℚ × ℚ) : Prop :=
  (0 < wave.1 ∧ nearest wave.1 = wave.1) ∧ 0 < wave.2 ∧ nearest wave.2 = wave.2

section Check

variable {wave : ℚ × ℚ} (hwave : Wave wave) (hlegible : legible wave.1 wave.2 = true)
include hwave hlegible

theorem legible_read : |read 4 wave.1 - wave.1| ≤ 1 / 20000 + 1 / 2 ^ 17 ∧
    |read 3 wave.2 - wave.2| ≤ 1 / 2000 + 1 / 2 ^ 14 := by
  obtain ⟨⟨hh, hhd⟩, hp, hpd⟩ := hwave
  simp only [legible, Bool.and_eq_true, Bool.or_eq_true, decide_eq_true_eq] at hlegible
  obtain ⟨⟨-, hheight⟩, hperiod⟩ := hlegible
  exact ⟨abs_read_height_sub_le hh.le hhd hheight, abs_read_period_sub_le hp.le hpd hperiod⟩

/-- **Values that are off are seen to be.** -/
theorem mismatch_of_far {height period : ℚ}
    (h : 12 / 100000 < |wave.1 - height| ∨ 12 / 10000 < |wave.2 - period|) :
    mismatch (read_values wave) height period = true := by
  obtain ⟨hheight, hperiod⟩ := legible_read hwave hlegible
  rw [mismatch, Bool.or_eq_true]
  rcases h with h | h
  · left
    -- a double that is above the tolerance, however that is rounded, and below the difference
    apply differs_of_le (k := 64) (e := -20) (by decide) (by decide) (by norm_num) (by decide)
    have htri := abs_sub_le wave.1 (read 4 wave.1) height
    rw [abs_sub_comm wave.1 (read 4 wave.1)] at htri
    have hbound : ((64 : ℤ) : ℚ) * 2 ^ (-20 : ℤ) ≤ 12 / 100000 - (1 / 20000 + 1 / 2 ^ 17) := by
      norm_num
    exact hbound.trans (by linarith)
  · right
    apply differs_of_le (k := 41) (e := -16) (by decide) (by decide) (by norm_num) (by decide)
    have htri := abs_sub_le wave.2 (read 3 wave.2) period
    rw [abs_sub_comm wave.2 (read 3 wave.2)] at htri
    have hbound : ((41 : ℤ) : ℚ) * 2 ^ (-16 : ℤ) ≤ 12 / 10000 - (1 / 2000 + 1 / 2 ^ 14) := by
      norm_num
    exact hbound.trans (by linarith)

/-- **The values sent are recognised.** -/
theorem mismatch_self : mismatch (read_values wave) wave.1 wave.2 = false := by
  obtain ⟨hheight, hperiod⟩ := legible_read hwave hlegible
  rw [mismatch, Bool.or_eq_false_iff]
  constructor
  · apply differs_eq_false (k := 61) (e := -20) (by decide) (by decide) (by norm_num)
    exact hheight.trans (by norm_num)
  · apply differs_eq_false (k := 37) (e := -16) (by decide) (by decide) (by norm_num)
    exact hperiod.trans (by norm_num)

theorem search_legible : search (starting_text wave.1 wave.2).toList =
    some ((to_fixed 4 wave.1).toList, (to_fixed 3 wave.2).toList) := by
  obtain ⟨⟨hh, -⟩, hp, -⟩ := hwave
  simp only [legible, Bool.and_eq_true, decide_eq_true_eq] at hlegible
  exact search_starting_text hh.le hp.le hlegible.1.1

/-- Reading the text of a start counts it and takes its values. -/
theorem on_message_starting (w : WebNode) :
    w.on_message (starting_text wave.1 wave.2) =
      { w with message := starting_text wave.1 wave.2, message_count := w.message_count + 1
               started_with := some (w.message_count + 1, read_values wave) } := by
  have hsearch := search_legible hwave hlegible
  obtain ⟨⟨hh, -⟩, hp, -⟩ := hwave
  simp only [legible, Bool.and_eq_true, decide_eq_true_eq] at hlegible
  have hlen := hlegible.1.1
  unfold WebNode.on_message
  rw [hsearch]
  dsimp only
  rw [float_to_fixed (by decide) hh.le (by omega), float_to_fixed (by decide) hp.le (by omega)]
  rfl

end Check

end WavemakerWeb
