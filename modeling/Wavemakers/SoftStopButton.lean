/-
`soft_stop.py`: the node behind the soft-stop button.

A timer reads the pin and publishes whether the waves are to stop. The filter
keeps two timestamps and one flag, updated on different branches; what it is
for is said over the history of the pin instead: the published value is False
exactly when the pin was low long enough at some time and has not been high
long enough since. `published_eq_false_iff` is that equivalence, for every
pattern of bounces and every spacing of the ticks.

The first section is about timestamps of this kind in general: `Since` says
what such a timestamp means, and `longWindow_iff` that comparing the clock with
it decides whether the condition has held for a given time.
-/
import Mathlib.Order.Monotone.Basic
import Mathlib.Algebra.Order.Field.Basic
import Mathlib.Data.Rat.Defs
import Mathlib.Algebra.Order.Ring.Rat
import Mathlib.Tactic.Linarith
import Mathlib.Tactic.NormNum

set_option autoImplicit false

namespace SoftStopButton

/-! ## Windows of ticks -/

section Window

variable {K : Type} (P : ℕ → Prop) (clock : ℕ → K)

/-- The longest stretch of `P` that ends before tick `n` begins at tick `a`. -/
structure RunStart (a n : ℕ) : Prop where
  lt : a < n
  held : ∀ m, a ≤ m → m < n → P m
  first : ∀ b, b + 1 = a → ¬ P b

/-- What the timestamp holds before tick `n`: the time of that first tick, nothing
when `P` did not hold at the tick before. -/
def Since (n : ℕ) : Option K → Prop
  | none => ∀ b, b + 1 = n → ¬ P b
  | some s => ∃ a, RunStart P a n ∧ s = clock a

variable {P clock}

theorem since_zero : Since P clock 0 none := fun b hb => absurd hb b.succ_ne_zero

/-- The timestamp is set on the first tick with `P` and kept on the next. -/
theorem Since.hold {n : ℕ} {s : Option K} (h : Since P clock n s) (hn : P n) :
    Since P clock (n + 1) (some (s.getD (clock n))) := by
  cases s with
  | none =>
      refine ⟨n, ⟨n.lt_succ_self, ?_, h⟩, rfl⟩
      intro m hm hlt
      rwa [Nat.le_antisymm (Nat.lt_succ_iff.mp hlt) hm]
  | some s =>
      obtain ⟨a, ha, rfl⟩ := h
      refine ⟨a, ⟨Nat.lt_succ_of_lt ha.lt, ?_, ha.first⟩, rfl⟩
      intro m hm hlt
      rcases Nat.lt_succ_iff_lt_or_eq.mp hlt with hlt | rfl
      · exact ha.held m hm hlt
      · exact hn

/-- A tick without `P` clears it. -/
theorem Since.clear {n : ℕ} (hn : ¬ P n) : Since P clock (n + 1) none := by
  intro b hb
  rwa [Nat.succ_injective hb]

/-- No window begins before the stretch it lies in. -/
theorem RunStart.le {a i j : ℕ} (h : RunStart P a (j + 1)) (hi : ∀ m, i ≤ m → m ≤ j → P m) :
    a ≤ i := by
  by_contra hlt
  have ha := h.lt
  exact h.first (a - 1) (by omega) (hi (a - 1) (by omega) (by omega))

variable [Field K] [LinearOrder K] (P clock)

/-- `P` held at the consecutive ticks `i..j`, over a time of at least `d`. -/
def Window (d : K) (i j : ℕ) : Prop :=
  i ≤ j ∧ (∀ m, i ≤ m → m ≤ j → P m) ∧ d ≤ clock j - clock i

/-- Such a window ends at tick `j`. -/
def LongWindow (d : K) (j : ℕ) : Prop := ∃ i, Window P clock d i j

variable {P clock}

/-- **The timestamp decides.** A window of length `d` ends at tick `j` exactly when
the clock is `d` past the timestamp. -/
theorem longWindow_iff [IsStrictOrderedRing K] (hmono : Monotone clock) {d s : K} {j : ℕ}
    (h : Since P clock (j + 1) (some s)) : LongWindow P clock d j ↔ d ≤ clock j - s := by
  obtain ⟨a, ha, rfl⟩ := h
  constructor
  · rintro ⟨i, -, hi, hd⟩
    have hclock := hmono (ha.le hi)
    linarith
  · intro hd
    refine ⟨a, Nat.lt_succ_iff.mp ha.lt, ?_, hd⟩
    exact fun m hm hj => ha.held m hm (Nat.lt_succ_of_le hj)

theorem LongWindow.last {d : K} {j : ℕ} (h : LongWindow P clock d j) : P j := by
  obtain ⟨i, hij, hi, -⟩ := h
  exact hi j hij le_rfl

end Window

/-! ## The node -/

variable {K : Type} [Field K] [LinearOrder K]

def TRIP_FILTR_S : K := 3 / 100
def RELEASE_HOLD_S : K := 1 / 2

/-- The GPIO line at a tick: its level, or a read that raises. -/
inductive Line where
  | level (high : Bool)
  | raises
  deriving DecidableEq, Repr

structure SoftStop (K : Type) where
  internal_pull_up : Bool := true
  /-- false: the pin could not be opened and `button` is None -/
  button : Bool := true
  stopped : Bool := true
  high_since : Option K := none
  low_since : Option K := none

namespace SoftStop

/-- `Button.is_pressed`: `Button(pin, pull_up=True)` is pressed while the line is low,
`Button(pin, pull_up=None, active_state=True)` while it is high. -/
def is_pressed (s : SoftStop K) : Line → Option Bool
  | .level high => some (if s.internal_pull_up then !high else high)
  | .raises => none

def pin_high (s : SoftStop K) (line : Line) : Bool :=
  if s.button = false then true
  else
    match s.is_pressed line with
    | none => true
    | some pressed => if s.internal_pull_up then !pressed else pressed

/-- `tick()` without its log lines; the second component is what it publishes. -/
def tick (s : SoftStop K) (now : K) (line : Line) : SoftStop K × Bool :=
  let t :=
    if s.pin_high line then
      let since := s.high_since.getD now
      { s with low_since := none, high_since := some since,
               stopped := if s.stopped = false ∧ TRIP_FILTR_S ≤ now - since then true else s.stopped }
    else
      let since := s.low_since.getD now
      { s with high_since := none, low_since := some since,
               stopped := if s.stopped = true ∧ RELEASE_HOLD_S ≤ now - since then false else s.stopped }
  (t, t.stopped)

/-- The node before tick `n`. -/
def before (s : SoftStop K) (clock : ℕ → K) (line : ℕ → Line) : ℕ → SoftStop K
  | 0 => s
  | n + 1 => ((s.before clock line n).tick (clock n) (line n)).1

/-- The value published at tick `k`. -/
def published (s : SoftStop K) (clock : ℕ → K) (line : ℕ → Line) (k : ℕ) : Bool :=
  ((s.before clock line k).tick (clock k) (line k)).2

end SoftStop

/-! ## The history of the pin -/

section History

variable (button : Bool) (clock : ℕ → K) (line : ℕ → Line)

/-- The tick counts as high: the line is high, or it cannot be read. -/
def High (k : ℕ) : Prop := button = false ∨ line k = .raises ∨ line k = .level true

def Low (k : ℕ) : Prop := button = true ∧ line k = .level false

/-- By tick `k` the pin was low for long enough, and behind that never high for long
enough. -/
def Released (k : ℕ) : Prop :=
  ∃ i j, j ≤ k ∧ Window (Low button line) clock RELEASE_HOLD_S i j ∧
    ∀ i' j', j < i' → j' ≤ k → ¬ Window (High button line) clock TRIP_FILTR_S i' j'

variable {button clock line}

theorem not_high_iff {k : ℕ} : ¬ High button line k ↔ Low button line k := by
  unfold High Low
  cases button with
  | false => simp
  | true =>
      cases hl : line k with
      | raises => simp
      | level high => cases high <;> simp

theorem not_low_iff {k : ℕ} : ¬ Low button line k ↔ High button line k := by
  rw [← not_high_iff, not_not]

/-- What a window leaves out: a high window that ends at or behind a low tick begins
behind it. -/
theorem lt_of_high {i j k : ℕ} (hlow : Low button line j) (hj : j ≤ k)
    (hhigh : ∀ m, i ≤ m → m ≤ k → High button line m) : j < i := by
  by_contra hle
  exact not_high_iff.mpr hlow (hhigh j (not_lt.mp hle) hj)

/-- A tick that ends a low window releases. -/
theorem released_of_window {k : ℕ} (h : LongWindow (Low button line) clock RELEASE_HOLD_S k) :
    Released button clock line k := by
  obtain ⟨i, hi⟩ := h
  refine ⟨i, k, le_rfl, hi, ?_⟩
  rintro i' j' hlt hle ⟨hij, -, -⟩
  omega

/-- **The history, tick by tick.** The node is released behind tick `k + 1` when that
tick ends a low window, or when it was before and the tick ends no high window. -/
theorem released_succ {k : ℕ} : Released button clock line (k + 1) ↔
    LongWindow (Low button line) clock RELEASE_HOLD_S (k + 1) ∨
    (Released button clock line k ∧
      ¬ LongWindow (High button line) clock TRIP_FILTR_S (k + 1)) := by
  constructor
  · rintro ⟨i, j, hj, hlow, hno⟩
    rcases Nat.le_succ_iff.mp hj with hj | rfl
    · refine .inr ⟨⟨i, j, hj, hlow, fun i' j' hlt hle => hno i' j' hlt (by omega)⟩, ?_⟩
      rintro ⟨i', hhigh⟩
      have hlast : Low button line j := hlow.2.1 j hlow.1 le_rfl
      exact hno i' (k + 1) (lt_of_high hlast (by omega) hhigh.2.1) le_rfl hhigh
    · exact .inl ⟨i, hlow⟩
  · rintro (hlow | ⟨⟨i, j, hj, hlow, hno⟩, hhigh⟩)
    · exact released_of_window hlow
    · refine ⟨i, j, by omega, hlow, ?_⟩
      intro i' j' hlt hle hw
      rcases Nat.le_succ_iff.mp hle with hle | rfl
      · exact hno i' j' hlt hle hw
      · exact hhigh ⟨i', hw⟩

theorem released_zero : Released button clock line 0 ↔
    LongWindow (Low button line) clock RELEASE_HOLD_S 0 := by
  constructor
  · rintro ⟨i, j, hj, hlow, -⟩
    cases Nat.le_zero.mp hj
    exact ⟨i, hlow⟩
  · exact released_of_window

end History

/-! ## The filter -/

/-- The node as its constructor leaves it. -/
def SoftStop.start (internal_pull_up button : Bool) : SoftStop K :=
  { internal_pull_up := internal_pull_up, button := button }

omit [Field K] [LinearOrder K] in
theorem pin_high_iff (s : SoftStop K) (line : ℕ → Line) (k : ℕ) :
    s.pin_high (line k) = true ↔ High s.button line k := by
  unfold SoftStop.pin_high High
  cases s.button with
  | false => simp
  | true =>
      cases line k with
      | raises => simp [SoftStop.is_pressed]
      | level high =>
          -- pressed is the opposite of high with the internal pull-up, and high without it
          cases hpull : s.internal_pull_up <;> simp [SoftStop.is_pressed, hpull]

/-- What the node knows before tick `n`. -/
structure Knows (s : SoftStop K) (button : Bool) (clock : ℕ → K) (line : ℕ → Line) (n : ℕ) :
    Prop where
  button_eq : s.button = button
  high : Since (High button line) clock n s.high_since
  low : Since (Low button line) clock n s.low_since
  stopped : s.stopped = false ↔ ∃ k, k + 1 = n ∧ Released button clock line k

theorem start_knows (p b : Bool) (clock : ℕ → K) (line : ℕ → Line) :
    Knows (SoftStop.start p b) b clock line 0 := by
  refine ⟨rfl, since_zero, since_zero, ?_⟩
  simp [SoftStop.start]

/-- What the flag must be behind tick `n`, given what it was before. -/
theorem released_iff {button : Bool} {clock : ℕ → K} {line : ℕ → Line} {n : ℕ} {stopped : Bool}
    (h : stopped = false ↔ ∃ k, k + 1 = n ∧ Released button clock line k) :
    Released button clock line n ↔ LongWindow (Low button line) clock RELEASE_HOLD_S n ∨
      (stopped = false ∧ ¬ LongWindow (High button line) clock TRIP_FILTR_S n) := by
  cases n with
  | zero =>
      rw [released_zero, h]
      simp
  | succ n =>
      rw [released_succ, h]
      simp

variable [IsStrictOrderedRing K]

theorem tick_knows {s : SoftStop K} {button : Bool} {clock : ℕ → K} {line : ℕ → Line} {n : ℕ}
    (hmono : Monotone clock) (h : Knows s button clock line n) :
    Knows (s.tick (clock n) (line n)).1 button clock line (n + 1) := by
  have hflag := released_iff h.stopped
  have hpin := pin_high_iff s line n
  rw [h.button_eq] at hpin
  unfold SoftStop.tick
  by_cases hhigh : High button line n
  · rw [if_pos (hpin.mpr hhigh)]
    have hlow : ¬ Low button line n := not_low_iff.mpr hhigh
    have hsince := h.high.hold hhigh
    refine ⟨h.button_eq, hsince, .clear hlow, ?_⟩
    -- only the trip filter can change the flag here
    simp only [Nat.add_right_cancel_iff, exists_eq_left, hflag, longWindow_iff hmono hsince,
      mt LongWindow.last hlow, false_or]
    cases s.stopped with
    | false => simp
    | true => simp
  · rw [if_neg (mt hpin.mp hhigh)]
    have hlow := not_high_iff.mp hhigh
    have hsince := h.low.hold hlow
    refine ⟨h.button_eq, .clear hhigh, hsince, ?_⟩
    simp only [Nat.add_right_cancel_iff, exists_eq_left, hflag, longWindow_iff hmono hsince,
      mt LongWindow.last hhigh, not_false_eq_true, and_true]
    cases s.stopped with
    | false => simp
    | true => simp

/-- **The run.** -/
theorem before_knows (p b : Bool) {clock : ℕ → K} (hmono : Monotone clock) (line : ℕ → Line)
    (n : ℕ) : Knows ((SoftStop.start p b).before clock line n) b clock line n := by
  induction n with
  | zero => exact start_knows p b clock line
  | succ n ih => exact tick_knows hmono ih

/-- **The soft-stop filter is its specification.** With times that never go back, the
value published at tick `k` is False exactly when a low window has released the node
by then and no high window behind it has tripped it again; without a low window it is
True forever. -/
theorem published_eq_false_iff (p b : Bool) {clock : ℕ → K} (hmono : Monotone clock)
    (line : ℕ → Line) :
    (∀ k, (SoftStop.start p b).published clock line k = false ↔ Released b clock line k) ∧
    ((∀ i j, ¬ Window (Low b line) clock RELEASE_HOLD_S i j) →
      ∀ k, (SoftStop.start p b).published clock line k = true) := by
  have hiff : ∀ k, (SoftStop.start p b).published clock line k = false ↔
      Released b clock line k := by
    intro k
    -- what tick `k` publishes is the flag it leaves behind
    have h : (SoftStop.start p b).published clock line k = false ↔ _ :=
      (before_knows p b hmono line (k + 1)).stopped
    rw [h]
    simp
  refine ⟨hiff, ?_⟩
  intro hnever k
  by_contra hk
  obtain ⟨i, j, -, hlow, -⟩ := (hiff k).mp (by simpa using hk)
  exact hnever i j hlow

/-- Ticks every 20 ms on a line that stays low: the 26th tick is the first to publish
False. -/
theorem published_low_line :
    Monotone (fun k : ℕ => (k : ℚ) / 50) ∧
    (SoftStop.start true true).published (fun k : ℕ => (k : ℚ) / 50) (fun _ => .level false) 25
      = false ∧
    (SoftStop.start true true).published (fun k : ℕ => (k : ℚ) / 50) (fun _ => .level false) 24
      = true := by
  have hmono : Monotone (fun k : ℕ => (k : ℚ) / 50) := by
    intro a b hab
    have hcast : (a : ℚ) ≤ b := by exact_mod_cast hab
    show (a : ℚ) / 50 ≤ b / 50
    linarith
  have hiff := (published_eq_false_iff true true hmono (fun _ => .level false)).1
  refine ⟨hmono, ?_, ?_⟩
  · refine (hiff 25).mpr ⟨0, 25, le_rfl, ⟨by omega, fun m _ _ => ⟨rfl, rfl⟩, ?_⟩, ?_⟩
    · norm_num [RELEASE_HOLD_S]
    · rintro i j hi hj ⟨hij, -, -⟩
      omega
  · by_contra hk
    obtain ⟨i, j, hj, ⟨hij, -, hd⟩, -⟩ := (hiff 24).mp (by simpa using hk)
    -- 24 steps of 20 ms are not yet half a second
    have hjq : (j : ℚ) ≤ 24 := by exact_mod_cast hj
    have hiq : (0 : ℚ) ≤ i := by positivity
    unfold RELEASE_HOLD_S at hd
    linarith

end SoftStopButton
