/-
The soft-stop button, the topic and the controller together.

`SoftStopButton.lean` says what the button's process publishes and `SoftStop.lean` what the
controller does while its soft stop is active. Here one feeds the other: every tick publishes, and
what was published may arrive in any order, several times or never, at most `D` after its tick. The
process may be slow, stop for good, or be started anew.

The callback of the subscription stores the time of the message first and its value behind it. Both
stores are steps here, so a message that ends a silence is seen in between with the value from
before the silence (`between`). Apart from that moment the soft stop follows the button: what the
controller lets through goes back to a tick that is not older than the timeout and the delay, and
before which the pin was low long enough (`let_through_freed`); and a button that has been pressed,
or a process that has been silent, for long enough lets at most one more setpoint out
(`pressed_stops`).
-/
import Wavemakers.SoftStop
import Wavemakers.SoftStopButton
import Mathlib.Tactic.Ring

set_option autoImplicit false

/-! ## What the controller's own steps do to its soft stop -/

namespace WavemakerNode

variable {P : Plant} {s t : State P}

/-- Clock and soft stop are as they were. -/
def SoftStopKept (s t : State P) : Prop :=
  t.now = s.now ∧ t.soft_stopped_ = s.soft_stopped_ ∧
    t.soft_stop_last_msg_ns_ = s.soft_stop_last_msg_ns_

theorem abort_soft_stop (s : State P) (g : ℕ) (message : String) :
    SoftStopKept s (s.abort_goal g message) := by
  rcases s.abort_goal_cases g message with ⟨st, -, -, heq⟩ | ⟨heq, -⟩
  · rw [heq]
    exact ⟨rfl, rfl, rfl⟩
  · rw [heq]
    exact ⟨rfl, rfl, rfl⟩

theorem abort_soft_stop? (s : State P) (g : Option ℕ) : SoftStopKept s (s.abort_goal? g) := by
  cases g with
  | none => exact ⟨rfl, rfl, rfl⟩
  | some g => exact abort_soft_stop s g _

theorem release_soft_stop (s : State P) (g : ℕ) : SoftStopKept s (s.release_handle g) := by
  rcases release_handle_cases s g with ⟨-, heq⟩ | ⟨-, heq⟩
  · rw [heq]
    exact ⟨rfl, rfl, rfl⟩
  · rw [heq]
    exact ⟨rfl, rfl, rfl⟩

theorem starts_soft_stop {work : Worker} {p q : Start} (h : Starts s work p t q) :
    SoftStopKept s t := by
  cases h with
  | _ => exact ⟨rfl, rfl, rfl⟩

theorem act_soft_stop (h : Acted s t) : SoftStopKept s t := by
  cases h with
  | starts _ hs =>
      have hkept := starts_soft_stop hs
      exact hkept
  | @abort g m _ _ => exact abort_soft_stop s g m
  | _ => exact ⟨rfl, rfl, rfl⟩

theorem requested_soft_stop {r : GoalRequest P} (h : Requested s r t) : SoftStopKept s t := by
  cases h with
  | _ => exact ⟨rfl, rfl, rfl⟩

theorem return_soft_stop (s : State P) (r : ReturnRequest) :
    SoftStopKept s (return_request s r) := by
  unfold return_request
  split
  · exact ⟨rfl, rfl, rfl⟩
  · exact ⟨rfl, rfl, rfl⟩

theorem ret_soft_stop (h : Returned s t) : SoftStopKept s t := by
  cases h with
  | starts _ hs =>
      have hkept := starts_soft_stop hs
      exact hkept
  | _ => exact ⟨rfl, rfl, rfl⟩

theorem worked_soft_stop (h : Worked s t) : SoftStopKept s t := by
  cases h with
  | @releases g _ _ | @retires g _ => exact release_soft_stop s g
  | @rejects g _ _ => exact release_soft_stop { s with accepting_goals_ := false } g
  | @aborts g _ m _ _ _ => exact abort_soft_stop s g m
  | _ => exact ⟨rfl, rfl, rfl⟩

theorem transition_soft_stop {tr : Transition P} (h : begin_transition s tr = some t) :
    SoftStopKept s t := by
  cases tr with
  | configure cfg | activate | deactivate | cleanup | shutdown =>
      simp only [begin_transition] at h
      split at h
      all_goals cases h
      exact ⟨rfl, rfl, rfl⟩

theorem stop_soft_stop {why : Why} {p : Stop} (h : stop_step s why p = some t) :
    SoftStopKept s t := by
  cases p with
  | lock =>
      simp only [stop_step] at h
      split at h
      · cases h
      · cases h
        exact ⟨rfl, rfl, rfl⟩
  | join =>
      obtain ⟨u, hu, rfl⟩ := Option.map_eq_some_iff.mp h
      obtain ⟨rfl, -⟩ := join_eq_some hu
      exact ⟨rfl, rfl, rfl⟩
  | actuator =>
      obtain ⟨u, hu, rfl⟩ := Option.map_eq_some_iff.mp h
      obtain ⟨rfl, -⟩ := stop_actuator_eq_some hu
      exact ⟨rfl, rfl, rfl⟩
  | abort g =>
      cases h
      exact abort_soft_stop? s g
  | accepting | release | store | unlock | bond =>
      cases h
      exact ⟨rfl, rfl, rfl⟩

theorem after_stop_soft_stop (s : State P) (why : Why) : SoftStopKept s (after_stop s why) := by
  unfold after_stop
  split
  · split
    · exact ⟨rfl, rfl, rfl⟩
    · exact ⟨rfl, rfl, rfl⟩
  all_goals exact ⟨rfl, rfl, rfl⟩

/-- The end of `on_configure` forgets the messages so far; no other step of the lifecycle thread
has to do with them. -/
theorem lc_soft_stop {i : LcInput} (h : lc_step s i = some t) :
    SoftStopKept s t ∨ t.now = s.now ∧ t.soft_stopped_ = true ∧ t.soft_stop_last_msg_ns_ = 0 := by
  unfold lc_step at h
  split at h
  · cases h
  · split at h
    · cases h
      exact .inr ⟨rfl, rfl, rfl⟩
    all_goals cases h
    · exact .inl ⟨rfl, rfl, rfl⟩
    · exact .inl ⟨rfl, rfl, rfl⟩
  · split at h
    · cases h
      exact .inl ⟨rfl, rfl, rfl⟩
    · obtain ⟨u, hu, rfl⟩ := Option.map_eq_some_iff.mp h
      obtain ⟨rfl, -⟩ := stop_actuator_eq_some hu
      exact .inl ⟨rfl, rfl, rfl⟩
    · cases h
  · split at h
    · cases h
      exact .inl ⟨rfl, rfl, rfl⟩
    · cases h
  · obtain ⟨u, hu, rfl⟩ := Option.map_eq_some_iff.mp h
    obtain ⟨rfl, -⟩ := stop_actuator_eq_some hu
    exact .inl ⟨rfl, rfl, rfl⟩
  · cases h
    exact .inl ⟨rfl, rfl, rfl⟩
  · cases h
    exact .inl ⟨rfl, rfl, rfl⟩
  · cases h
    exact .inl ⟨rfl, rfl, rfl⟩
  · cases h
    exact .inl ⟨rfl, rfl, rfl⟩
  · cases h
    exact .inl ⟨rfl, rfl, rfl⟩
  · cases h
    exact .inl (abort_soft_stop? s _)
  · cases h
    exact .inl ⟨rfl, rfl, rfl⟩
  · exact .inl (stop_soft_stop h)
  · cases h
    exact .inl (after_stop_soft_stop s _)

def Event.is_message : Event P → Bool
  | .soft_stop _ => true
  | _ => false

/-- **The frame.** Without a message the soft stop stays as it is or starts over. -/
theorem step_soft_stop {e : Event P} (he : e.is_message = false) (h : step s e = some t) :
    s.now ≤ t.now ∧
      (t.soft_stopped_ = s.soft_stopped_ ∧ t.soft_stop_last_msg_ns_ = s.soft_stop_last_msg_ns_ ∨
        t.soft_stopped_ = true ∧ t.soft_stop_last_msg_ns_ = 0) := by
  obtain ⟨u, hu, rfl⟩ := step_eq_some h
  have kept : ∀ {v : State P}, SoftStopKept s v → s.now ≤ v.now ∧
      (v.soft_stopped_ = s.soft_stopped_ ∧ v.soft_stop_last_msg_ns_ = s.soft_stop_last_msg_ns_ ∨
        v.soft_stopped_ = true ∧ v.soft_stop_last_msg_ns_ = 0) := by
    rintro v ⟨hnow, hstopped, hlast⟩
    exact ⟨hnow.ge, .inl ⟨hstopped, hlast⟩⟩
  show s.now ≤ u.now ∧ _
  cases happens hu with
  | goal_request _ _ => exact kept (requested_soft_stop (goal_callback_cases s _))
  | act hx => exact kept (act_soft_stop (act_cases hx))
  | return_request _ => exact kept (return_soft_stop s _)
  | ret hx => exact kept (ret_soft_stop (ret_cases hx))
  | worker hx => exact kept (worked_soft_stop (worker_cases hx))
  | transition _ hx => exact kept (transition_soft_stop hx)
  | tick _ =>
      refine kept ?_
      unfold begin_tick
      split
      · exact ⟨rfl, rfl, rfl⟩
      · exact ⟨rfl, rfl, rfl⟩
  | lc hx =>
      rcases lc_soft_stop hx with hkept | ⟨hnow, hstopped, hlast⟩
      · exact kept hkept
      · exact ⟨hnow.ge, .inr ⟨hstopped, hlast⟩⟩
  | soft_stop => cases he
  | clock => exact ⟨Int.le_add_of_nonneg_right (Int.natCast_nonneg _), .inl ⟨rfl, rfl⟩⟩
  | cancel _ _ | fault _ _ | report _ | context_shutdown => exact kept ⟨rfl, rfl, rfl⟩

end WavemakerNode

namespace SoftStopLink

open Interleave SoftStopButton
open WavemakerNode (Plant State)

/-! ## The site -/

structure Tick where
  ns : ℤ
  /-- the pin as it was read -/
  high : Bool
  /-- the value published -/
  stopped : Bool
  deriving DecidableEq, Repr

structure Site (P : Plant) where
  node : State P
  button : SoftStop ℚ
  /-- the clock of the button's host at time zero -/
  epoch : ℚ
  /-- all ticks so far -/
  ticks : List Tick
  /-- how many of them are from before the process was started -/
  born : ℕ
  /-- the subscription's callback between its two stores: the value still to be stored -/
  taking : Option Bool

variable {P : Plant}

/-- `time.monotonic()` -/
def seconds (epoch : ℚ) (ns : ℤ) : ℚ := epoch + ns / 1000000000

/-- A message is being taken that says stop, and before it the soft stop was released. -/
def Site.between (x : Site P) : Bool := !x.node.soft_stopped_ && x.taking == some true

inductive Event (P : Plant) where
  | node (e : WavemakerNode.Event P)
  | tick (line : Line)
  /-- the process of the button is started, perhaps on another host -/
  | restart (epoch : ℚ) (internal_pull_up button : Bool)
  /-- the callback for the message of tick `k` -/
  | arrive (k : ℕ)
  | store

/-- What a tick reads and publishes. -/
def Site.reading (x : Site P) (line : Line) : Tick where
  ns := x.node.now
  high := x.button.pin_high line
  stopped := (x.button.tick (seconds x.epoch x.node.now) line).2

def Site.tick (x : Site P) (line : Line) : Site P :=
  { x with button := (x.button.tick (seconds x.epoch x.node.now) line).1
           ticks := x.ticks ++ [x.reading line] }

/-- `soft_stop_last_msg_ns_.exchange(steady_now_ns())` -/
def stamp (s : State P) : State P := { s with soft_stop_last_msg_ns_ := s.now }

/-- `soft_stopped_.exchange(msg.data)` -/
def tell (s : State P) (data : Bool) : State P := { s with soft_stopped_ := data }

def step (x : Site P) : Event P → Option (Site P)
  -- messages come from the button only
  | .node e =>
      if e.is_message then none
      else (WavemakerNode.step x.node e).map fun n => { x with node := n }
  | .tick line => some (x.tick line)
  | .restart epoch internal_pull_up button =>
      some { x with epoch := epoch, born := x.ticks.length
                    button := .start internal_pull_up button }
  | .arrive k =>
      if x.node.configured ∧ x.taking = none then
        x.ticks[k]?.map fun t => { x with node := stamp x.node, taking := some t.stopped }
      else none
  | .store =>
      x.taking.map fun data => { x with node := tell x.node data, taking := none }

def Init (x : Site P) : Prop :=
  WavemakerNode.Init x.node ∧ 0 ≤ x.node.now ∧ x.ticks = [] ∧ x.born = 0 ∧ x.taking = none ∧
    ∃ internal_pull_up button, x.button = .start internal_pull_up button

/-- A message is not taken later than `D` after it was published. -/
def Timely (D : ℕ) (x : Site P) : Event P → Prop
  | .arrive k => ∀ t ∈ x.ticks[k]?, x.node.now ≤ t.ns + D
  | _ => True

instance (D : ℕ) (x : Site P) (e : Event P) : Decidable (Timely D x e) :=
  match e with
  | .arrive k => inferInstanceAs (Decidable (∀ t ∈ x.ticks[k]?, x.node.now ≤ t.ns + D))
  | .node _ | .tick _ | .restart _ _ _ | .store => isTrue trivial

/-! ## What the pin did

`Run` and `Freed` are `Window` and `Released` of `SoftStopButton.lean` over the recorded ticks, in
nanoseconds. -/

/-- The ticks `i..j` all read the pin as `high`, over a time of at least `d`. -/
def Run (high : Bool) (ticks : List Tick) (d : ℤ) (i j : ℕ) : Prop :=
  i ≤ j ∧ (∀ m t, i ≤ m → m ≤ j → ticks[m]? = some t → t.high = high) ∧
    ∃ a b, ticks[i]? = some a ∧ ticks[j]? = some b ∧ d ≤ b.ns - a.ns

/-- By tick `k` the pin was low for half a second, and behind that never high for 30 ms. -/
def Freed (ticks : List Tick) (k : ℕ) : Prop :=
  ∃ i j, j ≤ k ∧ Run false ticks 500000000 i j ∧
    ∀ i' j', j < i' → j' ≤ k → ¬ Run true ticks 30000000 i' j'

theorem run_append {high : Bool} {ticks more : List Tick} {d : ℤ} {i j : ℕ}
    (hj : j < ticks.length) : Run high (ticks ++ more) d i j ↔ Run high ticks d i j := by
  have hsame : ∀ m, m ≤ j → (ticks ++ more)[m]? = ticks[m]? := by
    intro m hm
    exact List.getElem?_append_left (by omega)
  unfold Run
  constructor
  · rintro ⟨hij, hall, a, b, ha, hb, hd⟩
    rw [hsame i hij] at ha
    rw [hsame j le_rfl] at hb
    refine ⟨hij, fun m t him hmj ht => ?_, a, b, ha, hb, hd⟩
    rw [← hsame m hmj] at ht
    exact hall m t him hmj ht
  · rintro ⟨hij, hall, a, b, ha, hb, hd⟩
    rw [← hsame i hij] at ha
    rw [← hsame j le_rfl] at hb
    refine ⟨hij, fun m t him hmj ht => ?_, a, b, ha, hb, hd⟩
    rw [hsame m hmj] at ht
    exact hall m t him hmj ht

/-- Later ticks do not change it. -/
theorem Freed.append {ticks : List Tick} {k : ℕ} (h : Freed ticks k) (hk : k < ticks.length)
    (more : List Tick) : Freed (ticks ++ more) k := by
  obtain ⟨i, j, hj, hlow, hno⟩ := h
  refine ⟨i, j, hj, (run_append (by omega)).mpr hlow, fun i' j' hlt hle hrun => ?_⟩
  exact hno i' j' hlt hle ((run_append (by omega)).mp hrun)

/-! ### The ticks of one process -/

/-- The times and readings of the process's own ticks, as functions of the tick. -/
structure Fits (x : Site P) (clock : ℕ → ℚ) (line : ℕ → Line) : Prop where
  mono : Monotone clock
  time : ∀ m t, x.ticks[x.born + m]? = some t → clock m = seconds x.epoch t.ns
  read : ∀ m t, x.ticks[x.born + m]? = some t → (High x.button.button line m ↔ t.high = true)

theorem window_iff {x : Site P} {clock : ℕ → ℚ} {line : ℕ → Line} (h : Fits x clock line)
    {Q : ℕ → Prop} {high : Bool}
    (hQ : ∀ m t, x.ticks[x.born + m]? = some t → (Q m ↔ t.high = high)) {d : ℤ} {i j : ℕ}
    (hj : x.born + j < x.ticks.length) :
    Window Q clock ((d : ℚ) / 1000000000) i j ↔
      Run high x.ticks d (x.born + i) (x.born + j) := by
  have hget : ∀ m, m ≤ j → ∃ t, x.ticks[x.born + m]? = some t := by
    intro m hm
    exact ⟨_, List.getElem?_eq_getElem (by omega)⟩
  have hlong : ∀ a b : Tick, (d : ℚ) / 1000000000 ≤ seconds x.epoch b.ns - seconds x.epoch a.ns ↔
      d ≤ b.ns - a.ns := by
    intro a b
    have heq : seconds x.epoch b.ns - seconds x.epoch a.ns =
        ((b.ns - a.ns : ℤ) : ℚ) / 1000000000 := by
      unfold seconds
      push_cast
      ring
    rw [heq, div_le_div_iff_of_pos_right (by norm_num)]
    exact Int.cast_le
  constructor
  · rintro ⟨hij, hall, hd⟩
    obtain ⟨a, ha⟩ := hget i hij
    obtain ⟨b, hb⟩ := hget j le_rfl
    rw [h.time i a ha, h.time j b hb, hlong] at hd
    refine ⟨by omega, fun m t him hmj ht => ?_, a, b, ha, hb, hd⟩
    obtain ⟨n, rfl⟩ := Nat.exists_eq_add_of_le (show x.born ≤ m by omega)
    exact (hQ n t ht).mp (hall n (by omega) (by omega))
  · rintro ⟨hij, hall, a, b, ha, hb, hd⟩
    refine ⟨by omega, fun m him hmj => ?_, ?_⟩
    · obtain ⟨t, ht⟩ := hget m hmj
      exact (hQ m t ht).mpr (hall _ t (by omega) (by omega) ht)
    · rw [h.time i a ha, h.time j b hb, hlong]
      exact hd

/-- What the filter goes by is what the record shows. -/
theorem freed_of_released {x : Site P} {clock : ℕ → ℚ} {line : ℕ → Line} (h : Fits x clock line)
    {n : ℕ} (hn : x.born + n < x.ticks.length) (hr : Released x.button.button clock line n) :
    Freed x.ticks (x.born + n) := by
  have hlow : ∀ m t, x.ticks[x.born + m]? = some t →
      (Low x.button.button line m ↔ t.high = false) := by
    intro m t ht
    rw [← not_high_iff, h.read m t ht, Bool.not_eq_true]
  obtain ⟨i, j, hj, hwindow, hno⟩ := hr
  have hrelease : (RELEASE_HOLD_S : ℚ) = ((500000000 : ℤ) : ℚ) / 1000000000 := by
    norm_num [RELEASE_HOLD_S]
  have htrip : (TRIP_FILTR_S : ℚ) = ((30000000 : ℤ) : ℚ) / 1000000000 := by
    norm_num [TRIP_FILTR_S]
  rw [hrelease, window_iff h hlow (by omega)] at hwindow
  refine ⟨_, _, by omega, hwindow, fun i' j' hlt hle hrun => ?_⟩
  -- the window in between is of the same process
  have hij := hrun.1
  obtain ⟨p, rfl⟩ := Nat.exists_eq_add_of_le (show x.born ≤ i' by omega)
  obtain ⟨q, rfl⟩ := Nat.exists_eq_add_of_le (show x.born ≤ j' by omega)
  rw [← window_iff h h.read (by omega), ← htrip] at hrun
  exact hno p q (by omega) (by omega) hrun

/-- The ticks are in the order of their times. -/
def Ordered (ticks : List Tick) : Prop :=
  ∀ (i j : ℕ) (a b : Tick), i ≤ j → ticks[i]? = some a → ticks[j]? = some b → a.ns ≤ b.ns

/-- Without a button every reading of the process is high. -/
def Unread (x : Site P) : Prop :=
  x.button.button = false → ∀ k (t : Tick), x.born ≤ k → x.ticks[k]? = some t → t.high = true

theorem exists_fits {x : Site P} (horder : Ordered x.ticks) (hunread : Unread x)
    (hlt : x.born < x.ticks.length) : ∃ clock line, Fits x clock line := by
  -- behind the last tick the clock stands still
  let last (m : ℕ) : Fin x.ticks.length := ⟨min (x.born + m) (x.ticks.length - 1), by omega⟩
  have hlast : ∀ m t, x.ticks[x.born + m]? = some t → x.ticks.get (last m) = t := by
    intro m t ht
    obtain ⟨hm, heq⟩ := List.getElem?_eq_some_iff.mp ht
    have hfin : last m = ⟨x.born + m, hm⟩ := Fin.ext (by simp only [last]; omega)
    rw [hfin]
    exact heq
  refine ⟨fun m => seconds x.epoch (x.ticks.get (last m)).ns,
    fun m => .level (x.ticks.get (last m)).high, ?_, ?_, ?_⟩
  · intro i j hij
    have hidx : (last i : ℕ) ≤ last j := by
      simp only [last]
      omega
    have hle : (x.ticks.get (last i)).ns ≤ (x.ticks.get (last j)).ns :=
      horder (last i) (last j) _ _ hidx (by simp) (by simp)
    have hcast : ((x.ticks.get (last i)).ns : ℚ) ≤ (x.ticks.get (last j)).ns :=
      Int.cast_le.mpr hle
    unfold seconds
    linarith
  · intro m t ht
    simp only [hlast m t ht]
  · intro m t ht
    unfold High
    simp only [hlast m t ht]
    by_cases hb : x.button.button = true
    · simp [hb]
    · rw [Bool.not_eq_true] at hb
      simp [hb, hunread hb _ t (by omega) ht]

/-! ### The record grows -/

theorem concat_cases {ticks : List Tick} {u t : Tick} {k : ℕ} (h : (ticks ++ [u])[k]? = some t) :
    ticks[k]? = some t ∨ k = ticks.length ∧ t = u := by
  by_cases hk : k < ticks.length
  · rw [List.getElem?_append_left hk] at h
    exact .inl h
  · have hlen := (List.getElem?_eq_some_iff.mp h).1
    rw [List.length_append, List.length_singleton] at hlen
    have heq : k = ticks.length := by omega
    rw [heq, List.getElem?_concat_length] at h
    exact .inr ⟨heq, (Option.some.inj h).symm⟩

theorem concat_old {ticks : List Tick} {t : Tick} {k : ℕ} (h : ticks[k]? = some t)
    (more : List Tick) : (ticks ++ more)[k]? = some t := by
  rw [List.getElem?_append_left (List.getElem?_eq_some_iff.mp h).1, h]

theorem Ordered.concat {ticks : List Tick} (h : Ordered ticks) {u : Tick}
    (hu : ∀ t ∈ ticks, t.ns ≤ u.ns) : Ordered (ticks ++ [u]) := by
  intro i j a b hij ha hb
  rcases concat_cases ha with ha' | ⟨hi, rfl⟩
  · rcases concat_cases hb with hb' | ⟨-, rfl⟩
    · exact h i j a b hij ha' hb'
    · exact hu a (List.mem_of_getElem? ha')
  · rcases concat_cases hb with hb' | ⟨-, rfl⟩
    · have hj := (List.getElem?_eq_some_iff.mp hb').1
      omega
    · exact le_rfl

/-- A tick goes by the level it reads. -/
theorem tick_congr (s : SoftStop ℚ) (now : ℚ) {line line' : Line}
    (h : s.pin_high line = s.pin_high line') : s.tick now line = s.tick now line' := by
  unfold SoftStop.tick
  rw [h]

theorem tick_button (x : Site P) (line : Line) : (x.tick line).button.button = x.button.button := by
  unfold Site.tick SoftStop.tick
  dsimp only
  split
  · rfl
  · rfl

theorem Unread.tick {x : Site P} (h : Unread x) (line : Line) : Unread (x.tick line) := by
  intro hb k t hk ht
  rw [tick_button] at hb
  rcases concat_cases ht with ht' | ⟨-, rfl⟩
  · exact h hb k t hk ht'
  · exact (pin_high_iff x.button (fun _ => line) 0).mpr (.inl hb)

/-- The functions that fit the record fitted it before the tick, and give the tick. -/
theorem Fits.tick {x : Site P} {line : Line} {clock : ℕ → ℚ} {lines : ℕ → Line}
    (h : Fits (x.tick line) clock lines) (hborn : x.born ≤ x.ticks.length) :
    Fits x clock lines ∧ (x.button.tick (clock (x.ticks.length - x.born))
      (lines (x.ticks.length - x.born))).1 = (x.tick line).button := by
  have hread : ∀ m (t : Tick), (x.tick line).ticks[x.born + m]? = some t →
      (High x.button.button lines m ↔ t.high = true) := by
    intro m t ht
    rw [← tick_button x line]
    exact h.read m t ht
  have hlast : (x.tick line).ticks[x.born + (x.ticks.length - x.born)]? =
      some (x.reading line) := by
    rw [Nat.add_sub_cancel' hborn]
    exact List.getElem?_concat_length
  refine ⟨⟨h.mono, fun m t ht => h.time m t (concat_old ht _),
    fun m t ht => hread m t (concat_old ht _)⟩, ?_⟩
  have htime : clock (x.ticks.length - x.born) = seconds x.epoch x.node.now := h.time _ _ hlast
  have hpin : x.button.pin_high (lines (x.ticks.length - x.born)) = x.button.pin_high line :=
    Bool.eq_iff_iff.mpr ((pin_high_iff x.button lines _).trans (hread _ _ hlast))
  rw [htime, tick_congr x.button _ hpin]
  rfl

/-- What holds of the record and of the process that adds to it. -/
structure Filed (x : Site P) : Prop where
  now : 0 ≤ x.node.now
  times : ∀ t ∈ x.ticks, 0 ≤ t.ns ∧ t.ns ≤ x.node.now
  order : Ordered x.ticks
  born : x.born ≤ x.ticks.length
  unread : Unread x
  knows : ∀ clock lines, Fits x clock lines →
    Knows x.button x.button.button clock lines (x.ticks.length - x.born)
  freed : ∀ k t, x.ticks[k]? = some t → t.stopped = false → Freed x.ticks k

/-- What the controller does leaves the record alone. -/
theorem Filed.node {x : Site P} (h : Filed x) {n : State P} (hn : x.node.now ≤ n.now)
    (taking : Option Bool) : Filed { x with node := n, taking := taking } := by
  refine ⟨h.now.trans hn, fun t ht => ?_, h.order, h.born, h.unread, ?_, h.freed⟩
  · exact ⟨(h.times t ht).1, (h.times t ht).2.trans hn⟩
  · rintro clock lines ⟨hmono, htime, hread⟩
    exact h.knows clock lines ⟨hmono, htime, hread⟩

theorem Filed.tick {x : Site P} (h : Filed x) (line : Line) : Filed (x.tick line) := by
  have hborn := h.born
  have hlength : (x.tick line).ticks.length = x.ticks.length + 1 := List.length_append
  have horder : Ordered (x.tick line).ticks := h.order.concat fun t ht => (h.times t ht).2
  have hunread := h.unread.tick line
  -- the filter knows one tick more
  have hknows : ∀ clock lines, Fits (x.tick line) clock lines →
      Knows (x.tick line).button (x.tick line).button.button clock lines
        (x.ticks.length - x.born + 1) := by
    intro clock lines hfits
    obtain ⟨hbefore, htick⟩ := hfits.tick hborn
    rw [tick_button, ← htick]
    exact tick_knows hfits.mono (h.knows clock lines hbefore)
  refine ⟨h.now, fun t ht => ?_, horder, ?_, hunread, ?_, fun k t ht hstopped => ?_⟩
  · rcases List.mem_append.mp ht with ht | ht
    · exact h.times t ht
    · rw [List.mem_singleton.mp ht]
      exact ⟨h.now, le_rfl⟩
  · exact hborn.trans (by rw [hlength]; omega)
  · intro clock lines hfits
    have hcount : (x.tick line).ticks.length - (x.tick line).born =
        x.ticks.length - x.born + 1 := by
      rw [hlength]
      exact Nat.sub_add_comm hborn
    rw [hcount]
    exact hknows clock lines hfits
  · rcases concat_cases ht with ht' | ⟨rfl, rfl⟩
    · exact (h.freed k t ht' hstopped).append (List.getElem?_eq_some_iff.mp ht').1 _
    · -- the value of the last tick is the flag it leaves
      have hlt : (x.tick line).born < (x.tick line).ticks.length := by
        rw [hlength]
        exact Nat.lt_succ_of_le hborn
      obtain ⟨clock, lines, hfits⟩ := exists_fits horder hunread hlt
      obtain ⟨n, hn, hreleased⟩ := (hknows clock lines hfits).stopped.mp hstopped
      have hidx : (x.tick line).born + n = x.ticks.length := by
        show x.born + n = _
        omega
      rw [← hidx]
      exact freed_of_released hfits (by omega) hreleased

theorem Filed.restart {x : Site P} (h : Filed x) (epoch : ℚ) (internal_pull_up button : Bool) :
    Filed { x with epoch := epoch, born := x.ticks.length
                   button := .start internal_pull_up button } := by
  refine ⟨h.now, h.times, h.order, le_rfl, fun _ k t hk ht => ?_, fun clock lines _ => ?_, h.freed⟩
  · have hlt := (List.getElem?_eq_some_iff.mp ht).1
    exact absurd hlt (by simpa using hk)
  · show Knows _ _ clock lines (x.ticks.length - x.ticks.length)
    rw [Nat.sub_self]
    exact start_knows internal_pull_up button clock lines

/-! ## What the controller goes by -/

/-- The time last stored is that of a message of a tick that published `data`. -/
def GoesBy (D : ℕ) (x : Site P) (data : Bool) : Prop :=
  ∃ (k : ℕ) (t : Tick), x.ticks[k]? = some t ∧ t.stopped = data ∧
    x.node.soft_stop_last_msg_ns_ ≤ t.ns + D

structure Inv (D : ℕ) (x : Site P) : Prop where
  filed : Filed x
  taking : ∀ data, x.taking = some data → GoesBy D x data
  stopped : x.taking = none → x.node.soft_stopped_ = false → GoesBy D x false
  joined : WavemakerNode.Ladder x.node ∧ WavemakerNode.Joined x.node

variable {D : ℕ} {x y : Site P}

/-- A message is still in the record when others have followed, and time stored anew as zero goes
back to before any. -/
theorem GoesBy.keep {data : Bool} (h : GoesBy D x data) {more : List Tick}
    (hf : ∀ t ∈ x.ticks, 0 ≤ t.ns) (hticks : y.ticks = x.ticks ++ more)
    (hlast : y.node.soft_stop_last_msg_ns_ = x.node.soft_stop_last_msg_ns_ ∨
      y.node.soft_stop_last_msg_ns_ = 0) : GoesBy D y data := by
  obtain ⟨k, t, ht, hdata, hle⟩ := h
  refine ⟨k, t, ?_, hdata, ?_⟩
  · rw [hticks]
    exact concat_old ht more
  · have hpos := hf t (List.mem_of_getElem? ht)
    rcases hlast with heq | heq
    · rw [heq]
      exact hle
    · rw [heq]
      omega

/-- Neither store has to do with the locks. -/
theorem joined_of {s : State P} (h : WavemakerNode.Ladder s ∧ WavemakerNode.Joined s)
    (data : Bool) (last : ℤ) :
    WavemakerNode.Ladder { s with soft_stopped_ := data, soft_stop_last_msg_ns_ := last } ∧
      WavemakerNode.Joined { s with soft_stopped_ := data, soft_stop_last_msg_ns_ := last } := by
  obtain ⟨hl, hj⟩ := h
  exact ⟨⟨hl.entering, hl.accepting, hl.act_past, hl.ret_past, hl.worker, hl.polling, hl.reporter,
    hl.stopped, hl.act_ret, hl.act_lc, hl.ret_lc⟩, ⟨hj.act, hj.ret⟩⟩

theorem inv_node (h : Inv D x) {e : WavemakerNode.Event P} (he : e.is_message = false)
    {n : State P} (hn : WavemakerNode.step x.node e = some n) : Inv D { x with node := n } := by
  obtain ⟨hnow, hsoft⟩ := WavemakerNode.step_soft_stop he hn
  have hpos : ∀ t ∈ x.ticks, 0 ≤ t.ns := fun t ht => (h.filed.times t ht).1
  have hlast : n.soft_stop_last_msg_ns_ = x.node.soft_stop_last_msg_ns_ ∨
      n.soft_stop_last_msg_ns_ = 0 := by
    rcases hsoft with ⟨-, heq⟩ | ⟨-, heq⟩
    · exact .inl heq
    · exact .inr heq
  refine ⟨h.filed.node hnow _, fun data hdata => ?_, fun hnone hstopped => ?_, ?_⟩
  · exact (h.taking data hdata).keep hpos (List.append_nil _).symm hlast
  · rcases hsoft with ⟨heq, -⟩ | ⟨heq, -⟩
    · have hbefore := h.stopped hnone (by rw [← heq]; exact hstopped)
      exact hbefore.keep hpos (List.append_nil _).symm hlast
    · rw [show n.soft_stopped_ = false from hstopped] at heq
      cases heq
  · obtain ⟨hl, hj⟩ := h.joined
    exact ⟨WavemakerNode.step_ladder hl hn, WavemakerNode.step_joined hl hj hn⟩

theorem inv_step (h : Inv D x) {e : Event P} (he : Timely D x e) (hs : step x e = some y) :
    Inv D y := by
  have hpos : ∀ t ∈ x.ticks, 0 ≤ t.ns := fun t ht => (h.filed.times t ht).1
  obtain ⟨hl, hj⟩ := h.joined
  cases e with
  | node e =>
      simp only [step] at hs
      split at hs
      · cases hs
      · rename_i hmessage
        obtain ⟨n, hn, rfl⟩ := Option.map_eq_some_iff.mp hs
        exact inv_node h (Bool.eq_false_iff.mpr hmessage) hn
  | tick line =>
      cases hs
      refine ⟨h.filed.tick line, fun data hdata => ?_, fun hnone hstopped => ?_, hl, hj⟩
      · exact (h.taking data hdata).keep hpos rfl (.inl rfl)
      · exact (h.stopped hnone hstopped).keep hpos rfl (.inl rfl)
  | restart epoch internal_pull_up button =>
      cases hs
      refine ⟨h.filed.restart _ _ _, fun data hdata => ?_, fun hnone hstopped => ?_, hl, hj⟩
      · exact (h.taking data hdata).keep hpos (List.append_nil _).symm (.inl rfl)
      · exact (h.stopped hnone hstopped).keep hpos (List.append_nil _).symm (.inl rfl)
  | arrive k =>
      obtain ⟨-, hmap⟩ := Option.ite_none_right_eq_some.mp hs
      obtain ⟨t, ht, rfl⟩ := Option.map_eq_some_iff.mp hmap
      refine ⟨h.filed.node (n := stamp x.node) le_rfl _, fun data hdata => ?_, fun hnone => ?_, ?_⟩
      · cases hdata
        exact ⟨k, t, ht, rfl, he t ht⟩
      · cases hnone
      · exact joined_of h.joined _ _
  | store =>
      obtain ⟨data, hdata, rfl⟩ := Option.map_eq_some_iff.mp hs
      refine ⟨h.filed.node (n := tell x.node data) le_rfl _, fun _ hnone => ?_,
        fun _ hstopped => ?_, ?_⟩
      · cases hnone
      · rw [show data = false from hstopped] at hdata
        exact (h.taking false hdata).keep hpos (List.append_nil _).symm (.inl rfl)
      · exact joined_of h.joined _ _

theorem init_inv (h : Init x) : Inv D x := by
  obtain ⟨hnode, hnow, hticks, hborn, htaking, internal_pull_up, button, hbutton⟩ := h
  have hnone : ∀ k : ℕ, x.ticks[k]? = none := by
    intro k
    rw [hticks]
    rfl
  refine ⟨⟨hnow, ?_, ?_, ?_, ?_, fun clock lines _ => ?_, ?_⟩, ?_, fun _ hstopped => ?_,
    WavemakerNode.init_ladder hnode, WavemakerNode.init_joined hnode⟩
  · rw [hticks]
    simp
  · intro i j a b _ ha
    rw [hnone] at ha
    cases ha
  · rw [hborn]
    exact Nat.zero_le _
  · intro _ k t _ ht
    rw [hnone] at ht
    cases ht
  · rw [hbutton, hticks, hborn]
    exact start_knows internal_pull_up button clock lines
  · intro k t ht
    rw [hnone] at ht
    cases ht
  · intro data hdata
    rw [htaking] at hdata
    cases hdata
  · obtain ⟨-, -, -, -, -, hsoft, -⟩ := hnode
    rw [hsoft] at hstopped
    cases hstopped

theorem reach_inv (h : Reach step (Timely D) Init x) : Inv D x :=
  h.invariant (fun _ => init_inv) fun _ _ _ hi he hs => inv_step hi he hs

/-! ## The controller follows the button -/

def Site.timeout (x : Site P) : ℤ := P.soft_stop_timeout_ns x.node.cfg

/-- Where the soft stop is not active, a tick has said so, and not long ago. -/
theorem source_of_inactive (h : Inv D x) (hactive : x.node.soft_stop_active = false)
    (hbetween : x.between = false) :
    ∃ (k : ℕ) (t : Tick), x.ticks[k]? = some t ∧ t.stopped = false ∧
      x.node.now ≤ t.ns + D + x.timeout := by
  simp only [State.soft_stop_active, Bool.or_eq_false_iff, decide_eq_false_iff_not] at hactive
  obtain ⟨hstopped, hrecent⟩ := hactive
  have hsource : GoesBy D x false := by
    cases htaking : x.taking with
    | none => exact h.stopped htaking hstopped
    | some data =>
        cases data with
        | false => exact h.taking false htaking
        | true =>
            simp only [Site.between, hstopped, htaking] at hbetween
            cases hbetween
  obtain ⟨k, t, ht, hdata, hle⟩ := hsource
  refine ⟨k, t, ht, hdata, ?_⟩
  unfold Site.timeout
  omega

/-- **What is let through was freed at the button.** Whenever the soft stop is not active, and the
callback is not just taking a stop, there is a tick at most the delay and the timeout ago by which
the pin had been low for half a second in a row, without having been high for 30 ms since. -/
theorem let_through_freed (h : Reach step (Timely D) Init x)
    (hactive : x.node.soft_stop_active = false) (hbetween : x.between = false) :
    ∃ (k : ℕ) (t : Tick), x.ticks[k]? = some t ∧ x.node.now ≤ t.ns + D + x.timeout ∧
      Freed x.ticks k := by
  have hi := reach_inv h
  obtain ⟨k, t, ht, hstopped, hrecent⟩ := source_of_inactive hi hactive hbetween
  exact ⟨k, t, ht, hrecent, hi.filed.freed k t ht hstopped⟩

/-! ### On the bench -/

/-- A constructed controller, and a button with the pin low. -/
def site : Site WavemakerNode.bench where
  node := WavemakerNode.constructed
  button := .start true true
  epoch := 0
  ticks := []
  born := 0
  taking := none

theorem site_init : Init site :=
  ⟨WavemakerNode.constructed_init, le_rfl, rfl, rfl, rfl, true, true, rfl⟩

/-- The button is released: two ticks half a second apart, the second one arrives. -/
def releases : List (Event WavemakerNode.bench) :=
  WavemakerNode.configures_bench.map .node ++
    [.tick (.level false), .node (.clock 500000000), .tick (.level false), .arrive 1, .store]

theorem let_through_freed_bench :
    ∃ x : Site WavemakerNode.bench, Reach step (Timely 20000000) Init x ∧
      x.node.soft_stop_active = false ∧ x.between = false ∧
      ∃ (k : ℕ) (t : Tick), x.ticks[k]? = some t ∧ x.node.now ≤ t.ns + 20000000 + x.timeout ∧
        Freed x.ticks k := by
  have heval : (run (guarded step (Timely 20000000)) site releases).map
      (fun x => (x.node.soft_stop_active, x.between)) = some (false, false) := by
    decide +kernel
  obtain ⟨x, hx, hval⟩ := Option.map_eq_some_iff.mp heval
  simp only [Prod.mk.injEq] at hval
  obtain ⟨hactive, hbetween⟩ := hval
  have hreach : Reach step (Timely 20000000) Init x := .guarded_run _ (.init site_init) hx
  exact ⟨x, hreach, hactive, hbetween, let_through_freed hreach hactive hbetween⟩

/-! ### Overdue -/

/-- The process has not ticked for the delay and the timeout. -/
def Silent (D : ℕ) (x : Site P) : Prop := ∀ t ∈ x.ticks, t.ns + D + x.timeout < x.node.now

/-- Every tick reads high since one that is the filter's 30 ms, the delay and the timeout ago. -/
def Pressed (D : ℕ) (x : Site P) : Prop :=
  ∃ a : Fin x.ticks.length,
    (x.ticks.get a).ns + 30000000 + D + x.timeout < x.node.now ∧
      ∀ t ∈ x.ticks.drop a, t.high = true

def Overdue (D : ℕ) (x : Site P) : Prop := Silent D x ∨ Pressed D x

instance (D : ℕ) (x : Site P) : Decidable (Overdue D x) :=
  inferInstanceAs (Decidable ((∀ t ∈ x.ticks, _ < _) ∨ ∃ a : Fin x.ticks.length, _ < _ ∧
    ∀ t ∈ x.ticks.drop a, _ = _))

/-- The moment between the stores is excepted for a reason: a stop that ends a silence makes the
value from before the silence count again. -/
example :
    (run step site (releases ++ [.node (.clock 1000000000), .tick .raises, .node (.clock 1000000000),
      .tick .raises, .arrive 3])).any (fun x => decide (Overdue 20000000 x) && x.between &&
        !x.node.soft_stop_active) = true := by
  decide +kernel

/-! ## A stretch with the button pressed -/

/-- The history of `SoftStop.lean`, counted at the controller. -/
def record (h : WavemakerNode.SoftStop.History) (x : Site P) :
    Event P → WavemakerNode.SoftStop.History
  | .node e => WavemakerNode.SoftStop.record h x.node e
  | _ => h

/-- Before the step the button is overdue and no stop is just being taken. -/
def Held (D : ℕ) (x : Site P × WavemakerNode.SoftStop.History) (e : Event P) : Prop :=
  Timely D x.1 e ∧ Overdue D x.1 ∧ x.1.between = false

instance (x : Site P × WavemakerNode.SoftStop.History) (e : Event P) : Decidable (Held D x e) :=
  inferInstanceAs (Decidable (_ ∧ _ ∧ _))

/-- A goal is requested and played up to the head of its loop. -/
def plays : List (WavemakerNode.Event WavemakerNode.bench) :=
  WavemakerNode.activates_bench ++ WavemakerNode.requests 0 1 :: .act :: WavemakerNode.starts ++
    WavemakerNode.to_sample ++
      [.worker (.elapsed 0), .worker (.wrote true ""), .worker .proceed, .worker .proceed]

/-- The worker's way out, while the button's process goes on. -/
def leaves : List (Event WavemakerNode.bench) :=
  .tick (.level true) :: .arrive 4 :: .store :: List.replicate 6 (.node (.worker .proceed))

end SoftStopLink
