/-
The thread of a start.

What `web_server.py` does for one call of `start`, from the request to the end of its check:
which steps its thread takes and what it publishes (`Moves`), what all other steps of the system
leave alone (`Quiet`), that its start reaches the bridge at most once (`Token`), and that it
ends after a bounded number of steps (`run_left`).

The answer of the bridge to a call is the wave it starts when the start of that call arrives,
if it does not refuse it. It is kept as a history beside the state.
-/
import Wavemakers.StartingText

set_option autoImplicit false

namespace WavemakerWeb

open WavemakerBridge Interleave Binary64

/-! ## One call -/

/-- The bridge has the start of the call `c` before it and starts a wave. -/
def answers (c : ℕ) (s : System) : Bool :=
  s.starts.head? = some c && s.bridge.subscribed && s.bridge.starts

/-- The wave the bridge starts when the start of the call `c` arrives. -/
def responds (c : ℕ) (answer : Option (ℚ × ℚ)) (s : System) : SystemEvent → Option (ℚ × ℚ)
  | .deliver_start => if answers c s then s.bridge.wave else answer
  | _ => answer

def Begins (x : System × Option (ℚ × ℚ)) : Prop := SystemInit x.1 ∧ x.2 = none

/-- A message with numbers was read after the call. -/
def newer (s : System) (call : Call) : Bool :=
  s.web.started_with.any fun r => call.first_message < r.1

/-! ## The bridge -/

/-- What the bridge has when it can start a wave. -/
structure Ready (s : Bridge) : Prop where
  subscribed : Subscribed s
  publishes : s.primary = .inactive ∨ s.primary = .active → s.publishers = true
  height : ∀ q, s.height_ = some q → nearest q = q
  period : ∀ q, s.period_ = some q → nearest q = q

theorem init_ready {s : Bridge} (h : Init s) : Ready s := by
  obtain ⟨hprimary, -, -, hsub, -, -, hheight, hperiod, -⟩ := h
  refine ⟨?_, ?_, ?_, ?_⟩
  · intro hs
    rw [hsub] at hs
    cases hs
  · rw [hprimary]
    rintro (hp | hp) <;> cases hp
  · intro q hq
    rw [hheight] at hq
    cases hq
    exact nearest_zero
  · intro q hq
    rw [hperiod] at hq
    cases hq
    exact nearest_zero

/-- The number in an event is a double. -/
def Typed (e : Event) : Prop := ∀ q, e = .height (some q) ∨ e = .period (some q) → nearest q = q

theorem step_ready {s t : Bridge} {e : Event} (h : Ready s) (he : Typed e)
    (hs : step s e = some t) : Ready t := by
  have hheld := held_step hs
  have hprimary : t.primary = ((held s).after e).primary := congrArg Held.primary hheld
  have hpublishers : t.publishers = ((held s).after e).publishers :=
    congrArg Held.publishers hheld
  have hheight : t.height_ = ((held s).after e).height := congrArg Held.height hheld
  have hperiod : t.period_ = ((held s).after e).period := congrArg Held.period hheld
  refine ⟨step_subscribed h.subscribed hs, ?_, ?_, ?_⟩
  · rw [hprimary, hpublishers]
    cases e with
    | configure => exact fun _ => rfl
    | cleanup | shutdown | error => rintro (hp | hp) <;> cases hp
    | activate timeout =>
        obtain ⟨hp, -⟩ := Option.ite_none_right_eq_some.mp hs
        exact fun _ => h.publishes (.inl hp)
    | deactivate =>
        obtain ⟨hp, -⟩ := Option.ite_none_right_eq_some.mp hs
        exact fun _ => h.publishes (.inr hp)
    | _ => exact h.publishes
  · rw [hheight]
    cases e with
    | height x =>
        intro q hq
        exact he q (.inl (congrArg Event.height hq))
    | _ => exact h.height
  · rw [hperiod]
    cases e with
    | period x =>
        intro q hq
        exact he q (.inr (congrArg Event.period hq))
    | _ => exact h.period

/-- A start that is not refused publishes its values. -/
theorem start_publishes {s : Bridge} (hp : s.publishers = true) (h : s.starts = true) :
    ∃ wave o, s.wave = some wave ∧
      s.start.out = s.out ++ [.publish .Starting (starting_text wave.1 wave.2), o] := by
  simp only [Bridge.starts, Bool.and_eq_true, decide_eq_true_eq] at h
  obtain ⟨⟨⟨hidle, hwave⟩, halive⟩, havailable⟩ := h
  obtain ⟨⟨height, period⟩, hwave⟩ := Option.isSome_iff_exists.mp hwave
  refine ⟨(height, period), .send_goal (s.goal_generation_ + 1) height period, hwave, ?_⟩
  rw [Bridge.start, if_neg (not_not.mpr hidle), hwave]
  dsimp only
  rw [if_neg (by rw [halive]; rintro ⟨⟩), if_neg (by rw [havailable]; rintro ⟨⟩)]
  simp only [Bridge.send, Bridge.publish_state, hp, if_true, List.append_assoc]
  rfl

/-- The wave of a bridge that has doubles is a pair of positive doubles. -/
theorem wave_of_ready {s : Bridge} (h : Ready s) {wave : ℚ × ℚ} (hw : s.wave = some wave) :
    Wave wave := by
  unfold Bridge.wave at hw
  split at hw
  · rename_i height period hheight hperiod
    obtain ⟨⟨hh, hp⟩, heq⟩ := Option.ite_none_right_eq_some.mp hw
    cases heq
    exact ⟨⟨hh, h.height _ hheight⟩, hp, h.period _ hperiod⟩
  · cases hw

/-! ## Steps of the system -/

section Steps

variable {s t : System}

theorem by_web_eq_some {u : Option System} :
    by_web s u = some t ↔ s.web.running = true ∧ u = some t := by
  rw [by_web, Option.ite_none_right_eq_some]

theorem system_step_eq_some {e : SystemEvent} :
    system_step s e = some t ↔ well_typed e = true ∧ act s e = some t :=
  Option.ite_none_right_eq_some

theorem of_overwritten {α : Type} {depth i : ℕ} {q r : List α} (h : overwritten depth q i = some r) :
    r = q.eraseIdx i := by
  obtain ⟨-, heq⟩ := Option.ite_none_right_eq_some.mp h
  cases heq
  rfl

/-- What a delivery to the bridge leaves alone. -/
theorem deliver_keeps (s : System) (e : Event) :
    (s.deliver e).web = s.web ∧ (s.deliver e).heights = s.heights ∧
      (s.deliver e).periods = s.periods ∧ (s.deliver e).starts = s.starts ∧
      (s.deliver e).out = s.out := by
  unfold System.deliver
  split
  · exact ⟨rfl, rfl, rfl, rfl, rfl⟩
  · exact ⟨rfl, rfl, rfl, rfl, rfl⟩

theorem deliver_messages (s : System) (e : Event) {data : String} (h : data ∈ s.messages) :
    data ∈ (s.deliver e).messages := by
  unfold System.deliver
  split
  · exact List.mem_append_left _ h
  · exact h

theorem deliver_ready (hr : Ready s.bridge) {e : Event} (he : Typed e) :
    Ready (s.deliver e).bridge := by
  unfold System.deliver
  split
  · rename_i b hb
    exact step_ready hr he hb
  · exact hr

end Steps

/-! ## Steps of a thread -/

def sent_height : Command → Option ℚ
  | .height x => some x
  | _ => none

def sent_period : Command → Option ℚ
  | .period x => some x
  | _ => none

def sent_start : Command → Option ℕ
  | .start c => some c
  | _ => none

/-- Where the thread of a call can go, and what it publishes on the way. -/
inductive Moves (s : System) (c : ℕ) (call : Call) : Point → List Command → Prop where
  | height : call.point = .publish_height →
      Moves s c call .publish_period [.height call.height]
  | period : call.point = .publish_period →
      Moves s c call (.sleep (s.bridge.now + START_DELAY_S)) [.period call.period]
  | start {wake : ℕ} : call.point = .sleep wake → wake ≤ s.bridge.now →
      Moves s c call .spawned [.start c]
  | begins : call.point = .spawned →
      Moves s c call (.poll s.bridge.now (s.bridge.now + START_CHECK_S)) []
  | again {wake deadline : ℕ} : call.point = .poll wake deadline → wake ≤ s.bridge.now →
      s.bridge.now < deadline → newer s call = false →
      Moves s c call (.poll (s.bridge.now + CHECK_PERIOD_S) deadline) []
  | late {wake deadline : ℕ} : call.point = .poll wake deadline → wake ≤ s.bridge.now →
      deadline ≤ s.bridge.now → Moves s c call .ended []
  | decides {wake deadline n : ℕ} {used : Double × Double} : call.point = .poll wake deadline →
      wake ≤ s.bridge.now → s.bridge.now < deadline → s.web.started_with = some (n, used) →
      call.first_message < n →
      Moves s c call .ended
        (if mismatch used call.height call.period then [.stop (some c)] else [])

/-- The rest of a system in which a thread has moved. -/
structure Moved (s t : System) (c : ℕ) (point : Point) (sent : List Command) : Prop where
  bridge : t.bridge = s.bridge
  messages : t.messages = s.messages
  out : t.out = s.out ++ sent
  heights : t.heights = s.heights ++ sent.filterMap sent_height
  periods : t.periods = s.periods ++ sent.filterMap sent_period
  starts : t.starts = s.starts ++ sent.filterMap sent_start
  running : t.web.running = s.web.running
  message_count : t.web.message_count = s.web.message_count
  started_with : t.web.started_with = s.web.started_with
  calls : t.web.calls = s.web.calls.modify c fun call => { call with point := point }

section Threads

variable {s t : System} {c : ℕ} {call : Call}

theorem goto_moved (s : System) (c : ℕ) (point : Point) : Moved s (s.goto c point) c point [] := by
  refine ⟨rfl, rfl, ?_, ?_, ?_, ?_, rfl, rfl, rfl, rfl⟩ <;> exact (List.append_nil _).symm

theorem publish_goto_moved (s : System) (command : Command) (c : ℕ) (point : Point) :
    Moved s ((s.publish command).goto c point) c point [command] := by
  cases command with
  | height x => exact ⟨rfl, rfl, rfl, rfl, (List.append_nil _).symm, (List.append_nil _).symm,
      rfl, rfl, rfl, rfl⟩
  | period x => exact ⟨rfl, rfl, rfl, (List.append_nil _).symm, rfl, (List.append_nil _).symm,
      rfl, rfl, rfl, rfl⟩
  | start c => exact ⟨rfl, rfl, rfl, (List.append_nil _).symm, (List.append_nil _).symm, rfl,
      rfl, rfl, rfl, rfl⟩
  | stop c => exact ⟨rfl, rfl, rfl, (List.append_nil _).symm, (List.append_nil _).symm,
      (List.append_nil _).symm, rfl, rfl, rfl, rfl⟩

theorem newer_of_le {n : ℕ} {used : Double × Double} (h : s.web.started_with = some (n, used)) :
    newer s call = decide (call.first_message < n) := by
  rw [newer, h, Option.any_some]

theorem check_start_moves {wake deadline : ℕ} (hpoint : call.point = .poll wake deadline)
    (hwake : wake ≤ s.bridge.now) :
    ∃ point sent, Moves s c call point sent ∧
      Moved s (s.check_start c call deadline) c point sent := by
  unfold System.check_start
  split
  · rename_i hnow
    split
    · rename_i count used_height used_period hstarted
      split
      · rename_i hcount
        -- numbers read after the call began
        have hmoves := Moves.decides (c := c) hpoint hwake hnow hstarted hcount
        split
        · rename_i hdiffers
          rw [if_pos (show mismatch (used_height, used_period) call.height call.period = true
            from hdiffers)] at hmoves
          exact ⟨_, _, hmoves, publish_goto_moved _ _ _ _⟩
        · rename_i hdiffers
          rw [if_neg (show ¬ mismatch (used_height, used_period) call.height call.period = true
            from hdiffers)] at hmoves
          exact ⟨_, _, hmoves, goto_moved _ _ _⟩
      · rename_i hcount
        have hnewer : newer s call = false := by
          rw [newer_of_le hstarted]
          exact decide_eq_false hcount
        exact ⟨_, _, .again hpoint hwake hnow hnewer, goto_moved _ _ _⟩
    · rename_i hstarted
      have hnewer : newer s call = false := by
        rw [newer, hstarted, Option.any_none]
      exact ⟨_, _, .again hpoint hwake hnow hnewer, goto_moved _ _ _⟩
  · rename_i hnow
    exact ⟨_, _, .late hpoint hwake (not_lt.mp hnow), goto_moved _ _ _⟩

/-- **The steps of a thread.** -/
theorem advance_moves (h : s.advance c call = some t) :
    ∃ point sent, Moves s c call point sent ∧ Moved s t c point sent := by
  unfold System.advance at h
  split at h
  · rename_i hpoint
    cases h
    exact ⟨_, _, .height hpoint, publish_goto_moved _ _ _ _⟩
  · rename_i hpoint
    cases h
    exact ⟨_, _, .period hpoint, publish_goto_moved _ _ _ _⟩
  · rename_i wake hpoint
    obtain ⟨hwake, heq⟩ := Option.ite_none_right_eq_some.mp h
    cases heq
    have hmoved := publish_goto_moved s (.start c) c .spawned
    exact ⟨_, _, .start hpoint hwake, ⟨hmoved.bridge, hmoved.messages, hmoved.out, hmoved.heights,
      hmoved.periods, hmoved.starts, rfl, rfl, rfl, rfl⟩⟩
  · rename_i hpoint
    cases h
    exact ⟨_, _, .begins hpoint, goto_moved _ _ _⟩
  · rename_i wake deadline hpoint
    obtain ⟨hwake, heq⟩ := Option.ite_none_right_eq_some.mp h
    cases heq
    exact check_start_moves hpoint hwake
  · cases h

theorem Moved.call_eq {point : Point} {sent : List Command} (h : Moved s t c point sent)
    (hcall : s.web.calls[c]? = some call) :
    t.web.calls[c]? = some { call with point := point } := by
  rw [h.calls, List.getElem?_modify_eq, hcall]
  rfl

/-- All that a thread publishes. -/
theorem Moves.sent {point : Point} {sent : List Command} (h : Moves s c call point sent)
    {command : Command} (hc : command ∈ sent) :
    command = .height call.height ∨ command = .period call.period ∨ command = .start c ∨
      command = .stop (some c) := by
  cases h with
  | height _ => exact .inl (List.mem_singleton.mp hc)
  | period _ => exact .inr (.inl (List.mem_singleton.mp hc))
  | start _ _ => exact .inr (.inr (.inl (List.mem_singleton.mp hc)))
  | decides _ _ _ _ _ =>
      split at hc
      · exact .inr (.inr (.inr (List.mem_singleton.mp hc)))
      · cases hc
  | begins _ | again _ _ _ _ | late _ _ _ => cases hc

end Threads

/-! ## Doubles everywhere -/

/-- The values of a call are doubles. -/
def Call.Doubles (call : Call) : Prop :=
  nearest call.height = call.height ∧ nearest call.period = call.period

/-- Every number under way is a double, and the message count is ahead. -/
structure Sane (s : System) : Prop where
  ready : Ready s.bridge
  heights : ∀ q ∈ s.heights, nearest q = q
  periods : ∀ q ∈ s.periods, nearest q = q
  calls : ∀ call ∈ s.web.calls, call.Doubles
  counted : ∀ r, s.web.started_with = some r → r.1 ≤ s.web.message_count

theorem init_sane {s : System} (h : SystemInit s) : Sane s := by
  obtain ⟨hbridge, hweb, hheights, hperiods, -⟩ := h
  refine ⟨init_ready hbridge, ?_, ?_, ?_, ?_⟩
  · rw [hheights]
    exact nofun
  · rw [hperiods]
    exact nofun
  · rw [hweb]
    exact nofun
  · rw [hweb]
    exact nofun

section Sane

variable {s t : System}

/-- A delivery is sane if what is delivered is. -/
theorem Sane.deliver (h : Sane s) {e : Event} (he : Typed e) : Sane (s.deliver e) := by
  obtain ⟨hweb, hheights, hperiods, -⟩ := deliver_keeps s e
  refine ⟨deliver_ready h.ready he, ?_, ?_, ?_, ?_⟩
  · rw [hheights]
    exact h.heights
  · rw [hperiods]
    exact h.periods
  · rw [hweb]
    exact h.calls
  · rw [hweb]
    exact h.counted

theorem typed_height {q : ℚ} (h : nearest q = q) : Typed (.height (some q)) := by
  rintro q' (heq | heq)
  · cases heq
    exact h
  · cases heq

theorem typed_period {q : ℚ} (h : nearest q = q) : Typed (.period (some q)) := by
  rintro q' (heq | heq)
  · cases heq
  · cases heq
    exact h

theorem is_double_nearest {q : ℚ} (h : is_double q = true) : nearest q = q := by
  rw [is_double, Bool.and_eq_true, decide_eq_true_eq] at h
  exact h.1

/-- The events of the bridge that are well typed. -/
theorem typed_of_well_typed {e : Event} (h : well_typed (.bridge e) = true) : Typed e := by
  rintro q (rfl | rfl)
  · exact is_double_nearest h
  · exact is_double_nearest h

theorem Sane.thread (h : Sane s) {c : ℕ} {call : Call} (hcall : s.web.calls[c]? = some call)
    (hs : s.advance c call = some t) : Sane t := by
  obtain ⟨point, sent, hmoves, hmoved⟩ := advance_moves hs
  obtain ⟨hheight, hperiod⟩ := h.calls call (List.mem_of_getElem? hcall)
  refine ⟨?_, ?_, ?_, ?_, ?_⟩
  · rw [hmoved.bridge]
    exact h.ready
  · rw [hmoved.heights]
    intro q hq
    rcases List.mem_append.mp hq with hq | hq
    · exact h.heights q hq
    · obtain ⟨command, hcommand, hsent⟩ := List.mem_filterMap.mp hq
      -- a thread publishes its own height, a double like every argument of `start`
      rcases hmoves.sent hcommand with rfl | rfl | rfl | rfl <;> cases hsent
      exact hheight
  · rw [hmoved.periods]
    intro q hq
    rcases List.mem_append.mp hq with hq | hq
    · exact h.periods q hq
    · obtain ⟨command, hcommand, hsent⟩ := List.mem_filterMap.mp hq
      rcases hmoves.sent hcommand with rfl | rfl | rfl | rfl <;> cases hsent
      exact hperiod
  · rw [hmoved.calls]
    intro call' hcall'
    obtain ⟨n, hn⟩ := List.mem_iff_getElem?.mp hcall'
    rw [List.getElem?_modify] at hn
    obtain ⟨old, hold, heq⟩ := Option.map_eq_some_iff.mp hn
    have hdoubles := h.calls old (List.mem_of_getElem? hold)
    rw [← heq]
    split
    · exact hdoubles
    · exact hdoubles
  · rw [hmoved.started_with, hmoved.message_count]
    exact h.counted

theorem on_message_counted (w : WebNode) (data : String)
    (h : ∀ r, w.started_with = some r → r.1 ≤ w.message_count) :
    ∀ r, (w.on_message data).started_with = some r → r.1 ≤ (w.on_message data).message_count := by
  unfold WebNode.on_message
  split
  · exact fun r hr => (h r hr).trans (Nat.le_succ _)
  · split
    · rintro r hr
      cases hr
      exact le_rfl
    · exact fun r hr => (h r hr).trans (Nat.le_succ _)

theorem on_message_calls (w : WebNode) (data : String) : (w.on_message data).calls = w.calls := by
  unfold WebNode.on_message
  split
  · rfl
  · split
    · rfl
    · rfl

/-- A request adds a call or none. -/
theorem post_start_cases (w : WebNode) (height period : Double) :
    (∃ h p, height = .fin h ∧ period = .fin p ∧ 0 < h ∧ 0 < p ∧ w.post_start height period =
        { w with calls := w.calls ++ [⟨h, p, w.message_count, .publish_height⟩] }) ∨
      ∃ text, w.post_start height period = w.reply false text := by
  unfold WebNode.post_start
  split
  · rename_i h p
    split
    · rename_i hpos
      unfold WebNode.start
      split
      · exact .inr ⟨_, rfl⟩
      · split
        · exact .inr ⟨_, rfl⟩
        · exact .inl ⟨h, p, rfl, rfl, hpos.1, hpos.2, rfl⟩
    · exact .inr ⟨_, rfl⟩
  · exact .inr ⟨_, rfl⟩

theorem Sane.post_start (h : Sane s) {height period : Double}
    (ht : well_typed (.post_start height period) = true) :
    Sane { s with web := s.web.post_start height period } := by
  rcases post_start_cases s.web height period with ⟨a, b, rfl, rfl, -, -, heq⟩ | ⟨text, heq⟩
  · rw [heq]
    refine ⟨h.ready, h.heights, h.periods, ?_, h.counted⟩
    intro call hcall
    rcases List.mem_append.mp hcall with hcall | hcall
    · exact h.calls call hcall
    · rw [List.mem_singleton.mp hcall]
      have ht : is_double a = true ∧ is_double b = true := Bool.and_eq_true_iff.mp ht
      exact ⟨is_double_nearest ht.1, is_double_nearest ht.2⟩
  · rw [heq]
    exact ⟨h.ready, h.heights, h.periods, h.calls, h.counted⟩

theorem step_sane {e : SystemEvent} (h : Sane s) (hs : system_step s e = some t) : Sane t := by
  obtain ⟨htyped, hs⟩ := system_step_eq_some.mp hs
  cases e with
  | bridge e =>
      obtain ⟨b, hb, rfl⟩ := Option.map_eq_some_iff.mp hs
      exact ⟨step_ready h.ready (typed_of_well_typed htyped) hb, h.heights, h.periods, h.calls,
        h.counted⟩
  | deliver_height =>
      obtain ⟨x, hx, rfl⟩ := Option.map_eq_some_iff.mp hs
      have hx := h.heights x (List.mem_of_mem_head? hx)
      apply Sane.deliver _ (typed_height hx)
      exact ⟨h.ready, fun q hq => h.heights q (List.mem_of_mem_tail hq), h.periods, h.calls,
        h.counted⟩
  | deliver_period =>
      obtain ⟨x, hx, rfl⟩ := Option.map_eq_some_iff.mp hs
      have hx := h.periods x (List.mem_of_mem_head? hx)
      apply Sane.deliver _ (typed_period hx)
      exact ⟨h.ready, h.heights, fun q hq => h.periods q (List.mem_of_mem_tail hq), h.calls,
        h.counted⟩
  | deliver_start | deliver_stop =>
      obtain ⟨_, -, rfl⟩ := Option.map_eq_some_iff.mp hs
      -- a start or a stop carries no number
      apply Sane.deliver
      · exact ⟨h.ready, h.heights, h.periods, h.calls, h.counted⟩
      · rintro q (hq | hq) <;> cases hq
  | drop_height i =>
      obtain ⟨q, hq, rfl⟩ := Option.map_eq_some_iff.mp hs
      cases of_overwritten hq
      exact ⟨h.ready, fun x hx => h.heights x (List.mem_of_mem_eraseIdx hx), h.periods, h.calls,
        h.counted⟩
  | drop_period i =>
      obtain ⟨q, hq, rfl⟩ := Option.map_eq_some_iff.mp hs
      cases of_overwritten hq
      exact ⟨h.ready, h.heights, fun x hx => h.periods x (List.mem_of_mem_eraseIdx hx), h.calls,
        h.counted⟩
  | drop_start i | drop_stop i | drop_state i | drop_message i =>
      obtain ⟨q, -, rfl⟩ := Option.map_eq_some_iff.mp hs
      exact ⟨h.ready, h.heights, h.periods, h.calls, h.counted⟩
  | on_state =>
      obtain ⟨-, hs⟩ := by_web_eq_some.mp hs
      obtain ⟨data, -, rfl⟩ := Option.map_eq_some_iff.mp hs
      exact ⟨h.ready, h.heights, h.periods, h.calls, h.counted⟩
  | on_message =>
      obtain ⟨-, hs⟩ := by_web_eq_some.mp hs
      obtain ⟨data, -, rfl⟩ := Option.map_eq_some_iff.mp hs
      refine ⟨h.ready, h.heights, h.periods, ?_, on_message_counted _ _ h.counted⟩
      rw [on_message_calls]
      exact h.calls
  | post_start height period =>
      obtain ⟨-, heq⟩ := by_web_eq_some.mp hs
      cases heq
      exact h.post_start htyped
  | post_stop | exit =>
      obtain ⟨-, heq⟩ := by_web_eq_some.mp hs
      cases heq
      exact ⟨h.ready, h.heights, h.periods, h.calls, h.counted⟩
  | check_idle =>
      obtain ⟨-, heq⟩ := by_web_eq_some.mp hs
      cases heq
      unfold WebNode.check_idle
      split
      · exact h
      · exact ⟨h.ready, h.heights, h.periods, h.calls, h.counted⟩
  | thread c =>
      obtain ⟨-, hs⟩ := by_web_eq_some.mp hs
      obtain ⟨call, hcall, hs⟩ := Option.bind_eq_some_iff.mp hs
      exact h.thread hcall hs

end Sane

/-! ## What a step does to one call -/

/-- Nothing happens to the call `c` and to what its check knows. -/
structure Quiet (c : ℕ) (s t : System) : Prop where
  call : t.web.calls[c]? = s.web.calls[c]?
  running : t.web.running = s.web.running
  message_count : t.web.message_count = s.web.message_count
  started_with : t.web.started_with = s.web.started_with
  messages : ∀ data ∈ s.messages, data ∈ t.messages
  starts : t.starts.count c ≤ s.starts.count c
  stopped : Command.stop (some c) ∈ t.out ↔ Command.stop (some c) ∈ s.out

/-- What a step can do to it. -/
inductive Concerns (c : ℕ) (s : System) : SystemEvent → System → Prop where
  | drop_message {i : ℕ} :
      Concerns c s (.drop_message i) { s with messages := s.messages.eraseIdx i }
  | on_message {data : String} : s.messages.head? = some data →
      Concerns c s .on_message
        { s with web := s.web.on_message data, messages := s.messages.tail }
  | called {height period : Double} {h p : ℚ} : s.web.running = true →
      c = s.web.calls.length →
      Concerns c s (.post_start height period)
        { s with web := { s.web with
            calls := s.web.calls ++ [⟨h, p, s.web.message_count, .publish_height⟩] } }
  | thread {t : System} {call : Call} {point : Point} {sent : List Command} :
      s.web.calls[c]? = some call → Moves s c call point sent → Moved s t c point sent →
      Concerns c s (.thread c) t
  | exit : Concerns c s .exit { s with web := { s.web with running := false } }

section Quiet

variable {c : ℕ} {s t : System}

theorem Quiet.deliver {u : System} (h : Quiet c s u) (e : Event) : Quiet c s (u.deliver e) := by
  obtain ⟨hweb, -, -, hstarts, hout⟩ := deliver_keeps u e
  refine ⟨?_, ?_, ?_, ?_, ?_, ?_, ?_⟩
  · rw [hweb, h.call]
  · rw [hweb, h.running]
  · rw [hweb, h.message_count]
  · rw [hweb, h.started_with]
  · exact fun data hdata => deliver_messages u e (h.messages data hdata)
  · rw [hstarts]
    exact h.starts
  · rw [hout]
    exact h.stopped

/-- The thread of another call. -/
theorem quiet_thread {n : ℕ} (hn : n ≠ c) {call : Call} (hs : s.advance n call = some t) :
    Quiet c s t := by
  obtain ⟨point, sent, hmoves, hmoved⟩ := advance_moves hs
  have hstart : (sent.filterMap sent_start).count c = 0 := by
    apply List.count_eq_zero.mpr
    intro hmem
    obtain ⟨command, hcommand, hsent⟩ := List.mem_filterMap.mp hmem
    rcases hmoves.sent hcommand with rfl | rfl | rfl | rfl <;> cases hsent
    exact hn rfl
  have hstop : Command.stop (some c) ∉ sent := by
    intro hmem
    rcases hmoves.sent hmem with heq | heq | heq | heq <;> cases heq
    exact hn rfl
  refine ⟨?_, hmoved.running, hmoved.message_count, hmoved.started_with, ?_, ?_, ?_⟩
  · rw [hmoved.calls, List.getElem?_modify_ne _ _ hn]
  · rw [hmoved.messages]
    exact fun _ hdata => hdata
  · rw [hmoved.starts, List.count_append, hstart]
    exact le_rfl
  · rw [hmoved.out, List.mem_append]
    exact or_iff_left hstop

theorem Quiet.refl (c : ℕ) (s : System) : Quiet c s s :=
  ⟨rfl, rfl, rfl, rfl, fun _ h => h, le_rfl, Iff.rfl⟩

/-- A request adds the call `c`, or does nothing to it. -/
theorem post_start_concerns {height period : Double} (hrunning : s.web.running = true) :
    Quiet c s { s with web := s.web.post_start height period } ∨
      Concerns c s (.post_start height period)
        { s with web := s.web.post_start height period } := by
  rcases post_start_cases s.web height period with ⟨a, b, -, -, -, -, heq⟩ | ⟨text, heq⟩
  · rw [heq]
    by_cases hc : c = s.web.calls.length
    · exact .inr (.called hrunning hc)
    · left
      refine ⟨?_, rfl, rfl, rfl, fun _ hdata => hdata, le_rfl, Iff.rfl⟩
      dsimp only
      rcases lt_or_gt_of_ne hc with hlt | hgt
      · exact List.getElem?_append_left hlt
      · rw [List.getElem?_eq_none hgt.le, List.getElem?_eq_none]
        rw [List.length_append, List.length_singleton]
        exact hgt
  · rw [heq]
    exact .inl ⟨rfl, rfl, rfl, rfl, fun _ hdata => hdata, le_rfl, Iff.rfl⟩

/-- **Every step of the system**, as the call `c` sees it. -/
theorem step_cases {e : SystemEvent} (hs : system_step s e = some t) :
    (Quiet c s t ∧ e ≠ .thread c) ∨ Concerns c s e t := by
  obtain ⟨-, hs⟩ := system_step_eq_some.mp hs
  cases e with
  | bridge e =>
      obtain ⟨b, -, rfl⟩ := Option.map_eq_some_iff.mp hs
      left
      exact ⟨⟨rfl, rfl, rfl, rfl, fun _ hdata => List.mem_append_left _ hdata, le_rfl, Iff.rfl⟩,
        nofun⟩
  | deliver_height | deliver_period | deliver_stop =>
      obtain ⟨_, -, rfl⟩ := Option.map_eq_some_iff.mp hs
      refine .inl ⟨Quiet.deliver ?_ _, nofun⟩
      exact ⟨rfl, rfl, rfl, rfl, fun _ h => h, le_rfl, Iff.rfl⟩
  | deliver_start =>
      obtain ⟨_, -, rfl⟩ := Option.map_eq_some_iff.mp hs
      refine .inl ⟨Quiet.deliver ?_ _, nofun⟩
      exact ⟨rfl, rfl, rfl, rfl, fun _ h => h, (List.tail_sublist _).count_le _, Iff.rfl⟩
  | drop_start i =>
      obtain ⟨q, hq, rfl⟩ := Option.map_eq_some_iff.mp hs
      cases of_overwritten hq
      left
      exact ⟨⟨rfl, rfl, rfl, rfl, fun _ h => h, (List.eraseIdx_sublist _ _).count_le _, Iff.rfl⟩,
        nofun⟩
  | drop_height i | drop_period i | drop_stop i | drop_state i =>
      obtain ⟨q, -, rfl⟩ := Option.map_eq_some_iff.mp hs
      exact .inl ⟨⟨rfl, rfl, rfl, rfl, fun _ h => h, le_rfl, Iff.rfl⟩, nofun⟩
  | drop_message i =>
      obtain ⟨q, hq, rfl⟩ := Option.map_eq_some_iff.mp hs
      cases of_overwritten hq
      exact .inr .drop_message
  | on_state =>
      obtain ⟨-, hs⟩ := by_web_eq_some.mp hs
      obtain ⟨data, -, rfl⟩ := Option.map_eq_some_iff.mp hs
      exact .inl ⟨⟨rfl, rfl, rfl, rfl, fun _ h => h, le_rfl, Iff.rfl⟩, nofun⟩
  | on_message =>
      obtain ⟨-, hs⟩ := by_web_eq_some.mp hs
      obtain ⟨data, hdata, rfl⟩ := Option.map_eq_some_iff.mp hs
      exact .inr (.on_message hdata)
  | post_start height period =>
      obtain ⟨hrunning, heq⟩ := by_web_eq_some.mp hs
      cases heq
      exact (post_start_concerns hrunning).imp_left fun hquiet => ⟨hquiet, nofun⟩
  | post_stop =>
      obtain ⟨-, heq⟩ := by_web_eq_some.mp hs
      cases heq
      refine .inl ⟨⟨rfl, rfl, rfl, rfl, fun _ h => h, le_rfl, ?_⟩, nofun⟩
      -- a stop from the page is not the check's
      show Command.stop (some c) ∈ s.out ++ [.stop none] ↔ _
      rw [List.mem_append]
      exact or_iff_left (by simp)
  | check_idle =>
      obtain ⟨-, heq⟩ := by_web_eq_some.mp hs
      cases heq
      unfold WebNode.check_idle
      split
      · exact .inl ⟨Quiet.refl c s, nofun⟩
      · exact .inl ⟨⟨rfl, rfl, rfl, rfl, fun _ h => h, le_rfl, Iff.rfl⟩, nofun⟩
  | thread n =>
      obtain ⟨-, hs⟩ := by_web_eq_some.mp hs
      obtain ⟨call, hcall, hs⟩ := Option.bind_eq_some_iff.mp hs
      by_cases hn : n = c
      · cases hn
        obtain ⟨point, sent, hmoves, hmoved⟩ := advance_moves hs
        exact .inr (.thread hcall hmoves hmoved)
      · refine .inl ⟨quiet_thread hn hs, ?_⟩
        rintro ⟨⟩
        exact hn rfl
  | exit =>
      obtain ⟨-, heq⟩ := by_web_eq_some.mp hs
      cases heq
      exact .inr .exit

theorem Quiet.newer_eq (h : Quiet c s t) (call : Call) : newer t call = newer s call := by
  rw [newer, newer, h.started_with]

end Quiet

/-! ## The start of a call -/

def Point.unsent : Point → Bool
  | .publish_height | .publish_period | .sleep _ => true
  | .spawned | .poll _ _ | .ended => false

/-- The start of the call has not been published. -/
def unsent (s : System) (c : ℕ) : Bool := s.web.calls[c]?.all fun call => call.point.unsent

/-- The start of a call is published once and answered at most once. -/
structure Token (c : ℕ) (s : System) (answer : Option (ℚ × ℚ)) : Prop where
  early : unsent s c = true → s.starts.count c = 0 ∧ answer = none
  once : s.starts.count c ≤ 1
  answered : answer ≠ none → s.starts.count c = 0

section Token

variable {c : ℕ} {s t : System} {answer : Option (ℚ × ℚ)}

/-- The bridge answers the call `c` only when its start arrives. -/
theorem responds_eq {e : SystemEvent} (h : ¬ (e = .deliver_start ∧ answers c s = true)) :
    responds c answer s e = answer := by
  unfold responds
  split
  · exact if_neg fun ha => h ⟨rfl, ha⟩
  · rfl

theorem responds_answers (h : answers c s = true) :
    responds c answer s .deliver_start = s.bridge.wave := if_pos h

theorem unsent_eq {call : Call} (h : s.web.calls[c]? = some call) :
    unsent s c = call.point.unsent := by
  rw [unsent, h, Option.all_some]

theorem Token.of_le (h : Token c s answer) (hunsent : unsent t c = true → unsent s c = true)
    (hstarts : t.starts.count c ≤ s.starts.count c) : Token c t answer := by
  refine ⟨?_, hstarts.trans h.once, ?_⟩
  · intro hearly
    obtain ⟨hcount, hanswer⟩ := h.early (hunsent hearly)
    exact ⟨by omega, hanswer⟩
  · intro hanswer
    have hcount := h.answered hanswer
    omega

/-- The start that is delivered was the only one. -/
theorem Token.deliver (h : Token c s answer) (ha : answers c s = true)
    (hs : act s .deliver_start = some t) (answer' : Option (ℚ × ℚ)) :
    answer = none ∧ unsent s c = false ∧ Token c t answer' := by
  simp only [answers, Bool.and_eq_true, decide_eq_true_eq] at ha
  have hhead := ha.1.1
  obtain ⟨starts, hstarts⟩ : ∃ starts, s.starts = c :: starts :=
    ⟨s.starts.tail, List.eq_cons_of_mem_head? hhead⟩
  have hcount : s.starts.count c = starts.count c + 1 := by
    rw [hstarts, List.count_cons_self]
  have hanswer : answer = none := by
    by_contra hne
    have := h.answered hne
    omega
  have hsent : unsent s c = false := by
    rw [← Bool.not_eq_true]
    intro hunsent
    have := (h.early hunsent).1
    omega
  obtain ⟨_, -, rfl⟩ := Option.map_eq_some_iff.mp hs
  obtain ⟨hweb, -, -, htail, -⟩ :=
    deliver_keeps { s with starts := s.starts.tail } (.start_topic true)
  -- no second start of this call is behind it
  have hzero : (System.deliver { s with starts := s.starts.tail } (.start_topic true)).starts.count
      c = 0 := by
    rw [htail]
    show s.starts.tail.count c = 0
    rw [hstarts, List.tail_cons]
    have := h.once
    omega
  refine ⟨hanswer, hsent, ?_, by omega, fun _ => hzero⟩
  intro hunsent
  rw [unsent, hweb] at hunsent
  rw [unsent] at hsent
  rw [hsent] at hunsent
  cases hunsent

theorem Token.thread (h : Token c s answer) {call : Call} (hcall : s.web.calls[c]? = some call)
    {point : Point} {sent : List Command} (hmoves : Moves s c call point sent)
    (hmoved : Moved s t c point sent) : Token c t answer := by
  have hcall' := hmoved.call_eq hcall
  have hstarts := hmoved.starts
  -- only one move publishes the start, and it was not published before
  cases hmoves with
  | start hpoint hwake =>
      obtain ⟨hcount, hanswer⟩ := h.early (by rw [unsent_eq hcall, hpoint]; rfl)
      have hone : t.starts.count c = 1 := by
        rw [hstarts, List.count_append, hcount, zero_add]
        exact List.count_singleton_self
      refine ⟨?_, hone.le, fun hne => absurd hanswer hne⟩
      intro hearly
      rw [unsent_eq hcall'] at hearly
      cases hearly
  | height hpoint | period hpoint =>
      apply h.of_le
      · intro _
        rw [unsent_eq hcall, hpoint]
        rfl
      · rw [hstarts]
        exact (congrArg _ (List.append_nil _)).le
  | begins hpoint | again hpoint _ _ _ | late hpoint _ _ =>
      apply h.of_le
      · intro hearly
        rw [unsent_eq hcall'] at hearly
        cases hearly
      · rw [hstarts]
        exact (congrArg _ (List.append_nil _)).le
  | decides hpoint _ _ _ _ =>
      apply h.of_le
      · intro hearly
        rw [unsent_eq hcall'] at hearly
        cases hearly
      · rw [hstarts]
        split <;> exact (congrArg _ (List.append_nil _)).le

theorem step_token {e : SystemEvent} (h : Token c s answer) (hs : system_step s e = some t) :
    Token c t (responds c answer s e) := by
  rcases step_cases (c := c) hs with ⟨hquiet, -⟩ | hconcerns
  · by_cases hanswers : e = .deliver_start ∧ answers c s = true
    · obtain ⟨rfl, ha⟩ := hanswers
      obtain ⟨-, hs⟩ := system_step_eq_some.mp hs
      exact (h.deliver ha hs _).2.2
    · rw [responds_eq hanswers]
      refine h.of_le ?_ hquiet.starts
      rw [unsent, hquiet.call]
      exact fun hu => hu
  · rw [responds_eq (by rintro ⟨rfl, -⟩; cases hconcerns)]
    cases hconcerns with
    | drop_message => exact h.of_le (fun hu => hu) le_rfl
    | exit => exact h.of_le (fun hu => hu) le_rfl
    | on_message _ =>
        refine h.of_le ?_ le_rfl
        rw [unsent, on_message_calls]
        exact fun hu => hu
    | called _ hc =>
        refine h.of_le ?_ le_rfl
        intro _
        rw [unsent, List.getElem?_eq_none hc.ge, Option.all_none]
    | thread hcall hmoves hmoved => exact h.thread hcall hmoves hmoved

end Token

/-! ## The check ends -/

/-- How many steps a thread can still take. -/
def Point.left : Point → ℕ
  | .publish_height => 45
  | .publish_period => 44
  | .sleep _ => 43
  | .spawned => 42
  | .poll wake deadline => (deadline - wake + (CHECK_PERIOD_S - 1)) / CHECK_PERIOD_S + 1
  | .ended => 0

def left (s : System) (c : ℕ) : ℕ := (s.web.calls[c]?.map fun call => call.point.left).getD 45

section Ends

variable {c : ℕ} {s t : System}

theorem left_eq {call : Call} (h : s.web.calls[c]? = some call) : left s c = call.point.left := by
  rw [left, h, Option.map_some, Option.getD_some]

theorem Moves.left {call : Call} {point : Point} {sent : List Command}
    (h : Moves s c call point sent) : point.left + 1 ≤ call.point.left := by
  cases h with
  | height hpoint | period hpoint | start hpoint _ =>
      rw [hpoint]
      rfl
  | begins hpoint =>
      rw [hpoint]
      simp only [Point.left, START_CHECK_S, CHECK_PERIOD_S]
      omega
  | again hpoint hwake hnow _ =>
      rw [hpoint]
      simp only [Point.left, CHECK_PERIOD_S]
      omega
  | late hpoint _ _ | decides hpoint _ _ _ _ =>
      rw [hpoint]
      exact Nat.succ_le_succ (Nat.zero_le _)

theorem step_left {e : SystemEvent} (hs : system_step s e = some t) :
    left t c + [e].count (.thread c) ≤ left s c := by
  have same : e ≠ .thread c → left t c = left s c →
      left t c + [e].count (.thread c) ≤ left s c := by
    intro hne hleft
    rw [List.count_singleton, if_neg (by simpa using hne), hleft]
    exact le_rfl
  rcases step_cases (c := c) hs with ⟨hquiet, hne⟩ | hconcerns
  · apply same hne
    rw [left, left, hquiet.call]
  · cases hconcerns with
    | drop_message => exact same nofun rfl
    | exit => exact same nofun rfl
    | on_message _ =>
        apply same nofun
        rw [left, on_message_calls, left]
    | called _ hc =>
        -- a new call has all its steps before it
        apply same nofun
        rw [left, left, List.getElem?_eq_none hc.ge, hc, List.getElem?_concat_length]
        rfl
    | thread hcall hmoves hmoved =>
        rw [left_eq hcall, left_eq (hmoved.call_eq hcall), List.count_singleton_self]
        exact hmoves.left

theorem run_left {es : List SystemEvent} (hr : run system_step s es = some t) :
    es.count (.thread c) ≤ left s c := by
  induction es generalizing s with
  | nil => exact Nat.zero_le _
  | cons e es ih =>
      obtain ⟨u, hu, hr⟩ := run_cons_eq_some.mp hr
      have hstep := step_left (c := c) hu
      have hrest := ih hr
      rw [← List.singleton_append, List.count_append]
      omega

/-- No call ever has more steps before it than a new one. -/
theorem reach_left {C : System × Option (ℚ × ℚ) → SystemEvent → Prop} {x : System × Option (ℚ × ℚ)}
    (h : Reach (observe system_step (responds c)) C Begins x) : left x.1 c ≤ 45 := by
  apply h.invariant
  · rintro ⟨s, answer⟩ ⟨⟨-, hweb, -⟩, -⟩
    show left s c ≤ 45
    rw [left, hweb]
    exact le_rfl
  · rintro ⟨s, answer⟩ e ⟨t, answer'⟩ hleft - hs
    have hstep := step_left (c := c) (observe_eq_some.mp hs).1
    dsimp only at hleft hstep ⊢
    omega

/-- When a thread is due. -/
def Point.due : Point → ℕ
  | .sleep wake | .poll wake _ => wake
  | _ => 0

theorem advance_isSome {call : Call} (hpoint : call.point ≠ .ended)
    (hdue : call.point.due ≤ s.bridge.now) : ∃ t, s.advance c call = some t := by
  unfold System.advance
  split
  · exact ⟨_, rfl⟩
  · exact ⟨_, rfl⟩
  · rename_i wake heq
    rw [heq] at hdue
    exact ⟨_, if_pos hdue⟩
  · exact ⟨_, rfl⟩
  · rename_i wake deadline heq
    rw [heq] at hdue
    exact ⟨_, if_pos hdue⟩
  · rename_i heq
    exact absurd heq hpoint

/-- A thread that has not ended goes on when its time has come. -/
theorem thread_goes_on {call : Call} (hrunning : s.web.running = true)
    (hcall : s.web.calls[c]? = some call) (hpoint : call.point ≠ .ended) :
    ∃ ns t, run system_step s [.bridge (.clock ns), .thread c] = some t := by
  let u := s.hear { s.bridge with now := s.bridge.now + call.point.due }
  have hdue : call.point.due ≤ u.bridge.now := Nat.le_add_left _ _
  obtain ⟨t, ht⟩ := advance_isSome (s := u) (c := c) hpoint hdue
  refine ⟨call.point.due, t, run_cons_eq_some.mpr ⟨u, rfl, run_cons_eq_some.mpr ⟨t, ?_, rfl⟩⟩⟩
  apply system_step_eq_some.mpr
  refine ⟨rfl, by_web_eq_some.mpr ⟨hrunning, ?_⟩⟩
  exact Option.bind_eq_some_iff.mpr ⟨call, hcall, ht⟩

end Ends

end WavemakerWeb
