/-
The dead man's switch, from the pages to the bridge.

The server sends a heartbeat only while some page has acknowledged an update within the last half
second, and the bridge stops a wave at the first tick of its watch timer that finds no recent
heartbeat. The two are put together here: pages, server, heartbeats on their way, bridge. A
heartbeat may be lost, and arrives at most `delay` after the check that let it out; between two
ticks of the watch timer pass at most `period`. Then a wave that starts or runs has had an
acknowledgement, and not long ago (`wave_acknowledged`).

The steps of the bridge are those of `WavemakerBridge.lean` with two clocks made one. `tick` is the
time of the last tick, or of the activation that set the timer up.
-/
import Wavemakers.BridgeGoals
import Wavemakers.EventStream

set_option autoImplicit false

namespace WavemakerBridge

/-! ## What the bridge knows of time -/

structure Pulse where
  now : ℕ
  seen : Bool
  last : ℕ
  timeout : ℚ

def pulse (s : Bridge) : Pulse where
  now := s.now
  seen := s.heartbeat_seen_
  last := s.last_heartbeat_
  timeout := s.heartbeat_timeout_

section Pulse

variable (s : Bridge)

@[simp] theorem pulse_publish_state (state : State) (message : String) :
    pulse (s.publish_state state message) = pulse s := by
  unfold Bridge.publish_state
  split <;> rfl

@[simp] theorem pulse_report (message : String) : pulse (s.report message) = pulse s :=
  pulse_publish_state s _ _

@[simp] theorem pulse_done (d : Option ℕ) (ok : Bool) (message : String) :
    pulse (s.done d ok message) = pulse s := by
  cases d with
  | none => rfl
  | some id => rfl

@[simp] theorem pulse_finish_stop (ok : Bool) (message : String) :
    pulse (s.finish_stop ok message) = pulse s := by
  rw [Bridge.finish_stop, pulse_done]
  rfl

@[simp] theorem pulse_abandon_goal (reason : String) : pulse (s.abandon_goal reason) = pulse s := by
  rw [Bridge.abandon_goal, pulse_finish_stop, pulse_publish_state]
  rfl

@[simp] theorem pulse_begin_stop (reason : String) (d : Option ℕ) :
    pulse (s.begin_stop reason d) = pulse s := by
  unfold Bridge.begin_stop
  generalize ht : (if s.goal_requested_ = true then { s with cancel_on_accept_ := true } else s) = t
  have hpulse : pulse t = pulse s := by
    rw [← ht]
    split <;> rfl
  rw [← hpulse]
  split
  · exact pulse_publish_state t .Stopping reason
  · rfl

@[simp] theorem pulse_stop (reason : String) (d : Option ℕ) :
    pulse (s.stop reason d) = pulse s := by
  unfold Bridge.stop
  dsimp only
  split
  · split
    · rw [pulse_abandon_goal, pulse_begin_stop]
    · rw [pulse_done, pulse_report, pulse_begin_stop]
  · exact pulse_begin_stop s reason d

@[simp] theorem pulse_start : pulse s.start = pulse s := by
  unfold Bridge.start
  split
  · exact pulse_report s _
  · split
    · exact pulse_report s _
    · split
      · exact pulse_report s _
      · split
        · exact pulse_report s _
        · exact pulse_publish_state _ _ _

@[simp] theorem pulse_watch : pulse s.watch = pulse s := by
  unfold Bridge.watch
  generalize ht : (if (s.state_ = .Starting ∨ s.state_ = .Running) ∧ s.heartbeat_alive = false then
    s.stop "Stopped: client heartbeat (LabVIEW or web page) lost" none else s) = t
  have hpulse : pulse t = pulse s := by
    rw [← ht]
    split
    · exact pulse_stop s _ _
    · rfl
  rw [← hpulse]
  dsimp only
  split
  · exact pulse_publish_state _ _ _
  · rfl

@[simp] theorem pulse_goal_response_callback (n : ℕ) (accepted : Bool) :
    pulse (s.goal_response_callback n accepted) = pulse s := by
  unfold Bridge.goal_response_callback
  split
  · split <;> rfl
  · cases accepted with
    | true =>
        simp only [if_true, Bridge.on_goal_response]
        split
        · rfl
        · rw [pulse_publish_state]
          rfl
    | false =>
        simp only [if_false, Bool.false_eq_true, Bridge.on_goal_response]
        rw [pulse_finish_stop, pulse_publish_state]
        rfl

@[simp] theorem pulse_result_callback (n : ℕ) (code : ResultCode) (text : String) :
    pulse (s.result_callback n code text) = pulse s := by
  unfold Bridge.result_callback
  split
  · rw [Bridge.on_goal_result, pulse_finish_stop, pulse_publish_state]
    rfl
  · rfl

@[simp] theorem pulse_cancel_callback (c : CancelCall) (ok empty : Bool) :
    pulse (s.cancel_callback c ok empty) = pulse s := by
  unfold Bridge.cancel_callback
  split
  · rfl
  · exact pulse_done s _ _ _

@[simp] theorem pulse_cleanup_helper (reason : String) :
    pulse (s.cleanup_helper reason) = pulse s := by
  rw [Bridge.cleanup_helper, pulse_publish_state]
  have hstop : pulse ((s.stop reason none).finish_stop false "Bridge is no longer active") =
      pulse s := by
    rw [pulse_finish_stop, pulse_stop]
  exact hstop

end Pulse

/-- What an event does to it. -/
def Pulse.after (k : Pulse) : Event → Pulse
  | .clock ns => { k with now := k.now + ns }
  | .heartbeat => { k with seen := true, last := k.now }
  | .activate timeout => { k with timeout := timeout }
  | _ => k

theorem pulse_step {s t : Bridge} {e : Event} (h : step s e = some t) :
    pulse t = (pulse s).after e := by
  -- the lifecycle library sets the primary state after the callback
  have primary : ∀ (u : Bridge) (p : Primary), pulse { u with primary := p } = pulse u :=
    fun _ _ => rfl
  cases e with
  | cancel_reply i ok empty =>
      simp only [step] at h
      split at h
      · rename_i c _
        cases h
        exact pulse_cancel_callback _ c ok empty
      · cases h
  | goal_response n accepted =>
      obtain ⟨-, heq⟩ := Option.ite_none_right_eq_some.mp h
      cases heq
      exact pulse_goal_response_callback _ n accepted
  | goal_result n code text =>
      obtain ⟨-, heq⟩ := Option.ite_none_right_eq_some.mp h
      cases heq
      exact pulse_result_callback _ n code text
  | stop_topic data | start_topic data =>
      obtain ⟨-, heq⟩ := Option.ite_none_right_eq_some.mp h
      cases heq
      cases data with
      | true => simp [Pulse.after]
      | false => rfl
  | configure =>
      obtain ⟨-, heq⟩ := Option.ite_none_right_eq_some.mp h
      cases heq
      rw [primary, Bridge.on_configure, pulse_publish_state]
      rfl
  | activate timeout =>
      obtain ⟨-, heq⟩ := Option.ite_none_right_eq_some.mp h
      cases heq
      rw [primary, Bridge.on_activate, pulse_publish_state]
      rfl
  | deactivate | shutdown | error =>
      obtain ⟨-, heq⟩ := Option.ite_none_right_eq_some.mp h
      cases heq
      rw [primary, pulse_cleanup_helper]
      rfl
  | watch | stop_service id | pre_shutdown | stop_timeout =>
      obtain ⟨-, heq⟩ := Option.ite_none_right_eq_some.mp h
      cases heq
      simp [Pulse.after]
  | cleanup | heartbeat | height x | period x =>
      obtain ⟨-, heq⟩ := Option.ite_none_right_eq_some.mp h
      cases heq
      rfl
  | server ready | clock ns =>
      cases h
      rfl

/-! ## A wave is ours -/

namespace View

/-- A wave is starting or running. -/
def waving (c : View) : Prop := c.state = .Starting ∨ c.state = .Running

/-- A wave has a goal, and a goal that is due and not stopped is a wave starting. -/
structure Waves (c : View) : Prop where
  owned : c.waving → c.ours = true
  flagged : c.requested = true → c.cancel_on_accept = true ∨ c.state = .Starting

variable {c c' : View}

theorem not_waving_idle (c : View) : ¬ c.idle.waving := by
  rcases c.idle_state with ⟨h, -⟩ | ⟨h, -⟩ <;> simp [waving, h]

theorem Waves.settled (hr : c.requested = true → c.cancel_on_accept = true) :
    Waves c.idle.finish ∧ ¬ c.idle.finish.waving :=
  ⟨⟨fun h => absurd h (not_waving_idle c), fun h => .inl (hr h)⟩, not_waving_idle c⟩

/-- After a stop there is no wave. -/
theorem Waves.stop (h : Waves c) (d : Option ℕ) (available : Bool) :
    Waves (c.stop d available) ∧ ¬ (c.stop d available).waving := by
  unfold View.stop
  split
  · split
    · refine ⟨⟨?_, ?_⟩, ?_⟩
      · simp [waving, begin_stop]
      · intro hr
        have hr : c.requested = true := hr
        simp [begin_stop, hr]
      · simp [waving, begin_stop]
    · exact Waves.settled fun hr => absurd hr Bool.false_ne_true
  · rename_i ho
    have hno : ¬ c.waving := fun hw => ho (h.owned hw)
    split
    · exact ⟨⟨h.owned, h.flagged⟩, hno⟩
    · exact ⟨⟨h.owned, h.flagged⟩, hno⟩

/-- **Where a wave comes from**: a start, or a wave there was. -/
theorem Waves.does {a : Act} (h : Waves c) (hs : Steady c) (ht : Tracks c) (hx : Does c a c') :
    Waves c' ∧ (c'.waving → a = .start ∨ c.waving ∧ ∀ d available, a ≠ .stop d available) := by
  cases hx with
  | skip => exact ⟨h, fun hw => .inr ⟨hw, by simp⟩⟩
  | start _ _ => exact ⟨⟨fun _ => rfl, fun _ => .inr rfl⟩, fun _ => .inl rfl⟩
  | @stop d available _ =>
      obtain ⟨hwaves, hno⟩ := h.stop d available
      exact ⟨hwaves, fun hw => absurd hw hno⟩
  | @leave available =>
      refine ⟨⟨?_, ?_⟩, ?_⟩
      · simp [waving, View.leave]
      · exact fun hr => .inl (stop_flags (c := c) (d := none) hr)
      · simp [waving, View.leave]
  | @respond n accepted hn =>
      have hpending : n = c.generation → c.requested = true := fun heq =>
        ht.pending (by rw [← heq]; exact hn)
      cases accepted with
      | true =>
          unfold View.respond View.accept
          rw [if_pos rfl]
          split
          · exact ⟨⟨h.owned, h.flagged⟩, fun hw => .inr ⟨hw, by simp⟩⟩
          · rename_i heq
            have hr := hpending (not_not.mp heq)
            split
            · refine ⟨⟨fun _ => by simp [ours], by simp⟩, fun hw => .inr ⟨hw, by simp⟩⟩
            · rename_i hc
              -- not flagged, so it is a wave starting
              refine ⟨⟨fun _ => by simp [ours], by simp⟩, fun _ => .inr ⟨.inl ?_, by simp⟩⟩
              exact (h.flagged hr).resolve_left hc
      | false =>
          unfold View.respond View.reject
          rw [if_neg (by simp)]
          split
          · exact ⟨⟨h.owned, h.flagged⟩, fun hw => .inr ⟨hw, by simp⟩⟩
          · obtain ⟨hwaves, hno⟩ := Waves.settled (c := { c with
              responses := c.responses.erase n, requested := false, cancel_on_accept := false })
              fun hr => absurd hr Bool.false_ne_true
            exact ⟨hwaves, fun hw => absurd hw hno⟩
  | @result n hn =>
      unfold View.result
      dsimp only
      split
      · rename_i heq
        have hr : c.requested = false := ht.resulted (by rw [← heq]; exact hn)
        obtain ⟨hwaves, hno⟩ := Waves.settled (c := { c with
          results := c.results.erase n, handle := none }) fun h => absurd h (by simp [hr])
        exact ⟨hwaves, fun hw => absurd hw hno⟩
      · exact ⟨⟨h.owned, h.flagged⟩, fun hw => .inr ⟨hw, by simp⟩⟩
  | @cancel_reply i call _ =>
      unfold View.cancel_reply
      dsimp only
      split <;> exact ⟨⟨h.owned, h.flagged⟩, fun hw => .inr ⟨hw, by simp⟩⟩
  | timeout _ =>
      obtain ⟨hwaves, hno⟩ := Waves.settled (c := c.forget)
        fun hr => absurd hr Bool.false_ne_true
      exact ⟨hwaves, fun hw => absurd hw hno⟩
  | configure ha =>
      refine ⟨⟨?_, fun hr => .inl (hs.stopped hr (.inr (hs.inactive ha)))⟩, ?_⟩
      · simp [waving]
      · simp [waving]
  | activate ha =>
      -- a goal left over from before was stopped
      refine ⟨⟨?_, fun hr => .inl (hs.stopped hr (.inr (hs.inactive ha)))⟩, ?_⟩
      · simp [waving]
      · simp [waving]
  | cleanup _ => exact ⟨⟨h.owned, h.flagged⟩, fun hw => .inr ⟨hw, by simp⟩⟩

/-- An active bridge is idle at first. -/
theorem activate_not_waving (hx : Does c .activate c') : ¬ c'.waving := by
  cases hx
  simp [waving]

end View

end WavemakerBridge

namespace WavemakerWeb

open Interleave WavemakerBridge

/-! ## Acknowledgements, checks and heartbeats -/

/-- At `time` a page was alive by the acknowledgements so far. -/
def Acked (s : PageServer) (time : ℕ) : Prop :=
  ∃ ack, s.last_ack = some ack ∧ time < ack + ACK_TIMEOUT_S

/-- Every heartbeat was let out by an acknowledgement. -/
structure Beats (s : PageServer) : Prop where
  past : ∀ ack, s.last_ack = some ack → ack ≤ s.now
  sent : ∀ time ∈ s.heartbeats, Acked s time
  checked : ∀ time, s.callback = some (.heartbeat time) → Acked s time

theorem Acked.later {s t : PageServer} {time : ℕ} (h : Acked s time)
    (hack : ∀ ack, s.last_ack = some ack → ∃ ack', t.last_ack = some ack' ∧ ack ≤ ack') :
    Acked t time := by
  obtain ⟨ack, hs, hlt⟩ := h
  obtain ⟨ack', ht, hle⟩ := hack ack hs
  exact ⟨ack', ht, by omega⟩

/-- The last acknowledgement never goes back. -/
theorem moves_ack {s t : PageServer} {e : WebEvent} (hm : EventStream.Moves s e t)
    (hb : Beats s) : ∀ ack, s.last_ack = some ack → ∃ ack', t.last_ack = some ack' ∧ ack ≤ ack' := by
  intro ack hack
  rcases hm with ⟨ns, -, rfl⟩ | ⟨time, kind, value, hc, rfl⟩ | ⟨kind, value, -, -, rfl⟩ |
    ⟨msg, rfl⟩ | ⟨-, rfl⟩ | ⟨-, -, -, rfl⟩ | ⟨time, -, rfl⟩ | ⟨i, -, rfl⟩ | hq
  · exact ⟨ack, hack, le_rfl⟩
  · exact ⟨ack, hack, le_rfl⟩
  · exact ⟨ack, hack, le_rfl⟩
  · unfold PageServer.on_log
    split <;> exact ⟨ack, hack, le_rfl⟩
  · exact ⟨s.now, rfl, hb.past ack hack⟩
  · exact ⟨ack, hack, le_rfl⟩
  · exact ⟨ack, hack, le_rfl⟩
  · exact ⟨ack, hack, le_rfl⟩
  · exact ⟨ack, by rw [hq.last_ack, hack], le_rfl⟩

theorem page_alive_acked {s : PageServer} (h : s.page_alive = true) : Acked s s.now := by
  unfold PageServer.page_alive at h
  split at h
  · cases h
  · rename_i ack hack
    simp only [decide_eq_true_eq] at h
    exact ⟨ack, hack, by omega⟩

theorem moves_beats {s t : PageServer} {e : WebEvent} (hm : EventStream.Moves s e t)
    (hb : Beats s) : Beats t := by
  have hmono : ∀ time, Acked s time → Acked t time := fun time h => h.later (moves_ack hm hb)
  rcases hm with ⟨ns, -, rfl⟩ | ⟨time, kind, value, hc, rfl⟩ | ⟨kind, value, -, -, rfl⟩ |
    ⟨msg, rfl⟩ | ⟨-, rfl⟩ | ⟨-, hp, -, rfl⟩ | ⟨time, hc, rfl⟩ | ⟨i, -, rfl⟩ | hq
  · exact ⟨fun ack hack => (hb.past ack hack).trans (Nat.le_add_right _ _), hb.sent, hb.checked⟩
  · exact ⟨hb.past, hb.sent, by simp [PageServer.on_sample]⟩
  · exact ⟨hb.past, hb.sent, by simp⟩
  · unfold PageServer.on_log
    split <;> exact ⟨hb.past, hb.sent, hb.checked⟩
  · refine ⟨?_, fun time h => hmono time (hb.sent time h), fun time h => hmono time (hb.checked time h)⟩
    rintro ack ⟨⟩
    exact le_rfl
  · refine ⟨hb.past, hb.sent, ?_⟩
    rintro time ⟨⟩
    exact page_alive_acked hp
  · refine ⟨hb.past, ?_, by simp⟩
    intro time' h
    rcases List.mem_append.mp h with h | h
    · exact hb.sent time' h
    · rw [List.mem_singleton.mp h]
      exact hb.checked time hc
  · exact ⟨hb.past, fun time h => hb.sent time (List.mem_of_mem_eraseIdx h), hb.checked⟩
  · refine ⟨?_, ?_, ?_⟩
    · rw [hq.last_ack, hq.now]
      exact hb.past
    · intro time h
      rw [hq.heartbeats] at h
      exact hmono time (hb.sent time h)
    · intro time h
      exact hmono time (hb.checked time ((hq.heartbeat time).mp h))

/-! ## Pages, server and bridge -/

structure Rig where
  site : Site
  bridge : Bridge
  tick : ℕ

inductive RigEvent where
  | clock (ns : ℕ)
  | site (e : SiteEvent)
  | bridge (e : Event)
  /-- the heartbeat `i` arrives, or is lost -/
  | heartbeat (i : ℕ)
  | heartbeat_lost (i : ℕ)
  deriving DecidableEq

/-- The clock and the heartbeats on their way belong to both sides. -/
def shared : SiteEvent → Bool
  | .web (.clock _) | .web (.take_heartbeat _) => true
  | _ => false

/-- The watch timer ticks, or is set up. -/
def Rig.ticked (r : Rig) : Event → ℕ
  | .watch | .activate _ => r.bridge.now
  | _ => r.tick

def rig_step (r : Rig) : RigEvent → Option Rig
  | .clock ns =>
      (web_step r.site.server (.clock ns)).bind fun server =>
        (step r.bridge (.clock ns)).map fun bridge =>
          { r with site := { r.site with server := server }, bridge := bridge }
  | .site e =>
      if shared e then none else (site_step r.site e).map fun site => { r with site := site }
  | .bridge e =>
      match e with
      | .clock _ | .heartbeat => none
      | e => (step r.bridge e).map fun bridge => { r with bridge := bridge, tick := r.ticked e }
  | .heartbeat i =>
      (web_step r.site.server (.take_heartbeat i)).map fun server =>
        { r with site := { r.site with server := server }
                 -- without a subscription it is lost
                 bridge := (step r.bridge .heartbeat).getD r.bridge }
  | .heartbeat_lost i =>
      (web_step r.site.server (.take_heartbeat i)).map fun server =>
        { r with site := { r.site with server := server } }

def RigInit (r : Rig) : Prop :=
  SiteInit r.site ∧ Init r.bridge ∧ r.bridge.now = r.site.server.now ∧ r.tick = r.bridge.now

/-- No heartbeat arrives later than `delay` after its check, and while the watch timer exists it
ticks every `period`. -/
structure Timed (delay period : ℕ) (r : Rig) (e : RigEvent) : Prop where
  clock : ∀ ns, e = .clock ns → r.bridge.subscribed = true → r.bridge.now + ns ≤ r.tick + period
  heartbeat : ∀ i time, e = .heartbeat i → r.site.server.heartbeats[i]? = some time →
    r.bridge.now ≤ time + delay

/-! ## The invariant -/

section Watch

variable {delay period : ℕ}

/-- What the bridge knows of heartbeats comes from acknowledgements; a wave was found alive at the
last tick or started since. -/
structure Tended (delay period : ℕ) (r : Rig) : Prop where
  sound : Sound r.bridge
  waves : (view r.bridge).Waves
  attached : r.bridge.primary = .active → r.bridge.subscribed = true
  beats : Beats r.site.server
  clock : r.bridge.now = r.site.server.now
  due : r.bridge.subscribed = true → r.bridge.now ≤ r.tick + period
  heard : r.bridge.heartbeat_seen_ = true → ∃ ack, r.site.server.last_ack = some ack ∧
    r.bridge.last_heartbeat_ < ack + ACK_TIMEOUT_S + delay
  past : r.bridge.heartbeat_seen_ = true → r.bridge.last_heartbeat_ ≤ r.bridge.now
  ticked : r.tick ≤ r.bridge.now
  alive : (view r.bridge).waving → r.bridge.heartbeat_seen_ = true ∧ ∃ found, r.tick ≤ found ∧
    found ≤ r.bridge.now ∧ (found : ℚ) < r.bridge.last_heartbeat_ + r.bridge.heartbeat_timeout_

/-- A wave has a subscribed bridge. -/
theorem Tended.subscribed {r : Rig} (h : Tended delay period r) (hw : (view r.bridge).waving) :
    r.bridge.subscribed = true := by
  apply h.attached
  by_contra hne
  have hinactive := h.sound.steady.inactive (decide_eq_false hne)
  unfold View.waving at hw
  rw [hinactive] at hw
  simp at hw

/-- **An acknowledgement behind every wave.** -/
theorem Tended.acknowledged {r : Rig} (h : Tended delay period r)
    (hw : (view r.bridge).waving) : ∃ ack, r.site.server.last_ack = some ack ∧
      (r.bridge.now : ℚ) <
        ack + ACK_TIMEOUT_S + delay + r.bridge.heartbeat_timeout_ + period := by
  obtain ⟨hseen, found, htick, -, hfound⟩ := h.alive hw
  obtain ⟨ack, hack, hlast⟩ := h.heard hseen
  have hdue := h.due (h.subscribed hw)
  have hnow : (r.bridge.now : ℚ) ≤ found + period := by
    exact_mod_cast (by omega : r.bridge.now ≤ found + period)
  have hlast : (r.bridge.last_heartbeat_ : ℚ) < ack + ACK_TIMEOUT_S + delay := by
    exact_mod_cast hlast
  exact ⟨ack, hack, by linarith⟩

/-- The server moves, the bridge does not. -/
theorem tended_server {r : Rig} {site : Site} {e : WebEvent} (h : Tended delay period r)
    (hm : EventStream.Moves r.site.server e site.server)
    (hnow : site.server.now = r.site.server.now) :
    Tended delay period { r with site := site } := by
  refine ⟨h.sound, h.waves, h.attached, moves_beats hm h.beats, ?_, h.due, ?_, h.past, h.ticked,
    h.alive⟩
  · rw [hnow]
    exact h.clock
  · intro hseen
    obtain ⟨ack, hack, hlast⟩ := h.heard hseen
    obtain ⟨ack', hack', hle⟩ := moves_ack hm h.beats ack hack
    exact ⟨ack', hack', by simp only; omega⟩

theorem moves_now {s t : PageServer} {e : WebEvent} (hm : EventStream.Moves s e t)
    (he : ∀ ns, e ≠ .clock ns) : t.now = s.now := by
  rcases hm with ⟨ns, hns, rfl⟩ | ⟨time, kind, value, hc, rfl⟩ | ⟨kind, value, -, -, rfl⟩ |
    ⟨msg, rfl⟩ | ⟨-, rfl⟩ | ⟨-, -, -, rfl⟩ | ⟨time, -, rfl⟩ | ⟨i, -, rfl⟩ | hq
  · exact absurd hns (he ns)
  · rfl
  · rfl
  · unfold PageServer.on_log
    split <;> rfl
  · rfl
  · rfl
  · rfl
  · rfl
  · exact hq.now

/-- A step of the site is a step of the server, or leaves it alone. -/
theorem site_server {s t : Site} {e : SiteEvent} (h : site_step s e = some t) :
    t.server = s.server ∨
      ∃ e', web_step s.server e' = some t.server ∧ (e = .web e' ∨ e = .ack ∧ e' = .post_ack) := by
  cases e with
  | web e =>
      have hw : ∃ t', web_step s.server e = some t' ∧ { s with server := t' } = t := by
        cases e with
        | post_ack => cases h
        | _ => exact Option.map_eq_some_iff.mp h
      obtain ⟨t', ht', rfl⟩ := hw
      exact .inr ⟨e, ht', .inl rfl⟩
  | ack =>
      simp only [site_step] at h
      split at h
      · obtain ⟨t', ht', rfl⟩ := Option.map_eq_some_iff.mp h
        exact .inr ⟨.post_ack, ht', .inr ⟨rfl, rfl⟩⟩
      · cases h
  | ack_lost =>
      simp only [site_step] at h
      split at h <;> cases h
      exact .inl rfl
  | connect p =>
      simp only [site_step] at h
      split at h <;> cases h
      exact .inl rfl
  | onopen p =>
      simp only [site_step] at h
      split at h
      · split at h <;> cases h
        exact .inl rfl
      · cases h
  | onmessage p =>
      simp only [site_step] at h
      split at h
      · split at h <;> cases h
        exact .inl rfl
      · cases h
  | events p =>
      simp only [site_step] at h
      split at h
      · split at h <;> cases h
        exact .inl rfl
      · cases h
  | lost p | logClear p =>
      cases h
      exact .inl rfl

theorem tended_site {r : Rig} {site : Site} {e : SiteEvent} (h : Tended delay period r)
    (hshared : shared e = false) (hst : site_step r.site e = some site) :
    Tended delay period { r with site := site } := by
  rcases site_server hst with hsame | ⟨e', hweb, he⟩
  · refine ⟨h.sound, h.waves, h.attached, ?_, ?_, h.due, ?_, h.past, h.ticked, h.alive⟩
    · simpa [hsame] using h.beats
    · simpa [hsame] using h.clock
    · simpa [hsame] using h.heard
  · have hm := EventStream.act_moves (web_step_act hweb)
    refine tended_server h hm (moves_now hm ?_)
    rintro ns rfl
    rcases he with rfl | ⟨-, he⟩
    · cases hshared
    · cases he

/-- The bridge found the heartbeat alive. -/
theorem heartbeat_alive_iff {s : Bridge} : s.heartbeat_alive = true ↔
    s.heartbeat_seen_ = true ∧ (s.now : ℚ) < s.last_heartbeat_ + s.heartbeat_timeout_ := by
  simp only [Bridge.heartbeat_alive, Bool.and_eq_true, decide_eq_true_eq, sub_lt_iff_lt_add']

theorem not_lost_alive {s : Bridge} (hl : ¬ s.lost = true) (hw : (view s).waving) :
    s.heartbeat_alive = true := by
  have hstate : s.state_ = .Starting ∨ s.state_ = .Running := hw
  simpa [Bridge.lost, hstate] using hl

/-- Only an active bridge has the subscriptions. -/
theorem step_attached {s t : Bridge} {e : Event} (hst : step s e = some t)
    (h : s.primary = .active → s.subscribed = true) :
    t.primary = .active → t.subscribed = true := by
  have hheld := held_step hst
  have hp : t.primary = ((held s).after e).primary := congrArg Held.primary hheld
  have hs : t.subscribed = ((held s).after e).subscribed := congrArg Held.subscribed hheld
  rw [hp, hs]
  cases e with
  | activate timeout => exact fun _ => rfl
  | configure | deactivate | cleanup | shutdown | error => simp [Held.after]
  | _ => exact h

/-- A subscribed bridge was just activated, or was subscribed before. -/
theorem step_subscribed_from {s t : Bridge} {e : Event} (hst : step s e = some t)
    (ht : t.subscribed = true) : (∃ timeout, e = .activate timeout) ∨ s.subscribed = true := by
  have hs : t.subscribed = ((held s).after e).subscribed :=
    congrArg Held.subscribed (held_step hst)
  rw [hs] at ht
  cases e with
  | activate timeout => exact .inl ⟨timeout, rfl⟩
  | deactivate | shutdown | error => simp [Held.after] at ht
  | _ => exact .inr ht

/-- A start that goes ahead has found the heartbeat alive. -/
theorem start_alive {s : Bridge} {e : Event} (h : action s e = .start) :
    s.heartbeat_alive = true := by
  cases e with
  | start_topic data =>
      simp only [action] at h
      split at h
      · rename_i hs
        simp only [Bridge.starts, Bool.and_eq_true] at hs
        exact hs.2.1.2
      · cases h
  | watch | stop_topic data =>
      simp only [action] at h
      split at h <;> cases h
  | _ => cases h

/-- A step of the bridge that leaves a wave: the heartbeat was found alive in it, or nothing was
asked of the heartbeat and the wave was there before. -/
theorem wave_found {r : Rig} {e : Event} {t : Bridge} (h : Tended delay period r)
    (hst : step r.bridge e = some t) (hw : (view t).waving) :
    r.bridge.heartbeat_alive = true ∨ (view r.bridge).waving ∧ r.ticked e = r.tick := by
  have hdoes := view_step h.sound.subscribed hst
  obtain ⟨-, hfrom⟩ := h.waves.does h.sound.steady h.sound.tracks hdoes
  rcases hfrom hw with hstart | ⟨hwaving, hnostop⟩
  · exact .inl (start_alive hstart)
  · cases e with
    | watch =>
        left
        refine not_lost_alive (fun hlost => ?_) hwaving
        exact hnostop none r.bridge.available (by simp [action, hlost])
    | activate timeout => exact absurd hw (View.activate_not_waving hdoes)
    | _ => exact .inr ⟨hwaving, rfl⟩

theorem tended_bridge {r : Rig} {e : Event} {t : Bridge} (h : Tended delay period r)
    (hclock : ∀ ns, e ≠ .clock ns) (hbeat : e ≠ .heartbeat) (hst : step r.bridge e = some t) :
    Tended delay period { r with bridge := t, tick := r.ticked e } := by
  have hdoes := view_step h.sound.subscribed hst
  have hwaves := (h.waves.does h.sound.steady h.sound.tracks hdoes).1
  have hpulse := pulse_step hst
  have hnow : t.now = r.bridge.now := by
    have := congrArg Pulse.now hpulse
    cases e <;> first | exact this | exact absurd rfl (hclock _)
  have hseen : t.heartbeat_seen_ = r.bridge.heartbeat_seen_ := by
    have := congrArg Pulse.seen hpulse
    cases e <;> first | exact this | exact absurd rfl hbeat
  have hlast : t.last_heartbeat_ = r.bridge.last_heartbeat_ := by
    have := congrArg Pulse.last hpulse
    cases e <;> first | exact this | exact absurd rfl hbeat
  have hticked : r.tick ≤ r.ticked e ∧ r.ticked e ≤ r.bridge.now := by
    have := h.ticked
    unfold Rig.ticked
    split <;> omega
  refine ⟨step_sound h.sound hst, hwaves, step_attached hst h.attached, h.beats, ?_, ?_, ?_, ?_, ?_,
    ?_⟩
  · rw [hnow]
    exact h.clock
  · intro hsub
    simp only [hnow]
    rcases step_subscribed_from hst hsub with ⟨timeout, rfl⟩ | hsub
    · simp [Rig.ticked]
    · have := h.due hsub
      omega
  · simpa [hseen, hlast] using h.heard
  · simpa [hseen, hlast, hnow] using h.past
  · simpa [hnow] using hticked.2
  · intro hw
    have htimeout : t.heartbeat_timeout_ = r.bridge.heartbeat_timeout_ := by
      have := congrArg Pulse.timeout hpulse
      cases e with
      | activate timeout => exact absurd hw (View.activate_not_waving hdoes)
      | _ => exact this
    simp only [hnow, hseen, hlast, htimeout]
    rcases wave_found h hst hw with halive | ⟨hwaving, htick⟩
    · obtain ⟨hs, hlt⟩ := heartbeat_alive_iff.mp halive
      exact ⟨hs, r.bridge.now, hticked.2, le_rfl, hlt⟩
    · rw [htick]
      exact h.alive hwaving

/-- A heartbeat in time. -/
theorem tended_heartbeat {r : Rig} {i time : ℕ} (h : Tended delay period r)
    (hi : r.site.server.heartbeats[i]? = some time) (hin : r.bridge.now ≤ time + delay) :
    Tended delay period { r with bridge := (step r.bridge .heartbeat).getD r.bridge } := by
  by_cases hsub : r.bridge.subscribed = true
  · have hbridge : (step r.bridge .heartbeat).getD r.bridge =
        { r.bridge with last_heartbeat_ := r.bridge.now, heartbeat_seen_ := true } := by
      simp [step, hsub]
    rw [hbridge]
    refine ⟨⟨h.sound.subscribed, h.sound.tracks, h.sound.steady⟩, h.waves, h.attached, h.beats,
      h.clock, h.due, ?_, fun _ => le_rfl, h.ticked, ?_⟩
    · intro _
      obtain ⟨ack, hack, hlt⟩ := h.beats.sent time (List.mem_of_getElem? hi)
      exact ⟨ack, hack, by simp only; omega⟩
    · intro hw
      obtain ⟨hseen, found, htick, hfound, hlt⟩ := h.alive hw
      have hpast : (r.bridge.last_heartbeat_ : ℚ) ≤ r.bridge.now := by
        exact_mod_cast h.past hseen
      exact ⟨rfl, found, htick, hfound, by simp only; linarith⟩
  · have hbridge : (step r.bridge .heartbeat).getD r.bridge = r.bridge := by
      simp [step, hsub]
    rw [hbridge]
    exact h

theorem tended_taken {r : Rig} {i : ℕ} {server : PageServer} (h : Tended delay period r)
    (hst : web_step r.site.server (.take_heartbeat i) = some server) :
    Tended delay period { r with site := { r.site with server := server } } := by
  have hm := EventStream.act_moves (web_step_act hst)
  exact tended_server h hm (moves_now hm (by simp))

/-- Time passes. -/
theorem tended_clock {r : Rig} {ns : ℕ} (h : Tended delay period r)
    (hdue : r.bridge.subscribed = true → r.bridge.now + ns ≤ r.tick + period) :
    Tended delay period { r with
      site := { r.site with server := { r.site.server with now := r.site.server.now + ns } }
      bridge := { r.bridge with now := r.bridge.now + ns } } := by
  refine ⟨⟨h.sound.subscribed, h.sound.tracks, h.sound.steady⟩, h.waves, h.attached, ?_, ?_, hdue,
    h.heard, ?_, ?_, ?_⟩
  · exact ⟨fun ack hack => (h.beats.past ack hack).trans (Nat.le_add_right _ _), h.beats.sent,
      h.beats.checked⟩
  · simp only [h.clock]
  · exact fun hseen => (h.past hseen).trans (Nat.le_add_right _ _)
  · exact h.ticked.trans (Nat.le_add_right _ _)
  · intro hw
    obtain ⟨hseen, found, htick, hfound, hlt⟩ := h.alive hw
    exact ⟨hseen, found, htick, hfound.trans (Nat.le_add_right _ _), hlt⟩

theorem rig_tended {r r' : Rig} {e : RigEvent} (h : Tended delay period r)
    (hok : Timed delay period r e) (hst : rig_step r e = some r') : Tended delay period r' := by
  cases e with
  | clock ns =>
      cases hst
      exact tended_clock h (hok.clock ns rfl)
  | site e =>
      simp only [rig_step] at hst
      split at hst
      · cases hst
      · rename_i hshared
        obtain ⟨site, hsite, rfl⟩ := Option.map_eq_some_iff.mp hst
        exact tended_site h (by simpa using hshared) hsite
  | bridge e =>
      simp only [rig_step] at hst
      split at hst
      · cases hst
      · cases hst
      · rename_i hclock hbeat
        obtain ⟨t, ht, rfl⟩ := Option.map_eq_some_iff.mp hst
        exact tended_bridge h (fun ns he => hclock ns he) (fun he => hbeat he) ht
  | heartbeat i =>
      obtain ⟨server, hserver, rfl⟩ := Option.map_eq_some_iff.mp hst
      have hi : i < r.site.server.heartbeats.length := by
        have hact := web_step_act hserver
        simp only [web_act] at hact
        split at hact
        · assumption
        · cases hact
      have hget := List.getElem?_eq_getElem hi
      exact tended_taken (tended_heartbeat h hget (hok.heartbeat i _ rfl hget)) hserver
  | heartbeat_lost i =>
      obtain ⟨server, hserver, rfl⟩ := Option.map_eq_some_iff.mp hst
      exact tended_taken h hserver

theorem init_tended {r : Rig} (h : RigInit r) : Tended delay period r := by
  obtain ⟨⟨hweb, -⟩, hbridge, hclock, htick⟩ := h
  have hsound := init_sound hbridge
  obtain ⟨hprimary, -, -, hsub, hseen, -, -, -, hreq, -, -, -, -, -, hstate, -⟩ := hbridge
  have hack : r.site.server.last_ack = none := hweb.2.2.2.2.2.1
  have hcb : r.site.server.callback = none := hweb.2.2.2.2.2.2.2.2.1
  have hbeats : r.site.server.heartbeats = [] := hweb.2.2.2.2.2.2.2.2.2.2.2.1
  have hno : ¬ (view r.bridge).waving := by simp [View.waving, view, hstate]
  refine ⟨hsound, ⟨fun hw => absurd hw hno, ?_⟩, ?_, ⟨?_, ?_, ?_⟩, hclock, ?_, ?_,
    ?_, htick.le, fun hw => absurd hw hno⟩
  · simp [view, hreq]
  · simp [hprimary]
  · simp [hack]
  · simp [hbeats]
  · simp [hcb]
  · simp [hsub]
  · simp [hseen]
  · simp [hseen]

theorem reach_tended {r : Rig} (h : Reach rig_step (Timed delay period) RigInit r) :
    Tended delay period r :=
  h.invariant (fun _ => init_tended) fun _ _ _ hinv hok hst => rig_tended hinv hok hst

end Watch

/-- **No wave without a page.** In every run of pages, server and bridge in which a heartbeat
arrives within `delay` of its check or never, and the watch timer of an active bridge ticks every
`period`: while the bridge is starting or running a wave, some page has acknowledged an update, and
the last acknowledgement is younger than the page's half second, the delay, the bridge's heartbeat
timeout and a period of the timer together. -/
theorem wave_acknowledged {delay period : ℕ} {r : Rig}
    (h : Reach rig_step (Timed delay period) RigInit r)
    (hw : r.bridge.state_ = .Starting ∨ r.bridge.state_ = .Running) :
    ∃ ack, r.site.server.last_ack = some ack ∧ (r.bridge.now : ℚ) <
      ack + ACK_TIMEOUT_S + delay + r.bridge.heartbeat_timeout_ + period :=
  (reach_tended h).acknowledged hw

/-! ### A wave from a page -/

instance (delay period : ℕ) : ∀ r e, Decidable (Timed delay period r e)
  | r, .clock ns =>
      decidable_of_iff (r.bridge.subscribed = true → r.bridge.now + ns ≤ r.tick + period)
        ⟨fun h => ⟨by rintro _ ⟨⟩; exact h, by simp⟩, fun h => h.clock ns rfl⟩
  | r, .heartbeat i =>
      decidable_of_iff (∀ time ∈ r.site.server.heartbeats[i]?, r.bridge.now ≤ time + delay)
        ⟨fun h => ⟨by simp, by rintro _ time ⟨⟩; exact h time⟩, fun h time => h.heartbeat i time rfl⟩
  | _, .site _ | _, .bridge _ | _, .heartbeat_lost _ => .isTrue ⟨by simp, by simp⟩

def switched_on : Rig where
  site := launched
  bridge := WavemakerBridge.constructed
  tick := 0

/-- A page connects and acknowledges its first update, the server's timer sends a heartbeat, and
after a tick of the watch timer a wave is started. -/
def first_wave : List RigEvent :=
  [.bridge .configure, .bridge (.activate 1000000000), .site (.connect 0), .site (.onopen 0),
    .site (.events 0), .site (.onmessage 0), .site .ack, .site (.web .send_heartbeat),
    .site (.web .resume), .clock 50000000, .heartbeat 0, .bridge .watch,
    .bridge (.height (some (1 / 20))), .bridge (.period (some 2)), .clock 50000000,
    .bridge (.start_topic true)]

theorem wave_acknowledged_first_wave : ∃ r : Rig, r.bridge.state_ = .Starting ∧
    ∃ ack, r.site.server.last_ack = some ack ∧ (r.bridge.now : ℚ) <
      ack + ACK_TIMEOUT_S + (50000000 : ℕ) + r.bridge.heartbeat_timeout_ + (100000000 : ℕ) := by
  have heval : ((run (guarded rig_step (Timed 50000000 100000000)) switched_on first_wave).map
      fun r => r.bridge.state_) = some .Starting := by
    decide +kernel
  obtain ⟨r, hr, hstate⟩ := Option.map_eq_some_iff.mp heval
  have hinit : RigInit switched_on := ⟨launched_init, constructed_init, rfl, rfl⟩
  have hreach : Reach rig_step (Timed 50000000 100000000) RigInit r :=
    .guarded_run first_wave (.init hinit) hr
  exact ⟨r, hstate, wave_acknowledged hreach (.inl hstate)⟩

end WavemakerWeb
