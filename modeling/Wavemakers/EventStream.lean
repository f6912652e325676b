/-
The updates of the open pages, whatever the order of the steps.

`snapshot` hands a connection what it has not had, by two cursors into two buffers that drop their
oldest entries. `Keeps` says what the buffers hold of all the server took in. A `Display` is a
relation between that and what a page shows, with what an update has to do for it; the rule
`reach_follows` says that a display then holds of every page with a connection, at every moment,
with any number of updates still on their way.
-/
import Wavemakers.PageServer

set_option autoImplicit false

namespace WavemakerWeb.EventStream

open Interleave Numeric Backlog

/-! ## The buffers -/

/-- The samples and the log lines of the server are the ends of all it took in. What is missing of
the samples is older than the plot. -/
structure Keeps (s : PageServer) : Prop where
  samples : ∃ d, s.samples.Holds s.recorded d ∧
    ∀ e ∈ s.recorded.take d, e.time + PLOT_WINDOW_S < s.now
  sorted : s.recorded.Pairwise fun a b => a.time ≤ b.time
  past : ∀ e ∈ s.recorded, e.time ≤ s.now
  /-- a sample read its time after the recorded ones -/
  callback : ∀ time kind value, s.callback = some (.sample time kind value) →
    time ≤ s.now ∧ ∀ e ∈ s.recorded, e.time ≤ time
  logs : s.logs.Holds s.logged (s.logged.length - LOG_HISTORY)

/-- The buffers and the clock are left alone and no sample is taken in. -/
structure Same (s t : PageServer) : Prop where
  now : t.now = s.now
  samples : t.samples = s.samples
  recorded : t.recorded = s.recorded
  logs : t.logs = s.logs
  logged : t.logged = s.logged
  sample : ∀ time kind value, t.callback = some (.sample time kind value) →
    s.callback = some (.sample time kind value)

theorem Same.keeps {s t : PageServer} (hq : Same s t) (h : Keeps s) : Keeps t := by
  refine ⟨?_, ?_, ?_, ?_, ?_⟩
  · rw [hq.now, hq.samples, hq.recorded]
    exact h.samples
  · rw [hq.recorded]
    exact h.sorted
  · rw [hq.now, hq.recorded]
    exact h.past
  · intro time kind value hc
    rw [hq.now, hq.recorded]
    exact h.callback time kind value (hq.sample time kind value hc)
  · rw [hq.logs, hq.logged]
    exact h.logs

/-- So are the heartbeats and the acknowledgements. -/
structure Quiet (s t : PageServer) : Prop extends Same s t where
  last_ack : t.last_ack = s.last_ack
  heartbeats : t.heartbeats = s.heartbeats
  heartbeat : ∀ checked, t.callback = some (.heartbeat checked) ↔
    s.callback = some (.heartbeat checked)

/-- Nothing of all that is touched. -/
theorem quiet_of_eq {s t : PageServer} (hnow : t.now = s.now) (hsamples : t.samples = s.samples)
    (hrecorded : t.recorded = s.recorded) (hlogs : t.logs = s.logs) (hlogged : t.logged = s.logged)
    (hack : t.last_ack = s.last_ack) (hbeats : t.heartbeats = s.heartbeats)
    (hcallback : t.callback = s.callback) : Quiet s t :=
  ⟨⟨hnow, hsamples, hrecorded, hlogs, hlogged, fun _ _ _ h => hcallback ▸ h⟩, hack, hbeats,
    fun _ => by rw [hcallback]⟩

/-! ## What a step of the server does to them -/

/-- **What a step does**, as far as the pages and the heartbeat go. -/
inductive Moves (s : PageServer) (e : WebEvent) (t : PageServer) : Prop where
  | clock (ns : ℕ) (he : e = .clock ns) (h : t = { s with now := s.now + ns })
  | sample (time : ℕ) (kind : Kind) (value : Double)
      (hc : s.callback = some (.sample time kind value))
      (h : t = { s with callback := none }.on_sample time kind value)
  | read (kind : Kind) (value : Double) (he : e = .on_sample kind value)
      (hc : s.callback = none) (h : t = { s with callback := some (.sample s.now kind value) })
  | log (msg : Log) (h : t = s.on_log msg)
  | ack (he : e = .post_ack) (h : t = s.acknowledge)
  | checked (he : e = .send_heartbeat) (hp : s.page_alive = true) (hc : s.callback = none)
      (h : t = { s with callback := some (.heartbeat s.now) })
  | sent (time : ℕ) (hc : s.callback = some (.heartbeat time))
      (h : t = { s with callback := none, heartbeats := s.heartbeats ++ [time] })
  | taken (i : ℕ) (he : e = .take_heartbeat i)
      (h : t = { s with heartbeats := s.heartbeats.eraseIdx i })
  | quiet (h : Quiet s t)

theorem quiet_check_idle {s : PageServer} (now : ℕ) (hc : s.callback = none) :
    Quiet s (s.check_idle now) := by
  unfold PageServer.check_idle
  split
  · exact quiet_of_eq rfl rfl rfl rfl rfl rfl rfl rfl
  · split
    · exact quiet_of_eq rfl rfl rfl rfl rfl rfl rfl rfl
    · dsimp only
      split
      · exact quiet_of_eq rfl rfl rfl rfl rfl rfl rfl rfl
      · split
        · exact ⟨⟨rfl, rfl, rfl, rfl, rfl, by simp⟩, rfl, rfl, by simp [hc]⟩
        · exact quiet_of_eq rfl rfl rfl rfl rfl rfl rfl rfl

theorem quiet_keep_running (s : PageServer) : Quiet s s.keep_running := by
  unfold PageServer.keep_running
  split <;> exact quiet_of_eq rfl rfl rfl rfl rfl rfl rfl rfl

theorem quiet_return_to_upright (s : PageServer) : Quiet s s.return_to_upright := by
  unfold PageServer.return_to_upright
  split <;> exact quiet_of_eq rfl rfl rfl rfl rfl rfl rfl rfl

theorem quiet_auto_stop {s t : PageServer} {manager : Option (Option Bool)}
    (h : s.auto_stop_step manager = some t) : Quiet s t := by
  unfold PageServer.auto_stop_step at h
  split at h
  · cases h
  · cases h
  · cases h
    exact quiet_of_eq rfl rfl rfl rfl rfl rfl rfl rfl
  · cases h
    exact quiet_of_eq rfl rfl rfl rfl rfl rfl rfl rfl
  · split at h <;> cases h <;> exact quiet_of_eq rfl rfl rfl rfl rfl rfl rfl rfl
  · cases h
    split <;> exact quiet_of_eq rfl rfl rfl rfl rfl rfl rfl rfl
  · split at h
    · cases h
      exact quiet_of_eq rfl rfl rfl rfl rfl rfl rfl rfl
    · cases h

theorem quiet_return_service {s t : PageServer} {i : ℕ} {available : Bool}
    (h : s.return_service i available = some t) : Quiet s t := by
  unfold PageServer.return_service at h
  split at h
  · split at h <;> cases h <;> exact quiet_of_eq rfl rfl rfl rfl rfl rfl rfl rfl
  · cases h

theorem quiet_return_reply {s t : PageServer} {i status : ℕ} {message : String}
    (h : s.return_reply i status message = some t) : Quiet s t := by
  unfold PageServer.return_reply at h
  split at h
  · cases h
    exact quiet_of_eq rfl rfl rfl rfl rfl rfl rfl rfl
  · cases h

theorem quiet_return_timeout {s t : PageServer} {i : ℕ} (h : s.return_timeout i = some t) :
    Quiet s t := by
  unfold PageServer.return_timeout at h
  split at h
  · split at h
    · cases h
      exact quiet_of_eq rfl rfl rfl rfl rfl rfl rfl rfl
    · cases h
  · cases h

theorem act_moves {s t : PageServer} {e : WebEvent} (h : web_act s e = some t) : Moves s e t := by
  cases e with
  | clock ns => exact .clock ns rfl (by simpa [web_act] using h.symm)
  | on_log msg => exact .log msg (calls_back_eq h).2
  | on_sample kind value => exact .read kind value rfl (calls_back_eq h).1 (calls_back_eq h).2
  | on_state data | on_message data =>
      obtain ⟨-, rfl⟩ := calls_back_eq h
      exact .quiet (quiet_of_eq rfl rfl rfl rfl rfl rfl rfl rfl)
  | send_heartbeat =>
      obtain ⟨hc, rfl⟩ := calls_back_eq h
      unfold PageServer.send_heartbeat
      split
      · rename_i hp
        exact .checked rfl hp hc rfl
      · exact .quiet (quiet_of_eq rfl rfl rfl rfl rfl rfl rfl rfl)
  | check_idle =>
      simp only [web_act] at h
      split at h
      · obtain ⟨hc, rfl⟩ := calls_back_eq h
        exact .quiet ⟨⟨rfl, rfl, rfl, rfl, rfl, by simp⟩, rfl, rfl, by simp [hc]⟩
      · cases h
  | resume =>
      obtain ⟨c, hc, rfl⟩ := Option.map_eq_some_iff.mp h
      cases c with
      | sample time kind value => exact .sample time kind value hc rfl
      | heartbeat checked => exact .sent checked hc rfl
      | idle time =>
          have hq := quiet_check_idle (s := { s with callback := none }) time rfl
          refine .quiet ⟨⟨hq.now, hq.samples, hq.recorded, hq.logs, hq.logged, ?_⟩, hq.last_ack,
            hq.heartbeats, ?_⟩
          · intro time' kind value hc'
            exact absurd (hq.sample time' kind value hc') (by simp)
          · intro checked
            simpa [hc, PageServer.resume] using hq.heartbeat checked
      | warn idle remaining =>
          refine .quiet ⟨⟨rfl, rfl, rfl, rfl, rfl, ?_⟩, rfl, rfl, ?_⟩
          · simp [PageServer.resume, PageServer.print]
          · simp [PageServer.resume, PageServer.print, hc]
  | auto_stop manager => exact .quiet (quiet_auto_stop h)
  | post_ack =>
      cases h
      exact .ack rfl rfl
  | post_keep_running =>
      cases h
      exact .quiet (quiet_keep_running s)
  | post_return =>
      cases h
      exact .quiet (quiet_return_to_upright s)
  | return_service i available => exact .quiet (quiet_return_service h)
  | return_reply i status message => exact .quiet (quiet_return_reply h)
  | return_timeout i => exact .quiet (quiet_return_timeout h)
  | take_heartbeat i =>
      simp only [web_act] at h
      split at h
      · cases h
        exact .taken i rfl rfl
      · cases h
  | post_start height period | thread c point | mismatch text =>
      cases h
      exact .quiet (quiet_of_eq rfl rfl rfl rfl rfl rfl rfl rfl)

/-- What is added to the buffers by the step `e`. -/
inductive Adds (s : PageServer) (e : WebEvent) (t : PageServer) : Prop where
  | clock (ns : ℕ) (h : t = { s with now := s.now + ns })
  | sample (time : ℕ) (kind : Kind) (value : Double)
      (hc : s.callback = some (.sample time kind value))
      (h : t = { s with callback := none }.on_sample time kind value)
  | read (kind : Kind) (value : Double) (he : e = .on_sample kind value)
      (h : t = { s with callback := some (.sample s.now kind value) })
  | log (msg : Log) (h : t = s.on_log msg)
  | same (h : Same s t)

theorem act_adds {s t : PageServer} {e : WebEvent} (h : web_act s e = some t) : Adds s e t := by
  rcases act_moves h with ⟨ns, -, rfl⟩ | ⟨time, kind, value, hc, rfl⟩ | ⟨kind, value, he, -, rfl⟩ |
    ⟨msg, rfl⟩ | ⟨-, rfl⟩ | ⟨-, -, -, rfl⟩ | ⟨time, -, rfl⟩ | ⟨i, -, rfl⟩ | hq
  · exact .clock ns rfl
  · exact .sample time kind value hc rfl
  · exact .read kind value he rfl
  · exact .log msg rfl
  · exact .same ⟨rfl, rfl, rfl, rfl, rfl, fun _ _ _ h => h⟩
  · exact .same ⟨rfl, rfl, rfl, rfl, rfl, by simp⟩
  · exact .same ⟨rfl, rfl, rfl, rfl, rfl, by simp⟩
  · exact .same ⟨rfl, rfl, rfl, rfl, rfl, fun _ _ _ h => h⟩
  · exact .same hq.toSame

/-- A new sample: only what is older than the plot is dropped for it. -/
theorem keeps_on_sample {s : PageServer} {time : ℕ} {kind : Kind} {value : Double} (h : Keeps s)
    (hc : s.callback = some (.sample time kind value)) :
    Keeps ({ s with callback := none }.on_sample time kind value) := by
  obtain ⟨d, hd, hold⟩ := h.samples
  obtain ⟨hnow, hlast⟩ := h.callback time kind value hc
  let sample : Sample := ⟨time, kind, value⟩
  let old : Sample → Bool := fun e => e.time + PLOT_WINDOW_S < time
  let dropped := ((s.recorded ++ [sample]).drop d).takeWhile old
  have hpush : ((s.samples.push sample).expire old).Holds (s.recorded ++ [sample])
      (d + dropped.length) := (hd.push sample).expire old
  have hage : ∀ e ∈ (s.recorded ++ [sample]).take (d + dropped.length),
      e.time + PLOT_WINDOW_S < s.now := by
    intro e he
    rw [List.take_add, List.mem_append] at he
    rcases he with he | he
    · -- dropped before
      rw [List.take_append_of_le_length hd.le] at he
      exact hold e he
    · -- dropped now
      have hpre : dropped <+: (s.recorded ++ [sample]).drop d := List.takeWhile_prefix old
      rw [← List.prefix_iff_eq_take.mp hpre] at he
      have hlt : e.time + PLOT_WINDOW_S < time := by
        simpa [old] using List.mem_takeWhile_imp he
      omega
  refine ⟨⟨_, hpush, hage⟩, ?_, ?_, ?_, h.logs⟩
  · rw [PageServer.on_sample, List.pairwise_append]
    refine ⟨h.sorted, List.pairwise_singleton _ _, ?_⟩
    simpa using hlast
  · intro e he
    simp only [PageServer.on_sample, List.mem_append, List.mem_singleton] at he
    rcases he with he | rfl
    · exact h.past e he
    · exact hnow
  · simp [PageServer.on_sample]

theorem keeps_on_log {s : PageServer} (msg : Log) (h : Keeps s) : Keeps (s.on_log msg) := by
  unfold PageServer.on_log
  split
  · refine ⟨h.samples, h.sorted, h.past, h.callback, ?_⟩
    have hb := (h.logs.push (entry_of s.name_space msg)).bound LOG_HISTORY
    have hmax : max (s.logged.length - LOG_HISTORY)
        ((s.logged ++ [entry_of s.name_space msg]).length - LOG_HISTORY) =
        (s.logged ++ [entry_of s.name_space msg]).length - LOG_HISTORY := by
      simp only [List.length_append]
      omega
    rw [hmax] at hb
    exact hb
  · exact h

theorem adds_keeps {s t : PageServer} {e : WebEvent} (ha : Adds s e t) (h : Keeps s) : Keeps t := by
  rcases ha with ⟨ns, rfl⟩ | ⟨time, kind, value, hc, rfl⟩ | ⟨kind, value, -, rfl⟩ |
    ⟨msg, rfl⟩ | hq
  · obtain ⟨d, hd, hold⟩ := h.samples
    refine ⟨⟨d, hd, fun e he => ?_⟩, h.sorted, fun e he => ?_, fun time kind value hc => ?_, h.logs⟩
    · have := hold e he
      simp only
      omega
    · have := h.past e he
      simp only
      omega
    · obtain ⟨hnow, hlast⟩ := h.callback time kind value hc
      exact ⟨by simp only; omega, hlast⟩
  · exact keeps_on_sample h hc
  · refine ⟨h.samples, h.sorted, h.past, ?_, h.logs⟩
    rintro time' kind' value' heq
    cases heq
    exact ⟨Nat.le_refl _, h.past⟩
  · exact keeps_on_log msg h
  · exact hq.keeps h

/-- What the server took in only grows. -/
theorem adds_grow {s t : PageServer} {e : WebEvent} (ha : Adds s e t) :
    s.now ≤ t.now ∧ s.recorded <+: t.recorded ∧ s.logged <+: t.logged := by
  rcases ha with ⟨ns, rfl⟩ | ⟨time, kind, value, hc, rfl⟩ | ⟨kind, value, -, rfl⟩ |
    ⟨msg, rfl⟩ | hq
  · exact ⟨Nat.le_add_right _ _, List.prefix_refl _, List.prefix_refl _⟩
  · exact ⟨Nat.le_refl _, List.prefix_append _ _, List.prefix_refl _⟩
  · exact ⟨Nat.le_refl _, List.prefix_refl _, List.prefix_refl _⟩
  · unfold PageServer.on_log
    split
    · exact ⟨Nat.le_refl _, List.prefix_refl _, List.prefix_append _ _⟩
    · exact ⟨Nat.le_refl _, List.prefix_refl _, List.prefix_refl _⟩
  · rw [hq.now, hq.recorded, hq.logged]
    exact ⟨Nat.le_refl _, List.prefix_refl _, List.prefix_refl _⟩

theorem init_keeps {s : PageServer} (h : WebInit s) : Keeps s := by
  obtain ⟨-, -, -, hsamples, hlogs, -, -, -, hcb, -, -, -, hrec, hlog, -⟩ := h
  refine ⟨⟨0, ?_, ?_⟩, ?_, ?_, ?_, ?_⟩
  · rw [hsamples, hrec]
    exact holds_empty
  · simp
  · simp [hrec]
  · simp [hrec]
  · simp [hcb]
  · rw [hlogs, hlog]
    exact holds_empty

/-! ## What holds of a page after every update on its way -/

/-- The page as the updates on its way meet it: its log is cleared when the connection opens. -/
def meets (page : Page) (l : Link) : Page := if l.opened then page else page.onopen

/-- `Q` holds of the page and of what each update on its way makes of it, and the last of them has
the indices of the server's cursors. -/
def Follows (Q : Page → Prop) (page : Page) (l : Link) : Prop :=
  Along Page.onmessage Q (meets page l) l.wire ∧
    (l.wire.foldl Page.onmessage (meets page l)).seen = (l.last_sample, l.last_log)

/-- The user has cleared some of the log. -/
def Cleared (x y : Page) : Prop := ∃ log, log <:+ x.log ∧ y = { x with log := log }

theorem Cleared.appendLogs {x : Page} {log : List Entry} (h : log <:+ x.log)
    (entries : List Entry) :
    ∃ log', log' <:+ (x.appendLogs entries).log ∧
      { x with log := log }.appendLogs entries = { x.appendLogs entries with log := log' } := by
  unfold Page.appendLogs
  by_cases hes : entries = []
  · simp only [hes, if_true]
    exact ⟨log, h, rfl⟩
  · simp only [hes, if_false]
    exact ⟨_, last_suffix h LOG_LINES entries, rfl⟩

theorem Cleared.onmessage {x y : Page} (h : Cleared x y) (u : Update × ℕ × ℕ) :
    Cleared (x.onmessage u) (y.onmessage u) := by
  obtain ⟨log, hlog, rfl⟩ := h
  unfold Page.onmessage
  split
  · obtain ⟨log', hlog', heq⟩ := Cleared.appendLogs (x := { x with
      state := u.1.state, message := u.1.message, notice := u.1.notice
      idle_stop_in := u.1.idle_stop_in, serverTime := u.1.time
      series := fun k => (x.series k ++ (u.1.samples.filter fun e => e.kind = k).map fun e =>
        (e.time, e.value)).dropWhile fun point => point.1 + PLOT_SECONDS < u.1.time }) hlog u.1.logs
    refine ⟨log', hlog', ?_⟩
    simp only [Page.onUpdate]
    rw [heq]
  · exact ⟨log, hlog, rfl⟩

theorem Cleared.seen {x y : Page} (h : Cleared x y) (q : List (Update × ℕ × ℕ)) :
    (q.foldl Page.onmessage y).seen = (q.foldl Page.onmessage x).seen := by
  induction q generalizing x y with
  | nil =>
      obtain ⟨log, -, rfl⟩ := h
      rfl
  | cons u q ih => exact ih (h.onmessage u)

/-- What a display needs to hold in every run. `gap` is what a look of `_events` has to meet, by
the log lines there were when the page connected and the cursor; `clear` is whether the log may be
cleared by hand. -/
structure Display (gap : PageServer → ℕ → ℕ → Prop) (clear : Prop)
    (Q : PageServer → ℕ → Page → Prop) : Prop where
  grow : ∀ s t since x, s.now ≤ t.now → s.recorded <+: t.recorded → s.logged <+: t.logged →
    Q s since x → Q t since x
  connect : ∀ s (x : Page), Keeps s → (x.connections = 0 → ∀ k, x.series k = []) →
    Q s s.logs.count x.connect.onopen
  take : ∀ s since x, Keeps s → gap s since x.seen.2 → Q s since x →
    Q s since { x.onUpdate (s.snapshot x.seen.1 x.seen.2).1 with
      seen := (s.samples.count, s.logs.count) }
  clear : clear → ∀ s since x y, Cleared x y → Q s since x → Q s since y

/-- The steps of the runs a display is about. -/
structure Fair (gap : PageServer → ℕ → ℕ → Prop) (clear : Prop) (s : Site) (e : SiteEvent) :
    Prop where
  finite : ∀ kind value, e = .web (.on_sample kind value) → isfinite value = true
  look : ∀ p l, e = .events p → s.links p = some l → gap s.server l.since l.last_log
  clear : ∀ p, e = .logClear p → clear

/-- A condition on the looks and on clearing the log only leaves fewer runs. -/
theorem Fair.any {gap : PageServer → ℕ → ℕ → Prop} {clear : Prop} {s : Site} {e : SiteEvent}
    (h : Fair gap clear s e) : Fair (fun _ _ _ => True) True s e :=
  ⟨h.finite, fun _ _ _ _ => trivial, fun _ _ => trivial⟩

/-- The samples taken in, and the one being taken in, are numbers. -/
structure Finite (s : PageServer) : Prop where
  recorded : ∀ e ∈ s.recorded, isfinite e.value = true
  callback : ∀ time kind value, s.callback = some (.sample time kind value) →
    isfinite value = true

structure Inv (Q : PageServer → ℕ → Page → Prop) (s : Site) : Prop where
  keeps : Keeps s.server
  finite : Finite s.server
  fresh : ∀ p, (s.pages p).connections = 0 → s.links p = none ∧ ∀ k, (s.pages p).series k = []
  follows : ∀ p l, s.links p = some l → Follows (Q s.server l.since) (s.pages p) l

section Rule

variable {gap : PageServer → ℕ → ℕ → Prop} {clear : Prop} {Q : PageServer → ℕ → Page → Prop}

theorem snapshot_parses {s : PageServer} (hk : Keeps s) (hf : Finite s) (i j : ℕ) :
    (s.snapshot i j).1.parses = true := by
  obtain ⟨d, hd, -⟩ := hk.samples
  simp only [Update.parses, PageServer.snapshot, hd.after, List.all_eq_true]
  intro e he
  exact hf.recorded e (List.mem_of_mem_drop he)

theorem adds_finite {s t : PageServer} {e : WebEvent} (ha : Adds s e t) (hf : Finite s)
    (he : ∀ kind value, e = .on_sample kind value → isfinite value = true) : Finite t := by
  rcases ha with ⟨ns, rfl⟩ | ⟨time, kind, value, hc, rfl⟩ | ⟨kind, value, hread, rfl⟩ |
    ⟨msg, rfl⟩ | hq
  · exact ⟨hf.recorded, hf.callback⟩
  · refine ⟨?_, ?_⟩
    · intro x hx
      simp only [PageServer.on_sample, List.mem_append, List.mem_singleton] at hx
      rcases hx with hx | rfl
      · exact hf.recorded x hx
      · exact hf.callback time kind value hc
    · simp [PageServer.on_sample]
  · refine ⟨hf.recorded, ?_⟩
    intro time kind' value' heq
    cases heq
    exact he kind value hread
  · unfold PageServer.on_log
    split <;> exact ⟨hf.recorded, hf.callback⟩
  · refine ⟨?_, ?_⟩
    · rw [hq.recorded]
      exact hf.recorded
    · intro time kind value hc
      exact hf.callback time kind value (hq.sample time kind value hc)

/-- A step of the server: the displays stay. -/
theorem inv_server {s : Site} {t : PageServer} {e : WebEvent} (acks : ℕ) (D : Display gap clear Q)
    (h : Inv Q s) (he : ∀ kind value, e = .on_sample kind value → isfinite value = true)
    (hst : web_step s.server e = some t) : Inv Q { s with server := t, acks := acks } := by
  have ha := act_adds (web_step_act hst)
  obtain ⟨hnow, hrec, hlog⟩ := adds_grow ha
  refine ⟨adds_keeps ha h.keeps, adds_finite ha h.finite he, h.fresh, ?_⟩
  intro p l hl
  obtain ⟨halong, hseen⟩ := h.follows p l hl
  exact ⟨halong.mono fun x => D.grow s.server t l.since x hnow hrec hlog, hseen⟩

@[simp] theorem show_self (s : Site) (p : ℕ) : s.show p (s.pages p) = s := by
  simp [Site.show]

@[simp] theorem relink_self (s : Site) (p : ℕ) (page : Page) :
    (s.show p page).relink p (s.links p) = s.show p page := by
  simp [Site.relink, Site.show]

/-- Only the page `p` and its connection change. -/
theorem inv_page {s : Site} {p : ℕ} {page : Page} {link : Option Link} {acks : ℕ} (h : Inv Q s)
    (hfresh : page.connections = 0 → link = none ∧ ∀ k, page.series k = [])
    (hpage : ∀ l, link = some l → Follows (Q s.server l.since) page l) :
    Inv Q { (s.show p page).relink p link with acks := acks } := by
  refine ⟨h.keeps, h.finite, ?_, ?_⟩
  · intro p'
    by_cases hp : p' = p
    · subst hp
      simpa [Site.show, Site.relink] using hfresh
    · simpa [Site.show, Site.relink, hp] using h.fresh p'
  · intro p' l
    by_cases hp : p' = p
    · subst hp
      simpa [Site.show, Site.relink] using hpage l
    · simpa [Site.show, Site.relink, hp] using h.follows p' l

/-- Only the connection of the page `p` changes. -/
theorem inv_relink {s : Site} {p : ℕ} {link : Option Link} (h : Inv Q s)
    (hfresh : (s.pages p).connections = 0 → link = none)
    (hpage : ∀ l, link = some l → Follows (Q s.server l.since) (s.pages p) l) :
    Inv Q (s.relink p link) := by
  have hinv := @inv_page Q s p (s.pages p) link s.acks h
    (fun hc => ⟨hfresh hc, (h.fresh p hc).2⟩) hpage
  rw [show_self] at hinv
  exact hinv

theorem inv_connect {s : Site} {p : ℕ} (D : Display gap clear Q) (h : Inv Q s) :
    Inv Q ((s.show p (s.pages p).connect).relink p
      (some ⟨0, 0, 0, [], s.server.logs.count, false⟩)) := by
  refine @inv_page Q s p _ _ s.acks h ?_ ?_
  · intro hc
    simp [Page.connect] at hc
  · rintro l ⟨⟩
    refine ⟨?_, ?_⟩
    · simpa [Along, meets] using D.connect s.server (s.pages p) h.keeps fun hc => (h.fresh p hc).2
    · simp [meets, Page.onopen, Page.connect]

theorem inv_onopen {s : Site} {p : ℕ} {l : Link} (h : Inv Q s) (hl : s.links p = some l)
    (ho : l.opened = false) :
    Inv Q ((s.show p (s.pages p).onopen).relink p (some { l with opened := true })) := by
  refine @inv_page Q s p _ _ s.acks h ?_ ?_
  · intro hc
    have := (h.fresh p hc).1
    rw [hl] at this
    cases this
  · rintro l' ⟨⟩
    have := h.follows p l hl
    simpa [Follows, meets, ho] using this

theorem inv_onmessage {s : Site} {p : ℕ} {l : Link} {u : Update × ℕ × ℕ}
    {wire : List (Update × ℕ × ℕ)} {acks : ℕ} (h : Inv Q s) (hl : s.links p = some l)
    (ho : l.opened = true) (hw : l.wire = u :: wire) :
    Inv Q { (s.show p ((s.pages p).onmessage u)).relink p (some { l with wire := wire }) with
      acks := acks } := by
  have hne : (s.pages p).connections ≠ 0 := by
    intro hc
    have := (h.fresh p hc).1
    rw [hl] at this
    cases this
  refine inv_page h ?_ ?_
  · intro hc
    refine absurd ?_ hne
    unfold Page.onmessage at hc
    split at hc
    · simpa [Page.onUpdate, Page.appendLogs, apply_ite Page.connections] using hc
    · exact hc
  · rintro l' ⟨⟩
    obtain ⟨halong, hseen⟩ := h.follows p l hl
    simp only [hw, meets, ho, if_true, Along, List.foldl_cons] at halong hseen
    exact ⟨by simpa [meets, ho] using halong.2, by simpa [meets, ho] using hseen⟩

theorem inv_events {s : Site} {p : ℕ} {l : Link} (D : Display gap clear Q) (h : Inv Q s)
    (hl : s.links p = some l) (hgap : gap s.server l.since l.last_log) :
    Inv Q (s.relink p (some (s.server.events l))) := by
  refine inv_relink h ?_ ?_
  · intro hc
    have := (h.fresh p hc).1
    rw [hl] at this
    cases this
  · rintro l' ⟨⟩
    obtain ⟨halong, hseen⟩ := h.follows p l hl
    -- the page as it is once everything on its way has arrived
    have hend := halong.arrived
    have hmeets : meets (s.pages p) (s.server.events l) = meets (s.pages p) l := rfl
    have hparses := snapshot_parses h.keeps h.finite l.last_sample l.last_log
    have hnext : ∀ x : Page, x.seen = (l.last_sample, l.last_log) →
        x.onmessage (s.server.snapshot l.last_sample l.last_log) =
          { x.onUpdate (s.server.snapshot x.seen.1 x.seen.2).1 with
            seen := (s.server.samples.count, s.server.logs.count) } := by
      intro x hx
      rw [Page.onmessage, if_pos hparses, hx]
      rfl
    refine ⟨?_, ?_⟩
    · rw [hmeets]
      refine halong.send ?_
      rw [hnext _ hseen]
      refine D.take s.server l.since _ h.keeps ?_ hend
      rw [hseen]
      exact hgap
    · rw [hmeets]
      simp only [PageServer.events, List.foldl_append, List.foldl_cons, List.foldl_nil]
      rw [hnext _ hseen]
      rfl

theorem inv_clear {s : Site} {p : ℕ} (D : Display gap clear Q) (hclear : clear) (h : Inv Q s) :
    Inv Q (s.show p { s.pages p with log := [] }) := by
  rw [← relink_self]
  refine @inv_page Q s p _ _ s.acks h ?_ ?_
  · exact h.fresh p
  · intro l hl
    obtain ⟨halong, hseen⟩ := h.follows p l hl
    have hcl : Cleared (meets (s.pages p) l) (meets { s.pages p with log := [] } l) := by
      unfold meets
      split
      · exact ⟨[], List.nil_suffix, rfl⟩
      · exact ⟨[], List.nil_suffix, rfl⟩
    refine ⟨?_, ?_⟩
    · exact halong.simulate (fun x y u hxy => hxy.onmessage u)
        (fun x y => D.clear hclear s.server l.since x y) hcl
    · rw [hcl.seen, hseen]

/-- **The step lemma.** -/
theorem site_inv {s t : Site} {e : SiteEvent} (D : Display gap clear Q) (h : Inv Q s)
    (hfair : Fair gap clear s e) (hst : site_step s e = some t) : Inv Q t := by
  cases e with
  | web e =>
      have he : ∀ kind value, e = .on_sample kind value → isfinite value = true := by
        rintro kind value rfl
        exact hfair.finite kind value rfl
      have hw : ∃ t', web_step s.server e = some t' ∧ { s with server := t' } = t := by
        cases e with
        | post_ack => cases hst
        | _ => exact Option.map_eq_some_iff.mp hst
      obtain ⟨t', ht', rfl⟩ := hw
      exact inv_server s.acks D h he ht'
  | connect p =>
      simp only [site_step] at hst
      split at hst
      · cases hst
        exact inv_connect D h
      · cases hst
  | onopen p =>
      simp only [site_step] at hst
      split at hst
      · rename_i l hl
        split at hst
        · cases hst
        · rename_i ho
          cases hst
          exact inv_onopen h hl (by simpa using ho)
      · cases hst
  | onmessage p =>
      simp only [site_step] at hst
      split at hst
      · rename_i l hl
        split at hst
        · rename_i u wire ho hw
          cases hst
          exact inv_onmessage h hl ho hw
        · cases hst
      · cases hst
  | events p =>
      simp only [site_step] at hst
      split at hst
      · rename_i l hl
        split at hst
        · cases hst
          exact inv_events D h hl (hfair.look p l rfl hl)
        · cases hst
      · cases hst
  | lost p =>
      cases hst
      refine inv_relink h (fun _ => rfl) ?_
      simp
  | logClear p =>
      cases hst
      exact inv_clear D (hfair.clear p rfl) h
  | ack =>
      simp only [site_step] at hst
      split at hst
      · obtain ⟨t', ht', rfl⟩ := Option.map_eq_some_iff.mp hst
        refine inv_server _ D h ?_ ht'
        simp
      · cases hst
  | ack_lost =>
      simp only [site_step] at hst
      split at hst
      · cases hst
        exact ⟨h.keeps, h.finite, h.fresh, h.follows⟩
      · cases hst

theorem init_inv {s : Site} (h : SiteInit s) : Inv Q s := by
  obtain ⟨hweb, hpages, hlinks, -⟩ := h
  have hcb : s.server.callback = none := hweb.2.2.2.2.2.2.2.2.1
  have hrec : s.server.recorded = [] := hweb.2.2.2.2.2.2.2.2.2.2.2.2.1
  refine ⟨init_keeps hweb, ⟨?_, ?_⟩, ?_, ?_⟩
  · simp [hrec]
  · simp [hcb]
  · simp [hpages, hlinks, Page.blank]
  · simp [hlinks]

/-- **The rule for displays.** In every run whose steps are fair, a display holds of every page
with a connection, now and after each update on its way. -/
theorem reach_follows (D : Display gap clear Q) {s : Site}
    (h : Reach site_step (Fair gap clear) SiteInit s) : Inv Q s :=
  h.invariant (fun _ => init_inv) fun _ _ _ hinv hfair hst => site_inv D hinv hfair hst

end Rule

end WavemakerWeb.EventStream
