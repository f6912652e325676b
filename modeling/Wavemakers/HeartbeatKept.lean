/-
The other side of the dead man's switch: while a page stays, the bridge hears it.

From some moment on a page is alive at every check of the server, the checks come at most `beat`
apart, and every heartbeat arrives within `delay` of its check. The heartbeats may overtake each
other. Then, once `beat + delay` has passed, the bridge has always heard one that recently, so a
watch with a longer timeout leaves the wave alone (`page_keeps_wave`).
-/
import Wavemakers.HeartbeatWatch

set_option autoImplicit false

namespace WavemakerWeb

open Interleave WavemakerBridge

/-! ## Heartbeats on their way -/

def in_callback (s : PageServer) : List ℕ :=
  match s.callback with
  | some (.heartbeat time) => [time]
  | _ => []

/-- The checks whose heartbeats have not arrived, in their order. -/
def inflight (s : PageServer) : List ℕ := s.heartbeats ++ in_callback s

theorem in_callback_congr {s t : PageServer}
    (h : ∀ time, t.callback = some (.heartbeat time) ↔ s.callback = some (.heartbeat time)) :
    in_callback t = in_callback s := by
  unfold in_callback
  split
  · rename_i time ht
    rw [(h time).mp ht]
  · rename_i ht
    split
    · rename_i time hs
      exact absurd ((h time).mpr hs) (ht time)
    · rfl

/-- Only a check and an arrival change them. -/
theorem moves_inflight {s t : PageServer} {e : WebEvent} (hm : EventStream.Moves s e t)
    (hcheck : e ≠ .send_heartbeat) (htake : ∀ i, e ≠ .take_heartbeat i) :
    inflight t = inflight s := by
  rcases hm with ⟨ns, -, rfl⟩ | ⟨time, kind, value, hc, rfl⟩ | ⟨kind, value, -, hc, rfl⟩ |
    ⟨msg, rfl⟩ | ⟨-, rfl⟩ | ⟨he, -, -, rfl⟩ | ⟨time, hc, rfl⟩ | ⟨i, he, rfl⟩ | hq
  · rfl
  · simp [inflight, in_callback, PageServer.on_sample, hc]
  · simp [inflight, in_callback, hc]
  · unfold PageServer.on_log
    split <;> rfl
  · rfl
  · exact absurd he hcheck
  · simp [inflight, in_callback, hc]
  · exact absurd he (htake i)
  · rw [inflight, inflight, hq.heartbeats, in_callback_congr hq.heartbeat]

/-- Checks are in the past. -/
structure Clocked (r : Rig) : Prop where
  clock : r.bridge.now = r.site.server.now
  past : ∀ time ∈ inflight r.site.server, time ≤ r.bridge.now

/-- A check that finds a page alive. -/
theorem check_inflight {s t : PageServer} (h : web_step s .send_heartbeat = some t)
    (hp : s.page_alive = true) : t.now = s.now ∧ inflight t = inflight s ++ [s.now] := by
  obtain ⟨hc, rfl⟩ := calls_back_eq (web_step_act h)
  simp [PageServer.send_heartbeat, hp, inflight, in_callback, hc]

theorem check_clocked {s t : PageServer} (h : web_step s .send_heartbeat = some t) :
    t.now = s.now ∧ ∀ time ∈ inflight t, time ∈ inflight s ∨ time = s.now := by
  by_cases hp : s.page_alive = true
  · obtain ⟨hnow, hin⟩ := check_inflight h hp
    refine ⟨hnow, ?_⟩
    simp [hin]
  · obtain ⟨-, rfl⟩ := calls_back_eq (web_step_act h)
    simp only [PageServer.send_heartbeat, hp]
    exact ⟨rfl, fun _ h => .inl h⟩

theorem taken_inflight {s t : PageServer} {i : ℕ} (h : web_step s (.take_heartbeat i) = some t) :
    t.now = s.now ∧ ∀ time ∈ inflight t, time ∈ inflight s := by
  have hact := web_step_act h
  simp only [web_act] at hact
  split at hact
  · cases hact
    refine ⟨rfl, ?_⟩
    intro time ht
    rcases List.mem_append.mp ht with ht | ht
    · exact List.mem_append_left _ (List.mem_of_mem_eraseIdx ht)
    · exact List.mem_append_right _ ht
  · cases hact

/-- What a step of the site does to the checks. -/
theorem site_inflight {s t : Site} {e : SiteEvent} (hshared : shared e = false)
    (h : site_step s e = some t) : t.server.now = s.server.now ∧
      (inflight t.server = inflight s.server ∧ e ≠ .web .send_heartbeat ∨
        web_step s.server .send_heartbeat = some t.server ∧ e = .web .send_heartbeat) := by
  rcases site_server h with hsame | ⟨e', hweb, he⟩
  · rw [hsame]
    refine ⟨rfl, ?_⟩
    by_cases hcheck : e = .web .send_heartbeat
    · subst hcheck
      obtain ⟨t', ht', rfl⟩ := Option.map_eq_some_iff.mp h
      have hsame : t' = s.server := hsame
      subst hsame
      exact .inr ⟨ht', rfl⟩
    · exact .inl ⟨rfl, hcheck⟩
  · have hm := EventStream.act_moves (web_step_act hweb)
    have hclock : ∀ ns, e' ≠ .clock ns := by
      rintro ns rfl
      rcases he with rfl | ⟨-, he⟩
      · cases hshared
      · cases he
    refine ⟨moves_now hm hclock, ?_⟩
    by_cases hcheck : e' = .send_heartbeat
    · subst hcheck
      rcases he with rfl | ⟨-, he⟩
      · exact .inr ⟨hweb, rfl⟩
      · cases he
    · refine .inl ⟨moves_inflight hm hcheck ?_, ?_⟩
      · rintro i rfl
        rcases he with rfl | ⟨-, he⟩
        · cases hshared
        · cases he
      · rintro rfl
        rcases he with he | ⟨he, -⟩
        · cases he
          exact hcheck rfl
        · cases he

/-- The bridge's own steps take no time. -/
theorem bridge_still {r : Rig} {e : Event} {r' : Rig} (h : rig_step r (.bridge e) = some r') :
    r'.site = r.site ∧ r'.bridge.now = r.bridge.now ∧
      r'.bridge.heartbeat_seen_ = r.bridge.heartbeat_seen_ ∧
      r'.bridge.last_heartbeat_ = r.bridge.last_heartbeat_ := by
  simp only [rig_step] at h
  split at h
  · cases h
  · cases h
  · rename_i hclock hbeat
    obtain ⟨t, ht, rfl⟩ := Option.map_eq_some_iff.mp h
    have hpulse := pulse_step ht
    refine ⟨rfl, ?_, ?_, ?_⟩
    · have := congrArg Pulse.now hpulse
      cases e <;> first | exact this | exact absurd rfl (hclock _)
    · have := congrArg Pulse.seen hpulse
      cases e <;> first | exact this | exact absurd rfl hbeat
    · have := congrArg Pulse.last hpulse
      cases e <;> first | exact this | exact absurd rfl hbeat

/-! ## From any moment on -/

theorem rig_clocked {r r' : Rig} {e : RigEvent} (h : Clocked r) (hst : rig_step r e = some r') :
    Clocked r' := by
  cases e with
  | clock ns =>
      cases hst
      refine ⟨by simp only [h.clock], ?_⟩
      intro time ht
      exact (h.past time ht).trans (Nat.le_add_right _ _)
  | site e =>
      simp only [rig_step] at hst
      split at hst
      · cases hst
      · rename_i hshared
        obtain ⟨site, hsite, rfl⟩ := Option.map_eq_some_iff.mp hst
        obtain ⟨hnow, ⟨hin, -⟩ | ⟨hcheck, -⟩⟩ := site_inflight (by simpa using hshared) hsite
        · refine ⟨by rw [hnow, h.clock], ?_⟩
          rw [hin]
          exact h.past
        · refine ⟨by rw [hnow, h.clock], ?_⟩
          intro time ht
          rcases (check_clocked hcheck).2 time ht with ht | rfl
          · exact h.past time ht
          · exact h.clock.ge
  | bridge e =>
      obtain ⟨hsite, hnow, -⟩ := bridge_still hst
      refine ⟨?_, ?_⟩
      · rw [hsite, hnow, h.clock]
      · rw [hsite, hnow]
        exact h.past
  | heartbeat i =>
      obtain ⟨server, hserver, rfl⟩ := Option.map_eq_some_iff.mp hst
      obtain ⟨hnow, hin⟩ := taken_inflight hserver
      have hbridge : ((step r.bridge .heartbeat).getD r.bridge).now = r.bridge.now := by
        by_cases hsub : r.bridge.subscribed = true <;> simp [step, hsub]
      refine ⟨by simp only [hbridge, hnow, h.clock], ?_⟩
      intro time ht
      simp only [hbridge]
      exact h.past time (hin time ht)
  | heartbeat_lost i =>
      obtain ⟨server, hserver, rfl⟩ := Option.map_eq_some_iff.mp hst
      obtain ⟨hnow, hin⟩ := taken_inflight hserver
      exact ⟨by simp only [hnow, h.clock], fun time ht => h.past time (hin time ht)⟩

theorem init_clocked {r : Rig} (h : RigInit r) : Clocked r := by
  obtain ⟨⟨hweb, -⟩, -, hclock, -⟩ := h
  have hcb : r.site.server.callback = none := hweb.2.2.2.2.2.2.2.2.1
  have hbeats : r.site.server.heartbeats = [] := hweb.2.2.2.2.2.2.2.2.2.2.2.1
  exact ⟨hclock, by simp [inflight, in_callback, hbeats, hcb]⟩

theorem reach_clocked {C : Rig → RigEvent → Prop} {r : Rig} (h : Reach rig_step C RigInit r) :
    Clocked r :=
  h.invariant (fun _ => init_clocked) fun _ _ _ hinv _ hst => rig_clocked hinv hst

/-- The history: the time of the last check. -/
def note (last : ℕ) (r : Rig) (e : RigEvent) : ℕ :=
  if e = .site (.web .send_heartbeat) then r.bridge.now else last

/-- From `since` on: the bridge is active, a page is alive at every check, the next check comes
within `beat`, and a heartbeat arrives within `delay` of its check. -/
structure Prompt (beat delay since : ℕ) (x : Rig × ℕ) (e : RigEvent) : Prop where
  active : x.1.bridge.subscribed = true
  page : e = .site (.web .send_heartbeat) → x.1.site.server.page_alive = true
  lost : ∀ i, e ≠ .heartbeat_lost i
  clock : ∀ ns, e = .clock ns → x.1.bridge.now + ns ≤ x.2 + beat ∧
    ∀ time ∈ inflight x.1.site.server, since ≤ time → x.1.bridge.now + ns ≤ time + delay

/-- Any state the system can be in. -/
def Starts (since : ℕ) (x : Rig × ℕ) : Prop :=
  Reach rig_step Any RigInit x.1 ∧ x.1.bridge.now = since ∧ x.2 = since

section Kept

variable {beat delay since : ℕ}

/-- The bridge has heard a heartbeat that arrived at `time` or later, or `time` is `since`. -/
def Heard (since : ℕ) (r : Rig) (time : ℕ) : Prop :=
  time ≤ since ∨ r.bridge.heartbeat_seen_ = true ∧ time ≤ r.bridge.last_heartbeat_

/-- The checks on their way that are not from before. -/
def recent (since : ℕ) (r : Rig) : List ℕ :=
  (inflight r.site.server).filter fun time => since ≤ time

/-- The oldest heartbeat on its way follows one that was heard by at most `beat`. -/
structure Kept (beat delay since : ℕ) (x : Rig × ℕ) : Prop where
  clocked : Clocked x.1
  begun : since ≤ x.1.bridge.now
  noted : x.2 ≤ x.1.bridge.now
  due : x.1.bridge.now ≤ x.2 + beat
  late : ∀ time ∈ recent since x.1, x.1.bridge.now ≤ time + delay
  first : ∀ time, (recent since x.1).head? = some time →
    ∃ heard, Heard since x.1 heard ∧ time ≤ heard + beat
  none : recent since x.1 = [] → Heard since x.1 x.2

/-- Some heartbeat was heard not too long ago. -/
theorem Kept.heard {x : Rig × ℕ} (h : Kept beat delay since x) :
    ∃ heard, Heard since x.1 heard ∧ x.1.bridge.now ≤ heard + (beat + delay) := by
  have hdue := h.due
  cases hrecent : recent since x.1 with
  | nil => exact ⟨x.2, h.none hrecent, by omega⟩
  | cons time rest =>
      obtain ⟨heard, hheard, hle⟩ := h.first time (by rw [hrecent]; rfl)
      have hlate := h.late time (by rw [hrecent]; exact List.mem_cons_self)
      exact ⟨heard, hheard, by omega⟩

theorem starts_kept {x : Rig × ℕ} (h : Starts since x) : Kept beat delay since x := by
  obtain ⟨hreach, hnow, hnote⟩ := h
  have hclocked := reach_clocked hreach
  have htime : ∀ time ∈ recent since x.1, time = since := by
    intro time ht
    obtain ⟨hin, hge⟩ := List.mem_filter.mp ht
    have hle := hclocked.past time hin
    have hge : since ≤ time := by simpa using hge
    omega
  refine ⟨hclocked, hnow.ge, by omega, by omega, ?_, ?_, ?_⟩
  · intro time ht
    rw [htime time ht, hnow]
    exact Nat.le_add_right _ _
  · intro time ht
    rw [htime time (List.mem_of_mem_head? ht)]
    exact ⟨since, .inl le_rfl, Nat.le_add_right _ _⟩
  · intro _
    exact .inl hnote.le

/-- Nothing happens to the heartbeats, and no time passes. -/
theorem kept_still {x : Rig × ℕ} {r : Rig} (h : Kept beat delay since x) (hclocked : Clocked r)
    (hnow : r.bridge.now = x.1.bridge.now)
    (hin : inflight r.site.server = inflight x.1.site.server)
    (hseen : r.bridge.heartbeat_seen_ = x.1.bridge.heartbeat_seen_)
    (hlast : r.bridge.last_heartbeat_ = x.1.bridge.last_heartbeat_) :
    Kept beat delay since (r, x.2) := by
  have hrecent : recent since r = recent since x.1 := by rw [recent, recent, hin]
  have hheard : ∀ time, Heard since x.1 time → Heard since r time := by
    intro time ht
    rwa [Heard, hseen, hlast]
  refine ⟨hclocked, by rw [hnow]; exact h.begun, by rw [hnow]; exact h.noted,
    by rw [hnow]; exact h.due, ?_, ?_, ?_⟩
  · rw [hrecent, hnow]
    exact h.late
  · rw [hrecent]
    intro time ht
    obtain ⟨heard, hhd, hle⟩ := h.first time ht
    exact ⟨heard, hheard heard hhd, hle⟩
  · rw [hrecent]
    exact fun hnil => hheard x.2 (h.none hnil)

/-- A check: the heartbeat is the oldest on its way, or there is an older one. -/
theorem kept_check {x : Rig × ℕ} {site : Site} (h : Kept beat delay since x)
    (hclocked : Clocked { x.1 with site := site })
    (hin : inflight site.server = inflight x.1.site.server ++ [x.1.bridge.now]) :
    Kept beat delay since ({ x.1 with site := site }, x.1.bridge.now) := by
  have hrecent : recent since { x.1 with site := site } =
      recent since x.1 ++ [x.1.bridge.now] := by
    simp [recent, hin, h.begun]
  refine ⟨hclocked, h.begun, le_rfl, Nat.le_add_right _ _, ?_, ?_, ?_⟩
  · rw [hrecent]
    intro time ht
    rcases List.mem_append.mp ht with ht | ht
    · exact h.late time ht
    · rw [List.mem_singleton.mp ht]
      exact Nat.le_add_right _ _
  · rw [hrecent]
    cases hold : recent since x.1 with
    | nil =>
        intro time ht
        have ht : x.1.bridge.now = time := by simpa using ht
        exact ⟨x.2, h.none hold, by rw [← ht]; exact h.due⟩
    | cons first rest =>
        intro time ht
        exact h.first time (by rw [hold]; simpa using ht)
  · rw [hrecent]
    simp

/-- An arrival is later than every check. -/
theorem kept_arrival {x : Rig × ℕ} {server : PageServer} {i : ℕ} (h : Kept beat delay since x)
    (hsub : x.1.bridge.subscribed = true)
    (hst : web_step x.1.site.server (.take_heartbeat i) = some server) :
    Kept beat delay since ({ x.1 with
      site := { x.1.site with server := server }
      bridge := (step x.1.bridge .heartbeat).getD x.1.bridge }, x.2) := by
  obtain ⟨hnow, hin⟩ := taken_inflight hst
  have hbridge : (step x.1.bridge .heartbeat).getD x.1.bridge =
      { x.1.bridge with last_heartbeat_ := x.1.bridge.now, heartbeat_seen_ := true } := by
    simp [step, hsub]
  rw [hbridge]
  refine ⟨⟨by simp only [hnow, h.clocked.clock], fun time ht => h.clocked.past time (hin time ht)⟩,
    h.begun, h.noted, h.due, ?_, ?_, ?_⟩
  · intro time ht
    obtain ⟨hmem, hge⟩ := List.mem_filter.mp ht
    exact h.late time (List.mem_filter.mpr ⟨hin time hmem, hge⟩)
  · intro time ht
    have hmem := (List.mem_filter.mp (List.mem_of_mem_head? ht)).1
    have hpast := h.clocked.past time (hin time hmem)
    exact ⟨x.1.bridge.now, .inr ⟨rfl, le_rfl⟩, hpast.trans (Nat.le_add_right _ _)⟩
  · intro _
    exact .inr ⟨rfl, h.noted⟩

theorem step_kept {x y : Rig × ℕ} {e : RigEvent} (h : Kept beat delay since x)
    (hok : Prompt beat delay since x e) (hst : observe rig_step note x e = some y) :
    Kept beat delay since y := by
  obtain ⟨r, k⟩ := y
  obtain ⟨hstep, hk⟩ := observe_eq_some.mp hst
  have hstep : rig_step x.1 e = some r := hstep
  have hk : k = note x.2 x.1 e := hk
  have hclocked := rig_clocked h.clocked hstep
  subst hk
  cases e with
  | clock ns =>
      obtain ⟨hdue, hlate⟩ := hok.clock ns rfl
      cases hstep
      refine ⟨hclocked, h.begun.trans (Nat.le_add_right _ _), h.noted.trans (Nat.le_add_right _ _),
        hdue, ?_, h.first, h.none⟩
      intro time ht
      obtain ⟨hmem, hge⟩ := List.mem_filter.mp ht
      exact hlate time hmem (by simpa using hge)
  | site e =>
      simp only [rig_step] at hstep
      split at hstep
      · cases hstep
      · rename_i hshared
        obtain ⟨site, hsite, rfl⟩ := Option.map_eq_some_iff.mp hstep
        obtain ⟨hnow, ⟨hin, hne⟩ | ⟨hcheck, rfl⟩⟩ := site_inflight (by simpa using hshared) hsite
        · have hnote : note x.2 x.1 (.site e) = x.2 := by simp [note, hne]
          rw [hnote]
          exact kept_still h hclocked rfl hin rfl rfl
        · obtain ⟨-, hin⟩ := check_inflight hcheck (hok.page rfl)
          rw [← h.clocked.clock] at hin
          exact kept_check h hclocked hin
  | bridge e =>
      obtain ⟨hsite, hnow, hseen, hlast⟩ := bridge_still hstep
      exact kept_still h hclocked hnow (by rw [hsite]) hseen hlast
  | heartbeat i =>
      obtain ⟨server, hserver, rfl⟩ := Option.map_eq_some_iff.mp hstep
      exact kept_arrival h hok.active hserver
  | heartbeat_lost i => exact absurd rfl (hok.lost i)

theorem reach_kept {x : Rig × ℕ}
    (h : Reach (observe rig_step note) (Prompt beat delay since) (Starts since) x) :
    Kept beat delay since x :=
  h.invariant (fun _ => starts_kept) fun _ _ _ hinv hok hst => step_kept hinv hok hst

end Kept

/-- **A page keeps the wave.** From any state of pages, server and bridge at the time `since`, in
every run in which the bridge stays active, the server finds a page alive at each of its checks, a
check comes at least every `beat`, and its heartbeat arrives within `delay`: after `beat + delay`
the bridge finds the heartbeat alive, if its timeout is longer than that, and a tick of the watch
timer leaves the state alone. -/
theorem page_keeps_wave {beat delay since : ℕ} {x : Rig × ℕ}
    (h : Reach (observe rig_step note) (Prompt beat delay since) (Starts since) x)
    (hsince : since + beat + delay < x.1.bridge.now)
    (htimeout : (beat : ℚ) + delay < x.1.bridge.heartbeat_timeout_) :
    x.1.bridge.heartbeat_alive = true ∧
      ∀ t, step x.1.bridge .watch = some t → t.state_ = x.1.bridge.state_ := by
  obtain ⟨heard, hheard, hle⟩ := (reach_kept h).heard
  have halive : x.1.bridge.heartbeat_alive = true := by
    rw [heartbeat_alive_iff]
    rcases hheard with hheard | ⟨hseen, hlast⟩
    · omega
    · refine ⟨hseen, ?_⟩
      have hnow : (x.1.bridge.now : ℚ) ≤ x.1.bridge.last_heartbeat_ + (beat + delay) := by
        exact_mod_cast (by omega : x.1.bridge.now ≤ x.1.bridge.last_heartbeat_ + (beat + delay))
      linarith
  refine ⟨halive, ?_⟩
  intro t ht
  obtain ⟨-, heq⟩ := Option.ite_none_right_eq_some.mp ht
  cases heq
  have hview := view_watch x.1.bridge
  have hlost : x.1.bridge.lost = false := by simp [Bridge.lost, halive]
  rw [hlost, if_neg (by simp)] at hview
  exact congrArg View.state hview

/-! ### Two heartbeats -/

instance (beat delay since : ℕ) : ∀ x e, Decidable (Prompt beat delay since x e)
  | x, .clock ns =>
      decidable_of_iff (x.1.bridge.subscribed = true ∧ x.1.bridge.now + ns ≤ x.2 + beat ∧
          ∀ time ∈ inflight x.1.site.server, since ≤ time → x.1.bridge.now + ns ≤ time + delay)
        ⟨fun h => ⟨h.1, by simp, by simp, by rintro _ ⟨⟩; exact h.2⟩,
          fun h => ⟨h.active, h.clock ns rfl⟩⟩
  | x, .site e =>
      decidable_of_iff (x.1.bridge.subscribed = true ∧
          (e = .web .send_heartbeat → x.1.site.server.page_alive = true))
        ⟨fun h => ⟨h.1, by rintro ⟨⟩; exact h.2 rfl, by simp, by simp⟩,
          fun h => ⟨h.active, by rintro rfl; exact h.page rfl⟩⟩
  | x, .bridge _ | x, .heartbeat _ =>
      decidable_of_iff (x.1.bridge.subscribed = true)
        ⟨fun h => ⟨h, by simp, by simp, by simp⟩, fun h => h.active⟩
  | _, .heartbeat_lost i => .isFalse fun h => h.lost i rfl

/-- A page has acknowledged its first update. -/
def visited : List RigEvent :=
  [.bridge .configure, .bridge (.activate 1000000000), .site (.connect 0), .site (.onopen 0),
    .site (.events 0), .site (.onmessage 0), .site .ack]

def two_heartbeats : List RigEvent :=
  [.site (.web .send_heartbeat), .site (.web .resume), .clock 50000000, .heartbeat 0,
    .clock 50000000, .site (.web .send_heartbeat), .site (.web .resume), .clock 50000000,
    .heartbeat 0, .clock 50000000]

theorem page_keeps_wave_two_heartbeats : ∃ x : Rig × ℕ, x.1.bridge.now = 200000000 ∧
    x.1.bridge.heartbeat_alive = true := by
  have heval : ((run rig_step switched_on visited).bind fun r =>
      (run (guarded (observe rig_step note) (Prompt 100000000 50000000 0)) (r, 0)
        two_heartbeats).map fun x =>
          ((r.bridge.now, x.1.bridge.now), x.1.bridge.heartbeat_timeout_)) =
      some ((0, 200000000), 1000000000) := by
    decide +kernel
  obtain ⟨r, hr, heval⟩ := Option.bind_eq_some_iff.mp heval
  obtain ⟨x, hx, hval⟩ := Option.map_eq_some_iff.mp heval
  simp only [Prod.mk.injEq] at hval
  obtain ⟨⟨hr0, hnow⟩, htimeout⟩ := hval
  have hinit : RigInit switched_on := ⟨launched_init, constructed_init, rfl, rfl⟩
  have hstart : Starts 0 (r, 0) := ⟨.run (.init hinit) hr, hr0, rfl⟩
  have hreach : Reach (observe rig_step note) (Prompt 100000000 50000000 0) (Starts 0) x :=
    .guarded_run two_heartbeats (.init hstart) hx
  refine ⟨x, hnow, (page_keeps_wave hreach ?_ ?_).1⟩
  · rw [hnow]
    norm_num
  · rw [htimeout]
    norm_num

end WavemakerWeb
