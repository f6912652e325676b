/-
The plot and the log of an open page.

The displays of `EventStream.lean`: the series of a page against the samples the server recorded
(`plot`), and its log lines against the lines the server took in. A page that reconnects is given
samples it has already and clears its log, so its plot is complete but exact only before that,
while its log starts afresh.
-/
import Wavemakers.EventStream

set_option autoImplicit false

namespace WavemakerWeb.EventStream

open Interleave Backlog

/-! ## The plot -/

/-- The points of one kind. -/
def points (k : Kind) (h : List Sample) : List (ℕ × Double) :=
  (h.filter fun e => e.kind = k).map fun e => (e.time, e.value)

/-- The point is not older than the plot at `time`. -/
def young (time : ℕ) (point : ℕ × Double) : Bool := decide (time ≤ point.1 + PLOT_SECONDS)

/-- What the plot of one kind is to show at `time`: the samples of that kind of the last twenty
seconds. -/
def plot (k : Kind) (time : ℕ) (h : List Sample) : List (ℕ × Double) :=
  (points k h).filter (young time)

theorem points_append (k : Kind) (h l : List Sample) :
    points k (h ++ l) = points k h ++ points k l := by
  simp [points]

theorem plot_append (k : Kind) (time : ℕ) (h l : List Sample) :
    plot k time (h ++ l) = plot k time h ++ plot k time l := by
  simp [plot, points_append]

/-- Going over a plot again at a later time. -/
theorem filter_plot {k : Kind} {time time' : ℕ} (h : time ≤ time') (l : List Sample) :
    (plot k time l).filter (young time') = plot k time' l := by
  rw [plot, List.filter_filter, plot]
  refine List.filter_congr fun point _ => ?_
  simp only [young, ← Bool.decide_and, decide_eq_decide]
  omega

/-- Old samples do not show. -/
theorem plot_old {k : Kind} {time : ℕ} {l : List Sample}
    (hold : ∀ e ∈ l, e.time + PLOT_SECONDS < time) : plot k time l = [] := by
  rw [plot, List.filter_eq_nil_iff]
  intro point hp
  obtain ⟨e, he, rfl⟩ := List.mem_map.mp hp
  have := hold e (List.mem_of_mem_filter he)
  simp only [young, decide_eq_true_eq]
  omega

/-- What the page had, and what is new of the history: together they show at `time`. -/
theorem plot_split {k : Kind} {time n d : ℕ} {h : List Sample}
    (hold : ∀ e ∈ h.take d, e.time + PLOT_SECONDS < time) :
    plot k time h = plot k time (h.take n) ++ plot k time (h.drop (max d n)) := by
  have hmid : plot k time ((h.drop n).take (d - n)) = [] := by
    apply plot_old
    intro e he
    apply hold
    rw [List.take_drop] at he
    have hsub : e ∈ h.take (n + (d - n)) := List.mem_of_mem_drop he
    by_cases hnd : n ≤ d
    · rwa [Nat.add_sub_cancel' hnd] at hsub
    · -- nothing lies between
      rw [Nat.sub_eq_zero_of_le (by omega), List.drop_eq_nil_of_le (by simp)] at he
      cases he
  conv_lhs => rw [← List.take_append_drop n h, ← List.take_append_drop (d - n) (h.drop n)]
  rw [plot_append, plot_append, hmid, List.nil_append, List.drop_drop]
  congr 3
  omega

theorem points_pairwise {k : Kind} {h : List Sample}
    (hs : h.Pairwise fun a b => a.time ≤ b.time) (time : ℕ) :
    (points k h).Pairwise fun a b =>
      decide (b.1 + PLOT_SECONDS < time) → decide (a.1 + PLOT_SECONDS < time) := by
  rw [points, List.pairwise_map]
  refine (hs.filter _).imp ?_
  intro a b hab
  simp only [decide_eq_true_eq]
  omega

theorem young_eq (time : ℕ) :
    (fun point : ℕ × Double => !decide (point.1 + PLOT_SECONDS < time)) = young time := by
  funext point
  rw [young, ← decide_not, decide_eq_decide]
  omega

/-- The buffer lacks nothing that the plot shows at any later time. -/
theorem Keeps.old {s : PageServer} {d : ℕ}
    (hold : ∀ e ∈ s.recorded.take d, e.time + PLOT_WINDOW_S < s.now) :
    ∀ e ∈ s.recorded.take d, e.time + PLOT_SECONDS < s.now := by
  intro e he
  have := hold e he
  unfold PLOT_WINDOW_S at this
  unfold PLOT_SECONDS
  omega

theorem onUpdate_series (x : Page) (u : Update) (k : Kind) :
    (x.onUpdate u).series k = (x.series k ++ points k u.samples).dropWhile fun point =>
      point.1 + PLOT_SECONDS < u.time := by
  unfold Page.onUpdate Page.appendLogs
  dsimp only
  split <;> rfl

theorem onUpdate_serverTime (x : Page) (u : Update) : (x.onUpdate u).serverTime = u.time := by
  unfold Page.onUpdate Page.appendLogs
  dsimp only
  split <;> rfl

theorem onUpdate_connections (x : Page) (u : Update) :
    (x.onUpdate u).connections = x.connections := by
  unfold Page.onUpdate Page.appendLogs
  dsimp only
  split <;> rfl

/-- What the page has taken of the samples, and when. -/
structure Taken (s : PageServer) (x : Page) : Prop where
  le : x.seen.1 ≤ s.recorded.length
  time : x.seen.1 ≠ 0 → x.serverTime ≤ s.now

/-- The plot of a page that has connected once is exactly that of its last update. -/
structure Exact (s : PageServer) (_ : ℕ) (x : Page) : Prop where
  taken : Taken s x
  once : x.connections ≠ 0
  series : x.connections = 1 → ∀ k, x.series k = plot k x.serverTime (s.recorded.take x.seen.1)

/-- The plot of any page has all of it. -/
structure Complete (s : PageServer) (_ : ℕ) (x : Page) : Prop where
  taken : Taken s x
  series : ∀ k, (plot k x.serverTime (s.recorded.take x.seen.1)).Sublist (x.series k)

theorem Taken.grow {s t : PageServer} {x : Page} (hnow : s.now ≤ t.now)
    (hrec : s.recorded <+: t.recorded) (h : Taken s x) :
    Taken t x ∧ t.recorded.take x.seen.1 = s.recorded.take x.seen.1 := by
  obtain ⟨l, hl⟩ := hrec
  refine ⟨⟨?_, ?_⟩, ?_⟩
  · have := h.le
    rw [← hl, List.length_append]
    omega
  · intro hne
    exact le_trans (h.time hne) hnow
  · rw [← hl, List.take_append_of_le_length h.le]

/-- Taking an update: the old plot, gone over again, and the new points. -/
theorem plot_next {s : PageServer} {x : Page} {k : Kind} {d : ℕ}
    (hold : ∀ e ∈ s.recorded.take d, e.time + PLOT_WINDOW_S < s.now) (h : Taken s x) :
    plot k s.now s.recorded =
      (plot k x.serverTime (s.recorded.take x.seen.1)).filter (young s.now) ++
        plot k s.now (s.recorded.drop (max d x.seen.1)) := by
  rw [plot_split (n := x.seen.1) (Keeps.old hold)]
  congr 1
  by_cases hseen : x.seen.1 = 0
  · simp [hseen, plot, points]
  · rw [filter_plot (h.time hseen)]

/-- The state of the server's samples at an update, after it is taken. -/
theorem taken_update {s : PageServer} {x : Page} {d : ℕ} (hd : s.samples.Holds s.recorded d) :
    Taken s { x.onUpdate (s.snapshot x.seen.1 x.seen.2).1 with
      seen := (s.samples.count, s.logs.count) } := by
  refine ⟨?_, ?_⟩
  · simp only [hd.count, le_refl]
  · intro _
    simp only [onUpdate_serverTime]
    exact le_refl s.now

theorem exact_display : Display (fun _ _ _ => True) True Exact := by
  refine ⟨?_, ?_, ?_, ?_⟩
  · intro s t since x hnow hrec _ h
    obtain ⟨htaken, heq⟩ := h.taken.grow hnow hrec
    refine ⟨htaken, h.once, ?_⟩
    rw [heq]
    exact h.series
  · intro s x _ hfresh
    refine ⟨⟨Nat.zero_le _, ?_⟩, ?_, ?_⟩
    · simp [Page.onopen, Page.connect]
    · simp [Page.onopen, Page.connect]
    · intro hc k
      have hzero : x.connections = 0 := by simpa [Page.onopen, Page.connect] using hc
      simp [Page.onopen, Page.connect, hfresh hzero k, plot, points]
  · intro s since x hk _ h
    obtain ⟨d, hd, hold⟩ := hk.samples
    refine ⟨taken_update hd, ?_, ?_⟩
    · simpa [onUpdate_connections] using h.once
    · intro hc k
      have hone : x.connections = 1 := by simpa [onUpdate_connections] using hc
      -- the new series is a filter because the times of the two parts do not go back
      have hpair : (x.series k ++ points k (s.recorded.drop (max d x.seen.1))).Pairwise fun a b =>
          decide (b.1 + PLOT_SECONDS < s.now) → decide (a.1 + PLOT_SECONDS < s.now) := by
        have hall := points_pairwise (k := k) hk.sorted s.now
        have hsub : (x.series k ++ points k (s.recorded.drop (max d x.seen.1))).Sublist
            (points k s.recorded) := by
          conv_rhs => rw [← List.take_append_drop x.seen.1 s.recorded, points_append]
          refine List.Sublist.append ?_ ?_
          · rw [h.series hone k, plot]
            exact List.filter_sublist
          · refine List.Sublist.map _ (List.Sublist.filter _ ?_)
            exact List.drop_sublist_drop_left _ (le_max_right _ _)
        exact hall.sublist hsub
      simp only [onUpdate_series, onUpdate_serverTime]
      simp only [PageServer.snapshot, hd.after, hd.count, List.take_length]
      rw [dropWhile_eq_filter hpair, young_eq, List.filter_append, h.series hone k,
        plot_next hold h.taken]
      rfl
  · rintro _ s since x y ⟨log, -, rfl⟩ h
    exact ⟨⟨h.taken.le, h.taken.time⟩, h.once, h.series⟩

theorem complete_display : Display (fun _ _ _ => True) True Complete := by
  refine ⟨?_, ?_, ?_, ?_⟩
  · intro s t since x hnow hrec _ h
    obtain ⟨htaken, heq⟩ := h.taken.grow hnow hrec
    refine ⟨htaken, ?_⟩
    rw [heq]
    exact h.series
  · intro s x _ _
    refine ⟨⟨Nat.zero_le _, ?_⟩, ?_⟩
    · simp [Page.onopen, Page.connect]
    · simp [Page.onopen, Page.connect, plot, points]
  · intro s since x hk _ h
    obtain ⟨d, hd, hold⟩ := hk.samples
    refine ⟨taken_update hd, ?_⟩
    intro k
    simp only [onUpdate_series, onUpdate_serverTime]
    simp only [PageServer.snapshot, hd.after, hd.count, List.take_length]
    refine List.Sublist.trans ?_ (filter_sublist_dropWhile _ _)
    rw [young_eq, List.filter_append, plot_next hold h.taken]
    exact ((h.series k).filter _).append (List.Sublist.refl _)
  · rintro _ s since x y ⟨log, -, rfl⟩ h
    exact ⟨⟨h.taken.le, h.taken.time⟩, h.series⟩

/-- **The plot of a page is exact.** In every run over finite samples, however the steps of the
server, of its connections and of the pages interleave and however long an update is on its way: a
page that has not reconnected plots exactly the samples that were recorded when its last update was
taken and are not older than twenty seconds at that time, each once and in order. When nothing is
on its way, that update is the last one sent. -/
theorem plot_exact {s : Site} (h : Reach site_step (Fair (fun _ _ _ => True) True) SiteInit s)
    {p : ℕ} {l : Link} (hl : s.links p = some l) (ho : l.opened = true)
    (hone : (s.pages p).connections = 1) :
    (∀ k, (s.pages p).series k =
      plot k (s.pages p).serverTime (s.server.recorded.take (s.pages p).seen.1)) ∧
      (l.wire = [] → (s.pages p).seen = (l.last_sample, l.last_log)) := by
  obtain ⟨halong, hseen⟩ := (reach_follows exact_display h).follows p l hl
  have hmeets : meets (s.pages p) l = s.pages p := by rw [meets, if_pos ho]
  rw [hmeets] at halong hseen
  refine ⟨halong.head.series hone, ?_⟩
  intro hw
  simpa [hw] using hseen

/-- **The plot of a page is complete**, also after any number of reconnections, which give the page
samples it has already. -/
theorem plot_complete {s : Site} (h : Reach site_step (Fair (fun _ _ _ => True) True) SiteInit s)
    {p : ℕ} {l : Link} (hl : s.links p = some l) (ho : l.opened = true) (k : Kind) :
    (plot k (s.pages p).serverTime (s.server.recorded.take (s.pages p).seen.1)).Sublist
      ((s.pages p).series k) := by
  obtain ⟨halong, -⟩ := (reach_follows complete_display h).follows p l hl
  rw [meets, if_pos ho] at halong
  exact halong.head.series k

/-! ## The log -/

/-- A look of `_events` comes before more lines are logged than the server keeps. -/
def timely (s : PageServer) (since cursor : ℕ) : Prop :=
  s.logs.count ≤ max cursor since + LOG_HISTORY

/-- The page shows some of what it was given, in order. -/
structure Ordered (s : PageServer) (_ : ℕ) (x : Page) : Prop where
  log : ∃ got, Reader.InOrder ⟨x.seen.2, got⟩ s.logged ∧ x.log <:+ got

def first_line : Log where
  sec := 0
  nanosec := 0
  level := 20
  name := "wavemakers.ladertanken.bridge".toList
  msg := "ready"

theorem reach_next {C : Site → SiteEvent → Prop} {s t : Site} (e : SiteEvent)
    (h : Reach site_step C SiteInit s) (hC : C s e) (hst : site_step s e = some t) :
    Reach site_step C SiteInit t :=
  h.step hC hst

/-- A sample, a log line, and a page that connects and gets its first update. -/
theorem first_visit : ∃ s l, Reach site_step (Fair timely False) SiteInit s ∧
    s.links 0 = some l ∧ l.opened = true ∧ (s.pages 0).connections = 1 ∧
    (s.pages 0).series .setpoint = [(0, .fin 1)] ∧ (s.pages 0).log ≠ [] := by
  have h0 : Reach site_step (Fair timely False) SiteInit launched := .init launched_init
  have h1 := reach_next (.web (.on_sample .setpoint (.fin 1))) h0
    ⟨by rintro kind value ⟨⟩; rfl, by simp, by simp⟩ rfl
  have h2 := reach_next (.web .resume) h1 ⟨by simp, by simp, by simp⟩ rfl
  have h3 := reach_next (.web (.on_log first_line)) h2 ⟨by simp, by simp, by simp⟩ rfl
  have h4 := reach_next (.connect 0) h3 ⟨by simp, by simp, by simp⟩ rfl
  have hlook : ∀ n, 1 ≤ max 0 n + LOG_HISTORY := by
    intro n
    unfold LOG_HISTORY
    omega
  have h5 := reach_next (.events 0) h4 ⟨by simp, by rintro p l ⟨⟩ ⟨⟩; exact hlook _, by simp⟩ rfl
  have h6 := reach_next (.onopen 0) h5 ⟨by simp, by simp, by simp⟩ rfl
  have h7 := reach_next (.onmessage 0) h6 ⟨by simp, by simp, by simp⟩ rfl
  exact ⟨_, _, h7, rfl, rfl, rfl, by decide +kernel, by decide +kernel⟩

theorem plot_exact_first_visit : ∃ s : Site, (s.pages 0).series .setpoint = [(0, .fin 1)] ∧
    ∀ k, (s.pages 0).series k =
      plot k (s.pages 0).serverTime (s.server.recorded.take (s.pages 0).seen.1) := by
  obtain ⟨s, l, h, hl, ho, hone, hseries, -⟩ := first_visit
  exact ⟨s, hseries, (plot_exact (h.mono fun _ _ => Fair.any) hl ho hone).1⟩

theorem plot_complete_first_visit : ∃ s : Site, (s.pages 0).series .setpoint = [(0, .fin 1)] ∧
    (plot .setpoint (s.pages 0).serverTime (s.server.recorded.take (s.pages 0).seen.1)).Sublist
      ((s.pages 0).series .setpoint) := by
  obtain ⟨s, l, h, hl, ho, -, hseries, -⟩ := first_visit
  exact ⟨s, hseries, plot_complete (h.mono fun _ _ => Fair.any) hl ho .setpoint⟩

end WavemakerWeb.EventStream
