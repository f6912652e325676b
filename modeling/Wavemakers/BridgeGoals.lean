/-
The bridge and its goal.

The invariants of the stop protocol, over every order of callbacks. The timer is
armed exactly while the bridge is stopping; a goal whose response is due and that
has been stopped is canceled when it is accepted, by the flag or because its
generation has passed; and an inactive node stays inactive. From these follow that
a stop wins over a start in flight and that the bridge is never stuck.

That an idle bridge owns no goal needs a condition. `on_deactivate` leaves a goal
whose response or result is due behind, with its handle and flags, and
`on_activate` publishes idle without looking at them. `leftover_cancels_a_start`
is the run in which the flag of such a goal cancels the next one.
-/
import Wavemakers.BridgeProtocol

set_option autoImplicit false

namespace WavemakerBridge

open Interleave

namespace View

/-! ## What the action client owes -/

structure Tracks (c : View) : Prop where
  responses : ∀ n ∈ c.responses, n ≤ c.generation
  results : ∀ n ∈ c.results, n ≤ c.generation
  pending : c.generation ∈ c.responses → c.requested = true
  resulted : c.generation ∈ c.results → c.requested = false
  accept : c.cancel_on_accept = true → c.requested = true

/-- The generation after this one has no goal yet. -/
theorem Tracks.fresh {c : View} (h : Tracks c) :
    c.generation + 1 ∉ c.responses ∧ c.generation + 1 ∉ c.results := by
  refine ⟨fun hn => ?_, fun hn => ?_⟩
  · have := h.responses _ hn
    omega
  · have := h.results _ hn
    omega

theorem Tracks.forget {c : View} (h : Tracks c) : Tracks c.forget := by
  refine ⟨fun n hn => ?_, fun n hn => ?_, fun hn => absurd hn h.fresh.1,
    fun hn => absurd hn h.fresh.2, nofun⟩
  · exact (h.responses n hn).trans (Nat.le_succ _)
  · exact (h.results n hn).trans (Nat.le_succ _)

theorem Tracks.idle {c : View} (h : Tracks c) : Tracks c.idle :=
  ⟨h.responses, h.results, h.pending, h.resulted, h.accept⟩

theorem Tracks.finish {c : View} (h : Tracks c) : Tracks c.finish :=
  ⟨h.responses, h.results, h.pending, h.resulted, h.accept⟩

theorem Tracks.abandon {c : View} (h : Tracks c) : Tracks c.abandon := h.forget.idle.finish

theorem Tracks.begin_stop {c : View} (h : Tracks c) (d : Option ℕ) : Tracks (c.begin_stop d) := by
  refine ⟨h.responses, h.results, h.pending, h.resulted, fun hc => ?_⟩
  rcases Bool.or_eq_true_iff.mp hc with hc | hc
  · exact h.accept hc
  · exact hc

theorem Tracks.stop {c : View} (h : Tracks c) (d : Option ℕ) (available : Bool) :
    Tracks (c.stop d available) := by
  have hbegin := h.begin_stop d
  unfold View.stop
  split
  · split
    · exact ⟨hbegin.responses, hbegin.results, hbegin.pending, hbegin.resulted, hbegin.accept⟩
    · exact hbegin.abandon
  · split
    · exact ⟨h.responses, h.results, h.pending, h.resulted, h.accept⟩
    · exact ⟨h.responses, h.results, h.pending, h.resulted, h.accept⟩

theorem Tracks.start {c : View} (h : Tracks c) : Tracks c.start := by
  refine ⟨fun n hn => ?_, fun n hn => ?_, fun _ => rfl, fun hn => absurd hn h.fresh.2,
    fun _ => rfl⟩
  · rcases Finset.mem_insert.mp hn with rfl | hn
    · exact le_rfl
    · exact (h.responses n hn).trans (Nat.le_succ _)
  · exact (h.results n hn).trans (Nat.le_succ _)

theorem Tracks.accepted {c : View} (h : Tracks c) {n : ℕ} (hn : n ∈ c.responses) :
    Tracks (c.respond n true) := by
  have herase : ∀ k ∈ c.responses.erase n, k ≤ c.generation :=
    fun k hk => h.responses k (Finset.mem_of_mem_erase hk)
  have hinsert : ∀ k ∈ insert n c.results, k ≤ c.generation := by
    intro k hk
    rcases Finset.mem_insert.mp hk with rfl | hk
    · exact h.responses _ hn
    · exact h.results k hk
  unfold View.respond View.accept
  rw [if_pos rfl]
  split
  · rename_i hne
    refine ⟨herase, hinsert, fun hg => h.pending (Finset.mem_of_mem_erase hg), fun hg => ?_,
      h.accept⟩
    rcases Finset.mem_insert.mp hg with hg | hg
    · exact absurd hg.symm hne
    · exact h.resulted hg
  · rename_i heq
    have heq : n = c.generation := not_not.mp heq
    split
    · exact ⟨herase, hinsert, fun hg => absurd hg (by rw [heq]; exact Finset.notMem_erase _ _),
        fun _ => rfl, nofun⟩
    · rename_i hc
      exact ⟨herase, hinsert, fun hg => absurd hg (by rw [heq]; exact Finset.notMem_erase _ _),
        fun _ => rfl, fun hc' => absurd hc' hc⟩

theorem Tracks.rejected {c : View} (h : Tracks c) (n : ℕ) : Tracks (c.respond n false) := by
  have herase : ∀ k ∈ c.responses.erase n, k ≤ c.generation :=
    fun k hk => h.responses k (Finset.mem_of_mem_erase hk)
  unfold View.respond View.reject
  rw [if_neg nofun]
  split
  · exact ⟨herase, h.results, fun hg => h.pending (Finset.mem_of_mem_erase hg), h.resulted,
      h.accept⟩
  · rename_i heq
    have heq : n = c.generation := not_not.mp heq
    exact ⟨herase, h.results, fun hg => absurd hg (by rw [heq]; exact Finset.notMem_erase _ _),
      fun _ => rfl, nofun⟩

theorem Tracks.result {c : View} (h : Tracks c) (n : ℕ) : Tracks (c.result n) := by
  have herase : ∀ k ∈ c.results.erase n, k ≤ c.generation :=
    fun k hk => h.results k (Finset.mem_of_mem_erase hk)
  unfold View.result
  dsimp only
  split
  · exact ⟨h.responses, herase, h.pending, fun hg => h.resulted (Finset.mem_of_mem_erase hg),
      h.accept⟩
  · exact ⟨h.responses, herase, h.pending, fun hg => h.resulted (Finset.mem_of_mem_erase hg),
      h.accept⟩

theorem Tracks.does {c c' : View} {a : Act} (h : Tracks c) (hx : Does c a c') : Tracks c' := by
  cases hx with
  | skip => exact h
  | start _ _ => exact h.start
  | stop _ => exact h.stop _ _
  | @leave available =>
      have hstop := (h.stop none available).finish
      exact ⟨hstop.responses, hstop.results, hstop.pending, hstop.resulted, hstop.accept⟩
  | @respond n accepted hn =>
      cases accepted with
      | true => exact h.accepted hn
      | false => exact h.rejected n
  | result hn => exact h.result _
  | cancel_reply _ =>
      unfold View.cancel_reply
      dsimp only
      split
      · exact ⟨h.responses, h.results, h.pending, h.resulted, h.accept⟩
      · exact ⟨h.responses, h.results, h.pending, h.resulted, h.accept⟩
  | timeout _ => exact h.abandon
  | configure _ | cleanup _ => exact ⟨nofun, nofun, nofun, nofun, h.accept⟩
  | activate _ => exact ⟨h.responses, h.results, h.pending, h.resulted, h.accept⟩

/-! ## The state and the timer -/

/-- What the state says of the timer, the pending request and the flag. -/
structure Steady (c : View) : Prop where
  inactive : c.active = false → c.state = .Inactive
  timer : c.timer = true ↔ c.state = .Stopping
  done : c.done.isSome = true → c.timer = true
  stopped : c.requested = true → c.state = .Stopping ∨ c.state = .Inactive →
    c.cancel_on_accept = true

theorem idle_state (c : View) :
    c.idle.state = .Inactive ∧ c.state = .Inactive ∨ c.idle.state = .Idle ∧ c.state ≠ .Inactive := by
  by_cases hs : c.state = .Inactive
  · exact .inl ⟨if_pos hs, hs⟩
  · exact .inr ⟨if_neg hs, hs⟩

/-- The pending stop is over, one way or the other. -/
theorem settle {c : View} (hinactive : c.active = false → c.state = .Inactive)
    (hflag : c.requested = true → c.state = .Inactive → c.cancel_on_accept = true) :
    Steady c.idle.finish := by
  have hstate : c.idle.finish.state = c.idle.state := rfl
  rcases c.idle_state with ⟨hidle, hs⟩ | ⟨hidle, hs⟩
  · refine ⟨fun _ => hstate.trans hidle, ⟨nofun, fun h => ?_⟩, nofun, fun hr _ => hflag hr hs⟩
    rw [hstate, hidle] at h
    cases h
  · refine ⟨fun ha => absurd (hinactive ha) hs, ⟨nofun, fun h => ?_⟩, nofun, fun _ h => ?_⟩
    · rw [hstate, hidle] at h
      cases h
    · rw [hstate, hidle] at h
      rcases h with h | h
      · cases h
      · cases h

theorem Steady.abandon {c : View} (hinactive : c.active = false → c.state = .Inactive) :
    Steady c.abandon := settle hinactive nofun

theorem Steady.stop {c : View} (h : Steady c) (ha : c.active = true) (d : Option ℕ)
    (available : Bool) : Steady (c.stop d available) := by
  unfold View.stop
  split
  · split
    · refine ⟨fun hn => ?_, ⟨fun _ => rfl, fun _ => rfl⟩, fun _ => rfl, fun hr _ => ?_⟩
      · have hn : c.active = false := hn
        rw [ha] at hn
        cases hn
      · have hr : c.requested = true := hr
        show (c.cancel_on_accept || c.requested) = true
        rw [hr, Bool.or_true]
    · refine .abandon fun hn => ?_
      have hn : c.active = false := hn
      rw [ha] at hn
      cases hn
  · split
    · exact ⟨h.inactive, h.timer, h.done, h.stopped⟩
    · exact ⟨h.inactive, h.timer, h.done, h.stopped⟩

/-- A goal without a response is flagged by a stop. -/
theorem stop_flags {c : View} {d : Option ℕ} {available : Bool}
    (hr : (c.stop d available).requested = true) :
    (c.stop d available).cancel_on_accept = true := by
  unfold View.stop at hr ⊢
  split at hr
  · rename_i ho
    rw [if_pos ho]
    split at hr
    · rename_i havailable
      have hr : c.requested = true := hr
      rw [if_pos havailable]
      show (c.cancel_on_accept || c.requested) = true
      rw [hr, Bool.or_true]
    · cases hr
  · rename_i ho
    have hr : c.requested = true := by
      split at hr
      · exact hr
      · exact hr
    rw [View.ours, hr, Bool.true_or] at ho
    exact absurd rfl ho

theorem Steady.leave {c : View} (available : Bool) : Steady (c.leave available) :=
  ⟨fun _ => rfl, ⟨nofun, nofun⟩, nofun, fun hr _ => stop_flags (c := c) (d := none) hr⟩

theorem Steady.accept {c : View} {n : ℕ} (h : Steady c)
    (hpending : n = c.generation → c.requested = true) : Steady (c.accept n) := by
  unfold View.accept
  split
  · exact ⟨h.inactive, h.timer, h.done, h.stopped⟩
  · rename_i heq
    have hr := hpending (not_not.mp heq)
    split
    · exact ⟨h.inactive, h.timer, h.done, nofun⟩
    · rename_i hc
      -- a goal that was stopped is flagged, so this one was not
      have hstate : ¬ (c.state = .Stopping ∨ c.state = .Inactive) :=
        fun hor => hc (h.stopped hr hor)
      refine ⟨fun ha => absurd (.inr (h.inactive ha)) hstate, ⟨fun ht => ?_, nofun⟩, h.done, nofun⟩
      exact absurd (.inl (h.timer.mp ht)) hstate

theorem Steady.reject {c : View} {n : ℕ} (h : Steady c) : Steady (c.reject n) := by
  unfold View.reject
  split
  · exact h
  · exact settle h.inactive nofun

theorem Steady.result {c : View} (h : Steady c) (n : ℕ) : Steady (c.result n) := by
  unfold View.result
  dsimp only
  split
  · exact settle h.inactive fun hr hs => h.stopped hr (.inr hs)
  · exact ⟨h.inactive, h.timer, h.done, h.stopped⟩

theorem Steady.does {c c' : View} {a : Act} (h : Steady c) (ht : Tracks c) (hx : Does c a c') :
    Steady c' := by
  cases hx with
  | skip => exact h
  | start ha hidle =>
      refine ⟨fun hn => ?_, ⟨fun htimer => ?_, nofun⟩, h.done, fun _ hor => ?_⟩
      · have hn : c.active = false := hn
        rw [ha] at hn
        cases hn
      -- the stop timer runs in Stopping only, and a wave is started from Idle
      · have hstop := h.timer.mp htimer
        rw [hidle] at hstop
        cases hstop
      · rcases hor with hor | hor
        · cases hor
        · cases hor
  | stop ha => exact h.stop ha _ _
  | leave => exact .leave _
  | @respond n accepted hn =>
      cases accepted with
      | true =>
          refine Steady.accept ⟨h.inactive, h.timer, h.done, h.stopped⟩ fun heq => ?_
          apply ht.pending
          rw [← show n = c.generation from heq]
          exact hn
      | false => exact Steady.reject ⟨h.inactive, h.timer, h.done, h.stopped⟩
  | result _ => exact h.result _
  | cancel_reply _ =>
      unfold View.cancel_reply
      dsimp only
      split
      · exact ⟨h.inactive, h.timer, h.done, h.stopped⟩
      · exact ⟨h.inactive, h.timer, h.done, h.stopped⟩
  | timeout _ => exact .abandon h.inactive
  | configure ha =>
      have hs := h.inactive ha
      refine ⟨fun _ => rfl, ⟨fun htimer => ?_, nofun⟩, h.done, fun hr _ => h.stopped hr (.inr hs)⟩
      have hstop := h.timer.mp htimer
      rw [hs] at hstop
      cases hstop
  | activate ha =>
      have hs := h.inactive ha
      refine ⟨nofun, ⟨fun htimer => ?_, nofun⟩, h.done, fun _ hor => ?_⟩
      · have hstop := h.timer.mp htimer
        rw [hs] at hstop
        cases hstop
      · rcases hor with hor | hor
        · cases hor
        · cases hor
  | cleanup ha => exact ⟨fun _ => h.inactive ha, h.timer, h.done, h.stopped⟩

/-! ## Stopped goals -/

/-- The action stops or abandons the goals sent so far. -/
def Act.stops : Act → Bool
  | .stop _ _ | .leave _ | .timeout => true
  | _ => false

/-- `upto` is the generation at the last stop: the goals up to it were sent before
it. A goal whose response is due and that was stopped is flagged. -/
structure Marked (c : View) (upto : ℕ) : Prop where
  bound : upto ≤ c.generation
  flagged : c.generation ∈ c.responses → c.generation ≤ upto → c.cancel_on_accept = true

theorem stop_generation (c : View) (d : Option ℕ) (available : Bool) :
    (c.stop d available).generation = c.generation ∧
        (c.stop d available).responses = c.responses ∨
      (c.stop d available).generation = c.generation + 1 := by
  unfold View.stop
  split
  · split
    · exact .inl ⟨rfl, rfl⟩
    · exact .inr rfl
  · split
    · exact .inl ⟨rfl, rfl⟩
    · exact .inl ⟨rfl, rfl⟩

theorem Marked.stop {c : View} (ht : Tracks c) (d : Option ℕ) (available : Bool) :
    Marked (c.stop d available) c.generation := by
  rcases c.stop_generation d available with ⟨hg, hr⟩ | hg
  · refine ⟨hg.ge, fun hin _ => ?_⟩
    exact stop_flags ((ht.stop d available).pending hin)
  · refine ⟨by omega, fun _ hle => ?_⟩
    omega

theorem Marked.does {c c' : View} {a : Act} {upto : ℕ} (h : Marked c upto) (ht : Tracks c)
    (hx : Does c a c') : Marked c' (if a.stops then c.generation else upto) := by
  cases hx with
  | skip => exact h
  | start _ _ =>
      refine ⟨h.bound.trans (Nat.le_succ _), fun _ hle => ?_⟩
      have hle : c.generation + 1 ≤ upto := hle
      have := h.bound
      omega
  | stop _ => exact .stop ht _ _
  | @leave available =>
      have hstop := Marked.stop ht none available
      exact ⟨hstop.bound, hstop.flagged⟩
  | @respond n accepted hn =>
      have herase : c.generation ∈ c.responses.erase n → c.generation ≤ upto →
          c.cancel_on_accept = true :=
        fun hin hle => h.flagged (Finset.mem_of_mem_erase hin) hle
      -- the response of the newest goal is due once
      have hgone : n = c.generation → c.generation ∉ c.responses.erase n := by
        rintro rfl
        exact Finset.notMem_erase _ _
      cases accepted with
      | true =>
          show Marked (View.accept _ n) upto
          unfold View.accept
          split
          · exact ⟨h.bound, herase⟩
          · rename_i heq
            have hgone := hgone (not_not.mp heq)
            split
            · exact ⟨h.bound, fun hin _ => absurd hin hgone⟩
            · exact ⟨h.bound, fun hin _ => absurd hin hgone⟩
      | false =>
          show Marked (View.reject _ n) upto
          unfold View.reject
          split
          · exact ⟨h.bound, herase⟩
          · rename_i heq
            have hgone := hgone (not_not.mp heq)
            exact ⟨h.bound, fun hin _ => absurd hin hgone⟩
  | @result n _ =>
      show Marked (View.result c n) upto
      unfold View.result
      dsimp only
      split
      · exact ⟨h.bound, h.flagged⟩
      · exact ⟨h.bound, h.flagged⟩
  | @cancel_reply i call _ =>
      show Marked (View.cancel_reply c i call) upto
      unfold View.cancel_reply
      dsimp only
      split
      · exact ⟨h.bound, h.flagged⟩
      · exact ⟨h.bound, h.flagged⟩
  | timeout _ =>
      refine ⟨Nat.le_succ _, fun _ hle => ?_⟩
      have hle : c.generation + 1 ≤ c.generation := hle
      omega
  | configure _ | cleanup _ => exact ⟨h.bound, nofun⟩
  | activate _ => exact ⟨h.bound, h.flagged⟩

end View

/-! ## Every run -/

/-- The history: the generation at the last stop or abandon. The goals up to it
were started before, those above it after. -/
def record (upto : ℕ) (s : Bridge) (e : Event) : ℕ :=
  if (action s e).stops then s.goal_generation_ else upto

/-- A bridge with its history, just constructed. -/
def Begins (x : Bridge × ℕ) : Prop := Init x.1 ∧ x.2 = 0

structure Sound (s : Bridge) : Prop where
  subscribed : Subscribed s
  tracks : (view s).Tracks
  steady : (view s).Steady

theorem step_sound {s t : Bridge} {e : Event} (h : Sound s) (hs : step s e = some t) : Sound t := by
  have hdoes := view_step h.subscribed hs
  exact ⟨step_subscribed h.subscribed hs, h.tracks.does hdoes, h.steady.does h.tracks hdoes⟩

theorem init_sound {s : Bridge} (h : Init s) : Sound s := by
  obtain ⟨hp, -, -, hsub, -, -, -, -, hr, hc, -, -, hd, ht, hs, -, hresp, hres, -, -⟩ := h
  have noone : ∀ n, n ∉ (view s).responses ∧ n ∉ (view s).results := by
    intro n
    simp only [view, hresp, hres, Finset.notMem_empty, not_false_eq_true, and_self]
  refine ⟨?_, ⟨?_, ?_, ?_, ?_, ?_⟩, ⟨?_, ⟨?_, ?_⟩, ?_, ?_⟩⟩
  · intro hyes
    rw [hsub] at hyes
    cases hyes
  · exact fun n hn => absurd hn (noone n).1
  · exact fun n hn => absurd hn (noone n).2
  · exact fun hn => absurd hn (noone _).1
  · exact fun hn => absurd hn (noone _).2
  · simp only [view, hc]
    rintro ⟨⟩
  · exact fun _ => hs
  · simp only [view, ht]
    rintro ⟨⟩
  · simp only [view, hs]
    rintro ⟨⟩
  · simp only [view, hd]
    rintro ⟨⟩
  · simp only [view, hr]
    rintro ⟨⟩

theorem reach_sound {C : Bridge → Event → Prop} {s : Bridge} (h : Reach step C Init s) : Sound s :=
  h.invariant (fun _ hs => init_sound hs) fun _ _ _ hs _ hstep => step_sound hs hstep

theorem reach_marked {C : Bridge × ℕ → Event → Prop} {x : Bridge × ℕ}
    (h : Reach (observe step record) C Begins x) : Sound x.1 ∧ (view x.1).Marked x.2 := by
  have hinit : ∀ y : Bridge × ℕ, Begins y → Sound y.1 ∧ (view y.1).Marked y.2 := by
    rintro ⟨s, upto⟩ ⟨hs, rfl⟩
    refine ⟨init_sound hs, Nat.zero_le _, fun hin => ?_⟩
    obtain ⟨-, -, -, -, -, -, -, -, -, -, -, -, -, -, -, -, hresp, -, -, -⟩ := hs
    have hin : s.goal_generation_ ∈ s.responses := hin
    rw [hresp] at hin
    exact absurd hin (Finset.notMem_empty _)
  have hstep : ∀ (y : Bridge × ℕ) e z, Sound y.1 ∧ (view y.1).Marked y.2 → C y e →
      observe step record y e = some z → Sound z.1 ∧ (view z.1).Marked z.2 := by
    rintro y e z ⟨hsound, hmarked⟩ - hz
    obtain ⟨hs, heq⟩ := observe_eq_some.mp hz
    refine ⟨step_sound hsound hs, ?_⟩
    rw [heq]
    exact hmarked.does hsound.tracks (view_step hsound.subscribed hs)
  exact h.invariant hinit hstep

/-! ## A stop wins -/

theorem accepted_stale {s : Bridge} {n : ℕ} (hn : n ≠ s.goal_generation_) :
    s.goal_response_callback n true = s.send (.cancel_goal n) := by
  rw [Bridge.goal_response_callback, if_pos hn, if_pos rfl]

theorem accepted_flagged {s : Bridge} {n : ℕ} (hn : n = s.goal_generation_)
    (hflag : s.cancel_on_accept_ = true) :
    s.goal_response_callback n true = { s with
      goal_requested_ := false, goal_handle_ := some n, cancel_on_accept_ := false }.send
        (.cancel_goal n) := by
  rw [Bridge.goal_response_callback, if_neg (not_not.mpr hn), if_pos rfl, Bridge.on_goal_response]
  exact if_pos hflag

/-- An accepting response of a goal that was stopped or abandoned. -/
theorem stopped_goal_canceled {s t : Bridge} {upto n : ℕ} (hm : (view s).Marked upto)
    (hn : n ≤ upto) (hs : step s (.goal_response n true) = some t) :
    t.out = s.out ++ [.cancel_goal n] ∧ t.state_ = s.state_ := by
  obtain ⟨hin, heq⟩ := Option.ite_none_right_eq_some.mp hs
  have heq := Option.some.inj heq
  rw [← heq]
  by_cases hgen : n = s.goal_generation_
  · have hflag : s.cancel_on_accept_ = true := by
      apply hm.flagged
      · rw [show (view s).generation = n from hgen.symm]
        exact hin
      · rw [show (view s).generation = n from hgen.symm]
        exact hn
    rw [accepted_flagged (s := s.responded n true) hgen hflag]
    exact ⟨rfl, rfl⟩
  · rw [accepted_stale (s := s.responded n true) hgen]
    exact ⟨rfl, rfl⟩

/-- The callbacks that end in `cleanup_helper`. -/
def leaves : Event → Bool
  | .deactivate | .shutdown | .error => true
  | _ => false

def NotActivating (_ : Bridge) (e : Event) : Prop := ∀ timeout, e ≠ .activate timeout

theorem leave_inactive {s t : Bridge} {e : Event} (h : Sound s) (he : leaves e = true)
    (hs : step s e = some t) : (view t).active = false := by
  have hdoes := view_step h.subscribed hs
  generalize view t = c at hdoes ⊢
  cases e with
  | deactivate | shutdown | error =>
      cases hdoes
      rfl
  | _ => cases he

/-- The replies of the action server change neither the activity nor the generation. -/
theorem respond_keeps (c : View) (n : ℕ) (accepted : Bool) :
    (c.respond n accepted).active = c.active ∧
      (c.respond n accepted).generation = c.generation := by
  cases accepted with
  | true =>
      show (View.accept _ n).active = _ ∧ (View.accept _ n).generation = _
      unfold View.accept
      split
      · exact ⟨rfl, rfl⟩
      · split
        · exact ⟨rfl, rfl⟩
        · exact ⟨rfl, rfl⟩
  | false =>
      show (View.reject _ n).active = _ ∧ (View.reject _ n).generation = _
      unfold View.reject
      split
      · exact ⟨rfl, rfl⟩
      · exact ⟨rfl, rfl⟩

theorem result_keeps (c : View) (n : ℕ) :
    (c.result n).active = c.active ∧ (c.result n).generation = c.generation := by
  unfold View.result
  dsimp only
  split
  · exact ⟨rfl, rfl⟩
  · exact ⟨rfl, rfl⟩

theorem cancel_reply_keeps (c : View) (i : ℕ) (call : CancelCall) :
    (c.cancel_reply i call).active = c.active ∧
      (c.cancel_reply i call).generation = c.generation := by
  unfold View.cancel_reply
  dsimp only
  split
  · exact ⟨rfl, rfl⟩
  · exact ⟨rfl, rfl⟩

theorem stays_inactive {c c' : View} {a : View.Act} (hx : c.Does a c') (ha : a ≠ .activate)
    (hc : c.active = false) : c'.active = false := by
  cases hx with
  | skip => exact hc
  | start hactive _ | stop hactive =>
      rw [hc] at hactive
      cases hactive
  | leave => rfl
  | respond _ => exact (respond_keeps c _ _).1.trans hc
  | result _ => exact (result_keeps c _).1.trans hc
  | cancel_reply _ => exact (cancel_reply_keeps c _ _).1.trans hc
  | timeout _ => exact hc
  | configure _ | cleanup _ => rfl
  | activate _ => exact absurd rfl ha

theorem action_not_activate {s : Bridge} {e : Event} (he : ∀ timeout, e ≠ .activate timeout) :
    action s e ≠ .activate := by
  cases e with
  | activate timeout => exact absurd rfl (he timeout)
  | watch =>
      rw [action]
      split
      · rintro ⟨⟩
      · rintro ⟨⟩
  | stop_topic data =>
      rw [action]
      split
      · rintro ⟨⟩
      · rintro ⟨⟩
  | start_topic data =>
      rw [action]
      split
      · rintro ⟨⟩
      · rintro ⟨⟩
  | _ => rintro ⟨⟩

/-- **A stop wins over a start in flight.** Whatever the order of the callbacks, the
accepting response of a goal that was stopped or abandoned after its start cancels
it and does nothing else, and a bridge that `cleanup_helper` has made inactive stays
so until the next activation. -/
theorem stop_wins {x : Bridge × ℕ} (h : Reach (observe step record) Any Begins x) :
    (∀ n t, n ≤ x.2 → step x.1 (.goal_response n true) = some t →
      t.out = x.1.out ++ [.cancel_goal n] ∧ t.state_ = x.1.state_) ∧
    (∀ e t u, leaves e = true → step x.1 e = some t →
      Reach step NotActivating (fun y => y = t) u → u.state_ = .Inactive) := by
  obtain ⟨hsound, hmarked⟩ := reach_marked h
  refine ⟨fun n t hn hs => stopped_goal_canceled hmarked hn hs, fun e t u he hs hu => ?_⟩
  have hinit : ∀ y, y = t → Sound y ∧ (view y).active = false := by
    rintro y rfl
    exact ⟨step_sound hsound hs, leave_inactive hsound he hs⟩
  have hstep : ∀ y e z, Sound y ∧ (view y).active = false → NotActivating y e →
      step y e = some z → Sound z ∧ (view z).active = false := by
    rintro y e z ⟨hy, hactive⟩ he hz
    refine ⟨step_sound hy hz, ?_⟩
    exact stays_inactive (view_step hy.subscribed hz) (action_not_activate he) hactive
  obtain ⟨hu, hactive⟩ := hu.invariant hinit hstep
  exact hu.steady.inactive hactive

/-- A wave is stopped while its start is in flight. -/
def stopped_in_flight : List Event := boot ++ [.start_topic true, .stop_topic true]

theorem start_in_flight_canceled :
    ∃ (x : Bridge × ℕ) (t : Bridge), Reach (observe step record) Any Begins x ∧
      x.1.state_ = .Stopping ∧ step x.1 (.goal_response 1 true) = some t ∧
      t.out = x.1.out ++ [.cancel_goal 1] ∧ t.state_ = .Stopping := by
  have heval : ((run (observe step record) (constructed, 0) stopped_in_flight).bind fun x =>
      (step x.1 (.goal_response 1 true)).map fun _ => (x.1.state_, x.2)) =
      some (.Stopping, 1) := by
    decide +kernel
  obtain ⟨x, hx, heval⟩ := Option.bind_eq_some_iff.mp heval
  obtain ⟨t, ht, hval⟩ := Option.map_eq_some_iff.mp heval
  simp only [Prod.mk.injEq] at hval
  obtain ⟨hstate, hupto⟩ := hval
  have hreach : Reach (observe step record) Any Begins x :=
    .run (.init ⟨constructed_init, rfl⟩) hx
  obtain ⟨hout, hsame⟩ := (stop_wins hreach).1 1 t hupto.ge ht
  exact ⟨x, t, hreach, hstate, ht, hout, hsame.trans hstate⟩

/-! ## Never stuck -/

theorem generation_le {c c' : View} {a : View.Act} (hx : c.Does a c') :
    c.generation ≤ c'.generation := by
  have hstop : ∀ (d : Option ℕ) (available : Bool),
      c.generation ≤ (c.stop d available).generation := by
    intro d available
    rcases c.stop_generation d available with ⟨hg, -⟩ | hg
    · exact hg.ge
    · omega
  cases hx with
  | skip => exact le_rfl
  | start _ _ => exact Nat.le_succ _
  | stop _ => exact hstop _ _
  | leave => exact hstop _ _
  | respond _ => exact (respond_keeps c _ _).2.ge
  | result _ => exact (result_keeps c _).2.ge
  | cancel_reply _ => exact (cancel_reply_keeps c _ _).2.ge
  | timeout _ => exact Nat.le_succ _
  | configure _ | cleanup _ | activate _ => exact le_rfl

/-- The bridge's own fields are as before. -/
def Unchanged (s t : Bridge) : Prop :=
  ∃ responses results out,
    t = { s with responses := responses, results := results, out := out }

theorem stale_response {s t : Bridge} {n : ℕ} {accepted : Bool} (hn : n < s.goal_generation_)
    (hs : step s (.goal_response n accepted) = some t) : Unchanged s t := by
  obtain ⟨-, heq⟩ := Option.ite_none_right_eq_some.mp hs
  cases heq
  unfold Bridge.goal_response_callback
  rw [if_pos (show n ≠ (s.responded n accepted).goal_generation_ from hn.ne)]
  split
  · exact ⟨_, _, _, rfl⟩
  · exact ⟨_, _, _, rfl⟩

theorem stale_result {s t : Bridge} {n : ℕ} {code : ResultCode} {text : String}
    (hn : n < s.goal_generation_) (hs : step s (.goal_result n code text) = some t) :
    Unchanged s t := by
  obtain ⟨-, heq⟩ := Option.ite_none_right_eq_some.mp hs
  cases heq
  unfold Bridge.result_callback
  rw [if_neg (show n ≠ s.goal_generation_ from hn.ne)]
  exact ⟨_, _, _, rfl⟩

/-- **The bridge is never stuck in stopping.** It is stopping exactly while the
timer is armed, and the timer leads back to idle with the goal forgotten: no later
response or result of it changes anything. -/
theorem never_stuck {s : Bridge} (h : Reach step Any Init s) :
    (s.state_ = .Stopping ↔ s.stop_timeout_ = true) ∧
    (s.state_ = .Stopping → ∃ t, step s .stop_timeout = some t ∧ t.state_ = .Idle ∧
      t.goal_requested_ = false ∧ t.cancel_on_accept_ = false ∧ t.goal_handle_ = none ∧
      t.stop_timeout_ = false ∧ s.goal_generation_ < t.goal_generation_ ∧
      ∀ u, Reach step Any (fun y => y = t) u → ∀ n ≤ s.goal_generation_,
        (∀ accepted v, step u (.goal_response n accepted) = some v → Unchanged u v) ∧
        (∀ code text v, step u (.goal_result n code text) = some v → Unchanged u v)) := by
  have hsound := reach_sound h
  refine ⟨hsound.steady.timer.symm, fun hstop => ?_⟩
  have htimer : s.stop_timeout_ = true := hsound.steady.timer.mpr hstop
  have hs : step s .stop_timeout = some (s.abandon_goal "No result from the controller") :=
    if_pos htimer
  refine ⟨_, hs, ?_⟩
  generalize ht : s.abandon_goal "No result from the controller" = t at hs ⊢
  have hview : view t = (view s).abandon := by
    rw [← ht]
    exact view_abandon_goal s _
  have hgen : t.goal_generation_ = s.goal_generation_ + 1 := congrArg View.generation hview
  have hstate : t.state_ = .Idle := by
    have hidle : (view t).state = (view s).abandon.state := congrArg View.state hview
    refine hidle.trans (if_neg ?_)
    rw [show (view s).forget.state = s.state_ from rfl, hstop]
    nofun
  refine ⟨hstate, congrArg View.requested hview, congrArg View.cancel_on_accept hview,
    congrArg View.handle hview, congrArg View.timer hview, by omega, fun u hu n hn => ?_⟩
  -- from here on the generation only grows
  have hinit : ∀ y, y = t → Sound y ∧ s.goal_generation_ < y.goal_generation_ := by
    rintro y rfl
    exact ⟨step_sound hsound hs, by omega⟩
  have hstep : ∀ y e z, Sound y ∧ s.goal_generation_ < y.goal_generation_ → Any y e →
      step y e = some z → Sound z ∧ s.goal_generation_ < z.goal_generation_ := by
    rintro y e z ⟨hy, hlt⟩ - hz
    have hle : y.goal_generation_ ≤ z.goal_generation_ :=
      generation_le (view_step hy.subscribed hz)
    exact ⟨step_sound hy hz, by omega⟩
  obtain ⟨-, hlt⟩ := hu.invariant hinit hstep
  have hn : n < u.goal_generation_ := by omega
  exact ⟨fun accepted v hv => stale_response hn hv, fun code text v hv => stale_result hn hv⟩

/-- The controller does not answer a stop. -/
theorem timeout_frees :
    ∃ s t : Bridge, Reach step Any Init s ∧ s.state_ = .Stopping ∧
      step s .stop_timeout = some t ∧ t.state_ = .Idle ∧ t.goal_requested_ = false := by
  have heval : ((run step constructed stopped_in_flight).map fun s => s.state_) =
      some .Stopping := by
    decide +kernel
  obtain ⟨s, hs, hstate⟩ := Option.map_eq_some_iff.mp heval
  have hreach : Reach step Any Init s := .run (.init constructed_init) hs
  obtain ⟨t, ht, hidle, hreq, -⟩ := (never_stuck hreach).2 hstate
  exact ⟨s, t, hreach, hstate, ht, hidle, hreq⟩

/-! ## An idle bridge -/

/-- The step activates a bridge that still has a goal from before. -/
def carries_over (s : Bridge) : Event → Bool
  | .activate _ => s.ours
  | _ => false

/-- The condition on a step. -/
def StepOk (s : Bridge) (e : Event) : Prop := carries_over s e = false

instance (s : Bridge) (e : Event) : Decidable (StepOk s e) :=
  inferInstanceAs (Decidable (_ = _))

namespace View

/-- An idle bridge has no goal, and whatever would cancel a goal has a stop
behind its start. -/
structure Clean (c : View) (upto : ℕ) : Prop where
  idle : c.state = .Idle → c.requested = false ∧ c.handle = none
  alone : c.requested = true → c.handle = none
  flag : c.cancel_on_accept = true → c.generation ≤ upto
  older : ∀ n ∈ c.responses, n < c.generation → n ≤ upto
  canceled : ∀ n ∈ c.canceled, n ≤ upto

section Clean

variable {c c' : View} {upto : ℕ}

theorem Clean.later (h : Clean c upto) {upto' : ℕ} (hle : upto ≤ upto') : Clean c upto' :=
  ⟨h.idle, h.alone, fun hc => (h.flag hc).trans hle, fun n hn hlt => (h.older n hn hlt).trans hle,
    fun n hn => (h.canceled n hn).trans hle⟩

theorem Clean.forgotten (ht : Tracks c) (hb : upto ≤ c.generation) (h : Clean c upto) :
    Clean c.abandon c.generation :=
  ⟨fun _ => ⟨rfl, rfl⟩, nofun, nofun, fun n hn _ => ht.responses n hn,
    fun n hn => (h.canceled n hn).trans hb⟩

theorem Clean.stop (ht : Tracks c) (hb : upto ≤ c.generation) (h : Clean c upto) (d : Option ℕ)
    (available : Bool) : Clean (c.stop d available) c.generation := by
  have hlater := h.later hb
  have hbegin : Clean (c.begin_stop d) c.generation :=
    ⟨nofun, h.alone, fun _ => le_rfl, hlater.older, hlater.canceled⟩
  unfold View.stop
  split
  · split
    · exact ⟨hbegin.idle, hbegin.alone, hbegin.flag, hbegin.older, hbegin.canceled⟩
    · exact (hbegin.forgotten (ht.begin_stop d) le_rfl)
  · split
    · exact ⟨hlater.idle, hlater.alone, hlater.flag, hlater.older, hlater.canceled⟩
    · exact ⟨hlater.idle, hlater.alone, hlater.flag, hlater.older, hlater.canceled⟩

theorem Clean.start (ht : Tracks c) (h : Clean c upto) (hidle : c.state = .Idle) :
    Clean c.start upto := by
  obtain ⟨hr, hhd⟩ := h.idle hidle
  refine ⟨nofun, fun _ => hhd, fun hc => ?_, fun n hn hlt => ?_, h.canceled⟩
  · rw [ht.accept hc] at hr
    cases hr
  · have hlt : n < c.generation + 1 := hlt
    rcases Finset.mem_insert.mp hn with rfl | hn
    · omega
    · refine h.older n hn (lt_of_le_of_ne (ht.responses n hn) ?_)
      -- the goal of this generation has had its response
      rintro rfl
      rw [ht.pending hn] at hr
      cases hr

theorem Clean.accepted (ht : Tracks c) (h : Clean c upto) {n : ℕ} (hn : n ∈ c.responses) :
    Clean (c.respond n true) upto := by
  have holder : ∀ k ∈ c.responses.erase n, k < c.generation → k ≤ upto :=
    fun k hk => h.older k (Finset.mem_of_mem_erase hk)
  have hcancel : n ≤ upto → ∀ k ∈ c.canceled ++ [n], k ≤ upto := by
    intro hle k hk
    rcases List.mem_append.mp hk with hk | hk
    · exact h.canceled k hk
    · rw [List.mem_singleton.mp hk]
      exact hle
  unfold View.respond View.accept
  rw [if_pos rfl]
  split
  · rename_i hne
    have hlt : n < c.generation := lt_of_le_of_ne (ht.responses n hn) hne
    exact ⟨h.idle, h.alone, h.flag, holder, hcancel (h.older n hn hlt)⟩
  · rename_i heq
    have heq : n = c.generation := not_not.mp heq
    have hr : c.requested = true := ht.pending (by rw [← heq]; exact hn)
    have hbusy : c.state ≠ .Idle := by
      intro hidle
      rw [(h.idle hidle).1] at hr
      cases hr
    split
    · rename_i hc
      refine ⟨fun hidle => absurd hidle hbusy, nofun, nofun, holder, hcancel ?_⟩
      rw [heq]
      exact h.flag hc
    · rename_i hc
      exact ⟨nofun, nofun, fun hc' => absurd hc' hc, holder, h.canceled⟩

theorem Clean.rejected (ht : Tracks c) (h : Clean c upto) {n : ℕ} (hn : n ∈ c.responses) :
    Clean (c.respond n false) upto := by
  have holder : ∀ k ∈ c.responses.erase n, k < c.generation → k ≤ upto :=
    fun k hk => h.older k (Finset.mem_of_mem_erase hk)
  unfold View.respond View.reject
  rw [if_neg nofun]
  split
  · exact ⟨h.idle, h.alone, h.flag, holder, h.canceled⟩
  · rename_i heq
    have heq : n = c.generation := not_not.mp heq
    have hr : c.requested = true := ht.pending (by rw [← heq]; exact hn)
    exact ⟨fun _ => ⟨rfl, h.alone hr⟩, nofun, nofun, holder, h.canceled⟩

theorem Clean.result (ht : Tracks c) (h : Clean c upto) {n : ℕ} (hn : n ∈ c.results) :
    Clean (c.result n) upto := by
  unfold View.result
  dsimp only
  split
  · rename_i heq
    have hr : c.requested = false := ht.resulted (by rw [← heq]; exact hn)
    exact ⟨fun _ => ⟨hr, rfl⟩, fun _ => rfl, h.flag, h.older, h.canceled⟩
  · exact ⟨h.idle, h.alone, h.flag, h.older, h.canceled⟩

theorem Clean.does {a : Act} (ht : Tracks c) (hb : upto ≤ c.generation) (h : Clean c upto)
    (hok : a = .activate → c.ours = false) (hx : Does c a c') :
    Clean c' (if a.stops then c.generation else upto) := by
  cases hx with
  | skip => exact h
  | start _ hidle => exact h.start ht hidle
  | stop _ => exact h.stop ht hb _ _
  | @leave available =>
      have hstop := h.stop ht hb none available
      exact ⟨nofun, hstop.alone, hstop.flag, hstop.older, hstop.canceled⟩
  | @respond n accepted hn =>
      cases accepted with
      | true => exact h.accepted ht hn
      | false => exact h.rejected ht hn
  | result hn => exact h.result ht hn
  | @cancel_reply i call _ =>
      show Clean (View.cancel_reply c i call) upto
      unfold View.cancel_reply
      dsimp only
      split
      · exact ⟨h.idle, h.alone, h.flag, h.older, h.canceled⟩
      · exact ⟨h.idle, h.alone, h.flag, h.older, h.canceled⟩
  | timeout _ => exact h.forgotten ht hb
  | configure _ => exact ⟨nofun, h.alone, h.flag, nofun, h.canceled⟩
  | cleanup _ => exact ⟨h.idle, h.alone, h.flag, nofun, h.canceled⟩
  | activate _ =>
      obtain ⟨hr, hhd⟩ := Bool.or_eq_false_iff.mp (hok rfl)
      have hhd := Option.not_isSome_iff_eq_none.mp (Bool.eq_false_iff.mp hhd)
      exact ⟨fun _ => ⟨hr, hhd⟩, h.alone, h.flag, h.older, h.canceled⟩

end Clean

end View

theorem action_activate {s : Bridge} {e : Event} (hok : StepOk s e) :
    action s e = .activate → (view s).ours = false := by
  intro ha
  by_cases he : ∃ timeout, e = .activate timeout
  · obtain ⟨timeout, rfl⟩ := he
    exact hok
  · exact absurd ha (action_not_activate fun timeout heq => he ⟨timeout, heq⟩)

theorem reach_clean {x : Bridge × ℕ}
    (h : Reach (observe step record) (fun x => StepOk x.1) Begins x) :
    (Sound x.1 ∧ (view x.1).Marked x.2) ∧ (view x.1).Clean x.2 := by
  have hinit : ∀ y : Bridge × ℕ, Begins y →
      (Sound y.1 ∧ (view y.1).Marked y.2) ∧ (view y.1).Clean y.2 := by
    intro y hy
    refine ⟨reach_marked (C := Any) (.init hy), ?_⟩
    obtain ⟨⟨-, -, -, -, -, -, -, -, hr, hc, -, -, -, -, hs, -, hresp, -, -, hout⟩, -⟩ := hy
    -- a new bridge is not idle, has no goal, and waits for no response
    refine ⟨fun hidle => ?_, fun hreq => ?_, fun hflag => ?_, fun n hn => ?_, fun n hn => ?_⟩
    · exact absurd (hs.symm.trans hidle) nofun
    · exact absurd (hr.symm.trans hreq) nofun
    · exact absurd (hc.symm.trans hflag) nofun
    · have hn : n ∈ y.1.responses := hn
      rw [hresp] at hn
      exact absurd hn (Finset.notMem_empty n)
    · obtain ⟨o, ho, -⟩ := List.mem_filterMap.mp hn
      rw [hout] at ho
      exact absurd ho List.not_mem_nil
  have hstep : ∀ (y : Bridge × ℕ) e z,
      (Sound y.1 ∧ (view y.1).Marked y.2) ∧ (view y.1).Clean y.2 → StepOk y.1 e →
      observe step record y e = some z →
      (Sound z.1 ∧ (view z.1).Marked z.2) ∧ (view z.1).Clean z.2 := by
    rintro y e z ⟨⟨hsound, hmarked⟩, hclean⟩ hok hz
    obtain ⟨hs, heq⟩ := observe_eq_some.mp hz
    have hdoes := view_step hsound.subscribed hs
    rw [heq]
    refine ⟨⟨step_sound hsound hs, hmarked.does hsound.tracks hdoes⟩, ?_⟩
    exact hclean.does hsound.tracks hmarked.bound (action_activate hok) hdoes
  exact h.invariant hinit hstep

/-- **An idle bridge owns no goal.** In every run in which the bridge is activated
with no goal left over from before, an idle bridge has neither a request nor a
handle nor the flag, and every goal it has canceled was stopped or abandoned after
its own start. -/
theorem idle_owns_nothing {x : Bridge × ℕ}
    (h : Reach (observe step record) (fun x => StepOk x.1) Begins x) :
    (x.1.state_ = .Idle → x.1.goal_requested_ = false ∧ x.1.cancel_on_accept_ = false ∧
      x.1.goal_handle_ = none) ∧
    (∀ n, Output.cancel_goal n ∈ x.1.out → n ≤ x.2) := by
  obtain ⟨⟨hsound, -⟩, hclean⟩ := reach_clean h
  refine ⟨fun hidle => ?_, fun n hn => ?_⟩
  · obtain ⟨hr, hhd⟩ := hclean.idle hidle
    refine ⟨hr, ?_, hhd⟩
    by_contra hc
    rw [Bool.not_eq_false] at hc
    have hreq := hsound.tracks.accept hc
    rw [hr] at hreq
    cases hreq
  · apply hclean.canceled
    exact List.mem_filterMap.mpr ⟨_, hn, rfl⟩

/-- A wave is stopped and ends before the bridge is deactivated and activated
again. -/
def stopped_and_reactivated : List Event :=
  stopped_in_flight ++ [.goal_response 1 true, .goal_result 1 .CANCELED "", .deactivate,
    .activate 1000000000]

theorem reactivated_owns_nothing :
    ∃ x : Bridge × ℕ, Reach (observe step record) (fun x => StepOk x.1) Begins x ∧
      x.1.state_ = .Idle ∧ x.1.goal_requested_ = false ∧ Output.cancel_goal 1 ∈ x.1.out ∧
      1 ≤ x.2 := by
  have heval : ((run (guarded (observe step record) fun x => StepOk x.1) (constructed, 0)
      stopped_and_reactivated).map fun x =>
        (x.1.state_, decide (Output.cancel_goal 1 ∈ x.1.out))) = some (.Idle, true) := by
    decide +kernel
  obtain ⟨x, hx, hval⟩ := Option.map_eq_some_iff.mp heval
  simp only [Prod.mk.injEq, decide_eq_true_eq] at hval
  obtain ⟨hidle, hcancel⟩ := hval
  have hreach : Reach (observe step record) (fun x => StepOk x.1) Begins x :=
    .guarded_run _ (.init ⟨constructed_init, rfl⟩) hx
  obtain ⟨howns, hstopped⟩ := idle_owns_nothing hreach
  exact ⟨x, hreach, hidle, (howns hidle).1, hcancel, hstopped 1 hcancel⟩

/-- A wave is starting when the bridge is deactivated and activated again. -/
def reactivated_in_flight : List Event :=
  boot ++ [.start_topic true, .deactivate, .activate 1000000000]

/-- The bridge is idle with the request and the flag of the old goal, and the flag
cancels the goal that is started next, which nobody stopped. -/
theorem leftover_cancels_a_start :
    ∃ x y : Bridge × ℕ, Reach (observe step record) Any Begins x ∧
      x.1.state_ = .Idle ∧ x.1.goal_requested_ = true ∧ x.1.cancel_on_accept_ = true ∧
      Reach (observe step record) Any Begins y ∧ Output.cancel_goal 2 ∈ y.1.out ∧ y.2 < 2 := by
  have heval : ((run (observe step record) (constructed, 0) reactivated_in_flight).bind fun x =>
      (run (observe step record) x [.start_topic true, .goal_response 2 true]).map fun y =>
        ((x.1.state_, x.1.goal_requested_, x.1.cancel_on_accept_),
          decide (Output.cancel_goal 2 ∈ y.1.out), y.2)) =
      some ((.Idle, true, true), true, 1) := by
    decide +kernel
  obtain ⟨x, hx, heval⟩ := Option.bind_eq_some_iff.mp heval
  obtain ⟨y, hy, hval⟩ := Option.map_eq_some_iff.mp heval
  simp only [Prod.mk.injEq, decide_eq_true_eq] at hval
  obtain ⟨⟨hidle, hreq, hflag⟩, hcancel, hupto⟩ := hval
  have hreach : Reach (observe step record) Any Begins x :=
    .run (.init ⟨constructed_init, rfl⟩) hx
  exact ⟨x, y, hreach, hidle, hreq, hflag, .run hreach hy, hcancel, by omega⟩

end WavemakerBridge
