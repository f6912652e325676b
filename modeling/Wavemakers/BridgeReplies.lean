/-
The replies to the stop service.

A stop request is owed its reply in one of two places. A stop that found no goal of
ours leaves it with the callback of its `async_cancel_all_goals`; a stop of our own
goal leaves it in `stop_done_`, from where the result, the rejection, the timer or
the deactivation takes it. At every callback boundary the requests so far are
those answered, the one in `stop_done_` and those held by the pending calls, each
as often as it was made.

`stop_done_` has room for one request. A stop of our own goal that comes in while
another waits there replaces it, and the earlier caller is never answered
(`second_stop_replaces_first`). Every other step keeps the account.
-/
import Wavemakers.BridgeGoals

set_option autoImplicit false

namespace WavemakerBridge.StopReplies

open Interleave

/-- The request the callback of the call will answer. -/
def owed (call : CancelCall) : List ℕ := if call.ours then [] else call.done.toList

/-! ## The account -/

/-- Every request is answered, in `stop_done_` or with a pending call. -/
def Accounted (c : View) (asked : List ℕ) : Prop :=
  ∀ id, asked.count id =
    c.replied.count id + c.done.toList.count id + (c.cancels.flatMap owed).count id

section Accounted

variable {c c' : View} {asked : List ℕ}

theorem Accounted.of_eq (h : Accounted c asked) (hr : c'.replied = c.replied)
    (hd : c'.done = c.done) (hc : c'.cancels = c.cancels) : Accounted c' asked := by
  unfold Accounted
  rw [hr, hd, hc]
  exact h

theorem Accounted.finish (h : Accounted c asked) : Accounted c.finish asked := by
  intro id
  have hid := h id
  simp only [View.finish, List.count_append, Option.toList_none, List.count_nil]
  omega

theorem Accounted.idle_finish (h : Accounted c asked) : Accounted c.idle.finish asked :=
  Accounted.finish (h.of_eq rfl rfl rfl)

theorem Accounted.abandon (h : Accounted c asked) : Accounted c.abandon asked :=
  Accounted.idle_finish (c := c.forget) (h.of_eq rfl rfl rfl)

/-- A stop of our own goal puts its request into an empty slot. -/
theorem Accounted.begin_stop (h : Accounted c asked) {d : Option ℕ}
    (hfree : d.isSome = true → c.done = none) :
    Accounted (c.begin_stop d) (asked ++ d.toList) := by
  intro id
  have hid := h id
  have hslot : (d.or c.done).toList.count id = d.toList.count id + c.done.toList.count id := by
    cases d with
    | none => simp only [Option.none_or, Option.toList_none, List.count_nil, zero_add]
    | some k =>
        rw [hfree rfl]
        simp only [Option.or_none, Option.toList_none, List.count_nil, add_zero]
  simp only [View.begin_stop, List.count_append, hslot]
  omega

theorem Accounted.stop (h : Accounted c asked) {d : Option ℕ} (available : Bool)
    (hfree : c.ours = true → d.isSome = true → c.done = none) :
    Accounted (c.stop d available) (asked ++ d.toList) := by
  unfold View.stop
  split
  · rename_i ho
    have hbegin := h.begin_stop (hfree ho)
    split
    · -- the callback of a stop of our own goal answers nobody
      intro id
      have hid := hbegin id
      simp only [List.flatMap_append, List.flatMap_singleton, owed, if_true, List.append_nil]
      exact hid
    · exact hbegin.abandon
  · split
    · intro id
      have hid := h id
      simp only [List.flatMap_append, List.flatMap_singleton, owed, Bool.false_eq_true, if_false,
        List.count_append]
      omega
    · intro id
      have hid := h id
      simp only [List.count_append]
      omega

theorem Accounted.leave (h : Accounted c asked) (available : Bool) :
    Accounted (c.leave available) asked := by
  have hstop : Accounted (c.stop none available) (asked ++ []) := h.stop available nofun
  rw [List.append_nil] at hstop
  exact hstop.finish.of_eq rfl rfl rfl

theorem Accounted.respond (h : Accounted c asked) (n : ℕ) (accepted : Bool) :
    Accounted (c.respond n accepted) asked := by
  unfold View.respond
  split
  · unfold View.accept
    split
    · exact h.of_eq rfl rfl rfl
    · split
      · exact h.of_eq rfl rfl rfl
      · exact h.of_eq rfl rfl rfl
  · unfold View.reject
    split
    · exact h.of_eq rfl rfl rfl
    · apply Accounted.idle_finish
      exact h.of_eq rfl rfl rfl

theorem Accounted.result (h : Accounted c asked) (n : ℕ) : Accounted (c.result n) asked := by
  unfold View.result
  dsimp only
  split
  · apply Accounted.idle_finish
    exact h.of_eq rfl rfl rfl
  · exact h.of_eq rfl rfl rfl

/-- The call that is answered leaves the list, wherever it stood. -/
theorem count_eraseIdx {l : List CancelCall} {i : ℕ} {call : CancelCall} (hi : l[i]? = some call)
    (id : ℕ) : (l.flatMap owed).count id =
      (owed call).count id + ((l.eraseIdx i).flatMap owed).count id := by
  obtain ⟨hlt, rfl⟩ := List.getElem?_eq_some_iff.mp hi
  have hperm := (List.getElem_cons_eraseIdx_perm hlt).flatMap_right owed
  rw [← hperm.count_eq id, List.flatMap_cons, List.count_append]

theorem Accounted.cancel_reply (h : Accounted c asked) {i : ℕ} {call : CancelCall}
    (hi : c.cancels[i]? = some call) : Accounted (c.cancel_reply i call) asked := by
  intro id
  have hid := h id
  have herase := count_eraseIdx hi id
  unfold View.cancel_reply
  dsimp only
  split
  · rename_i ho
    have howed : owed call = [] := if_pos ho
    rw [howed, List.count_nil, zero_add] at herase
    rw [hid, herase]
  · rename_i ho
    have howed : owed call = call.done.toList := if_neg ho
    rw [howed] at herase
    simp only [List.count_append]
    omega

/-- The action client goes with no reply owed by its pending calls. -/
theorem Accounted.drop (h : Accounted c asked) (hnone : c.cancels.flatMap owed = []) :
    Accounted c.drop asked := by
  intro id
  have hid := h id
  rw [hnone] at hid
  exact hid

end Accounted

/-! ## Runs -/

/-- The history: the stop requests so far. -/
def asks (asked : List ℕ) (_ : Bridge) : Event → List ℕ
  | .stop_service id => asked ++ [id]
  | _ => asked

def Begins (x : Bridge × List ℕ) : Prop := Init x.1 ∧ x.2 = []

/-- The step replaces a request that is still waiting in `stop_done_`. -/
def replaces_request (s : Bridge) : Event → Bool
  | .stop_service _ => s.ours && s.stop_done_.isSome
  | _ => false

/-- The step destroys the action client while one of its calls has a reply to pass
on, so that the call is never answered. -/
def drops_reply (s : Bridge) : Event → Bool
  | .configure | .cleanup => s.cancels.any fun call => !(owed call).isEmpty
  | _ => false

/-- The condition on a step. -/
def StepOk (s : Bridge) (e : Event) : Prop :=
  replaces_request s e = false ∧ drops_reply s e = false

instance (s : Bridge) (e : Event) : Decidable (StepOk s e) :=
  inferInstanceAs (Decidable (_ ∧ _))

/-- The requests that were answered. -/
def replies (s : Bridge) : List ℕ := s.out.filterMap replied_request

theorem owed_nothing {l : List CancelCall}
    (h : (l.any fun call => !(owed call).isEmpty) = false) : l.flatMap owed = [] := by
  rw [List.flatMap_eq_nil_iff]
  intro call hcall
  have hempty := List.any_eq_false.mp h call hcall
  rw [Bool.not_eq_true, Bool.not_eq_false', List.isEmpty_iff] at hempty
  exact hempty

theorem step_accounted {s t : Bridge} {e : Event} {asked : List ℕ} (hsub : Subscribed s)
    (h : Accounted (view s) asked) (hok : StepOk s e) (hs : step s e = some t) :
    Accounted (view t) (asks asked s e) := by
  have hdoes := view_step hsub hs
  have hstop : ∀ available, Accounted ((view s).stop none available) asked := by
    intro available
    have hstop : Accounted _ (asked ++ []) := h.stop (d := none) available nofun
    rwa [List.append_nil] at hstop
  generalize ht : view t = c' at hdoes ⊢
  cases e with
  | configure =>
      cases hdoes
      exact (h.drop (owed_nothing hok.2)).of_eq rfl rfl rfl
  | cleanup =>
      cases hdoes
      exact h.drop (owed_nothing hok.2)
  | activate timeout =>
      cases hdoes
      exact h.of_eq rfl rfl rfl
  | deactivate | shutdown | error =>
      cases hdoes
      exact h.leave _
  | watch =>
      rw [action] at hdoes
      split at hdoes
      · cases hdoes
        exact hstop _
      · cases hdoes
        exact h
  | stop_topic data =>
      rw [action] at hdoes
      split at hdoes
      · cases hdoes
        exact hstop _
      · cases hdoes
        exact h
  | start_topic data =>
      rw [action] at hdoes
      split at hdoes
      · cases hdoes
        exact h.of_eq rfl rfl rfl
      · cases hdoes
        exact h
  | stop_service id =>
      cases hdoes
      refine h.stop _ fun ho _ => ?_
      -- a goal of ours, so the slot is free
      have hslot : (s.ours && s.stop_done_.isSome) = false := hok.1
      rw [show s.ours = true from ho, Bool.true_and] at hslot
      exact Option.not_isSome_iff_eq_none.mp (Bool.eq_false_iff.mp hslot)
  | pre_shutdown =>
      cases hdoes
      exact hstop _
  | goal_response n accepted =>
      cases hdoes
      exact h.respond n accepted
  | goal_result n code text =>
      cases hdoes
      exact h.result n
  | cancel_reply i ok empty =>
      cases hdoes with
      | cancel_reply hi => exact h.cancel_reply hi
  | stop_timeout =>
      cases hdoes
      exact h.abandon
  | heartbeat | height x | period x | server ready | clock ns =>
      cases hdoes
      exact h

theorem reach_accounted {x : Bridge × List ℕ}
    (h : Reach (observe step asks) (fun x => StepOk x.1) Begins x) :
    Sound x.1 ∧ Accounted (view x.1) x.2 := by
  have hinit : ∀ y : Bridge × List ℕ, Begins y → Sound y.1 ∧ Accounted (view y.1) y.2 := by
    rintro y ⟨hy, hasked⟩
    refine ⟨init_sound hy, fun id => ?_⟩
    obtain ⟨-, -, -, -, -, -, -, -, -, -, -, -, hdone, -, -, -, -, -, hcancels, hout⟩ := hy
    rw [hasked]
    simp only [view, hdone, hcancels, hout, List.filterMap_nil, Option.toList_none,
      List.flatMap_nil, List.count_nil]
  have hstep : ∀ (y : Bridge × List ℕ) e z, Sound y.1 ∧ Accounted (view y.1) y.2 → StepOk y.1 e →
      observe step asks y e = some z → Sound z.1 ∧ Accounted (view z.1) z.2 := by
    rintro y e z ⟨hsound, hacc⟩ hok hz
    obtain ⟨hs, heq⟩ := observe_eq_some.mp hz
    rw [heq]
    exact ⟨step_sound hsound hs, step_accounted hsound.subscribed hacc hok hs⟩
  exact h.invariant hinit hstep

/-! ## Everything delivered -/

/-- No cancel reply and no timer is pending. -/
def Settled (s : Bridge) : Prop := s.cancels = [] ∧ s.stop_timeout_ = false

/-- The step delivers a cancel reply or fires the timer. -/
def Delivers {ω : Type} (_ : Bridge × ω) (e : Event) : Prop :=
  e = .stop_timeout ∨ ∃ i ok empty, e = .cancel_reply i ok empty

theorem Delivers.ok {x : Bridge × List ℕ} {e : Event} (h : Delivers x e) : StepOk x.1 e := by
  rcases h with rfl | ⟨i, ok, empty, rfl⟩
  · exact ⟨rfl, rfl⟩
  · exact ⟨rfl, rfl⟩

theorem Delivers.asks {x : Bridge × List ℕ} {e : Event} (h : Delivers x e) :
    asks x.2 x.1 e = x.2 := by
  rcases h with rfl | ⟨i, ok, empty, rfl⟩
  · rfl
  · rfl

theorem settled_replies {s : Bridge} {asked : List ℕ} (hsound : Sound s)
    (h : Accounted (view s) asked) (hset : Settled s) : (replies s).Perm asked := by
  have hdone : s.stop_done_ = none := by
    by_contra hsome
    have htimer : s.stop_timeout_ = true := hsound.steady.done (Option.isSome_iff_ne_none.mpr hsome)
    rw [hset.2] at htimer
    cases htimer
  rw [List.perm_iff_count]
  intro id
  have hid := h id
  simp only [view, hdone, hset.1, Option.toList_none, List.flatMap_nil, List.count_nil,
    add_zero] at hid
  exact hid.symm

/-- Pending cancel replies can be delivered one after the other. -/
theorem drains (x : Bridge × List ℕ) :
    ∃ y, Reach (observe step asks) Delivers (fun z => z = x) y ∧ y.1.cancels = [] := by
  generalize hn : x.1.cancels.length = n
  induction n generalizing x with
  | zero => exact ⟨x, .init rfl, List.length_eq_zero_iff.mp hn⟩
  | succ n ih =>
      obtain ⟨call, rest, hcons⟩ := List.exists_cons_of_length_eq_add_one hn
      have hget : x.1.cancels[0]? = some call := by rw [hcons]; rfl
      have hs : step x.1 (.cancel_reply 0 true true) =
          some ({ x.1 with cancels := x.1.cancels.eraseIdx 0 }.cancel_callback call true true) := by
        simp only [step, hget]
      generalize ht : ({ x.1 with cancels := x.1.cancels.eraseIdx 0 } : Bridge).cancel_callback
        call true true = t at hs
      have hlen : t.cancels.length = n := by
        have hview := view_cancel_callback { x.1 with cancels := x.1.cancels.eraseIdx 0 } call
          true true
        have hcancels : t.cancels = x.1.cancels.eraseIdx 0 := by
          rw [ht] at hview
          have hfield := congrArg View.cancels hview
          split at hfield
          · exact hfield
          · exact hfield
        rw [hcancels, hcons, List.eraseIdx_cons_zero]
        rw [hcons, List.length_cons] at hn
        omega
      obtain ⟨y, hy, hnone⟩ := ih (t, x.2) hlen
      have hfirst : Reach (observe step asks) Delivers (fun z => z = x) (t, x.2) :=
        .step (.init rfl) (.inr ⟨0, true, true, rfl⟩) (observe_eq_some.mpr ⟨hs, rfl⟩)
      exact ⟨y, hfirst.trans hy, hnone⟩

theorem settles (x : Bridge × List ℕ) :
    ∃ y, Reach (observe step asks) Delivers (fun z => z = x) y ∧ Settled y.1 := by
  obtain ⟨y, hy, hnone⟩ := drains x
  by_cases htimer : y.1.stop_timeout_ = true
  · have hs : step y.1 .stop_timeout = some (y.1.abandon_goal "No result from the controller") :=
      if_pos htimer
    have hview := view_abandon_goal y.1 "No result from the controller"
    refine ⟨(_, y.2), .step hy (.inl rfl) (observe_eq_some.mpr ⟨hs, rfl⟩), ?_, ?_⟩
    · exact (congrArg View.cancels hview).trans hnone
    · exact congrArg View.timer hview
  · exact ⟨y, hy, hnone, Bool.eq_false_iff.mpr htimer⟩

/-- **Every stop request is answered exactly once.** In every run in which no
request replaces another one in `stop_done_` and the action client is not destroyed
under a call that has a reply to pass on, once every cancel reply and the timer have
been delivered the replies are the requests, each as often as it was made; and from
every state their delivery leads there. -/
theorem every_request_answered {x : Bridge × List ℕ}
    (h : Reach (observe step asks) (fun x => StepOk x.1) Begins x) :
    (Settled x.1 → (replies x.1).Perm x.2) ∧
    ∃ y, Reach (observe step asks) Delivers (fun z => z = x) y ∧ Settled y.1 ∧
      (replies y.1).Perm x.2 := by
  obtain ⟨hsound, hacc⟩ := reach_accounted h
  refine ⟨settled_replies hsound hacc, ?_⟩
  obtain ⟨y, hy, hset⟩ := settles x
  -- deliveries meet the condition and ask for nothing
  have hok : Reach (observe step asks) (fun x => StepOk x.1) (fun z => z = x) y :=
    hy.mono fun _ _ => Delivers.ok
  obtain ⟨hsound', hacc'⟩ := reach_accounted (h.trans hok)
  have hasked : y.2 = x.2 := by
    have hstart : ∀ z, z = x → z.2 = x.2 := fun z hz => by rw [hz]
    refine hy.invariant hstart ?_
    rintro z e w hz hd hw
    rw [(observe_eq_some.mp hw).2, hd.asks, hz]
  rw [hasked] at hacc'
  exact ⟨y, hy, hset, settled_replies hsound' hacc' hset⟩

/-- A wave runs, the stop service is called, and the wave ends canceled. -/
def one_stop : List Event :=
  boot ++ [.start_topic true, .goal_response 1 true, .stop_service 1, .cancel_reply 0 true false,
    .goal_result 1 .CANCELED ""]

theorem one_stop_answered :
    ∃ x : Bridge × List ℕ, Reach (observe step asks) (fun x => StepOk x.1) Begins x ∧
      x.2 = [1] ∧ Settled x.1 ∧ (replies x.1).Perm [1] := by
  have heval : ((run (guarded (observe step asks) fun x => StepOk x.1) (constructed, [])
      one_stop).map fun x => (x.2, x.1.cancels, x.1.stop_timeout_)) = some ([1], [], false) := by
    decide +kernel
  obtain ⟨x, hx, hval⟩ := Option.map_eq_some_iff.mp heval
  simp only [Prod.mk.injEq] at hval
  obtain ⟨hasked, hset⟩ := hval
  have hreach : Reach (observe step asks) (fun x => StepOk x.1) Begins x :=
    .guarded_run _ (.init ⟨constructed_init, rfl⟩) hx
  have hperm := (every_request_answered hreach).1 hset
  rw [hasked] at hperm
  exact ⟨x, hreach, hasked, hset, hperm⟩

/-- Two clients call the stop service during the same wave. -/
def two_stops : List Event :=
  boot ++ [.start_topic true, .goal_response 1 true, .stop_service 1, .stop_service 2,
    .cancel_reply 0 true false, .cancel_reply 0 true false, .goal_result 1 .CANCELED ""]

/-- Nothing is pending any more, and only the second was answered. -/
theorem second_stop_replaces_first :
    ∃ x : Bridge × List ℕ, Reach (observe step asks) Any Begins x ∧ Settled x.1 ∧
      x.1.responses = ∅ ∧ x.1.results = ∅ ∧ x.2 = [1, 2] ∧ replies x.1 = [2] := by
  have heval : ((run (observe step asks) (constructed, []) two_stops).map fun x =>
      ((x.2, replies x.1), (x.1.cancels, x.1.stop_timeout_), x.1.responses, x.1.results)) =
      some (([1, 2], [2]), ([], false), ∅, ∅) := by
    decide +kernel
  obtain ⟨x, hx, hval⟩ := Option.map_eq_some_iff.mp heval
  simp only [Prod.mk.injEq] at hval
  obtain ⟨⟨hasked, hreplies⟩, hset, hresponses, hresults⟩ := hval
  exact ⟨x, .run (.init ⟨constructed_init, rfl⟩) hx, hset, hresponses, hresults, hasked, hreplies⟩

end WavemakerBridge.StopReplies
