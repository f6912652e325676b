/-
Every return request is answered once, and its claim is given back.

A request is answered by the service handler (turned away, or refused by
`start_execution`) or by the worker it started, and at no time by both: the
handler hands the request over in the step that spawns the worker. So the
requests asked so far are the ones answered, the one the handler has and the one
the worker has (`Inv.conserved`). The claim follows the request:
`returning_to_upright_` is set exactly while the handler has claimed and not
given back, or the worker it handed the claim to has not (`Inv.claim`).

The history beside the state keeps what the node itself does not: who asked, and
who claimed last.
-/
import Wavemakers.NodeProgress
import Mathlib.Data.List.Count

set_option autoImplicit false

namespace WavemakerNode.ReturnReply

open Interleave

variable {P : Plant}

/-! ## Who has the request -/

/-- The request the handler has neither answered nor handed to a worker. -/
def handling : Ret → List ℕ
  | .idle | .start _ (.unlock true) => []
  | .start id _ | .refused id | .respond id _ => [id]

/-- The request of the return worker. -/
def playing : Option Worker → List ℕ
  | some (.return_to_upright id _) => [id]
  | _ => []

/-- The request whose claim the handler has. -/
def handler_claim : Ret → List ℕ
  | .start _ (.unlock true) => []
  | .start id _ | .refused id => [id]
  | _ => []

/-- The request whose claim the worker has. -/
def worker_claim : Option Worker → List ℕ
  | some (.return_to_upright _ (.respond _)) => []
  | some (.return_to_upright id _) => [id]
  | _ => []

structure History where
  asked : List ℕ
  claimant : Option ℕ

def record (h : History) (s : State P) : Event P → History
  | .return_request r =>
      { asked := h.asked ++ [r.id]
        claimant := if (return_check s r).isNone then some r.id else h.claimant }
  | _ => h

/-- The reply of a worker raises an exception. -/
def mute (s : State P) : Event P → Bool
  | .worker (.throws _) =>
      match s.worker with
      | some (.return_to_upright _ (.respond _)) => true
      | _ => false
  | _ => false

/-- Neither `fault_reason()` nor the sending of a reply raises an exception. -/
def Answers (s : State P) (e : Event P) : Prop := mute s e = false

instance (s : State P) (e : Event P) : Decidable (Answers s e) :=
  inferInstanceAs (Decidable (_ = _))

/-! ## The invariant -/

structure Inv (ret : Ret) (worker : Option Worker) (returning : Bool) (replies : List (ℕ × Reply))
    (h : History) : Prop where
  conserved : ∀ id, h.asked.count id =
    (replies.map Prod.fst).count id + (handling ret).count id + (playing worker).count id
  claim : handler_claim ret ++ worker_claim worker = if returning then h.claimant.toList else []
  claimant : returning = true → h.claimant.isSome = true

abbrev State.Inv (s : State P) (h : History) : Prop :=
  ReturnReply.Inv s.ret s.worker s.returning_to_upright_ s.replies h

theorem handling_start (id : ℕ) {p : Start} (h : p ≠ .unlock true) :
    handling (.start id p) = [id] ∧ handler_claim (.start id p) = [id] := by
  cases p with
  | unlock b =>
      cases b
      · exact ⟨rfl, rfl⟩
      · exact absurd rfl h
  | _ => exact ⟨rfl, rfl⟩

theorem worker_claim_return {id : ℕ} {pc : ReturnPc} (h : pc.claims = true) :
    worker_claim (some (.return_to_upright id pc)) = [id] := by
  cases pc with
  | respond status => cases h
  | _ => rfl

section Change

variable {ret : Ret} {w : Option Worker} {r : Bool} {l : List (ℕ × Reply)} {h : History}

/-- The request moves on where it is. -/
theorem Inv.moves (hi : Inv ret w r l h) {ret' : Ret} {w' : Option Worker}
    (hh : handling ret' = handling ret) (hp : playing w' = playing w)
    (hhc : handler_claim ret' = handler_claim ret) (hwc : worker_claim w' = worker_claim w) :
    Inv ret' w' r l h := by
  refine ⟨?_, ?_, hi.claimant⟩
  · rw [hh, hp]
    exact hi.conserved
  · rw [hhc, hwc]
    exact hi.claim

/-- There is one claim at most. -/
theorem Inv.claim_one (hi : Inv ret w r l h) {id : ℕ} {a b : List ℕ}
    (heq : handler_claim ret ++ worker_claim w = a ++ id :: b) :
    r = true ∧ a = [] ∧ b = [] := by
  have hclaim := hi.claim
  rw [heq] at hclaim
  have hlen := congrArg List.length hclaim
  rw [List.length_append, List.length_cons] at hlen
  by_cases hr : r = true
  · rw [if_pos hr] at hlen
    have hle : h.claimant.toList.length ≤ 1 := by
      cases h.claimant with
      | none => exact Nat.zero_le 1
      | some _ => exact le_rfl
    exact ⟨hr, List.eq_nil_of_length_eq_zero (by omega), List.eq_nil_of_length_eq_zero (by omega)⟩
  · rw [if_neg hr] at hlen
    exact absurd hlen (by simp only [List.length_nil]; omega)

/-- A request is turned away. -/
theorem Inv.turn_away (hi : Inv .idle w r l h) (id : ℕ) (reply : Reply) :
    Inv (.respond id reply) w r l { h with asked := h.asked ++ [id] } := by
  refine ⟨?_, hi.claim, hi.claimant⟩
  intro k
  have hk := hi.conserved k
  simp only [handling, List.count_nil, List.count_append] at hk ⊢
  omega

/-- A request claims the controller. -/
theorem Inv.claims (hi : Inv .idle w false l h) (id : ℕ) :
    Inv (.start id .lock) w true l { asked := h.asked ++ [id], claimant := some id } := by
  refine ⟨?_, ?_, fun _ => rfl⟩
  · intro k
    have hk := hi.conserved k
    simp only [handling, List.count_nil, List.count_append] at hk ⊢
    omega
  · have hclaim := hi.claim
    rw [if_neg nofun, List.append_eq_nil_iff] at hclaim
    show [id] ++ worker_claim w = [id]
    rw [hclaim.2]
    rfl

/-- The worker takes the request over. -/
theorem Inv.hand_over {id : ℕ} (hi : Inv (.start id .spawn) none r l h) :
    Inv (.start id (.unlock true)) (some (.return_to_upright id .begin)) r l h :=
  ⟨hi.conserved, hi.claim, hi.claimant⟩

/-- The handler gives back the claim of a request that was refused. -/
theorem Inv.give_back {id : ℕ} (hi : Inv (.refused id) w r l h) (reply : Reply) :
    Inv (.respond id reply) w false l h := by
  obtain ⟨-, -, hw⟩ := hi.claim_one (a := []) (b := worker_claim w) (by rfl)
  refine ⟨hi.conserved, ?_, nofun⟩
  show [] ++ worker_claim w = []
  rw [hw]
  rfl

/-- The worker gives back the claim. -/
theorem Inv.gives_back {id : ℕ} {status status' : ReturnStatus}
    (hi : Inv ret (some (.return_to_upright id (.release status))) r l h) :
    Inv ret (some (.return_to_upright id (.respond status'))) false l h := by
  obtain ⟨-, hret, -⟩ := hi.claim_one (a := handler_claim ret) (b := []) (by rfl)
  refine ⟨hi.conserved, ?_, nofun⟩
  show handler_claim ret ++ [] = []
  rw [hret]
  rfl

theorem Inv.handler_replies {id : ℕ} {reply : Reply} (hi : Inv (.respond id reply) w r l h) :
    Inv .idle w r (l ++ [(id, reply)]) h := by
  refine ⟨?_, hi.claim, hi.claimant⟩
  intro k
  have hk := hi.conserved k
  simp only [handling, List.count_nil, List.map_append, List.map_cons, List.map_nil,
    List.count_append] at hk ⊢
  omega

theorem Inv.worker_replies {id : ℕ} {status : ReturnStatus} {reply : Reply}
    (hi : Inv ret (some (.return_to_upright id (.respond status))) r l h) :
    Inv ret (some .finished) r (l ++ [(id, reply)]) h := by
  refine ⟨?_, hi.claim, hi.claimant⟩
  intro k
  have hk := hi.conserved k
  simp only [playing, List.count_nil, List.map_append, List.map_cons, List.map_nil,
    List.count_append] at hk ⊢
  omega

/-- The worker ends without a reply: as if it had not been asked. -/
theorem Inv.forget {id : ℕ} {status : ReturnStatus}
    (hi : Inv ret (some (.return_to_upright id (.respond status))) r l h) :
    Inv ret (some .finished) r l { h with asked := h.asked.erase id } := by
  refine ⟨?_, hi.claim, hi.claimant⟩
  intro k
  have hk := hi.conserved k
  simp only [playing, List.count_nil, List.count_erase, List.count_singleton] at hk ⊢
  omega

end Change

/-! ## One step -/

theorem no_return {w : Option Worker} (hw : w = none ∨ w = some .finished) :
    playing w = [] ∧ worker_claim w = [] := by
  rcases hw with rfl | rfl
  · exact ⟨rfl, rfl⟩
  · exact ⟨rfl, rfl⟩

/-- A worker that is joined leaves nothing behind. -/
theorem Inv.join {ret : Ret} {w : Option Worker} {r : Bool} {l : List (ℕ × Reply)} {h : History}
    (hi : Inv ret w r l h) (hw : w = none ∨ w = some .finished) : Inv ret none r l h := by
  obtain ⟨hp, hc⟩ := no_return hw
  exact hi.moves rfl hp.symm rfl hc.symm

theorem act_inv {s t : State P} {h : History} (hj : Joined s) (hi : State.Inv s h)
    (hx : Acted s t) : State.Inv t h := by
  cases hx with
  | @abort g m _ _ =>
      rcases s.abort_goal_cases g m with ⟨st, -, -, heq⟩ | ⟨heq, -⟩
      · rw [heq]
        exact hi
      · rw [heq]
        exact hi
  | @starts g p q u hp hs =>
      cases hs with
      | join hw => exact Inv.join hi hw
      | spawn =>
          have hw := hj.act g _ hp rfl
          unfold State.Inv at hi
          rw [hw] at hi
          exact hi.moves rfl rfl rfl rfl
      | _ => exact hi
  | _ => exact hi

theorem ret_inv {s t : State P} {h : History} (hj : Joined s) (hi : State.Inv s h)
    (hx : Returned s t) : State.Inv t h := by
  unfold State.Inv at hi
  -- the handler stays inside `start_execution`
  have goes_on : ∀ {id : ℕ} {p q : Start}, s.ret = .start id p → p ≠ .unlock true →
      q ≠ .unlock true → Inv (.start id q) s.worker s.returning_to_upright_ s.replies h := by
    intro id p q hp hne hne'
    rw [hp] at hi
    obtain ⟨hh, hc⟩ := handling_start id hne
    obtain ⟨hh', hc'⟩ := handling_start id hne'
    exact hi.moves (hh'.trans hh.symm) rfl (hc'.trans hc.symm) rfl
  cases hx with
  | started hp =>
      rw [hp] at hi
      exact hi.moves rfl rfl rfl rfl
  | refused hp =>
      rw [hp] at hi
      exact hi.moves rfl rfl rfl rfl
  | give_back hp =>
      rw [hp] at hi
      exact hi.give_back _
  | respond hp =>
      rw [hp] at hi
      exact hi.handler_replies
  | @starts id p q u hp hs =>
      cases hs with
      | lock _ => exact goes_on hp nofun nofun
      | store => exact goes_on hp nofun nofun
      | join hw =>
          have hcheck := goes_on (q := .check) hp nofun nofun
          exact hcheck.join hw
      | pass _ => exact goes_on hp nofun nofun
      | refuse _ => exact goes_on hp nofun nofun
      | clear => exact goes_on hp nofun nofun
      | spawn =>
          have hw := hj.ret id _ hp rfl
          rw [hp, hw] at hi
          exact hi.hand_over

theorem worker_inv {s t : State P} {h : History} {i : WorkerInput} (hi : State.Inv s h)
    (hok : Answers s (.worker i)) (hs : worker_step s i = some t) : State.Inv t h := by
  -- a goal's worker has neither request nor claim
  have goal : ∀ {g : ℕ} {pc : GoalPc} {w : Worker}, s.worker = some (.goal g pc) →
      (∀ id pc', w ≠ .return_to_upright id pc') →
      Inv s.ret (some w) s.returning_to_upright_ s.replies h := by
    intro g pc w hw hne
    unfold State.Inv at hi
    rw [hw] at hi
    match w, hne with
    | .goal k pc', _ => exact hi.moves rfl rfl rfl rfl
    | .finished, _ => exact hi.moves rfl rfl rfl rfl
    | .return_to_upright id pc', hne => exact absurd rfl (hne id pc')
  cases worker_cases hs with
  | moves hw _ => exact goal hw nofun
  | executes hw _ => exact goal hw nofun
  | @releases g e hw =>
      rcases release_handle_cases s g with ⟨-, heq⟩ | ⟨-, heq⟩
      · rw [heq]
        exact goal hw nofun
      · rw [heq]
        exact goal hw nofun
  | @rejects g message hw =>
      rcases release_handle_cases { s with accepting_goals_ := false } g with ⟨-, heq⟩ | ⟨-, heq⟩
      · rw [heq]
        exact goal hw nofun
      · rw [heq]
        exact goal hw nofun
  | reason hw => exact goal hw nofun
  | store hw => exact goal hw nofun
  | stop hw _ => exact goal hw nofun
  | @aborts g pc m hw _ _ =>
      rcases s.abort_goal_cases g m with ⟨st, -, -, heq⟩ | ⟨heq, -⟩
      · rw [heq]
        exact goal hw nofun
      · rw [heq]
        exact goal hw nofun
  | cancels hw _ => exact goal hw nofun
  | succeeds hw _ => exact goal hw nofun
  | @retires g hw =>
      rcases release_handle_cases s g with ⟨-, heq⟩ | ⟨-, heq⟩
      · rw [heq]
        exact goal hw nofun
      · rw [heq]
        exact goal hw nofun
  | @returns id pc pc' hw hc hc' =>
      unfold State.Inv at hi
      rw [hw] at hi
      exact hi.moves rfl rfl rfl
        ((worker_claim_return hc').trans (worker_claim_return hc).symm)
  | gives_back hw =>
      unfold State.Inv at hi
      rw [hw] at hi
      exact hi.gives_back
  | @replies id status l hw =>
      unfold State.Inv at hi
      rw [hw] at hi
      -- what the worker adds depends on the answer of `fault_reason()`
      simp only [worker_step, hw, return_step] at hs
      split at hs
      · rename_i reason
        have hl := congrArg State.replies (Option.some.inj hs)
        have hl : s.replies ++ [(id, return_reply status reason)] = l := hl
        rw [← hl]
        exact hi.worker_replies
      · simp only [Answers, mute, hw] at hok
        cases hok
      · cases hs

theorem same_inv {s t : State P} {h : History} (hs : Same s t) (hi : State.Inv s h) :
    State.Inv t h := by
  unfold State.Inv
  rw [hs.ret, hs.worker, hs.returning, hs.replies]
  exact hi

theorem lc_inv {s t : State P} {h : History} (hi : State.Inv s h) (hx : Ran s t) :
    State.Inv t h := by
  cases hx with
  | quiet hs => exact same_inv hs hi
  | configure _ _ hs => exact same_inv hs hi
  | refuse hs => exact same_inv hs hi
  | take _ hs => exact same_inv hs hi
  | @abort g _ hs =>
      obtain ⟨goals, heq⟩ := abort_goal?_eq s g
      rw [heq] at hs
      exact same_inv hs hi
  | join hw hs => exact same_inv hs (Inv.join hi hw)
  | accept _ hs => exact same_inv hs hi

/-- Steps that are neither a request nor the worker's. -/
theorem other_inv {s t : State P} {h : History} {e : Event P} (hj : Joined s)
    (hi : State.Inv s h) (hx : Stepped s e t) (hr : ∀ r, e ≠ .return_request r)
    (hw : ∀ i, e ≠ .worker i) : State.Inv t h := by
  cases hx with
  | request _ _ hx =>
      cases hx with
      | ignored => exact hi
      | rejected _ => exact hi
      | accepted _ _ => exact hi
  | cancel _ _ => exact hi
  | act hx => exact act_inv hj hi hx
  | claim _ _ => exact absurd rfl (hr _)
  | turn_away _ _ => exact absurd rfl (hr _)
  | ret hx => exact ret_inv hj hi hx
  | worker _ => exact absurd rfl (hw _)
  | lc hx _ => exact lc_inv hi hx
  | quiet hs => exact same_inv hs hi

theorem request_inv {s t : State P} {h : History} {r : ReturnRequest} (hi : State.Inv s h)
    (hx : raw_step s (.return_request r) = some t) :
    State.Inv t (record h s (.return_request r)) := by
  cases happens hx with
  | return_request hidle =>
      unfold State.Inv at hi
      rw [hidle] at hi
      unfold WavemakerNode.return_request
      split
      · rename_i hcheck
        rw [(return_check_spec hcheck).2.2.1] at hi
        simp only [record, hcheck, Option.isNone_none, if_true]
        exact hi.claims r.id
      · rename_i reply hcheck
        simp only [record, hcheck, Option.isNone_some, Bool.false_eq_true, if_false]
        exact hi.turn_away r.id reply

theorem raw_step_inv {s t : State P} {h : History} {e : Event P} (hj : Joined s)
    (hi : State.Inv s h) (hok : Answers s e) (hx : raw_step s e = some t) :
    State.Inv t (record h s e) := by
  cases e with
  | return_request r => exact request_inv hi hx
  | worker i => exact worker_inv hi hok hx
  | _ => exact other_inv hj hi (raw_step_cases hx) nofun nofun

/-- The claims are in order in every run, also in one with replies that raise
exceptions: there is some history that fits. -/
theorem raw_step_claimed {s t : State P} {e : Event P} (hj : Joined s)
    (h : ∃ h, State.Inv s h) (hx : raw_step s e = some t) : ∃ h, State.Inv t h := by
  obtain ⟨h, hi⟩ := h
  by_cases hok : Answers s e
  · exact ⟨record h s e, raw_step_inv hj hi hok hx⟩
  · rw [Answers, Bool.not_eq_false] at hok
    unfold mute at hok
    split at hok
    · split at hok
      · rename_i id status hw
        have hx : worker_step s _ = some t := hx
        simp only [worker_step, hw, return_step] at hx
        cases hx
        unfold State.Inv at hi
        rw [hw] at hi
        exact ⟨_, hi.forget⟩
      · cases hok
    · cases hok

/-- Without a claim there is no handler on its way to a worker. -/
theorem Inv.no_claim {ret : Ret} {w : Option Worker} {r : Bool} {l : List (ℕ × Reply)}
    {h : History} (hi : Inv ret w r l h) (hr : r = false) : handler_claim ret = [] := by
  have hclaim := hi.claim
  rw [hr, if_neg nofun, List.append_eq_nil_iff] at hclaim
  exact hclaim.1

/-- A node with its history, just constructed. -/
def Begins (x : State P × History) : Prop := Init x.1 ∧ x.2 = ⟨[], none⟩

theorem reach_inv {x : State P × History}
    (h : Reach (observe step record) (fun x => Answers x.1) Begins x) :
    Ladder x.1 ∧ Joined x.1 ∧ State.Inv x.1 x.2 := by
  have hinit : ∀ x : State P × History, Begins x →
      Ladder x.1 ∧ Joined x.1 ∧ State.Inv x.1 x.2 := by
    rintro ⟨s, h⟩ ⟨hs, rfl⟩
    refine ⟨init_ladder hs, init_joined hs, ?_⟩
    obtain ⟨-, -, hr, -, -, -, -, -, -, -, -, -, -, -, -, -, -, hl, -, hret, hw, -, -, -, -⟩ := hs
    unfold State.Inv
    rw [hr, hl, hret, hw]
    exact ⟨fun _ => rfl, rfl, nofun⟩
  have hstep : ∀ (x : State P × History) e y, Ladder x.1 ∧ Joined x.1 ∧ State.Inv x.1 x.2 →
      Answers x.1 e → observe step record x e = some y →
      Ladder y.1 ∧ Joined y.1 ∧ State.Inv y.1 y.2 := by
    rintro x e y ⟨hl, hj, hi⟩ hok hs
    obtain ⟨hs, hy⟩ := observe_eq_some.mp hs
    refine ⟨step_ladder hl hs, step_joined hl hj hs, ?_⟩
    obtain ⟨u, hx, heq⟩ := step_eq_some hs
    rw [heq, hy]
    have hu := raw_step_inv hj hi hok hx
    exact hu
  exact h.invariant hinit hstep

/-! ## The answer can always be given -/

section Progress

variable {C : State P → Event P → Prop}

theorem ret_event {s t : State P} (h : ret_step s = some t) : step s .ret = some (reap t) := by
  show Option.map reap (ret_step s) = _
  rw [h]
  rfl

theorem respond_ends (hC : Permits C) {s : State P} {id : ℕ} {reply : Reply}
    (hret : s.ret = .respond id reply) : Leads C s fun t => handling t.ret = [] := by
  have ht : ret_step s = some { s with replies := s.replies ++ [(id, reply)], ret := .idle } := by
    simp only [ret_step, hret]
  exact .step (hC.ret s) (ret_event ht) (.here rfl)

theorem refused_ends (hC : Permits C) {s : State P} {id : ℕ} (hret : s.ret = .refused id) :
    Leads C s fun t => handling t.ret = [] := by
  have ht : ret_step s = some { s with
      returning_to_upright_ := false
      ret := .respond id ⟨.CONTROLLER_INACTIVE,
        "Controller not active or not accepting goals"⟩ } := by
    simp only [ret_step, hret]
  exact .step (hC.ret s) (ret_event ht) (respond_ends hC rfl)

/-- Behind its lock the handler can be brought to its end. -/
theorem start_ends (hC : Permits C) {s : State P} {id : ℕ} {p : Start}
    (hret : s.ret = .start id p) (hp : p ≠ .lock) (hw : Ended s.worker ∨ ∃ b, p = .unlock b) :
    Leads C s fun t => handling t.ret = [] := by
  induction hn : p.left using Nat.strong_induction_on generalizing s p with
  | _ n ih =>
      by_cases hu : ∃ b, p = .unlock b
      · obtain ⟨b, rfl⟩ := hu
        cases b with
        | true =>
            refine .here ?_
            rw [hret]
            rfl
        | false =>
            have ht : ret_step s = some { s with ret := .refused id } := by
              simp only [ret_step, hret]
            exact .step (hC.ret s) (ret_event ht) (refused_ends hC rfl)
      · have hne : ∀ b, p ≠ .unlock b := fun b hb => hu ⟨b, hb⟩
        have hw : Ended s.worker := hw.resolve_right hu
        obtain ⟨t, q, hx, hlt, hq, hor⟩ := start_out (.return_to_upright id .begin) hp hne hw
        have ht : ret_step s = some { t with ret := .start id q } := by
          unfold ret_step
          rw [hret]
          cases p with
          | unlock b => exact absurd rfl (hne b)
          | lock => exact absurd rfl hp
          | _ => simp only [hx, Option.map_some]
        refine .step (hC.ret s) (ret_event ht) (ih q.left (by omega) rfl hq ?_ rfl)
        rcases hor with hor | ⟨rfl, -⟩
        · exact .inl hor
        · exact .inr ⟨true, rfl⟩

/-- A handler in front of its lock waits for `execution_mutex_` and for the
worker, and gets both. -/
theorem lock_ends (hC : Permits C) {s : State P} (hl : Ladder s) {id : ℕ}
    (hret : s.ret = .start id .lock) : Leads C s fun t => handling t.ret = [] := by
  refine (mutex_freed hC hl (by rw [hret]; rfl)).trans fun t ht => ?_
  obtain ⟨hheld, hr⟩ := ht
  refine (worker_ends hC t).trans fun u hu => ?_
  obtain ⟨hw, haside⟩ := hu
  simp only [aside, Prod.mk.injEq] at haside
  obtain ⟨hact, hru, hlc⟩ := haside
  have hret : u.ret = .start id .lock := by rw [hru, hr, hret]
  have hheld : u.held = false := by
    rw [State.held, hact, hru, hlc]
    exact hheld
  have hx : ret_step u = some { u with ret := .start id .store } := by
    simp only [ret_step, hret, start_step, hheld, Bool.false_eq_true, if_false, Option.map_some]
  exact .step (hC.ret u) (ret_event hx) (start_ends hC rfl (by rintro ⟨⟩) (.inl hw))

/-- **No request is left waiting.** From every state the requests in progress can
be brought to their answers. -/
theorem all_answered (hC : Permits C) {s : State P} (hl : Ladder s) :
    Leads C s fun t => handling t.ret = [] ∧ playing t.worker = [] := by
  have hhandler : Leads C s fun t => handling t.ret = [] := by
    by_cases hlock : ∃ id, s.ret = .start id .lock
    · obtain ⟨id, hret⟩ := hlock
      exact lock_ends hC hl hret
    · refine (worker_ends hC s).trans fun t ht => ?_
      obtain ⟨hw, haside⟩ := ht
      simp only [aside, Prod.mk.injEq] at haside
      match h : t.ret with
      | .idle =>
          refine .here ?_
          rw [h]
          rfl
      | .refused id => exact refused_ends hC h
      | .respond id reply => exact respond_ends hC h
      | .start id p =>
          refine start_ends hC h ?_ (.inl hw)
          rintro rfl
          rw [haside.2.1] at h
          exact hlock ⟨id, h⟩
  refine hhandler.trans fun t ht => (worker_ends hC t).trans fun u hu => .here ?_
  obtain ⟨hw, haside⟩ := hu
  simp only [aside, Prod.mk.injEq] at haside
  rw [haside.2.1]
  exact ⟨ht, (no_return hw).1⟩

end Progress

/-! ## Exactly once -/

/-- Steps that answer and ask nothing new. -/
def Answering (s : State P) (e : Event P) : Prop :=
  Answers s e ∧ ∀ r, e ≠ .return_request r

theorem permits_answering : Permits (P := P) Answering := by
  refine ⟨?_, ?_, fun _ => ⟨rfl, nofun⟩, fun _ => ⟨rfl, nofun⟩, fun _ => ⟨rfl, nofun⟩⟩
  · intro s g pc hw
    refine ⟨?_, nofun⟩
    unfold Answers mute
    split
    · rw [hw]
    · rfl
  · intro s id pc hw
    refine ⟨?_, nofun⟩
    unfold Answers mute
    split
    · rename_i heq
      cases pc <;> cases heq
    · rfl

/-- Such steps leave the history as it is. -/
theorem reach_answering {x : State P × History} {t : State P}
    (h : Reach step Answering (fun s => s = x.1) t) :
    Reach (observe step record) (fun x => Answers x.1) (fun y => y = x) (t, x.2) := by
  induction h with
  | init hs => exact .init (by rw [hs])
  | @step s t e _ hc hs ih =>
      refine .step ih hc.1 (observe_eq_some.mpr ⟨hs, ?_⟩)
      obtain ⟨-, hne⟩ := hc
      cases e with
      | return_request r => exact absurd rfl (hne r)
      | _ => rfl

theorem mem_handling {ret : Ret} {id : ℕ} (h : id ∈ handler_claim ret) : id ∈ handling ret := by
  unfold handler_claim at h
  split at h
  · cases h
  · rename_i k p hne
    rw [(handling_start _ (p := p) hne).1]
    exact h
  · exact h
  · cases h

theorem mem_playing {w : Option Worker} {id : ℕ} (h : id ∈ worker_claim w) : id ∈ playing w := by
  unfold worker_claim at h
  split at h
  · cases h
  · exact h
  · cases h

/-- **Every return request is answered once, and its claim is given back.** The
requests asked are those answered, the one the handler still has and the one its
worker still has; from every state these can be brought to their answers; and
`returning_to_upright_` is set only while the handler or the worker of the
request that set it is in progress. -/
theorem answered_once {x : State P × History}
    (h : Reach (observe step record) (fun x => Answers x.1) Begins x) :
    (∀ id, x.2.asked.count id = (x.1.replies.map Prod.fst).count id +
      (handling x.1.ret).count id + (playing x.1.worker).count id) ∧
    (∃ y, Reach (observe step record) (fun x => Answers x.1) (fun y => y = x) y ∧ y.2 = x.2 ∧
      ∀ id, y.2.asked.count id = (y.1.replies.map Prod.fst).count id) ∧
    (x.1.returning_to_upright_ = true → ∃ id, x.2.claimant = some id ∧
      (id ∈ handling x.1.ret ∨ id ∈ playing x.1.worker)) := by
  obtain ⟨hl, -, hi⟩ := reach_inv h
  refine ⟨hi.conserved, ?_, ?_⟩
  · obtain ⟨t, ht, hret, hw⟩ := all_answered permits_answering hl
    have hy := reach_answering ht
    refine ⟨(t, x.2), hy, rfl, fun id => ?_⟩
    have hreach := h.trans hy
    have hcount := (reach_inv hreach).2.2.conserved id
    simp only [hret, hw, List.count_nil, Nat.add_zero] at hcount
    exact hcount
  · intro hr
    have hclaim := hi.claim
    rw [if_pos hr] at hclaim
    obtain ⟨id, hid⟩ := Option.isSome_iff_exists.mp (hi.claimant hr)
    refine ⟨id, hid, ?_⟩
    have hmem : id ∈ handler_claim x.1.ret ++ worker_claim x.1.worker := by
      rw [hclaim, hid]
      exact List.mem_singleton.mpr rfl
    rcases List.mem_append.mp hmem with hm | hm
    · exact .inl (mem_handling hm)
    · exact .inr (mem_playing hm)

/-- A return under way and a second one turned away. -/
def two_returns : List (Event bench) :=
  boot ++ requests_return 7 :: List.replicate 7 .ret ++ [requests_return 8, .ret]

theorem second_return_turned_away :
    ∃ x : State bench × History,
      Reach (observe step record) (fun x => Answers x.1) Begins x ∧ x.2.asked = [7, 8] ∧
      x.1.returning_to_upright_ = true ∧ x.1.worker = some (.return_to_upright 7 .begin) ∧
      (x.1.replies.map Prod.fst).count 8 = 1 ∧ (x.1.replies.map Prod.fst).count 7 = 0 := by
  have heval : ((run (guarded (observe step record) fun x => Answers x.1) (constructed, ⟨[], none⟩)
      two_returns).map fun x => (x.2.asked, x.1.returning_to_upright_, x.1.worker, x.1.ret)) =
      some ([7, 8], true, some (.return_to_upright 7 .begin), .idle) := by
    decide +kernel
  obtain ⟨x, hrun, hval⟩ := Option.map_eq_some_iff.mp heval
  simp only [Prod.mk.injEq] at hval
  obtain ⟨hasked, hret, hw, hidle⟩ := hval
  have hreach : Reach (observe step record) (fun x => Answers x.1) Begins x :=
    .guarded_run _ (.init ⟨constructed_init, rfl⟩) hrun
  have hcount := (answered_once hreach).1
  rw [hasked, hw, hidle] at hcount
  refine ⟨x, hreach, hasked, hret, hw, ?_, ?_⟩
  · have h8 := hcount 8
    simp only [handling, playing] at h8
    exact h8.symm
  · have h7 := hcount 7
    simp only [handling, playing] at h7
    have h7 : 1 = (x.1.replies.map Prod.fst).count 7 + 0 + 1 := h7
    omega

end WavemakerNode.ReturnReply
