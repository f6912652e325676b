/-
A canceled goal is reported canceled.

From the moment a goal is accepted its run goes through a fixed sequence: its
callback has it (`waiting`), its worker plays it and is alone with it
(`playing`), its worker has given it up and is about to report it (`leaving`), and
it has ended (`ended`). The condition on a step keeps three things out: a cancel
between the start of the worker and its `execute()`, which then raises an
exception and aborts the goal; an exception of the actuator or the library inside
the worker, which does the same; and a return that claims the controller while the
goal is on its way to its worker, whose `start_execution` then stops the goal.

The history counts the worker's steps behind the cancel: ten of them are enough.
-/
import Wavemakers.GoalOwners
import Wavemakers.ReturnReply
import Wavemakers.WorkerSteps

set_option autoImplicit false

namespace WavemakerNode.GoalCancel

open Interleave
open ReturnReply (handler_claim)

variable {P : Plant}

/-! ## The runs and the condition -/

/-- Not a driver fault, a refused setpoint or a part of a lifecycle transition. -/
def quiet (s : State P) : Event P → Bool
  | .transition _ | .lc _ | .fault _ | .report | .context_shutdown => false
  | .tick => !s.fault_pending_
  | .worker (.wrote ok _) => ok
  | _ => true

/-- The cancel of `g` does not meet its worker in front of `execute()`, no call of
its worker raises an exception, and no return claims the controller while `g` is
on its way to its worker. -/
def spared (g : ℕ) (s : State P) : Event P → Bool
  | .cancel k => !(k == g && s.worker == some (.goal g .execute))
  | .worker (.throws _) => !s.worker.any (·.holds g)
  | .return_request r => !(s.act.waiting == some g && (return_check s r).isNone)
  | _ => true

structure History where
  /-- a cancel was accepted -/
  canceled : Bool
  /-- the goal's worker has called `halt` -/
  halted : Bool
  /-- the worker's steps behind the cancel -/
  after : ℕ

def History.start : History := ⟨false, false, 0⟩

def record (g : ℕ) (h : History) (s : State P) : Event P → History
  | .cancel k => if k = g then { h with canceled := true } else h
  | .worker _ =>
      if s.worker.any (·.holds g) then
        { h with halted := h.halted || calls_halt s.worker
                 after := if h.canceled then h.after + 1 else h.after }
      else h
  | _ => h

/-- A step without driver fault, soft stop, refused setpoint or lifecycle
transition. -/
def Undisturbed (x : State P × History) (e : Event P) : Prop :=
  x.1.ok = true ∧ x.1.soft_stop_active = false ∧ quiet x.1 e = true

instance (x : State P × History) (e : Event P) : Decidable (Undisturbed x e) :=
  inferInstanceAs (Decidable (_ = _ ∧ _ = _ ∧ _ = _))

/-- The condition on a step. -/
def StepOk (g : ℕ) (x : State P × History) (e : Event P) : Prop :=
  Undisturbed x e ∧ spared g x.1 e = true

instance (g : ℕ) (x : State P × History) (e : Event P) : Decidable (StepOk g x e) :=
  inferInstanceAs (Decidable (_ ∧ _ = _))

/-! ## The phases -/

/-- The steps left to the worker of a canceled goal, up to the end of the goal;
positive at the points a spared goal passes. -/
def left : GoalPc → ℕ
  | .soft_stop => 10
  | .sample => 9
  | .write _ _ _ => 8
  | .feedback _ => 7
  | .execute | .sleep => 6
  | .loop => 5
  | .canceling => 4
  | .halt .canceled => 3
  | .release .canceled | .succeed_halt => 2
  | .finish .canceled | .succeed => 1
  | _ => 0

/-- Behind the call of `halt`. -/
def past_halt : GoalPc → Bool
  | .release _ | .finish _ | .succeed => true
  | _ => false

/-- Where the worker stands and how its goal does. -/
structure Stands (pc : GoalPc) (st : Option GoalStatus) (h : History) : Prop where
  on : 0 < left pc
  accepted : pc = .execute → st = some .accepted ∧ h.canceled = false
  playing : pc ≠ .execute → st = some (if h.canceled then .canceling else .executing)
  cancels : pc.cancels = true → h.canceled = true
  halted : past_halt pc = true → h.halted = true
  fresh : h.canceled = false → h.after = 0
  bound : h.canceled = true → h.after + left pc ≤ 10

/-- The worker of `g` is not disturbed. -/
structure Alone (s : State P) (g : ℕ) : Prop where
  handle : s.goal_handle_ = some g
  go : s.stop_execution_ = false
  act : s.act = .idle ∨ s.act = .start g (.unlock true)
  ret : handler_claim s.ret = []

/-- The callback of `g` has it, and nobody else is on the way to a worker. -/
structure Waits (s : State P) (g : ℕ) : Prop where
  act : s.act.waiting = some g
  ret : handler_claim s.ret = []
  lc : s.lc.holds g = false
  handle : ∀ p, s.act = .start g p → s.goal_handle_ = some g
  go : s.act = .start g .spawn → s.stop_execution_ = false

inductive Phase (g : ℕ) (s : State P) (h : History) : Prop where
  | unknown : s.goals g = none → h.canceled = false → h.after = 0 → Phase g s h
  | waiting : Waits s g → h.canceled = false → h.after = 0 → Phase g s h
  | playing {pc : GoalPc} : s.worker = some (.goal g pc) → pc ≠ .finish .canceled → Alone s g →
      Stands pc (s.status g) h → Phase g s h
  | leaving : s.worker = some (.goal g (.finish .canceled)) →
      Stands (.finish .canceled) (s.status g) h → Phase g s h
  | ended {st : GoalStatus} : s.status g = some st → st.is_active = false →
      (h.canceled = true → (st = .canceled ∨ st = .succeeded) ∧ h.halted = true) → Phase g s h

/-- The part of the state the phases read. -/
structure Alike (s t : State P) : Prop where
  goals : t.goals = s.goals
  act : t.act = s.act
  ret : handler_claim t.ret = handler_claim s.ret
  worker : t.worker = s.worker
  lc : t.lc = s.lc
  handle : t.goal_handle_ = s.goal_handle_
  stop : t.stop_execution_ = s.stop_execution_

theorem Alike.status {s t : State P} (h : Alike s t) (g : ℕ) : t.status g = s.status g := by
  unfold State.status
  rw [h.goals]

theorem Alone.alike {s t : State P} {g : ℕ} (h : Alone s g) (ha : Alike s t) : Alone t g := by
  refine ⟨?_, ?_, ?_, ?_⟩
  · rw [ha.handle]
    exact h.handle
  · rw [ha.stop]
    exact h.go
  · rw [ha.act]
    exact h.act
  · rw [ha.ret]
    exact h.ret

theorem Waits.alike {s t : State P} {g : ℕ} (h : Waits s g) (ha : Alike s t) : Waits t g := by
  refine ⟨?_, ?_, ?_, ?_, ?_⟩
  · rw [ha.act]
    exact h.act
  · rw [ha.ret]
    exact h.ret
  · rw [ha.lc]
    exact h.lc
  · rw [ha.act, ha.handle]
    exact h.handle
  · rw [ha.act, ha.stop]
    exact h.go

/-- A step that changes nothing the phases read. -/
theorem Phase.alike {s t : State P} {g : ℕ} {h : History} (hp : Phase g s h) (ha : Alike s t) :
    Phase g t h := by
  cases hp with
  | unknown hnone hc h0 => exact .unknown (by rw [ha.goals]; exact hnone) hc h0
  | waiting hw hc h0 => exact .waiting (hw.alike ha) hc h0
  | playing hw hne halone hs =>
      refine .playing (ha.worker.trans hw) hne (halone.alike ha) ?_
      rw [ha.status]
      exact hs
  | leaving hw hs =>
      refine .leaving (ha.worker.trans hw) ?_
      rw [ha.status]
      exact hs
  | ended hst hend hc => exact .ended ((ha.status g).trans hst) hend hc

/-- The destructors of dropped handles leave the goal alone. -/
theorem Phase.reap {s : State P} {g : ℕ} {h : History} (hp : Phase g s h) :
    Phase g (reap s) h := by
  cases hp with
  | unknown hnone hc h0 =>
      refine .unknown ?_ hc h0
      show (s.goals g).map _ = none
      rw [hnone]
      rfl
  | waiting hw hc h0 => exact .waiting ⟨hw.act, hw.ret, hw.lc, hw.handle, hw.go⟩ hc h0
  | playing hw hne ha hs =>
      refine .playing hw hne ⟨ha.handle, ha.go, ha.act, ha.ret⟩ ?_
      rw [status_reap (referenced_of_worker hw)]
      exact hs
  | leaving hw hs =>
      refine .leaving hw ?_
      rw [status_reap (referenced_of_worker hw)]
      exact hs
  | @ended st hst hend hc =>
      have hsame : (WavemakerNode.reap s).status g = some st := by
        obtain ⟨x, hx, rfl⟩ := Option.map_eq_some_iff.mp hst
        simp only [State.status, WavemakerNode.reap, hx, Option.map_some, hend, Bool.false_and,
          if_false, Bool.false_eq_true]
      exact .ended hsame hend hc

/-! ## Steps of the others -/

/-- A handler without a claim changes nothing but its own point. -/
theorem ret_alike {s t : State P} (hret : handler_claim s.ret = []) (hx : Returned s t) :
    Alike s t := by
  cases hx with
  | @starts id p q u hp hs =>
      have hclaim : handler_claim (.start id p) = [id] := by
        apply (ReturnReply.handling_start _ ?_).2
        rintro rfl
        cases hs
      rw [hp, hclaim] at hret
      cases hret
  | started hp =>
      refine ⟨rfl, rfl, ?_, rfl, rfl, rfl, rfl⟩
      rw [hp]
      rfl
  | refused hp | give_back hp =>
      rw [hp] at hret
      cases hret
  | respond hp =>
      refine ⟨rfl, rfl, ?_, rfl, rfl, rfl, rfl⟩
      rw [hp]
      rfl

/-- Messages, the clock and ticks without a fault. -/
def background : Event P → Bool
  | .tick | .soft_stop _ | .clock _ => true
  | _ => false

theorem background_alike {s t : State P} {e : Event P} (he : background e = true)
    (hq : quiet s e = true) (hx : raw_step s e = some t) : Alike s t := by
  cases happens hx with
  | tick _ =>
      have hq : (!s.fault_pending_) = true := hq
      rw [Bool.not_eq_true'] at hq
      rw [begin_tick, hq]
      exact ⟨rfl, rfl, rfl, rfl, rfl, rfl, rfl⟩
  | soft_stop | clock => exact ⟨rfl, rfl, rfl, rfl, rfl, rfl, rfl⟩
  | _ => cases he

theorem turned_away_alike {s : State P} {id : ℕ} {reply : Reply} (hidle : s.ret = .idle) :
    Alike s { s with ret := .respond id reply } := by
  refine ⟨rfl, rfl, ?_, rfl, rfl, rfl, rfl⟩
  rw [hidle]
  rfl

theorem release_stop (s : State P) (g : ℕ) :
    (s.release_handle g).stop_execution_ = s.stop_execution_ := by
  rcases release_handle_cases s g with ⟨-, heq⟩ | ⟨-, heq⟩
  · rw [heq]
  · rw [heq]

theorem worked_stop {s t : State P} (h : Worked s t) : t.stop_execution_ = s.stop_execution_ := by
  cases h with
  | @releases k e _ => exact release_stop s k
  | @rejects k message _ => exact release_stop { s with accepting_goals_ := false } k
  | @retires k _ => exact release_stop s k
  | @aborts k pc m _ _ _ =>
      rcases s.abort_goal_cases k m with ⟨st, -, -, heq⟩ | ⟨heq, -⟩
      · rw [heq]
        rfl
      · rw [heq]
        rfl
  | _ => rfl

theorem release_other {s : State P} {g k : ℕ} (hne : k ≠ g) (hg : s.goal_handle_ = some g) :
    (s.release_handle k).goal_handle_ = some g := by
  rcases release_handle_cases s k with ⟨hk, -⟩ | ⟨-, heq⟩
  · rw [hg] at hk
    exact absurd (Option.some.inj hk).symm hne
  · rw [heq]
    exact hg

/-- A worker gives up its own goal only. -/
theorem worked_handle {s t : State P} {g : ℕ} (h : Worked s t)
    (hother : ∀ k pc, s.worker = some (.goal k pc) → k ≠ g) (hg : s.goal_handle_ = some g) :
    t.goal_handle_ = some g := by
  cases h with
  | releases hw => exact release_other (hother _ _ hw) hg
  | @rejects k message hw =>
      exact release_other (s := { s with accepting_goals_ := false }) (hother _ _ hw) hg
  | retires hw => exact release_other (hother _ _ hw) hg
  | @aborts k pc m _ _ _ =>
      rcases s.abort_goal_cases k m with ⟨st, -, -, heq⟩ | ⟨heq, -⟩
      · rw [heq]
        exact hg
      · rw [heq]
        exact hg
  | _ => exact hg

/-- The worker of another request ends under a waiting goal. -/
theorem Waits.worked {s t : State P} {g : ℕ} (h : Waits s g) (hu : s.UnderWay)
    (hx : Worked s t) : Waits t g := by
  have hframe := hx.frame.2
  simp only [Prod.mk.injEq] at hframe
  obtain ⟨hact, hret, hlc, -⟩ := hframe
  refine ⟨?_, ?_, ?_, ?_, ?_⟩
  · rw [hact]
    exact h.act
  · rw [hret]
    exact h.ret
  · rw [hlc]
    exact h.lc
  · rw [hact]
    exact fun p hp => worked_handle hx (hu.distinct g h.act) (h.handle p hp)
  · rw [hact, worked_stop hx]
    exact h.go

/-! ## A waiting goal -/

/-- The callback goes on: it still has the goal, it hands it to a worker that is
alone with it, or it drops it. -/
theorem Waits.acted {s t : State P} {g : ℕ} {h : History} (hw : Waits s g) (hu : s.UnderWay)
    (hc : h.canceled = false) (h0 : h.after = 0) (hx : Acted s t) :
    Phase g t h ∨ s.act = .abort g ∧ t.act = .idle := by
  have hwait := hw.act
  cases hx with
  | accept hp _ =>
      rw [hp] at hwait
      cases hwait
      exact .inl (.waiting ⟨rfl, hw.ret, hw.lc, fun _ _ => rfl, nofun⟩ hc h0)
  | decline hp _ =>
      rw [hp] at hwait
      cases hwait
      exact .inl (.waiting ⟨rfl, hw.ret, hw.lc, nofun, nofun⟩ hc h0)
  | started hp =>
      rw [hp] at hwait
      cases hwait
  | refused hp =>
      rw [hp] at hwait
      cases hwait
      exact .inl (.waiting ⟨rfl, hw.ret, hw.lc, nofun, nofun⟩ hc h0)
  | give_up hp =>
      rw [hp] at hwait
      cases hwait
      exact .inl (.waiting ⟨rfl, hw.ret, hw.lc, nofun, nofun⟩ hc h0)
  | abort hp _ =>
      rw [hp] at hwait
      cases hwait
      exact .inr ⟨hp, rfl⟩
  | @starts k p q u hp hs =>
      have hhandle := hw.handle p
      have hst := hu.waiting g hwait
      rw [hp] at hwait hhandle
      cases hs with
      | spawn =>
          cases hwait
          have hgo := hw.go hp
          -- from now on the goal's worker has it
          refine .inl (.playing rfl nofun ⟨hhandle rfl, hgo, .inr rfl, hw.ret⟩ ?_)
          exact ⟨by decide, fun _ => ⟨hst, hc⟩, fun hne => absurd rfl hne, nofun, nofun,
            fun _ => h0, fun hcan => by rw [hc] at hcan; cases hcan⟩
      | clear =>
          cases hwait
          exact .inl (.waiting ⟨rfl, hw.ret, hw.lc, fun _ _ => hhandle rfl, fun _ => rfl⟩ hc h0)
      | lock _ | store | join _ | pass _ | refuse _ =>
          cases hwait
          exact .inl (.waiting ⟨rfl, hw.ret, hw.lc, fun _ _ => hhandle rfl, nofun⟩ hc h0)

/-! ## The goal's own worker -/

/-- The history behind a step of the goal's worker at `pc`. -/
def History.after_step (h : History) (g : ℕ) (pc : GoalPc) : History :=
  { h with halted := h.halted || calls_halt (some (.goal g pc))
           after := if h.canceled then h.after + 1 else h.after }

theorem record_own {s : State P} {g : ℕ} {pc : GoalPc} (h : History) (i : WorkerInput)
    (hw : s.worker = some (.goal g pc)) : record g h s (.worker i) = h.after_step g pc := by
  simp only [record, hw, Option.any_some, Worker.holds, beq_self_eq_true, if_true,
    History.after_step]

theorem Stands.moves {pc pc' : GoalPc} {st : Option GoalStatus} {h : History} {g : ℕ}
    (hs : Stands pc st h) (hexec : pc ≠ .execute) (hpos : 0 < left pc') (hexec' : pc' ≠ .execute)
    (hcancels : pc'.cancels = true → h.canceled = true)
    (hhalts : past_halt pc' = true → past_halt pc = true ∨ calls_halt (some (.goal g pc)) = true)
    (hdown : h.canceled = true → left pc' < left pc) : Stands pc' st (h.after_step g pc) := by
  refine ⟨hpos, fun heq => absurd heq hexec', fun _ => hs.playing hexec, hcancels, ?_, ?_, ?_⟩
  · intro hp
    show (h.halted || _) = true
    rcases hhalts hp with hpast | hcall
    · rw [hs.halted hpast, Bool.true_or]
    · rw [hcall, Bool.or_true]
  · intro hc
    have hc : h.canceled = false := hc
    show (if h.canceled = true then h.after + 1 else h.after) = 0
    rw [hc]
    exact hs.fresh hc
  · intro hc
    have hc : h.canceled = true := hc
    have hle := hs.bound hc
    have hlt := hdown hc
    show (if h.canceled = true then h.after + 1 else h.after) + left pc' ≤ 10
    rw [if_pos hc]
    omega

/-- The worker goes to its next point and changes nothing else the phases read. -/
theorem plays_on {s : State P} {g : ℕ} {pc pc' : GoalPc} {h : History} {x : Option (ℚ × ℚ)}
    (ha : Alone s g) (hne : pc' ≠ .finish .canceled)
    (hs : Stands pc' (s.status g) (h.after_step g pc)) :
    Phase g { s with worker := some (.goal g pc'), setpoint := x } (h.after_step g pc) :=
  .playing rfl hne ⟨ha.handle, ha.go, ha.act, ha.ret⟩ hs

/-- The points of the loop itself. -/
def looping : GoalPc → Bool
  | .loop | .canceling | .soft_stop | .sample | .write _ _ _ | .feedback _ | .sleep => true
  | _ => false

theorem looping_spec {pc : GoalPc} (h : looping pc = true) :
    0 < left pc ∧ pc ≠ .execute ∧ pc.cancels = false ∧ past_halt pc = false := by
  cases pc with
  | loop | canceling | soft_stop | sleep => decide
  | sample => exact ⟨Nat.zero_lt_succ 8, by rintro ⟨⟩, rfl, rfl⟩
  | write x v c => exact ⟨Nat.zero_lt_succ 7, by rintro ⟨⟩, rfl, rfl⟩
  | feedback c => exact ⟨Nat.zero_lt_succ 6, by rintro ⟨⟩, rfl, rfl⟩
  | _ => cases h

/-- From one point of the loop to the next. -/
theorem loops_on {s : State P} {g : ℕ} {pc pc' : GoalPc} {h : History} {x : Option (ℚ × ℚ)}
    (ha : Alone s g) (hs : Stands pc (s.status g) h) (hpc : looping pc = true)
    (hpc' : looping pc' = true) (hdown : h.canceled = true → left pc' < left pc) :
    Phase g { s with worker := some (.goal g pc'), setpoint := x } (h.after_step g pc) := by
  obtain ⟨hpos, hexec, hcancels, hhalts⟩ := looping_spec hpc'
  have hne : pc' ≠ .finish .canceled := by
    rintro rfl
    cases hpc'
  refine plays_on ha hne (hs.moves (looping_spec hpc).2.1 hpos hexec ?_ ?_ hdown)
  · rw [hcancels]
    intro hyes
    cases hyes
  · rw [hhalts]
    intro hyes
    cases hyes

section Worker

variable {s t : State P} {g : ℕ} {i : WorkerInput} {h : History}

theorem executes (ha : Alone s g) (hs : Stands .execute (s.status g) h)
    (hx : goal_step s g i .execute = some t) : Phase g t (h.after_step g .execute) := by
  obtain ⟨hst, hc⟩ := hs.accepted rfl
  have hcall : s.goal_call g .execute "" = some (s.set_status g .executing "") := by
    rw [State.goal_call, hst]
    rfl
  simp only [goal_step, hcall] at hx
  cases hx
  have hset : (s.set_status g .executing "").status g = some .executing := status_set_self hst
  refine .playing rfl (by rintro ⟨⟩) ⟨ha.handle, ha.go, ha.act, ha.ret⟩ ?_
  refine ⟨by decide, by rintro ⟨⟩, fun _ => ?_, by rintro ⟨⟩, by rintro ⟨⟩, fun _ => ?_,
    fun hcan => ?_⟩
  · show (s.set_status g .executing "").status g = some (if h.canceled = true then _ else _)
    rw [hset, hc]
    rfl
  · show (if h.canceled = true then h.after + 1 else h.after) = 0
    rw [hc]
    exact hs.fresh hc
  · have hcan : h.canceled = true := hcan
    rw [hc] at hcan
    cases hcan

/-- The head of the loop and its two checks, on a node where nothing stops the
goal. -/
theorem checks {pc : GoalPc} (ha : Alone s g) (hok : s.ok = true)
    (hsoft : s.soft_stop_active = false) (hs : Stands pc (s.status g) h)
    (hpc : pc = .loop ∨ pc = .canceling ∨ pc = .soft_stop)
    (hx : goal_step s g i pc = some t) : Phase g t (h.after_step g pc) := by
  have hst := hs.playing (by rcases hpc with rfl | rfl | rfl <;> nofun)
  rcases hpc with rfl | rfl | rfl
  · cases hx
    rw [hok, ha.go]
    exact loops_on ha hs rfl rfl fun _ => by decide
  · cases hx
    by_cases hc : h.canceled = true
    · rw [if_pos hc] at hst
      rw [if_pos hst]
      exact plays_on ha nofun
        (hs.moves nofun (by decide) nofun (fun _ => hc) nofun fun _ => by decide)
    · rw [if_neg hc] at hst
      rw [hst, if_neg (by rintro ⟨⟩)]
      exact loops_on ha hs rfl rfl fun hcan => absurd hcan hc
  · cases hx
    rw [hsoft]
    exact loops_on ha hs rfl rfl fun _ => by decide

/-- One setpoint, without an exception and not refused. -/
theorem writes {pc : GoalPc} (ha : Alone s g) (hq : quiet s (.worker i) = true)
    (hthrows : ∀ what, i ≠ .throws what) (hs : Stands pc (s.status g) h)
    (hpc : pc = .sample ∨ (∃ x v c, pc = .write x v c) ∨ (∃ c, pc = .feedback c) ∨ pc = .sleep)
    (hx : goal_step s g i pc = some t) : Phase g t (h.after_step g pc) := by
  rcases hpc with rfl | ⟨x, v, c, rfl⟩ | ⟨c, rfl⟩ | rfl
  · simp only [goal_step] at hx
    split at hx
    · cases hx
      exact loops_on ha hs rfl rfl fun _ => Nat.lt_succ_self 8
    · cases hx
  · simp only [goal_step] at hx
    split at hx
    · cases hx
      exact loops_on (s := s) ha hs rfl rfl fun _ => Nat.lt_succ_self 7
    · cases hq
    · exact absurd rfl (hthrows _)
    · cases hx
  · rcases calls_eq_some hx with ⟨-, rfl⟩ | ⟨what, rfl, -⟩
    · cases c with
      | true =>
          refine plays_on ha (by rintro ⟨⟩) (hs.moves (by rintro ⟨⟩) (by decide) (by rintro ⟨⟩) ?_
            ?_ fun _ => by decide)
          · rintro ⟨⟩
          · rintro ⟨⟩
      | false => exact loops_on ha hs rfl rfl fun _ => by decide
    · exact absurd rfl (hthrows what)
  · cases hx
    exact loops_on ha hs rfl rfl fun _ => by decide

/-- The two ways out: canceled, and complete. -/
theorem goes_out {pc : GoalPc} (ha : Alone s g) (hthrows : ∀ what, i ≠ .throws what)
    (hs : Stands pc (s.status g) h)
    (hpc : pc = .halt .canceled ∨ pc = .release .canceled ∨ pc = .succeed_halt)
    (hx : goal_step s g i pc = some t) : Phase g t (h.after_step g pc) := by
  rcases hpc with rfl | rfl | rfl
  · rcases calls_eq_some hx with ⟨-, rfl⟩ | ⟨what, rfl, -⟩
    · exact plays_on ha nofun (hs.moves nofun (by decide) nofun (fun _ => hs.cancels rfl)
        (fun _ => .inr rfl) fun _ => by decide)
    · exact absurd rfl (hthrows what)
  · cases hx
    refine .leaving rfl ?_
    show Stands _ ((s.release_handle g).status g) _
    rw [status_release]
    exact hs.moves nofun (by decide) nofun (fun _ => hs.cancels rfl) (fun _ => .inl rfl)
      fun _ => by decide
  · rcases calls_eq_some hx with ⟨-, rfl⟩ | ⟨what, rfl, -⟩
    · exact plays_on ha nofun (hs.moves nofun (by decide) nofun nofun (fun _ => .inr rfl)
        fun _ => by decide)
    · exact absurd rfl (hthrows what)

theorem succeeds (hs : Stands .succeed (s.status g) h) (hx : goal_step s g i .succeed = some t) :
    Phase g t (h.after_step g .succeed) := by
  have hst := hs.playing nofun
  have hcall : s.goal_call g .succeed "Pregenerated trajectory completed" =
      some (s.set_status g .succeeded "Pregenerated trajectory completed") := by
    rw [State.goal_call, hst]
    cases h.canceled with
    | true => rfl
    | false => rfl
  simp only [goal_step, hcall] at hx
  cases hx
  refine .ended (status_set_self (m := "Pregenerated trajectory completed") hst) rfl fun _ =>
    ⟨.inr rfl, ?_⟩
  show (h.halted || _) = true
  rw [hs.halted rfl, Bool.true_or]

theorem reports_canceled (hs : Stands (.finish .canceled) (s.status g) h)
    (hx : goal_step s g i (.finish .canceled) = some t) :
    Phase g t (h.after_step g (.finish .canceled)) := by
  have hst := hs.playing nofun
  rw [if_pos (hs.cancels rfl)] at hst
  have hcall : s.goal_call g .canceled Exit.canceled.message =
      some (s.set_status g .canceled Exit.canceled.message) := by
    rw [State.goal_call, hst]
    rfl
  simp only [goal_step, hcall] at hx
  cases hx
  refine .ended (status_set_self (m := Exit.canceled.message) hst) rfl fun _ => ⟨.inl rfl, ?_⟩
  show (h.halted || _) = true
  rw [hs.halted rfl, Bool.true_or]

/-- One step of the worker of a goal that is spared. -/
theorem own_step {pc : GoalPc} (hw : s.worker = some (.goal g pc)) (hne : pc ≠ .finish .canceled)
    (ha : Alone s g) (hok : s.ok = true) (hsoft : s.soft_stop_active = false)
    (hq : quiet s (.worker i) = true) (hthrows : ∀ what, i ≠ .throws what)
    (hs : Stands pc (s.status g) h) (hx : goal_step s g i pc = some t) :
    Phase g t (record g h s (.worker i)) := by
  rw [record_own h i hw]
  cases pc with
  | execute => exact executes ha hs hx
  | loop => exact checks ha hok hsoft hs (.inl rfl) hx
  | canceling => exact checks ha hok hsoft hs (.inr (.inl rfl)) hx
  | soft_stop => exact checks ha hok hsoft hs (.inr (.inr rfl)) hx
  | sample => exact writes ha hq hthrows hs (.inl rfl) hx
  | write x v c => exact writes ha hq hthrows hs (.inr (.inl ⟨x, v, c, rfl⟩)) hx
  | feedback c => exact writes ha hq hthrows hs (.inr (.inr (.inl ⟨c, rfl⟩))) hx
  | sleep => exact writes ha hq hthrows hs (.inr (.inr (.inr rfl))) hx
  | succeed_halt => exact goes_out ha hthrows hs (.inr (.inr rfl)) hx
  | succeed => exact succeeds hs hx
  | halt e =>
      cases e with
      | canceled => exact goes_out ha hthrows hs (.inl rfl) hx
      | _ => exact absurd hs.on (Nat.lt_irrefl 0)
  | release e =>
      cases e with
      | canceled => exact goes_out ha hthrows hs (.inr (.inl rfl)) hx
      | _ => exact absurd hs.on (Nat.lt_irrefl 0)
  | finish e =>
      cases e with
      | canceled => exact absurd rfl hne
      | _ => exact absurd hs.on (Nat.lt_irrefl 0)
  | _ => exact absurd hs.on (Nat.lt_irrefl 0)

end Worker

/-! ## One step of the node -/

theorem record_other {s : State P} {g : ℕ} {h : History} {e : Event P} (he : ∀ i, e ≠ .worker i)
    (hc : e ≠ .cancel g) : record g h s e = h := by
  cases e with
  | worker i => exact absurd rfl (he i)
  | cancel k =>
      have hk : k ≠ g := fun hk => hc (by rw [hk])
      simp only [record, if_neg hk]
  | _ => rfl

theorem record_elsewhere {s : State P} {g : ℕ} {h : History} {i : WorkerInput}
    (hw : ∀ pc, s.worker ≠ some (.goal g pc)) : record g h s (.worker i) = h := by
  have hholds : ¬ s.worker.any (·.holds g) = true := by
    intro hholds
    obtain ⟨pc, hpc⟩ := worker_of_holds hholds
    exact hw pc hpc
  rw [record, if_neg hholds]

/-- The events that the runs of the claim leave out. -/
theorem quiet_cases {s : State P} {e : Event P} (hq : quiet s e = true) :
    background e = true ∨ (∃ r, e = .goal_request r) ∨ (∃ k, e = .cancel k) ∨ e = .act ∨
      (∃ r, e = .return_request r) ∨ e = .ret ∨ ∃ i, e = .worker i := by
  cases e with
  | goal_request r => exact .inr (.inl ⟨r, rfl⟩)
  | cancel k => exact .inr (.inr (.inl ⟨k, rfl⟩))
  | act => exact .inr (.inr (.inr (.inl rfl)))
  | return_request r => exact .inr (.inr (.inr (.inr (.inl ⟨r, rfl⟩))))
  | ret => exact .inr (.inr (.inr (.inr (.inr (.inl rfl)))))
  | worker i => exact .inr (.inr (.inr (.inr (.inr (.inr ⟨i, rfl⟩)))))
  | tick | soft_stop _ | clock _ => exact .inl rfl
  | _ => cases hq

theorem record_background {s : State P} {g : ℕ} {h : History} {e : Event P}
    (he : background e = true) : record g h s e = h := by
  cases e with
  | tick | soft_stop _ | clock _ => rfl
  | _ => cases he

theorem waiting_step {s t : State P} {g : ℕ} {h : History} {e : Event P} (hu : s.UnderWay)
    (hw : Waits s g) (hc : h.canceled = false) (h0 : h.after = 0) (hq : quiet s e = true)
    (hspared : spared g s e = true) (hx : raw_step s e = some t) :
    Phase g t (record g h s e) ∨ s.act = .abort g ∧ t.act = .idle ∧ e = .act := by
  have hphase : Phase g s h := .waiting hw hc h0
  -- the callback group is busy with this goal
  have busy : s.act ≠ .idle := by
    intro hidle
    have hwait := hw.act
    rw [hidle] at hwait
    cases hwait
  rcases quiet_cases hq with he | ⟨r, rfl⟩ | ⟨k, rfl⟩ | rfl | ⟨r, rfl⟩ | rfl | ⟨i, rfl⟩
  · rw [record_background he]
    exact .inl (hphase.alike (background_alike he hq hx))
  · cases happens hx with
    | goal_request hidle _ => exact absurd hidle busy
  · cases happens hx with
    | cancel hidle _ => exact absurd hidle busy
  · rcases hw.acted hu hc h0 (act_cases hx) with hp | ⟨habort, hidle⟩
    · exact .inl hp
    · exact .inr ⟨habort, hidle, rfl⟩
  · cases happens hx with
    | return_request hidle =>
        unfold WavemakerNode.return_request
        split
        · rename_i hcheck
          simp only [spared, hw.act, hcheck, Option.isNone_none, beq_self_eq_true, Bool.and_self,
            Bool.not_true] at hspared
          cases hspared
        · exact .inl (hphase.alike (turned_away_alike hidle))
  · exact .inl (hphase.alike (ret_alike hw.ret (ret_cases hx)))
  · rw [record_elsewhere fun pc hpc => hu.not_waiting hpc hw.act]
    exact .inl (.waiting (hw.worked hu (worker_cases hx)) hc h0)

theorem left_le (pc : GoalPc) : left pc ≤ 10 := by
  cases pc with
  | halt e => cases e <;> simp only [left] <;> omega
  | release e => cases e <;> simp only [left] <;> omega
  | finish e => cases e <;> simp only [left] <;> omega
  | _ =>
      simp only [left]
      omega

/-- A cancel is accepted while the worker plays the goal. -/
theorem Stands.cancel {pc : GoalPc} {st : Option GoalStatus} {h : History} (hs : Stands pc st h)
    (hexec : pc ≠ .execute) (hc : h.canceled = false) :
    Stands pc (some .canceling) { h with canceled := true } := by
  refine ⟨hs.on, fun heq => absurd heq hexec, fun _ => rfl, fun _ => rfl, hs.halted, nofun, ?_⟩
  intro _
  show h.after + left pc ≤ 10
  rw [hs.fresh hc, Nat.zero_add]
  exact left_le pc

theorem Stands.open {s : State P} {g : ℕ} {pc : GoalPc} {h : History}
    (hs : Stands pc (s.status g) h) : s.Open g := by
  by_cases hexec : pc = .execute
  · exact open_of_status (hs.accepted hexec).1 rfl
  · refine open_of_status (hs.playing hexec) ?_
    cases h.canceled with
    | true => rfl
    | false => rfl

theorem cancel_playing {s t : State P} {g k : ℕ} {pc : GoalPc} {h : History}
    (hw : s.worker = some (.goal g pc)) (hne : pc ≠ .finish .canceled) (ha : Alone s g)
    (hs : Stands pc (s.status g) h) (hspared : spared g s (.cancel k) = true)
    (hx : raw_step s (.cancel k) = some t) : Phase g t (record g h s (.cancel k)) := by
  cases happens hx with
  | cancel _ hor =>
      obtain ⟨st, hst⟩ : ∃ st, s.status k = some st := hor.elim (⟨_, ·⟩) (⟨_, ·⟩)
      by_cases hk : k = g
      · subst hk
        have hexec : pc ≠ .execute := by
          rintro rfl
          simp only [spared, hw, beq_self_eq_true, Bool.and_self, Bool.not_true] at hspared
          cases hspared
        -- the library does not take a second cancel
        have hc : h.canceled = false := by
          by_contra hc
          rw [Bool.not_eq_false] at hc
          have hplay := hs.playing hexec
          rw [if_pos hc] at hplay
          rw [hplay] at hor
          rcases hor with hor | hor
          · cases hor
          · cases hor
        rw [record, if_pos rfl]
        refine .playing hw hne ⟨ha.handle, ha.go, ha.act, ha.ret⟩ ?_
        rw [status_set_self hst]
        exact hs.cancel hexec hc
      · rw [record, if_neg hk]
        refine .playing hw hne ⟨ha.handle, ha.go, ha.act, ha.ret⟩ ?_
        rw [status_eq_set hst, if_neg (Ne.symm hk)]
        exact hs

theorem playing_step {s t : State P} {g : ℕ} {pc : GoalPc} {h : History} {e : Event P}
    (hw : s.worker = some (.goal g pc)) (hne : pc ≠ .finish .canceled) (ha : Alone s g)
    (hs : Stands pc (s.status g) h) (hok : s.ok = true) (hsoft : s.soft_stop_active = false)
    (hq : quiet s e = true) (hspared : spared g s e = true) (hx : raw_step s e = some t) :
    Phase g t (record g h s e) := by
  have hphase : Phase g s h := .playing hw hne ha hs
  rcases quiet_cases hq with he | ⟨r, rfl⟩ | ⟨k, rfl⟩ | rfl | ⟨r, rfl⟩ | rfl | ⟨i, rfl⟩
  · rw [record_background he]
    exact hphase.alike (background_alike he hq hx)
  · -- `goal_handle_` names an active goal
    have hclosed : admits s = false := by
      by_contra hadmits
      rw [Bool.not_eq_false] at hadmits
      obtain ⟨-, -, -, hhd⟩ := admits_spec hadmits
      rw [ha.handle, Option.any_some] at hhd
      exact absurd hs.open (Bool.eq_false_iff.mp hhd)
    cases happens hx with
    | goal_request _ _ =>
        have hsame : goal_callback s r = s := by
          rw [goal_callback, hclosed]
          rfl
        rw [hsame]
        exact hphase
  · exact cancel_playing hw hne ha hs hspared hx
  · have hx : act_step s = some t := hx
    rcases ha.act with hidle | hstart
    · simp only [act_step, hidle] at hx
      cases hx
    · simp only [act_step, hstart] at hx
      cases hx
      exact .playing hw hne ⟨ha.handle, ha.go, .inl rfl, ha.ret⟩ hs
  · cases happens hx with
    | return_request hidle =>
        unfold WavemakerNode.return_request
        split
        · rename_i hcheck
          obtain ⟨-, -, -, hhd⟩ := return_check_spec hcheck
          rw [ha.handle] at hhd
          cases hhd
        · exact hphase.alike (turned_away_alike hidle)
  · exact hphase.alike (ret_alike ha.ret (ret_cases hx))
  · have hthrows : ∀ what, i ≠ .throws what := by
      rintro what rfl
      simp only [spared, hw, Option.any_some, Worker.holds, beq_self_eq_true, Bool.not_true]
        at hspared
      cases hspared
    have hx : worker_step s i = some t := hx
    rw [worker_step, hw] at hx
    exact own_step hw hne ha hok hsoft hq hthrows hs hx

theorem leaving_step {s t : State P} {g : ℕ} {h : History} {e : Event P} (hu : s.UnderWay)
    (hj : Joined s) (hw : s.worker = some (.goal g (.finish .canceled)))
    (hs : Stands (.finish .canceled) (s.status g) h) (hq : quiet s e = true)
    (hx : raw_step s e = some t) : Phase g t (record g h s e) := by
  by_cases he : ∃ i, e = .worker i
  · obtain ⟨i, rfl⟩ := he
    have hx : worker_step s i = some t := hx
    rw [worker_step, hw] at hx
    rw [record_own h i hw]
    exact reports_canceled hs hx
  · have he : ∀ i, e ≠ .worker i := fun i hi => he ⟨i, hi⟩
    have hst := hs.playing (by rintro ⟨⟩)
    rw [if_pos (hs.cancels rfl)] at hst
    have hworker := (other_handled hj (raw_step_cases hx) he).running hw (by rintro ⟨⟩)
    cases restatus hu hx g with
    | same heq =>
        have hrecord : record g h s e = h := by
          by_cases hcan : e = .cancel g
          -- a second cancel leaves no new mark
          · rw [hcan, record, if_pos rfl]
            have hc := hs.cancels rfl
            obtain ⟨c, b, n⟩ := h
            cases hc
            rfl
          · exact record_other he hcan
        rw [hrecord]
        refine .leaving hworker ?_
        rw [heq]
        exact hs
    | accepted _ _ hnone _ =>
        rw [State.status, hnone] at hst
        cases hst
    | canceling _ hor _ =>
        rw [hst] at hor
        rcases hor with hor | hor
        · cases hor
        · cases hor
    | worked _ _ _ _ => exact absurd rfl (he _)
    | aborted _ _ _ => cases hq

theorem over_step {s t : State P} {g : ℕ} {h : History} {e : Event P} {st : GoalStatus}
    (hu : s.UnderWay) (hst : s.status g = some st) (hend : st.is_active = false)
    (hc : h.canceled = true → (st = .canceled ∨ st = .succeeded) ∧ h.halted = true)
    (hx : raw_step s e = some t) : Phase g t (record g h s e) := by
  refine .ended ((restatus hu hx g).final hst hend) hend ?_
  cases e with
  | cancel k =>
      by_cases hk : k = g
      · -- the library turns the cancel of an ended goal away
        subst hk
        cases happens hx with
        | cancel _ hor =>
            rw [hst] at hor
            rcases hor with hopen | hopen
            · cases hopen
              cases hend
            · cases hopen
              cases hend
      · rw [record, if_neg hk]
        exact hc
  | worker i =>
      rw [record]
      split
      · intro hcan
        obtain ⟨hor, hhalted⟩ := hc hcan
        refine ⟨hor, ?_⟩
        show (h.halted || _) = true
        rw [hhalted, Bool.true_or]
      · exact hc
  | _ => exact hc

theorem unknown_step {s t : State P} {g : ℕ} {h : History} {e : Event P} (hsound : Sound s)
    (hclaims : ∃ h', ReturnReply.State.Inv s h') (hnone : s.goals g = none)
    (hc : h.canceled = false) (h0 : h.after = 0) (hx : raw_step s e = some t) :
    Phase g t (record g h s e) := by
  have hst : s.status g = none := by
    rw [State.status, hnone]
    rfl
  -- nobody has a goal that is not known
  have hlc : s.lc.holds g = false := by
    by_contra hholds
    rw [Bool.not_eq_false] at hholds
    have hknown := hsound.owners.lc_known g hholds
    rw [hst] at hknown
    cases hknown
  have hworker : ∀ pc, s.worker ≠ some (.goal g pc) := by
    intro pc hpc
    have hknown := hsound.underWay.known g pc hpc
    rw [hst] at hknown
    cases hknown
  have hrecord : record g h s e = h := by
    by_cases he : ∃ i, e = .worker i
    · obtain ⟨i, rfl⟩ := he
      exact record_elsewhere hworker
    · refine record_other (fun i hi => he ⟨i, hi⟩) ?_
      rintro rfl
      cases happens hx with
      | cancel _ hor =>
          rw [hst] at hor
          rcases hor with hsome | hsome
          · cases hsome
          · cases hsome
  rw [hrecord]
  cases restatus hsound.underWay hx g with
  | same heq =>
      refine .unknown ?_ hc h0
      rw [hst, State.status, Option.map_eq_none_iff] at heq
      exact heq
  | @accepted r hid haccepts _ hact =>
      -- the request has found no return in progress
      obtain ⟨h', hi⟩ := hclaims
      have hfree := hi.no_claim (admits_spec (admits_of_accepts haccepts)).2.2.1
      cases happens hx with
      | goal_request hidle _ =>
          generalize goal_callback s r = u, goal_callback_cases s r = hr at hact
          cases hr with
          | accepted _ _ =>
              cases hact
              exact .waiting ⟨rfl, hfree, hlc, by rintro _ ⟨⟩, by rintro ⟨⟩⟩ hc h0
          | ignored | rejected _ =>
              have hact : s.act = .handle g := hact
              rw [hidle] at hact
              cases hact
  | canceling _ hor _ | aborted _ hor _ =>
      rw [hst] at hor
      rcases hor with hor | hor
      · cases hor
      · cases hor
  | worked hpc _ _ _ => exact absurd hpc (hworker _)

/-- A goal that was not started is dropped, and its handle's destructor ends it. -/
theorem dropped_step {s t : State P} {g : ℕ} {h : History} (hsound : Sound s) (hw : Waits s g)
    (hc : h.canceled = false) (habort : s.act = .abort g) (hx : raw_step s .act = some t) :
    Phase g (reap t) h := by
  have ht : t = { s with act := .idle } := by
    have hx : act_step s = some t := hx
    simp only [act_step, habort, abort_waiting hsound.underWay hw.act] at hx
    exact (Option.some.inj hx).symm
  have hst : t.status g = some .accepted := by
    rw [ht]
    exact hsound.underWay.waiting g hw.act
  have href : t.referenced g = false := by
    by_contra href
    rw [Bool.not_eq_false] at href
    simp only [ht, State.referenced, Act.holds, hw.lc, Bool.or_false, Bool.or_eq_true,
      beq_iff_eq] at href
    rcases href with hhd | hholds
    · exact (hsound.owners.handle g hhd).2 habort
    · obtain ⟨pc, hpc⟩ := worker_of_holds hholds
      exact hsound.underWay.not_waiting hpc hw.act
  have hend : (reap t).status g = some .canceled := by
    obtain ⟨x, hget, hacc⟩ := Option.map_eq_some_iff.mp hst
    simp only [State.status, reap, hget, Option.map_some, hacc, href, GoalStatus.is_active,
      Bool.not_false, Bool.and_self, if_true]
  refine .ended hend rfl fun hcan => ?_
  rw [hc] at hcan
  cases hcan

/-! ## Every run -/

/-- What holds along a run, with the goal's phase. -/
structure Inv (g : ℕ) (x : State P × History) : Prop where
  sound : Sound x.1
  claims : ∃ h, ReturnReply.State.Inv x.1 h
  phase : Phase g x.1 x.2

theorem step_inv {g : ℕ} {x y : State P × History} {e : Event P} (h : Inv g x)
    (hok : StepOk g x e) (hs : observe step (record g) x e = some y) : Inv g y := by
  obtain ⟨⟨hrun, hsoft, hq⟩, hspared⟩ := hok
  obtain ⟨hs, hy⟩ := observe_eq_some.mp hs
  have hsound := step_sound h.sound hs
  obtain ⟨u, hx, hu⟩ := step_eq_some hs
  refine ⟨hsound, ?_, ?_⟩
  · obtain ⟨h', hi⟩ := ReturnReply.raw_step_claimed h.sound.joined h.claims hx
    rw [hu]
    exact ⟨h', hi⟩
  · rw [hy]
    cases h.phase with
    | unknown hnone hc h0 =>
        rw [hu]
        exact (unknown_step h.sound h.claims hnone hc h0 hx).reap
    | playing hw hne ha hst =>
        rw [hu]
        exact (playing_step hw hne ha hst hrun hsoft hq hspared hx).reap
    | leaving hw hst =>
        rw [hu]
        exact (leaving_step h.sound.underWay h.sound.joined hw hst hq hx).reap
    | ended hst hend hc =>
        rw [hu]
        exact (over_step h.sound.underWay hst hend hc hx).reap
    | waiting hw hc h0 =>
        rw [hu]
        rcases waiting_step h.sound.underWay hw hc h0 hq hspared hx with hp | ⟨habort, -, rfl⟩
        · exact hp.reap
        · exact dropped_step h.sound hw hc habort hx

theorem reach_claimed {s : State P} (h : Reach step Any Init s) :
    ∃ h, ReturnReply.State.Inv s h := by
  have hinit : ∀ t : State P, Init t → Joined t ∧ Ladder t ∧ ∃ h, ReturnReply.State.Inv t h := by
    intro t ht
    refine ⟨init_joined ht, init_ladder ht, ⟨[], none⟩, ?_⟩
    obtain ⟨-, -, hr, -, -, -, -, -, -, -, -, -, -, -, -, -, -, hl, -, hret, hw, -, -, -, -⟩ := ht
    unfold ReturnReply.State.Inv
    rw [hr, hl, hret, hw]
    exact ⟨fun _ => rfl, rfl, nofun⟩
  have hstep : ∀ (t : State P) e u, Joined t ∧ Ladder t ∧ (∃ h, ReturnReply.State.Inv t h) →
      Any t e → step t e = some u → Joined u ∧ Ladder u ∧ ∃ h, ReturnReply.State.Inv u h := by
    rintro t e u ⟨hj, hl, hi⟩ - hs
    refine ⟨step_joined hl hj hs, step_ladder hl hs, ?_⟩
    obtain ⟨v, hx, rfl⟩ := step_eq_some hs
    obtain ⟨h', hi'⟩ := ReturnReply.raw_step_claimed hj hi hx
    exact ⟨h', hi'⟩
  exact (h.invariant hinit hstep).2.2

/-- **A canceled goal is reported canceled.** Take any run, and from a point on at
which the goal is not known let every step meet the condition. Once a cancel of
the goal has been accepted, the goal is never aborted; as long as it has not ended
it is canceling and its worker, which has it, has taken fewer than ten steps since;
and when it has ended, it was canceled or had succeeded, and the actuator was
halted. -/
theorem canceled_goal {s : State P} {g : ℕ} (hs : Reach step Any Init s) (hnew : s.goals g = none)
    {x : State P × History}
    (h : Reach (observe step (record g)) (StepOk g) (fun y => y = (s, History.start)) x)
    (hc : x.2.canceled = true) :
    x.1.status g ≠ some .aborted ∧
    (x.1.Open g → x.1.status g = some .canceling ∧ x.2.after < 10 ∧
      ∃ pc, x.1.worker = some (.goal g pc)) ∧
    (¬ x.1.Open g → (x.1.status g = some .canceled ∨ x.1.status g = some .succeeded) ∧
      x.2.halted = true) := by
  have hinit : ∀ y : State P × History, y = (s, .start) → Inv g y := by
    rintro y rfl
    exact ⟨reach_sound hs, reach_claimed hs, .unknown hnew rfl rfl⟩
  have hinv := h.invariant hinit fun y e z hy hok hz => step_inv hy hok hz
  -- a worker that has the goal, past `execute()`
  have under : ∀ {pc : GoalPc}, x.1.worker = some (.goal g pc) → Stands pc (x.1.status g) x.2 →
      x.1.status g = some .canceling ∧ x.2.after < 10 ∧ ∃ pc, x.1.worker = some (.goal g pc) := by
    intro pc hw hst
    have hexec : pc ≠ .execute := by
      rintro rfl
      rw [(hst.accepted rfl).2] at hc
      cases hc
    have hplay := hst.playing hexec
    rw [if_pos hc] at hplay
    have hbound := hst.bound hc
    have hon := hst.on
    exact ⟨hplay, by omega, pc, hw⟩
  have done : x.1.status g = some .canceling → x.1.status g ≠ some .aborted ∧
      (¬ x.1.Open g → (x.1.status g = some .canceled ∨ x.1.status g = some .succeeded) ∧
        x.2.halted = true) := by
    intro hst
    refine ⟨?_, fun hended => absurd (open_of_status hst rfl) hended⟩
    rw [hst]
    nofun
  cases hinv.phase with
  | unknown _ hnot _ | waiting _ hnot _ =>
      rw [hnot] at hc
      cases hc
  | playing hw _ _ hst | leaving hw hst =>
      obtain ⟨hcanceling, hsteps⟩ := under hw hst
      obtain ⟨habort, hended⟩ := done hcanceling
      exact ⟨habort, fun _ => ⟨hcanceling, hsteps⟩, hended⟩
  | @ended st hst hend hreported =>
      obtain ⟨hor, hhalted⟩ := hreported hc
      refine ⟨?_, ?_, fun _ => ⟨?_, hhalted⟩⟩
      · rw [hst]
        rcases hor with rfl | rfl
        · nofun
        · nofun
      · intro hopen
        obtain ⟨st', hst', hactive⟩ := State.open_iff.mp hopen
        rw [hst] at hst'
        cases hst'
        rw [hend] at hactive
        cases hactive
      · rw [hst]
        rcases hor with rfl | rfl
        · exact .inl rfl
        · exact .inr rfl

/-- A goal is canceled once its worker has called `execute()`. -/
def canceled_playing : List (Event bench) :=
  requests 0 1 :: .act :: starts ++ .worker .proceed :: .cancel 0 ::
    List.replicate 5 (.worker .proceed)

theorem playing_goal_canceled :
    ∃ (s : State bench) (x : State bench × History), Reach step Any Init s ∧ s.goals 0 = none ∧
      Reach (observe step (record 0)) (StepOk 0) (fun y => y = (s, History.start)) x ∧
      x.2.canceled = true ∧ x.1.status 0 = some .canceled ∧ x.2.halted = true := by
  have heval : ((run step constructed boot).bind fun s =>
      (run (guarded (observe step (record 0)) (StepOk 0)) (s, History.start)
        canceled_playing).map fun x =>
          ((s.goals 0).isNone, x.2.canceled, x.1.is_active 0, x.1.status 0)) =
      some (true, true, false, some .canceled) := by
    decide +kernel
  obtain ⟨s, hs, heval⟩ := Option.bind_eq_some_iff.mp heval
  obtain ⟨x, hx, hval⟩ := Option.map_eq_some_iff.mp heval
  simp only [Prod.mk.injEq] at hval
  obtain ⟨hnew, hc, hended, hst⟩ := hval
  have hreach : Reach step Any Init s := .run (.init constructed_init) hs
  have hnew := Option.isNone_iff_eq_none.mp hnew
  have hstretch : Reach (observe step (record 0)) (StepOk 0) (fun y => y = (s, History.start)) x :=
    .guarded_run _ (.init rfl) hx
  obtain ⟨-, -, hover⟩ := canceled_goal hreach hnew hstretch hc
  exact ⟨s, x, hreach, hnew, hstretch, hc, hst, (hover (Bool.eq_false_iff.mp hended)).2⟩

/-- A goal is canceled between the start of its worker and the worker's
`execute()`. -/
def canceled_before_execute : List (Event bench) :=
  requests 0 1 :: .act :: starts ++ .cancel 0 :: List.replicate 4 (.worker .proceed)

/-- Its cancel is accepted, and it is reported aborted. -/
theorem early_cancel_aborted :
    ∃ (s : State bench) (x : State bench × History), Reach step Any Init s ∧ s.goals 0 = none ∧
      Reach (observe step (record 0)) Undisturbed (fun y => y = (s, History.start)) x ∧
      x.2.canceled = true ∧ x.1.status 0 = some .aborted := by
  have heval : ((run step constructed boot).bind fun s =>
      (run (guarded (observe step (record 0)) Undisturbed) (s, History.start)
        canceled_before_execute).map fun x =>
          ((s.goals 0).isNone, x.2.canceled, x.1.status 0)) =
      some (true, true, some .aborted) := by
    decide +kernel
  obtain ⟨s, hs, heval⟩ := Option.bind_eq_some_iff.mp heval
  obtain ⟨x, hx, hval⟩ := Option.map_eq_some_iff.mp heval
  simp only [Prod.mk.injEq] at hval
  obtain ⟨hnew, hc, hst⟩ := hval
  exact ⟨s, x, .run (.init constructed_init) hs, Option.isNone_iff_eq_none.mp hnew,
    .guarded_run _ (.init rfl) hx, hc, hst⟩

end WavemakerNode.GoalCancel
