/-
Targets and the speeds they travel with.

`move_to` stages the speed and then the target, each in a section of its own, and a
cycle may copy the outputs in between. `Pairs` counts the accepted calls by what they
have staged, and keeps with the image in flight and with the gateway's registers the
numbers of the calls that the target and the speed in them come from. In every image
that arrives the speed is the target's own or that of the next call, and the target's
number never goes back (`pairs_in_order`).
-/
import Wavemakers.StagedCommand
import Wavemakers.WholeFlush

set_option autoImplicit false

namespace Mgate.Threads.CommandPairs

open Interleave Atomic Atomic.Prog MGateDriver

/-! ## The history -/

/-- What the accepted calls have staged, what of it was there when the running call began,
and the calls that the target and the speed come from in the image in flight and at the
gateway; 0 stands for what was there before. -/
structure Pairs where
  targets : List ℚ
  velocities : List ℚ
  began : Option (List ℚ × List ℚ)
  flight : ℕ × ℕ
  gw : ℕ × ℕ

/-- The calls the staged values come from. -/
def Pairs.staged (h : Pairs) : ℕ × ℕ := (h.targets.length, h.velocities.length)

def Pairs.perform (h : Pairs) : Op → Pairs
  | .write .PosVelocity v => { h with velocities := h.velocities ++ [v] }
  | .write .TargetPosition p => { h with targets := h.targets ++ [p] }
  | _ => h

def Pairs.carry (h : Pairs) : Flow → Pairs
  | .copied => { h with flight := h.staged }
  | .reached => { h with gw := h.flight }
  | .none => h

def note (h : Pairs) (s : State) : Event → Pairs
  | .call _ _ => { h with began := some (h.targets, h.velocities) }
  | .cmd =>
      match s.prog with
      | .op o _ => h.perform o
      | .pure _ => h
  | .poll i => h.carry (flow s i)
  | _ => h

/-- The runs with this history. -/
abbrev pairs (F : FloatCast) : System F (State × Pairs) := .observed F note

/-- Every call but `enable()`, which stages command values of its own. -/
def Moves {σ : Type} (_ : σ) : Event → Prop
  | .call c _ => c ≠ .enable ∧ c ≠ .actuator_start
  | _ => True

instance {σ : Type} (x : σ) : (e : Event) → Decidable (Moves x e)
  | .call c _ => inferInstanceAs (Decidable (c ≠ .enable ∧ c ≠ .actuator_start))
  | .cmd | .poll _ | .request_abort => .isTrue trivial

/-- Between two calls of a run in which every cycle sends all outputs. -/
structure Start (F : FloatCast) (x : State × Pairs) : Prop where
  reached : Reach (step F) Any Init x.1
  idle : ∃ b, x.1.prog = .pure b
  all : x.1.drv.cfg_.write_only_dirty = false
  fresh : x.2 = ⟨[], [], none, (0, 0), (0, 0)⟩

/-! ## The calls stage a speed and then a target -/

section Calls

variable {F : FloatCast} {cfg : IndraDriveActuator.Config} {x y : State × Pairs}

/-- A speed is staged behind a target, a target behind its speed. -/
def Owes (x : State × Pairs) : Op → Prop
  | .write .PosVelocity _ => x.2.velocities.length = x.2.targets.length
  | .write .TargetPosition _ => x.2.velocities.length = x.2.targets.length + 1
  | _ => True

abbrev inside (F : FloatCast) : Setting (State × Pairs) Resp := (pairs F).setting Moves Owes

theorem own_history {o : Op} {r : Resp o} (h : (pairs F).Own Moves x o y r) :
    y.2 = x.2.perform o := by
  obtain ⟨k, u, hprog, -, -⟩ := h.exec
  have hprog : x.1.prog = .op o k := hprog
  have hs : observe (step F) note x .cmd = some y := h.step
  rw [(observe_eq_some.mp hs).2]
  simp only [note, hprog]

/-- Not a command value. -/
def Other (o : Op) : Prop := ∀ c v, o ≠ .write c v

theorem own_other {o : Op} {r : Resp o} (h : (pairs F).Own Moves x o y r) (ho : Other o) :
    y.2 = x.2 := by
  rw [own_history h]
  cases o with
  | write c v => exact absurd rfl (ho c v)
  | _ => rfl

/-- The staged values are those of `h`. -/
structure Stands (h : Pairs) (x : State × Pairs) : Prop where
  targets : x.2.targets = h.targets
  velocities : x.2.velocities = h.velocities
  began : x.2.began = h.began

theorem others_history (h : (pairs F).Others Moves x y) : Stands x.2 y := by
  have hcarry : ∀ f, Stands x.2 (y.1, x.2.carry f) := by
    intro f
    cases f with
    | copied => exact ⟨rfl, rfl, rfl⟩
    | reached => exact ⟨rfl, rfl, rfl⟩
    | none => exact ⟨rfl, rfl, rfl⟩
  rcases h.step with ⟨i, -, hs⟩ | ⟨-, hs⟩
  · have hnote : y.2 = x.2.carry (flow x.1 i) := (observe_eq_some.mp hs).2
    have hstands := hcarry (flow x.1 i)
    rw [← hnote] at hstands
    exact hstands
  · have hs : observe (step F) note x .request_abort = some y := hs
    have hnote : y.2 = x.2 := (observe_eq_some.mp hs).2
    exact ⟨by rw [hnote], by rw [hnote], by rw [hnote]⟩

theorem stands_stable (h : Pairs) : (inside F).Stable (Stands h) := by
  intro x y hx hs
  have hy := others_history hs
  exact ⟨hy.targets.trans hx.targets, hy.velocities.trans hx.velocities, hy.began.trans hx.began⟩

/-- Every staged speed has its target. -/
def Even (h : Pairs) : Prop := h.velocities.length = h.targets.length

theorem even_stable : (inside F).Stable fun x => Even x.2 := by
  intro x y hx hs
  have hy := others_history hs
  unfold Even
  rw [hy.targets, hy.velocities]
  exact hx

/-- An accepted call with `p` and `v`. -/
def Pairs.pair (h : Pairs) (p v : ℚ) : Pairs :=
  { h with targets := h.targets ++ [p], velocities := h.velocities ++ [v] }

theorem Even.pair {h : Pairs} (he : Even h) (p v : ℚ) : Even (h.pair p v) := by
  show (h.velocities ++ [v]).length = (h.targets ++ [p]).length
  rw [List.length_append, List.length_append, he, List.length_singleton, List.length_singleton]

/-- When a call has returned: an accepted move has staged its pair, a refused one nothing. -/
def Returned (c : Call) (b : Bool) (x : State × Pairs) : Prop :=
  Even x.2 ∧ ∀ p v targets velocities, c = .move_to p v → x.2.began = some (targets, velocities) →
    (x.2.targets, x.2.velocities) =
      if b then (targets ++ [p], velocities ++ [v]) else (targets, velocities)

theorem returned_stable (c : Call) (b : Bool) : (inside F).Stable (Returned c b) := by
  intro x y hx hs
  have hy := others_history hs
  refine ⟨even_stable x y hx.1 hs, fun p v targets velocities hc hbegan => ?_⟩
  rw [hy.began] at hbegan
  rw [hy.targets, hy.velocities]
  exact hx.2 p v targets velocities hc hbegan

theorem owes_other {o : Op} (ho : Other o) (x : State × Pairs) : Owes x o := by
  cases o with
  | write c v => exact absurd rfl (ho c v)
  | _ => trivial

theorem other_steering {o : Op} (ho : steering o = true) : Other o := by
  rintro c v rfl
  cases ho

theorem other_passive {o : Op} (ho : passive o = true) : Other o := by
  rintro c v rfl
  cases ho

theorem Steering.other {α : Type} {p : Drive α} (h : Steering p) : p.All Other :=
  h.mono fun _ => other_steering

theorem stands_kept (h : Pairs) : (pairs F).Kept Moves Owes (Stands h) := by
  refine ⟨stands_stable h, fun {o x y r} ho hx hs => ?_⟩
  have hsame := own_other hs (other_passive ho)
  exact ⟨by rw [hsame]; exact hx.targets, by rw [hsame]; exact hx.velocities,
    by rw [hsame]; exact hx.began⟩

/-- A program without command values stages none. -/
theorem even_frame {α : Type} {p : Drive α} (hp : p.All Other) :
    Triple (inside F) (fun x => Even x.2) p fun _ x => Even x.2 := by
  refine Triple.frame even_stable (fun x o ho _ => owes_other ho x) (fun x o y r ho hx hs => ?_) hp
  rw [own_other hs ho]
  exact hx

/-- **An accepted move stages a pair**, a refused one nothing. -/
theorem move_pairs {drive : IndraDriveConfig} {h : Pairs} {p v : ℚ} (he : Even h) :
    Triple (inside F) (Stands h) (IndraDrive.move_to drive p v)
      fun b => Stands (if b then h.pair p v else h) := by
  refine System.triple_move (V := Stands { h with velocities := h.velocities ++ [v] })
    (fun x o ho => owes_other (other_passive ho) x) (stands_kept h) (stands_stable _)
    (fun b => stands_stable _) (fun x hx => hx) (fun _ x => ⟨fun hx => ?_, fun hx => ?_⟩)
    (fun _ x y r hx hs => ?_) fun _ x y r hx hs => ?_
  · show x.2.velocities.length = x.2.targets.length
    rw [hx.targets, hx.velocities]
    exact he
  · show x.2.velocities.length = x.2.targets.length + 1
    rw [hx.targets, hx.velocities, List.length_append, List.length_singleton, he]
  · have hnote : y.2 = { x.2 with velocities := x.2.velocities ++ [v] } := own_history hs
    rw [← hx.velocities]
    exact ⟨by rw [hnote]; exact hx.targets, by rw [hnote], by rw [hnote]; exact hx.began⟩
  · have hnote : y.2 = { x.2 with targets := x.2.targets ++ [p] } := own_history hs
    refine ⟨?_, ?_, ?_⟩
    · rw [hnote]
      show x.2.targets ++ [p] = h.targets ++ [p]
      rw [hx.targets]
    · rw [hnote]
      exact hx.velocities
    · rw [hnote]
      exact hx.began

/-- Behind other operations only the counts are kept. -/
theorem move_even {drive : IndraDriveConfig} {p v : ℚ} :
    Triple (inside F) (fun x => Even x.2) (IndraDrive.move_to drive p v) fun _ x => Even x.2 := by
  intro x hx
  refine (move_pairs hx x ⟨rfl, rfl, rfl⟩).mono fun b y hy => ?_
  have heven : Even (if b then x.2.pair p v else x.2) := by
    cases b with
    | true => exact hx.pair p v
    | false => exact hx
  unfold Even
  rw [hy.targets, hy.velocities]
  exact heven

theorem halt_even :
    Triple (inside F) (fun x => Even x.2) (IndraDriveActuator.halt cfg) fun _ x => Even x.2 := by
  have hact : ∀ o, passive o = true →
      Triple (inside F) (fun x => Even x.2) (act o) fun _ x => Even x.2 :=
    fun o ho => even_frame (Steering.other (passive_act ho).steering)
  refine .bind (hact _ rfl) fun fault => .ite (fun _ => ?_) fun _ => ?_
  · exact Triple.pure (Q := fun _ (x : State × Pairs) => Even x.2) even_stable
  refine .bind (hact _ rfl) fun has => .ite (fun _ => ?_) fun _ => ?_
  · exact .bind (hact _ rfl) fun p => move_even
  · exact .bind (hact _ rfl) fun p => move_even

theorem write_setpoint_even (p v : ℚ) :
    Triple (inside F) (fun x => Even x.2) (IndraDriveActuator.write_setpoint cfg p v)
      fun _ x => Even x.2 := by
  refine .bind move_even fun ok => .ite (fun _ => ?_) fun _ => ?_
  · exact Triple.pure (Q := fun _ (x : State × Pairs) => Even x.2) even_stable
  · exact even_frame (all_bind (all_lift nofun) fun _ => all_bind (all_lift nofun) fun _ =>
      all_pure _ _)

/-- **Every call** of such a run. -/
theorem program_pairs {c : Call} (rounds : ℕ → ℕ) (hc : c ≠ .enable ∧ c ≠ .actuator_start)
    (he : Even x.2) (hbegan : x.2.began = some (x.2.targets, x.2.velocities)) :
    (c.program cfg rounds).Safe (inside F) (Returned c) x := by
  have hplain : ∀ {p : Drive Bool}, (∀ p v, c ≠ .move_to p v) →
      Triple (inside F) (fun x => Even x.2) p (fun _ x => Even x.2) →
      p.Safe (inside F) (Returned c) x :=
    fun hne hp => (hp x he).mono fun _ _ hy => ⟨hy, fun p v _ _ heq => absurd heq (hne p v)⟩
  have hstop : driver_stop.All Other := all_driver_stop nofun nofun nofun nofun
  cases c with
  | enable => exact absurd rfl hc.1
  | actuator_start => exact absurd rfl hc.2
  | move_to p v =>
      refine (move_pairs he x ⟨rfl, rfl, rfl⟩).mono fun b y hy => ?_
      refine ⟨?_, fun p' v' targets velocities heq hy' => ?_⟩
      · unfold Even
        rw [hy.targets, hy.velocities]
        cases b with
        | true => exact he.pair p v
        | false => exact he
      · cases heq
        rw [hy.targets, hy.velocities]
        rw [hy.began] at hy'
        cases b with
        | true =>
            cases hbegan.symm.trans hy'
            rfl
        | false =>
            cases hbegan.symm.trans hy'
            rfl
  | driver_start =>
      exact hplain nofun (even_frame (all_bind (all_lift nofun) fun _ => all_pure _ _))
  | driver_stop => exact hplain nofun (even_frame (all_bind hstop fun _ => all_pure _ _))
  | halt => exact hplain nofun (even_frame (Steering.other steering_halt))
  | disable => exact hplain nofun (even_frame (Steering.other (steering_disable _)))
  | clear_errors => exact hplain nofun (even_frame (Steering.other (steering_clear_errors _)))
  | shutdown => exact hplain nofun (even_frame (Steering.other steering_shutdown))
  | actuator_halt => exact hplain nofun halt_even
  | actuator_stop =>
      refine hplain nofun (even_frame ?_)
      refine all_bind (all_lift nofun) fun _ => all_bind (Steering.other (steering_disable _)) fun _ => ?_
      exact all_bind hstop fun _ => all_pure _ _
  | write_setpoint p v => exact hplain nofun (write_setpoint_even p v)

theorem start_wired (h : Start F x) : Wired x.1 :=
  System.reach_wired (S := System.plain F) (fun _ => init_wired) h.reached

theorem reach_safe (h : Reach (pairs F).step Moves (Start F) x) :
    x.1.prog.Safe (inside F) (Returned x.1.call) x := by
  refine System.safe (S := pairs F) (fun y hy => start_wired hy) ?_ ?_ h
  · intro y hy
    obtain ⟨b, hb⟩ := hy.idle
    refine System.safe_idle (returned_stable _ _) hb ⟨?_, fun p v targets velocities _ hbegan => ?_⟩
    · rw [hy.fresh]
      rfl
    · rw [hy.fresh] at hbegan
      cases hbegan
  · intro y z c rounds b _ hC _ hQ hs hz
    have hs : observe (step F) note y (.call c rounds) = some z := hs
    have hnote : z.2 = { y.2 with began := some (y.2.targets, y.2.velocities) } :=
      (observe_eq_some.mp hs).2
    refine program_pairs rounds hC ?_ ?_
    · rw [hnote]
      exact hQ.1
    · rw [hnote]

end Calls

/-! ## The pairs on their way -/

/-- The speed is the target's own or the next call's. -/
def InOrder (k : ℕ × ℕ) : Prop := k.1 ≤ k.2 ∧ k.2 ≤ k.1 + 1

/-- The image has the target of the `k.1`-th and the speed of the `k.2`-th accepted call. -/
structure From (h : Pairs) (k : ℕ × ℕ) (img : ProcessImage) : Prop where
  target : ∀ j, k.1 = j + 1 → ∃ p, h.targets[j]? = some p ∧ target img = encode p
  velocity : ∀ j, k.2 = j + 1 → ∃ v, h.velocities[j]? = some v ∧ velocity img = encode v

section Flow

variable {F : FloatCast} {h h' : Pairs} {k : ℕ × ℕ} {img img' : ProcessImage} {x y : State × Pairs}

theorem getElem?_prefix {α : Type} {l l' : List α} (h : l <+: l') {j : ℕ} {a : α}
    (hj : l[j]? = some a) : l'[j]? = some a := by
  obtain ⟨m, rfl⟩ := h
  rw [List.getElem?_append_left (List.getElem?_eq_some_iff.mp hj).1]
  exact hj

/-- Later calls do not change where a value came from. -/
theorem From.mono (hf : From h k img) (ht : h.targets <+: h'.targets)
    (hv : h.velocities <+: h'.velocities) : From h' k img := by
  refine ⟨fun j hj => ?_, fun j hj => ?_⟩
  · obtain ⟨p, hp, heq⟩ := hf.target j hj
    exact ⟨p, getElem?_prefix ht hp, heq⟩
  · obtain ⟨v, hv', heq⟩ := hf.velocity j hj
    exact ⟨v, getElem?_prefix hv hv', heq⟩

theorem From.congr (hf : From h k img) (htarget : Threads.target img' = Threads.target img)
    (hvelocity : Threads.velocity img' = Threads.velocity img) : From h k img' :=
  ⟨by rw [htarget]; exact hf.target, by rw [hvelocity]; exact hf.velocity⟩

theorem From.agree (hf : From h k img) (ha : Agree img' img) : From h k img' :=
  hf.congr ha.target ha.velocity

theorem perform_prefix (h : Pairs) (o : Op) :
    h.targets <+: (h.perform o).targets ∧ h.velocities <+: (h.perform o).velocities := by
  cases o with
  | write c v =>
      cases c with
      | TargetPosition => exact ⟨List.prefix_append _ _, List.prefix_refl _⟩
      | PosVelocity => exact ⟨List.prefix_refl _, List.prefix_append _ _⟩
      | Override => exact ⟨List.prefix_refl _, List.prefix_refl _⟩
  | _ => exact ⟨List.prefix_refl _, List.prefix_refl _⟩

/-- Where the values in the output image, in flight and at the gateway come from. -/
structure Inv (x : State × Pairs) : Prop where
  wired : Wired x.1
  whole : Whole x.1
  staged : InOrder x.2.staged
  flight : InOrder x.2.flight
  gw : InOrder x.2.gw
  flight_le : x.2.flight.1 ≤ x.2.targets.length
  gw_le : x.2.gw.1 ≤ x.2.flight.1
  out : From x.2 x.2.staged x.1.drv.out_
  sent : ∀ regs, first x.1.poll = some regs → From x.2 x.2.flight (image regs)
  arrived : From x.2 x.2.gw (image x.1.gw)

theorem start_inv (hx : Start F x) : Inv x := by
  have hnothing : ∀ img, From x.2 (0, 0) img := fun img => ⟨nofun, nofun⟩
  have hstaged : x.2.staged = (0, 0) := by rw [hx.fresh]; rfl
  have hflight : x.2.flight = (0, 0) := by rw [hx.fresh]
  have hgw : x.2.gw = (0, 0) := by rw [hx.fresh]
  have hzero : InOrder (0, 0) := ⟨le_refl _, Nat.zero_le _⟩
  refine ⟨start_wired hx, reach_whole hx.reached hx.all, ?_, ?_, ?_, ?_, ?_, ?_, fun _ _ => ?_, ?_⟩
  · rw [hstaged]
    exact hzero
  · rw [hflight]
    exact hzero
  · rw [hgw]
    exact hzero
  · rw [hflight]
    exact Nat.zero_le _
  · rw [hgw]
    exact Nat.zero_le _
  · rw [hstaged]
    exact hnothing _
  · rw [hflight]
    exact hnothing _
  · rw [hgw]
    exact hnothing _

theorem perform_other {o : Op} (ho : Other o) : h.perform o = h := by
  cases o with
  | write c v => exact absurd rfl (ho c v)
  | _ => rfl

/-- The image with a new target. -/
theorem From.with_target {p : ℚ} (hf : From h h.staged img) (ht : Threads.target img' = encode p)
    (hv : Threads.velocity img' = Threads.velocity img) :
    From { h with targets := h.targets ++ [p] } (h.targets.length + 1, h.velocities.length) img' := by
  refine ⟨fun j hj => ⟨p, ?_, ht⟩, fun j hj => ?_⟩
  · have hlen : j = h.targets.length := by
      simp only at hj
      omega
    rw [hlen]
    exact List.getElem?_concat_length
  · rw [hv]
    exact hf.velocity j hj

/-- The image with a new speed. -/
theorem From.with_velocity {v : ℚ} (hf : From h h.staged img)
    (ht : Threads.target img' = Threads.target img) (hv : Threads.velocity img' = encode v) :
    From { h with velocities := h.velocities ++ [v] } (h.targets.length, h.velocities.length + 1)
      img' := by
  refine ⟨fun j hj => ?_, fun j hj => ⟨v, ?_, hv⟩⟩
  · rw [ht]
    exact hf.target j hj
  · have hlen : j = h.velocities.length := by
      simp only at hj
      omega
    rw [hlen]
    exact List.getElem?_concat_length

/-- A write of a value adds its call. -/
theorem perform_out {s t : State} {o : Op} {r : Resp o} (hw : Wired s)
    (hx : exec F s o = some (t, r)) (hf : From h h.staged s.drv.out_) :
    From (h.perform o) (h.perform o).staged t.drv.out_ := by
  rcases exec_stages hw hx with ⟨cw, rfl, hst, -⟩ | ⟨c, v, rfl, hst, hvalue⟩ | ⟨ho, hd⟩
  · exact hf.congr (raw32_staged hst (.inr (le_refl _))) (raw32_staged hst (.inr (by decide)))
  · cases c with
    | TargetPosition =>
        have hnew := hf.with_target (hvalue nofun) (raw32_staged hst (.inr (le_refl _)))
        unfold Pairs.staged Pairs.perform
        rw [List.length_append, List.length_singleton]
        exact hnew
    | PosVelocity =>
        have hnew := hf.with_velocity (raw32_staged hst (.inl (le_refl _))) (hvalue nofun)
        unfold Pairs.staged Pairs.perform
        rw [List.length_append, List.length_singleton]
        exact hnew
    | Override =>
        exact hf.congr (raw32_staged hst (.inl (by decide))) (raw32_staged hst (.inl (le_refl _)))
  · rw [perform_other ho, hd]
    exact hf

/-- A speed comes behind a target and a target behind its speed. -/
theorem perform_inOrder {o : Op} (howed : Owes x o) (hi : InOrder x.2.staged) :
    InOrder (x.2.perform o).staged := by
  by_cases ho : Other o
  · rw [perform_other ho]
    exact hi
  · cases o with
    | write c v =>
        cases c with
        | TargetPosition =>
            have hlen : x.2.velocities.length = x.2.targets.length + 1 := howed
            show (x.2.targets ++ [v]).length ≤ x.2.velocities.length ∧
              x.2.velocities.length ≤ (x.2.targets ++ [v]).length + 1
            rw [List.length_append, List.length_singleton]
            omega
        | PosVelocity =>
            have hlen : x.2.velocities.length = x.2.targets.length := howed
            show x.2.targets.length ≤ (x.2.velocities ++ [v]).length ∧
              (x.2.velocities ++ [v]).length ≤ x.2.targets.length + 1
            rw [List.length_append, List.length_singleton]
            omega
        | Override => exact hi
    | _ => exact absurd nofun ho

/-- The command thread. -/
theorem exec_inv {o : Op} {r : Resp o} {t u : State} (hi : Inv x) (howed : Owes x o)
    (hx : exec F x.1 o = some (u, r)) (ht : t = { u with prog := t.prog }) :
    Inv (t, x.2.perform o) := by
  have hwu := (exec_spec hi.wired hx).wired hi.wired
  obtain ⟨hwhole, hgw, hfirst⟩ := exec_whole hi.wired hi.whole hx
  obtain ⟨htargets, hvelocities⟩ := perform_prefix x.2 o
  have hflight : (x.2.perform o).flight = x.2.flight ∧ (x.2.perform o).gw = x.2.gw := by
    cases o with
    | write c v =>
        cases c with
        | TargetPosition => exact ⟨rfl, rfl⟩
        | PosVelocity => exact ⟨rfl, rfl⟩
        | Override => exact ⟨rfl, rfl⟩
    | _ => exact ⟨rfl, rfl⟩
  have hout : From (x.2.perform o) (x.2.perform o).staged u.drv.out_ :=
    perform_out hi.wired hx hi.out
  rw [ht]
  refine ⟨⟨hwu.tags, hwu.out_size, hwu.gw_length, hwu.room, hwu.hi_le, hwu.fits⟩,
    ⟨hwhole.all, hwhole.copy, hwhole.send⟩, perform_inOrder howed hi.staged, ?_, ?_, ?_, ?_,
    hout, fun regs hregs => ?_, ?_⟩
  · rw [hflight.1]
    exact hi.flight
  · rw [hflight.2]
    exact hi.gw
  · rw [hflight.1]
    exact hi.flight_le.trans htargets.length_le
  · rw [hflight.1, hflight.2]
    exact hi.gw_le
  · rw [hflight.1]
    rcases hfirst with hsame | hnone
    · exact (hi.sent regs (hsame.symm.trans hregs)).mono htargets hvelocities
    · exact nomatch hnone.symm.trans hregs
  · rw [hflight.2]
    simp only [hgw]
    exact hi.arrived.mono htargets hvelocities

/-- The poll thread. -/
theorem poll_inv {i : Input} {t : State} (hi : Inv x) (hx : poll_step F x.1 i = some t) :
    Inv (t, x.2.carry (flow x.1 i)) := by
  have hwired := (poll_spec hi.wired hx).wired hi.wired
  have hd := poll_disturbs hi.wired hx
  obtain ⟨hwhole, hflow⟩ := poll_flow hi.wired hi.whole hx
  have hout : From x.2 x.2.staged t.drv.out_ := hi.out.congr hd.target hd.velocity
  cases hf : flow x.1 i with
  | copied =>
      rw [hf] at hflow
      obtain ⟨regs, hfirst, hagree, hgw⟩ := hflow
      refine ⟨hwired, hwhole, hi.staged, hi.staged, hi.gw, le_refl _,
        hi.gw_le.trans hi.flight_le, ?_, fun regs' hregs => ?_, ?_⟩
      · exact hout.mono (List.prefix_refl _) (List.prefix_refl _)
      · have heq : regs = regs' := Option.some.inj (hfirst.symm.trans hregs)
        rw [← heq]
        exact (hi.out.agree hagree).mono (List.prefix_refl _) (List.prefix_refl _)
      · simp only [hgw]
        exact hi.arrived.mono (List.prefix_refl _) (List.prefix_refl _)
  | reached =>
      rw [hf] at hflow
      obtain ⟨regs, hfirst, hnone, hagree⟩ := hflow
      refine ⟨hwired, hwhole, hi.staged, hi.flight, hi.flight, hi.flight_le, le_refl _, ?_,
        fun regs' hregs => ?_, ?_⟩
      · exact hout.mono (List.prefix_refl _) (List.prefix_refl _)
      · simp only [hnone] at hregs
        cases hregs
      · exact ((hi.sent regs hfirst).agree hagree).mono (List.prefix_refl _) (List.prefix_refl _)
  | none =>
      rw [hf] at hflow
      obtain ⟨hnone, hagree⟩ := hflow
      refine ⟨hwired, hwhole, hi.staged, hi.flight, hi.gw, hi.flight_le, hi.gw_le, hout,
        fun regs' hregs => ?_, hi.arrived.agree hagree⟩
      simp only [hnone] at hregs
      cases hregs

/-- The start of a call and a request to abort. -/
theorem Inv.untouched {t : State} {h' : Pairs} (hi : Inv x)
    (ht : t = { x.1 with call := t.call, prog := t.prog, abort_ := t.abort_ })
    (hh : h' = { x.2 with began := h'.began }) : Inv (t, h') := by
  have same : ∀ {k img}, From x.2 k img → From { x.2 with began := h'.began } k img :=
    fun hf => hf.mono (List.prefix_refl _) (List.prefix_refl _)
  rw [ht, hh]
  exact ⟨hi.wired.of_shape (.refl _) rfl rfl hi.wired.fits,
    ⟨hi.whole.all, hi.whole.copy, hi.whole.send⟩, hi.staged, hi.flight, hi.gw, hi.flight_le,
    hi.gw_le, same hi.out, fun regs hregs => same (hi.sent regs hregs), same hi.arrived⟩

theorem reach_inv (h : Reach (pairs F).step Moves (Start F) x) : Inv x := by
  induction h with
  | init hx => exact start_inv hx
  | @step x y e hreach hC hs ih =>
      have hs : observe (step F) note x e = some y := hs
      obtain ⟨hstep, hnote⟩ := observe_eq_some.mp hs
      have hy : y = (y.1, note x.2 x.1 e) := by rw [← hnote]
      rw [hy]
      rcases step_cases hstep with ⟨c, rounds, b, rfl, -, heq⟩ | ⟨o, k, u, r, rfl, hprog, hx, heq⟩ |
        ⟨i, rfl, hx⟩ | ⟨rfl, heq⟩
      · rw [heq]
        exact ih.untouched rfl rfl
      · have hsafe := reach_safe hreach
        rw [hprog] at hsafe
        have hnote : note x.2 x.1 .cmd = x.2.perform o := by simp only [note, hprog]
        rw [hnote]
        exact exec_inv ih hsafe.guar hx (by rw [heq])
      · exact poll_inv ih hx
      · rw [heq]
        exact ih.untouched rfl rfl

/-- What has arrived only ever comes from later calls. -/
theorem note_mono (hi : Inv x) (e : Event) : x.2.gw.1 ≤ (note x.2 x.1 e).gw.1 := by
  cases e with
  | call c rounds => exact le_refl _
  | request_abort => exact le_refl _
  | cmd =>
      cases hprog : x.1.prog with
      | pure b =>
          simp only [note, hprog]
          exact le_refl _
      | op o k =>
          simp only [note, hprog]
          cases o with
          | write c v =>
              cases c with
              | TargetPosition => exact le_refl _
              | PosVelocity => exact le_refl _
              | Override => exact le_refl _
          | _ => exact le_refl _
  | poll i =>
      show x.2.gw.1 ≤ (x.2.carry (flow x.1 i)).gw.1
      cases flow x.1 i with
      | copied => exact le_refl _
      | reached => exact hi.gw_le
      | none => exact le_refl _

/-- **A new target never arrives with an older speed.** In the gateway's registers the target
comes from the `k`-th accepted call and the speed from the `k`-th or the next one, `k` never
goes back, and the `k`-th entries of the history are the position and the speed of the `k`-th
accepted call: each call that has returned has staged both or none. -/
theorem pairs_in_order (h : Reach (pairs F).step Moves (Start F) x) :
    InOrder x.2.gw ∧ From x.2 x.2.gw (image x.1.gw) ∧
      (∀ e y, (pairs F).step x e = some y → x.2.gw.1 ≤ y.2.gw.1) ∧
      ∀ b, x.1.prog = .pure b → Returned x.1.call b x := by
  have hi := reach_inv h
  refine ⟨hi.gw, hi.arrived, fun e y hs => ?_, fun b hb => ?_⟩
  · have hs : observe (step F) note x e = some y := hs
    rw [(observe_eq_some.mp hs).2]
    exact note_mono hi e
  · have hsafe := reach_safe h
    rw [hb] at hsafe
    exact hsafe.result

/-- Two moves; the cycle copies the outputs between the two writes of the second. -/
def crossing : List Event :=
  moves 100 10 ++ [.call (.move_to 200 20) fun _ => 0] ++ commands 3 ++ to_send ++
    [.poll (.write {} false)] ++ commands 1

/-- The first target goes out with the second speed. -/
theorem crossing_in_order :
    ∃ x, Reach (pairs no_floats).step Moves (Start no_floats) x ∧ x.2.targets = [100, 200] ∧
      x.2.gw = (1, 2) ∧ decode (target (image x.1.gw)) = 100 ∧
      decode (velocity (image x.1.gw)) = 20 ∧ InOrder x.2.gw ∧ From x.2 x.2.gw (image x.1.gw) := by
  have heval : ((WavemakerController.IndraDriveActuator.construct (bench_params 500)).bind fun a =>
      (run (step no_floats) (built a) enables).bind fun s =>
        (run (guarded (pairs no_floats).step Moves) (s, ⟨[], [], none, (0, 0), (0, 0)⟩)
          crossing).map fun x =>
            ((OffCommand.returned s.prog, s.drv.cfg_.write_only_dirty), x.2.targets, x.2.gw,
              decode (target (image x.1.gw)), decode (velocity (image x.1.gw)))) =
      some ((some true, false), [100, 200], (1, 2), 100, 20) := by
    decide +kernel
  obtain ⟨a, ha, h⟩ := Option.bind_eq_some_iff.mp heval
  obtain ⟨s, hs, h⟩ := Option.bind_eq_some_iff.mp h
  obtain ⟨x, hx, h⟩ := Option.map_eq_some_iff.mp h
  simp only [Prod.mk.injEq] at h
  obtain ⟨⟨hret, hall⟩, htargets, hgw, htarget, hvelocity⟩ := h
  have hstart : Start no_floats (s, ⟨[], [], none, (0, 0), (0, 0)⟩) :=
    ⟨.run (.init (built_bench ha).init) hs, ⟨true, OffCommand.eq_pure_of_returned hret⟩, hall, rfl⟩
  have hreach : Reach (pairs no_floats).step Moves (Start no_floats) x :=
    .guarded_run _ (.init hstart) hx
  obtain ⟨horder, hfrom, -, -⟩ := pairs_in_order hreach
  exact ⟨x, hreach, htargets, hgw, htarget, hvelocity, horder, hfrom⟩

end Flow

end Mgate.Threads.CommandPairs
