/-
No goal of the bridge is forgotten.

A goal is given up by the bridge while its request, its response or a request to cancel it may
still be on the way. `Attended` says, for every goal the controller plays: it is the wave the bridge
is watching, or it is doomed. Each action of the bridge keeps that, and so does whatever happens at
the action server (`no_goal_forgotten`). With the heartbeats of the pages it follows that nothing
plays unattended (`goal_acknowledged`).
-/
import Wavemakers.GoalLink

set_option autoImplicit false

namespace WavemakerLink

open Interleave WavemakerWeb WavemakerBridge

variable {P : WavemakerNode.Plant}

/-! ## What is due -/

theorem perm_eraseIdx {α : Type} {l : List α} {i : ℕ} {x : α} (h : l[i]? = some x) :
    l.Perm (x :: l.eraseIdx i) := by
  obtain ⟨hi, hx⟩ := List.getElem?_eq_some_iff.mp h
  rw [← hx]
  exact (List.getElem_cons_eraseIdx_perm hi).symm

theorem mem_eraseIdx_of_ne {α : Type} {l : List α} {i : ℕ} {x y : α} (h : l[i]? = some x)
    (hy : y ∈ l) (hne : y ≠ x) : y ∈ l.eraseIdx i := by
  rcases List.mem_cons.mp ((perm_eraseIdx h).mem_iff.mp hy) with heq | hmem
  · exact absurd heq hne
  · exact hmem

section Due

variable {wire : List Message} {answers : List (ℕ × Bool)} {i n : ℕ}

theorem due_send (wire : List Message) (answers : List (ℕ × Bool)) {m : Message}
    (hm : request_of m = none) : due (wire ++ [m]) answers = due wire answers := by
  simp [due, List.filterMap_append, hm]

theorem due_goal (wire : List Message) (answers : List (ℕ × Bool)) (n : ℕ) (height period : ℚ) :
    (due (wire ++ [.goal n height period]) answers).Perm (n :: due wire answers) := by
  simp [due, List.filterMap_append, request_of, List.perm_middle]

/-- A message that asks for nothing arrives. -/
theorem due_arrives {m : Message} (h : wire[i]? = some m) (hm : request_of m = none) :
    (due (wire.eraseIdx i) answers).Perm (due wire answers) := by
  have hperm := ((perm_eraseIdx h).filterMap request_of).symm
  rw [List.filterMap_cons, hm] at hperm
  exact hperm.append_right _

/-- A request arrives, and is answered. -/
theorem due_answered {height period : ℚ} (h : wire[i]? = some (.goal n height period)) (b : Bool) :
    (due (wire.eraseIdx i) (answers ++ [(n, b)])).Perm (due wire answers) := by
  have hperm := (perm_eraseIdx h).filterMap request_of
  have hcons : (Message.goal n height period :: wire.eraseIdx i).filterMap request_of =
      n :: (wire.eraseIdx i).filterMap request_of := rfl
  rw [hcons] at hperm
  have hmiddle := (hperm.append_right (answers.map Prod.fst)).symm
  refine List.Perm.trans ?_ hmiddle
  simp only [due, List.map_append, List.map_cons, List.map_nil, ← List.append_assoc]
  exact List.perm_append_singleton _ _

/-- A response arrives. -/
theorem due_response {b : Bool} (h : answers[i]? = some (n, b)) :
    (due wire answers).Perm (n :: due wire (answers.eraseIdx i)) := by
  have hperm := (perm_eraseIdx h).map Prod.fst
  exact (hperm.append_left _).trans List.perm_middle

end Due

/-! ## What the bridge does -/

section Bridge

variable {c c' : View} {wire : List Message} {answers : List (ℕ × Bool)} {asked : List ℕ}
  {node : WavemakerNode.State P}

/-- Everything that is due has been sent. -/
theorem Attended.mem_due (h : Attended c wire answers asked node) {n : ℕ} :
    n ∈ due wire answers ↔ n ∈ c.responses := by
  rw [← Finset.mem_val, ← h.owed, Multiset.mem_coe]

/-- The bridge has turned to another goal, or it has not and its flag is as before. -/
structure Turns (c c' : View) : Prop where
  responses : c'.responses = c.responses
  requested : c'.requested = true → c.requested = true ∧ c'.generation = c.generation
  next : c'.generation = c.generation ∧
      (c.cancel_on_accept = true → c'.cancel_on_accept = true) ∨ c.generation < c'.generation

theorem Turns.le (h : Turns c c') : c.generation ≤ c'.generation := by
  rcases h.next with ⟨heq, -⟩ | hlt
  · exact heq.ge
  · exact hlt.le

theorem Turns.doomed (h : Turns c c') {wire' : List Message} (hwire : wire ⊆ wire') {n : ℕ}
    (hn : n ≤ c.generation) (hd : Doomed c wire asked n) : Doomed c' wire' asked n := by
  rcases hd with hd | hd | hd | ⟨hresp, hor⟩
  · exact .inl (hwire hd)
  · exact .inr (.inl (hwire hd))
  · exact .inr (.inr (.inl hd))
  · refine .inr (.inr (.inr ⟨by rwa [h.responses], ?_⟩))
    rcases h.next with ⟨heq, hflag⟩ | hlt
    · rw [heq]
      exact hor.imp_right hflag
    · exact .inl (by omega)

/-- The bridge sends nothing. -/
theorem Attended.turns (h : Attended c wire answers asked node) (ht : Turns c c')
    (hwave : c.waving → c'.generation = c.generation ∧ c'.waving) :
    Attended c' wire answers asked node := by
  refine ⟨?_, ?_, h.refused, fun n hn => (h.known n hn).trans ht.le, ?_⟩
  · rw [ht.responses]
    exact h.owed
  · intro hr
    obtain ⟨hr, hgen⟩ := ht.requested hr
    rw [ht.responses, hgen]
    exact h.requested hr
  · intro n hl
    rcases h.watched n hl with ⟨hn, hw⟩ | hd
    · obtain ⟨hgen, hw⟩ := hwave hw
      exact .inl ⟨hn.trans hgen.symm, hw⟩
    · exact .inr (ht.doomed (List.Subset.refl _) (h.known n hl.known) hd)

/-- The bridge asks for all goals to be canceled. -/
theorem Attended.cancels (h : Attended c wire answers asked node) (ht : Turns c c') :
    Attended c' (wire ++ [.cancel_all]) answers asked node := by
  refine ⟨?_, ?_, h.refused, fun n hn => (h.known n hn).trans ht.le, ?_⟩
  · rw [due_send wire answers rfl, ht.responses]
    exact h.owed
  · intro hr
    obtain ⟨hr, hgen⟩ := ht.requested hr
    rw [ht.responses, hgen]
    exact h.requested hr
  · intro n _
    exact .inr (.inr (.inl (by simp)))

/-- A start: the goals before it were doomed already. -/
theorem Attended.starts (h : Attended c wire answers asked node) (ht : c.Tracks)
    (hidle : c.state = .Idle) (height period : ℚ) :
    Attended c.start (wire ++ [.goal (c.generation + 1) height period]) answers asked node := by
  have hno : ¬ c.waving := by simp [View.waving, hidle]
  refine ⟨?_, fun _ => Finset.mem_insert_self _ _, h.refused,
    fun n hn => (h.known n hn).trans (Nat.le_succ _), ?_⟩
  · have hperm := Multiset.coe_eq_coe.mpr (due_goal wire answers (c.generation + 1) height period)
    rw [hperm, ← Multiset.cons_coe, h.owed]
    exact (Finset.insert_val_of_notMem ht.fresh.1).symm
  · intro n hl
    have hn := h.known n hl.known
    rcases h.watched n hl with ⟨-, hw⟩ | hd | hd | hd | ⟨hresp, -⟩
    · exact absurd hw hno
    · exact .inr (.inl (List.mem_append_left _ hd))
    · exact .inr (.inr (.inl (List.mem_append_left _ hd)))
    · exact .inr (.inr (.inr (.inl hd)))
    · refine .inr (.inr (.inr (.inr ⟨Finset.mem_insert_of_mem hresp, .inl ?_⟩)))
      have hgen : c.start.generation = c.generation + 1 := rfl
      omega

/-- What a response does to the part of the view that matters here. -/
theorem respond_turns (c : View) (n : ℕ) (accepted : Bool) :
    (c.respond n accepted).responses = c.responses.erase n ∧
      ((c.respond n accepted).requested = true → n ≠ c.generation ∧ c.requested = true) ∧
      (n ≠ c.generation → (c.respond n accepted).cancel_on_accept = c.cancel_on_accept ∧
        (c.respond n accepted).state = c.state) := by
  cases accepted with
  | true =>
      unfold View.respond View.accept
      rw [if_pos rfl]
      split
      · rename_i hn
        exact ⟨rfl, fun hr => ⟨hn, hr⟩, fun _ => ⟨rfl, rfl⟩⟩
      · rename_i hn
        split
        · exact ⟨rfl, by simp, fun h => absurd h hn⟩
        · exact ⟨rfl, by simp, fun h => absurd h hn⟩
  | false =>
      unfold View.respond View.reject
      rw [if_neg (by simp)]
      split
      · rename_i hn
        exact ⟨rfl, fun hr => ⟨hn, hr⟩, fun _ => ⟨rfl, rfl⟩⟩
      · rename_i hn
        exact ⟨rfl, by simp [View.finish, View.idle], fun h => absurd h hn⟩

/-- The goal of an answered request becomes the wave, or it is canceled by its name. -/
theorem respond_accepted {n : ℕ} (hn : n = c.generation) (hflag : c.cancel_on_accept = false) :
    (c.respond n true).waving := by
  unfold View.respond View.accept
  rw [if_pos rfl, if_neg (by simpa using hn), if_neg (by simp [hflag])]
  exact .inr rfl

/-- **A response arrives.** -/
theorem Attended.responds (h : Attended c wire answers asked node) {i n : ℕ} {accepted : Bool}
    (hi : answers[i]? = some (n, accepted)) :
    Attended (c.respond n accepted) (wire ++
      if accepted && (n != c.generation || c.cancel_on_accept) then [.cancel n] else [])
      (answers.eraseIdx i) asked node := by
  obtain ⟨hresp, hreq, hother⟩ := respond_turns c n accepted
  have hgen := (respond_keeps c n accepted).2
  have hdue : due (wire ++ if accepted && (n != c.generation || c.cancel_on_accept) then
      [.cancel n] else []) (answers.eraseIdx i) = due wire (answers.eraseIdx i) := by
    split
    · exact due_send wire _ rfl
    · rw [List.append_nil]
  refine ⟨?_, ?_, fun m hm => h.refused m (List.mem_of_mem_eraseIdx hm), ?_, ?_⟩
  · have hperm := Multiset.coe_eq_coe.mpr (@due_response wire answers i n accepted hi)
    rw [← Multiset.cons_coe, h.owed] at hperm
    rw [hdue, hresp, Finset.erase_val, hperm, Multiset.erase_cons_head]
  · intro hr
    obtain ⟨hne, hr⟩ := hreq hr
    rw [hresp, hgen]
    exact Finset.mem_erase.mpr ⟨Ne.symm hne, h.requested hr⟩
  · rw [hgen]
    exact h.known
  · intro m hl
    rw [hgen]
    by_cases hm : m = n
    · -- it was accepted: it is the wave now, or canceled
      subst hm
      have hacc : accepted = true := by
        by_contra hno
        rw [Bool.not_eq_true] at hno
        rw [hno] at hi
        simpa [hl.known] using h.refused m (List.mem_of_getElem? hi)
      subst hacc
      by_cases hstale : (m != c.generation || c.cancel_on_accept) = true
      · refine .inr (.inl ?_)
        simp [hstale]
      · simp only [Bool.or_eq_true, bne_iff_ne, not_or, not_not, Bool.not_eq_true] at hstale
        exact .inl ⟨hstale.1, respond_accepted hstale.1 hstale.2⟩
    · rcases h.watched m hl with ⟨hcur, hw⟩ | hd | hd | hd | ⟨hdue, hor⟩
      · have hne : n ≠ c.generation := fun hn => hm (hcur.trans hn.symm)
        refine .inl ⟨hcur, ?_⟩
        simpa only [View.waving, (hother hne).2] using hw
      · exact .inr (.inl (List.mem_append_left _ hd))
      · exact .inr (.inr (.inl (List.mem_append_left _ hd)))
      · exact .inr (.inr (.inr (.inl hd)))
      · refine .inr (.inr (.inr (.inr ⟨?_, ?_⟩)))
        · rw [hresp]
          exact Finset.mem_erase.mpr ⟨hm, hdue⟩
        · rw [hgen]
          by_cases hn : n = c.generation
          · exact .inl fun hcur => hm (hcur.trans hn.symm)
          · rwa [(hother hn).1]

theorem result_turns (c : View) (n : ℕ) :
    Turns c (c.result n) ∧ (n ≠ c.generation → (c.result n).state = c.state) := by
  unfold View.result
  dsimp only
  split
  · rename_i hn
    exact ⟨⟨rfl, fun hr => ⟨hr, rfl⟩, .inl ⟨rfl, id⟩⟩, fun h => absurd hn h⟩
  · exact ⟨⟨rfl, fun hr => ⟨hr, rfl⟩, .inl ⟨rfl, id⟩⟩, fun _ => rfl⟩

/-- The result of a goal that has ended arrives. -/
theorem Attended.results (h : Attended c wire answers asked node) {n : ℕ}
    (hn : ¬ WavemakerNode.Live node (goal_id n)) :
    Attended (c.result n) wire answers asked node := by
  obtain ⟨hturns, hother⟩ := result_turns c n
  have hgen := (result_keeps c n).2
  refine ⟨by rw [hturns.responses]; exact h.owed, ?_, h.refused,
    fun m hm => (h.known m hm).trans hturns.le, ?_⟩
  · intro hr
    rw [hturns.responses, hgen]
    exact h.requested (hturns.requested hr).1
  · intro m hl
    rcases h.watched m hl with ⟨hcur, hw⟩ | hd
    · have hne : n ≠ c.generation := by
        rintro rfl
        rw [hcur] at hl
        exact hn hl
      refine .inl ⟨hcur.trans hgen.symm, ?_⟩
      simpa only [View.waving, hother hne] using hw
    · exact .inr (hturns.doomed (List.Subset.refl _) (h.known m hl.known) hd)

theorem stop_turns (c : View) (d : Option ℕ) : Turns c (c.stop d true) := by
  unfold View.stop
  split
  · refine ⟨rfl, fun hr => ⟨hr, rfl⟩, .inl ⟨rfl, fun hc => ?_⟩⟩
    simp [View.begin_stop, hc]
  · exact ⟨rfl, fun hr => ⟨hr, rfl⟩, .inl ⟨rfl, id⟩⟩

theorem stop_nothing {d : Option ℕ} (ho : c.ours = false) :
    c.stop d false = { c with replied := c.replied ++ d.toList } := by
  rw [View.stop, if_neg (by simp [ho]), if_neg (by simp)]

/-- A wave whose stop is pending is not there any more. -/
theorem not_waving_timer (hs : c.Steady) (ht : c.timer = true) : ¬ c.waving := by
  simp [View.waving, hs.timer.mp ht]

theorem not_waving_inactive (hs : c.Steady) (ha : c.active = false) : ¬ c.waving := by
  simp [View.waving, hs.inactive ha]

end Bridge

/-- A start that sends a goal has the values for it. -/
theorem start_wave {s : Bridge} {e : Event} (h : action s e = .start) :
    ∃ height period, s.wave = some (height, period) := by
  unfold action at h
  split at h
  all_goals try cases h
  all_goals split at h
  all_goals try cases h
  rename_i hstarts
  simp only [Bridge.starts, Bool.and_eq_true] at hstarts
  obtain ⟨w, hw⟩ := Option.isSome_iff_exists.mp hstarts.2.1.1.2
  exact ⟨w.1, w.2, hw⟩

section Steps

variable {wire : List Message} {answers : List (ℕ × Bool)} {asked : List ℕ}
  {node : WavemakerNode.State P}

/-- **What the bridge does by itself**, as long as its stops find the action server and its action
client is not replaced while a response is due. -/
theorem bridge_attended {s t : Bridge} {e : Event} (hs : Sound s) (hw : (view s).Waves)
    (hst : step s e = some t)
    (hserver : s.ours = true → action s e ≠ .leave false ∧ ∀ d, action s e ≠ .stop d false)
    (hclient : action s e = .configure ∨ action s e = .cleanup → s.responses = ∅)
    (hback : (∀ n accepted, action s e ≠ .respond n accepted) ∧ ∀ n, action s e ≠ .result n)
    (h : Attended (view s) wire answers asked node) :
    Attended (view t) (wire ++ emits s e) answers asked node := by
  have hx := view_step hs.subscribed hst
  have hours : (view s).ours = s.ours := rfl
  have hno : s.ours = false → ¬ (view s).waving := by
    intro ho hwave
    rw [← hours, hw.owned hwave] at ho
    cases ho
  have empty : s.responses = ∅ → (∅ : Finset ℕ) = (view s).responses := Eq.symm
  unfold emits
  generalize ha : action s e = a at hx hserver hclient hback
  generalize view t = c' at hx
  cases hx with
  | skip =>
      rw [List.append_nil]
      exact h
  | start _ hidle =>
      obtain ⟨height, period, hwave⟩ := start_wave ha
      rw [hwave]
      exact h.starts hs.tracks hidle height period
  | @stop d available _ =>
      cases available with
      | true => exact h.cancels (stop_turns _ d)
      | false =>
          have ho : s.ours = false := by
            by_contra hyes
            exact (hserver (by simpa using hyes)).2 d rfl
          rw [List.append_nil, stop_nothing (hours.trans ho)]
          exact h.turns ⟨rfl, fun hr => ⟨hr, rfl⟩, .inl ⟨rfl, id⟩⟩ fun hwave => absurd hwave (hno ho)
  | @leave available =>
      cases available with
      | true =>
          obtain ⟨hresp, hreq, hnext⟩ := stop_turns (view s) none
          exact h.cancels ⟨hresp, hreq, hnext⟩
      | false =>
          have ho : s.ours = false := by
            by_contra hyes
            exact (hserver (by simpa using hyes)).1 rfl
          rw [List.append_nil, View.leave, stop_nothing (hours.trans ho)]
          exact h.turns ⟨rfl, fun hr => ⟨hr, rfl⟩, .inl ⟨rfl, id⟩⟩ fun hwave => absurd hwave (hno ho)
  | respond _ => exact absurd rfl (hback.1 _ _)
  | result _ => exact absurd rfl (hback.2 _)
  | @cancel_reply i call _ =>
      rw [List.append_nil]
      unfold View.cancel_reply
      dsimp only
      split
      · exact h.turns ⟨rfl, fun hr => ⟨hr, rfl⟩, .inl ⟨rfl, id⟩⟩ fun hwave => ⟨rfl, hwave⟩
      · exact h.turns ⟨rfl, fun hr => ⟨hr, rfl⟩, .inl ⟨rfl, id⟩⟩ fun hwave => ⟨rfl, hwave⟩
  | timeout htimer =>
      rw [List.append_nil]
      refine h.turns ⟨rfl, ?_, .inr (Nat.lt_succ_self _)⟩ fun hwave =>
        absurd hwave (not_waving_timer hs.steady htimer)
      simp [View.abandon, View.finish, View.idle, View.forget]
  | configure hactive =>
      rw [List.append_nil]
      exact h.turns ⟨empty (hclient (.inl rfl)), fun hr => ⟨hr, rfl⟩, .inl ⟨rfl, id⟩⟩ fun hwave =>
        absurd hwave (not_waving_inactive hs.steady hactive)
  | activate hactive =>
      rw [List.append_nil]
      exact h.turns ⟨rfl, fun hr => ⟨hr, rfl⟩, .inl ⟨rfl, id⟩⟩ fun hwave =>
        absurd hwave (not_waving_inactive hs.steady hactive)
  | cleanup hactive =>
      rw [List.append_nil]
      exact h.turns ⟨empty (hclient (.inr rfl)), fun hr => ⟨hr, rfl⟩, .inl ⟨rfl, id⟩⟩ fun hwave =>
        ⟨rfl, hwave⟩

/-! ## What the server does -/

/-- The controller takes no goal of the bridge. -/
theorem Attended.idles {c : View} {node' : WavemakerNode.State P}
    (h : Attended c wire answers asked node)
    (hlive : ∀ n, WavemakerNode.Live node' (goal_id n) → WavemakerNode.Live node (goal_id n))
    (hknown : ∀ n, (node'.goals (goal_id n)).isSome = true →
      (node.goals (goal_id n)).isSome = true) :
    Attended c wire answers asked node' := by
  refine ⟨h.owed, h.requested, ?_, fun n hn => h.known n (hknown n hn), fun n hl =>
    h.watched n (hlive n hl)⟩
  intro n hn
  rw [Bool.eq_false_iff]
  intro hyes
  have hwas := hknown n hyes
  rw [h.refused n hn] at hwas
  cases hwas

/-- A request for a goal arrives and is answered. -/
theorem Attended.taken {c : View} {node' : WavemakerNode.State P} {i n : ℕ} {height period : ℚ}
    (h : Attended c wire answers asked node) (ht : c.Tracks) (hw : c.Waves)
    (hi : wire[i]? = some (.goal n height period))
    (hlive : ∀ m, WavemakerNode.Live node' (goal_id m) →
      WavemakerNode.Live node (goal_id m) ∨ m = n)
    (hknown : ∀ m, (node'.goals (goal_id m)).isSome = true →
      (node.goals (goal_id m)).isSome = true ∨ m = n) :
    Attended c (wire.eraseIdx i) (answers ++ [(n, (node'.goals (goal_id n)).isSome)]) asked
      node' := by
  have hn : n ∈ due wire answers := by
    refine List.mem_append_left _ (List.mem_filterMap.mpr ⟨_, List.mem_of_getElem? hi, rfl⟩)
  have hresp : n ∈ c.responses := h.mem_due.mp hn
  refine ⟨?_, h.requested, ?_, ?_, ?_⟩
  · rw [← h.owed]
    exact Multiset.coe_eq_coe.mpr (due_answered hi _)
  · intro m hm
    rcases List.mem_append.mp hm with hold | hnew
    · -- an earlier answer is to another request
      have hne : m ≠ n := by
        rintro rfl
        have hnodup : (due wire answers).Nodup := by
          rw [← Multiset.coe_nodup, h.owed]
          exact c.responses.nodup
        refine List.disjoint_of_nodup_append hnodup
          (List.mem_filterMap.mpr ⟨_, List.mem_of_getElem? hi, rfl⟩) ?_
        exact List.mem_map.mpr ⟨(m, false), hold, rfl⟩
      rw [Bool.eq_false_iff]
      intro hyes
      rcases hknown m hyes with hyes | heq
      · rw [h.refused m hold] at hyes
        cases hyes
      · exact hne heq
    · simp only [List.mem_singleton, Prod.mk.injEq] at hnew
      rw [hnew.1]
      exact hnew.2.symm
  · intro m hm
    rcases hknown m hm with hm | rfl
    · exact h.known m hm
    · exact ht.responses _ hresp
  · intro m hl
    have kept : ∀ x ∈ wire, request_of x = none → x ∈ wire.eraseIdx i := by
      intro x hx hnone
      refine mem_eraseIdx_of_ne hi hx ?_
      rintro rfl
      cases hnone
    rcases hlive m hl with hl | rfl
    · rcases h.watched m hl with hcur | hd | hd | hd | hd
      · exact .inl hcur
      · exact .inr (.inl (kept _ hd rfl))
      · exact .inr (.inr (.inl (kept _ hd rfl)))
      · exact .inr (.inr (.inr (.inl hd)))
      · exact .inr (.inr (.inr (.inr hd)))
    · -- the new goal is the wave that is starting, or its response dooms it
      by_cases hcur : m = c.generation
      · rcases hw.flagged (ht.pending (by rwa [← hcur])) with hflag | hstart
        · exact .inr (.inr (.inr (.inr ⟨hresp, .inr hflag⟩)))
        · exact .inl ⟨hcur, .inl hstart⟩
      · exact .inr (.inr (.inr (.inr ⟨hresp, .inl hcur⟩)))

/-- A request to cancel one goal arrives. -/
theorem Attended.canceled {c : View} {i n : ℕ} (h : Attended c wire answers asked node)
    (hu : node.UnderWay) (hserves : serves node = true) (hi : wire[i]? = some (.cancel n)) :
    Attended c (wire.eraseIdx i) answers asked (WavemakerNode.cancel node (goal_id n)) := by
  simp only [serves, Bool.and_eq_true, decide_eq_true_eq] at hserves
  have hidles := h.idles (fun m hl => WavemakerNode.cancel_live hu hl)
    (fun m hk => WavemakerNode.cancel_known (k := goal_id n) hu hk)
  refine ⟨?_, h.requested, hidles.refused, hidles.known, ?_⟩
  · rw [← h.owed]
    exact Multiset.coe_eq_coe.mpr (due_arrives hi rfl)
  · intro m hl
    have hne : m ≠ n := by
      rintro rfl
      exact WavemakerNode.cancel_ends hserves.1 hserves.2 _ hl
    rcases hidles.watched m hl with hcur | hd | hd | hd
    · exact .inl hcur
    · exact .inr (.inl (mem_eraseIdx_of_ne hi hd (by simp [hne])))
    · exact .inr (.inr (.inl (mem_eraseIdx_of_ne hi hd (by simp))))
    · exact .inr (.inr (.inr hd))

/-- A request to cancel all goals arrives: every goal the bridge has there will be canceled. -/
theorem Attended.all_asked {c : View} {i : ℕ} {handles : List ℕ}
    (h : Attended c wire answers asked node) (hi : wire[i]? = some .cancel_all)
    (hlisted : ∀ g, (node.goals g).isSome = true → g ∈ handles) :
    Attended c (wire.eraseIdx i) answers (asked ++ handles.filter node.is_active) node := by
  refine ⟨?_, h.requested, h.refused, h.known, ?_⟩
  · rw [← h.owed]
    exact Multiset.coe_eq_coe.mpr (due_arrives hi rfl)
  · intro n hl
    refine .inr (.inr (.inr (.inl (List.mem_append_right _ (List.mem_filter.mpr ⟨?_, ?_⟩)))))
    · exact hlisted _ hl.known
    · rcases hl with hst | hst
      · simp [WavemakerNode.State.is_active, hst, WavemakerNode.GoalStatus.is_active]
      · simp [WavemakerNode.State.is_active, hst, WavemakerNode.GoalStatus.is_active]

/-- The next of them is canceled. -/
theorem Attended.one_canceled {c : View} {g : ℕ} {rest : List ℕ}
    (h : Attended c wire answers (g :: rest) node) (hu : node.UnderWay)
    (hserves : serves node = true) :
    Attended c wire answers rest (WavemakerNode.cancel node g) := by
  simp only [serves, Bool.and_eq_true, decide_eq_true_eq] at hserves
  have hidles := h.idles (fun m hl => WavemakerNode.cancel_live hu hl)
    (fun m hk => WavemakerNode.cancel_known (k := g) hu hk)
  refine ⟨h.owed, h.requested, hidles.refused, hidles.known, ?_⟩
  intro m hl
  have hne : goal_id m ≠ g := by
    rintro rfl
    exact WavemakerNode.cancel_ends hserves.1 hserves.2 _ hl
  rcases hidles.watched m hl with hcur | hd | hd | hd | hd
  · exact .inl hcur
  · exact .inr (.inl hd)
  · exact .inr (.inr (.inl hd))
  · exact .inr (.inr (.inr (.inl ((List.mem_cons.mp hd).resolve_left hne))))
  · exact .inr (.inr (.inr (.inr hd)))

end Steps

/-! ## Every run -/

/-- A stop of the bridge's goal that no action server hears. -/
def unheard (s : Bridge) (e : Event) : Bool :=
  s.ours && match action s e with
    | .stop _ false | .leave false => true
    | _ => false

/-- No message of the action is lost, every stop of a goal finds the action server, and the action
client is not replaced while a response is due. -/
structure Connected (s : Loop P) (e : LoopEvent P) : Prop where
  lost : ∀ i, e ≠ .lost i ∧ e ≠ .response_lost i
  server : ∀ b, e = .rig (.bridge b) → unheard s.rig.bridge b = false
  client : ∀ b, e = .rig (.bridge b) → b = .configure ∨ b = .cleanup → s.rig.bridge.responses = ∅

structure Tied (s : Loop P) : Prop where
  node : WavemakerNode.Sound s.node
  bridge : Sound s.rig.bridge
  waves : (view s.rig.bridge).Waves
  listed : ∀ g, (s.node.goals g).isSome = true → g ∈ s.handles
  attended : Attended (view s.rig.bridge) s.wire s.answers s.asked s.node

theorem rig_bridge {r r' : Rig} {e : RigEvent} (h : rig_step r e = some r') :
    r'.bridge = r.bridge ∨ ∃ b, WavemakerBridge.step r.bridge b = some r'.bridge ∧
      (e = .bridge b ∨ b = .heartbeat ∨ ∃ ns, b = .clock ns) := by
  cases e with
  | clock ns =>
      cases h
      exact .inr ⟨.clock ns, rfl, .inr (.inr ⟨ns, rfl⟩)⟩
  | site e =>
      simp only [rig_step] at h
      split at h
      · cases h
      · obtain ⟨site, -, rfl⟩ := Option.map_eq_some_iff.mp h
        exact .inl rfl
  | bridge b =>
      simp only [rig_step] at h
      split at h
      · cases h
      · cases h
      · obtain ⟨t, ht, rfl⟩ := Option.map_eq_some_iff.mp h
        exact .inr ⟨b, ht, .inl rfl⟩
  | heartbeat i =>
      obtain ⟨server, -, rfl⟩ := Option.map_eq_some_iff.mp h
      cases hbeat : WavemakerBridge.step r.bridge .heartbeat with
      | none => exact .inl rfl
      | some t => exact .inr ⟨.heartbeat, by simp [hbeat], .inr (.inl rfl)⟩
  | heartbeat_lost i =>
      obtain ⟨server, -, rfl⟩ := Option.map_eq_some_iff.mp h
      exact .inl rfl

theorem put_wire {s : Loop P} {rig : Rig} {b : Event}
    (h : WavemakerBridge.step s.rig.bridge b = some rig.bridge) :
    (s.put rig).wire = s.wire ++ emits s.rig.bridge b := by
  rw [Loop.put, posts_step h, List.drop_left]

/-- The actions that only an answer brings. -/
theorem action_back {s : Bridge} {e : Event}
    (hno : (∀ n accepted, e ≠ .goal_response n accepted) ∧ ∀ n code text, e ≠ .goal_result n code text) :
    (∀ n accepted, action s e ≠ .respond n accepted) ∧ ∀ n, action s e ≠ .result n := by
  unfold action
  split
  all_goals try split
  all_goals try simp
  · exact absurd rfl (hno.1 _ _)
  · exact absurd rfl (hno.2 _ _ _)

theorem action_client {s : Bridge} {e : Event}
    (h : action s e = .configure ∨ action s e = .cleanup) : e = .configure ∨ e = .cleanup := by
  unfold action at h
  split at h
  all_goals try split at h
  all_goals simp_all

/-- A callback of the bridge that is not an answer. -/
theorem tied_callback {s : Loop P} {rig : Rig} {b : Event} (h : Tied s)
    (hst : WavemakerBridge.step s.rig.bridge b = some rig.bridge) (hserver : unheard s.rig.bridge b = false)
    (hclient : b = .configure ∨ b = .cleanup → s.rig.bridge.responses = ∅)
    (hno : (∀ n accepted, b ≠ .goal_response n accepted) ∧
      ∀ n code text, b ≠ .goal_result n code text) : Tied (s.put rig) := by
  have hx := view_step h.bridge.subscribed hst
  refine ⟨h.node, step_sound h.bridge hst,
    (h.waves.does h.bridge.steady h.bridge.tracks hx).1, h.listed, ?_⟩
  rw [put_wire hst]
  refine bridge_attended h.bridge h.waves hst (fun ho => ⟨fun ha => ?_, fun d ha => ?_⟩)
    (fun ha => hclient (action_client ha)) (action_back hno) h.attended
  · simp [unheard, ho, ha] at hserver
  · simp [unheard, ho, ha] at hserver

theorem tied_rig {s : Loop P} {rig : Rig} {e : RigEvent} (h : Tied s)
    (hok : Connected s (.rig e)) (hback : returns e = false) (hst : rig_step s.rig e = some rig) :
    Tied (s.put rig) := by
  rcases rig_bridge hst with hsame | ⟨b, hb, he⟩
  · have hwire : (s.put rig).wire = s.wire := by
      rw [Loop.put, hsame, List.drop_length, List.append_nil]
    have hbridge : (s.put rig).rig.bridge = s.rig.bridge := hsame
    refine ⟨h.node, ?_, ?_, h.listed, ?_⟩
    · rw [hbridge]
      exact h.bridge
    · rw [hbridge]
      exact h.waves
    · rw [hbridge, hwire]
      exact h.attended
  · rcases he with rfl | rfl | ⟨ns, rfl⟩
    · refine tied_callback h hb (hok.server b rfl) (hok.client b rfl) ⟨?_, ?_⟩
      · rintro n accepted rfl
        cases hback
      · rintro n code text rfl
        cases hback
    · exact tied_callback h hb (by simp [unheard, action]) (by simp) (by simp)
    · exact tied_callback h hb (by simp [unheard, action]) (by simp) (by simp)

theorem emits_response (s : Bridge) (n : ℕ) (accepted : Bool) :
    emits s (.goal_response n accepted) =
      if accepted && (n != s.goal_generation_ || s.cancel_on_accept_) then [.cancel n] else [] := by
  cases accepted with
  | true => rfl
  | false => rfl

/-- The step of the bridge behind an answer. -/
theorem answer_step {r r' : Rig} {b : Event} (h : rig_step r (.bridge b) = some r') :
    WavemakerBridge.step r.bridge b = some r'.bridge := by
  simp only [rig_step] at h
  split at h
  · cases h
  · cases h
  · obtain ⟨t, ht, rfl⟩ := Option.map_eq_some_iff.mp h
    exact ht

theorem tied_response {s : Loop P} {rig : Rig} {i n : ℕ} {accepted : Bool} (h : Tied s)
    (hi : s.answers[i]? = some (n, accepted))
    (hst : rig_step s.rig (.bridge (.goal_response n accepted)) = some rig) :
    Tied { s.put rig with answers := s.answers.eraseIdx i } := by
  have hb := answer_step hst
  have hx := view_step h.bridge.subscribed hb
  refine ⟨h.node, step_sound h.bridge hb,
    (h.waves.does h.bridge.steady h.bridge.tracks hx).1, h.listed, ?_⟩
  have hview : view rig.bridge = (view s.rig.bridge).respond n accepted := by
    generalize view rig.bridge = c' at hx
    cases hx
    rfl
  have hwire : (s.put rig).wire = _ := put_wire hb
  rw [emits_response] at hwire
  show Attended (view rig.bridge) (s.put rig).wire _ _ _
  rw [hview, hwire]
  exact h.attended.responds hi

theorem tied_result {s : Loop P} {rig : Rig} {n : ℕ} {x : WavemakerNode.GoalRecord P}
    {code : ResultCode} (h : Tied s) (hn : s.node.goals (goal_id n) = some x)
    (hcode : result_code x.status = some code)
    (hst : rig_step s.rig (.bridge (.goal_result n code x.message)) = some rig) :
    Tied (s.put rig) := by
  have hb := answer_step hst
  have hx := view_step h.bridge.subscribed hb
  have hstatus : s.node.status (goal_id n) = some x.status := by
    rw [WavemakerNode.State.status, hn]
    rfl
  have hnot : ¬ WavemakerNode.Live s.node (goal_id n) := by
    refine WavemakerNode.not_live hstatus ?_ ?_ <;> intro hst <;> rw [hst] at hcode <;> cases hcode
  refine ⟨h.node, step_sound h.bridge hb,
    (h.waves.does h.bridge.steady h.bridge.tracks hx).1, h.listed, ?_⟩
  have hview : view rig.bridge = (view s.rig.bridge).result n := by
    generalize view rig.bridge = c' at hx
    cases hx
    rfl
  have hwire : (s.put rig).wire = s.wire := (put_wire hb).trans (List.append_nil _)
  show Attended (view rig.bridge) (s.put rig).wire _ _ _
  rw [hview, hwire]
  exact h.attended.results hnot

/-- A goal of the bridge is not one of another client. -/
theorem goal_id_even (n : ℕ) : goal_id n % 2 = 0 := by
  unfold goal_id
  omega

theorem goal_id_inj {m n : ℕ} (h : goal_id m = goal_id n) : m = n := by
  unfold goal_id at h
  omega

theorem served_listed {s : Loop P} {node : WavemakerNode.State P} {r : WavemakerNode.GoalRequest P}
    (h : Tied s) (hst : WavemakerNode.step s.node (.goal_request r) = some node) :
    ∀ g, (node.goals g).isSome = true → g ∈ (s.serve r.id node).handles := by
  intro g hg
  unfold Loop.serve
  dsimp only
  by_cases hid : g = r.id
  · rw [← hid, if_pos hg]
    simp
  · have hwas : (s.node.goals g).isSome = true := by
      rcases WavemakerNode.step_known h.node.underWay hst hg with hwas | ⟨r', hr, rfl⟩
      · exact hwas
      · cases hr
        exact absurd rfl hid
    have hmem := h.listed g hwas
    split
    · exact List.mem_append_left _ hmem
    · exact hmem

/-- A step of the controller that takes no goal of the bridge. -/
theorem tied_node {s : Loop P} {node : WavemakerNode.State P} {e : WavemakerNode.Event P}
    {handles : List ℕ} (h : Tied s) (hst : WavemakerNode.step s.node e = some node)
    (hno : ∀ n, ¬ WavemakerNode.Requests (goal_id n) e)
    (hlisted : ∀ g, (node.goals g).isSome = true → g ∈ handles) :
    Tied { s with node := node, handles := handles } := by
  refine ⟨WavemakerNode.step_sound h.node hst, h.bridge, h.waves, hlisted,
    h.attended.idles ?_ ?_⟩
  · intro n hl
    rcases WavemakerNode.step_live h.node.underWay hst hl with hl | ⟨-, hr⟩
    · exact hl
    · exact absurd hr (hno n)
  · intro n hk
    rcases WavemakerNode.step_known h.node.underWay hst hk with hk | hr
    · exact hk
    · exact absurd hr (hno n)

/-- The server cancels a goal. -/
theorem cancel_tied {s : Loop P} (h : Tied s) (g : ℕ) :
    WavemakerNode.Sound (WavemakerNode.cancel s.node g) ∧
      ∀ k, ((WavemakerNode.cancel s.node g).goals k).isSome = true → k ∈ s.handles := by
  refine ⟨?_, fun k hk => h.listed k (WavemakerNode.cancel_known h.node.underWay hk)⟩
  unfold WavemakerNode.cancel
  cases hst : WavemakerNode.step s.node (.cancel g) with
  | none => exact h.node
  | some t => exact WavemakerNode.step_sound h.node hst

theorem tied_arrive {wave : ℚ → ℚ → P.Goal} {s t : Loop P} {i : ℕ} {start : Option ℚ}
    {faulted live : Bool} (h : Tied s)
    (hst : loop_step wave s (.arrive i start faulted live) = some t) : Tied t := by
  simp only [loop_step] at hst
  split at hst
  · rename_i n height period hi
    obtain ⟨node, hnode, rfl⟩ := Option.map_eq_some_iff.mp hst
    refine ⟨WavemakerNode.step_sound h.node hnode, h.bridge, h.waves, served_listed h hnode,
      h.attended.taken h.bridge.tracks h.waves hi ?_ ?_⟩
    · intro m hl
      rcases WavemakerNode.step_live h.node.underWay hnode hl with hl | ⟨-, r, hr, hid⟩
      · exact .inl hl
      · cases hr
        exact .inr (goal_id_inj hid.symm)
    · intro m hk
      rcases WavemakerNode.step_known h.node.underWay hnode hk with hk | ⟨r, hr, hid⟩
      · exact .inl hk
      · cases hr
        exact .inr (goal_id_inj hid.symm)
  · rename_i n hi
    obtain ⟨hserves, heq⟩ := Option.ite_none_right_eq_some.mp hst
    cases heq
    obtain ⟨hsound, hlisted⟩ := cancel_tied h (goal_id n)
    exact ⟨hsound, h.bridge, h.waves, hlisted, h.attended.canceled h.node.underWay hserves hi⟩
  · rename_i hi
    obtain ⟨-, heq⟩ := Option.ite_none_right_eq_some.mp hst
    cases heq
    exact ⟨h.node, h.bridge, h.waves, h.listed, h.attended.all_asked hi h.listed⟩
  · cases hst

/-- **One step.** -/
theorem loop_tied {wave : ℚ → ℚ → P.Goal} {s t : Loop P} {e : LoopEvent P} (h : Tied s)
    (hok : Connected s e) (hst : loop_step wave s e = some t) : Tied t := by
  cases e with
  | rig e =>
      simp only [loop_step] at hst
      split at hst
      · cases hst
      · rename_i hback
        obtain ⟨rig, hrig, rfl⟩ := Option.map_eq_some_iff.mp hst
        exact tied_rig h hok (by simpa using hback) hrig
  | node e =>
      simp only [loop_step] at hst
      split at hst
      · rename_i r
        obtain ⟨hodd, hst⟩ := Option.ite_none_right_eq_some.mp hst
        obtain ⟨node, hnode, rfl⟩ := Option.map_eq_some_iff.mp hst
        refine tied_node h hnode ?_ (served_listed h hnode)
        rintro n ⟨r', hr, hid⟩
        cases hr
        have heven := goal_id_even n
        rw [← hid] at heven
        omega
      · rename_i hno
        obtain ⟨node, hnode, rfl⟩ := Option.map_eq_some_iff.mp hst
        refine tied_node h hnode ?_ ?_
        · rintro n ⟨r, hr, -⟩
          exact hno r hr
        · intro g hg
          rcases WavemakerNode.step_known h.node.underWay hnode hg with hg | ⟨r, hr, -⟩
          · exact h.listed g hg
          · exact absurd hr (hno r)
  | arrive i start faulted live => exact tied_arrive h hst
  | cancel_next =>
      simp only [loop_step] at hst
      split at hst
      · rename_i g rest hasked
        obtain ⟨hserves, heq⟩ := Option.ite_none_right_eq_some.mp hst
        cases heq
        have hatt := h.attended
        rw [hasked] at hatt
        obtain ⟨hsound, hlisted⟩ := cancel_tied h g
        exact ⟨hsound, h.bridge, h.waves, hlisted, hatt.one_canceled h.node.underWay hserves⟩
      · cases hst
  | response i =>
      simp only [loop_step] at hst
      split at hst
      · rename_i n accepted hi
        obtain ⟨rig, hrig, rfl⟩ := Option.map_eq_some_iff.mp hst
        exact tied_response h hi hrig
      · cases hst
  | result n =>
      simp only [loop_step] at hst
      split at hst
      · rename_i x hx
        split at hst
        · rename_i code hcode
          obtain ⟨rig, hrig, rfl⟩ := Option.map_eq_some_iff.mp hst
          exact tied_result h hx hcode hrig
        · cases hst
      · cases hst
  | lost i => exact absurd rfl (hok.lost i).1
  | response_lost i => exact absurd rfl (hok.lost i).2

theorem init_tied {s : Loop P} (h : LoopInit s) : Tied s := by
  obtain ⟨hrig, hnode, hwire, hanswers, -, hasked⟩ := h
  have htended := @init_tended 0 0 s.rig hrig
  have hnone : ∀ g, s.node.goals g = none := by
    obtain ⟨-, -, -, -, -, -, -, -, -, -, -, -, -, -, -, hgoals, -⟩ := hnode
    exact hgoals
  obtain ⟨-, -, -, -, -, -, -, -, hr, -, -, -, -, -, -, -, hresp, -⟩ := hrig.2.1
  have hresp : (view s.rig.bridge).responses = ∅ := hresp
  have hr : (view s.rig.bridge).requested = false := hr
  refine ⟨WavemakerNode.init_sound hnode, htended.sound, htended.waves, by simp [hnone],
    ⟨?_, by simp [hr], by simp [hanswers], by simp [hnone], ?_⟩⟩
  · rw [hwire, hanswers, hresp]
    rfl
  · intro n hl
    simpa [hnone] using hl.known

theorem reach_tied {wave : ℚ → ℚ → P.Goal} {s : Loop P}
    (h : Reach (loop_step wave) Connected LoopInit s) : Tied s :=
  h.invariant (fun _ => init_tied) fun _ _ _ hinv hok hst => loop_tied hinv hok hst

/-- **No goal is forgotten.** In every run of pages, server, bridge, controller and other clients in
which no message of the action is lost, the stops find the action server, and the action client is
not replaced while a response is due: a goal of the bridge that is active at the controller, and
that nobody has asked the controller to cancel, is the last one the bridge has sent, while it says
that a wave is starting or running; or the request to cancel it is on its way, or its response is
and the bridge will send that request then. -/
theorem no_goal_forgotten {wave : ℚ → ℚ → P.Goal} {s : Loop P}
    (h : Reach (loop_step wave) Connected LoopInit s) {n : ℕ}
    (hl : WavemakerNode.Live s.node (goal_id n)) :
    n = s.rig.bridge.goal_generation_ ∧
        (s.rig.bridge.state_ = .Starting ∨ s.rig.bridge.state_ = .Running) ∨
      Doomed (view s.rig.bridge) s.wire s.asked n :=
  (reach_tied h).attended.watched n hl

structure Attentive (delay period : ℕ) (s : Loop P) (e : LoopEvent P) : Prop where
  connected : Connected s e
  timed : ∀ r, e = .rig r → Timed delay period s.rig r

/-- The pages, the server and the bridge make a step of their own, or none. -/
theorem loop_rig {wave : ℚ → ℚ → P.Goal} {s t : Loop P} {e : LoopEvent P}
    (h : loop_step wave s e = some t) :
    t.rig = s.rig ∨ ∃ r, rig_step s.rig r = some t.rig ∧ (e = .rig r ∨ ∃ b, r = .bridge b) := by
  cases e with
  | rig e =>
      obtain ⟨-, h⟩ := Option.ite_none_left_eq_some.mp h
      obtain ⟨rig, hrig, rfl⟩ := Option.map_eq_some_iff.mp h
      exact .inr ⟨e, hrig, .inl rfl⟩
  | node e =>
      simp only [loop_step] at h
      split at h
      · obtain ⟨-, h⟩ := Option.ite_none_right_eq_some.mp h
        obtain ⟨node, -, rfl⟩ := Option.map_eq_some_iff.mp h
        exact .inl rfl
      · obtain ⟨node, -, rfl⟩ := Option.map_eq_some_iff.mp h
        exact .inl rfl
  | arrive i start faulted live =>
      simp only [loop_step] at h
      split at h
      · obtain ⟨node, -, rfl⟩ := Option.map_eq_some_iff.mp h
        exact .inl rfl
      · obtain ⟨-, heq⟩ := Option.ite_none_right_eq_some.mp h
        cases heq
        exact .inl rfl
      · obtain ⟨-, heq⟩ := Option.ite_none_right_eq_some.mp h
        cases heq
        exact .inl rfl
      · cases h
  | cancel_next =>
      simp only [loop_step] at h
      split at h
      · obtain ⟨-, heq⟩ := Option.ite_none_right_eq_some.mp h
        cases heq
        exact .inl rfl
      · cases h
  | response i =>
      simp only [loop_step] at h
      split at h
      · obtain ⟨rig, hrig, rfl⟩ := Option.map_eq_some_iff.mp h
        exact .inr ⟨_, hrig, .inr ⟨_, rfl⟩⟩
      · cases h
  | result n =>
      simp only [loop_step] at h
      split at h
      · split at h
        · obtain ⟨rig, hrig, rfl⟩ := Option.map_eq_some_iff.mp h
          exact .inr ⟨_, hrig, .inr ⟨_, rfl⟩⟩
        · cases h
      · cases h
  | lost i | response_lost i =>
      obtain ⟨-, heq⟩ := Option.ite_none_right_eq_some.mp h
      cases heq
      exact .inl rfl

theorem rig_reached {wave : ℚ → ℚ → P.Goal} {delay period : ℕ} {s : Loop P}
    (h : Reach (loop_step wave) (Attentive delay period) LoopInit s) :
    Reach rig_step (Timed delay period) RigInit s.rig := by
  induction h with
  | init hinit => exact .init hinit.1
  | step _ hok hst ih =>
      rcases loop_rig hst with heq | ⟨r, hr, rfl | ⟨b, rfl⟩⟩
      · rw [heq]
        exact ih
      · exact ih.step (hok.timed r rfl) hr
      · exact ih.step ⟨by simp, by simp⟩ hr

/-- **Nothing plays unattended.** In every such run in which, besides, a heartbeat arrives within
`delay` of its check or never, and the watch timer of an active bridge ticks every `period`: while a
goal of the bridge is active at the controller and is not about to be canceled, some page has
acknowledged an update, no longer ago than the page's half second, the delay, the bridge's heartbeat
timeout and a period of the timer together. -/
theorem goal_acknowledged {wave : ℚ → ℚ → P.Goal} {delay period : ℕ} {s : Loop P}
    (h : Reach (loop_step wave) (Attentive delay period) LoopInit s) {n : ℕ}
    (hl : WavemakerNode.Live s.node (goal_id n))
    (hd : ¬ Doomed (view s.rig.bridge) s.wire s.asked n) :
    ∃ ack, s.rig.site.server.last_ack = some ack ∧ (s.rig.bridge.now : ℚ) <
      ack + ACK_TIMEOUT_S + delay + s.rig.bridge.heartbeat_timeout_ + period := by
  have hloop : Reach (loop_step wave) Connected LoopInit s := h.mono fun _ _ hok => hok.connected
  have hwave := (no_goal_forgotten hloop hl).resolve_right hd
  exact wave_acknowledged (rig_reached h) hwave.2

/-! ### A wave from a page, played and stopped -/

instance : ∀ (s : Loop P) e, Decidable (Connected s e)
  | s, .rig (.bridge b) =>
      decidable_of_iff (unheard s.rig.bridge b = false ∧
          (b = .configure ∨ b = .cleanup → s.rig.bridge.responses = ∅))
        ⟨fun h => ⟨by simp, by rintro _ ⟨⟩; exact h.1, by rintro _ ⟨⟩; exact h.2⟩,
          fun h => ⟨h.server b rfl, h.client b rfl⟩⟩
  | _, .lost i => .isFalse fun h => (h.lost i).1 rfl
  | _, .response_lost i => .isFalse fun h => (h.lost i).2 rfl
  | _, .rig (.clock _) | _, .rig (.site _) | _, .rig (.heartbeat _) | _, .rig (.heartbeat_lost _)
  | _, .node _ | _, .arrive _ _ _ _ | _, .cancel_next | _, .response _ | _, .result _ =>
      .isTrue ⟨by simp, by simp, by simp⟩

instance (delay period : ℕ) : ∀ (s : Loop P) e, Decidable (Attentive delay period s e)
  | s, .rig r =>
      decidable_of_iff (Connected s (.rig r) ∧ Timed delay period s.rig r)
        ⟨fun h => ⟨h.1, by rintro _ ⟨⟩; exact h.2⟩, fun h => ⟨h.connected, h.timed r rfl⟩⟩
  | s, .node e | s, .arrive i start faulted live | s, .cancel_next | s, .response i | s, .result n
  | s, .lost i | s, .response_lost i =>
      decidable_of_iff (Connected s _) ⟨fun h => ⟨h, by simp⟩, fun h => h.connected⟩

/-- Bridge and controller switched on. -/
def tank : Loop WavemakerNode.bench where
  rig := switched_on
  node := WavemakerNode.constructed
  wire := []
  answers := []
  handles := []
  asked := []

theorem tank_init : LoopInit tank :=
  ⟨⟨launched_init, constructed_init, rfl, rfl⟩, WavemakerNode.constructed_init, rfl, rfl, rfl, rfl⟩

/-- The wave of the page is accepted by the controller. -/
def plays : List (LoopEvent WavemakerNode.bench) :=
  WavemakerNode.boot.map .node ++ first_wave.map .rig ++ [.arrive 0 (some 0) false true]

/-- The bridge hears of it, and an operator presses stop. -/
def stopped : List (LoopEvent WavemakerNode.bench) :=
  plays ++ [.response 0, .rig (.bridge (.stop_topic true))]

/-- A second sample as far out as the wave is high. -/
def as_high (height _ : ℚ) : ℚ := height

theorem no_goal_forgotten_stopped : ∃ s : Loop WavemakerNode.bench,
    WavemakerNode.Live s.node (goal_id 1) ∧ s.rig.bridge.state_ = .Stopping ∧
      Doomed (view s.rig.bridge) s.wire s.asked 1 := by
  have heval : ((run (guarded (loop_step as_high) Connected) tank stopped).map fun s =>
      (s.node.status (goal_id 1), s.rig.bridge.state_)) = some (some .accepted, .Stopping) := by
    decide +kernel
  obtain ⟨s, hs, hval⟩ := Option.map_eq_some_iff.mp heval
  simp only [Prod.mk.injEq] at hval
  have hreach : Reach (loop_step as_high) Connected LoopInit s :=
    .guarded_run stopped (.init tank_init) hs
  have hlive : WavemakerNode.Live s.node (goal_id 1) := .inl hval.1
  refine ⟨s, hlive, hval.2, (no_goal_forgotten hreach hlive).resolve_left ?_⟩
  simp [hval.2]

theorem goal_acknowledged_playing : ∃ s : Loop WavemakerNode.bench,
    WavemakerNode.Live s.node (goal_id 1) ∧
      ∃ ack, s.rig.site.server.last_ack = some ack ∧ (s.rig.bridge.now : ℚ) <
        ack + ACK_TIMEOUT_S + (50000000 : ℕ) + s.rig.bridge.heartbeat_timeout_ + (100000000 : ℕ) := by
  have heval : ((run (guarded (loop_step as_high) (Attentive 50000000 100000000)) tank plays).map
      fun s => (s.node.status (goal_id 1), s.wire, s.asked, s.rig.bridge.goal_generation_,
        s.rig.bridge.cancel_on_accept_)) = some (some .accepted, [], [], 1, false) := by
    decide +kernel
  obtain ⟨s, hs, hval⟩ := Option.map_eq_some_iff.mp heval
  simp only [Prod.mk.injEq] at hval
  obtain ⟨hstatus, hwire, hasked, hgen, hflag⟩ := hval
  have hreach : Reach (loop_step as_high) (Attentive 50000000 100000000) LoopInit s :=
    .guarded_run plays (.init tank_init) hs
  have hlive : WavemakerNode.Live s.node (goal_id 1) := .inl hstatus
  refine ⟨s, hlive, goal_acknowledged hreach hlive ?_⟩
  have hgen : (view s.rig.bridge).generation = 1 := hgen
  have hflag : (view s.rig.bridge).cancel_on_accept = false := hflag
  simp [Doomed, hwire, hasked, hgen, hflag]

end WavemakerLink
