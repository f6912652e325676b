/-
Does the web server catch a wave that was started with the wrong values?

The bridge starts a wave with whatever height and period it has when a start arrives. In the
message it publishes then, the server's `_check_start` finds the values that were used, and
stops the wave if they are not the ones sent. That message travels on a topic that keeps one
message, the check gives up after a time, and it takes the newest message with numbers for
the one it waits for. `Timely` names what must not happen on the way; along runs where it does
not, the check stops every wave that is off and none that is right (`start_check`). A run
where the message is overtaken by the next one shows that it can happen
(`wrong_wave_not_stopped`).
-/
import Wavemakers.StartThread

set_option autoImplicit false

namespace WavemakerWeb

open WavemakerBridge Interleave

/-! ## What must not happen -/

/-- The check of a call that has not ended. -/
def waiting (s : System) (c : ℕ) : Option Call :=
  s.web.calls[c]?.filter fun call => call.point ≠ .ended

/-- The last unread copy of the message that the check waits for is dropped. -/
def overtakes (c : ℕ) (x : System × Option (ℚ × ℚ)) : SystemEvent → Bool
  | .drop_message i =>
      (waiting x.1 c).any fun call => x.2.any fun wave =>
        !newer x.1 call && !(x.1.messages.eraseIdx i).contains (starting_text wave.1 wave.2)
  | _ => false

/-- While the check waits, numbers are read that are not those of its own start. -/
def misleads (c : ℕ) (x : System × Option (ℚ × ℚ)) : SystemEvent → Bool
  | .on_message =>
      (waiting x.1 c).isSome && x.1.messages.head?.any fun data =>
        (search data.toList).isSome && x.2.all fun wave => data != starting_text wave.1 wave.2
  | _ => false

/-- The time of the check is up, or its process ends, before it has seen what was started. -/
def overruns (c : ℕ) (x : System × Option (ℚ × ℚ)) : SystemEvent → Bool
  | .thread n =>
      n = c && x.2.isSome && x.1.web.calls[c]?.any fun call =>
        match call.point with
        | .poll _ deadline => deadline ≤ x.1.bridge.now
        | _ => false
  | .deliver_start => answers c x.1 && (waiting x.1 c).isNone
  | .exit => (waiting x.1 c).isSome
  | _ => false

/-- The wave that is started has values that do not survive the message. -/
def garbles (c : ℕ) (x : System × Option (ℚ × ℚ)) : SystemEvent → Bool
  | .deliver_start =>
      answers c x.1 && x.1.bridge.wave.any fun wave => !legible wave.1 wave.2
  | _ => false

def Timely (c : ℕ) (x : System × Option (ℚ × ℚ)) (e : SystemEvent) : Prop :=
  (overtakes c x e || misleads c x e || overruns c x e || garbles c x e) = false

instance (c : ℕ) (x : System × Option (ℚ × ℚ)) (e : SystemEvent) : Decidable (Timely c x e) :=
  inferInstanceAs (Decidable (_ = false))

/-! ## The check -/

/-- A check that waits: once a message with numbers was read it is that of its own start,
and before that the message is still to be read. -/
structure Waits (c : ℕ) (s : System) (call : Call) (answer : Option (ℚ × ℚ)) : Prop where
  running : s.web.running = true
  first : call.first_message ≤ s.web.message_count
  silent : Command.stop (some c) ∉ s.out
  seen : newer s call = true →
    ∃ wave n, answer = some wave ∧ s.web.started_with = some (n, read_values wave)
  unseen : ∀ wave, answer = some wave → newer s call = false →
    starting_text wave.1 wave.2 ∈ s.messages

structure Watched (c : ℕ) (s : System) (answer : Option (ℚ × ℚ)) : Prop where
  absent : s.web.calls[c]? = none → Command.stop (some c) ∉ s.out
  wave : ∀ wave, answer = some wave → Wave wave ∧ legible wave.1 wave.2 = true
  waits : ∀ call, s.web.calls[c]? = some call → call.point ≠ .ended → Waits c s call answer
  ended : ∀ call, s.web.calls[c]? = some call → call.point = .ended → ∀ wave, answer = some wave →
    (Command.stop (some c) ∈ s.out ↔ mismatch (read_values wave) call.height call.period = true)

section Watched

variable {c : ℕ} {s t : System} {answer : Option (ℚ × ℚ)}

theorem Waits.quiet {call : Call} (h : Waits c s call answer) (hq : Quiet c s t) :
    Waits c t call answer := by
  refine ⟨?_, ?_, ?_, ?_, ?_⟩
  · rw [hq.running]
    exact h.running
  · rw [hq.message_count]
    exact h.first
  · rw [hq.stopped]
    exact h.silent
  · rw [hq.newer_eq, hq.started_with]
    exact h.seen
  · intro wave hwave hnewer
    rw [hq.newer_eq] at hnewer
    exact hq.messages _ (h.unseen wave hwave hnewer)

theorem Watched.quiet (h : Watched c s answer) (hq : Quiet c s t) : Watched c t answer := by
  refine ⟨?_, h.wave, ?_, ?_⟩
  · rw [hq.call, hq.stopped]
    exact h.absent
  · intro call hcall hpoint
    rw [hq.call] at hcall
    exact (h.waits call hcall hpoint).quiet hq
  · intro call hcall hpoint wave hwave
    rw [hq.call] at hcall
    rw [hq.stopped]
    exact h.ended call hcall hpoint wave hwave

theorem waiting_eq_some {call : Call} :
    waiting s c = some call ↔ s.web.calls[c]? = some call ∧ call.point ≠ .ended := by
  rw [waiting, Option.filter_eq_some_iff, decide_eq_true_eq]

theorem Timely.parts {x : System × Option (ℚ × ℚ)} {e : SystemEvent} (h : Timely c x e) :
    overtakes c x e = false ∧ misleads c x e = false ∧ overruns c x e = false ∧
      garbles c x e = false := by
  simpa only [Timely, Bool.or_eq_false_iff, and_assoc] using h

/-- The text of the start that the bridge answers is on its way. -/
theorem answers_text (hr : Ready s.bridge) (ha : answers c s = true)
    (hs : act s .deliver_start = some t) {wave : ℚ × ℚ} (hw : s.bridge.wave = some wave) :
    starting_text wave.1 wave.2 ∈ t.messages := by
  simp only [answers, Bool.and_eq_true] at ha
  obtain ⟨⟨-, hsub⟩, hstarts⟩ := ha
  have hpublishers := hr.publishes (.inr (hr.subscribed hsub))
  obtain ⟨wave', o, hw', hout⟩ := start_publishes hpublishers hstarts
  cases hw.symm.trans hw'
  obtain ⟨_, -, rfl⟩ := Option.map_eq_some_iff.mp hs
  have hstep : step s.bridge (.start_topic true) = some s.bridge.start := if_pos hsub
  unfold System.deliver
  dsimp only
  rw [hstep]
  apply List.mem_append_right
  unfold System.news
  dsimp only
  rw [hout, List.drop_left]
  exact List.mem_map.mpr ⟨_, List.mem_filterMap.mpr ⟨_, List.mem_cons_self, rfl⟩, rfl⟩

/-- The bridge starts a wave for the call. -/
theorem Watched.deliver (h : Watched c s answer) (hsane : Sane s) (htoken : Token c s answer)
    (ha : answers c s = true) (hok : Timely c (s, answer) .deliver_start)
    (hs : system_step s .deliver_start = some t) (hquiet : Quiet c s t) :
    Watched c t s.bridge.wave := by
  obtain ⟨-, -, hoverruns, hgarbles⟩ := hok.parts
  obtain ⟨-, hs⟩ := system_step_eq_some.mp hs
  obtain ⟨hanswer, hsent, -⟩ := htoken.deliver ha hs none
  -- the check still waits
  obtain ⟨call, hwaiting⟩ : ∃ call, waiting s c = some call := by
    simp only [overruns, ha, Bool.true_and] at hoverruns
    exact Option.ne_none_iff_exists'.mp fun hnone => by
      rw [hnone] at hoverruns
      cases hoverruns
  obtain ⟨hcall, hpoint⟩ := waiting_eq_some.mp hwaiting
  have hwaits := h.waits call hcall hpoint
  -- and has read nothing newer, since there was no answer
  have hnewer : newer s call = false := by
    rw [← Bool.not_eq_true]
    intro hnewer
    obtain ⟨wave, n, hwave, -⟩ := hwaits.seen hnewer
    rw [hanswer] at hwave
    cases hwave
  have hcall' : t.web.calls[c]? = some call := by
    rw [hquiet.call, hcall]
  refine ⟨?_, ?_, ?_, ?_⟩
  · rw [hcall']
    exact nofun
  · intro wave hwave
    refine ⟨wave_of_ready hsane.ready hwave, ?_⟩
    simp only [garbles, ha, Bool.true_and, hwave, Option.any_some, Bool.not_eq_false'] at hgarbles
    exact hgarbles
  · intro call' hc' _
    rw [hcall'] at hc'
    cases hc'
    have hq := hwaits.quiet hquiet
    refine ⟨hq.running, hq.first, hq.silent, ?_,
      fun wave hwave _ => answers_text hsane.ready ha hs hwave⟩
    rw [hquiet.newer_eq, hnewer]
    exact nofun
  · intro call' hc' hended
    rw [hcall'] at hc'
    cases hc'
    exact absurd hended hpoint

/-- A message is dropped. -/
theorem Watched.drop_message (h : Watched c s answer) {i : ℕ}
    (hok : Timely c (s, answer) (.drop_message i)) :
    Watched c { s with messages := s.messages.eraseIdx i } answer := by
  obtain ⟨hovertakes, -⟩ := hok.parts
  refine ⟨h.absent, h.wave, ?_, h.ended⟩
  intro call hcall hpoint
  have hw := h.waits call hcall hpoint
  refine ⟨hw.running, hw.first, hw.silent, hw.seen, ?_⟩
  intro wave hwave hnewer
  have hnewer : newer s call = false := hnewer
  have hwaiting : waiting s c = some call := waiting_eq_some.mpr ⟨hcall, hpoint⟩
  simp only [overtakes, hwaiting, hwave, hnewer, Option.any_some, Bool.not_false, Bool.true_and,
    Bool.not_eq_false', List.contains_iff_mem] at hovertakes
  exact hovertakes

/-- A message is read. -/
theorem Watched.on_message (h : Watched c s answer) {data : String}
    (hhead : s.messages.head? = some data) (hok : Timely c (s, answer) .on_message) :
    Watched c { s with web := s.web.on_message data, messages := s.messages.tail } answer := by
  obtain ⟨-, hmisleads, -⟩ := hok.parts
  refine ⟨?_, h.wave, ?_, ?_⟩
  · dsimp only
    rw [on_message_calls]
    exact h.absent
  · intro call hcall hpoint
    dsimp only at hcall
    rw [on_message_calls] at hcall
    have hw := h.waits call hcall hpoint
    have hwaiting : waiting s c = some call := waiting_eq_some.mpr ⟨hcall, hpoint⟩
    cases hsearch : search data.toList with
    | none =>
        -- no numbers: nothing new is seen, and the text waited for is another one
        have hweb : s.web.on_message data =
            { s.web with message := data, message_count := s.web.message_count + 1 } := by
          unfold WebNode.on_message
          rw [hsearch]
        rw [hweb]
        refine ⟨hw.running, hw.first.trans (Nat.le_succ _), hw.silent, hw.seen, ?_⟩
        intro wave hwave hnewer
        have hmem := hw.unseen wave hwave hnewer
        rw [List.eq_cons_of_mem_head? hhead] at hmem
        rcases List.mem_cons.mp hmem with heq | hmem
        · obtain ⟨hpos, hlegible⟩ := h.wave wave hwave
          rw [← heq, search_legible hpos hlegible] at hsearch
          cases hsearch
        · exact hmem
    | some groups =>
        -- numbers: they are those of the start
        obtain ⟨wave, hwave, rfl⟩ : ∃ wave, answer = some wave ∧
            data = starting_text wave.1 wave.2 := by
          simp only [misleads, hwaiting, hhead, hsearch, Option.isSome_some, Option.any_some,
            Bool.true_and] at hmisleads
          cases answer with
          | none => cases hmisleads
          | some wave =>
              rw [Option.all_some, bne_eq_false_iff_eq] at hmisleads
              exact ⟨wave, rfl, hmisleads⟩
        obtain ⟨hpos, hlegible⟩ := h.wave wave hwave
        rw [on_message_starting hpos hlegible]
        have hnewer : call.first_message < s.web.message_count + 1 := Nat.lt_succ_of_le hw.first
        refine ⟨hw.running, hnewer.le, hw.silent, fun _ => ⟨wave, _, hwave, rfl⟩, ?_⟩
        intro _ _ hseen
        exact absurd (decide_eq_true hnewer) (Bool.eq_false_iff.mp hseen)
  · intro call hcall
    dsimp only at hcall
    rw [on_message_calls] at hcall
    exact h.ended call hcall

/-- The call begins: nothing has been read since. -/
theorem Watched.called (h : Watched c s answer) (hsane : Sane s) (htoken : Token c s answer)
    (hrunning : s.web.running = true) (hc : c = s.web.calls.length) (height period : ℚ) :
    Watched c { s with web := { s.web with
      calls := s.web.calls ++ [⟨height, period, s.web.message_count, .publish_height⟩] } }
      answer := by
  have hnone : s.web.calls[c]? = none := List.getElem?_eq_none hc.ge
  obtain ⟨-, hanswer⟩ := htoken.early (by rw [unsent, hnone, Option.all_none])
  have hnew : (s.web.calls ++ [⟨height, period, s.web.message_count, .publish_height⟩])[c]? =
      some ⟨height, period, s.web.message_count, .publish_height⟩ := by
    rw [hc, List.getElem?_concat_length]
  refine ⟨fun _ => h.absent hnone, h.wave, ?_, ?_⟩
  · intro call hcall _
    cases hnew.symm.trans hcall
    refine ⟨hrunning, le_rfl, h.absent hnone, ?_, ?_⟩
    · intro hnewer
      obtain ⟨r, hr, hlt⟩ := (Option.any_eq_true _ _).mp hnewer
      exact absurd (hsane.counted r hr) (not_le.mpr (of_decide_eq_true hlt))
    · rw [hanswer]
      rintro _ ⟨⟩
  · intro call hcall hended
    cases hnew.symm.trans hcall
    cases hended

theorem Moves.waits {call : Call} {point : Point} {sent : List Command}
    (h : Moves s c call point sent) : call.point ≠ .ended := by
  cases h with
  | height hpoint | period hpoint | start hpoint _ | begins hpoint | again hpoint _ _ _
  | late hpoint _ _ | decides hpoint _ _ _ _ =>
      rw [hpoint]
      nofun

/-- The thread of the call takes a step. -/
theorem Watched.thread (h : Watched c s answer) {call : Call} (hcall : s.web.calls[c]? = some call)
    {point : Point} {sent : List Command} (hmoves : Moves s c call point sent)
    (hmoved : Moved s t c point sent) (hok : Timely c (s, answer) (.thread c)) :
    Watched c t answer := by
  obtain ⟨-, -, hoverruns, -⟩ := hok.parts
  have hw := h.waits call hcall hmoves.waits
  have hcall' := hmoved.call_eq hcall
  have hnewer : newer t { call with point := point } = newer s call := by
    rw [newer, newer, hmoved.started_with]
  -- as long as it goes on, it publishes no stop and knows what it knew
  have goes_on : point ≠ .ended → Command.stop (some c) ∉ sent → Watched c t answer := by
    intro hpoint hsent
    refine ⟨?_, h.wave, ?_, ?_⟩
    · rw [hcall']
      rintro ⟨⟩
    · intro call' hc' _
      cases hcall'.symm.trans hc'
      refine ⟨?_, ?_, ?_, ?_, ?_⟩
      · rw [hmoved.running]
        exact hw.running
      · rw [hmoved.message_count]
        exact hw.first
      · rw [hmoved.out, List.mem_append]
        exact not_or.mpr ⟨hw.silent, hsent⟩
      · rw [hnewer, hmoved.started_with]
        exact hw.seen
      · rw [hnewer, hmoved.messages]
        exact hw.unseen
    · intro call' hc' hended
      cases hcall'.symm.trans hc'
      exact absurd hended hpoint
  have ends : (∀ wave, answer = some wave → (Command.stop (some c) ∈ s.out ++ sent ↔
      mismatch (read_values wave) call.height call.period = true)) → point = .ended →
      Watched c t answer := by
    intro hiff hpoint
    refine ⟨?_, h.wave, ?_, ?_⟩
    · rw [hcall']
      rintro ⟨⟩
    · intro call' hc' hne
      cases hcall'.symm.trans hc'
      exact absurd hpoint hne
    · intro call' hc' _ wave hwave
      cases hcall'.symm.trans hc'
      rw [hmoved.out]
      exact hiff wave hwave
  cases hmoves with
  | height _ | period _ | start _ _ => exact goes_on (by rintro ⟨⟩) (by simp)
  | begins _ | again _ _ _ _ => exact goes_on (by rintro ⟨⟩) List.not_mem_nil
  | late hpoint _ hdeadline =>
      -- the time is up, and no wave was started
      refine ends ?_ rfl
      intro wave hwave
      rw [overruns, hwave, hcall, Option.any_some, hpoint] at hoverruns
      simp only [decide_true, Option.isSome_some, Bool.true_and, decide_eq_false_iff_not]
        at hoverruns
      exact absurd hdeadline hoverruns
  | @decides wake deadline n used _ _ _ hstarted hcount =>
      refine ends ?_ rfl
      intro wave hwave
      -- what was read is the answer
      obtain ⟨wave', n', hwave', hstarted'⟩ := hw.seen (by
        rw [newer_of_le hstarted]
        exact decide_eq_true hcount)
      cases hwave.symm.trans hwave'
      cases hstarted.symm.trans hstarted'
      rw [List.mem_append, or_iff_right hw.silent]
      split
      · rename_i hmismatch
        exact ⟨fun _ => hmismatch, fun _ => List.mem_singleton_self _⟩
      · rename_i hmismatch
        exact ⟨by rintro ⟨⟩, fun hyes => absurd hyes hmismatch⟩

theorem step_watched {e : SystemEvent} (h : Watched c s answer) (hsane : Sane s)
    (htoken : Token c s answer) (hok : Timely c (s, answer) e) (hs : system_step s e = some t) :
    Watched c t (responds c answer s e) := by
  rcases step_cases (c := c) hs with ⟨hquiet, -⟩ | hconcerns
  · by_cases hanswers : e = .deliver_start ∧ answers c s = true
    · obtain ⟨rfl, ha⟩ := hanswers
      rw [responds_answers ha]
      exact h.deliver hsane htoken ha hok hs hquiet
    · rw [responds_eq hanswers]
      exact h.quiet hquiet
  · rw [responds_eq (by rintro ⟨rfl, -⟩; cases hconcerns)]
    cases hconcerns with
    | drop_message => exact h.drop_message hok
    | on_message hdata => exact h.on_message hdata hok
    | called hrunning hc => exact h.called hsane htoken hrunning hc _ _
    | thread hcall hmoves hmoved => exact h.thread hcall hmoves hmoved hok
    | exit =>
        refine ⟨h.absent, h.wave, ?_, h.ended⟩
        intro call hcall hpoint
        have hwaiting : waiting s c = some call := waiting_eq_some.mpr ⟨hcall, hpoint⟩
        have hexit : (waiting s c).isSome = false := hok.parts.2.2.1
        rw [hwaiting] at hexit
        cases hexit

end Watched

theorem reach_watched {c : ℕ} {x : System × Option (ℚ × ℚ)}
    (h : Reach (observe system_step (responds c)) (Timely c) Begins x) :
    Sane x.1 ∧ Token c x.1 x.2 ∧ Watched c x.1 x.2 := by
  apply h.invariant
  · rintro ⟨s, answer⟩ ⟨hinit, hanswer⟩
    have hanswer : answer = none := hanswer
    obtain ⟨-, hweb, -, -, hstarts, -, -, -, hout⟩ := id hinit
    have hnone : s.web.calls[c]? = none := by
      rw [hweb]
      rfl
    refine ⟨init_sane hinit, ⟨?_, ?_, ?_⟩, ⟨?_, ?_, ?_, ?_⟩⟩
    · exact fun _ => ⟨by rw [hstarts]; rfl, hanswer⟩
    · rw [hstarts]
      exact Nat.zero_le _
    · exact fun hne => absurd hanswer hne
    · rw [hout]
      exact fun _ => List.not_mem_nil
    · rw [hanswer]
      exact nofun
    · rw [hnone]
      exact nofun
    · rw [hnone]
      exact nofun
  · rintro ⟨s, answer⟩ e ⟨t, answer'⟩ ⟨hsane, htoken, hwatched⟩ hok hs
    obtain ⟨hs, hanswer⟩ := observe_eq_some.mp hs
    have hanswer : answer' = responds c answer s e := hanswer
    rw [hanswer]
    exact ⟨step_sane hsane hs, step_token htoken hs, step_watched hwatched hsane htoken hok hs⟩

/-! ## The result -/

/-- **The check of a start.** Along a run that is `Timely` for a call, suppose the bridge
answered its start with a wave of some height and period. If one of them is off, the check has
published a stop when it ends; if both are as sent, it never does. It ends: whatever else
happens, its thread takes at most 45 steps, and until the last one the next is only a
matter of time. -/
theorem start_check {c : ℕ} {x : System × Option (ℚ × ℚ)}
    (hx : Reach (observe system_step (responds c)) (Timely c) Begins x) {call : Call}
    (hcall : x.1.web.calls[c]? = some call) {height period : ℚ}
    (hwave : x.2 = some (height, period)) :
    (12 / 100000 < |height - call.height| ∨ 12 / 10000 < |period - call.period| →
        call.point = .ended → Command.stop (some c) ∈ x.1.out) ∧
      (height = call.height → period = call.period → Command.stop (some c) ∉ x.1.out) ∧
      (call.point ≠ .ended →
        ∃ ns t, run system_step x.1 [.bridge (.clock ns), .thread c] = some t) ∧
      ∀ es t, run system_step x.1 es = some t → es.count (.thread c) ≤ 45 := by
  obtain ⟨-, -, hwatched⟩ := reach_watched hx
  obtain ⟨hpos, hlegible⟩ := hwatched.wave _ hwave
  refine ⟨?_, ?_, ?_, ?_⟩
  · intro hfar hended
    rw [hwatched.ended call hcall hended _ hwave]
    exact mismatch_of_far hpos hlegible hfar
  · rintro rfl rfl
    by_cases hended : call.point = .ended
    · rw [hwatched.ended call hcall hended _ hwave, mismatch_self hpos hlegible]
      nofun
    · exact (hwatched.waits call hcall hended).silent
  · intro hpoint
    exact thread_goes_on (hwatched.waits call hcall hpoint).running hcall hpoint
  · intro es t hr
    exact (run_left hr).trans (reach_left hx)

/-! ## On the bench -/

def constructed_system : System where
  bridge := constructed
  web := web_init
  heights := []
  periods := []
  starts := []
  stops := []
  states := []
  messages := []
  out := []

theorem constructed_begins : Begins (constructed_system, none) :=
  ⟨⟨constructed_init, rfl, rfl, rfl, rfl, rfl, rfl, rfl, rfl⟩, rfl⟩

/-- The bridge has an older height when the start of the page arrives before the new one. -/
def started_too_early : List SystemEvent :=
  [.bridge .configure, .bridge (.activate 1000000000), .bridge (.height (some (1 / 16))),
    .bridge (.period (some 2)), .on_state, .on_state, .on_message, .on_message,
    .post_start (.fin (1 / 8)) (.fin 2), .thread 0, .thread 0, .bridge (.clock 300000000),
    .bridge .heartbeat, .thread 0, .thread 0, .deliver_start]

/-- The message of the start is read before the next one comes. -/
def start_read : List SystemEvent :=
  started_too_early ++ [.thread 0, .on_message, .bridge (.goal_response 1 true), .deliver_height,
    .bridge (.clock 50000000), .thread 0]

theorem start_check_early_start : ∃ x call,
    Reach (observe system_step (responds 0)) (Timely 0) Begins x ∧
      x.1.web.calls[0]? = some call ∧ call.height = 1 / 8 ∧ x.2 = some (1 / 16, 2) ∧
      Command.stop (some 0) ∈ x.1.out := by
  have hrun : (run (guarded (observe system_step (responds 0)) (Timely 0))
      (constructed_system, none) start_read).map (fun x => (x.1.web.calls[0]?, x.2)) =
      some (some ⟨1 / 8, 2, 2, .ended⟩, some (1 / 16, 2)) := by
    decide +kernel
  obtain ⟨x, hx, hobs⟩ := Option.map_eq_some_iff.mp hrun
  obtain ⟨hcall, hwave⟩ := Prod.mk.inj hobs
  have hreach := Reach.guarded_run start_read (.init constructed_begins) hx
  refine ⟨x, _, hreach, hcall, rfl, hwave, ?_⟩
  apply (start_check hreach hcall hwave).1 _ rfl
  left
  norm_num

/-- The message of the start is overtaken by the next one, and the check looks for it in vain
until its time is up. -/
def start_overtaken : List SystemEvent :=
  started_too_early ++ [.bridge (.goal_response 1 true), .deliver_height, .deliver_period,
    .drop_message 0, .on_message] ++
    (List.replicate 20 [SystemEvent.thread 0, .bridge (.clock 50000000), .bridge .heartbeat,
      .bridge .watch, .thread 0, .bridge (.clock 50000000)]).flatten ++ [.thread 0]

/-- **A wave with the wrong height that is not stopped.** -/
theorem wrong_wave_not_stopped : ∃ x call,
    Reach (observe system_step (responds 0)) Any Begins x ∧ x.1.web.calls[0]? = some call ∧
      call.point = .ended ∧ x.2 = some (1 / 16, 2) ∧ 12 / 100000 < |1 / 16 - call.height| ∧
      ∀ n, Command.stop n ∉ x.1.out := by
  have hrun : (run (observe system_step (responds 0)) (constructed_system, none)
      start_overtaken).map (fun x => (x.1.web.calls[0]?, x.2, x.1.out)) =
      some (some ⟨1 / 8, 2, 2, .ended⟩, some (1 / 16, 2),
        [.height (1 / 8), .period 2, .start 0]) := by
    decide +kernel
  obtain ⟨x, hx, hobs⟩ := Option.map_eq_some_iff.mp hrun
  simp only [Prod.mk.injEq] at hobs
  obtain ⟨hcall, hwave, hout⟩ := hobs
  refine ⟨x, _, Reach.run (.init constructed_begins) hx, hcall, rfl, hwave, ?_, ?_⟩
  · norm_num
  · rw [hout]
    intro n
    simp

end WavemakerWeb
