import SensorKit.Backend.LongCall

/-!
# The long-call protocol

A call's publications begin one after the other, and none begins after one that has ended the call. So an event that
comes on the stream after the published end event is one whose publication has failed.
-/

namespace SensorKit.Backend.LongCalls

open Lib

/-! ## A call at its handler -/

/-- The publication is one of the call's. -/
def HandledCall.Has (call : HandledCall) (p : ℕ) (publication : Publication) : Prop :=
  call.publications[p]? = some publication

structure HandledCall.Sound (call : HandledCall) : Prop where
  rejected : call.reply = some .rejected → call.finalized = true
  silent : ∀ p publication, call.Has p publication → call.reply = some .accepted
  finalized : call.finalized = true → call.reply = some .rejected ∨
    ∃ p publication, call.Has p publication ∧ publication.Ends ∧ publication.Published
  delivered : ∀ p publication, call.Has p publication → publication.Published → publication.delivered = true
  last : ∀ p publication, call.Has p publication → publication.Ends → publication.Published →
    call.finalized = true ∧ p + 1 = call.publications.length
  open_ : ∀ p publication, call.Has p publication → publication.outcome = none → p + 1 = call.publications.length
  sent : ∀ response, call.sent = some (.responded response) →
    call.reply = some response ∨ call.handler = .notStarted ∧ response = .rejected
  started : call.handler = .notStarted → call.sent.isSome = true ∧ call.reply = none
  skipped : call.failure = .skipped ∨ call.failure = .ended none → call.handler = .exited true ∨ call.finalized = true
  created : call.failure = .created → call.reply.isSome = true
  publishing : ∀ p, call.failure = .publishing p ∨ call.failure = .ended (some p) →
    ∃ publication, call.Has p publication ∧ publication.state = .failure ∧
      (call.failure = .ended (some p) → publication.outcome ≠ none)

namespace HandledCall

variable {call call' : HandledCall} {p q c : ℕ} {publication publication' : Publication} {response : Response}
  {state : CallState}

theorem Has.unique (h : call.Has p publication) (h' : call.Has p publication') : publication = publication' :=
  Option.some.inj (h.symm.trans h')

theorem sound_start {i : ℕ} : Sound { caller := i, handler := .running } := by
  constructor <;> simp [Has]

/-- A request that is answered before its handler is started. -/
theorem sound_refused {i : ℕ} {reply : ReplyState} (refused : reply ≠ .responded .accepted) :
    Sound { caller := i, handler := .notStarted, sent := some reply } := by
  constructor <;> simp [Has]
  rintro response rfl
  cases response with
  | accepted => exact absurd rfl refused
  | rejected => rfl

theorem respond_eq_some (responds : call.respond response = some call') :
    call.reply = none ∧ call.handler ≠ .notStarted ∧
      call' = { call with reply := some response, finalized := call.finalized || response = .rejected } := by
  obtain ⟨⟨unanswered, started⟩, ⟨⟩⟩ := Option.ite_none_right_eq_some.1 responds
  exact ⟨unanswered, started, rfl⟩

theorem callEvent_eq_some (publishes : call.callEvent state = some call') :
    call.reply.isSome = true ∧ call.finalized = false ∧
      call' = { call with publications := call.publications ++ [{ state }] } := by
  obtain ⟨⟨answered, live⟩, ⟨⟩⟩ := Option.ite_none_right_eq_some.1 publishes
  exact ⟨answered, live, rfl⟩

namespace Sound

theorem respond (h : call.Sound) (responds : call.respond response = some call') : call'.Sound := by
  obtain ⟨unanswered, started, rfl⟩ := respond_eq_some responds
  have none_ (p : ℕ) (publication : Publication) (has : call.Has p publication) : False := by
    have accepted := h.silent p publication has
    rw [unanswered] at accepted
    cases accepted
  have unfinalized : call.finalized = false := by
    rw [Bool.eq_false_iff]
    intro finalized
    rcases h.finalized finalized with rejected | ⟨p, publication, has, -⟩
    · rw [unanswered] at rejected
      cases rejected
    · exact none_ p publication has
  refine ⟨?_, fun p publication has => (none_ p publication has).elim, ?_,
    fun p publication has => (none_ p publication has).elim, fun p publication has => (none_ p publication has).elim,
    fun p publication has => (none_ p publication has).elim, ?_, fun idle => absurd idle started, ?_, fun _ => rfl,
    h.publishing⟩
  · rintro ⟨⟩
    simp
  · intro finalized
    left
    simpa [unfinalized] using finalized
  · intro other sent
    rcases h.sent other sent with answered | ⟨idle, -⟩
    · rw [unanswered] at answered
      cases answered
    · exact absurd idle started
  · intro skipped
    refine (h.skipped skipped).imp id ?_
    intro finalized
    simp [finalized]

/-- The handler exits. -/
theorem exit (h : call.Sound) (running : call.handler = .running) {cancelled : Bool} :
    Sound { call with handler := .exited cancelled } := by
  refine ⟨h.rejected, h.silent, h.finalized, h.delivered, h.last, h.open_, ?_, by simp, ?_, h.created, h.publishing⟩
  · intro response sent
    refine (h.sent response sent).imp id ?_
    rintro ⟨idle, -⟩
    rw [running] at idle
    cases idle
  · intro skipped
    rcases h.skipped skipped with exited | finalized
    · rw [running] at exited
      cases exited
    · exact .inr finalized

theorem serve (h : call.Sound) {reply : ReplyState} (answer : call.answer = some reply) :
    Sound { call with sent := some reply } := by
  refine ⟨h.rejected, h.silent, h.finalized, h.delivered, h.last, h.open_, ?_, ?_, h.skipped, h.created, h.publishing⟩
  · rintro response ⟨⟩
    unfold HandledCall.answer at answer
    split at answer
    · rename_i given _
      cases answer
      exact .inl given
    · rename_i given _
      cases answer
      exact .inl given
    · cases answer
    · cases answer
  · intro idle
    exact ⟨rfl, (h.started idle).2⟩

theorem failAbandoned (h : call.Sound) {cancelled : Bool} (exited : call.handler = .exited cancelled)
    (sent : call.sent = some (.responded response)) : (call.failAbandoned cancelled).Sound := by
  have answered : call.reply.isSome = true := by
    rcases h.sent response sent with answered | ⟨idle, -⟩
    · rw [answered]
      rfl
    · rw [exited] at idle
      cases idle
  refine ⟨h.rejected, h.silent, h.finalized, h.delivered, h.last, h.open_, h.sent, h.started, ?_, fun _ => answered, ?_⟩
  · unfold HandledCall.failAbandoned
    split_ifs with skip
    · intro _
      refine skip.imp ?_ id
      rintro rfl
      exact exited
    · rintro (⟨⟨⟩⟩ | ⟨⟨⟩⟩)
  · unfold HandledCall.failAbandoned
    split_ifs with skip
    · rintro p (⟨⟨⟩⟩ | ⟨⟨⟩⟩)
    · rintro p (⟨⟨⟩⟩ | ⟨⟨⟩⟩)

theorem has_snoc (has : Has { call with publications := call.publications ++ [publication] } p publication') :
    call.Has p publication' ∨ p = call.publications.length ∧ publication' = publication :=
  found_snoc has

section

variable (h : call.Sound) (one : ∀ publication ∈ call.publications, publication.outcome ≠ none)
include h one

/-- Another publication begins, when those before have returned. -/
theorem callEvent (publishes : call.callEvent state = some call') : call'.Sound := by
  obtain ⟨answered, live, rfl⟩ := callEvent_eq_some publishes
  have accepted : call.reply = some .accepted := by
    obtain ⟨response, reply⟩ := Option.isSome_iff_exists.1 answered
    cases response with
    | accepted => exact reply
    | rejected =>
      rw [h.rejected reply] at live
      cases live
  refine ⟨h.rejected, fun _ _ _ => accepted, ?_, ?_, ?_, ?_, h.sent, h.started, h.skipped, h.created, ?_⟩
  · intro finalized
    have finalized : call.finalized = true := finalized
    rw [live] at finalized
    cases finalized
  · intro p publication has published
    rcases has_snoc has with has | ⟨-, rfl⟩
    · exact h.delivered p publication has published
    · cases published
  · intro p publication has ends published
    rcases has_snoc has with has | ⟨-, rfl⟩
    · have finalized := (h.last p publication has ends published).1
      rw [live] at finalized
      cases finalized
    · cases published
  · intro p publication has awaited
    rcases has_snoc has with has | ⟨rfl, -⟩
    · exact absurd awaited (one publication (mem_of_found has))
    · simp
  · intro p publishes
    obtain ⟨publication, has, rest⟩ := h.publishing p publishes
    exact ⟨publication, found_snoc_of_found has, rest⟩

theorem runFailure (created : call.failure = .created) : call.runFailure.Sound := by
  unfold HandledCall.runFailure
  split
  · rename_i call' publishes
    have sound := h.callEvent one publishes
    obtain ⟨-, -, rfl⟩ := callEvent_eq_some publishes
    refine ⟨sound.rejected, sound.silent, sound.finalized, sound.delivered, sound.last, sound.open_, sound.sent,
      sound.started, by simp, by simp, ?_⟩
    rintro p (⟨⟨⟩⟩ | ⟨⟨⟩⟩)
    exact ⟨{ state := .failure }, List.getElem?_concat_length, rfl, by simp⟩
  · rename_i refused
    have finalized : call.finalized = true := by
      rw [← Bool.not_eq_false]
      intro live
      unfold HandledCall.callEvent at refused
      rw [if_pos ⟨h.created created, live⟩] at refused
      cases refused
    refine ⟨h.rejected, h.silent, h.finalized, h.delivered, h.last, h.open_, h.sent, h.started, fun _ => .inr finalized,
      by simp, ?_⟩
    rintro p (⟨⟨⟩⟩ | ⟨⟨⟩⟩)

end

/-- A publication changes in its place. -/
theorem has_set (has : Has { call with publications := call.publications.set p publication } q publication') :
    q = p ∧ publication' = publication ∨ q ≠ p ∧ call.Has q publication' :=
  found_set has

theorem deliver (h : call.Sound) (has : call.Has p publication) :
    Sound { call with publications := call.publications.set p { publication with delivered := true } } := by
  -- Every other fact about a publication is one about its state and outcome.
  have before (q : ℕ) (publication' : Publication)
      (there : Has { call with publications := call.publications.set p { publication with delivered := true } } q
        publication') : ∃ old, call.Has q old ∧ old.state = publication'.state ∧ old.outcome = publication'.outcome := by
    rcases has_set there with ⟨rfl, rfl⟩ | ⟨-, old⟩
    · exact ⟨publication, has, rfl, rfl⟩
    · exact ⟨publication', old, rfl, rfl⟩
  have after (q : ℕ) (old : Publication) (there : call.Has q old) : ∃ publication',
      Has { call with publications := call.publications.set p { publication with delivered := true } } q publication' ∧
        publication'.state = old.state ∧ publication'.outcome = old.outcome := by
    by_cases same : q = p
    · subst same
      obtain rfl := has.unique there
      exact ⟨_, set_found has, rfl, rfl⟩
    · exact ⟨old, found_set_of_ne there same, rfl, rfl⟩
  refine ⟨h.rejected, ?_, ?_, ?_, ?_, ?_, h.sent, h.started, h.skipped, h.created, ?_⟩
  · intro q publication' there
    obtain ⟨old, has, -⟩ := before q publication' there
    exact h.silent q old has
  · intro finalized
    refine (h.finalized finalized).imp id ?_
    rintro ⟨q, old, there, ends, published⟩
    obtain ⟨publication', has', state, outcome⟩ := after q old there
    refine ⟨q, publication', has', ?_, outcome.trans published⟩
    unfold Publication.Ends
    rw [state]
    exact ends
  · intro q publication' there published
    rcases has_set there with ⟨rfl, rfl⟩ | ⟨-, old⟩
    · rfl
    · exact h.delivered q publication' old published
  · intro q publication' there ends published
    obtain ⟨old, has', state, outcome⟩ := before q publication' there
    rw [List.length_set]
    refine h.last q old has' ?_ (outcome.trans published)
    unfold Publication.Ends
    rw [state]
    exact ends
  · intro q publication' there awaited
    obtain ⟨old, has', -, outcome⟩ := before q publication' there
    rw [List.length_set]
    exact h.open_ q old has' (outcome.trans awaited)
  · intro q publishes
    obtain ⟨old, there, state, ended⟩ := h.publishing q publishes
    obtain ⟨publication', has', state', outcome⟩ := after q old there
    refine ⟨publication', has', state'.trans state, ?_⟩
    rw [outcome]
    exact ended

theorem publishReturns (h : call.Sound) {ok : Bool} (has : call.Has p publication) (awaited : publication.outcome = none)
    (delivered : ok = true → publication.delivered = true) : (call.publishReturns p publication ok).Sound := by
  have last := h.open_ p publication has awaited
  have other (q : ℕ) (publication' : Publication) (there : (call.publishReturns p publication ok).Has q publication') :
      q = p ∧ publication' = { publication with outcome := some ok } ∨ q ≠ p ∧ call.Has q publication' :=
    found_set there
  have length : (call.publishReturns p publication ok).publications.length = call.publications.length := by
    unfold HandledCall.publishReturns
    exact List.length_set
  -- A publication that has returned is another one.
  have kept (q : ℕ) (old : Publication) (there : call.Has q old) (returned : old.outcome ≠ none) :
      (call.publishReturns p publication ok).Has q old := by
    refine found_set_of_ne there ?_
    rintro rfl
    rw [there.unique has] at returned
    exact returned awaited
  refine ⟨?_, fun q publication' there => ?_, ?_, ?_, ?_, ?_, h.sent, h.started, ?_, ?_, ?_⟩
  · intro rejected
    have finalized := h.rejected rejected
    unfold HandledCall.publishReturns
    simp [finalized]
  · exact h.silent p publication has
  · intro finalized
    unfold HandledCall.publishReturns at finalized
    simp only [Bool.or_eq_true, Bool.and_eq_true, bne_iff_ne] at finalized
    rcases finalized with finalized | ⟨rfl, ends⟩
    · refine (h.finalized finalized).imp id ?_
      rintro ⟨q, old, there, ends, published⟩
      refine ⟨q, old, kept q old there ?_, ends, published⟩
      rw [published]
      simp
    · exact .inr ⟨p, _, set_found has, ends, rfl⟩
  · intro q publication' there published
    rcases other q publication' there with ⟨rfl, rfl⟩ | ⟨-, old⟩
    · exact delivered (Option.some.inj published)
    · exact h.delivered q publication' old published
  · intro q publication' there ends published
    rw [length]
    rcases other q publication' there with ⟨rfl, rfl⟩ | ⟨-, old⟩
    · refine ⟨?_, last⟩
      unfold HandledCall.publishReturns
      simp only [Bool.or_eq_true, Bool.and_eq_true, bne_iff_ne]
      exact .inr ⟨Option.some.inj published, ends⟩
    · obtain ⟨finalized, last⟩ := h.last q publication' old ends published
      refine ⟨?_, last⟩
      unfold HandledCall.publishReturns
      simp [finalized]
  · intro q publication' there awaited'
    rw [length]
    rcases other q publication' there with ⟨rfl, rfl⟩ | ⟨-, old⟩
    · cases awaited'
    · exact h.open_ q publication' old awaited'
  · unfold HandledCall.publishReturns
    dsimp only
    split_ifs
    · rintro (⟨⟨⟩⟩ | ⟨⟨⟩⟩)
    · intro skipped
      refine (h.skipped skipped).imp id ?_
      intro finalized
      simp [finalized]
  · unfold HandledCall.publishReturns
    dsimp only
    split_ifs
    · rintro ⟨⟩
    · exact h.created
  · intro q publishes
    by_cases own : call.failure = .publishing p
    · obtain ⟨publication', there, state, -⟩ := h.publishing p (.inl own)
      obtain rfl := has.unique there
      have same : q = p := by
        unfold HandledCall.publishReturns at publishes
        simp only [own, if_true, reduceCtorEq, false_or, FailureTask.ended.injEq, Option.some.injEq] at publishes
        exact publishes.symm
      subst same
      exact ⟨_, set_found has, state, by simp⟩
    · have same : (call.publishReturns p publication ok).failure = call.failure := if_neg own
      rw [same] at publishes ⊢
      obtain ⟨old, there, state, ended⟩ := h.publishing q publishes
      by_cases here : q = p
      · subst here
        obtain rfl := has.unique there
        rcases publishes with publishing | ended'
        · exact absurd publishing own
        · exact absurd awaited (ended ended')
      · exact ⟨old, found_set_of_ne there here, state, ended⟩

end Sound

end HandledCall

namespace Calls

variable {s t : Calls} {a : CallLabel} {c c' p q i : ℕ} {call call' : HandledCall} {caller caller' : Caller}
  {publication publication' : Publication} {state : CallState}

/-! ## The stream -/

theorem publication?_eq_some :
    s.publication? c p = some publication ↔ ∃ call, s.calls[c]? = some call ∧ call.Has p publication :=
  Option.bind_eq_some_iff

/-- What comes on the stream is delivered, and what comes late has begun late or failed. -/
structure Ordered (s : Calls) : Prop where
  mem_iff : ∀ c p, (c, p) ∈ s.stream ↔ ∃ publication, s.publication? c p = some publication ∧
    publication.delivered = true
  order : ∀ (i j : ℕ) c p q later, s.stream[i]? = some (c, p) → s.stream[j]? = some (c, q) → i < j →
    s.publication? c q = some later → p < q ∨ later.outcome = some false

/-- The same events are on the stream, and what has returned has. -/
structure Keeps (s t : Calls) : Prop where
  stream : t.stream = s.stream
  kept : ∀ c p old, s.publication? c p = some old → ∃ new, t.publication? c p = some new ∧ new.state = old.state ∧
    new.delivered = old.delivered ∧ ∀ ok, old.outcome = some ok → new.outcome = some ok
  fresh : ∀ c p new, t.publication? c p = some new → s.publication? c p = none → new.delivered = false

theorem Keeps.ordered (h : Keeps s t) (ordered : s.Ordered) : t.Ordered := by
  constructor
  · intro c p
    rw [h.stream, ordered.mem_iff]
    constructor
    · rintro ⟨old, there, delivered⟩
      obtain ⟨new, now, -, same, -⟩ := h.kept c p old there
      exact ⟨new, now, same.trans delivered⟩
    · rintro ⟨new, now, delivered⟩
      cases before : s.publication? c p with
      | none =>
        rw [h.fresh c p new now before] at delivered
        cases delivered
      | some old =>
        obtain ⟨new', now', -, same, -⟩ := h.kept c p old before
        cases now.symm.trans now'
        exact ⟨old, rfl, same.symm.trans delivered⟩
  · intro i j c p q later first second less there
    rw [h.stream] at first second
    obtain ⟨old, before, -⟩ := (ordered.mem_iff c q).1 (mem_of_found second)
    obtain ⟨new, now, -, -, outcome⟩ := h.kept c q old before
    cases there.symm.trans now
    exact (ordered.order i j c p q old first second less before).imp id (outcome false)

theorem reports_eq_some {position : ℕ} : s.reports c position = some state ↔
    ∃ p publication, s.stream[position]? = some (c, p) ∧ s.publication? c p = some publication ∧
      publication.state = state := by
  unfold reports
  constructor
  · intro reports
    split at reports
    · rename_i c' p there
      split_ifs at reports with same
      subst same
      obtain ⟨publication, here, rfl⟩ := Option.map_eq_some_iff.1 reports
      exact ⟨p, publication, there, here, rfl⟩
    · cases reports
  · rintro ⟨p, publication, there, here, rfl⟩
    rw [there]
    dsimp only
    rw [if_pos rfl, here, Option.map_some]

/-- What the stream reports stays so. -/
theorem Keeps.reports (h : Keeps s t) (ordered : s.Ordered) {position : ℕ} :
    t.reports c position = some state ↔ s.reports c position = some state := by
  rw [reports_eq_some, reports_eq_some]
  constructor
  · rintro ⟨p, new, there, now, rfl⟩
    rw [h.stream] at there
    obtain ⟨old, before, -⟩ := (ordered.mem_iff c p).1 (mem_of_found there)
    obtain ⟨new', now', same, -⟩ := h.kept c p old before
    cases now.symm.trans now'
    exact ⟨p, old, there, before, same.symm⟩
  · rintro ⟨p, old, there, before, rfl⟩
    obtain ⟨new, now, same, -⟩ := h.kept c p old before
    exact ⟨p, new, h.stream ▸ there, now, same⟩

/-! ## The callers -/

/-- The call is that of the caller's request. -/
def Mine (s : Calls) (i c : ℕ) : Prop :=
  ∃ call, s.calls[c]? = some call ∧ call.caller = i

/-- The call's events up to a position report no end. -/
def Runs (s : Calls) (c position : ℕ) : Prop :=
  ∀ before < position, ∀ state, s.reports c before = some state → state = .running

structure CallerSound (s : Calls) (i : ℕ) (caller : Caller) : Prop where
  consumed_le : caller.consumed ≤ caller.received
  received_le : caller.received ≤ s.stream.length
  since_le : caller.since ≤ s.stream.length
  unsent : caller.phase = .requested none → ∀ c, ¬ s.Mine i c
  requested : ∀ c, caller.phase = .requested c → caller.consumed = caller.since
  named : ∀ c, caller.phase = .requested (some c) ∨ caller.phase = .following c → s.Mine i c
  follows : ∀ c, caller.phase = .following c → s.Runs c caller.consumed
  settles : ∀ c position, caller.phase = .settled (.ended c position) → s.Mine i c ∧
    (∃ state, s.reports c position = some state ∧ state ≠ .running) ∧ s.Runs c position

structure Inv (s : Calls) : Prop where
  sound : ∀ (c : ℕ) call, s.calls[c]? = some call → call.Sound
  ordered : s.Ordered
  callers : ∀ (i : ℕ) caller, s.callers[i]? = some caller → s.CallerSound i caller
  known : ∀ (c : ℕ) call, s.calls[c]? = some call → ∃ caller, s.callers[call.caller]? = some caller
  once : ∀ (c c' : ℕ) call call', s.calls[c]? = some call → s.calls[c']? = some call' → call.caller = call'.caller →
    c = c'
  own : ∀ (c j p : ℕ) call caller, s.calls[c]? = some call → s.callers[call.caller]? = some caller →
    s.stream[j]? = some (c, p) → caller.since ≤ j
  replies : ∀ (c : ℕ) call, s.calls[c]? = some call →
    (s.replies.filter (·.1 = c)).length = (if call.sent = none then 0 else 1)
  replied : ∀ c, s.calls.length ≤ c → s.replies.filter (·.1 = c) = []

theorem inv_start : Inv {} := by
  refine ⟨by simp, ⟨?_, by simp⟩, by simp, by simp, by simp, by simp, by simp, by simp⟩
  intro c p
  simp [publication?]

/-! ## A change of one call -/

theorem Keeps.callerSound (h : Keeps s t) (ordered : s.Ordered) (mine : ∀ c, t.Mine i c ↔ s.Mine i c)
    (sound : s.CallerSound i caller) : t.CallerSound i caller := by
  have runs (c position : ℕ) (runs : s.Runs c position) : t.Runs c position := by
    intro before less state reports
    exact runs before less state ((h.reports ordered).1 reports)
  refine ⟨sound.consumed_le, ?_, ?_, ?_, sound.requested, ?_, ?_, ?_⟩
  · rw [h.stream]
    exact sound.received_le
  · rw [h.stream]
    exact sound.since_le
  · intro unsent c own
    exact sound.unsent unsent c ((mine c).1 own)
  · intro c named
    exact (mine c).2 (sound.named c named)
  · intro c following
    exact runs c _ (sound.follows c following)
  · intro c position settled
    obtain ⟨own, ⟨state, reports, ends⟩, first⟩ := sound.settles c position settled
    exact ⟨(mine c).2 own, ⟨state, (h.reports ordered).2 reports, ends⟩, runs c _ first⟩

/-! A call is replaced by one of the same caller. -/

section Replaced

variable (here : s.calls[c]? = some call) (calls : t.calls = s.calls.set c call') (whose : call'.caller = call.caller)

include here calls whose

theorem mine_of_set (i k : ℕ) : t.Mine i k ↔ s.Mine i k := by
  unfold Mine
  rw [calls]
  constructor
  · rintro ⟨found, there, same⟩
    rcases found_set there with ⟨rfl, rfl⟩ | ⟨-, there⟩
    · exact ⟨call, here, whose.symm.trans same⟩
    · exact ⟨found, there, same⟩
  · rintro ⟨found, there, same⟩
    by_cases eq : k = c
    · subst eq
      cases here.symm.trans there
      exact ⟨call', set_found here, whose.trans same⟩
    · exact ⟨found, found_set_of_ne there eq, same⟩

/-- A call after the step is one before it, of the same caller. -/
theorem before_of_set {k : ℕ} {found : HandledCall} (there : t.calls[k]? = some found) :
    ∃ old, s.calls[k]? = some old ∧ found.caller = old.caller := by
  obtain ⟨old, there, same⟩ := (mine_of_set here calls whose _ k).1 ⟨found, there, rfl⟩
  exact ⟨old, there, same.symm⟩

theorem known_of_set (h : s.Inv) (callers : t.callers = s.callers) (k : ℕ) (found : HandledCall)
    (there : t.calls[k]? = some found) : ∃ caller, t.callers[found.caller]? = some caller := by
  obtain ⟨old, there, same⟩ := before_of_set here calls whose there
  rw [callers, same]
  exact h.known k old there

theorem once_of_set (h : s.Inv) (k k' : ℕ) (found found' : HandledCall) (there : t.calls[k]? = some found)
    (there' : t.calls[k']? = some found') (same : found.caller = found'.caller) : k = k' := by
  obtain ⟨old, there, eq⟩ := before_of_set here calls whose there
  obtain ⟨old', there', eq'⟩ := before_of_set here calls whose there'
  exact h.once k k' old old' there there' (eq.symm.trans (same.trans eq'))

end Replaced

/-- The call goes on; it may be replied to. -/
structure CallTurn (s t : Calls) (c : ℕ) (call call' : HandledCall) : Prop where
  here : s.calls[c]? = some call
  calls : t.calls = s.calls.set c call'
  stream : t.stream = s.stream
  callers : t.callers = s.callers
  caller : call'.caller = call.caller
  kept : ∀ p old, call.Has p old → ∃ new, call'.Has p new ∧ new.state = old.state ∧ new.delivered = old.delivered ∧
    ∀ ok, old.outcome = some ok → new.outcome = some ok
  fresh : ∀ p new, call'.Has p new → call.publications[p]? = none → new.delivered = false
  replies : (t.replies = s.replies ∧ call'.sent = call.sent) ∨
    ∃ reply, t.replies = s.replies ++ [(c, reply)] ∧ call.sent = none ∧ call'.sent = some reply

namespace CallTurn

theorem keeps (h : CallTurn s t c call call') : Keeps s t := by
  refine ⟨h.stream, ?_, ?_⟩
  · intro k p old before
    obtain ⟨found, there, has⟩ := publication?_eq_some.1 before
    by_cases same : k = c
    · subst same
      cases h.here.symm.trans there
      obtain ⟨new, now, rest⟩ := h.kept p old has
      refine ⟨new, publication?_eq_some.2 ⟨call', ?_, now⟩, rest⟩
      rw [h.calls]
      exact set_found h.here
    · refine ⟨old, publication?_eq_some.2 ⟨found, ?_, has⟩, rfl, rfl, fun _ => id⟩
      rw [h.calls]
      exact found_set_of_ne there same
  · intro k p new now before
    obtain ⟨found, there, has⟩ := publication?_eq_some.1 now
    rw [h.calls] at there
    rcases found_set there with ⟨rfl, rfl⟩ | ⟨-, there⟩
    · refine h.fresh p new has ?_
      unfold publication? at before
      rw [h.here] at before
      exact before
    · rw [publication?_eq_some.2 ⟨found, there, has⟩] at before
      cases before

theorem mine (h : CallTurn s t c call call') (k : ℕ) : t.Mine i k ↔ s.Mine i k :=
  mine_of_set h.here h.calls h.caller i k

theorem inv (h : CallTurn s t c call call') (inv : s.Inv) (sound : call'.Sound) : t.Inv := by
  have length : t.calls.length = s.calls.length := by
    rw [h.calls, List.length_set]
  refine ⟨?_, h.keeps.ordered inv.ordered, ?_, ?_, ?_, ?_, ?_, ?_⟩
  · intro k found there
    rw [h.calls] at there
    rcases found_set there with ⟨rfl, rfl⟩ | ⟨-, there⟩
    · exact sound
    · exact inv.sound k found there
  · intro i caller there
    rw [h.callers] at there
    exact h.keeps.callerSound inv.ordered h.mine (inv.callers i caller there)
  · exact known_of_set h.here h.calls h.caller inv h.callers
  · exact once_of_set h.here h.calls h.caller inv
  · intro k j p found caller there whose position
    obtain ⟨old, there, eq⟩ := before_of_set h.here h.calls h.caller there
    rw [h.callers, eq] at whose
    rw [h.stream] at position
    exact inv.own k j p old caller there whose position
  · intro k found there
    rw [h.calls] at there
    rcases h.replies with ⟨replies, sent⟩ | ⟨reply, replies, unsent, sent⟩
    · rw [replies]
      rcases found_set there with ⟨rfl, rfl⟩ | ⟨-, there⟩
      · rw [sent]
        exact inv.replies k call h.here
      · exact inv.replies k found there
    · rw [replies, List.filter_append, List.length_append]
      rcases found_set there with ⟨rfl, rfl⟩ | ⟨other, there⟩
      · rw [inv.replies k call h.here, sent, unsent]
        simp
      · rw [inv.replies k found there]
        simp [Ne.symm other]
  · intro k new
    rw [length] at new
    rcases h.replies with ⟨replies, -⟩ | ⟨reply, replies, -⟩
    · rw [replies]
      exact inv.replied k new
    · have bound := lt_of_found h.here
      have other : c ≠ k := by omega
      rw [replies, List.filter_append, inv.replied k new]
      simp [other]

end CallTurn

/-- A turn that publishes nothing and sends no reply. -/
theorem turn_setCall (here : s.calls[c]? = some call) (whose : call'.caller = call.caller)
    (publications : call'.publications = call.publications) (sent : call'.sent = call.sent) :
    CallTurn s (s.setCall c call') c call call' := by
  refine ⟨here, rfl, rfl, rfl, whose, ?_, ?_, .inl ⟨rfl, sent⟩⟩
  · intro p old has
    refine ⟨old, ?_, rfl, rfl, fun _ => id⟩
    unfold HandledCall.Has
    rw [publications]
    exact has
  · intro p new has before
    unfold HandledCall.Has at has
    rw [publications, before] at has
    cases has

/-- A turn that begins a publication. -/
theorem turn_publish (here : s.calls[c]? = some call) (whose : call'.caller = call.caller)
    (publications : call'.publications = call.publications ++ [({ state } : Publication)]) (sent : call'.sent = call.sent) :
    CallTurn s (s.setCall c call') c call call' := by
  refine ⟨here, rfl, rfl, rfl, whose, ?_, ?_, .inl ⟨rfl, sent⟩⟩
  · intro p old has
    refine ⟨old, ?_, rfl, rfl, fun _ => id⟩
    unfold HandledCall.Has
    rw [publications]
    exact found_snoc_of_found has
  · intro p new has before
    unfold HandledCall.Has at has
    rw [publications] at has
    rcases found_snoc has with has | ⟨-, rfl⟩
    · rw [before] at has
      cases has
    · rfl

theorem Inv.respond (h : s.Inv) {response : Response} (hs : s.step (.respond c response) = some t) : t.Inv := by
  obtain ⟨call, here, hs⟩ := Option.bind_eq_some_iff.1 hs
  obtain ⟨call', responds, ⟨⟩⟩ := Option.bind_eq_some_iff.1 hs
  have sound := (h.sound c call here).respond responds
  obtain ⟨-, -, rfl⟩ := HandledCall.respond_eq_some responds
  exact (turn_setCall here (by rfl) (by rfl) (by rfl)).inv h sound

theorem Inv.exit (h : s.Inv) {cancelled : Bool} (hs : s.step (.exit c cancelled) = some t) : t.Inv := by
  obtain ⟨call, here, hs⟩ := Option.bind_eq_some_iff.1 hs
  obtain ⟨running, ⟨⟩⟩ := Option.ite_none_right_eq_some.1 hs
  exact (turn_setCall here (by rfl) (by rfl) (by rfl)).inv h ((h.sound c call here).exit running)

theorem Inv.serve (h : s.Inv) (hs : s.step (.serve c) = some t) : t.Inv := by
  obtain ⟨call, here, hs⟩ := Option.bind_eq_some_iff.1 hs
  obtain ⟨unsent, hs⟩ := Option.ite_none_right_eq_some.1 hs
  obtain ⟨reply, answer, ⟨⟩⟩ := Option.bind_eq_some_iff.1 hs
  have turn : CallTurn s (setCall { s with replies := s.replies ++ [(c, reply)] } c { call with sent := some reply }) c
      call { call with sent := some reply } := by
    refine ⟨here, rfl, rfl, rfl, rfl, fun _ old has => ⟨old, has, rfl, rfl, fun _ => id⟩, ?_,
      .inr ⟨reply, rfl, unsent, rfl⟩⟩
    intro p new has before
    have has : call.publications[p]? = some new := has
    rw [before] at has
    cases has
  exact turn.inv h ((h.sound c call here).serve answer)

theorem Inv.callback (h : s.Inv) (hs : s.step (.callback c) = some t) : t.Inv := by
  obtain ⟨call, here, hs⟩ := Option.bind_eq_some_iff.1 hs
  split at hs
  · rename_i response cancelled sent exited _
    cases hs
    exact (turn_setCall here (by rfl) (by rfl) (by rfl)).inv h ((h.sound c call here).failAbandoned exited sent)
  · cases hs

theorem Inv.publish (h : s.Inv) (one : s.OneByOne (.publish c state)) (hs : s.step (.publish c state) = some t) :
    t.Inv := by
  obtain ⟨call, here, hs⟩ := Option.bind_eq_some_iff.1 hs
  obtain ⟨call', publishes, ⟨⟩⟩ := Option.bind_eq_some_iff.1 hs
  have sound := (h.sound c call here).callEvent (one call here) publishes
  obtain ⟨-, -, rfl⟩ := HandledCall.callEvent_eq_some publishes
  exact (turn_publish here (by rfl) (by rfl) (by rfl)).inv h sound

theorem Inv.runFailure (h : s.Inv) (one : s.OneByOne (.runFailure c)) (hs : s.step (.runFailure c) = some t) :
    t.Inv := by
  obtain ⟨call, here, hs⟩ := Option.bind_eq_some_iff.1 hs
  obtain ⟨created, ⟨⟩⟩ := Option.ite_none_right_eq_some.1 hs
  have sound := (h.sound c call here).runFailure (one call here) created
  unfold HandledCall.runFailure at sound ⊢
  split at sound
  · rename_i call' publishes
    obtain ⟨-, -, rfl⟩ := HandledCall.callEvent_eq_some publishes
    exact (turn_publish here (by rfl) (by rfl) (by rfl)).inv h sound
  · exact (turn_setCall here (by rfl) (by rfl) (by rfl)).inv h sound

theorem Inv.publishReturns (h : s.Inv) {ok : Bool} (hs : s.step (.publishReturns c p ok) = some t) : t.Inv := by
  obtain ⟨call, here, hs⟩ := Option.bind_eq_some_iff.1 hs
  obtain ⟨publication, has, hs⟩ := Option.bind_eq_some_iff.1 hs
  obtain ⟨⟨awaited, delivered⟩, ⟨⟩⟩ := Option.ite_none_right_eq_some.1 hs
  have turn : CallTurn s (s.setCall c (call.publishReturns p publication ok)) c call
      (call.publishReturns p publication ok) := by
    refine ⟨here, rfl, rfl, rfl, rfl, ?_, ?_, .inl ⟨rfl, rfl⟩⟩
    · intro q old there
      by_cases same : q = p
      · subst same
        obtain rfl := HandledCall.Has.unique there has
        refine ⟨{ old with outcome := some ok }, set_found has, rfl, rfl, ?_⟩
        intro ok' returned
        rw [awaited] at returned
        cases returned
      · exact ⟨old, found_set_of_ne there same, rfl, rfl, fun _ => id⟩
    · intro q new there before
      rcases found_set there with ⟨rfl, -⟩ | ⟨-, there⟩
      · rw [show call.publications[q]? = some publication from has] at before
        cases before
      · rw [before] at there
        cases there
  exact turn.inv h ((h.sound c call here).publishReturns has awaited delivered)

/-! ## An event is delivered -/

/-- The state after the delivery of the call's publication. -/
def delivered (s : Calls) (c p : ℕ) (call : HandledCall) (publication : Publication) : Calls :=
  { s with stream := s.stream ++ [(c, p)] }.setCall c
    { call with publications := call.publications.set p { publication with delivered := true } }

section Delivery

variable {k j position : ℕ} (here : s.calls[c]? = some call) (has : call.Has p publication)

include here has

theorem publication?_delivered_self :
    (s.delivered c p call publication).publication? c p = some { publication with delivered := true } :=
  publication?_eq_some.2 ⟨_, set_found here, set_found has⟩

theorem publication?_delivered_of_ne (ne : ¬ (k = c ∧ q = p)) :
    (s.delivered c p call publication).publication? k q = s.publication? k q := by
  ext new
  rw [publication?_eq_some, publication?_eq_some]
  unfold delivered setCall
  constructor
  · rintro ⟨found, there, now⟩
    rcases found_set there with ⟨rfl, rfl⟩ | ⟨-, there⟩
    · rcases found_set now with ⟨rfl, -⟩ | ⟨-, now⟩
      · exact absurd ⟨rfl, rfl⟩ ne
      · exact ⟨call, here, now⟩
    · exact ⟨found, there, now⟩
  · rintro ⟨found, there, now⟩
    by_cases same : k = c
    · subst same
      cases here.symm.trans there
      exact ⟨_, set_found here, found_set_of_ne now fun eq => ne ⟨rfl, eq⟩⟩
    · exact ⟨found, found_set_of_ne there same, now⟩

/-- What has been on the stream reports the same. -/
theorem reports_delivered (early : position < s.stream.length) :
    (s.delivered c p call publication).reports k position = s.reports k position := by
  have stream : (s.delivered c p call publication).stream[position]? = s.stream[position]? :=
    List.getElem?_append_left early
  unfold reports
  rw [stream]
  split
  · rename_i c' q _
    split_ifs
    · by_cases same : k = c ∧ q = p
      · obtain ⟨rfl, rfl⟩ := same
        rw [publication?_delivered_self here has, publication?_eq_some.2 ⟨call, here, has⟩]
        rfl
      · rw [publication?_delivered_of_ne here has same]
    · rfl
  · rfl

theorem ordered_delivered (h : s.Inv) (new : publication.delivered = false) :
    (s.delivered c p call publication).Ordered := by
  have absent : (c, p) ∉ s.stream := by
    intro mem
    obtain ⟨old, there, delivered⟩ := (h.ordered.mem_iff c p).1 mem
    rw [publication?_eq_some.2 ⟨call, here, has⟩] at there
    cases there
    rw [new] at delivered
    cases delivered
  constructor
  · intro k q
    by_cases same : k = c ∧ q = p
    · obtain ⟨rfl, rfl⟩ := same
      rw [publication?_delivered_self here has]
      simp [delivered, setCall]
    · rw [publication?_delivered_of_ne here has same, ← h.ordered.mem_iff]
      unfold delivered setCall
      rw [List.mem_append, List.mem_singleton, Prod.mk.injEq]
      exact or_iff_left same
  · intro i j k q q' later first second less there
    rcases found_snoc second with old | ⟨rfl, ⟨⟩⟩
    · have before : s.stream[i]? = some (k, q) := by
        refine (List.getElem?_append_left ?_).symm.trans first
        exact Nat.lt_trans less (lt_of_found old)
      have other : ¬ (k = c ∧ q' = p) := by
        rintro ⟨rfl, rfl⟩
        exact absent (mem_of_found old)
      rw [publication?_delivered_of_ne here has other] at there
      exact h.ordered.order i j k q q' later before old less there
    · have before : s.stream[i]? = some (c, q) := (List.getElem?_append_left less).symm.trans first
      rw [publication?_delivered_self here has] at there
      cases there
      -- A publication after it has begun: so this one has returned, and not published.
      refine (Nat.lt_or_ge q p).imp id ?_
      intro after
      obtain ⟨old, there, -⟩ := (h.ordered.mem_iff c q).1 (mem_of_found before)
      obtain ⟨found, same, begun⟩ := publication?_eq_some.1 there
      cases here.symm.trans same
      have ne : q ≠ p := by
        rintro rfl
        exact absent (mem_of_found before)
      have bound := lt_of_found begun
      have sound := h.sound c call here
      cases outcome : publication.outcome with
      | none =>
        have last := sound.open_ p publication has outcome
        omega
      | some ok =>
        cases ok with
        | false => rfl
        | true =>
          have delivered := sound.delivered p publication has outcome
          rw [new] at delivered
          cases delivered

theorem Inv.delivered (h : s.Inv) (new : publication.delivered = false) : (s.delivered c p call publication).Inv := by
  have mine := mine_of_set here (t := s.delivered c p call publication) rfl rfl
  have runs (k position : ℕ) (early : position ≤ s.stream.length) (runs : s.Runs k position) :
      (s.delivered c p call publication).Runs k position := by
    intro at_ less state reports
    rw [reports_delivered here has (Nat.lt_of_lt_of_le less early)] at reports
    exact runs at_ less state reports
  refine ⟨?_, ordered_delivered here has h new, ?_, ?_, ?_, ?_, ?_, ?_⟩
  · intro k found there
    rcases found_set there with ⟨rfl, rfl⟩ | ⟨-, there⟩
    · exact (h.sound k call here).deliver has
    · exact h.sound k found there
  · intro i caller there
    have sound := h.callers i caller there
    have longer : s.stream.length ≤ (s.delivered c p call publication).stream.length := by
      simp [Calls.delivered, setCall]
    refine ⟨sound.consumed_le, Nat.le_trans sound.received_le longer, Nat.le_trans sound.since_le longer, ?_, sound.requested,
      ?_, ?_, ?_⟩
    · intro unsent k own
      exact sound.unsent unsent k ((mine i k).1 own)
    · intro k named
      exact (mine i k).2 (sound.named k named)
    · intro k following
      exact runs k _ (Nat.le_trans sound.consumed_le sound.received_le) (sound.follows k following)
    · intro k position settled
      obtain ⟨own, ⟨state, reports, ends⟩, first⟩ := sound.settles k position settled
      obtain ⟨q, old, at_, -⟩ := reports_eq_some.1 reports
      have early := lt_of_found at_
      refine ⟨(mine i k).2 own, ⟨state, ?_, ends⟩, runs k position (Nat.le_of_lt early) first⟩
      rw [reports_delivered here has early]
      exact reports
  · exact known_of_set here rfl rfl h rfl
  · exact once_of_set here rfl rfl h
  · intro k j q found caller there whose position
    obtain ⟨old, there, eq⟩ := before_of_set (t := s.delivered c p call publication) here rfl rfl there
    rw [eq] at whose
    rcases found_snoc position with position | ⟨rfl, -⟩
    · exact h.own k j q old caller there whose position
    · exact (h.callers old.caller caller whose).since_le
  · intro k found there
    rcases found_set there with ⟨rfl, rfl⟩ | ⟨-, there⟩
    · exact h.replies k call here
    · exact h.replies k found there
  · intro k late
    refine h.replied k ?_
    unfold Calls.delivered setCall at late
    rw [List.length_set] at late
    exact late

end Delivery

theorem Inv.deliver (h : s.Inv) (hs : s.step (.deliver c p) = some t) : t.Inv := by
  obtain ⟨call, here, hs⟩ := Option.bind_eq_some_iff.1 hs
  obtain ⟨publication, has, hs⟩ := Option.bind_eq_some_iff.1 hs
  obtain ⟨new, ⟨⟩⟩ := Option.ite_none_left_eq_some.1 hs
  exact h.delivered here has (Bool.eq_false_iff.2 new)

/-! ## The caller goes on -/

theorem Inv.invoke (h : s.Inv) {since : ℕ} (hs : s.step (.invoke since) = some t) : t.Inv := by
  obtain ⟨bound, ⟨⟩⟩ := Option.ite_none_right_eq_some.1 hs
  have old (c : ℕ) (call : HandledCall) (here : s.calls[c]? = some call) (caller : Caller)
      (there : (s.callers ++ [({ since } : Caller)])[call.caller]? = some caller) : s.callers[call.caller]? = some caller := by
    obtain ⟨known, at_⟩ := h.known c call here
    rw [List.getElem?_append_left (lt_of_found at_)] at there
    exact there
  refine ⟨h.sound, ⟨h.ordered.mem_iff, h.ordered.order⟩, ?_, ?_, h.once, ?_, h.replies, h.replied⟩
  · intro i caller there
    rcases found_snoc there with there | ⟨rfl, rfl⟩
    · have sound := h.callers i caller there
      exact ⟨sound.consumed_le, sound.received_le, sound.since_le, sound.unsent, sound.requested, sound.named,
        sound.follows, sound.settles⟩
    · refine ⟨Nat.le_refl _, bound, bound, ?_, fun _ _ => rfl, by simp, by simp, by simp⟩
      rintro - c ⟨call, here, own⟩
      obtain ⟨known, at_⟩ := h.known c call here
      rw [own] at at_
      exact absurd (lt_of_found at_) (Nat.lt_irrefl _)
  · intro c call here
    obtain ⟨known, at_⟩ := h.known c call here
    exact ⟨known, found_snoc_of_found at_⟩
  · intro c j p call caller here there position
    exact h.own c j p call caller here (old c call here caller there) position

/-- A caller goes on, and keeps the position of its subscription. -/
theorem Inv.setCaller (h : s.Inv) (here : s.callers[i]? = some caller) (since : caller'.since = caller.since)
    (sound : s.CallerSound i caller') : (s.setCaller i caller').Inv := by
  refine ⟨h.sound, ⟨h.ordered.mem_iff, h.ordered.order⟩, ?_, ?_, h.once, ?_, h.replies, h.replied⟩
  · intro k found there
    have kept (sound : s.CallerSound k found) : (s.setCaller i caller').CallerSound k found :=
      ⟨sound.consumed_le, sound.received_le, sound.since_le, sound.unsent, sound.requested, sound.named,
        sound.follows, sound.settles⟩
    rcases found_set there with ⟨rfl, rfl⟩ | ⟨-, there⟩
    · exact kept sound
    · exact kept (h.callers k found there)
  · intro c call there
    obtain ⟨known, at_⟩ := h.known c call there
    by_cases same : call.caller = i
    · rw [same]
      exact ⟨caller', set_found here⟩
    · exact ⟨known, found_set_of_ne at_ same⟩
  · intro c j p call found there at_ position
    rcases found_set at_ with ⟨same, rfl⟩ | ⟨-, at_⟩
    · rw [since]
      exact h.own c j p call caller there (same ▸ here) position
    · exact h.own c j p call found there at_ position

/-- Before the position of the caller's subscription, there is nothing of its call. -/
theorem Inv.runs_since (h : s.Inv) (here : s.callers[i]? = some caller) (mine : s.Mine i c) : s.Runs c caller.since := by
  intro before less state reports
  obtain ⟨call, there, own⟩ := mine
  obtain ⟨p, publication, at_, -⟩ := reports_eq_some.1 reports
  have bound := h.own c before p call caller there (own ▸ here) at_
  omega

theorem Inv.receiveReply (h : s.Inv) (hs : s.step (.receiveReply i) = some t) : t.Inv := by
  obtain ⟨caller, here, hs⟩ := Option.bind_eq_some_iff.1 hs
  have sound := h.callers i caller here
  split at hs
  · rename_i c requested
    obtain ⟨reply, -, ⟨⟩⟩ := Option.bind_eq_some_iff.1 hs
    have own := sound.named c (.inl requested)
    split_ifs
    · refine h.setCaller here rfl ⟨sound.consumed_le, sound.received_le, sound.since_le, by simp, by simp, ?_, ?_, by simp⟩
      · rintro k (⟨⟨⟩⟩ | ⟨⟨⟩⟩)
        exact own
      · rintro k ⟨⟩
        show s.Runs c caller.consumed
        rw [sound.requested _ requested]
        exact h.runs_since here own
    · exact h.setCaller here rfl ⟨sound.consumed_le, sound.received_le, sound.since_le, by simp, by simp, by simp, by simp,
        by simp⟩
  · cases hs

theorem Inv.receive (h : s.Inv) (hs : s.step (.receive i) = some t) : t.Inv := by
  obtain ⟨caller, here, hs⟩ := Option.bind_eq_some_iff.1 hs
  obtain ⟨more, ⟨⟩⟩ := Option.ite_none_right_eq_some.1 hs
  have sound := h.callers i caller here
  exact h.setCaller here rfl ⟨Nat.le_succ_of_le sound.consumed_le, more, sound.since_le, sound.unsent, sound.requested,
    sound.named, sound.follows, sound.settles⟩

theorem follow_of_runs (running : ∀ state, s.reports c caller.consumed = some state → state = .running) :
    s.follow c caller = { caller with consumed := caller.consumed + 1 } := by
  unfold follow
  cases reports : s.reports c caller.consumed with
  | none => rfl
  | some state =>
    rw [running state reports]

theorem follow_of_ends (reports : s.reports c caller.consumed = some state) (ends : state ≠ .running) :
    s.follow c caller =
      { caller with consumed := caller.consumed + 1, phase := .settled (.ended c caller.consumed) } := by
  unfold follow
  cases state with
  | running => exact absurd rfl ends
  | success => rw [reports]
  | failure => rw [reports]

theorem Inv.next (h : s.Inv) (hs : s.step (.next i) = some t) : t.Inv := by
  obtain ⟨caller, here, hs⟩ := Option.bind_eq_some_iff.1 hs
  have sound := h.callers i caller here
  split at hs
  · rename_i c following
    obtain ⟨waits, ⟨⟩⟩ := Option.ite_none_right_eq_some.1 hs
    have passed := sound.follows c following
    by_cases running : ∀ state, s.reports c caller.consumed = some state → state = .running
    · rw [follow_of_runs running]
      refine h.setCaller here rfl ⟨waits, sound.received_le, sound.since_le, sound.unsent, ?_, sound.named, ?_,
        sound.settles⟩
      · intro k requested
        cases following.symm.trans requested
      · intro k following'
        cases following.symm.trans following'
        intro before less state reports
        rcases Nat.lt_succ_iff_lt_or_eq.1 less with less | rfl
        · exact passed before less state reports
        · exact running state reports
    · simp only [not_forall] at running
      obtain ⟨state, reports, ends⟩ := running
      rw [follow_of_ends reports ends]
      refine h.setCaller here rfl ⟨waits, sound.received_le, sound.since_le, by simp, by simp, by simp, by simp, ?_⟩
      rintro k position ⟨⟩
      exact ⟨sound.named c (.inr following), ⟨state, reports, ends⟩, passed⟩
  · cases hs

theorem Inv.giveUp (h : s.Inv) {timeout : Bool} (hs : s.step (.giveUp i timeout) = some t) : t.Inv := by
  obtain ⟨caller, here, hs⟩ := Option.bind_eq_some_iff.1 hs
  have sound := h.callers i caller here
  split at hs
  · cases hs
  · cases hs
    refine h.setCaller here rfl ⟨sound.consumed_le, sound.received_le, sound.since_le, by simp, by simp, by simp, by simp,
      ?_⟩
    cases timeout <;> simp

/-! ## A request arrives -/

theorem Inv.arrived (h : s.Inv) (here : s.callers[i]? = some caller) (unsent : caller.phase = .requested none)
    {new : HandledCall} (own : new.caller = i) (sound : new.Sound) (silent : new.publications = [])
    {replies : List (ℕ × ReplyState)} (replied : replies = s.replies ∧ new.sent = none ∨
      ∃ reply, replies = s.replies ++ [(s.calls.length, reply)] ∧ new.sent = some reply) :
    Inv { s.setCaller i { caller with phase := .requested (some s.calls.length) } with
      calls := s.calls ++ [new]
      replies } := by
  let caller' : Caller := { caller with phase := .requested (some s.calls.length) }
  let t : Calls := { s.setCaller i caller' with calls := s.calls ++ [new], replies }
  have none_ (c : ℕ) (call : HandledCall) (there : s.calls[c]? = some call) : call.caller ≠ i :=
    fun same => (h.callers i caller here).unsent unsent c ⟨call, there, same⟩
  have keeps : Keeps s t := by
    refine ⟨rfl, ?_, ?_⟩
    · intro c p old before
      obtain ⟨call, there, has⟩ := publication?_eq_some.1 before
      exact ⟨old, publication?_eq_some.2 ⟨call, found_snoc_of_found there, has⟩, rfl, rfl, fun _ => id⟩
    · intro c p old now before
      obtain ⟨call, there, has⟩ := publication?_eq_some.1 now
      rcases found_snoc there with there | ⟨-, rfl⟩
      · rw [publication?_eq_some.2 ⟨call, there, has⟩] at before
        cases before
      · unfold HandledCall.Has at has
        rw [silent] at has
        cases has
  have mine (k c : ℕ) (other : k ≠ i) : t.Mine k c ↔ s.Mine k c := by
    constructor
    · rintro ⟨call, there, same⟩
      rcases found_snoc there with there | ⟨-, rfl⟩
      · exact ⟨call, there, same⟩
      · exact absurd (same.symm.trans own) other
    · rintro ⟨call, there, same⟩
      exact ⟨call, found_snoc_of_found there, same⟩
  refine ⟨?_, keeps.ordered h.ordered, ?_, ?_, ?_, ?_, ?_, ?_⟩
  · intro c call there
    rcases found_snoc there with there | ⟨-, rfl⟩
    · exact h.sound c call there
    · exact sound
  · intro k found there
    rcases found_set there with ⟨rfl, rfl⟩ | ⟨other, there⟩
    · have before := h.callers k caller here
      refine ⟨before.consumed_le, before.received_le, before.since_le, by simp, ?_, ?_, by simp, by simp⟩
      · intro _ _
        exact before.requested none unsent
      · rintro c (⟨⟨⟩⟩ | ⟨⟨⟩⟩)
        exact ⟨new, List.getElem?_concat_length, own⟩
    · exact keeps.callerSound h.ordered (fun c => mine k c other) (h.callers k found there)
  · intro c call there
    rcases found_snoc there with there | ⟨-, rfl⟩
    · obtain ⟨known, at_⟩ := h.known c call there
      exact ⟨known, found_set_of_ne at_ (none_ c call there)⟩
    · rw [own]
      exact ⟨caller', set_found here⟩
  · intro c c' call call' there there' same
    rcases found_snoc there with old | ⟨rfl, rfl⟩
    · rcases found_snoc there' with old' | ⟨-, rfl⟩
      · exact h.once c c' call call' old old' same
      · exact absurd (same.trans own) (none_ c call old)
    · rcases found_snoc there' with old' | ⟨rfl, -⟩
      · exact absurd (same.symm.trans own) (none_ c' call' old')
      · rfl
  · intro c j p call found there at_ position
    have position : s.stream[j]? = some (c, p) := position
    rcases found_snoc there with there | ⟨rfl, -⟩
    · rcases found_set at_ with ⟨same, -⟩ | ⟨-, at_⟩
      · exact absurd same (none_ c call there)
      · exact h.own c j p call found there at_ position
    · obtain ⟨old, before, -⟩ := (h.ordered.mem_iff _ p).1 (mem_of_found position)
      obtain ⟨call, there, -⟩ := publication?_eq_some.1 before
      exact absurd (lt_of_found there) (Nat.lt_irrefl _)
  · intro c call there
    rcases replied with ⟨rfl, unsent⟩ | ⟨reply, rfl, sent⟩
    · rcases found_snoc there with there | ⟨rfl, rfl⟩
      · exact h.replies c call there
      · rw [unsent]
        exact congrArg List.length (h.replied _ (Nat.le_refl _))
    · dsimp only
      rw [List.filter_append, List.length_append]
      rcases found_snoc there with there | ⟨rfl, rfl⟩
      · have other : s.calls.length ≠ c := (Nat.ne_of_lt (lt_of_found there)).symm
        rw [h.replies c call there]
        simp [other]
      · rw [h.replied _ (Nat.le_refl _), sent]
        simp
  · intro c late
    have later : s.calls.length < c := by
      rw [List.length_append] at late
      exact late
    rcases replied with ⟨rfl, -⟩ | ⟨reply, rfl, -⟩
    · exact h.replied c (Nat.le_of_lt later)
    · have other : s.calls.length ≠ c := Nat.ne_of_lt later
      dsimp only
      rw [List.filter_append, h.replied c (Nat.le_of_lt later)]
      simp [other]

theorem Inv.arrive (h : s.Inv) {arrival : Arrival} (hs : s.step (.arrive i arrival) = some t) : t.Inv := by
  obtain ⟨caller, here, hs⟩ := Option.bind_eq_some_iff.1 hs
  obtain ⟨unsent, hs⟩ := Option.ite_none_right_eq_some.1 hs
  cases arrival with
  | valid =>
    cases hs
    exact h.arrived here unsent rfl HandledCall.sound_start rfl (.inl ⟨rfl, rfl⟩)
  | late =>
    cases hs
    exact h.arrived here unsent rfl (HandledCall.sound_refused (by simp)) rfl (.inr ⟨_, rfl, rfl⟩)
  | malformed =>
    cases hs
    exact h.arrived here unsent rfl (HandledCall.sound_refused (by simp)) rfl (.inr ⟨_, rfl, rfl⟩)

/-- **Each step keeps the protocol**, if the events of a call are published one after the other. -/
theorem Inv.step (h : s.Inv) (one : s.OneByOne a) (hs : s.step a = some t) : t.Inv := by
  cases a with
  | invoke since => exact h.invoke hs
  | arrive i arrival => exact h.arrive hs
  | respond c response => exact h.respond hs
  | exit c cancelled => exact h.exit hs
  | serve c => exact h.serve hs
  | callback c => exact h.callback hs
  | publish c state => exact h.publish one hs
  | runFailure c => exact h.runFailure one hs
  | deliver c p => exact h.deliver hs
  | publishReturns c p ok => exact h.publishReturns hs
  | receiveReply i => exact h.receiveReply hs
  | receive i => exact h.receive hs
  | next i => exact h.next hs
  | giveUp i timeout => exact h.giveUp hs

/-! ## The protocol -/

/-- A call that is finalized, but not rejected, has a published end event. -/
theorem Inv.ended_of_finalized (h : s.Inv) (here : s.calls[c]? = some call) (accepted : call.reply = some .accepted)
    (finalized : call.finalized = true) : s.Ended c := by
  rcases (h.sound c call here).finalized finalized with rejected | ⟨p, publication, has, ends, published⟩
  · rw [accepted] at rejected
    cases rejected
  · have there := publication?_eq_some.2 ⟨call, here, has⟩
    exact ⟨p, publication, there, ends, published, (h.ordered.mem_iff c p).2
      ⟨publication, there, (h.sound c call here).delivered p publication has published⟩⟩

theorem Inv.abandoned (h : s.Inv) (here : s.calls[c]? = some call)
    (sent : call.sent = some (.responded .accepted)) (exited : call.handler = .exited false) :
    s.FailureDue c call ∨ s.Ended c ∨
      ∃ p publication, call.failure = .ended (some p) ∧ s.publication? c p = some publication ∧
        publication.state = .failure ∧ publication.outcome = some false := by
  have sound := h.sound c call here
  have accepted : call.reply = some .accepted := by
    rcases sound.sent _ sent with accepted | ⟨-, ⟨⟩⟩
    exact accepted
  have skipped (reason : call.failure = .skipped ∨ call.failure = .ended none) : s.Ended c := by
    rcases sound.skipped reason with cancelled | finalized
    · rw [exited] at cancelled
      cases cancelled
    · exact h.ended_of_finalized here accepted finalized
  cases failure : call.failure with
  | none =>
    left
    left
    simp [Calls.step, here, sent, exited, failure]
  | skipped => exact .inr (.inl (skipped (.inl failure)))
  | created => exact .inl (.inr (.inl failure))
  | publishing p => exact .inl (.inr (.inr ⟨p, failure⟩))
  | ended attempt =>
    cases attempt with
    | none => exact .inr (.inl (skipped (.inr failure)))
    | some p =>
      obtain ⟨publication, has, state, returned⟩ := sound.publishing p (.inr failure)
      have there := publication?_eq_some.2 ⟨call, here, has⟩
      obtain ⟨ok, outcome⟩ := Option.ne_none_iff_exists'.1 (returned failure)
      cases ok with
      | false => exact .inr (.inr ⟨p, publication, rfl, there, state, outcome⟩)
      | true =>
        refine .inr (.inl ⟨p, publication, there, ?_, outcome, ?_⟩)
        · unfold Publication.Ends
          rw [state]
          simp
        · exact (h.ordered.mem_iff c p).2 ⟨publication, there, sound.delivered p publication has outcome⟩

theorem Inv.protocol (h : s.Inv) : s.Protocol := by
  refine ⟨h.once, h.replies, ?_, ?_, ?_, fun _ _ => h.abandoned, ?_, ?_⟩
  · intro c call here unsent
    have sound := h.sound c call here
    cases handler : call.handler with
    | notStarted =>
      have sent := (sound.started handler).1
      rw [unsent] at sent
      cases sent
    | running =>
      cases reply : call.reply with
      | none => exact .inl ⟨rfl, rfl⟩
      | some response =>
        right
        simp [Calls.step, here, unsent, HandledCall.answer, reply, handler]
    | exited cancelled =>
      right
      cases reply : call.reply <;> simp [Calls.step, here, unsent, HandledCall.answer, reply, handler]
  · intro c p mem
    obtain ⟨publication, there, -⟩ := (h.ordered.mem_iff c p).1 mem
    obtain ⟨call, here, has⟩ := publication?_eq_some.1 there
    exact ⟨call, here, (h.sound c call here).silent p publication has⟩
  · intro i j c p q first later firstAt laterAt less there there' ends published
    refine (h.ordered.order i j c p q later firstAt laterAt less there').resolve_left ?_
    obtain ⟨call, here, has⟩ := publication?_eq_some.1 there
    obtain ⟨call', here', has'⟩ := publication?_eq_some.1 there'
    cases here.symm.trans here'
    -- No publication begins after the one that ends the call.
    have last := ((h.sound c call here).last p first has ends published).2
    have bound := lt_of_found has'
    omega
  · intro i caller c position here settled
    exact (h.callers i caller here).settles c position settled
  · intro i caller c here following
    exact ⟨(h.callers i caller here).named c (.inr following), (h.callers i caller here).follows c following⟩

/-- **The protocol of long-running calls** holds in every run in which the events of each call are published one after
the other. -/
theorem protocol_of_oneByOne (run : Reaches step OneByOne {} s) : s.Protocol := by
  have inv : s.Inv := run.invariant inv_start fun _ _ _ inv one hs => inv.step one hs
  exact inv.protocol

/-- A call is accepted. -/
def acceptedCall : List CallLabel :=
  [.invoke 0, .arrive 0 .valid, .respond 0 .accepted, .serve 0, .receiveReply 0]

/-- The call's next publication comes on the stream, and returns. -/
def published (p : ℕ) (state : CallState) (ok : Bool) : List CallLabel :=
  [.publish 0 state, .deliver 0 p, .publishReturns 0 p ok]

/-- A call that makes progress is left by its handler, and fails. -/
theorem protocol_of_oneByOne_example : ∃ s : Calls, s.callers.map (·.phase) = [.settled (.ended 0 1)] ∧ s.Protocol := by
  let labels := acceptedCall ++ published 0 .running true ++ [.exit 0 false, .callback 0, .runFailure 0, .deliver 0 1,
    .publishReturns 0 1 true, .receive 0, .receive 0, .next 0, .next 0]
  have ends : (exec step {} labels).map (fun s => s.callers.map (·.phase)) = some [.settled (.ended 0 1)] := by
    decide +kernel
  have one : okAlong step OneByOne {} labels := by
    decide +kernel
  obtain ⟨s, run, phases⟩ := Option.map_eq_some_iff.1 ends
  exact ⟨s, phases, protocol_of_oneByOne (reaches_of_exec run one)⟩

/-- The failure of an abandoned call is not published: there is no end event, and none is due. And two tasks of a
handler publish at one time: progress is reported after the end. -/
theorem not_protocol :
    (∃ s call, Reaches step OneByOne {} s ∧ s.calls[0]? = some call ∧ call.sent = some (.responded .accepted) ∧
      call.handler = .exited false ∧ call.finalized = false ∧ call.failure = .ended (some 0) ∧ s.stream = []) ∧
    ∃ s, Reaches step always {} s ∧ s.stream = [(0, 0), (0, 1)] ∧
      s.publication? 0 0 = some ⟨.success, some true, true⟩ ∧ s.publication? 0 1 = some ⟨.running, some true, true⟩ ∧
        ¬ s.Protocol := by
  constructor
  · let labels := acceptedCall ++ [.exit 0 false, .callback 0, .runFailure 0, .publishReturns 0 0 false]
    let call : HandledCall := ⟨0, .exited false, some .accepted, false, some (.responded .accepted), .ended (some 0),
      [⟨.failure, some false, false⟩]⟩
    have ends : (exec step {} labels).map (fun s => (s.calls[0]?, s.stream)) = some (some call, []) := by
      decide +kernel
    have one : okAlong step OneByOne {} labels := by
      decide +kernel
    obtain ⟨s, run, shows⟩ := Option.map_eq_some_iff.1 ends
    obtain ⟨here, stream⟩ := Prod.mk.inj shows
    exact ⟨s, call, reaches_of_exec run one, here, rfl, rfl, rfl, rfl, stream⟩
  · let labels := acceptedCall ++ [.publish 0 .success, .publish 0 .running, .deliver 0 0, .deliver 0 1,
      .publishReturns 0 0 true, .publishReturns 0 1 true]
    have ends : (exec step {} labels).map (fun s => (s.stream, s.publication? 0 0, s.publication? 0 1)) =
        some ([(0, 0), (0, 1)], some ⟨.success, some true, true⟩, some ⟨.running, some true, true⟩) := by
      decide +kernel
    obtain ⟨s, run, shows⟩ := Option.map_eq_some_iff.1 ends
    obtain ⟨stream, first, later⟩ : s.stream = [(0, 0), (0, 1)] ∧
        s.publication? 0 0 = some ⟨.success, some true, true⟩ ∧
          s.publication? 0 1 = some ⟨.running, some true, true⟩ := by
      simpa using shows
    refine ⟨s, reaches_of_exec run okAlong_always, stream, first, later, ?_⟩
    intro protocol
    have failed := protocol.ended 0 1 0 0 1 _ _ (by rw [stream]; rfl) (by rw [stream]; rfl) (by decide) first later
      (by decide) rfl
    cases failed

end Calls

end SensorKit.Backend.LongCalls
