import SensorKit.Data.FlowSound

/-!
# One delivery on each edge

However the producer, the consumer and the event loop take turns: the consumer gets all that is given, once, and what it
still has to wait for comes to an end.
-/

namespace SensorKit.Data.Flow

open Lib

variable {κ : Type} {history : History κ} {edge edge' : Edge κ} {sent : Sent κ} {event : FlowEvent κ} {kind : Option Kind}

/-! ## The work that is left -/

def Producer.work : Producer κ → ℕ
  | .waiting _ (.buffer bytes) => bytes.length + 2
  | .waiting _ _ => 2
  | .draining _ _ => 1
  | .filling _ _ false => 1
  | _ => 0

def Consumer.work : Consumer κ → ℕ
  | .waiting => 1
  | _ => 0

/-- How many steps there can be without a call, a write or a close. -/
def Edge.work (edge : Edge κ) : ℕ :=
  edge.producer.work + edge.consumer.work + edge.stream.elim 0 StreamReader.work

/-- The steps that the parties and the event loop take by themselves. -/
def internal : List (FlowEvent κ) := [.produce, .callback, .consume, .take]

theorem Edge.work_pass {context : κ} {payload : Payload} :
    (edge.pass context payload).work = edge.consumer.work + edge.stream.elim 0 StreamReader.work := by
  show 0 + edge.consumer.work + edge.stream.elim 0 StreamReader.work = _
  omega

theorem Edge.work_dispatch {context : κ} {arg : Arg} (waiting : edge.producer = .waiting context arg) :
    (edge.dispatch context arg).work < edge.work := by
  have here : edge.work = (Producer.waiting context arg).work + edge.consumer.work + edge.stream.elim 0 StreamReader.work := by
    rw [← waiting]
    rfl
  rw [here]
  unfold Edge.dispatch
  split
  · rw [work_pass]
    simp only [Producer.work]
    omega
  · rw [work_pass]
    simp only [Producer.work]
    omega
  · rename_i bytes _
    rw [work_pass]
    show edge.consumer.work + (bytes.length - 0) < bytes.length + 2 + edge.consumer.work + _
    omega
  · show 1 + edge.consumer.work + edge.stream.elim 0 StreamReader.work <
      2 + edge.consumer.work + edge.stream.elim 0 StreamReader.work
    omega
  · rw [work_pass]
    simp only [Producer.work]
    omega
  · rw [work_pass]
    simp only [Producer.work]
    omega
  · show 1 + edge.consumer.work + edge.stream.elim 0 StreamReader.work <
      2 + edge.consumer.work + edge.stream.elim 0 StreamReader.work
    omega
  · rw [work_pass]
    show edge.consumer.work + 0 < 2 + edge.consumer.work + _
    omega
  · rw [work_pass]
    show edge.consumer.work + 0 < 2 + edge.consumer.work + _
    omega

theorem Holds.work {taken bytes : Bytes} {stream : Option StreamReader} {reader : StreamReader} (h : Holds sent taken stream)
    (turn : stream.map StreamReader.next = some (.item bytes reader)) : reader.work < stream.elim 0 StreamReader.work := by
  obtain ⟨before, rfl, fed, -⟩ := h
  exact (StreamReader.next_item fed (Option.some.inj turn)).2.2.2

/-- What is received was delivered. -/
theorem Sound.delivered {result : κ × Payload} (h : Sound history edge) (received : edge.consumer = .received result) :
    ∃ sent, history.sent = some sent ∧ Delivered sent edge.flow edge.consumed edge.stream := by
  have there := h.received result received
  cases first : history.sent with
  | none =>
    have none := (h.unsent first).undelivered.result
    rw [there] at none
    cases none
  | some sent =>
    obtain ⟨-, stage⟩ := h.sent sent first
    refine ⟨sent, rfl, ?_⟩
    cases phase : edge.producer with
    | idle =>
      rw [phase] at stage
      exact stage.elim
    | waiting context arg =>
      rw [phase] at stage
      cases there.symm.trans stage.2.2.1.result
    | draining context collected =>
      rw [phase] at stage
      cases there.symm.trans stage.2.2.2.1.result
    | filling context writer called =>
      rw [phase] at stage
      obtain ⟨-, -, -, -, -, -, after, before⟩ := stage
      cases called with
      | true => exact (after rfl).2
      | false => cases there.symm.trans (before rfl).result
    | returned =>
      rw [phase] at stage
      exact stage.2

/-- What is received has the context that was sent, the kind that was asked for, and all that is given. -/
theorem Sound.carries {context : κ} {payload : Payload} (h : Sound history edge)
    (received : edge.consumer = .received (context, payload)) : ∃ sent, history.sent = some sent ∧
      context = sent.context ∧ payload.kind = effective edge.flow.receiveKind sent.arg ∧
      Carries sent edge.consumed edge.stream payload := by
  obtain ⟨sent, first, -, payload', result, fits, carries⟩ := h.delivered received
  cases (h.received _ received).symm.trans result
  exact ⟨sent, first, rfl, fits, carries⟩

/-- Each internal step leaves less to do. -/
theorem Sound.work (h : Sound history edge) (mem : event ∈ internal) (step : edge.step event = some edge') :
    edge'.work < edge.work := by
  have cases_ : event = .produce ∨ event = .callback ∨ event = .consume ∨ event = .take := by simpa [internal] using mem
  rcases cases_ with rfl | rfl | rfl | rfl
  · simp only [Edge.step] at step
    split at step
    · rename_i context arg waiting
      split_ifs at step
      cases step
      exact Edge.work_dispatch waiting
    · rename_i context collected draining
      have here : edge.work = 1 + edge.consumer.work + edge.stream.elim 0 StreamReader.work := by
        unfold Edge.work
        rw [draining]
        rfl
      split at step
      · cases step
        rw [Edge.work_pass, here]
        omega
      · rename_i bytes reader turn
        cases step
        cases first : history.sent with
        | none =>
          have idle := (h.unsent first).producer
          rw [draining] at idle
          cases idle
        | some sent =>
          obtain ⟨-, stage⟩ := h.sent sent first
          rw [draining] at stage
          have less := stage.2.2.2.2.work turn
          rw [here]
          show 1 + edge.consumer.work + reader.work < _
          omega
      · cases step
    · cases step
  · simp only [Edge.step] at step
    split at step
    · rename_i context writer filling
      split_ifs at step
      cases step
      unfold Edge.work
      rw [filling]
      show 0 + edge.consumer.work + edge.stream.elim 0 StreamReader.work <
        1 + edge.consumer.work + edge.stream.elim 0 StreamReader.work
      omega
    · cases step
  · simp only [Edge.step] at step
    split at step
    · rename_i waiting
      split_ifs at step
      obtain ⟨result, -, rfl⟩ := Option.map_eq_some_iff.1 step
      unfold Edge.work
      rw [waiting]
      show edge.producer.work + 0 + edge.stream.elim 0 StreamReader.work <
        edge.producer.work + 1 + edge.stream.elim 0 StreamReader.work
      omega
    · cases step
  · simp only [Edge.step] at step
    split at step
    · rename_i context received
      split at step
      · rename_i bytes reader turn
        cases step
        obtain ⟨sent, -, -, -, carries⟩ := h.carries received
        have less := Holds.work carries turn
        show edge.producer.work + edge.consumer.work + reader.work <
          edge.producer.work + edge.consumer.work + edge.stream.elim 0 StreamReader.work
        omega
      · cases step
    · cases step

/-- A run of internal steps comes to an end. -/
theorem Sound.bounded {events : List (FlowEvent κ)} (h : Sound history edge) (all : ∀ event ∈ events, event ∈ internal)
    (ran : exec Edge.step edge events = some edge') : events.length + edge'.work ≤ edge.work := by
  refine length_le_of_forall (I := fun edge => ∃ history, Sound history edge) Edge.work ran all ⟨history, h⟩ ?_
  rintro edge event edge' ⟨history, h⟩ mem step
  refine ⟨⟨_, h.step ?_ step⟩, h.work mem step⟩
  rintro context arg rfl
  simp [internal] at mem

/-- The consumer has got all of it. -/
def Edge.complete (edge : Edge κ) : Prop :=
  match edge.consumer with
  | .received (_, .buffer _) => True
  | .received (_, .stream) => edge.turn = some .ended
  | _ => False

theorem Sound.receiveReady (h : Sound history edge) (asked : history.asked = some kind) :
    edge.flow.receiveReady = true ∧ edge.flow.receiveKind = kind := by
  have same := h.asked
  rw [asked] at same
  split_ifs at same with ready
  exact ⟨ready, (Option.some.inj same).symm⟩

/-- A stream of which all has been given does not wait. -/
theorem Holds.turn {taken : Bytes} {stream : Option StreamReader} (h : Holds sent taken stream) (finished : sent.finished) :
    stream.map StreamReader.next = some .ended ∨ ∃ bytes reader, stream.map StreamReader.next = some (.item bytes reader) := by
  obtain ⟨reader, rfl, fed, -, same⟩ := h
  rw [Option.map_some]
  cases turn : reader.next with
  | ended => exact .inl rfl
  | waits => exact absurd (same.2 finished) (StreamReader.next_waits fed turn)
  | item bytes next => exact .inr ⟨bytes, next, rfl⟩

/-- What has been delivered is received, and read to its end. -/
theorem Sound.progress_of_delivered (h : Sound history edge) (ready : edge.flow.receiveReady = true)
    (delivered : Delivered sent edge.flow edge.consumed edge.stream) (finished : sent.finished) :
    edge.complete ∨ ∃ event ∈ internal, (edge.step event).isSome := by
  obtain ⟨there, payload, result, -, carries⟩ := delivered
  cases phase : edge.consumer with
  | idle =>
    rw [h.idle.1 phase] at ready
    cases ready
  | waiting =>
    refine .inr ⟨.consume, by simp [internal], ?_⟩
    simp [Edge.step, phase, there, result]
  | received got =>
    cases (h.received got phase).symm.trans result
    unfold Edge.complete
    rw [phase]
    cases payload with
    | buffer bytes => exact .inl trivial
    | stream =>
      rcases Holds.turn carries finished with ended | ⟨bytes, reader, item⟩
      · exact .inl ended
      · refine .inr ⟨.take, by simp [internal], ?_⟩
        have turn : edge.turn = some (.item bytes reader) := item
        simp [Edge.step, phase, turn]

/-- Once all has been given and is asked for, something can go on until the consumer has all of it. -/
theorem Sound.progress (h : Sound history edge) (first : history.sent = some sent) (asked : history.asked = some kind)
    (finished : sent.finished) : edge.complete ∨ ∃ event ∈ internal, (edge.step event).isSome := by
  obtain ⟨ready, -⟩ := h.receiveReady asked
  obtain ⟨-, stage⟩ := h.sent sent first
  cases phase : edge.producer with
  | idle =>
    rw [phase] at stage
    exact stage.elim
  | waiting context arg =>
    refine .inr ⟨.produce, by simp [internal], ?_⟩
    simp [Edge.step, phase, ready]
  | draining context collected =>
    rw [phase] at stage
    refine .inr ⟨.produce, by simp [internal], ?_⟩
    rcases stage.2.2.2.2.turn finished with ended | ⟨bytes, reader, item⟩
    · have turn : edge.turn = some .ended := ended
      simp [Edge.step, phase, turn]
    · have turn : edge.turn = some (.item bytes reader) := item
      simp [Edge.step, phase, turn]
  | filling context writer called =>
    rw [phase] at stage
    obtain ⟨-, -, -, -, -, done, after, -⟩ := stage
    cases called with
    | false =>
      refine .inr ⟨.callback, by simp [internal], ?_⟩
      simp [Edge.step, phase, done.2 finished]
    | true => exact h.progress_of_delivered ready (after rfl).2 finished
  | returned =>
    rw [phase] at stage
    exact h.progress_of_delivered ready stage.2 finished

/-- Another `send` raises and changes nothing else. -/
theorem Sound.send_again (h : Sound history edge) (first : history.sent = some sent) (context : κ) (arg : Arg) :
    edge.step (.send context arg) = some { edge with raised := edge.raised ++ ["send may only be called once"] } := by
  simp [Edge.step, DataFlow.send, (h.sent sent first).1]

theorem Sound.receive_again (h : Sound history edge) (asked : history.asked = some kind) (again : Option Kind) :
    edge.step (.receive again) = some { edge with raised := edge.raised ++ ["receive may only be called once"] } := by
  simp [Edge.step, DataFlow.receive, (h.receiveReady asked).1]

/-- However the parties take turns on an edge, with any further calls: what is received is what was sent first, as it was
asked for first, with all the bytes that the producer gives, in order. Once it gives no more, the consumer gets all of it
in a bounded number of steps. -/
theorem edge_delivers {κ : Type} (events : List (FlowEvent κ)) (edge : Edge κ)
    (fed : ∀ context arg, .send context arg ∈ events → arg.Fed) (ran : exec Edge.step {} events = some edge) :
    (∀ context payload, edge.consumer = .received (context, payload) → ∃ sent kind,
      (events.foldl History.follow {}).sent = some sent ∧ (events.foldl History.follow {}).asked = some kind ∧
      context = sent.context ∧ payload.kind = effective kind sent.arg ∧
      (∀ bytes, payload = .buffer bytes → sent.finished ∧ bytes = sent.bytes) ∧
      (payload = .stream → edge.consumed <+: sent.bytes ∧
        (edge.turn = some .ended → sent.finished ∧ edge.consumed = sent.bytes))) ∧
    (∀ sent kind, (events.foldl History.follow {}).sent = some sent → (events.foldl History.follow {}).asked = some kind →
      sent.finished → edge.complete ∨ ∃ event ∈ internal, (edge.step event).isSome) ∧
    (∀ more edge', (∀ event ∈ more, event ∈ internal) → exec Edge.step edge more = some edge' →
      more.length + edge'.work ≤ edge.work) ∧
    (∀ sent, (events.foldl History.follow {}).sent = some sent → ∀ context arg, edge.step (.send context arg) =
      some { edge with raised := edge.raised ++ ["send may only be called once"] }) ∧
    (∀ kind, (events.foldl History.follow {}).asked = some kind → ∀ again, edge.step (.receive again) =
      some { edge with raised := edge.raised ++ ["receive may only be called once"] }) := by
  have h := Sound.initial.run fed ran
  refine ⟨fun context payload received => ?_, fun sent kind => h.progress, fun more edge' => h.bounded,
    fun sent => h.send_again, fun kind => h.receive_again⟩
  obtain ⟨sent, first, rfl, fits, carries⟩ := h.carries received
  have ready : edge.flow.receiveReady = true := by
    by_contra unready
    have idle := h.idle.2 (Bool.eq_false_iff.2 unready)
    rw [received] at idle
    cases idle
  have asked := h.asked
  rw [if_pos ready] at asked
  refine ⟨sent, _, first, asked, rfl, fits, ?_, ?_⟩
  · rintro bytes rfl
    exact ⟨carries.1, carries.2.1⟩
  · rintro rfl
    have holds : Holds sent edge.consumed edge.stream := carries
    refine ⟨?_, fun ended => ?_⟩
    · obtain ⟨reader, -, -, all, -⟩ := holds
      exact ⟨_, all⟩
    · obtain ⟨finished, all, -⟩ := holds.ended ended
      exact ⟨finished, all⟩

theorem edge_delivers_example : ∃ edge : Edge String,
    exec Edge.step {} [.send "raw" .none, .receive (some .buffer), .produce, .write [1, 2], .send "late" (.buffer [9]), .write [3],
      .close, .callback, .consume] = some edge ∧
    ∃ sent : Sent String, sent.context = "raw" ∧ sent.bytes = [1, 2, 3] := by
  have received : (exec Edge.step ({} : Edge String) [.send "raw" .none, .receive (some .buffer), .produce, .write [1, 2],
      .send "late" (.buffer [9]), .write [3], .close, .callback, .consume]).map (·.consumer) =
      some (.received ("raw", .buffer [1, 2, 3])) := by decide +kernel
  obtain ⟨edge, ran, received⟩ := Option.map_eq_some_iff.1 received
  obtain ⟨delivered, -⟩ := edge_delivers _ edge (by
    intro context arg mem
    simp only [List.mem_cons, FlowEvent.send.injEq, reduceCtorEq, List.not_mem_nil, or_false, false_or] at mem
    rcases mem with ⟨-, rfl⟩ | ⟨-, rfl⟩
    · trivial
    · trivial) ran
  obtain ⟨sent, kind, -, -, context, -, bytes, -⟩ := delivered _ _ received
  exact ⟨edge, ran, sent, context.symm, (bytes _ rfl).2.symm⟩

end SensorKit.Data.Flow
