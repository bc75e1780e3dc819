import SensorKit.Data.Flow
import SensorKit.Data.StreamChunks

/-!
# What an edge delivers

At each moment, what the producer has given is in its buffer or its stream, in what has been collected, or with the
consumer. What is received is all of it, in order, with the context that was sent.
-/

namespace SensorKit.Data

open Lib

/-! ## Streams -/

namespace QueueReader

variable {reader reader' : QueueReader} {item : Option Bytes}

/-- The end marker comes last, if it has come. -/
def Fed (reader : QueueReader) : Prop :=
  if reader.eof then reader.queue = []
  else ∃ chunks : List Bytes, reader.queue = chunks.map some ∨ reader.queue = chunks.map some ++ [none]

/-- The end marker has been put. -/
def Finished (reader : QueueReader) : Prop := reader.eof = true ∨ none ∈ reader.queue

/-- A queue without an end marker. -/
theorem Fed.open (fed : reader.Fed) (unfinished : ¬ reader.Finished) :
    reader.eof = false ∧ ∃ chunks : List Bytes, reader.queue = chunks.map some := by
  obtain ⟨eof, queue⟩ := not_or.1 unfinished
  have false_ : reader.eof = false := Bool.eq_false_iff.2 eof
  unfold Fed at fed
  rw [if_neg eof] at fed
  obtain ⟨chunks, same | same⟩ := fed
  · exact ⟨false_, chunks, same⟩
  · rw [same] at queue
    exact absurd (List.mem_append_right _ (List.mem_singleton_self _)) queue

/-- What is put comes last. -/
theorem Fed.put (item : Option Bytes) (fed : reader.Fed) (unfinished : ¬ reader.Finished) :
    Fed { reader with queue := reader.queue ++ [item] } ∧
      QueueReader.rest { reader with queue := reader.queue ++ [item] } = reader.rest ++ item.getD [] ∧
      (Finished { reader with queue := reader.queue ++ [item] } ↔ item = none) := by
  obtain ⟨eof, chunks, same⟩ := fed.open unfinished
  have absent := (not_or.1 unfinished).2
  refine ⟨?_, ?_, ?_⟩
  · unfold Fed
    dsimp only
    rw [eof, same]
    cases item with
    | none => exact ⟨chunks, .inr rfl⟩
    | some chunk => exact ⟨chunks ++ [chunk], .inl (by rw [List.map_append, List.map_singleton])⟩
  · unfold QueueReader.rest QueueReader.pending
    dsimp only
    rw [List.reduceOption_append, List.flatten_append, ← List.append_assoc]
    congr 1
    cases item <;> simp [List.reduceOption]
  · unfold Finished
    dsimp only
    rw [eof, List.mem_append, List.mem_singleton]
    simp [absent, eq_comm]

/-- A read takes what is in the buffer, or the next chunk. -/
theorem Fed.read (fed : reader.Fed) (more : reader.atEof = false) :
    (reader.read (-1) = none ∧ ¬ reader.Finished) ∨
      ∃ outcome reader', reader.read (-1) = some (outcome, reader') ∧ reader'.Fed ∧
        outcome.bytes ++ reader'.rest = reader.rest ∧ (reader'.Finished ↔ reader.Finished) ∧
        reader'.queue.length + reader'.buffer.length < reader.queue.length + reader.buffer.length := by
  obtain ⟨queue, buffer, eof⟩ := reader
  cases buffer with
  | cons byte buffer =>
    refine .inr ⟨.returned (byte :: buffer), { queue, buffer := [], eof }, ?_, fed, rfl, Iff.rfl, ?_⟩
    · simp [QueueReader.read]
    · simp
  | nil =>
    cases eof with
    | true => cases more
    | false =>
      obtain ⟨chunks, same⟩ : ∃ chunks : List Bytes, queue = chunks.map some ∨ queue = chunks.map some ++ [none] := fed
      cases chunks with
      | nil =>
        rcases same with rfl | rfl
        · exact .inl ⟨rfl, by simp [Finished]⟩
        · refine .inr ⟨.returned [], { queue := [], eof := true }, rfl, rfl, rfl, ?_, ?_⟩
          · simp [Finished]
          · simp
      | cons chunk chunks =>
        have rest : ∃ queue' : List (Option Bytes), queue = some chunk :: queue' ∧
            (queue' = chunks.map some ∨ queue' = chunks.map some ++ [none]) := by
          rcases same with rfl | rfl
          · exact ⟨_, rfl, .inl rfl⟩
          · exact ⟨_, rfl, .inr rfl⟩
        obtain ⟨queue', rfl, tail⟩ := rest
        refine .inr ⟨.returned chunk, { queue := queue' }, ?_, ⟨chunks, tail⟩, ?_, ?_, ?_⟩
        · simp [QueueReader.read, getNextChunk]
        · unfold QueueReader.rest QueueReader.pending
          rw [List.nil_append, List.nil_append, List.reduceOption_cons_of_some, List.flatten_cons]
          rfl
        · simp [Finished]
        · simp

end QueueReader

namespace StreamReader

variable {reader reader' : StreamReader} {bytes : Bytes}

/-- What has not been read. -/
def rest : StreamReader → Bytes
  | .buffer reader => reader.data.drop reader.ptr
  | .queue reader => reader.rest

def Fed : StreamReader → Prop
  | .buffer _ => True
  | .queue reader => reader.Fed

/-- Nothing more will come. -/
def Finished : StreamReader → Prop
  | .buffer _ => True
  | .queue reader => reader.Finished

/-- How many turns an iteration can take, at most. -/
def work : StreamReader → ℕ
  | .buffer reader => reader.data.length - reader.ptr
  | .queue reader => reader.queue.length + reader.buffer.length

theorem next_item (fed : reader.Fed) (turn : reader.next = .item bytes reader') :
    reader'.Fed ∧ bytes ++ reader'.rest = reader.rest ∧ (reader'.Finished ↔ reader.Finished) ∧
      reader'.work < reader.work := by
  unfold next at turn
  split_ifs at turn with ended
  cases reader with
  | buffer reader =>
    obtain ⟨rfl, rfl⟩ := Turn.item.inj turn
    have more : ¬ reader.data.length ≤ reader.ptr := by simpa [atEof, BufferReader.atEof] using ended
    refine ⟨trivial, ?_, Iff.rfl, ?_⟩
    · simp [ReadOutcome.bytes, rest]
    · show reader.data.length - reader.data.length < reader.data.length - reader.ptr
      omega
  | queue reader =>
    rcases QueueReader.Fed.read fed (Bool.eq_false_iff.2 ended) with ⟨waits, -⟩ | ⟨outcome, reader'', step, kept⟩
    · simp [read, waits] at turn
    · have same : (StreamReader.queue reader).read (-1) = some (outcome.bytes, .queue reader'') := by
        show (reader.read (-1)).map _ = _
        rw [step]
        rfl
      rw [same] at turn
      obtain ⟨rfl, rfl⟩ := Turn.item.inj turn
      exact kept

theorem next_ended (fed : reader.Fed) (turn : reader.next = .ended) : reader.rest = [] ∧ reader.Finished := by
  have ended : reader.atEof = true := by
    unfold next at turn
    split_ifs at turn with ended
    · exact ended
    · split at turn <;> cases turn
  cases reader with
  | buffer reader =>
    have beyond : reader.data.length ≤ reader.ptr := by simpa [atEof, BufferReader.atEof] using ended
    exact ⟨List.drop_eq_nil_of_le beyond, trivial⟩
  | queue reader =>
    have both : reader.eof = true ∧ reader.buffer = [] := by simpa [atEof, QueueReader.atEof] using ended
    refine ⟨?_, .inl both.1⟩
    have empty : reader.queue = [] := by
      have fed : reader.Fed := fed
      unfold QueueReader.Fed at fed
      rwa [if_pos both.1] at fed
    show reader.buffer ++ reader.queue.reduceOption.flatten = []
    rw [both.2, empty]
    rfl

theorem next_waits (fed : reader.Fed) (turn : reader.next = .waits) : ¬ reader.Finished := by
  unfold next at turn
  split_ifs at turn with ended
  cases reader with
  | buffer reader => cases turn
  | queue reader =>
    rcases QueueReader.Fed.read fed (Bool.eq_false_iff.2 ended) with ⟨-, unfinished⟩ | ⟨outcome, reader', step, -⟩
    · exact unfinished
    · have same : (StreamReader.queue reader).read (-1) = some (outcome.bytes, .queue reader') := by
        show (reader.read (-1)).map _ = _
        rw [step]
        rfl
      rw [same] at turn
      cases turn

end StreamReader

namespace Flow

/-! ## What is sent and what is asked for -/

namespace Arg

/-- What the producer has to begin with. -/
def bytes : Arg → Bytes
  | .buffer bytes => bytes
  | .reader stream => stream.rest
  | .none => []

def Finished : Arg → Prop
  | .buffer _ => True
  | .reader stream => stream.Finished
  | .none => False

/-- A reader that is sent has a queue in which no end marker is followed by more. -/
def Fed : Arg → Prop
  | .reader stream => stream.Fed
  | _ => True

end Arg

variable {κ : Type} {stream : Option StreamReader} {flow : DataFlow κ}

/-- What the producer of an edge sends, so far. -/
structure Sent (κ : Type) where
  context : κ
  arg : Arg
  bytes : Bytes
  finished : Prop

/-- What counts of a run: the first `send` with all that is written after it, and the first `receive`. -/
structure History (κ : Type) where
  sent : Option (Sent κ) := none
  asked : Option (Option Kind) := none

def History.follow (history : History κ) : FlowEvent κ → History κ
  | .send context arg => { history with
      sent := history.sent.orElse fun _ => some { context, arg, bytes := arg.bytes, finished := arg.Finished } }
  | .receive kind => { history with asked := history.asked.orElse fun _ => some kind }
  | .write data => { history with sent := history.sent.map fun sent => { sent with bytes := sent.bytes ++ data } }
  | .close => { history with sent := history.sent.map fun sent => { sent with finished := True } }
  | _ => history

/-- The kind that is received: the one that is asked for, or else the producer's. -/
def effective (kind : Option Kind) (arg : Arg) : Kind :=
  match kind, arg with
  | some kind, _ => kind
  | none, .buffer _ => .buffer
  | none, _ => .stream

def Payload.kind : Payload → Kind
  | .buffer _ => .buffer
  | .stream => .stream

/-! ## The invariant -/

/-- The stream has what has been given, less what has been taken. -/
def Holds (sent : Sent κ) (taken : Bytes) (stream : Option StreamReader) : Prop :=
  ∃ reader, stream = some reader ∧ reader.Fed ∧ taken ++ reader.rest = sent.bytes ∧ (reader.Finished ↔ sent.finished)

/-- The payload is all that has been given. -/
def Carries (sent : Sent κ) (consumed : Bytes) (stream : Option StreamReader) (payload : Payload) : Prop :=
  match payload with
  | .buffer bytes => sent.finished ∧ bytes = sent.bytes ∧ ∀ reader, stream = some reader → reader.Finished
  | .stream => Holds sent consumed stream

/-- The result is there, with what was sent and as it was asked for. -/
structure Delivered (sent : Sent κ) (flow : DataFlow κ) (consumed : Bytes) (stream : Option StreamReader) : Prop where
  ready : flow.sendReady = true
  result : ∃ payload, flow.receiveResult = some (sent.context, payload) ∧
    payload.kind = effective flow.receiveKind sent.arg ∧ Carries sent consumed stream payload

structure Undelivered (flow : DataFlow κ) (consumed : Bytes) : Prop where
  ready : flow.sendReady = false
  result : flow.receiveResult = none
  consumed : consumed = []

/-- What has been sent is still with the producer. -/
def Pending (sent : Sent κ) (stream : Option StreamReader) : Prop :=
  match sent.arg with
  | .buffer bytes => stream = none ∧ sent.finished ∧ bytes = sent.bytes
  | .reader _ => Holds sent [] stream
  | .none => stream = none ∧ sent.bytes = [] ∧ ¬ sent.finished

/-- Where what has been sent is, by how far `send` has come. -/
def Stage (sent : Sent κ) (flow : DataFlow κ) (consumed : Bytes) (stream : Option StreamReader) : Producer κ → Prop
  | .idle => False
  | .waiting context arg => sent.context = context ∧ sent.arg = arg ∧ Undelivered flow consumed ∧ Pending sent stream
  | .draining context collected => sent.context = context ∧ flow.receiveReady = true ∧
      effective flow.receiveKind sent.arg = .buffer ∧ Undelivered flow consumed ∧ Holds sent collected stream
  | .filling context writer called => sent.context = context ∧ flow.receiveReady = true ∧ stream = none ∧
      effective flow.receiveKind sent.arg = .buffer ∧ writer.bytes = sent.bytes ∧ (writer.done = true ↔ sent.finished) ∧
      (called = true → writer.done = true ∧ Delivered sent flow consumed stream) ∧
      (called = false → Undelivered flow consumed)
  | .returned => flow.receiveReady = true ∧ Delivered sent flow consumed stream

/-- Before anything is sent. -/
structure Unsent (edge : Edge κ) : Prop where
  producer : edge.producer = .idle
  called : edge.flow.sendCalled = false
  stream : edge.stream = none
  undelivered : Undelivered edge.flow edge.consumed

structure Sound (history : History κ) (edge : Edge κ) : Prop where
  unsent : history.sent = none → Unsent edge
  sent : ∀ sent, history.sent = some sent →
    edge.flow.sendCalled = true ∧ Stage sent edge.flow edge.consumed edge.stream edge.producer
  asked : history.asked = if edge.flow.receiveReady then some edge.flow.receiveKind else none
  idle : edge.consumer = .idle ↔ edge.flow.receiveReady = false
  received : ∀ result, edge.consumer = .received result → edge.flow.receiveResult = some result

variable {history : History κ} {edge edge' : Edge κ} {sent : Sent κ} {context : κ} {arg : Arg} {kind : Option Kind}
  {data : Bytes} {event : FlowEvent κ}

theorem Sound.initial : Sound ({} : History κ) {} where
  unsent := fun _ => ⟨rfl, rfl, rfl, rfl, rfl, rfl⟩
  sent := fun sent none => by cases none
  asked := rfl
  idle := by simp
  received := fun result here => by cases here

/-- A step that leaves alone what counts. -/
theorem Sound.raise (h : Sound history edge) (message : String) :
    Sound history { edge with raised := edge.raised ++ [message] } :=
  ⟨fun none => ⟨(h.unsent none).producer, (h.unsent none).called, (h.unsent none).stream, (h.unsent none).undelivered⟩,
    h.sent, h.asked, h.idle, h.received⟩

theorem Sound.send (h : Sound history edge) (fed : arg.Fed) (step : edge.step (.send context arg) = some edge') :
    Sound (history.follow (.send context arg)) edge' := by
  simp only [Edge.step, DataFlow.send] at step
  by_cases called : edge.flow.sendCalled = true
  · rw [if_pos called] at step
    cases step
    have same : history.follow (.send context arg) = history := by
      cases first : history.sent with
      | none => exact absurd called (Bool.eq_false_iff.1 (h.unsent first).called)
      | some sent =>
        unfold History.follow
        rw [first]
        cases history
        subst first
        rfl
    rw [same]
    exact h.raise _
  · rw [if_neg called] at step
    cases step
    cases first : history.sent with
    | some sent => exact absurd (h.sent sent first).1 called
    | none =>
      have unsent := h.unsent first
      refine ⟨fun none => ?_, fun sent some_ => ?_, h.asked, h.idle, h.received⟩
      · simp [History.follow, first] at none
      · simp only [History.follow, first, Option.orElse_none, Option.some.injEq] at some_
        subst some_
        obtain ⟨ready, result, consumed⟩ := unsent.undelivered
        refine ⟨rfl, rfl, rfl, ⟨ready, result, consumed⟩, ?_⟩
        cases arg with
        | buffer bytes => exact ⟨rfl, trivial, rfl⟩
        | reader reader => exact ⟨reader, rfl, fed, rfl, Iff.rfl⟩
        | none => exact ⟨rfl, rfl, id⟩

theorem Undelivered.asked {consumed : Bytes} (h : Undelivered flow consumed) :
    Undelivered { flow with receiveKind := kind, receiveReady := true } consumed :=
  ⟨h.ready, h.result, h.consumed⟩

theorem Sound.receive (h : Sound history edge) (step : edge.step (.receive kind) = some edge') :
    Sound (history.follow (.receive kind)) edge' := by
  simp only [Edge.step, DataFlow.receive] at step
  have asked := h.asked
  by_cases ready : edge.flow.receiveReady = true
  · rw [if_pos ready] at step asked
    cases step
    have same : history.follow (.receive kind) = history := by
      unfold History.follow
      rw [asked]
      cases history
      subst asked
      rfl
    rw [same]
    exact h.raise _
  · rw [if_neg ready] at step asked
    cases step
    refine ⟨fun none => ?_, fun sent some_ => ?_, ?_, ?_, fun result here => by cases here⟩
    · obtain ⟨producer, called, stream, undelivered⟩ := h.unsent none
      exact ⟨producer, called, stream, undelivered.asked⟩
    · obtain ⟨called, stage⟩ := h.sent sent some_
      refine ⟨called, ?_⟩
      show Stage sent { edge.flow with receiveKind := kind, receiveReady := true } edge.consumed edge.stream edge.producer
      cases phase : edge.producer with
      | idle =>
        rw [phase] at stage
        exact stage
      | waiting context arg =>
        rw [phase] at stage
        obtain ⟨same, same', undelivered, pending⟩ := stage
        exact ⟨same, same', undelivered.asked, pending⟩
      | draining context collected =>
        rw [phase] at stage
        exact absurd stage.2.1 ready
      | filling context writer called =>
        rw [phase] at stage
        exact absurd stage.2.1 ready
      | returned =>
        rw [phase] at stage
        exact absurd stage.1 ready
    · unfold History.follow
      rw [asked]
      rfl
    · simp

/-- A step of the producer, which leaves the calls and the consumer as they are. -/
theorem Sound.advance {producer : Producer κ} (h : Sound history edge)
    (some_ : history.sent = some sent) (called : flow.sendCalled = edge.flow.sendCalled)
    (ready : flow.receiveReady = edge.flow.receiveReady) (kind : flow.receiveKind = edge.flow.receiveKind)
    (result : edge.flow.receiveResult = none ∨ flow.receiveResult = edge.flow.receiveResult)
    (stage : Stage sent flow edge.consumed stream producer) :
    Sound history { edge with flow, stream, producer } := by
  refine ⟨fun none => ?_, fun sent' some' => ?_, ?_, ?_, fun received here => ?_⟩
  · rw [some_] at none
    cases none
  · cases some_.symm.trans some'
    exact ⟨called.trans (h.sent sent some_).1, stage⟩
  · rw [h.asked, ← ready, ← kind]
  · rw [ready]
    exact h.idle
  · rcases result with none | same
    · rw [h.received received here] at none
      cases none
    · exact same.trans (h.received received here)

theorem Delivered.of_carries {consumed : Bytes} {payload : Payload}
    (fits : payload.kind = effective flow.receiveKind sent.arg) (carries : Carries sent consumed stream payload) :
    Delivered sent (flow.deliver sent.context payload) consumed stream :=
  ⟨rfl, payload, rfl, fits, carries⟩

theorem Sound.pass {payload : Payload} (h : Sound history edge)
    (some_ : history.sent = some sent) (undelivered : Undelivered edge.flow edge.consumed)
    (ready : edge.flow.receiveReady = true) (fits : payload.kind = effective edge.flow.receiveKind sent.arg)
    (carries : Carries sent edge.consumed stream payload) :
    Sound history ({ edge with stream }.pass sent.context payload) := by
  refine h.advance some_ rfl rfl rfl (.inl undelivered.result) ?_
  exact ⟨ready, .of_carries fits carries⟩

theorem Sound.dispatch (h : Sound history edge) (ready : edge.flow.receiveReady = true)
    (waiting : edge.producer = .waiting context arg) : Sound history (edge.dispatch context arg) := by
  cases first : history.sent with
  | none =>
    have idle := (h.unsent first).producer
    rw [waiting] at idle
    cases idle
  | some sent =>
    obtain ⟨called, stage⟩ := h.sent sent first
    rw [waiting] at stage
    obtain ⟨rfl, rfl, undelivered, pending⟩ := stage
    have consumed := undelivered.consumed
    unfold Edge.dispatch
    unfold Pending at pending
    cases arg : sent.arg with
    | buffer bytes =>
      rw [arg] at pending
      obtain ⟨none, finished, same⟩ := pending
      have whole : Carries sent edge.consumed edge.stream (.buffer bytes) :=
        ⟨finished, same, fun reader there => by rw [none] at there; cases there⟩
      have read : Holds sent edge.consumed (some (.buffer { data := bytes })) :=
        ⟨_, rfl, trivial, by rw [consumed, ← same]; rfl, iff_of_true trivial finished⟩
      cases asked : edge.flow.receiveKind with
      | none => exact h.pass first undelivered ready (by rw [asked, arg]; rfl) whole
      | some kind =>
        cases kind with
        | buffer => exact h.pass first undelivered ready (by rw [asked]; rfl) whole
        | stream => exact h.pass first undelivered ready (by rw [asked]; rfl) read
    | reader reader =>
      rw [arg] at pending
      have holds : Holds sent edge.consumed edge.stream := consumed ▸ pending
      cases asked : edge.flow.receiveKind with
      | none => exact h.pass first undelivered ready (by rw [asked, arg]; rfl) holds
      | some kind =>
        cases kind with
        | stream => exact h.pass first undelivered ready (by rw [asked]; rfl) holds
        | buffer =>
          refine h.advance first rfl rfl rfl (.inr rfl) ?_
          exact ⟨rfl, ready, by rw [asked]; rfl, undelivered, pending⟩
    | none =>
      rw [arg] at pending
      obtain ⟨none, empty, unfinished⟩ := pending
      have queue : Holds sent edge.consumed (some (.queue { queue := [] })) := by
        refine ⟨_, rfl, ⟨[], .inl rfl⟩, by rw [consumed, empty]; rfl, iff_of_false ?_ unfinished⟩
        rintro (ended | mem)
        · cases ended
        · exact List.not_mem_nil mem
      cases asked : edge.flow.receiveKind with
      | none => exact h.pass first undelivered ready (by rw [asked, arg]; rfl) queue
      | some kind =>
        cases kind with
        | stream => exact h.pass first undelivered ready (by rw [asked]; rfl) queue
        | buffer =>
          refine h.advance first rfl rfl rfl (.inr rfl) ?_
          refine ⟨rfl, ready, none, by rw [asked]; rfl, empty.symm, iff_of_false (by simp) unfinished, ?_, fun _ => undelivered⟩
          intro called
          cases called

/-- A turn of an iteration takes from the stream what comes next. -/
theorem Holds.item {taken bytes : Bytes} {reader : StreamReader}
    (h : Holds sent taken stream) (turn : stream.map StreamReader.next = some (.item bytes reader)) :
    Holds sent (taken ++ bytes) (some reader) := by
  obtain ⟨before, rfl, fed, all, finished⟩ := h
  obtain ⟨fed', split, same, -⟩ := StreamReader.next_item fed (Option.some.inj turn)
  refine ⟨reader, rfl, fed', ?_, same.trans finished⟩
  rw [List.append_assoc, split]
  exact all

/-- An iteration that has ended has taken all there is. -/
theorem Holds.ended {taken : Bytes} (h : Holds sent taken stream)
    (turn : stream.map StreamReader.next = some .ended) :
    sent.finished ∧ taken = sent.bytes ∧ ∀ reader, stream = some reader → reader.Finished := by
  obtain ⟨before, rfl, fed, all, finished⟩ := h
  obtain ⟨empty, ended⟩ := StreamReader.next_ended fed (Option.some.inj turn)
  rw [empty, List.append_nil] at all
  refine ⟨finished.1 ended, all, fun reader there => ?_⟩
  cases there
  exact ended

theorem Sound.produce (h : Sound history edge) (step : edge.step .produce = some edge') : Sound history edge' := by
  simp only [Edge.step] at step
  split at step
  · rename_i context arg waiting
    split_ifs at step with ready
    cases step
    exact h.dispatch ready waiting
  · rename_i context collected draining
    cases first : history.sent with
    | none =>
      have idle := (h.unsent first).producer
      rw [draining] at idle
      cases idle
    | some sent =>
      obtain ⟨called, stage⟩ := h.sent sent first
      rw [draining] at stage
      obtain ⟨rfl, ready, kind, undelivered, holds⟩ := stage
      split at step
      · rename_i turn
        cases step
        exact h.pass first undelivered ready kind.symm (holds.ended turn)
      · rename_i bytes reader turn
        cases step
        refine h.advance first rfl rfl rfl (.inr rfl) ?_
        exact ⟨rfl, ready, kind, undelivered, holds.item turn⟩
      · cases step
  · cases step

/-- What is put into a queue that has not ended. -/
theorem put_cases {item : Option Bytes} (step : edge.put item = some edge') : ∃ reader,
    edge.stream = some (.queue reader) ∧ ¬ reader.Finished ∧
      edge' = { edge with stream := some (.queue { reader with queue := reader.queue ++ [item] }) } := by
  unfold Edge.put at step
  split at step
  · rename_i reader there
    split_ifs at step with ended
    exact ⟨reader, there, ended, (Option.some.inj step).symm⟩
  · cases step

/-- What is sent, with one more item of the stream. -/
structure Sent.Put (sent : Sent κ) (item : Option Bytes) (sent' : Sent κ) : Prop where
  context : sent'.context = sent.context
  arg : sent'.arg = sent.arg
  bytes : sent'.bytes = sent.bytes ++ item.getD []
  finished : ¬ sent.finished → (sent'.finished ↔ item = none)

variable {sent' : Sent κ} {item : Option Bytes} {reader : QueueReader}

theorem Holds.put {taken : Bytes} (h : Holds sent taken (some (.queue reader))) (unfinished : ¬ reader.Finished)
    (put : sent.Put item sent') : Holds sent' taken (some (.queue { reader with queue := reader.queue ++ [item] })) := by
  obtain ⟨_, same, fed, all, finished⟩ := h
  cases same
  obtain ⟨fed', rest, ended⟩ := QueueReader.Fed.put item fed unfinished
  refine ⟨_, rfl, fed', ?_, ended.trans (put.finished fun done => unfinished (finished.2 done)).symm⟩
  show taken ++ QueueReader.rest { reader with queue := reader.queue ++ [item] } = _
  rw [rest, put.bytes, ← all, List.append_assoc]
  rfl

theorem Stage.put {consumed : Bytes} {producer : Producer κ}
    (stage : Stage sent flow consumed (some (.queue reader)) producer) (unfinished : ¬ reader.Finished)
    (put : sent.Put item sent') :
    Stage sent' flow consumed (some (.queue { reader with queue := reader.queue ++ [item] })) producer := by
  cases producer with
  | idle => exact stage
  | waiting context arg =>
    obtain ⟨rfl, rfl, undelivered, pending⟩ := stage
    refine ⟨put.context, put.arg, undelivered, ?_⟩
    unfold Pending at pending ⊢
    rw [put.arg]
    cases arg : sent.arg with
    | buffer bytes =>
      rw [arg] at pending
      cases pending.1
    | reader other =>
      rw [arg] at pending
      exact pending.put unfinished put
    | none =>
      rw [arg] at pending
      cases pending.1
  | draining context collected =>
    obtain ⟨rfl, ready, kind, undelivered, holds⟩ := stage
    exact ⟨put.context, ready, put.arg ▸ kind, undelivered, holds.put unfinished put⟩
  | filling context writer called =>
    obtain ⟨-, -, none, -⟩ := stage
    cases none
  | returned =>
    obtain ⟨ready, there, payload, result, fits, carries⟩ := stage
    refine ⟨ready, there, payload, ?_, put.arg ▸ fits, ?_⟩
    · rw [put.context]
      exact result
    · cases payload with
      | buffer bytes =>
        obtain ⟨-, -, ended⟩ := carries
        exact absurd (ended _ rfl) unfinished
      | stream => exact Holds.put carries unfinished put

section

variable (h : Sound history edge)
include h

theorem Sound.put {history' : History κ} (step : edge.put item = some edge') (asked : history'.asked = history.asked)
    (put : ∀ sent, history.sent = some sent → ∃ sent', history'.sent = some sent' ∧ sent.Put item sent') :
    Sound history' edge' := by
  obtain ⟨reader, there, unfinished, rfl⟩ := put_cases step
  cases first : history.sent with
  | none =>
    have absent := (h.unsent first).stream
    rw [there] at absent
    cases absent
  | some sent =>
    obtain ⟨sent', first', put⟩ := put sent first
    obtain ⟨called, stage⟩ := h.sent sent first
    rw [there] at stage
    refine ⟨fun none => ?_, fun other some_ => ?_, asked.trans h.asked, h.idle, h.received⟩
    · rw [first'] at none
      cases none
    · cases first'.symm.trans some_
      exact ⟨called, stage.put unfinished put⟩

/-- The writer of a buffer goes on before it is closed. -/
theorem Sound.fill {history' : History κ} {writer writer' : BufferWriter} {called : Bool}
    (filling : edge.producer = .filling context writer called) (unfinished : writer.done = false)
    (asked : history'.asked = history.asked)
    (fill : ∀ sent, history.sent = some sent → writer.bytes = sent.bytes → ¬ sent.finished → ∃ sent', history'.sent = some sent' ∧
      sent'.context = sent.context ∧ sent'.arg = sent.arg ∧ writer'.bytes = sent'.bytes ∧
      (writer'.done = true ↔ sent'.finished)) :
    Sound history' { edge with producer := .filling context writer' called } := by
  cases first : history.sent with
  | none =>
    have idle := (h.unsent first).producer
    rw [filling] at idle
    cases idle
  | some sent =>
    obtain ⟨sendCalled, stage⟩ := h.sent sent first
    rw [filling] at stage
    obtain ⟨rfl, ready, none, kind, bytes, finished, after, before⟩ := stage
    have still : ¬ sent.finished := fun done => by
      rw [finished.2 done] at unfinished
      cases unfinished
    obtain ⟨sent', first', context, arg, bytes', finished'⟩ := fill sent first bytes still
    refine ⟨fun none => ?_, fun other some_ => ?_, asked.trans h.asked, h.idle, h.received⟩
    · rw [first'] at none
      cases none
    · cases first'.symm.trans some_
      refine ⟨sendCalled, context, ready, none, arg ▸ kind, bytes', finished', fun done => ?_, before⟩
      rw [(after done).1] at unfinished
      cases unfinished

theorem Sound.write (step : edge.step (.write data) = some edge') : Sound (history.follow (.write data)) edge' := by
  simp only [Edge.step] at step
  split at step
  · rename_i context writer called filling
    split_ifs at step with done
    cases step
    refine h.fill filling (Bool.eq_false_iff.2 done) rfl fun sent some_ bytes unfinished => ?_
    refine ⟨{ sent with bytes := sent.bytes ++ data }, by rw [History.follow, some_]; rfl, rfl, rfl, ?_, ?_⟩
    · exact congrArg (· ++ data) bytes
    · exact iff_of_false done unfinished
  · refine h.put step rfl fun sent some_ => ?_
    refine ⟨{ sent with bytes := sent.bytes ++ data }, by rw [History.follow, some_]; rfl, rfl, rfl, rfl, fun unfinished => ?_⟩
    exact iff_of_false unfinished (by simp)

theorem Sound.close (step : edge.step .close = some edge') : Sound (history.follow .close) edge' := by
  simp only [Edge.step, BufferWriter.close] at step
  split at step
  · rename_i context writer called filling
    split_ifs at step with done
    · cases step
    · cases step
      refine h.fill filling (Bool.eq_false_iff.2 done) rfl fun sent some_ bytes unfinished => ?_
      exact ⟨{ sent with finished := True }, by rw [History.follow, some_]; rfl, rfl, rfl, bytes, iff_of_true rfl trivial⟩
  · refine h.put step rfl fun sent some_ => ?_
    refine ⟨{ sent with finished := True }, by rw [History.follow, some_]; rfl, rfl, rfl, ?_, fun _ => iff_of_true trivial rfl⟩
    exact (List.append_nil _).symm

theorem Sound.callback (step : edge.step .callback = some edge') : Sound history edge' := by
  simp only [Edge.step] at step
  split at step
  · rename_i context writer filling
    split_ifs at step with done
    cases step
    cases first : history.sent with
    | none =>
      have idle := (h.unsent first).producer
      rw [filling] at idle
      cases idle
    | some sent =>
      obtain ⟨sendCalled, stage⟩ := h.sent sent first
      rw [filling] at stage
      obtain ⟨rfl, ready, none, kind, bytes, finished, -, before⟩ := stage
      refine h.advance first rfl rfl rfl (.inl (before rfl).result) ?_
      refine ⟨rfl, ready, none, kind, bytes, finished, fun _ => ⟨done, .of_carries kind.symm ?_⟩, fun other => by cases other⟩
      exact ⟨finished.1 done, bytes, fun reader there => by rw [none] at there; cases there⟩
  · cases step

theorem Sound.consume (step : edge.step .consume = some edge') : Sound history edge' := by
  simp only [Edge.step] at step
  split at step
  · rename_i waiting
    split_ifs at step with ready
    obtain ⟨result, there, rfl⟩ := Option.map_eq_some_iff.1 step
    refine ⟨fun none => ?_, h.sent, h.asked, ?_, fun result' here => ?_⟩
    · have undelivered := (h.unsent none).undelivered.result
      rw [there] at undelivered
      cases undelivered
    · have asked := h.idle
      rw [waiting] at asked
      exact iff_of_false (by simp) fun none => by cases asked.2 none
    · cases here
      exact there
  · cases step

theorem Sound.take (step : edge.step .take = some edge') : Sound history edge' := by
  simp only [Edge.step] at step
  split at step
  · rename_i context received
    have result := h.received _ received
    split at step
    · rename_i bytes reader turn
      cases step
      refine ⟨fun none => ?_, fun sent some_ => ?_, h.asked, h.idle, h.received⟩
      · have undelivered := (h.unsent none).undelivered.result
        rw [result] at undelivered
        cases undelivered
      · obtain ⟨sendCalled, stage⟩ := h.sent sent some_
        refine ⟨sendCalled, ?_⟩
        show Stage sent edge.flow (edge.consumed ++ bytes) (some reader) edge.producer
        cases phase : edge.producer with
        | idle =>
          rw [phase] at stage
          exact stage
        | waiting context arg =>
          rw [phase] at stage
          have none := stage.2.2.1.result
          rw [result] at none
          cases none
        | draining context collected =>
          rw [phase] at stage
          have none := stage.2.2.2.1.result
          rw [result] at none
          cases none
        | filling context writer called =>
          rw [phase] at stage
          have none := stage.2.2.1
          rw [Edge.turn, none] at turn
          cases turn
        | returned =>
          rw [phase] at stage
          obtain ⟨ready, there, payload, same, fits, carries⟩ := stage
          cases result.symm.trans same
          exact ⟨ready, there, _, same, fits, Holds.item carries turn⟩
    · cases step
  · cases step

/-- Each step keeps the invariant. -/
theorem Sound.step (fed : ∀ context arg, event = .send context arg → arg.Fed) (step : edge.step event = some edge') :
    Sound (history.follow event) edge' := by
  cases event with
  | send context arg => exact h.send (fed context arg rfl) step
  | receive kind => exact h.receive step
  | produce => exact h.produce step
  | write data => exact h.write step
  | close => exact h.close step
  | callback => exact h.callback step
  | consume => exact h.consume step
  | take => exact h.take step

/-- A run keeps it. -/
theorem Sound.run {events : List (FlowEvent κ)} (fed : ∀ context arg, .send context arg ∈ events → arg.Fed)
    (ran : exec Edge.step edge events = some edge') : Sound (events.foldl History.follow history) edge' := by
  induction events generalizing history edge with
  | nil =>
    cases ran
    exact h
  | cons event events ih =>
    obtain ⟨next, step, rest⟩ := exec_cons_eq_some.1 ran
    refine ih (h.step ?_ step) (fun context arg mem => fed context arg (List.mem_cons_of_mem _ mem)) rest
    rintro context arg rfl
    exact fed context arg List.mem_cons_self

end

end Flow

end SensorKit.Data
