import SensorKit.Data.Streams
import SensorKit.Lib.Run

/-!
# An edge of a data graph

A producer sends a context with data through an edge, and a consumer receives them, whichever of the two comes first. The
producer has a buffer or a reader, or asks for a writer. Both, and the event loop, take turns.
-/

namespace SensorKit.Data

open Lib

/-! ## Iterating over a stream -/

inductive StreamReader
  | buffer (reader : BufferReader)
  | queue (reader : QueueReader)
deriving DecidableEq, Repr

namespace StreamReader

def atEof : StreamReader → Bool
  | .buffer reader => reader.atEof
  | .queue reader => reader.atEof

/-- A read, or `none` while it waits. -/
def read (n : ℤ) : StreamReader → Option (Bytes × StreamReader)
  | .buffer reader =>
    let (outcome, reader) := reader.read n
    some (outcome.bytes, .buffer reader)
  | .queue reader => (reader.read n).map fun (outcome, reader) => (outcome.bytes, .queue reader)

/-- What a turn of an iteration gives. -/
inductive Turn
  | ended
  | waits
  | item (bytes : Bytes) (reader : StreamReader)
deriving DecidableEq, Repr

/-- `__aiter__`, one turn of its loop. -/
def next (reader : StreamReader) : Turn :=
  if reader.atEof then .ended
  else match reader.read (-1) with
    | none => .waits
    | some (bytes, reader) => .item bytes reader

end StreamReader

structure BufferWriter where
  bytes : Bytes := []
  /-- The future has its result. -/
  done : Bool := false
deriving DecidableEq, Repr

namespace BufferWriter

def write (writer : BufferWriter) (data : Bytes) : BufferWriter := { writer with bytes := writer.bytes ++ data }

/-- A second `close` would set the result of the future again. -/
def close (writer : BufferWriter) : Option BufferWriter :=
  if writer.done then none else some { writer with done := true }

end BufferWriter

/-! ## `DataFlow` -/

namespace Flow

inductive Kind
  | stream
  | buffer
deriving DecidableEq, Repr

/-- What is received: a buffer, or the stream of the edge. -/
inductive Payload
  | buffer (bytes : Bytes)
  | stream
deriving DecidableEq, Repr

structure DataFlow (κ : Type) where
  sendCalled : Bool := false
  sendReady : Bool := false
  receiveReady : Bool := false
  receiveKind : Option Kind := none
  receiveResult : Option (κ × Payload) := none
deriving DecidableEq, Repr

namespace DataFlow

variable {κ : Type} (flow : DataFlow κ)

/-- `send`, up to where it waits for the consumer. -/
def send : Except String (DataFlow κ) :=
  if flow.sendCalled then .error "send may only be called once" else .ok { flow with sendCalled := true }

/-- `receive`, up to where it waits for the producer. -/
def receive (kind : Option Kind) : Except String (DataFlow κ) :=
  if flow.receiveReady then .error "receive may only be called once"
  else .ok { flow with receiveKind := kind, receiveReady := true }

/-- `_send_ready` -/
def deliver (context : κ) (payload : Payload) : DataFlow κ :=
  { flow with receiveResult := some (context, payload), sendReady := true }

end DataFlow

/-! ## The edge with both sides -/

/-- What is sent: a buffer, a reader, or nothing, for a writer. -/
inductive Arg
  | buffer (bytes : Bytes)
  | reader (reader : StreamReader)
  | none
deriving DecidableEq, Repr

inductive Producer (κ : Type)
  | idle
  /-- `send` waits for the consumer. -/
  | waiting (context : κ) (arg : Arg)
  /-- `send` iterates over its reader. -/
  | draining (context : κ) (collected : Bytes)
  /-- `send` has returned a writer to a buffer. Once it has been closed, the callback on its future is called. -/
  | filling (context : κ) (writer : BufferWriter) (called : Bool)
  /-- `send` has returned, with a writer to the stream if there was no argument. -/
  | returned
deriving DecidableEq, Repr

inductive Consumer (κ : Type)
  | idle
  | waiting
  | received (result : κ × Payload)
deriving DecidableEq, Repr

structure Edge (κ : Type) where
  flow : DataFlow κ := {}
  producer : Producer κ := .idle
  consumer : Consumer κ := .idle
  /-- The reader that is sent or made, as it is now. -/
  stream : Option StreamReader := none
  /-- What the consumer has read from the stream. -/
  consumed : Bytes := []
  /-- The errors that calls have raised. -/
  raised : List String := []
deriving DecidableEq, Repr

inductive FlowEvent (κ : Type)
  | send (context : κ) (arg : Arg)
  | receive (kind : Option Kind)
  /-- The producer goes on within `send`. -/
  | produce
  /-- The producer writes, to the writer that it got or to the one of the reader that it sent. -/
  | write (data : Bytes)
  | close
  /-- The event loop calls the callback of a future. -/
  | callback
  /-- The consumer goes on within `receive`. -/
  | consume
  /-- The consumer takes a turn in iterating over the stream. -/
  | take
deriving DecidableEq, Repr

namespace Edge

variable {κ : Type} (edge : Edge κ)

/-- A turn of iterating over the stream. -/
def turn : Option StreamReader.Turn := edge.stream.map StreamReader.next

/-- The producer passes data through and returns. -/
def pass (context : κ) (payload : Payload) : Edge κ :=
  { edge with flow := edge.flow.deliver context payload, producer := .returned }

/-- What `send` does once the consumer is ready. -/
def dispatch (context : κ) (arg : Arg) : Edge κ :=
  match arg, edge.flow.receiveKind with
  | .buffer bytes, some .buffer | .buffer bytes, none => edge.pass context (.buffer bytes)
  | .buffer bytes, some .stream => { edge with stream := some (.buffer { data := bytes }) }.pass context .stream
  | .reader _, some .buffer => { edge with producer := .draining context [] }
  | .reader _, some .stream | .reader _, none => edge.pass context .stream
  | .none, some .buffer => { edge with producer := .filling context {} false }
  | .none, some .stream | .none, none => { edge with stream := some (.queue { queue := [] }) }.pass context .stream

/-- Put into the queue of the stream, which has a writer that has not been closed. -/
def put (item : Option Bytes) : Option (Edge κ) :=
  match edge.stream with
  | some (.queue reader) =>
    if reader.eof ∨ none ∈ reader.queue then none
    else some { edge with stream := some (.queue { reader with queue := reader.queue ++ [item] }) }
  | _ => none

def step (edge : Edge κ) : FlowEvent κ → Option (Edge κ)
  | .send context arg =>
    match edge.flow.send with
    | .error message => some { edge with raised := edge.raised ++ [message] }
    | .ok flow => some { edge with
        flow
        producer := .waiting context arg
        stream := match arg with
          | .reader reader => some reader
          | _ => none }
  | .receive kind =>
    match edge.flow.receive kind with
    | .error message => some { edge with raised := edge.raised ++ [message] }
    | .ok flow => some { edge with flow, consumer := .waiting }
  | .produce =>
    match edge.producer with
    | .waiting context arg => if edge.flow.receiveReady then some (edge.dispatch context arg) else none
    | .draining context collected =>
      match edge.turn with
      | some .ended => some (edge.pass context (.buffer collected))
      | some (.item bytes reader) =>
        some { edge with stream := some reader, producer := .draining context (collected ++ bytes) }
      | _ => none
    | _ => none
  | .write data =>
    match edge.producer with
    | .filling context writer called =>
      if writer.done then none else some { edge with producer := .filling context (writer.write data) called }
    | _ => edge.put (some data)
  | .close =>
    match edge.producer with
    | .filling context writer called => writer.close.map fun writer => { edge with producer := .filling context writer called }
    | _ => edge.put none
  | .callback =>
    match edge.producer with
    | .filling context writer false =>
      if writer.done then
        some { edge with
          flow := edge.flow.deliver context (.buffer writer.bytes)
          producer := .filling context writer true }
      else none
    | _ => none
  | .consume =>
    match edge.consumer with
    | .waiting =>
      if edge.flow.sendReady then edge.flow.receiveResult.map fun result => { edge with consumer := .received result } else none
    | _ => none
  | .take =>
    match edge.consumer with
    | .received (_, .stream) =>
      match edge.turn with
      | some (.item bytes reader) => some { edge with stream := some reader, consumed := edge.consumed ++ bytes }
      | _ => none
    | _ => none

end Edge

end Flow

end SensorKit.Data
