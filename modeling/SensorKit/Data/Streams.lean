import SensorKit.Lib.Search

/-!
# Streams

A queue reader takes what a queue writer has put into their queue, chunk by chunk, and keeps the rest of a chunk in a
buffer. A buffer reader has the whole sequence from the start.
-/

namespace SensorKit.Data

open Lib

abbrev Bytes := List UInt8

namespace Bytes

/-- Where a slice index points: a negative one counts from the end. -/
def position (bytes : Bytes) (n : ℤ) : ℕ :=
  if n < 0 then (bytes.length + n).toNat else n.toNat

/-- `bytes[:n]` -/
def upTo (bytes : Bytes) (n : ℤ) : Bytes := bytes.take (bytes.position n)

/-- `bytes[n:]` -/
def startingAt (bytes : Bytes) (n : ℤ) : Bytes := bytes.drop (bytes.position n)

/-- `bytearray.index`, with `none` for the `ValueError`. -/
def index (bytes : Bytes) (separator : Bytes) (start : ℤ) : Option ℕ :=
  findFrom separator bytes (bytes.position start)

end Bytes

/-- How a read ends. -/
inductive ReadOutcome
  | returned (bytes : Bytes)
  /-- `asyncio.IncompleteReadError`, with the partial bytes and the number of expected ones. -/
  | incompleteRead (received : Bytes) (expected : ℤ)
deriving DecidableEq, Repr

/-- What a read hands out. -/
def ReadOutcome.bytes : ReadOutcome → Bytes
  | .returned bytes => bytes
  | .incompleteRead received _ => received

inductive ReadCall
  | readline
  | readuntil (separator : Bytes)
  | readexactly (n : ℤ)
  | read (n : ℤ)
deriving DecidableEq, Repr

def newline : Bytes := [10]

/-! ## `BufferReader` -/

structure BufferReader where
  data : Bytes
  ptr : ℕ := 0
deriving DecidableEq, Repr

namespace BufferReader

variable (reader : BufferReader)

def atEof : Bool := decide (reader.data.length ≤ reader.ptr)

def readuntil (separator : Bytes) : ReadOutcome × BufferReader :=
  let start := reader.ptr
  match (List.range' start (reader.data.length + 1 - separator.length - start)).find? fun i =>
      (reader.data.drop i).take separator.length = separator with
  | some i => (.returned ((reader.data.drop start).take (i + separator.length - start)),
      { reader with ptr := i + separator.length })
  | none => (.returned (reader.data.drop start), { reader with ptr := reader.data.length })

def read (n : ℤ) : ReadOutcome × BufferReader :=
  let start := reader.ptr
  let stop := if 0 ≤ n then min (start + n.toNat) reader.data.length else reader.data.length
  (.returned ((reader.data.drop start).take (stop - start)), { reader with ptr := stop })

def readexactly (n : ℤ) : ReadOutcome × BufferReader :=
  let (outcome, reader) := reader.read n
  if outcome.bytes.length ≠ n then (.incompleteRead outcome.bytes n, reader) else (outcome, reader)

def call : ReadCall → ReadOutcome × BufferReader
  | .readline => reader.readuntil newline
  | .readuntil separator => reader.readuntil separator
  | .readexactly n => reader.readexactly n
  | .read n => reader.read n

end BufferReader

/-! ## `QueueWriter` -/

structure QueueWriter where
  queue : List (Option Bytes) := []
  closed : Bool := false
deriving DecidableEq, Repr

namespace QueueWriter

variable (writer : QueueWriter)

def write (data : Bytes) : Except String QueueWriter :=
  if writer.closed then .error "Writer is closed" else .ok { writer with queue := writer.queue ++ [some data] }

/-- Closing puts the end marker, once. -/
def close : QueueWriter :=
  if writer.closed then writer else { queue := writer.queue ++ [none], closed := true }

/-- Write chunks and close. -/
def writeAll (chunks : List Bytes) : Except String QueueWriter := do
  let writer ← chunks.foldlM write writer
  return writer.close

end QueueWriter

/-! ## `QueueReader` -/

/-- The queue has what is put into it, in order, also later: a read that finds it empty waits. -/
structure QueueReader where
  queue : List (Option Bytes)
  buffer : Bytes := []
  eof : Bool := false
deriving DecidableEq, Repr

namespace QueueReader

variable (reader : QueueReader)

def atEof : Bool := reader.eof && decide (reader.buffer = [])

/-- `_get_next_chunk`, or `none` if it waits forever. -/
def getNextChunk : Option (Option Bytes × QueueReader) :=
  if reader.eof then some (none, reader)
  else match reader.queue with
    | [] => none
    | none :: queue => some (none, { reader with queue, eof := true })
    | some chunk :: queue => some (some chunk, { reader with queue })

def read (n : ℤ) : Option (ReadOutcome × QueueReader) :=
  if n = 0 then some (.returned [], reader)
  else if reader.buffer ≠ [] then
    let n := if n = -1 then (reader.buffer.length : ℤ) else n
    let remainder := if reader.buffer.length ≤ n then [] else reader.buffer.startingAt n
    let result := if reader.buffer.length ≤ n then reader.buffer else reader.buffer.upTo n
    some (.returned result, { reader with buffer := remainder })
  else
    match reader.getNextChunk with
    | none => none
    | some (none, reader) => some (.returned [], reader)
    | some (some chunk, reader) =>
      let n := if n = -1 then (chunk.length : ℤ) else n
      if chunk.length ≤ n then some (.returned chunk, reader)
      else some (.returned (chunk.upTo n), { reader with buffer := chunk.startingAt n })

/-- The loop of `readuntil`: each round takes a chunk, so there are no more rounds than the fuel. -/
def readuntilLoop (separator : Bytes) : ℕ → ℤ → QueueReader → Option (ReadOutcome × QueueReader)
  | 0, _, _ => none
  | fuel + 1, idx, reader =>
    match reader.buffer.index separator idx with
    | some found =>
      let idx := found + separator.length
      some (.returned (reader.buffer.upTo idx), { reader with buffer := reader.buffer.startingAt idx })
    | none =>
      let idx := (reader.buffer.length : ℤ) - separator.length + 1
      match reader.getNextChunk with
      | none => none
      | some (none, reader) => some (.returned reader.buffer, { reader with buffer := [] })
      | some (some chunk, reader) =>
        readuntilLoop separator fuel idx { reader with buffer := reader.buffer ++ chunk }

def readuntil (separator : Bytes) : Option (ReadOutcome × QueueReader) :=
  readuntilLoop separator (reader.queue.length + 1) 0 reader

/-- The loop of `readexactly`. -/
def readexactlyLoop (n : ℤ) : ℕ → QueueReader → Option (ReadOutcome × QueueReader)
  | 0, _ => none
  | fuel + 1, reader =>
    if reader.buffer.length < n then
      match reader.getNextChunk with
      | none => none
      | some (none, reader) => some (.incompleteRead reader.buffer n, { reader with buffer := [] })
      | some (some chunk, reader) => readexactlyLoop n fuel { reader with buffer := reader.buffer ++ chunk }
    else some (.returned (reader.buffer.upTo n), { reader with buffer := reader.buffer.startingAt n })

def readexactly (n : ℤ) : Option (ReadOutcome × QueueReader) :=
  readexactlyLoop n (reader.queue.length + 1) reader

def call : ReadCall → Option (ReadOutcome × QueueReader)
  | .readline => reader.readuntil newline
  | .readuntil separator => reader.readuntil separator
  | .readexactly n => reader.readexactly n
  | .read n => reader.read n

/-- What a sequence of calls gives. -/
def calls : QueueReader → List ReadCall → Option (List ReadOutcome × QueueReader)
  | reader, [] => some ([], reader)
  | reader, call :: rest => do
    let (outcome, reader) ← reader.call call
    let (outcomes, reader) ← reader.calls rest
    return (outcome :: outcomes, reader)

end QueueReader

/-- `create_connected_streams`, after all chunks have been written and the writer has been closed. -/
def connected (chunks : List Bytes) : Except String QueueReader := do
  let writer ← QueueWriter.writeAll {} chunks
  return { queue := writer.queue }

end SensorKit.Data
