import SensorKit.Lib.FileSystem
import SensorKit.Lib.Run

/-!
# Asynchronous file writers

A `FileAsyncWriter` writes to a temporary file from a task of its own, and gives it the name of its target when it is
closed. A system of writers shares the files; what each of its steps does lies between two awaits of the task, or
before one of its callers.
-/

namespace SensorKit.Data

open Lib

/-! ## Paths -/

/-- A path: its directory and its last component. -/
structure Path where
  parent : String
  name : String
deriving DecidableEq, Repr

/-- The name without its last suffix. A leading or a trailing dot starts none. -/
def Path.stem (path : Path) : List Char :=
  let reversed := path.name.toList.reverse
  match reversed.dropWhile (· ≠ '.') with
  | [] | [_] => path.name.toList
  | _dot :: rest => if reversed.head? = some '.' then path.name.toList else rest.reverse

/-- `ValueError` for a path without a name. -/
def Path.withSuffix (path : Path) (suffix : String) : Option Path :=
  if path.stem.isEmpty then none else some { path with name := String.ofList (path.stem ++ suffix.toList) }

/-! ## Writers -/

/-- A byte of a file, and the writer that wrote it; `none` for what was there before. -/
structure Written where
  byte : UInt8
  writer : Option ℕ
deriving DecidableEq, Repr

def stamp (writer : ℕ) (data : List UInt8) : List Written :=
  data.map fun byte => { byte, writer := some writer }

/-- Where the write task is. `failed` says that it raises once the file is closed and renamed. -/
inductive WriteTask where
  | getting
  | writing (data : List UInt8)
  | closing (failed : Bool)
  | moving (failed : Bool)
  /-- The task has ended with the file under its target. -/
  | published (failed : Bool)
  /-- The task has failed to close or to rename the file, or has taken too long. The thread that renames may still be
  `late` then. -/
  | abandoned (late : Bool)
deriving DecidableEq, Repr

/-- Bytes may still be written, or the file renamed. -/
def WriteTask.live : WriteTask → Bool
  | .getting | .writing _ | .closing _ | .moving _ => true
  | .published _ => false
  | .abandoned late => late

def WriteTask.isPublished : WriteTask → Bool
  | .published _ => true
  | _ => false

structure FileAsyncWriter where
  path : Path
  targetPath : Path
  file : ℕ
  queue : List (List UInt8) := []
  drained : Bool := true
  closeRequested : Bool := false
  task : WriteTask := .getting
  /-- What `write` has accepted so far. -/
  written : List UInt8 := []
deriving DecidableEq, Repr

namespace FileAsyncWriter

variable (w : FileAsyncWriter)

/-- `RuntimeError` once the writer is closing. -/
def write (data : List UInt8) : Option FileAsyncWriter :=
  if w.closeRequested then none
  else some { w with queue := w.queue ++ [data], drained := false, written := w.written ++ data }

/-- Stop accepting data. -/
def close : FileAsyncWriter :=
  { w with closeRequested := true }

/-- The end of the task: the queue is shut down, with what is left in it. -/
def finalize (failed : Bool) : FileAsyncWriter :=
  { w with closeRequested := true, queue := [], drained := true, task := .closing failed }

/-- The task gets a chunk, or learns that there will be none. -/
def get : Option FileAsyncWriter :=
  match w.task, w.queue with
  | .getting, data :: queue => some { w with queue, task := .writing data }
  | .getting, [] => if w.closeRequested then some (w.finalize false) else none
  | _, _ => none

/-- The chunk has been written. -/
def wrote : FileAsyncWriter :=
  { w with task := .getting, drained := w.drained || w.queue.isEmpty }

/-- The file has been closed, or failed to close. -/
def closed (ok : Bool) : Option FileAsyncWriter :=
  match w.task with
  | .closing failed => some { w with task := if ok then .moving failed else .abandoned false }
  | _ => none

/-- Closing and renaming took too long; a thread that is renaming goes on. -/
def timeout : Option FileAsyncWriter :=
  match w.task with
  | .closing _ => some { w with task := .abandoned false }
  | .moving _ => some { w with task := .abandoned true }
  | _ => none

/-- The file has its new name. The task of an abandoned writer has raised already. -/
def renamed : Option FileAsyncWriter :=
  match w.task with
  | .moving failed => some { w with task := .published failed }
  | .abandoned true => some { w with task := .published true }
  | _ => none

/-- The file could not be renamed. -/
def unrenamed : Option FileAsyncWriter :=
  match w.task with
  | .moving _ | .abandoned true => some { w with task := .abandoned false }
  | _ => none

/-- `wait_closed` returns: the task has ended without raising. -/
def WaitClosedReturns : Prop :=
  w.task = .published false

instance : Decidable w.WaitClosedReturns :=
  inferInstanceAs (Decidable (_ = _))

end FileAsyncWriter

/-! ## Systems of writers -/

structure Writers where
  fs : FileSystem Path Written
  writers : List FileAsyncWriter := []

/-- What happens next. A writer is named by the number of writers opened before it. -/
inductive WriterLabel where
  | open_ (path : Path)
  | write (i : ℕ) (data : List UInt8)
  | close (i : ℕ)
  | get (i : ℕ)
  | wrote (i : ℕ)
  /-- The write failed after some bytes of the chunk. -/
  | unwritten (i : ℕ) (kept : ℕ)
  /-- The task was cancelled while it waited for a chunk. -/
  | interrupt (i : ℕ)
  | closed (i : ℕ) (ok : Bool)
  | timeout (i : ℕ)
  | renamed (i : ℕ)
  | unrenamed (i : ℕ)
deriving DecidableEq, Repr

namespace Writers

variable (s : Writers)

/-- Open a writer of the path, by way of a temporary file. -/
def open_ (path : Path) : Option Writers := do
  let tempPath ← path.withSuffix ".tmp"
  let (fs, file) := s.fs.truncate tempPath
  return { fs, writers := s.writers ++ [{ path := tempPath, targetPath := path, file }] }

def update (i : ℕ) (w : FileAsyncWriter) : Writers :=
  { s with writers := s.writers.set i w }

/-- The bytes reach the file that the writer opened. -/
def append (i : ℕ) (w : FileAsyncWriter) (data : List UInt8) : Writers :=
  { s with fs := s.fs.append w.file (stamp i data) }

def step (s : Writers) : WriterLabel → Option Writers
  | .open_ path => s.open_ path
  | .write i data => do
    let w ← s.writers[i]?
    return s.update i (← w.write data)
  | .close i => do
    let w ← s.writers[i]?
    return s.update i w.close
  | .get i => do
    let w ← s.writers[i]?
    return s.update i (← w.get)
  | .wrote i => do
    let w ← s.writers[i]?
    match w.task with
    | .writing data => return (s.append i w data).update i w.wrote
    | _ => none
  | .unwritten i kept => do
    let w ← s.writers[i]?
    match w.task with
    | .writing data => return (s.append i w (data.take kept)).update i (w.finalize true)
    | _ => none
  | .interrupt i => do
    let w ← s.writers[i]?
    if w.task = .getting then return s.update i (w.finalize true) else none
  | .closed i ok => do
    let w ← s.writers[i]?
    return s.update i (← w.closed ok)
  | .timeout i => do
    let w ← s.writers[i]?
    return s.update i (← w.timeout)
  | .renamed i => do
    let w ← s.writers[i]?
    let w' ← w.renamed
    let fs ← s.fs.rename w.path w.targetPath
    return { s with fs }.update i w'
  | .unrenamed i => do
    let w ← s.writers[i]?
    return s.update i (← w.unrenamed)

/-- No writer has written anything yet. -/
structure Unwritten (fs : FileSystem Path Written) : Prop where
  old : ∀ p c, fs.contents p = some c → ∀ b ∈ c, b.writer = none

/-- Each target holds bytes of its own writer only, and all of them once `wait_closed` returns. -/
structure Isolated (s : Writers) : Prop where
  exact_ : ∀ i w, s.writers[i]? = some w → w.WaitClosedReturns →
    s.fs.contents w.targetPath = some (stamp i w.written)
  own : ∀ i w, s.writers[i]? = some w → ∀ c, s.fs.contents w.targetPath = some c →
    ∀ b ∈ c, b.writer = none ∨ b.writer = some i

/-- A new target is not that of another writer. -/
def Distinct (s : Writers) : WriterLabel → Prop
  | .open_ path => ∀ w ∈ s.writers, w.targetPath ≠ path
  | _ => True

/-- The temporary path of a new writer is no target, nor the temporary path of a writer that is still writing or
renaming; nor is its target where another writer has left its temporary file. -/
def TempApart (s : Writers) : WriterLabel → Prop
  | .open_ path => ∀ w ∈ s.writers, (w.task.isPublished = false → w.path ≠ path) ∧
      ∀ tempPath ∈ path.withSuffix ".tmp",
        w.targetPath ≠ tempPath ∧ (w.task.live = true → w.path ≠ tempPath)
  | _ => True

end Writers

end SensorKit.Data
