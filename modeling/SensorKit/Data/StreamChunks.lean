import Mathlib.Data.List.ReduceOption
import SensorKit.Data.Streams
import SensorKit.Lib.Fallible

/-!
# How reads depend on chunks

What a queue reader still has to hand out is what is in its buffer and in the chunks that are pending. Each read takes a
prefix of it. Where the bytes have been cut makes a difference to a search that goes on while the buffer is shorter than
the separator, and to a read for which there is an empty chunk, or a number below -1.
-/

namespace SensorKit.Data

open Lib

namespace Bytes

variable {bytes separator chunk : Bytes} {n : ℤ} {k : ℕ}

@[simp] theorem position_natCast : bytes.position k = k := by
  unfold position
  rw [if_neg (by omega), Int.toNat_natCast]

@[simp] theorem upTo_append_startingAt : bytes.upTo n ++ bytes.startingAt n = bytes := List.take_append_drop _ _

theorem upTo_natCast : bytes.upTo k = bytes.take k := by
  rw [upTo, position_natCast]

theorem index_natCast : bytes.index separator k = findFrom separator bytes k := by
  rw [index, position_natCast]

/-- A search that starts relative to the end, with less than the separator left, finds nothing. -/
theorem index_eq_none (chunk : Bytes) (nonempty : separator ≠ []) (short : bytes.length + 1 < separator.length) :
    (bytes ++ chunk).index separator (bytes.length - separator.length + 1) = none := by
  refine (findFrom_eq_none nonempty).2 fun j low here => ?_
  have fits := here.le nonempty
  unfold position at low
  rw [if_pos (by omega)] at low
  rw [List.length_append] at fits low
  omega

/-- What `read` hands out of the piece at hand. -/
def taken (piece : Bytes) (n : ℤ) : Bytes :=
  let n := if n = -1 then (piece.length : ℤ) else n
  if piece.length ≤ n then piece else piece.upTo n

def left (piece : Bytes) (n : ℤ) : Bytes :=
  let n := if n = -1 then (piece.length : ℤ) else n
  if piece.length ≤ n then [] else piece.startingAt n

theorem taken_append_left (bytes : Bytes) (n : ℤ) : taken bytes n ++ left bytes n = bytes := by
  unfold taken left
  dsimp only
  generalize (if n = -1 then (bytes.length : ℤ) else n) = m
  split_ifs with whole
  · exact List.append_nil _
  · exact upTo_append_startingAt

theorem taken_eq_nil (nonzero : n ≠ 0) : taken bytes n = [] ↔ ¬ (bytes ≠ [] ∧ (-1 ≤ n ∨ -n < bytes.length)) := by
  have empty : bytes = [] ↔ bytes.length = 0 := List.length_eq_zero_iff.symm
  have cut (m : ℤ) : bytes.upTo m = [] ↔ bytes.length = 0 ∨ bytes.position m = 0 := by
    unfold upTo
    rw [List.take_eq_nil_iff, empty, or_comm]
  unfold taken
  dsimp only
  by_cases all : n = -1
  · rw [if_pos all]
    simp [all]
  · rw [if_neg all]
    split_ifs with whole
    · have positive : 0 < n := by omega
      simp only [ne_eq, not_and_or, not_not, not_or]
      constructor
      · exact .inl
      · rintro (rfl | ⟨below, -⟩)
        · rfl
        · omega
    · rw [cut]
      unfold position
      simp only [ne_eq, empty, not_and_or, not_not, not_or]
      split_ifs with negative
      · omega
      · omega

end Bytes

namespace QueueReader

variable {reader reader' : QueueReader} {separator buffer chunk : Bytes} {coming chunks : List Bytes} {n idx : ℤ}
  {fuel k : ℕ}

/-- The writer has been closed, and nothing has been taken out of turn. -/
def Closed (reader : QueueReader) : Prop :=
  if reader.eof then reader.queue = [] else ∃ chunks : List Bytes, reader.queue = chunks.map some ++ [none]

/-- The chunks that have not been taken. -/
def pending (reader : QueueReader) : List Bytes := reader.queue.reduceOption

/-- What has not been handed out. -/
def rest (reader : QueueReader) : Bytes := reader.buffer ++ reader.pending.flatten

/-- A call has handed out what came next. -/
structure Took (reader : QueueReader) (outcome : ReadOutcome) (reader' : QueueReader) : Prop where
  closed : reader'.Closed
  rest : outcome.bytes ++ reader'.rest = reader.rest

/-- The next chunk of a closed queue is there, or there is none. -/
theorem getNextChunk_cases (closed : reader.Closed) :
    (∃ reader' : QueueReader, reader.getNextChunk = some (none, reader') ∧ reader'.buffer = reader.buffer ∧
        reader.pending = [] ∧ reader'.pending = [] ∧ reader'.Closed) ∨
      ∃ chunk reader', reader.getNextChunk = some (some chunk, reader') ∧ reader'.buffer = reader.buffer ∧
        reader.pending = chunk :: reader'.pending ∧ reader.queue.length = reader'.queue.length + 1 ∧
        ∀ buffer, Closed { reader' with buffer } := by
  obtain ⟨queue, buffer, eof⟩ := reader
  unfold Closed at closed
  cases eof with
  | true =>
    obtain rfl : queue = [] := closed
    exact .inl ⟨_, rfl, rfl, rfl, rfl, rfl⟩
  | false =>
    obtain ⟨chunks, rfl⟩ : ∃ chunks : List Bytes, queue = chunks.map some ++ [none] := closed
    cases chunks with
    | nil => exact .inl ⟨_, rfl, rfl, rfl, rfl, rfl⟩
    | cons chunk chunks =>
      refine .inr ⟨chunk, _, rfl, rfl, ?_, rfl, fun buffer => ⟨chunks, rfl⟩⟩
      exact List.reduceOption_cons_of_some _ _

/-! ## `read` -/

/-- What `read` takes from: the buffer, or else the next chunk. -/
def piece (reader : QueueReader) : Bytes :=
  if reader.buffer ≠ [] then reader.buffer else reader.pending.headD []

theorem read_spec (closed : reader.Closed) (nonzero : n ≠ 0) :
    ∃ reader', reader.read n = some (.returned (reader.piece.taken n), reader') ∧
      Took reader (.returned (reader.piece.taken n)) reader' := by
  unfold read piece
  rw [if_neg nonzero]
  by_cases empty : reader.buffer = []
  · rw [if_neg (not_not.2 empty), if_neg (not_not.2 empty)]
    rcases getNextChunk_cases closed with ⟨reader', next, same, none, none', closed'⟩ | ⟨chunk, reader', next, same, more, -, closed'⟩
    · have nothing : Bytes.taken [] n = [] := by
        have all := Bytes.taken_append_left [] n
        exact (List.append_eq_nil_iff.1 all).1
      rw [next, none, List.headD_nil, nothing]
      refine ⟨reader', rfl, closed', ?_⟩
      unfold QueueReader.rest
      rw [same, none, none']
      rfl
    · have leave : (if chunk.length ≤ (if n = -1 then (chunk.length : ℤ) else n) then
          some (ReadOutcome.returned chunk, reader')
          else some (.returned (chunk.upTo (if n = -1 then (chunk.length : ℤ) else n)),
            { reader' with buffer := chunk.startingAt (if n = -1 then (chunk.length : ℤ) else n) })) =
          some (.returned (chunk.taken n), { reader' with buffer := chunk.left n }) := by
        have emptied : { reader' with buffer := [] } = reader' := by rw [← empty, ← same]
        unfold Bytes.taken Bytes.left
        dsimp only
        generalize (if n = -1 then (chunk.length : ℤ) else n) = m
        split_ifs with whole
        · rw [emptied]
        · rfl
      rw [next, more, List.headD_cons]
      refine ⟨{ reader' with buffer := chunk.left n }, leave, closed' _, ?_⟩
      unfold QueueReader.rest
      rw [empty, more, List.nil_append, List.flatten_cons, ← List.append_assoc]
      exact congrArg (· ++ _) (Bytes.taken_append_left _ _)
  · rw [if_pos empty, if_pos empty]
    refine ⟨{ reader with buffer := reader.buffer.left n }, rfl, closed, ?_⟩
    unfold QueueReader.rest
    rw [← List.append_assoc]
    exact congrArg (· ++ _) (Bytes.taken_append_left _ _)

/-! ## `readexactly` -/

theorem rest_of_next (same : reader'.buffer = reader.buffer) (more : reader.pending = chunk :: reader'.pending) :
    QueueReader.rest { reader' with buffer := reader'.buffer ++ chunk } = reader.rest := by
  unfold rest
  rw [more, same, List.flatten_cons, ← List.append_assoc]
  rfl

theorem rest_of_none (same : reader'.buffer = reader.buffer) (none : reader.pending = []) : reader.rest = reader'.buffer := by
  unfold rest
  rw [none, same, List.flatten_nil, List.append_nil]

/-- At the end, what is in the buffer is handed out. -/
theorem Took.all {outcome : ReadOutcome} (closed : reader'.Closed) (same : reader'.buffer = reader.buffer)
    (none : reader.pending = []) (none' : reader'.pending = []) (all : outcome.bytes = reader'.buffer) :
    Took reader outcome { reader' with buffer := [] } := by
  refine ⟨closed, ?_⟩
  rw [rest_of_none same none, all]
  unfold QueueReader.rest
  show reader'.buffer ++ ([] ++ reader'.pending.flatten) = _
  rw [none', List.flatten_nil, List.append_nil, List.append_nil]

/-- What a complete read of some bytes hands out, or how it fails. -/
def exactly (bytes : Bytes) (n : ℤ) : ReadOutcome :=
  if n ≤ bytes.length then .returned (bytes.take n.toNat) else .incompleteRead bytes n

theorem readexactlyLoop_spec (closed : reader.Closed) (enough : reader.queue.length < fuel) :
    ∃ outcome reader', readexactlyLoop n fuel reader = some (outcome, reader') ∧ Took reader outcome reader' ∧
      (0 ≤ n → outcome = exactly reader.rest n) ∧ (n < 0 → ∃ bytes, outcome = .returned bytes) := by
  induction fuel generalizing reader with
  | zero => omega
  | succ fuel ih =>
    unfold readexactlyLoop
    by_cases short : reader.buffer.length < n
    · rw [if_pos short]
      rcases getNextChunk_cases closed with
        ⟨reader', next, same, none, none', closed'⟩ | ⟨chunk, reader', next, same, more, less, closed'⟩
      · have all := rest_of_none same none
        rw [next]
        refine ⟨_, _, rfl, .all closed' same none none' rfl, fun _ => ?_, by omega⟩
        unfold exactly
        rw [all, same, if_neg (by omega)]
      · rw [next]
        obtain ⟨outcome, reader'', step, took, complete, negative⟩ := ih (closed' (reader'.buffer ++ chunk)) (by dsimp only; omega)
        rw [rest_of_next same more] at complete
        exact ⟨outcome, reader'', step, ⟨took.closed, took.rest.trans (rest_of_next same more)⟩, complete, negative⟩
    · rw [if_neg short]
      refine ⟨_, _, rfl, ⟨closed, ?_⟩, fun nonneg => ?_, fun _ => ⟨_, rfl⟩⟩
      · unfold QueueReader.rest
        rw [← List.append_assoc]
        exact congrArg (· ++ _) Bytes.upTo_append_startingAt
      · obtain ⟨k, rfl⟩ := Int.eq_ofNat_of_zero_le nonneg
        have fits : k ≤ reader.buffer.length := by omega
        unfold exactly QueueReader.rest
        rw [if_pos (by rw [List.length_append]; omega), Int.toNat_natCast, Bytes.upTo_natCast,
          List.take_append_of_le_length fits]

/-! ## `readuntil` -/

/-- A search that goes on where a separator in the buffer could have begun. -/
theorem readuntilLoop_of_le (nonempty : separator ≠ []) (closed : reader.Closed) (enough : reader.queue.length < fuel)
    (le : k + separator.length ≤ reader.buffer.length + 1) :
    ∃ reader', readuntilLoop separator fuel k reader = some (.returned (untilFrom separator reader.rest k), reader') ∧
      Took reader (.returned (untilFrom separator reader.rest k)) reader' := by
  induction fuel generalizing reader k with
  | zero => omega
  | succ fuel ih =>
    unfold readuntilLoop
    rw [Bytes.index_natCast]
    cases found : findFrom separator reader.buffer k with
    | some i =>
      have upTo : reader.buffer.upTo ((i : ℤ) + separator.length) = untilFrom separator reader.rest k := by
        unfold rest
        rw [untilFrom_append nonempty found, ← Int.natCast_add, Bytes.upTo_natCast]
      dsimp only
      rw [← upTo]
      refine ⟨_, rfl, closed, ?_⟩
      unfold QueueReader.rest
      rw [← List.append_assoc]
      exact congrArg (· ++ _) Bytes.upTo_append_startingAt
    | none =>
      dsimp only
      rcases getNextChunk_cases closed with
        ⟨reader', next, same, none, none', closed'⟩ | ⟨chunk, reader', next, same, more, less, closed'⟩
      · have all := rest_of_none same none
        rw [next, all, same, untilFrom_of_none found, ← same]
        exact ⟨_, rfl, .all closed' same none none' rfl⟩
      · have resumed : untilFrom separator reader.rest k =
            untilFrom separator reader.rest (reader.buffer.length + 1 - separator.length) := by
          unfold rest
          exact untilFrom_resume nonempty le found
        have cast : (reader.buffer.length : ℤ) - separator.length + 1 =
            ((reader.buffer.length + 1 - separator.length : ℕ) : ℤ) := by omega
        rw [next, resumed, cast]
        obtain ⟨reader'', step, took⟩ := ih (k := reader.buffer.length + 1 - separator.length)
          (closed' (reader'.buffer ++ chunk)) (by dsimp only; omega) (by rw [List.length_append, same]; omega)
        rw [rest_of_next same more] at step took
        exact ⟨reader'', step, took.closed, took.rest.trans (rest_of_next same more)⟩

theorem readuntilLoop_of_none (nonempty : separator ≠ []) (closed : reader.Closed) (enough : reader.queue.length < fuel)
    (none : reader.buffer.index separator idx = none) (long : separator.length ≤ reader.buffer.length + 1) :
    ∃ reader', readuntilLoop separator fuel idx reader =
        some (.returned (untilFrom separator reader.rest (reader.buffer.length + 1 - separator.length)), reader') ∧
      Took reader (.returned (untilFrom separator reader.rest (reader.buffer.length + 1 - separator.length))) reader' := by
  cases fuel with
  | zero => omega
  | succ fuel =>
    unfold readuntilLoop
    rw [none]
    dsimp only
    rcases getNextChunk_cases closed with
      ⟨reader', next, same, none, none', closed'⟩ | ⟨chunk, reader', next, same, more, less, closed'⟩
    · have nothing : findFrom separator reader.buffer (reader.buffer.length + 1 - separator.length) = .none := by
        refine (findFrom_eq_none nonempty).2 fun j low here => ?_
        have fits := here.le nonempty
        omega
      rw [next, rest_of_none same none, same, untilFrom_of_none nothing, ← same]
      exact ⟨_, rfl, .all closed' same none none' rfl⟩
    · have cast : (reader.buffer.length : ℤ) - separator.length + 1 =
          ((reader.buffer.length + 1 - separator.length : ℕ) : ℤ) := by omega
      rw [next, cast]
      have enough' : reader'.queue.length < fuel := by omega
      obtain ⟨reader'', step, took⟩ := readuntilLoop_of_le (k := reader.buffer.length + 1 - separator.length) nonempty
        (closed' (reader'.buffer ++ chunk)) enough' (by rw [List.length_append, same]; omega)
      rw [rest_of_next same more] at step took
      exact ⟨reader'', step, took.closed, took.rest.trans (rest_of_next same more)⟩

/-- The search looks past a separator: it completes in a chunk that comes in while the buffer is shorter than the
separator without its last byte, and does not end the stream. -/
def Overlooks (separator buffer : Bytes) (coming : List Bytes) : Prop :=
  ∃ pre chunk post, coming = pre ++ chunk :: post ∧ (buffer ++ pre.flatten).length + 1 < separator.length ∧
    separator <:+: buffer ++ pre.flatten ++ chunk ∧ separator <:+: (buffer ++ coming.flatten).dropLast

theorem not_overlooks_of_long (long : separator.length ≤ buffer.length + 1) : ¬ Overlooks separator buffer coming := by
  rintro ⟨pre, chunk, post, -, short, -, -⟩
  rw [List.length_append] at short
  omega

theorem not_overlooks_nil : ¬ Overlooks separator buffer [] := by
  rintro ⟨pre, chunk, post, split, -, -, -⟩
  simp at split

theorem overlooks_cons_of_short (short : (buffer ++ chunk).length + 1 < separator.length) :
    Overlooks separator buffer (chunk :: coming) ↔ Overlooks separator (buffer ++ chunk) coming := by
  unfold Overlooks
  rw [List.flatten_cons, ← List.append_assoc]
  constructor
  · rintro ⟨pre, piece, post, split, less, completes, inside⟩
    cases pre with
    | nil =>
      obtain ⟨rfl, rfl⟩ := List.cons_eq_cons.1 split
      have fits := completes.length_le
      rw [List.flatten_nil, List.append_nil] at fits
      omega
    | cons first pre =>
      obtain ⟨rfl, rfl⟩ := List.cons_eq_cons.1 split
      rw [List.flatten_cons, ← List.append_assoc] at less completes
      exact ⟨pre, piece, post, rfl, less, completes, inside⟩
  · rintro ⟨pre, piece, post, rfl, less, completes, inside⟩
    refine ⟨chunk :: pre, piece, post, rfl, ?_, ?_, inside⟩
    · rwa [List.flatten_cons, ← List.append_assoc]
    · rwa [List.flatten_cons, ← List.append_assoc]

theorem overlooks_cons_of_long (short : buffer.length + 1 < separator.length)
    (long : separator.length ≤ (buffer ++ chunk).length + 1) :
    Overlooks separator buffer (chunk :: coming) ↔
      separator <:+: buffer ++ chunk ∧ separator <:+: (buffer ++ chunk ++ coming.flatten).dropLast := by
  unfold Overlooks
  rw [List.flatten_cons, ← List.append_assoc]
  constructor
  · rintro ⟨pre, piece, post, split, less, completes, inside⟩
    cases pre with
    | nil =>
      obtain ⟨rfl, rfl⟩ := List.cons_eq_cons.1 split
      rw [List.flatten_nil, List.append_nil] at completes
      exact ⟨completes, inside⟩
    | cons first pre =>
      obtain ⟨rfl, rfl⟩ := List.cons_eq_cons.1 split
      rw [List.flatten_cons, ← List.append_assoc, List.length_append] at less
      omega
  · rintro ⟨completes, inside⟩
    refine ⟨[], chunk, coming, rfl, ?_, ?_, inside⟩
    · rwa [List.flatten_nil, List.append_nil]
    · rwa [List.flatten_nil, List.append_nil]

/-- As long as the buffer is shorter than the separator without its last byte, what comes in next is not searched. -/
theorem readuntilLoop_of_short (nonempty : separator ≠ []) (closed : reader.Closed) (enough : reader.queue.length < fuel)
    (none : reader.buffer.index separator idx = none) (short : reader.buffer.length + 1 < separator.length) :
    ∃ bytes reader', readuntilLoop separator fuel idx reader = some (.returned bytes, reader') ∧
      Took reader (.returned bytes) reader' ∧
      (bytes = untilFrom separator reader.rest 0 ↔ ¬ Overlooks separator reader.buffer reader.pending) := by
  induction fuel generalizing reader idx with
  | zero => omega
  | succ fuel ih =>
    unfold readuntilLoop
    rw [none]
    dsimp only
    rcases getNextChunk_cases closed with
      ⟨reader', next, same, none, none', closed'⟩ | ⟨chunk, reader', next, same, more, less, closed'⟩
    · have nothing : findFrom separator reader.buffer 0 = .none := by
        refine (findFrom_eq_none nonempty).2 fun j low here => ?_
        have fits := here.le nonempty
        omega
      rw [next, rest_of_none same none, none, same, untilFrom_of_none nothing, ← same]
      refine ⟨_, _, rfl, .all closed' same none none' rfl, ?_⟩
      exact iff_of_true rfl not_overlooks_nil
    · have unseen := Bytes.index_eq_none chunk nonempty short
      have rest := rest_of_next same more
      rw [next, more]
      rw [← same] at unseen ⊢
      by_cases still : (reader'.buffer ++ chunk).length + 1 < separator.length
      · obtain ⟨bytes, reader'', step, took, agree⟩ := ih (closed' (reader'.buffer ++ chunk)) (by dsimp only; omega) unseen still
        rw [rest] at agree
        exact ⟨bytes, reader'', step, ⟨took.closed, took.rest.trans rest⟩, agree.trans (overlooks_cons_of_short still).not.symm⟩
      · have enough' : reader'.queue.length < fuel := by omega
        obtain ⟨reader'', step, took⟩ := readuntilLoop_of_none nonempty (closed' (reader'.buffer ++ chunk)) enough' unseen
          (by dsimp only; omega)
        rw [rest] at step took
        refine ⟨_, reader'', step, ⟨took.closed, took.rest.trans rest⟩, ?_⟩
        rw [overlooks_cons_of_long (by rwa [same]) (by omega), untilFrom_late_iff nonempty]
        rw [← rest]
        refine not_congr (and_congr ?_ Iff.rfl)
        rw [infix_iff_occursAt]
        constructor
        · rintro ⟨j, before, here⟩
          exact ⟨j, (occursAt_append (by dsimp only at before; omega)).1 here⟩
        · rintro ⟨j, here⟩
          have fits := here.le nonempty
          exact ⟨j, by dsimp only; omega, (occursAt_append fits).2 here⟩

theorem readuntil_spec (nonempty : separator ≠ []) (closed : reader.Closed) :
    ∃ bytes reader', reader.readuntil separator = some (.returned bytes, reader') ∧ Took reader (.returned bytes) reader' ∧
      (bytes = untilFrom separator reader.rest 0 ↔ ¬ Overlooks separator reader.buffer reader.pending) := by
  by_cases short : reader.buffer.length + 1 < separator.length
  · have none : reader.buffer.index separator 0 = .none := by
      refine (findFrom_eq_none nonempty).2 fun j low here => ?_
      have fits := here.le nonempty
      omega
    exact readuntilLoop_of_short nonempty closed (Nat.lt_succ_self _) none short
  · obtain ⟨reader', step, took⟩ := readuntilLoop_of_le nonempty closed (Nat.lt_succ_self _) (k := 0) (by omega)
    exact ⟨_, reader', step, took, iff_of_true rfl (not_overlooks_of_long (by omega))⟩

end QueueReader

/-! ## From a buffer -/

namespace BufferReader

variable {data separator : Bytes} {ptr : ℕ} {n : ℤ}

theorem readuntil_eq (nonempty : separator ≠ []) :
    ((BufferReader.mk data ptr).readuntil separator).1 = .returned (untilFrom separator (data.drop ptr) 0) := by
  have positive := List.length_pos_iff.2 nonempty
  have there (i : ℕ) : (data.drop i).take separator.length = separator ↔ OccursAt separator data i :=
    eq_comm.trans List.prefix_iff_eq_take.symm
  have shift (i : ℕ) : OccursAt separator (data.drop ptr) i ↔ OccursAt separator data (ptr + i) := by
    unfold OccursAt
    rw [List.drop_drop]
  unfold readuntil
  dsimp only
  cases found : (List.range' ptr (data.length + 1 - separator.length - ptr)).find? fun i =>
      (data.drop i).take separator.length = separator with
  | some i =>
    simp only [List.find?_range'_eq_some, decide_eq_true_eq, there, Bool.not_eq_true', decide_eq_false_iff_not] at found
    obtain ⟨here, mem, before⟩ := found
    obtain ⟨low, -⟩ := List.mem_range'_1.1 mem
    have first : findFrom separator (data.drop ptr) 0 = some (i - ptr) := by
      refine (findFrom_eq_some nonempty).2 ⟨Nat.zero_le _, (shift _).2 ?_, fun j _ less at_ => ?_⟩
      · rwa [Nat.add_sub_cancel' low]
      · exact before (ptr + j) (by omega) (by omega) ((shift j).1 at_)
    dsimp only
    rw [untilFrom_of_some first, Nat.sub_add_comm low]
  | none =>
    simp only [List.find?_range'_eq_none, there, Bool.not_eq_true', decide_eq_false_iff_not] at found
    have absent : findFrom separator (data.drop ptr) 0 = none := by
      refine (findFrom_eq_none nonempty).2 fun j _ at_ => ?_
      have fits := ((shift j).1 at_).le nonempty
      exact found (ptr + j) (by omega) (by omega) ((shift j).1 at_)
    dsimp only
    rw [untilFrom_of_none absent]

theorem read_eq : ((BufferReader.mk data ptr).read n).1 =
    .returned (if 0 ≤ n then (data.drop ptr).take n.toNat else data.drop ptr) := by
  unfold read
  dsimp only
  split_ifs with nonneg
  · congr 1
    rw [List.take_eq_take_iff, List.length_drop]
    omega
  · rw [List.take_of_length_le (by rw [List.length_drop])]

theorem readexactly_eq : ((BufferReader.mk data ptr).readexactly n).1 =
    if 0 ≤ n then QueueReader.exactly (data.drop ptr) n else .incompleteRead (data.drop ptr) n := by
  have outcome : ((BufferReader.mk data ptr).read n).1 = _ := read_eq
  have split : ((BufferReader.mk data ptr).readexactly n).1 =
      if (((BufferReader.mk data ptr).read n).1.bytes.length : ℤ) ≠ n then
        .incompleteRead ((BufferReader.mk data ptr).read n).1.bytes n
      else ((BufferReader.mk data ptr).read n).1 := apply_ite Prod.fst _ _ _
  rw [split, outcome]
  by_cases nonneg : 0 ≤ n
  · rw [if_pos nonneg, if_pos nonneg]
    unfold QueueReader.exactly ReadOutcome.bytes
    dsimp only
    rw [List.length_take]
    split_ifs with less enough enough
    · omega
    · rw [List.take_of_length_le (by omega)]
    · rfl
    · omega
  · rw [if_neg nonneg, if_neg nonneg]
    unfold ReadOutcome.bytes
    dsimp only
    rw [if_pos (by omega)]

end BufferReader

/-! ## Runs of calls -/

/-- What is expected of a call, after so many bytes of the data have been handed out: what a buffer reader gives at that
position, and that a `read` gives nothing only at the end. -/
def Answers (data : Bytes) (position : ℕ) (call : ReadCall) (outcome : ReadOutcome) : Prop :=
  match call with
  | .read n => n ≠ 0 → outcome.bytes = [] → data.length ≤ position
  | .readline => outcome = ((BufferReader.mk data position).call .readline).1
  | .readuntil separator => outcome = ((BufferReader.mk data position).call (.readuntil separator)).1
  | .readexactly n => outcome = ((BufferReader.mk data position).call (.readexactly n)).1

namespace QueueReader

/-- A call to which the chunks make no difference. -/
def Suits (reader : QueueReader) (call : ReadCall) : Prop :=
  match call with
  | .read n => n = 0 ∨ reader.rest = [] ∨ reader.piece ≠ [] ∧ (-1 ≤ n ∨ -n < reader.piece.length)
  | .readline => True
  | .readuntil separator => ¬ Overlooks separator reader.buffer reader.pending
  | .readexactly n => 0 ≤ n

variable {reader : QueueReader} {separator data delivered : Bytes} {call : ReadCall} {n : ℤ}

theorem call_readuntil (nonempty : separator ≠ []) (closed : reader.Closed) (all : data = delivered ++ reader.rest) :
    ∃ outcome reader', reader.readuntil separator = some (outcome, reader') ∧ Took reader outcome reader' ∧
      (outcome = ((BufferReader.mk data delivered.length).readuntil separator).1 ↔
        ¬ Overlooks separator reader.buffer reader.pending) := by
  obtain ⟨bytes, reader', step, took, agree⟩ := readuntil_spec nonempty closed
  refine ⟨_, reader', step, took, ?_⟩
  rw [BufferReader.readuntil_eq nonempty, all, List.drop_left' rfl, ← agree]
  exact ReadOutcome.returned.injEq _ _ ▸ Iff.rfl

/-- A call hands out what comes next, and what is expected of it exactly if it suits. -/
theorem call_spec (call : ReadCall) (separators : ∀ separator, call = .readuntil separator → separator ≠ []) (closed : reader.Closed)
    (all : data = delivered ++ reader.rest) :
    ∃ outcome reader', reader.call call = some (outcome, reader') ∧ Took reader outcome reader' ∧
      (Answers data delivered.length call outcome ↔ reader.Suits call) := by
  cases call with
  | readline =>
    have nonempty : newline ≠ [] := by decide
    obtain ⟨outcome, reader', step, took, agree⟩ := call_readuntil nonempty closed all
    refine ⟨outcome, reader', step, took, iff_of_true (agree.2 (not_overlooks_of_long ?_)) trivial⟩
    exact Nat.le_add_left _ _
  | readuntil separator => exact call_readuntil (separators separator rfl) closed all
  | readexactly n =>
    obtain ⟨outcome, reader', step, took, complete, negative⟩ := readexactlyLoop_spec (n := n) closed (Nat.lt_succ_self _)
    refine ⟨outcome, reader', step, took, ?_⟩
    show outcome = ((BufferReader.mk data delivered.length).readexactly n).1 ↔ 0 ≤ n
    rw [BufferReader.readexactly_eq, all, List.drop_left' rfl]
    split_ifs with nonneg
    · exact iff_of_true (complete nonneg) nonneg
    · obtain ⟨bytes, rfl⟩ := negative (by omega)
      refine iff_of_false (fun same => ?_) nonneg
      cases same
  | read n =>
    by_cases zero : n = 0
    · refine ⟨.returned [], reader, if_pos zero, ⟨closed, rfl⟩, ?_⟩
      exact iff_of_true (fun nonzero => absurd zero nonzero) (.inl zero)
    · obtain ⟨reader', step, took⟩ := read_spec closed zero
      refine ⟨_, reader', step, took, ?_⟩
      have ends : data.length ≤ delivered.length ↔ reader.rest = [] := by
        rw [all, List.length_append, ← List.length_eq_zero_iff]
        omega
      show (n ≠ 0 → reader.piece.taken n = [] → data.length ≤ delivered.length) ↔
        (n = 0 ∨ reader.rest = [] ∨ reader.piece ≠ [] ∧ (-1 ≤ n ∨ -n < reader.piece.length))
      rw [ends, Bytes.taken_eq_nil zero]
      tauto

theorem calls_cons {outcome : ReadOutcome} {reader' : QueueReader} {rest : List ReadCall}
    (step : reader.call call = some (outcome, reader')) :
    reader.calls (call :: rest) = (reader'.calls rest).map fun ended => (outcome :: ended.1, ended.2) := by
  rw [calls, step]
  show ((reader'.calls rest).bind fun ended => some (outcome :: ended.1, ended.2)) = _
  rw [Option.map_eq_bind]
  rfl

/-- A sequence of calls hands out a prefix, and what is expected of each call exactly if each one suits. -/
theorem calls_spec (calls : List ReadCall) (separators : ∀ separator, .readuntil separator ∈ calls → separator ≠ [])
    (closed : reader.Closed) (all : data = delivered ++ reader.rest) :
    ∃ outcomes final, reader.calls calls = some (outcomes, final) ∧ outcomes.length = calls.length ∧
      outcomes.flatMap (·.bytes) <+: reader.rest ∧
      ((∀ n call outcome, calls[n]? = some call → outcomes[n]? = some outcome →
          Answers data (delivered ++ (outcomes.take n).flatMap (·.bytes)).length call outcome) ↔
        ∀ n call before earlier, calls[n]? = some call → reader.calls (calls.take n) = some (earlier, before) →
          before.Suits call) := by
  induction calls generalizing reader delivered with
  | nil =>
    refine ⟨[], reader, rfl, rfl, List.nil_prefix, iff_of_true ?_ ?_⟩
    · intro n call outcome there
      simp at there
    · intro n call before earlier there
      simp at there
  | cons call calls ih =>
    obtain ⟨outcome, reader', step, took, agree⟩ := call_spec call
      (fun separator same => separators separator (same ▸ List.mem_cons_self)) closed all
    have all' : data = (delivered ++ outcome.bytes) ++ reader'.rest := by
      rw [List.append_assoc, took.rest]
      exact all
    obtain ⟨outcomes, final, steps, length, sub, agrees⟩ :=
      ih (fun separator mem => separators separator (List.mem_cons_of_mem _ mem)) took.closed all'
    refine ⟨outcome :: outcomes, final, ?_, ?_, ?_, ?_⟩
    · rw [calls_cons step, steps]
      rfl
    · rw [List.length_cons, List.length_cons, length]
    · rw [List.flatMap_cons, ← took.rest]
      exact (List.prefix_append_right_inj _).2 sub
    · refine (Nat.and_forall_add_one.symm.trans (and_congr ?_ ?_)).trans Nat.and_forall_add_one
      · -- the first call
        simp only [List.getElem?_cons_zero, Option.some.injEq, List.take_zero, List.flatMap_nil, List.append_nil]
        constructor
        · rintro answers _ before earlier rfl same
          cases same
          exact agree.1 (answers _ _ rfl rfl)
        · rintro suits _ _ rfl rfl
          exact agree.2 (suits _ reader [] rfl rfl)
      · simp only [List.getElem?_cons_succ, List.take_succ_cons, List.flatMap_cons, ← List.append_assoc, calls_cons step]
        rw [agrees]
        refine forall_congr' fun n => forall_congr' fun call => forall_congr' fun before => ?_
        constructor
        · intro suits earlier there same
          obtain ⟨⟨earlier, before⟩, ran, same⟩ := Option.map_eq_some_iff.1 same
          cases same
          exact suits earlier there ran
        · intro suits earlier there ran
          exact suits (outcome :: earlier) there (by rw [ran]; rfl)

end QueueReader

/-! ## Connected streams -/

theorem writeAll_eq {chunks : List Bytes} : ∀ queue : List (Option Bytes),
    QueueWriter.writeAll { queue } chunks = .ok { queue := queue ++ chunks.map some ++ [none], closed := true } := by
  induction chunks with
  | nil =>
    intro queue
    rw [List.map_nil, List.append_nil]
    rfl
  | cons chunk chunks ih =>
    intro queue
    have rest := ih (queue ++ [some chunk])
    rw [List.append_assoc, List.append_assoc] at rest
    rw [List.map_cons, List.append_assoc]
    exact rest

theorem connected_eq (chunks : List Bytes) : connected chunks = .ok { queue := chunks.map some ++ [none] } := by
  unfold connected
  rw [writeAll_eq]
  rfl

/-- However bytes are cut into chunks, reads from the connected stream hand out a prefix of them. They give what is expected
of each of them exactly if each call suits what is at hand. -/
theorem connected_reads_iff (chunks : List Bytes) (calls : List ReadCall)
    (separators : ∀ separator, .readuntil separator ∈ calls → separator ≠ []) :
    ∃ reader outcomes final, connected chunks = .ok reader ∧ reader.calls calls = some (outcomes, final) ∧
      outcomes.length = calls.length ∧ outcomes.flatMap (·.bytes) <+: chunks.flatten ∧
      ((∀ n call outcome, calls[n]? = some call → outcomes[n]? = some outcome →
          Answers chunks.flatten ((outcomes.take n).flatMap (·.bytes)).length call outcome) ↔
        ∀ n call before earlier, calls[n]? = some call → reader.calls (calls.take n) = some (earlier, before) →
          before.Suits call) := by
  have closed : QueueReader.Closed { queue := chunks.map some ++ [none] } := ⟨chunks, rfl⟩
  have rest : QueueReader.rest { queue := chunks.map some ++ [none] } = chunks.flatten := by
    have chunks_ : (chunks.map some).reduceOption = chunks := by simp [List.reduceOption, List.filterMap_map]
    unfold QueueReader.rest QueueReader.pending
    rw [List.nil_append, List.reduceOption_append, chunks_, List.reduceOption_singleton, Option.toList_none, List.append_nil]
  have all : chunks.flatten = [] ++ QueueReader.rest { queue := chunks.map some ++ [none] } := rest.symm
  obtain ⟨outcomes, final, steps, length, sub, agrees⟩ := QueueReader.calls_spec calls separators closed all
  exact ⟨_, outcomes, final, connected_eq chunks, steps, length, rest ▸ sub, agrees⟩

theorem connected_reads_iff_example :
    ∃ reader outcomes final, connected [[65, 13], [10, 66]] = .ok reader ∧
      reader.calls [.read 1, .readuntil [13, 10], .readexactly 1] = some (outcomes, final) ∧ outcomes.length = 3 ∧
      outcomes.flatMap (·.bytes) <+: [65, 13, 10, 66] := by
  obtain ⟨reader, outcomes, final, fed, ran, length, sub, -⟩ := connected_reads_iff [[65, 13], [10, 66]]
    [.read 1, .readuntil [13, 10], .readexactly 1] (by
      intro separator mem
      obtain rfl : separator = [13, 10] := by simpa using mem
      decide)
  exact ⟨reader, outcomes, final, fed, ran, length, sub⟩

/-- A separator of two bytes is overlooked in the first chunk. A read of an empty chunk, and one of all but two bytes, give
nothing though there is more. -/
theorem separator_overlooked :
    ((connected [[65, 13, 10], [66]]).toOption.bind (·.calls [.readuntil [13, 10]])).map (·.1) =
        some [.returned [65, 13, 10, 66]] ∧
      ¬ Answers [65, 13, 10, 66] 0 (.readuntil [13, 10]) (.returned [65, 13, 10, 66]) ∧
      ((connected [[], [66]]).toOption.bind (·.calls [.read (-1)])).map (·.1) = some [.returned []] ∧
      ¬ Answers [66] 0 (.read (-1)) (.returned []) ∧
      ((connected [[65, 66]]).toOption.bind (·.calls [.read (-2)])).map (·.1) = some [.returned []] ∧
      ¬ Answers [65, 66] 0 (.read (-2)) (.returned []) := by
  refine ⟨by decide +kernel, ?_, by decide +kernel, ?_, by decide +kernel, ?_⟩
  · intro answers
    exact absurd (show ReadOutcome.returned [65, 13, 10, 66] = .returned [65, 13, 10] from answers) (by decide)
  · intro answers
    exact absurd (answers (by decide) rfl) (by decide)
  · intro answers
    exact absurd (answers (by decide) rfl) (by decide)

end SensorKit.Data
