import SensorKit.Data.FileWriter
import SensorKit.Lib.Indexed

/-!
# Writers with temporary files of their own

A writer that still writes or renames has the only handle on its temporary file, which holds what the writer has
written so far. As long as no writer is opened on another's temporary or target path, no step of a writer touches what
the others rely on.
-/

namespace SensorKit.Data

open Lib

variable {fs fs' : FileSystem Path Written} {i j n : ℕ} {w w' v : FileAsyncWriter} {p path : Path}
  {data data' : List UInt8}

theorem stamp_append : stamp i (data ++ data') = stamp i data ++ stamp i data' :=
  List.map_append

theorem writer_of_mem_stamp {b : Written} (mem : b ∈ stamp i data) : b.writer = some i := by
  obtain ⟨byte, -, rfl⟩ := List.mem_map.1 mem
  rfl

theorem WriteTask.not_published_of_live {task : WriteTask} (live : task.live = true) : task.isPublished = false := by
  cases task with
  | published => cases live
  | _ => rfl

namespace FileAsyncWriter

/-- What is still to be written; none if that has failed. -/
def remaining (w : FileAsyncWriter) : Option (List UInt8) :=
  match w.task with
  | .getting => some w.queue.flatten
  | .writing data => some (data ++ w.queue.flatten)
  | .closing false | .moving false | .published false => some []
  | _ => none

/-- The task has stopped writing, so that nothing more is accepted. -/
def Shut (w : FileAsyncWriter) : Prop :=
  w.task = .getting ∨ (∃ data, w.task = .writing data) ∨ w.closeRequested = true

/-- Once it has stopped writing it stays shut. -/
theorem Shut.keep (shut : w.Shut) (getting : w.task ≠ .getting) (writing : ∀ data, w.task ≠ .writing data)
    (same : w'.closeRequested = w.closeRequested) : w'.Shut := by
  rcases shut with at_ | ⟨data, at_⟩ | closing
  · exact absurd at_ getting
  · exact absurd at_ (writing data)
  · exact .inr (.inr (same.trans closing))

/-- The file there holds what the writer has written, and unless it has failed only the rest is missing. -/
structure Holds (fs : FileSystem Path Written) (i : ℕ) (w : FileAsyncWriter) (p : Path) : Prop where
  shut : w.Shut
  holds : ∃ c, fs.contents p = some c ∧ (∀ b ∈ c, b.writer = some i) ∧
    ∀ rest, w.remaining = some rest → c ++ stamp i rest = stamp i w.written

theorem Holds.congr (h : Holds fs i w p) (same : fs'.contents p = fs.contents p) : Holds fs' i w p := by
  obtain ⟨shut, c, there, own, rest⟩ := h
  exact ⟨shut, c, same.trans there, own, rest⟩

/-- Steps that write nothing leave the same rest, or fail. -/
theorem Holds.waits (h : Holds fs i w p) (shut : w'.Shut) (written : w'.written = w.written)
    (rest : ∀ rest, w'.remaining = some rest → w.remaining = some rest) : Holds fs i w' p := by
  obtain ⟨-, c, there, own, left⟩ := h
  refine ⟨shut, c, there, own, ?_⟩
  intro r remains
  rw [written]
  exact left r (rest r remains)

/-- The task writes a part of what is left. -/
theorem Holds.append (h : Holds fs i w p) (named : fs.file p = some w.file) (shut : w'.Shut)
    (written : w'.written = w.written)
    (rest : ∀ rest, w'.remaining = some rest → w.remaining = some (data ++ rest)) :
    Holds (fs.append w.file (stamp i data)) i w' p := by
  obtain ⟨-, c, there, own, left⟩ := h
  cases (FileSystem.contents_of_file named).symm.trans there
  refine ⟨shut, _, FileSystem.contents_append_self named, ?_, ?_⟩
  · intro b mem
    rcases List.mem_append.1 mem with mem | mem
    · exact own b mem
    · exact writer_of_mem_stamp mem
  · intro r remains
    rw [written, List.append_assoc, ← stamp_append]
    exact left _ (rest r remains)

/-- A caller adds to what is left. -/
theorem Holds.write (h : Holds fs i w p) (wrote : w.write data = some w') : Holds fs i w' p := by
  obtain ⟨accepts, ⟨⟩⟩ := Option.ite_none_left_eq_some.1 wrote
  obtain ⟨shut, c, there, own, left⟩ := h
  have grows : ∀ rest, w.remaining = some rest → c ++ stamp i (rest ++ data) = stamp i (w.written ++ data) := by
    intro rest remains
    rw [stamp_append, stamp_append, ← List.append_assoc, left rest remains]
  unfold remaining at grows
  rcases shut with at_ | ⟨chunk, at_⟩ | closing
  · refine ⟨.inl at_, c, there, own, ?_⟩
    intro rest remains
    rw [at_] at grows
    simp only [remaining, at_, Option.some.injEq] at remains
    subst remains
    simpa using grows _ rfl
  · refine ⟨.inr (.inl ⟨chunk, at_⟩), c, there, own, ?_⟩
    intro rest remains
    rw [at_] at grows
    simp only [remaining, at_, Option.some.injEq] at remains
    subst remains
    simpa using grows _ rfl
  · exact absurd closing accepts

end FileAsyncWriter

/-! ## The invariant -/

namespace Writers

open FileAsyncWriter

variable {s s' : Writers}

/-- What holds between two steps of a run whose temporary paths are apart. -/
structure Inv (s : Writers) : Prop where
  opened : ∀ (i : ℕ) w, s.writers[i]? = some w → w.task.live = true →
    s.fs.file w.path = some w.file ∧ Holds s.fs i w w.path
  published : ∀ (i : ℕ) w, s.writers[i]? = some w → w.task.isPublished = true → Holds s.fs i w w.targetPath
  own : ∀ (i : ℕ) w, s.writers[i]? = some w → ∀ c, s.fs.contents w.targetPath = some c →
    ∀ b ∈ c, b.writer = none ∨ b.writer = some i
  /-- Elsewhere there is only what no writer has written. -/
  strays : ∀ p c, s.fs.contents p = some c → (∀ b ∈ c, b.writer = none) ∨
    ∃ w ∈ s.writers, w.targetPath = p ∨ w.task.isPublished = false ∧ w.path = p
  apart : ∀ (i j : ℕ) (w v : FileAsyncWriter), i ≠ j → s.writers[i]? = some w → s.writers[j]? = some v →
    w.targetPath ≠ v.targetPath ∧ (w.task.isPublished = false → w.path ≠ v.targetPath) ∧
      (w.task.live = true → v.task.live = true → w.path ≠ v.path)

theorem Inv.isolated (h : s.Inv) : s.Isolated := by
  refine ⟨?_, h.own⟩
  intro i w here returns
  obtain ⟨-, c, there, -, rest⟩ := h.published i w here (by rw [returns]; rfl)
  have whole := rest [] (by unfold remaining; rw [returns])
  rw [there, ← whole]
  simp [stamp]

/-- The same writer after a step of it. -/
structure Succ (w w' : FileAsyncWriter) : Prop where
  path : w'.path = w.path
  targetPath : w'.targetPath = w.targetPath
  live : w'.task.live = true → w.task.live = true
  unpublished : w'.task.isPublished = false → w.task.isPublished = false

section

variable (h : s.Inv) (here : s.writers[i]? = some w)
include h here

/-- Successors stay apart. -/
theorem Inv.apart_update (succ : Succ w w') :
    ∀ (k j : ℕ) (u v : FileAsyncWriter), k ≠ j → (s.writers.set i w')[k]? = some u → (s.writers.set i w')[j]? = some v →
      u.targetPath ≠ v.targetPath ∧ (u.task.isPublished = false → u.path ≠ v.targetPath) ∧
        (u.task.live = true → v.task.live = true → u.path ≠ v.path) := by
  have before (k : ℕ) (u : FileAsyncWriter) (found : (s.writers.set i w')[k]? = some u) : ∃ u₀, s.writers[k]? = some u₀ ∧ Succ u₀ u := by
    rcases found_set found with ⟨rfl, rfl⟩ | ⟨-, found⟩
    · exact ⟨w, here, succ⟩
    · exact ⟨u, found, rfl, rfl, id, id⟩
  intro k j u v ne found found'
  obtain ⟨u₀, there, succ⟩ := before k u found
  obtain ⟨v₀, there', succ'⟩ := before j v found'
  obtain ⟨targets, left, temps⟩ := h.apart k j u₀ v₀ ne there there'
  rw [succ.path, succ.targetPath, succ'.path, succ'.targetPath]
  exact ⟨targets, fun unpublished => left (succ.unpublished unpublished),
    fun live live' => temps (succ.live live) (succ'.live live')⟩

/-- Steps that leave the files alone. -/
theorem Inv.update (succ : Succ w w') (file : w'.file = w.file) (published : w'.task.isPublished = w.task.isPublished)
    (keeps : ∀ p, Holds s.fs i w p → Holds s.fs i w' p) : (s.update i w').Inv := by
  refine ⟨?_, ?_, ?_, ?_, h.apart_update here succ⟩
  · intro k v found live
    rcases found_set found with ⟨rfl, rfl⟩ | ⟨-, found⟩
    · obtain ⟨named, holds⟩ := h.opened k w here (succ.live live)
      rw [succ.path, file]
      exact ⟨named, keeps _ holds⟩
    · exact h.opened k v found live
  · intro k v found done
    rcases found_set found with ⟨rfl, rfl⟩ | ⟨-, found⟩
    · rw [succ.targetPath]
      exact keeps _ (h.published k w here (published.symm.trans done))
    · exact h.published k v found done
  · intro k v found
    rcases found_set found with ⟨rfl, rfl⟩ | ⟨-, found⟩
    · rw [succ.targetPath]
      exact h.own k w here
    · exact h.own k v found
  · intro p c there
    rcases h.strays p c there with old | ⟨v, mem, at_⟩
    · exact .inl old
    · obtain ⟨k, found⟩ := List.mem_iff_getElem?.1 mem
      by_cases same : k = i
      · subst same
        cases here.symm.trans found
        refine .inr ⟨w', List.mem_iff_getElem?.2 ⟨k, ?_⟩, ?_⟩
        · exact List.getElem?_set_self (List.getElem?_eq_some_iff.1 here).1
        · rw [succ.targetPath, succ.path, published]
          exact at_
      · refine .inr ⟨v, List.mem_iff_getElem?.2 ⟨k, ?_⟩, at_⟩
        rw [← found]
        exact List.getElem?_set_ne (Ne.symm same)

/-- Steps of a live writer change the files of its two paths only. -/
theorem Inv.rewrite (live : w.task.live = true) (succ : Succ w w')
    (frame : ∀ p, p ≠ w.path → p ≠ w.targetPath → fs'.file p = s.fs.file p ∧ fs'.contents p = s.fs.contents p)
    (opened : w'.task.live = true → fs'.file w.path = some w'.file ∧ Holds fs' i w' w.path)
    (published : w'.task.isPublished = true → Holds fs' i w' w.targetPath)
    (own : ∀ c, fs'.contents w.targetPath = some c → ∀ b ∈ c, b.writer = none ∨ b.writer = some i)
    (moved : w'.task.isPublished = true → w.path ≠ w.targetPath → fs'.contents w.path = none) :
    ({ s with fs := fs' }.update i w').Inv := by
  have unpublished := w.task.not_published_of_live live
  refine ⟨?_, ?_, ?_, ?_, h.apart_update here succ⟩
  · intro k v found live'
    rcases found_set found with ⟨rfl, rfl⟩ | ⟨ne, found⟩
    · rw [succ.path]
      exact opened live'
    · obtain ⟨named, holds⟩ := h.opened k v found live'
      obtain ⟨-, temp, temps⟩ := h.apart k i v w ne found here
      obtain ⟨file, contents⟩ := frame v.path (temps live' live) (temp (v.task.not_published_of_live live'))
      exact ⟨file.trans named, holds.congr contents⟩
  · intro k v found done
    rcases found_set found with ⟨rfl, rfl⟩ | ⟨ne, found⟩
    · rw [succ.targetPath]
      exact published done
    · obtain ⟨targets, temp, -⟩ := h.apart i k w v (Ne.symm ne) here found
      exact (h.published k v found done).congr (frame _ (temp unpublished).symm targets.symm).2
  · intro k v found c there
    rcases found_set found with ⟨rfl, rfl⟩ | ⟨ne, found⟩
    · rw [succ.targetPath] at there
      exact own c there
    · obtain ⟨targets, temp, -⟩ := h.apart i k w v (Ne.symm ne) here found
      exact h.own k v found c ((frame _ (temp unpublished).symm targets.symm).2 ▸ there)
  · intro p c there
    have mine : w' ∈ s.writers.set i w' := mem_of_found (set_found here)
    by_cases target : p = w.targetPath
    · exact .inr ⟨w', mine, .inl (succ.targetPath.trans target.symm)⟩
    by_cases temp : p = w.path
    · subst temp
      cases done : w'.task.isPublished with
      | false => exact .inr ⟨w', mine, .inr ⟨done, succ.path⟩⟩
      | true =>
        have shown : fs'.contents w.path = some c := there
        rw [moved done target] at shown
        cases shown
    · rcases h.strays p c ((frame p temp target).2 ▸ there) with old | ⟨v, mem, at_⟩
      · exact .inl old
      · obtain ⟨k, found⟩ := List.mem_iff_getElem?.1 mem
        have ne : k ≠ i := by
          rintro rfl
          cases here.symm.trans found
          rcases at_ with at_ | ⟨-, at_⟩
          · exact target at_.symm
          · exact temp at_.symm
        exact .inr ⟨v, mem_of_found (found_set_of_ne found ne), at_⟩

/-- The task writes a part of what is left. -/
theorem Inv.append (live : w.task.live = true) (succ : Succ w w') (file : w'.file = w.file)
    (unpublished : w'.task.isPublished = false) (shut : w'.Shut) (written : w'.written = w.written)
    (rest : ∀ rest, w'.remaining = some rest → w.remaining = some (data ++ rest)) :
    ((s.append i w data).update i w').Inv := by
  obtain ⟨named, holds⟩ := h.opened i w here live
  have after := holds.append named shut written rest
  refine h.rewrite here live succ ?_ ?_ ?_ ?_ ?_
  · intro p temp _
    exact ⟨rfl, FileSystem.contents_append_of_ne named temp⟩
  · intro _
    exact ⟨named.trans (congrArg some file.symm), after⟩
  · intro done
    rw [unpublished] at done
    cases done
  · intro c there
    by_cases target : w.targetPath = w.path
    · rw [target] at there
      obtain ⟨-, c', there', own, -⟩ := after
      cases there'.symm.trans there
      exact fun b mem => .inr (own b mem)
    · exact h.own i w here c ((FileSystem.contents_append_of_ne named target).symm.trans there)
  · intro done
    rw [unpublished] at done
    cases done

/-- The file moves to its target. -/
theorem Inv.rename (live : w.task.live = true) (succ : Succ w w')
    (renamed : s.fs.rename w.path w.targetPath = some fs') (dead : w'.task.live = false) (shut : w'.Shut)
    (written : w'.written = w.written) (rest : ∀ rest, w'.remaining = some rest → w.remaining = some rest) :
    ({ s with fs := fs' }.update i w').Inv := by
  obtain ⟨-, holds⟩ := h.opened i w here live
  have there : Holds fs' i w' w.targetPath := by
    obtain ⟨-, c, there, own, left⟩ := holds.waits shut written rest
    exact ⟨shut, c, (FileSystem.contents_rename_self renamed).trans there, own, left⟩
  refine h.rewrite here live succ ?_ ?_ ?_ ?_ ?_
  · intro p temp target
    exact ⟨FileSystem.rename_file_of_ne renamed temp target, FileSystem.contents_rename_of_ne renamed temp target⟩
  · intro live'
    rw [dead] at live'
    cases live'
  · intro _
    exact there
  · intro c shows
    obtain ⟨-, c', there, own, -⟩ := there
    cases there.symm.trans shows
    exact fun b mem => .inr (own b mem)
  · intro _ ne
    exact FileSystem.contents_rename_old renamed ne

end

/-- A new writer starts on an empty file of its own. -/
theorem Inv.open_ (h : s.Inv) (distinct : s.Distinct (.open_ path)) (apart : s.TempApart (.open_ path))
    (opens : s.open_ path = some s') : s'.Inv := by
  unfold Writers.open_ at opens
  simp only [Option.bind_eq_bind, Option.bind_eq_some_iff, Option.pure_def, Option.some.injEq] at opens
  obtain ⟨tempPath, suffixed, rfl⟩ := opens
  have own_ (v : FileAsyncWriter) (mem : v ∈ s.writers) :
      (v.task.isPublished = false → v.path ≠ path) ∧ v.targetPath ≠ tempPath ∧
        (v.task.live = true → v.path ≠ tempPath) :=
    ⟨(apart v mem).1, (apart v mem).2 tempPath suffixed⟩
  have frame (p : Path) (ne : p ≠ tempPath) : (s.fs.truncate tempPath).1.file p = s.fs.file p ∧
      (s.fs.truncate tempPath).1.contents p = s.fs.contents p :=
    ⟨FileSystem.truncate_file_of_ne ne, FileSystem.contents_truncate_of_ne ne⟩
  have empty : (s.fs.truncate tempPath).1.contents tempPath = some [] := FileSystem.contents_truncate_self
  refine ⟨?_, ?_, ?_, ?_, ?_⟩
  · intro k v found live
    rcases found_snoc found with found | ⟨rfl, rfl⟩
    · obtain ⟨named, holds⟩ := h.opened k v found live
      obtain ⟨file, contents⟩ := frame v.path ((own_ v (mem_of_found found)).2.2 live)
      exact ⟨file.trans named, holds.congr contents⟩
    · refine ⟨FileSystem.truncate_file_self, .inl rfl, [], empty, by simp, ?_⟩
      intro rest remains
      cases remains
      rfl
  · intro k v found done
    rcases found_snoc found with found | ⟨rfl, rfl⟩
    · exact (h.published k v found done).congr (frame _ (own_ v (mem_of_found found)).2.1).2
    · cases done
  · intro k v found c there
    rcases found_snoc found with found | ⟨rfl, rfl⟩
    · exact h.own k v found c ((frame _ (own_ v (mem_of_found found)).2.1).2 ▸ there)
    · by_cases same : path = tempPath
      · subst same
        cases empty.symm.trans there
        simp
      · -- What the target holds so far is no writer's.
        rcases h.strays path c ((frame path same).2 ▸ there) with old | ⟨v, mem, target | ⟨unpublished, temp⟩⟩
        · exact fun b mem => .inl (old b mem)
        · exact absurd target (distinct v mem)
        · exact absurd temp ((own_ v mem).1 unpublished)
  · intro p c there
    by_cases same : p = tempPath
    · exact .inr ⟨_, List.mem_append_right _ (List.mem_singleton.2 rfl), .inr ⟨rfl, same.symm⟩⟩
    · rcases h.strays p c ((frame p same).2 ▸ there) with old | ⟨v, mem, at_⟩
      · exact .inl old
      · exact .inr ⟨v, List.mem_append_left _ mem, at_⟩
  · intro k j u v ne found found'
    rcases found_snoc found with found | ⟨rfl, rfl⟩
    · rcases found_snoc found' with found' | ⟨rfl, rfl⟩
      · exact h.apart k j u v ne found found'
      · obtain ⟨temp, -, temps⟩ := own_ u (mem_of_found found)
        exact ⟨distinct u (mem_of_found found), temp, fun live _ => temps live⟩
    · rcases found_snoc found' with found' | ⟨rfl, rfl⟩
      · obtain ⟨-, target, temps⟩ := own_ v (mem_of_found found')
        exact ⟨(distinct v (mem_of_found found')).symm, fun _ => target.symm, fun _ live => (temps live).symm⟩
      · exact absurd rfl ne

/-- Steps of a task that neither write nor rename. -/
theorem Inv.waits (h : s.Inv) (here : s.writers[i]? = some w) (succ : Succ w w') (file : w'.file = w.file)
    (published : w'.task.isPublished = w.task.isPublished) (shut : w.Shut → w'.Shut) (written : w'.written = w.written)
    (rest : ∀ rest, w'.remaining = some rest → w.remaining = some rest) : (s.update i w').Inv :=
  h.update here succ file published fun _ holds => holds.waits (shut holds.shut) written rest

/-- **A step keeps the invariant.** -/
theorem Inv.step {a : WriterLabel} (h : s.Inv) (distinct : s.Distinct a) (apart : s.TempApart a)
    (hs : s.step a = some s') : s'.Inv := by
  cases a with
  | open_ path => exact h.open_ distinct apart hs
  | write i data =>
    obtain ⟨w, here, turn⟩ := Option.bind_eq_some_iff.1 hs
    obtain ⟨w', wrote, ⟨⟩⟩ := Option.bind_eq_some_iff.1 turn
    have same : Succ w w' ∧ w'.file = w.file ∧ w'.task = w.task := by
      obtain ⟨-, ⟨⟩⟩ := Option.ite_none_left_eq_some.1 wrote
      exact ⟨⟨rfl, rfl, id, id⟩, rfl, rfl⟩
    obtain ⟨succ, file, task⟩ := same
    exact h.update here succ file (congrArg _ task) fun p holds => holds.write wrote
  | close i =>
    obtain ⟨w, here, ⟨⟩⟩ := Option.bind_eq_some_iff.1 hs
    exact h.waits here ⟨rfl, rfl, id, id⟩ rfl rfl (fun _ => .inr (.inr rfl)) rfl fun _ => id
  | get i =>
    obtain ⟨w, here, turn⟩ := Option.bind_eq_some_iff.1 hs
    obtain ⟨w', got, ⟨⟩⟩ := Option.bind_eq_some_iff.1 turn
    unfold FileAsyncWriter.get at got
    split at got
    · rename_i data queue task queued
      cases got
      refine h.waits here ⟨rfl, rfl, fun _ => by rw [task]; rfl, fun _ => by rw [task]; rfl⟩ rfl (by rw [task]; rfl)
        (fun _ => .inr (.inl ⟨data, rfl⟩)) rfl ?_
      intro rest remains
      unfold remaining
      rw [task, queued]
      exact remains
    · rename_i task queued
      obtain ⟨-, ⟨⟩⟩ := Option.ite_none_right_eq_some.1 got
      refine h.waits here ⟨rfl, rfl, fun _ => by rw [task]; rfl, fun _ => by rw [task]; rfl⟩ rfl (by rw [task]; rfl)
        (fun _ => .inr (.inr rfl)) rfl ?_
      intro rest remains
      unfold remaining
      rw [task, queued]
      exact remains
    · cases got
  | wrote i =>
    obtain ⟨w, here, turn⟩ := Option.bind_eq_some_iff.1 hs
    cases task : w.task with
    | writing data =>
      simp only [task] at turn
      cases turn
      have live : w.task.live = true := by rw [task]; rfl
      refine h.append here live ⟨rfl, rfl, fun _ => live, fun _ => w.task.not_published_of_live live⟩ rfl rfl
        (.inl rfl) rfl ?_
      intro rest remains
      cases remains
      unfold remaining
      rw [task]
      rfl
    | _ => simp [task] at turn
  | unwritten i kept =>
    obtain ⟨w, here, turn⟩ := Option.bind_eq_some_iff.1 hs
    cases task : w.task with
    | writing data =>
      simp only [task] at turn
      cases turn
      have live : w.task.live = true := by rw [task]; rfl
      refine h.append here live ⟨rfl, rfl, fun _ => live, fun _ => w.task.not_published_of_live live⟩ rfl rfl
        (.inr (.inr rfl)) rfl ?_
      intro rest remains
      cases remains
    | _ => simp [task] at turn
  | interrupt i =>
    obtain ⟨w, here, turn⟩ := Option.bind_eq_some_iff.1 hs
    obtain ⟨task, ⟨⟩⟩ := Option.ite_none_right_eq_some.1 turn
    refine h.waits here ⟨rfl, rfl, fun _ => by rw [task]; rfl, fun _ => by rw [task]; rfl⟩ rfl (by rw [task]; rfl)
      (fun _ => .inr (.inr rfl)) rfl ?_
    intro rest remains
    cases remains
  | closed i ok =>
    obtain ⟨w, here, turn⟩ := Option.bind_eq_some_iff.1 hs
    obtain ⟨w', closes, ⟨⟩⟩ := Option.bind_eq_some_iff.1 turn
    unfold FileAsyncWriter.closed at closes
    split at closes
    · rename_i failed task
      cases closes
      refine h.waits here ⟨rfl, rfl, fun _ => by rw [task]; rfl, fun _ => by rw [task]; rfl⟩ rfl ?_
        (fun shut => shut.keep (by simp [task]) (by simp [task]) rfl) rfl ?_
      · rw [task]
        cases ok <;> rfl
      · intro rest remains
        unfold remaining at remains ⊢
        rw [task]
        cases ok <;> cases failed <;> first | exact remains | cases remains
    · cases closes
  | timeout i =>
    obtain ⟨w, here, turn⟩ := Option.bind_eq_some_iff.1 hs
    obtain ⟨w', times, ⟨⟩⟩ := Option.bind_eq_some_iff.1 turn
    unfold FileAsyncWriter.timeout at times
    split at times
    · rename_i failed task
      cases times
      refine h.waits here ⟨rfl, rfl, fun _ => by rw [task]; rfl, fun _ => by rw [task]; rfl⟩ rfl (by rw [task]; rfl)
        (fun shut => shut.keep (by simp [task]) (by simp [task]) rfl) rfl ?_
      intro rest remains
      cases remains
    · rename_i failed task
      cases times
      refine h.waits here ⟨rfl, rfl, fun _ => by rw [task]; rfl, fun _ => by rw [task]; rfl⟩ rfl (by rw [task]; rfl)
        (fun shut => shut.keep (by simp [task]) (by simp [task]) rfl) rfl ?_
      intro rest remains
      cases remains
    · cases times
  | renamed i =>
    obtain ⟨w, here, turn⟩ := Option.bind_eq_some_iff.1 hs
    obtain ⟨w', named, turn⟩ := Option.bind_eq_some_iff.1 turn
    obtain ⟨fs', renames, ⟨⟩⟩ := Option.bind_eq_some_iff.1 turn
    unfold FileAsyncWriter.renamed at named
    split at named
    · rename_i failed task
      cases named
      have live : w.task.live = true := by rw [task]; rfl
      have shut : w.Shut := (h.opened i w here live).2.shut
      refine h.rename here live ⟨rfl, rfl, fun _ => live, fun _ => w.task.not_published_of_live live⟩ renames rfl
        (shut.keep (by simp [task]) (by simp [task]) rfl) rfl ?_
      intro rest remains
      unfold remaining at remains ⊢
      rw [task]
      cases failed <;> exact remains
    · rename_i task
      cases named
      have live : w.task.live = true := by rw [task]; rfl
      have shut : w.Shut := (h.opened i w here live).2.shut
      refine h.rename here live ⟨rfl, rfl, fun _ => live, fun _ => w.task.not_published_of_live live⟩ renames rfl
        (shut.keep (by simp [task]) (by simp [task]) rfl) rfl ?_
      intro rest remains
      cases remains
    · cases named
  | unrenamed i =>
    obtain ⟨w, here, turn⟩ := Option.bind_eq_some_iff.1 hs
    obtain ⟨w', fails, ⟨⟩⟩ := Option.bind_eq_some_iff.1 turn
    unfold FileAsyncWriter.unrenamed at fails
    split at fails
    · rename_i failed task
      cases fails
      refine h.waits here ⟨rfl, rfl, fun _ => by rw [task]; rfl, fun _ => by rw [task]; rfl⟩ rfl (by rw [task]; rfl)
        (fun shut => shut.keep (by simp [task]) (by simp [task]) rfl) rfl ?_
      intro rest remains
      cases remains
    · rename_i task
      cases fails
      refine h.waits here ⟨rfl, rfl, fun _ => by rw [task]; rfl, fun _ => by rw [task]; rfl⟩ rfl (by rw [task]; rfl)
        (fun shut => shut.keep (by simp [task]) (by simp [task]) rfl) rfl ?_
      intro rest remains
      cases remains
    · cases fails

theorem inv_start {fs : FileSystem Path Written} (old : Unwritten fs) : Inv { fs } := by
  refine ⟨by simp, by simp, by simp, ?_, by simp⟩
  intro p c there
  exact .inl (old.old p c there)

/-! ## Runs -/

instance (s : Writers) (a : WriterLabel) : Decidable (s.Distinct a) :=
  match a with
  | .open_ _ => inferInstanceAs (Decidable (∀ w ∈ s.writers, _))
  | .write .. | .close _ | .get _ | .wrote _ | .unwritten .. | .interrupt _ | .closed .. | .timeout _ | .renamed _
  | .unrenamed _ => inferInstanceAs (Decidable True)

instance (s : Writers) (a : WriterLabel) : Decidable (s.TempApart a) :=
  match a with
  | .open_ _ => inferInstanceAs (Decidable (∀ w ∈ s.writers, _ ∧ ∀ tempPath ∈ _, _))
  | .write .. | .close _ | .get _ | .wrote _ | .unwritten .. | .interrupt _ | .closed .. | .timeout _ | .renamed _
  | .unrenamed _ => inferInstanceAs (Decidable True)

/-- Write one byte through the writer. -/
def putByte (i : ℕ) (byte : UInt8) : List WriterLabel :=
  [.write i [byte], .get i, .wrote i]

/-- Close the writer, and publish its file. -/
def publish (i : ℕ) : List WriterLabel :=
  [.close i, .get i, .closed i true, .renamed i]

/-- An image and its sidecar. -/
def image : Path := ⟨"/data", "m31.fits"⟩
def sidecar : Path := ⟨"/data", "m31.json"⟩

/-- **Writers do not mix** as long as each is opened apart: its temporary path is no target and no path that a writer
still writes to or renames, and its target is no path where a temporary file is left. -/
theorem isolated_of_tempApart {fs : FileSystem Path Written} (old : Unwritten fs)
    (run : Reaches step (fun s a => s.Distinct a ∧ s.TempApart a) { fs } s) : s.Isolated :=
  (run.invariant (inv_start old) fun _ _ _ h ok hs => h.step ok.1 ok.2 hs).isolated

/-- Two images, written at the same time. -/
theorem isolated_of_tempApart_example : ∃ s : Writers,
    s.fs.contents image = some (stamp 0 [1]) ∧ s.fs.contents ⟨"/data", "m32.fits"⟩ = some (stamp 1 [2]) ∧
      s.Isolated := by
  let labels := [.open_ image, .open_ ⟨"/data", "m32.fits"⟩] ++ putByte 0 1 ++ putByte 1 2 ++ publish 0 ++ publish 1
  have ends : (exec step { fs := .empty } labels).map (fun s =>
      (s.fs.contents image, s.fs.contents ⟨"/data", "m32.fits"⟩)) = some (some (stamp 0 [1]), some (stamp 1 [2])) := by
    decide +kernel
  have apart : okAlong step (fun s a => s.Distinct a ∧ s.TempApart a) { fs := .empty } labels := by
    decide +kernel
  obtain ⟨s, run, shows⟩ := Option.map_eq_some_iff.1 ends
  obtain ⟨first, second⟩ := Prod.mk.inj shows
  have old : Unwritten .empty := ⟨by simp [FileSystem.contents, FileSystem.empty]⟩
  exact ⟨s, first, second, isolated_of_tempApart old (reaches_of_exec run apart)⟩

/-- Both go through `m31.tmp`: the image is published with the bytes of its sidecar. -/
theorem not_isolated_sameStem : ∃ s, Unwritten (.empty : FileSystem Path Written) ∧
    Reaches step Distinct { fs := .empty } s ∧ ¬ s.Isolated := by
  let labels := [.open_ image, .open_ sidecar] ++ putByte 0 1 ++ putByte 1 2 ++ publish 0
  have ends : (exec step { fs := .empty } labels).map (fun s => (s.fs.contents image, s.writers.map (·.targetPath))) =
      some (some [⟨1, some 0⟩, ⟨2, some 1⟩], [image, sidecar]) := by
    decide +kernel
  have distinct : okAlong step Distinct { fs := .empty } labels := by
    decide +kernel
  obtain ⟨s, run, shows⟩ := Option.map_eq_some_iff.1 ends
  obtain ⟨contents, targets⟩ := Prod.mk.inj shows
  refine ⟨s, ⟨by simp [FileSystem.contents, FileSystem.empty]⟩, reaches_of_exec run distinct, ?_⟩
  intro isolated
  obtain ⟨w, rest, eq⟩ : ∃ w rest, s.writers = w :: rest := by
    cases eq : s.writers with
    | nil => simp [eq] at targets
    | cons w rest => exact ⟨w, rest, rfl⟩
  have target : w.targetPath = image := by
    rw [eq] at targets
    exact (List.cons.inj targets).1
  have mixed := isolated.own 0 w (by rw [eq]; rfl) _ (target ▸ contents) ⟨2, some 1⟩ (by simp)
  simp at mixed

end Writers

end SensorKit.Data
