import Mathlib.Order.WellFounded

/-!
# Readers and writers in a plan

Steps of a plan are listed in order, and wait for earlier ones. Some write a resource, some read
through an instrument, which uses several resources. The plan only lets a step wait for the last
writers and readers before it; `Plan` says which waits are there. In a run of the plan a step may
also be given up, without waiting, when one that it requires has failed. `Snapshot` is what holds
at any moment of such a run, and implies that no writer of a resource is active beside another
one, or beside a reader that uses the resource, nor a reader beside another of its instrument.
-/

namespace SensorKit.Lib.ReadersWriters

variable {ν δ ι : Type*}

/-- The waits of a plan. `deps` lists the steps that a step waits for, and `hard` those of them
that have to succeed. -/
structure Plan [LinearOrder ν] (writes : ν → δ → Prop) (reads : ν → ι → Prop) (uses : ι → δ → Prop)
    (deps hard : ν → ν → Prop) : Prop where
  /-- A writer requires nothing. -/
  writer_free : ∀ {n p d}, writes n p → ¬ hard n d
  /-- A writer waits for the writers of its resource. -/
  writer_writer : ∀ {n m p}, writes n p → writes m p → m < n → ∃ l, writes l p ∧ m ≤ l ∧ l < n ∧ deps n l
  /-- A writer waits for the readers that use its resource. -/
  writer_reader : ∀ {n m p i}, writes n p → uses i p → reads m i → m < n →
    ∃ l, reads l i ∧ m ≤ l ∧ l < n ∧ deps n l
  /-- A reader waits for the readers of its instrument. -/
  reader_reader : ∀ {n m i}, reads n i → reads m i → m < n → ∃ l, reads l i ∧ m ≤ l ∧ l < n ∧ deps n l
  /-- A reader requires the last writers of the resources that it uses. -/
  reader_writer : ∀ {n m p i}, reads n i → uses i p → writes m p → m < n →
    ∃ l, writes l p ∧ m ≤ l ∧ l < n ∧ hard n l
  /-- A reader requires writers only. -/
  reader_requires : ∀ {n i h}, reads n i → hard n h → ∃ p, writes h p
  /-- What a reader requires was required by an earlier reader of its instrument, or waits for it
  or one after it. -/
  reader_shares : ∀ {n m i h}, reads n i → reads m i → m < n → hard n h →
    hard m h ∨ ∃ l, reads l i ∧ m ≤ l ∧ l < n ∧ deps h l

/-- A moment of a run: which steps have resolved, which of those failed, which have run, and which
are active. -/
structure Snapshot (deps hard : ν → ν → Prop) (resolved failed ran active : ν → Prop) : Prop where
  waited : ∀ {n d}, ran n ∨ active n → deps n d → resolved d
  required : ∀ {n d}, ran n ∨ active n → hard n d → resolved d ∧ ¬ failed d
  /-- What has not run was given up for a failure that it required not to happen. -/
  given_up : ∀ {n}, resolved n → ran n ∨ ∃ d, hard n d ∧ failed d
  failed_resolved : ∀ {n}, failed n → resolved n
  /-- A step that requires a failed one has resolved. -/
  settled : ∀ {n d}, hard n d → failed d → resolved n
  active_open : ∀ {n}, active n → ¬ resolved n

namespace Snapshot

variable [LinearOrder ν] [WellFoundedLT ν] {writes : ν → δ → Prop} {reads : ν → ι → Prop} {uses : ι → δ → Prop}
  {deps hard : ν → ν → Prop} {resolved failed ran active : ν → Prop} {n m : ν} {p : δ} {i : ι}

section Rules

variable (s : Snapshot deps hard resolved failed ran active) (plan : Plan writes reads uses deps hard)

include s plan

omit [WellFoundedLT ν] in
/-- A writer is never given up. -/
theorem writer_ran (writer : writes n p) (done : resolved n) : ran n :=
  (s.given_up done).resolve_right fun ⟨_, required, _⟩ => plan.writer_free writer required

/-- The writers of a resource resolve in order. -/
theorem writer_resolved (writer : writes n p) (going : ran n ∨ active n) (earlier : writes m p) (lt : m < n) :
    resolved m := by
  induction n using WellFoundedLT.induction with
  | ind n ih =>
    obtain ⟨l, writer', le, before, dep⟩ := plan.writer_writer writer earlier lt
    have done := s.waited going dep
    rcases le.eq_or_lt with rfl | lt'
    · exact done
    · exact ih l before writer' (.inl (s.writer_ran plan writer' done)) lt'

/-- **The readers of an instrument resolve in order**, also those that are given up. -/
theorem reader_resolved (reader : reads n i) (done : resolved n) (earlier : reads m i) (lt : m < n) : resolved m := by
  induction n using WellFoundedLT.induction with
  | ind n ih =>
    have through {l : ν} (reader' : reads l i) (le : m ≤ l) (before : l < n) (done' : resolved l) : resolved m := by
      rcases le.eq_or_lt with rfl | lt'
      · exact done'
      · exact ih l before reader' done' lt'
    rcases s.given_up done with going | ⟨h, required, failure⟩
    · obtain ⟨l, reader', le, before, dep⟩ := plan.reader_reader reader earlier lt
      exact through reader' le before (s.waited (.inl going) dep)
    · -- The failed writer was required by the earlier reader too, or ran after it.
      rcases plan.reader_shares reader earlier lt required with shared | ⟨l, reader', le, before, dep⟩
      · exact s.settled shared failure
      · obtain ⟨p, writer⟩ := plan.reader_requires reader required
        have ran := s.writer_ran plan writer (s.failed_resolved failure)
        exact through reader' le before (s.waited (.inl ran) dep)

/-- A reader that is going on finds the readers before it resolved. -/
theorem reader_first (reader : reads n i) (going : active n) (earlier : reads m i) (lt : m < n) : resolved m := by
  obtain ⟨l, reader', le, -, dep⟩ := plan.reader_reader reader earlier lt
  have done := s.waited (.inr going) dep
  rcases le.eq_or_lt with rfl | lt'
  · exact done
  · exact s.reader_resolved plan reader' done earlier lt'

/-- A reader finds the earlier writers of what it uses resolved. -/
theorem writer_before_reader (reader : reads n i) (used : uses i p) (going : ran n ∨ active n) (writer : writes m p)
    (lt : m < n) : resolved m := by
  obtain ⟨l, writer', le, -, required⟩ := plan.reader_writer reader used writer lt
  have done := (s.required going required).1
  rcases le.eq_or_lt with rfl | lt'
  · exact done
  · exact s.writer_resolved plan writer' (.inl (s.writer_ran plan writer' done)) writer lt'

/-- A writer finds the earlier readers that use its resource resolved. -/
theorem reader_before_writer (writer : writes n p) (used : uses i p) (going : ran n ∨ active n) (reader : reads m i)
    (lt : m < n) : resolved m := by
  obtain ⟨l, reader', le, -, dep⟩ := plan.writer_reader writer used reader lt
  have done := s.waited going dep
  rcases le.eq_or_lt with rfl | lt'
  · exact done
  · exact s.reader_resolved plan reader' done reader lt'

/-- **Active writers exclude each other.** -/
theorem writers_exclusive (hn : writes n p) (hm : writes m p) (an : active n) (am : active m) : n = m := by
  rcases lt_trichotomy n m with lt | same | lt
  · exact absurd (s.writer_resolved plan hm (.inr am) hn lt) (s.active_open an)
  · exact same
  · exact absurd (s.writer_resolved plan hn (.inr an) hm lt) (s.active_open am)

/-- **Active readers of an instrument exclude each other.** -/
theorem readers_exclusive (hn : reads n i) (hm : reads m i) (an : active n) (am : active m) : n = m := by
  rcases lt_trichotomy n m with lt | same | lt
  · exact absurd (s.reader_first plan hm am hn lt) (s.active_open an)
  · exact same
  · exact absurd (s.reader_first plan hn an hm lt) (s.active_open am)

/-- **An active writer excludes the readers that use its resource.** -/
theorem writer_excludes_reader (writer : writes n p) (reader : reads m i) (used : uses i p) (ne : n ≠ m)
    (an : active n) (am : active m) : False := by
  rcases lt_or_gt_of_ne ne with lt | lt
  · exact s.active_open an (s.writer_before_reader plan reader used (.inr am) writer lt)
  · exact s.active_open am (s.reader_before_writer plan writer used (.inr an) reader lt)

end Rules

end Snapshot

end SensorKit.Lib.ReadersWriters
