import SensorKit.Lib.IntervalTree

/-!
# Offers of a program

A program keeps the windows that it offers in an interval tree, and publishes them when they have been updated. The windows
that are published are those of the tree, merged where they overlap.
-/

namespace SensorKit.Core

open Lib

variable {lib : IntervalTrees ℤ}

structure ProgramOffers (lib : IntervalTrees ℤ) where
  tree : lib.Tree String := lib.empty
  updated : Bool := false

/-- The window of an offer, if it has one: its end is a time after its start. -/
def offerWindow (start : ℤ) («end» : Option ℤ) (obj : String) : Option (Interval ℤ String) :=
  «end».bind fun stop => if lt : start < stop then some ⟨start, stop, obj, lt⟩ else none

namespace ProgramOffers

variable (offers : ProgramOffers lib)

/-- Add an offer window. The tree rejects an interval whose begin is not before its end. -/
def add (start : ℤ) («end» : Option ℤ) (obj : String) : Except String (ProgramOffers lib) :=
  match offerWindow start «end» obj with
  | some window => .ok { tree := lib.add offers.tree window, updated := true }
  | none => .error "IntervalTree: Null Interval objects not allowed in IntervalTree"

def clear : ProgramOffers lib :=
  if lib.intervals offers.tree = [] then offers else { tree := lib.empty, updated := true }

end ProgramOffers

/-- The offers of a `ProgramImpl`, and what it has published last. -/
structure OfferingProgram (lib : IntervalTrees ℤ) where
  offers : ProgramOffers lib := {}
  published : Option (lib.Tree String) := none

namespace OfferingProgram

variable (program : OfferingProgram lib)

def clearOffers : OfferingProgram lib := { program with offers := program.offers.clear }

/-- Add offers, given by their starts, ends and objects, up to the first one that is rejected. -/
def addOffers (program : OfferingProgram lib) : List (ℤ × Option ℤ × String) → OfferingProgram lib × Except String Unit
  | [] => (program, .ok ())
  | (start, «end», obj) :: rest =>
    match program.offers.add start «end» obj with
    | .ok offers => addOffers { program with offers } rest
    | .error error => (program, .error error)

/-- Publish the current set of offers if they have changed. -/
def publishOffers : OfferingProgram lib :=
  if program.offers.updated = true then
    { offers := { program.offers with updated := false }, published := some program.offers.tree }
  else program

end OfferingProgram

/-! ## What the offers come to -/

variable {program : OfferingProgram lib} {entries : List (ℤ × Option ℤ × String)}

/-- The windows of some offers. -/
def windowsOf (entries : List (ℤ × Option ℤ × String)) : List (Interval ℤ String) :=
  entries.filterMap fun entry => offerWindow entry.1 entry.2.1 entry.2.2

/-- Every offer has a window. -/
def AllOffered (entries : List (ℤ × Option ℤ × String)) : Prop :=
  ∀ entry ∈ entries, offerWindow entry.1 entry.2.1 entry.2.2 ≠ none

theorem addOffers_error (program : OfferingProgram lib) (rejected : ¬AllOffered entries) : ∃ error, (program.addOffers entries).2 = .error error := by
  induction entries generalizing program with
  | nil => exact absurd (fun entry mem => by cases mem) rejected
  | cons entry rest ih =>
    obtain ⟨start, stop, obj⟩ := entry
    unfold OfferingProgram.addOffers ProgramOffers.add
    cases here : offerWindow start stop obj with
    | none => exact ⟨_, rfl⟩
    | some window =>
      apply ih
      intro all
      apply rejected
      intro entry mem
      obtain rfl | later := List.mem_cons.1 mem
      · rw [here]
        exact Option.some_ne_none window
      · exact all entry later

/-- When every offer has a window, the tree gets them all, and is updated if there are any. -/
theorem addOffers_ok (lawful : lib.Lawful) (program : OfferingProgram lib) (all : AllOffered entries) :
    (program.addOffers entries).2 = .ok () ∧ (program.addOffers entries).1.published = program.published ∧
      (∀ window, window ∈ lib.intervals (program.addOffers entries).1.offers.tree ↔
        window ∈ windowsOf entries ∨ window ∈ lib.intervals program.offers.tree) ∧
      (program.addOffers entries).1.offers.updated = (program.offers.updated || !entries.isEmpty) := by
  induction entries generalizing program with
  | nil => exact ⟨rfl, rfl, fun window => (or_iff_right List.not_mem_nil).symm, (Bool.or_false _).symm⟩
  | cons entry rest ih =>
    obtain ⟨start, stop, obj⟩ := entry
    have later : AllOffered rest := fun entry mem => all entry (List.mem_cons_of_mem _ mem)
    obtain ⟨window, here⟩ := Option.ne_none_iff_exists'.1 (all _ List.mem_cons_self)
    have windows : windowsOf ((start, stop, obj) :: rest) = window :: windowsOf rest := List.filterMap_cons_some here
    have added : program.offers.add start stop obj = .ok { tree := lib.add program.offers.tree window, updated := true } := by
      unfold ProgramOffers.add
      rw [here]
    unfold OfferingProgram.addOffers
    rw [added, windows]
    obtain ⟨done, published, mem, updated⟩ := ih
      { program with offers := { tree := lib.add program.offers.tree window, updated := true } } later
    refine ⟨done, published, fun other => ?_, ?_⟩
    · rw [mem, lawful.mem_add, List.mem_cons]
      tauto
    · rw [updated]
      simp

theorem intervals_clear (lawful : lib.Lawful) (program : OfferingProgram lib) (window : Interval ℤ String) :
    window ∉ lib.intervals program.clearOffers.offers.tree := by
  unfold OfferingProgram.clearOffers ProgramOffers.clear
  split
  · rename_i empty
    rw [empty]
    exact List.not_mem_nil
  · exact lawful.empty window

end SensorKit.Core
