import Mathlib.Data.List.Perm.Lattice
import SensorKit.Lib.Run

/-!
# The object lists of Otto

Each named object of the configuration is on the whitelist, the graylist or the blacklist. The loops of the program move
objects between the lists, one at a time and with a wait after each move; a configuration with other objects replaces them.
-/

namespace SensorKit.Otto

open Lib

/-- What the object lists depend on. -/
structure TaskConfig where
  stars : List String := []
  orbits : List String := []
  tles : List String := []
  horizons : List String := []
deriving DecidableEq, Repr

/-- `_require_targets` -/
def TaskConfig.requireTargets (c : TaskConfig) : Except String TaskConfig :=
  if c.stars = [] ∧ c.orbits = [] ∧ c.tles = [] ∧ c.horizons = [] then
    .error "at least one of task.stars, task.orbits, task.tles, or task.horizons is required"
  else .ok c

/-- `named_objects`: the objects named by any source. -/
def TaskConfig.namedObjects (c : TaskConfig) : List String :=
  c.stars ++ c.tles ++ c.horizons

inductive ListType where
  | whitelist
  | graylist
  | blacklist
deriving DecidableEq, Repr

structure OttoState where
  blacklist : List String := []
  graylist : List String := []
  whitelist : List String := []
deriving DecidableEq, Repr

namespace OttoState

variable (s : OttoState)

/-- `_get_list` -/
def getList : ListType → List String
  | .whitelist => s.whitelist
  | .graylist => s.graylist
  | .blacklist => s.blacklist

def setList (objs : List String) : ListType → OttoState
  | .whitelist => { s with whitelist := objs }
  | .graylist => { s with graylist := objs }
  | .blacklist => { s with blacklist := objs }

/-- `move_object`, up to the wait for the state to be saved: nothing where it raises. -/
def moveObject (obj : String) (fromList toList : ListType) : Option OttoState :=
  if obj ∈ s.getList fromList then
    let s := s.setList ((s.getList fromList).erase obj) fromList
    some (if obj ∈ s.getList toList then s else s.setList (s.getList toList ++ [obj]) toList)
  else none

def all : List String :=
  s.whitelist ++ s.graylist ++ s.blacklist

/-- The lists hold the objects that are named. -/
def SameObjects (named : List String) : Prop :=
  (∀ x ∈ named, x ∈ s.all) ∧ ∀ x ∈ s.all, x ∈ named

instance (named : List String) : Decidable (s.SameObjects named) :=
  inferInstanceAs (Decidable (_ ∧ _))

end OttoState

/-- What task generation finds of the object it has come to. -/
inductive Found where
  | noPosition
  | low
  /-- Its TLE is gone when the target is built. -/
  | noTle
  | ready
deriving DecidableEq, Repr

structure OttoProgram where
  config : TaskConfig
  state : OttoState := {}
  /-- What is left of the copy of the graylist that `promote_graylist_loop` goes through. -/
  promoting : List String := []
  /-- The objects at which `move_object` has raised. -/
  raised : List String := []
deriving DecidableEq, Repr

inductive Label where
  | config (config : TaskConfig)
  | target (object : String) (found : Found)
  | unresolved (name : String)
  | resolved (name : String)
  | promote
  | promoteNext
deriving DecidableEq, Repr

namespace OttoProgram

variable (p : OttoProgram)

/-- `program_init`: the state that was saved, or else the objects of the configuration. -/
def programInit (config : TaskConfig) (saved : Option OttoState) : OttoProgram :=
  let state := saved.getD {}
  if state.whitelist = [] ∧ state.graylist = [] ∧ state.blacklist = [] then
    { config, state := { state with whitelist := config.namedObjects } }
  else { config, state }

/-- `_watch_config`: another object list than the current one starts the lists afresh. -/
def watchConfig (config : TaskConfig) : OttoProgram :=
  if p.state.SameObjects config.namedObjects then { p with config }
  else { p with config, state := { whitelist := config.namedObjects } }

/-- The call of `move_object` of one of the loops. -/
def move (obj : String) (fromList toList : ListType) : OttoProgram :=
  match p.state.moveObject obj fromList toList with
  | some state => { p with state }
  | none => { p with raised := p.raised ++ [obj] }

/-- `generate_tasks`, for one object: only objects of the whitelist are managed. -/
def generateTask (object : String) (found : Found) : OttoProgram :=
  if object ∈ p.state.whitelist then
    match found with
    | .noPosition =>
      if object ∈ p.config.horizons ∨ object ∈ p.config.stars then p else p.move object .whitelist .blacklist
    | .low => p.move object .whitelist .graylist
    | .noTle => p.move object .whitelist .blacklist
    | .ready => p
  else p

/-- `_blacklist_unresolved` -/
def blacklistUnresolved (name : String) : OttoProgram :=
  if name ∈ p.state.whitelist then p.move name .whitelist .blacklist else p

/-- `_recover_blacklisted` -/
def recoverBlacklisted (name : String) : OttoProgram :=
  if name ∈ p.state.blacklist then p.move name .blacklist .whitelist else p

/-- One step of a loop of the program, up to its next wait. -/
def step (p : OttoProgram) : Label → Option OttoProgram
  | .config config => config.requireTargets.toOption.map p.watchConfig
  | .target object found => some (p.generateTask object found)
  | .unresolved name => some (p.blacklistUnresolved name)
  | .resolved name => some (p.recoverBlacklisted name)
  | .promote => if p.promoting = [] then some { p with promoting := p.state.graylist } else none
  | .promoteNext =>
    match p.promoting with
    | [] => none
    | obj :: rest =>
      let promoted := { p with promoting := rest }.move obj .graylist .whitelist
      -- A move that raises ends the pass.
      some (if promoted.raised = p.raised then promoted else { promoted with promoting := [] })

/-- Every named object is on one of the lists, once, and the lists hold no other. -/
def Partitioned : Prop :=
  p.state.all.Nodup ∧ p.state.SameObjects p.config.namedObjects

end OttoProgram

/-- Another list of objects names none twice, and comes while the graylist is not being gone through. -/
def Orderly (p : OttoProgram) : Label → Prop
  | .config config => p.state.SameObjects config.namedObjects ∨ config.namedObjects.Nodup ∧ p.promoting = []
  | _ => True

/-! ## The partition -/

namespace OttoState

variable {s t : OttoState} {obj a : String} {objs : List String} {l l' fromList toList : ListType}

@[simp] theorem getList_setList : (s.setList objs l).getList l' = if l' = l then objs else s.getList l' := by
  cases l <;> cases l' <;> rfl

theorem count_all : s.all.count a =
    (s.getList .whitelist).count a + (s.getList .graylist).count a + (s.getList .blacklist).count a := by
  simp [all, getList, Nat.add_assoc]

theorem count_setList : (s.setList objs l).all.count a + (s.getList l).count a = s.all.count a + objs.count a := by
  rw [count_all, count_all]
  cases l <;> simp <;> omega

/-- An object is on one list only. -/
theorem apart (nodup : s.all.Nodup) (l l' : ListType) (mem : obj ∈ s.getList l) (other : l ≠ l') :
    obj ∉ s.getList l' := by
  intro mem'
  have once := List.nodup_iff_count_le_one.1 nodup obj
  rw [count_all] at once
  have here := List.count_pos_iff.2 mem
  have there := List.count_pos_iff.2 mem'
  cases l <;> cases l' <;> simp at other <;> omega

/-- **A move** of an object that is there takes it from one list to the other, and does no more. -/
theorem moveObject_eq_some (nodup : s.all.Nodup) (mem : obj ∈ s.getList fromList) (other : fromList ≠ toList) :
    ∃ t, s.moveObject obj fromList toList = some t ∧ t.all.Perm s.all ∧
      ∀ l, t.getList l = if l = toList then s.getList toList ++ [obj]
        else if l = fromList then (s.getList fromList).erase obj else s.getList l := by
  have absent := apart nodup fromList toList mem other
  refine ⟨(s.setList ((s.getList fromList).erase obj) fromList).setList (s.getList toList ++ [obj]) toList, ?_, ?_, ?_⟩
  · simp [moveObject, mem, other.symm, absent]
  · refine List.perm_iff_count.2 fun a => ?_
    have first := @count_setList s a ((s.getList fromList).erase obj) fromList
    have second := @count_setList (s.setList ((s.getList fromList).erase obj) fromList) a (s.getList toList ++ [obj]) toList
    rw [getList_setList, if_neg other.symm, List.count_append, List.count_singleton] at second
    rw [List.count_erase] at first
    by_cases same : obj = a
    · subst same
      have here := List.count_pos_iff.2 mem
      simp only [beq_self_eq_true, if_true] at first second
      omega
    · simp only [beq_iff_eq, same, if_false] at first second
      omega
  · simp

end OttoState

namespace OttoProgram

variable {p p' : OttoProgram} {name : String} {fromList toList : ListType}

/-- Task generation leaves the lists as they are, or takes the object from the whitelist. -/
theorem generateTask_cases (p : OttoProgram) (object : String) (found : Found) :
    p.generateTask object found = p ∨ object ∈ p.state.whitelist ∧ ∃ toList, .whitelist ≠ toList ∧
      p.generateTask object found = p.move object .whitelist toList := by
  unfold generateTask
  by_cases managed : object ∈ p.state.whitelist
  · simp only [if_pos managed]
    cases found with
    | noPosition =>
      by_cases sourced : object ∈ p.config.horizons ∨ object ∈ p.config.stars
      · exact .inl (if_pos sourced)
      · exact .inr ⟨managed, .blacklist, by decide, if_neg sourced⟩
    | low => exact .inr ⟨managed, .graylist, by decide, rfl⟩
    | noTle => exact .inr ⟨managed, .blacklist, by decide, rfl⟩
    | ready => exact .inl rfl
  · exact .inl (if_neg managed)

/-- What holds between two waits. -/
structure Sound (p : OttoProgram) : Prop where
  partitioned : p.Partitioned
  once : p.promoting.Nodup
  gray : p.promoting ⊆ p.state.graylist
  unraised : p.raised = []

/-- **A move of a listed object** does not raise, and keeps the partition. -/
theorem Sound.move (h : Sound p) (name : String) (fromList toList : ListType) (mem : name ∈ p.state.getList fromList)
    (other : fromList ≠ toList) (kept : fromList = .graylist → name ∉ p.promoting) :
    Sound (p.move name fromList toList) := by
  obtain ⟨t, moved, perm, lists⟩ := OttoState.moveObject_eq_some h.partitioned.1 mem other
  simp only [OttoProgram.move, moved]
  refine ⟨⟨perm.nodup_iff.2 h.partitioned.1, ?_, ?_⟩, h.once, fun x here => ?_, h.unraised⟩
  · exact fun x named => perm.mem_iff.2 (h.partitioned.2.1 x named)
  · exact fun x listed => h.partitioned.2.2 x (perm.mem_iff.1 listed)
  · have gray := h.gray here
    change x ∈ t.getList .graylist
    rw [lists]
    split_ifs with joins leaves
    · exact joins ▸ List.mem_append_left _ gray
    · have apart : x ≠ name := fun same => kept leaves.symm (same ▸ here)
      exact leaves ▸ (List.mem_erase_of_ne apart).2 gray
    · exact gray

theorem Sound.promoteNext {rest : List String} (h : Sound p) (next : p.promoting = name :: rest) :
    Sound ({ p with promoting := rest }.move name .graylist .whitelist) := by
  obtain ⟨fresh, once⟩ := List.nodup_cons.1 (next ▸ h.once)
  have gray := List.cons_subset.1 (next ▸ h.gray)
  have before : Sound { p with promoting := rest } := ⟨h.partitioned, once, gray.2, h.unraised⟩
  exact before.move name .graylist .whitelist gray.1 (by decide) fun _ => fresh

theorem Sound.step_promoteNext {rest : List String} (h : Sound p) (next : p.promoting = name :: rest) :
    p.step .promoteNext = some ({ p with promoting := rest }.move name .graylist .whitelist) := by
  have unraised := (h.promoteNext next).unraised.trans h.unraised.symm
  simp only [OttoProgram.step, next]
  exact congrArg some (if_pos unraised)

theorem accepted_eq {config config' : TaskConfig} (accepted : config.requireTargets.toOption = some config') :
    config = config' := by
  unfold TaskConfig.requireTargets at accepted
  split_ifs at accepted
  · simp [Except.toOption] at accepted
  · simpa [Except.toOption] using accepted

theorem Sound.step {label : Label} (h : Sound p) (ok : Orderly p label) (taken : p.step label = some p') : Sound p' := by
  cases label with
  | config config =>
    obtain ⟨config', accepted, rfl⟩ := Option.map_eq_some_iff.1 taken
    obtain rfl := accepted_eq accepted
    unfold watchConfig
    split_ifs with same
    · exact ⟨⟨h.partitioned.1, same⟩, h.once, h.gray, h.unraised⟩
    · obtain ⟨nodup, none⟩ := ok.resolve_left same
      refine ⟨⟨by simpa [OttoState.all] using nodup, ?_⟩, h.once, by simp [none], h.unraised⟩
      simp [OttoState.SameObjects, OttoState.all]
  | target object found =>
    cases taken
    rcases p.generateTask_cases object found with eq | ⟨managed, toList, leaves, eq⟩
    · rwa [eq]
    · rw [eq]
      exact h.move object .whitelist toList managed leaves (by simp)
  | unresolved name =>
    cases taken
    unfold blacklistUnresolved
    split_ifs with listed
    · exact h.move name .whitelist .blacklist listed (by decide) (by simp)
    · exact h
  | resolved name =>
    cases taken
    unfold recoverBlacklisted
    split_ifs with listed
    · exact h.move name .blacklist .whitelist listed (by decide) (by simp)
    · exact h
  | promote =>
    obtain ⟨-, rfl⟩ : p.promoting = [] ∧ { p with promoting := p.state.graylist } = p' := by
      simpa [OttoProgram.step] using taken
    refine ⟨h.partitioned, ?_, List.Subset.refl _, h.unraised⟩
    exact (List.nodup_append.1 (List.nodup_append.1 h.partitioned.1).1).2.1
  | promoteNext =>
    cases next : p.promoting with
    | nil => simp [OttoProgram.step, next] at taken
    | cons obj rest =>
      rw [h.step_promoteNext next] at taken
      cases taken
      exact h.promoteNext next

/-- A move brings an object from the blacklist to the whitelist only if it is the one that is moved. -/
theorem Sound.move_recovers {x : String} (h : Sound p) (mem : name ∈ p.state.getList fromList)
    (other : fromList ≠ toList) (black : x ∈ p.state.blacklist) (white : x ∈ (p.move name fromList toList).state.whitelist) :
    fromList = .blacklist ∧ x = name := by
  obtain ⟨t, moved, -, lists⟩ := OttoState.moveObject_eq_some h.partitioned.1 mem other
  simp only [OttoProgram.move, moved] at white
  have unlisted : x ∉ p.state.getList .whitelist :=
    OttoState.apart h.partitioned.1 .blacklist .whitelist black (by decide)
  change x ∈ t.getList .whitelist at white
  rw [lists] at white
  split_ifs at white with joins leaves
  · rcases List.mem_append.1 white with listed | moved
    · exact absurd (joins ▸ listed) unlisted
    · obtain rfl := List.mem_singleton.1 moved
      by_contra another
      exact OttoState.apart h.partitioned.1 .blacklist fromList black (fun same => another ⟨same.symm, rfl⟩) mem
  · exact absurd (leaves ▸ List.mem_of_mem_erase white) unlisted
  · exact absurd white unlisted

/-- **An object leaves the blacklist for the whitelist** only when it has been resolved, or with a new configuration. -/
theorem Sound.recovered {label : Label} (h : Sound p) (taken : p.step label = some p') (black : name ∈ p.state.blacklist)
    (white : name ∈ p'.state.whitelist) : label = .resolved name ∨ ∃ config, label = .config config := by
  have unlisted : name ∉ p.state.whitelist := OttoState.apart h.partitioned.1 .blacklist .whitelist black (by decide)
  cases label with
  | config config => exact .inr ⟨config, rfl⟩
  | target object found =>
    cases taken
    rcases p.generateTask_cases object found with eq | ⟨managed, toList, leaves, eq⟩
    · rw [eq] at white
      exact absurd white unlisted
    · rw [eq] at white
      cases (h.move_recovers managed leaves black white).1
  | unresolved obj =>
    cases taken
    unfold blacklistUnresolved at white
    split_ifs at white with listed
    · cases (h.move_recovers listed (by decide) black white).1
    · exact absurd white unlisted
  | resolved obj =>
    cases taken
    unfold recoverBlacklisted at white
    split_ifs at white with listed
    · exact .inl (congrArg _ (h.move_recovers listed (by decide) black white).2.symm)
    · exact absurd white unlisted
  | promote =>
    obtain ⟨-, rfl⟩ : p.promoting = [] ∧ { p with promoting := p.state.graylist } = p' := by
      simpa [OttoProgram.step] using taken
    exact absurd white unlisted
  | promoteNext =>
    cases next : p.promoting with
    | nil => simp [OttoProgram.step, next] at taken
    | cons obj rest =>
      rw [h.step_promoteNext next] at taken
      cases taken
      obtain ⟨fresh, once⟩ := List.nodup_cons.1 (next ▸ h.once)
      have gray := List.cons_subset.1 (next ▸ h.gray)
      have before : Sound { p with promoting := rest } := ⟨h.partitioned, once, gray.2, h.unraised⟩
      cases (before.move_recovers gray.1 (by decide) black white).1

end OttoProgram

/-- The program starts with a configuration that names no object twice, or else with saved lists of its objects. -/
def Starts (config : TaskConfig) (saved : Option OttoState) : Prop :=
  if (saved.getD {}).all = [] then config.namedObjects.Nodup
  else (saved.getD {}).all.Nodup ∧ (saved.getD {}).SameObjects config.namedObjects

/-- **The lists partition the named objects** in every run in which the configurations with other objects are orderly. -/
theorem lists_partitioned {config : TaskConfig} {saved : Option OttoState} {p : OttoProgram} (starts : Starts config saved)
    (h : Reaches OttoProgram.step Orderly (OttoProgram.programInit config saved) p) :
    p.Partitioned ∧ p.raised = [] ∧ ∀ label p' name, p.step label = some p' → name ∈ p.state.blacklist →
      name ∈ p'.state.whitelist → label = .resolved name ∨ ∃ config, label = .config config := by
  have sound : p.Sound := by
    refine h.invariant ?_ fun p label p' sound ok taken => sound.step ok taken
    unfold Starts at starts
    have empty : (saved.getD {}).all = [] ↔ (saved.getD {}).whitelist = [] ∧ (saved.getD {}).graylist = [] ∧
        (saved.getD {}).blacklist = [] := by
      simp [OttoState.all]
    by_cases seeded : (saved.getD {}).all = []
    · rw [if_pos seeded] at starts
      obtain ⟨-, gray, black⟩ := empty.1 seeded
      simp only [OttoProgram.programInit, if_pos (empty.1 seeded)]
      exact ⟨⟨by simpa [OttoState.all, gray, black] using starts, by simp [OttoState.SameObjects, OttoState.all, gray, black]⟩,
        .nil, by simp, rfl⟩
    · rw [if_neg seeded] at starts
      simp only [OttoProgram.programInit, if_neg (mt empty.2 seeded)]
      exact ⟨starts, .nil, by simp, rfl⟩
  exact ⟨sound.partitioned, sound.unraised, fun label p' name => sound.recovered⟩

/-- A satellite goes to the graylist and comes back. -/
theorem lists_partitioned_example : (⟨{ tles := ["25544"] }, { whitelist := ["25544"] }, [], []⟩ : OttoProgram).Partitioned :=
  (@lists_partitioned _ none _ (by unfold Starts; decide) (reaches_of_exec (show exec OttoProgram.step
    (OttoProgram.programInit { tles := ["25544"] } none) [.target "25544" .low, .promote, .promoteNext] = _ by decide +kernel)
      (okAlong_of_forall fun label mem _ => by
        simp only [List.mem_cons, List.not_mem_nil, or_false] at mem
        rcases mem with rfl | rfl | rfl <;> trivial))).1

/-- An object that two sources name is on two lists once it has been moved; and a configuration that comes while the
graylist is gone through makes the next move raise. -/
theorem lists_not_partitioned : ¬ (∀ (config : TaskConfig) (labels : List Label) (p : OttoProgram),
      config.requireTargets = .ok config → exec OttoProgram.step (OttoProgram.programInit config none) labels = some p →
        ∀ x ∈ config.namedObjects, p.state.all.count x = 1) ∧
    ¬ ∀ (config : TaskConfig) (labels : List Label) (p : OttoProgram), config.namedObjects.Nodup →
      exec OttoProgram.step (OttoProgram.programInit config none) labels = some p → p.raised = [] := by
  refine ⟨fun all => ?_, fun all => ?_⟩
  · have twice := all { stars := ["Ceres"], horizons := ["Ceres"] } [.unresolved "Ceres"] _ (by decide)
      (by decide +kernel : _ = some ⟨{ stars := ["Ceres"], horizons := ["Ceres"] },
        { whitelist := ["Ceres"], blacklist := ["Ceres"] }, [], []⟩) "Ceres" (by decide)
    revert twice
    decide
  · have raised := all { tles := ["25544"] } [.target "25544" .low, .promote, .config { tles := ["20580"] }, .promoteNext] _
      (by decide) (by decide +kernel : _ = some ⟨{ tles := ["20580"] }, { whitelist := ["20580"] }, [], ["25544"]⟩)
    cases raised

end SensorKit.Otto
