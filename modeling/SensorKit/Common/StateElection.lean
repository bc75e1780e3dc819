import Mathlib.Algebra.Order.Ring.Int
import Mathlib.Data.Finset.Card
import SensorKit.Lib.Dict
import SensorKit.Lib.Fallible

/-!
# Dependency-aware state election

Sources vote subjects up or down. A subject is up if it is demanded and neither it nor anything that it depends
on is voted down. Tallies are kept as votes are set, changed and cleared, and one pass with a memo evaluates
them: its output says of each subject of the graph what the standing votes decide.
-/

namespace SensorKit.Common

open Lib

variable {ε : Type} [DecidableEq ε]

/-- Accumulated up and down vote counts for a single election subject. -/
structure VoteTally where
  upvotes : ℤ := 0
  downvotes : ℤ := 0
deriving DecidableEq, Repr

/-- The count of a tally that a vote belongs to. -/
def VoteTally.count (tally : VoteTally) (b : Bool) : ℤ :=
  if b then tally.upvotes else tally.downvotes

/-- Change the count that a vote belongs to, if it is one. -/
def VoteTally.change (tally : VoteTally) (vote : Option Bool) (n : ℤ) : VoteTally :=
  match vote with
  | some true => { tally with upvotes := tally.upvotes + n }
  | some false => { tally with downvotes := tally.downvotes + n }
  | none => tally

theorem VoteTally.count_change (tally : VoteTally) (vote : Option Bool) (n : ℤ) (b : Bool) :
    (tally.change vote n).count b = tally.count b + if vote = some b then n else 0 := by
  rcases vote with _ | _ | _ <;> cases b <;> simp [change, count]

/-- What evaluating an election raises: the interpreter's recursion limit, or a state that is none. -/
inductive EvaluationError
  | recursion
  | type
deriving DecidableEq, Repr

/-- Dependency-aware up/down state election. -/
structure StateElection (ε : Type) where
  graph : Dict ε (List ε)
  votes : Dict (Option String) (Dict ε (Option Bool)) := .empty
  tally : Dict ε VoteTally := .empty

namespace StateElection

variable (election : StateElection ε)

/-- The default tally is that of a subject without votes. -/
def tallyOf (subject : ε) : VoteTally :=
  (election.tally.get? subject).getD {}

/-- `vote`: set or clear an up/down state vote for the specified subject. -/
def vote (source : Option String) (subject : ε) (vote : Option Bool) : StateElection ε :=
  let votes := (election.votes.get? source).getD .empty
  let previous := (votes.get? subject).join
  if vote = previous then election
  else
    { election with
      votes := election.votes.insert source (votes.insert subject vote)
      tally := election.tally.insert subject (((election.tallyOf subject).change previous (-1)).change vote 1) }

/-- A subject's dependencies, if the graph has it. -/
def dependencies (subject : ε) : List ε :=
  (election.graph.get? subject).getD []

/-- Recurse to evaluating a dependency subject, and keep whether all have been good. -/
def checkDependency (evaluate : ε → Dict ε Bool → Except EvaluationError (Option Bool × Dict ε Bool))
    (turn : Bool × Dict ε Bool) (other : ε) : Except EvaluationError (Bool × Dict ε Bool) := do
  let (state, output) ← evaluate other turn.2
  match state with
  | some state => return (turn.1 && state, output)
  | none => .error .type

/-- `_evaluate_subject`, with the depth that recursion may still go to. -/
def evaluateSubject : ℕ → ε → Bool → Dict ε Bool → Except EvaluationError (Option Bool × Dict ε Bool)
  | 0, _, _, _ => .error .recursion
  | limit + 1, subject, dependency, output =>
    match output.get? subject with
    | some state => .ok (some state, output)
    | none =>
      let tally := election.tallyOf subject
      -- At least one direct downvote takes precedence.
      if tally.downvotes > 0 then .ok (some false, output.insert subject false)
      else if tally.upvotes + dependency.toNat > 0 then do
        let (good, output) ← (election.dependencies subject).foldlM
          (checkDependency fun other => evaluateSubject limit other true) (true, output)
        return (some good, output.insert subject good)
      else .ok (none, output)

/-- `evaluate`: the state election results, with the interpreter's recursion limit. -/
def evaluate (limit : ℕ) : Except EvaluationError (Dict ε Bool) :=
  election.graph.keys.foldlM (fun output subject => do
    return (← election.evaluateSubject limit subject false output).2) .empty

end StateElection

/-! ## What an election decides -/

section Decides

variable (depends : ε → ε → Prop) (up down : ε → Prop)

/-- A subject with an upvote is demanded, and so is what a demanded one without a downvote depends on. -/
inductive Demanded : ε → Prop
  | voted {subject} (upvoted : up subject) : Demanded subject
  | needed {subject other} (demanded : Demanded subject) (kept : ¬ down subject) (dep : depends subject other) :
      Demanded other

/-- Neither the subject nor any of its transitive dependencies has a downvote. -/
def Clear (subject : ε) : Prop :=
  ∀ other, Relation.ReflTransGen depends subject other → ¬ down other

/-- A subject's state is up if it is demanded and clear, down if it is demanded or has a downvote and is not up, and
it has none otherwise. -/
structure Elects (output : Dict ε Bool) (subject : ε) : Prop where
  elected : output.get? subject = some true ↔ Demanded depends up down subject ∧ Clear depends down subject
  rejected : output.get? subject = some false ↔ (Demanded depends up down subject ∨ down subject) ∧
    ¬ (Demanded depends up down subject ∧ Clear depends down subject)
  absent : output.get? subject = none ↔ ¬ (Demanded depends up down subject ∨ down subject)

variable {depends up down} {subject : ε} {output output' : Dict ε Bool}

omit [DecidableEq ε] in
theorem clear_iff : Clear depends down subject ↔
    ¬ down subject ∧ ∀ other, depends subject other → Clear depends down other := by
  constructor
  · intro h
    exact ⟨h subject .refl, fun other dep last path => h last (path.head dep)⟩
  · rintro ⟨kept, clear⟩ last path
    rcases path.cases_head with rfl | ⟨other, dep, rest⟩
    · exact kept
    · exact clear other dep last rest

/-- An election decides one state. -/
theorem Elects.unique (h : Elects depends up down output subject) (h' : Elects depends up down output' subject) :
    output.get? subject = output'.get? subject := by
  rcases found : output.get? subject with _ | _ | _
  · exact (h'.absent.2 (h.absent.1 found)).symm
  · exact (h'.rejected.2 (h.rejected.1 found)).symm
  · exact (h'.elected.2 (h.elected.1 found)).symm

end Decides

section Graph

variable (graph : Dict ε (List ε))

/-- A subject of the graph depends on another one. -/
def DependsOn (subject other : ε) : Prop :=
  ∃ others, graph.get? subject = some others ∧ other ∈ others

/-- No subject depends on itself, directly or through others. -/
def AcyclicGraph : Prop :=
  ∀ subject, ¬ Relation.TransGen (DependsOn graph) subject subject

/-- The subject is one of the graph, or some demanded subject without a downvote depends on it. -/
def Considered (up down : ε → Prop) (other : ε) : Prop :=
  other ∈ graph.keys ∨
    ∃ subject, Demanded (DependsOn graph) up down subject ∧ ¬ down subject ∧ DependsOn graph subject other

variable {graph} {subject other : ε}

theorem DependsOn.mem_keys (h : DependsOn graph subject other) : subject ∈ graph.keys := by
  obtain ⟨others, found, -⟩ := h
  exact Dict.mem_keys.2 ⟨others, found⟩

end Graph

/-! ## The evaluation -/

namespace StateElection

variable {election : StateElection ε} {up down : ε → Prop} {subject other : ε} {output output' : Dict ε Bool}

theorem mem_dependencies : other ∈ election.dependencies subject ↔ DependsOn election.graph subject other := by
  unfold dependencies DependsOn
  cases election.graph.get? subject <;> simp

/-- The tallies tell who has votes. -/
structure Tallies (election : StateElection ε) (up down : ε → Prop) : Prop where
  nonneg : ∀ subject, 0 ≤ (election.tallyOf subject).upvotes
  upvotes : ∀ subject, 0 < (election.tallyOf subject).upvotes ↔ up subject
  downvotes : ∀ subject, 0 < (election.tallyOf subject).downvotes ↔ down subject

/-- What has been evaluated so far is right, and whatever a subject needs has been evaluated with it. -/
structure Sound (election : StateElection ε) (up down : ε → Prop) (output : Dict ε Bool) : Prop where
  value : ∀ subject b, output.get? subject = some b → (b = true ↔ Clear (DependsOn election.graph) down subject)
  reached : ∀ subject b, output.get? subject = some b →
    Considered election.graph up down subject ∧ (Demanded (DependsOn election.graph) up down subject ∨ down subject)
  closed : ∀ subject b, output.get? subject = some b → ¬ down subject →
    ∀ other, DependsOn election.graph subject other → ∃ b, output.get? other = some b

/-- What was known is still known. -/
def Extends (output output' : Dict ε Bool) : Prop :=
  ∀ subject b, output.get? subject = some b → output'.get? subject = some b

theorem Sound.empty : Sound election up down .empty := by
  constructor <;> simp

/-- A state is recorded after those of the subjects that are needed for it. -/
theorem Sound.insert {b : Bool} (h : Sound election up down output)
    (value : b = true ↔ Clear (DependsOn election.graph) down subject) (considered : Considered election.graph up down subject)
    (demanded : Demanded (DependsOn election.graph) up down subject ∨ down subject)
    (closed : ¬ down subject → ∀ other, DependsOn election.graph subject other → ∃ b, output.get? other = some b) :
    Sound election up down (output.insert subject b) ∧ Extends output (output.insert subject b) := by
  have kept : Extends output (output.insert subject b) := by
    intro other c found
    rw [Dict.get?_insert]
    split_ifs with same
    · subst same
      have agree : c = true ↔ b = true := (h.value other c found).trans value.symm
      cases b <;> cases c <;> simp_all
    · exact found
  refine ⟨⟨fun other c found => ?_, fun other c found => ?_, fun other c found free last depends => ?_⟩, kept⟩
  · rw [Dict.get?_insert] at found
    split_ifs at found with same
    · cases found
      rwa [same]
    · exact h.value other c found
  · rw [Dict.get?_insert] at found
    split_ifs at found with same
    · rw [same]
      exact ⟨considered, demanded⟩
    · exact h.reached other c found
  · have before : ∃ d, output.get? last = some d := by
      rw [Dict.get?_insert] at found
      split_ifs at found with same
      · subst same
        exact closed free last depends
      · exact h.closed other c found free last depends
    obtain ⟨d, before⟩ := before
    exact ⟨d, kept last d before⟩

theorem Extends.refl : Extends output output :=
  fun _ _ found => found

theorem Extends.trans {later : Dict ε Bool} (h : Extends output output') (h' : Extends output' later) :
    Extends output later :=
  fun subject b found => h' subject b (h subject b found)

/-- What an evaluation of a subject has recorded: everything as it should be, the subject too if it has to have a
state. -/
structure Evaluates (election : StateElection ε) (up down : ε → Prop) (subject : ε) (dependency : Bool)
    (output output' : Dict ε Bool) : Prop where
  sound : Sound election up down output'
  kept : Extends output output'
  recorded : dependency = true ∨ up subject ∨ down subject → ∃ b, output'.get? subject = some b

/-- A subject is evaluated as one of the graph, or as a dependency of a demanded one. -/
def Asked (election : StateElection ε) (up down : ε → Prop) (subject : ε) (dependency : Bool) : Prop :=
  (dependency = false → subject ∈ election.graph.keys) ∧
  (dependency = true → ∃ other, Demanded (DependsOn election.graph) up down other ∧ ¬ down other ∧
    DependsOn election.graph other subject)

theorem Asked.considered {dependency : Bool} (h : Asked election up down subject dependency) :
    Considered election.graph up down subject := by
  cases dependency with
  | false => exact .inl (h.1 rfl)
  | true => exact .inr (h.2 rfl)

/-- The loop over the dependencies has found whether those seen so far are clear, and has recorded each. -/
structure Gathers (election : StateElection ε) (up down : ε → Prop) (output : Dict ε Bool) (seen : List ε)
    (turn : Bool × Dict ε Bool) : Prop where
  sound : Sound election up down turn.2
  kept : Extends output turn.2
  good : turn.1 = true ↔ ∀ other ∈ seen, Clear (DependsOn election.graph) down other
  recorded : ∀ other ∈ seen, ∃ b, turn.2.get? other = some b

theorem Gathers.nil (sound : Sound election up down output) : Gathers election up down output [] (true, output) :=
  ⟨sound, .refl, by simp, by simp⟩

theorem Gathers.turn {seen : List ε} {turn : Bool × Dict ε Bool}
    (evaluate : ε → Dict ε Bool → Except EvaluationError (Option Bool × Dict ε Bool))
    (h : Gathers election up down output seen turn)
    (evaluates : evaluate other turn.2 = .ok (output'.get? other, output'))
    (evaluated : Evaluates election up down other true turn.2 output') :
    ∃ turn', checkDependency evaluate turn other = .ok turn' ∧
      Gathers election up down output (seen ++ [other]) turn' := by
  obtain ⟨b, found⟩ := evaluated.recorded (.inl rfl)
  refine ⟨(turn.1 && b, output'), ?_, evaluated.sound, h.kept.trans evaluated.kept, ?_, ?_⟩
  · unfold checkDependency
    rw [bind_eq_ok]
    exact ⟨_, evaluates, by rw [found]; rfl⟩
  · have value := evaluated.sound.value other b found
    simp only [Bool.and_eq_true, h.good, value, List.mem_append, List.mem_singleton]
    constructor
    · rintro ⟨before, this⟩ a (mem | rfl)
      · exact before a mem
      · exact this
    · intro all
      exact ⟨fun a mem => all a (.inl mem), all other (.inr rfl)⟩
  · intro a mem
    rcases mem_snoc.1 mem with mem | rfl
    · obtain ⟨c, known⟩ := h.recorded a mem
      exact ⟨c, evaluated.kept a c known⟩
    · exact ⟨b, found⟩

/-- **The evaluation of one subject** returns, if the way to it leaves room, and records what it should. -/
theorem evaluateSubject_returns (tallies : Tallies election up down) (acyclic : AcyclicGraph election.graph)
    (limit : ℕ) : ∀ (path : List ε) subject dependency output, path.Nodup →
      (∀ above ∈ path, Relation.TransGen (DependsOn election.graph) above subject) →
      election.graph.keys.length < limit + path.length → Sound election up down output →
      Asked election up down subject dependency →
      ∃ output', election.evaluateSubject limit subject dependency output = .ok (output'.get? subject, output') ∧
        Evaluates election up down subject dependency output output' := by
  induction limit with
  | zero =>
    intro path subject dependency output nodup above room
    -- The subjects on the way are subjects of the graph.
    have sub : path ⊆ election.graph.keys := by
      intro a mem
      obtain ⟨b, first, -⟩ := Relation.TransGen.head'_iff.1 (above a mem)
      exact first.mem_keys
    have := (nodup.subperm sub).length_le
    omega
  | succ limit ih =>
    intro path subject dependency output nodup above room sound asked
    unfold evaluateSubject
    cases found : output.get? subject with
    | some b => exact ⟨output, by rw [found], sound, .refl, fun _ => ⟨b, found⟩⟩
    | none =>
      dsimp only
      by_cases rejected : (election.tallyOf subject).downvotes > 0
      · have voted := (tallies.downvotes subject).1 rejected
        have unclear : false = true ↔ Clear (DependsOn election.graph) down subject := by
          rw [clear_iff]
          simp [voted]
        obtain ⟨sound', kept⟩ := sound.insert unclear asked.considered (.inr voted) fun free => absurd voted free
        rw [if_pos rejected]
        exact ⟨_, by rw [Dict.get?_insert_self], sound', kept, fun _ => ⟨_, Dict.get?_insert_self⟩⟩
      · have free : ¬ down subject := fun voted => rejected ((tallies.downvotes subject).2 voted)
        rw [if_neg rejected]
        by_cases wanted : (election.tallyOf subject).upvotes + dependency.toNat > 0
        · rw [if_pos wanted]
          have demanded : Demanded (DependsOn election.graph) up down subject := by
            cases dependency with
            | false => exact .voted ((tallies.upvotes subject).1 (by simpa using wanted))
            | true =>
              obtain ⟨other, demanded, kept, depends⟩ := asked.2 rfl
              exact .needed demanded kept depends
          have fresh : subject ∉ path := fun mem => acyclic subject (above subject mem)
          have turns (seen : List ε) (other : ε) (rest : List ε) (turn : Bool × Dict ε Bool)
              (eq : election.dependencies subject = seen ++ other :: rest)
              (gathers : Gathers election up down output seen turn) :
              ∃ turn', checkDependency (fun other => election.evaluateSubject limit other true) turn other = .ok turn' ∧
                Gathers election up down output (seen ++ [other]) turn' := by
            have depends : DependsOn election.graph subject other := by
              rw [← mem_dependencies, eq]
              simp
            have below : ∀ a ∈ subject :: path, Relation.TransGen (DependsOn election.graph) a other := by
              intro a mem
              rcases List.mem_cons.1 mem with rfl | mem
              · exact .single depends
              · exact (above a mem).tail depends
            obtain ⟨output', evaluates, evaluated⟩ := ih (subject :: path) other true turn.2
              (List.nodup_cons.2 ⟨fresh, nodup⟩) below (by simp; omega) gathers.sound
              ⟨by simp, fun _ => ⟨subject, demanded, free, depends⟩⟩
            exact gathers.turn (fun other => election.evaluateSubject limit other true) evaluates evaluated
          obtain ⟨turn, loops, gathered⟩ := exists_foldlM (Gathers election up down output) (.nil sound) turns
          have value : turn.1 = true ↔ Clear (DependsOn election.graph) down subject := by
            rw [gathered.good, clear_iff]
            simp only [mem_dependencies]
            exact ⟨fun all => ⟨free, all⟩, And.right⟩
          obtain ⟨sound', kept⟩ := gathered.sound.insert value asked.considered (.inl demanded)
            fun _ other depends => gathered.recorded other (mem_dependencies.2 depends)
          refine ⟨_, ?_, sound', gathered.kept.trans kept, fun _ => ⟨_, Dict.get?_insert_self⟩⟩
          rw [bind_eq_ok]
          exact ⟨turn, loops, by rw [Dict.get?_insert_self]; rfl⟩
        · rw [if_neg wanted]
          refine ⟨output, by rw [found], sound, .refl, ?_⟩
          rintro (rfl | voted | voted)
          · have := tallies.nonneg subject
            simp at wanted
            omega
          · have := (tallies.upvotes subject).2 voted
            omega
          · exact absurd voted free

/-- The evaluation of the whole graph returns, and records every subject of it that has votes. -/
theorem evaluate_returns (tallies : Tallies election up down) (acyclic : AcyclicGraph election.graph) {limit : ℕ}
    (deep : election.graph.keys.length < limit) : ∃ output, election.evaluate limit = .ok output ∧
      Sound election up down output ∧
      ∀ subject ∈ election.graph.keys, up subject ∨ down subject → ∃ b, output.get? subject = some b := by
  unfold evaluate
  refine exists_foldlM (fun seen output => Sound election up down output ∧
    ∀ subject ∈ seen, up subject ∨ down subject → ∃ b, output.get? subject = some b) ⟨.empty, by simp⟩ ?_
  rintro seen subject rest output eq ⟨sound, recorded⟩
  have mem : subject ∈ election.graph.keys := by simp [eq]
  obtain ⟨output', evaluates, evaluated⟩ := evaluateSubject_returns tallies acyclic limit [] subject false output
    List.nodup_nil (by simp) (by simpa using deep) sound ⟨fun _ => mem, by simp⟩
  refine ⟨output', by rw [evaluates]; rfl, evaluated.sound, fun other mem voted => ?_⟩
  rcases mem_snoc.1 mem with mem | rfl
  · obtain ⟨b, found⟩ := recorded other mem voted
    exact ⟨b, evaluated.kept other b found⟩
  · exact evaluated.recorded (.inr voted)

section Elects

variable (sound : Sound election up down output)
  (recorded : ∀ subject ∈ election.graph.keys, up subject ∨ down subject → ∃ b, output.get? subject = some b)

include sound recorded

/-- A demanded subject of the graph has a state. -/
theorem recorded_of_demanded (demanded : Demanded (DependsOn election.graph) up down subject)
    (mem : subject ∈ election.graph.keys) : ∃ b, output.get? subject = some b := by
  induction demanded with
  | voted upvoted => exact recorded _ mem (.inl upvoted)
  | needed _ kept depends ih =>
    obtain ⟨b, found⟩ := ih depends.mem_keys
    exact sound.closed _ b found kept _ depends

theorem elects_of_considered (considered : Considered election.graph up down subject) :
    Elects (DependsOn election.graph) up down output subject := by
  have known (voted : Demanded (DependsOn election.graph) up down subject ∨ down subject) :
      ∃ b, output.get? subject = some b := by
    rcases considered with mem | ⟨other, demanded, kept, depends⟩
    · rcases voted with demanded | voted
      · exact recorded_of_demanded sound recorded demanded mem
      · exact recorded subject mem (.inr voted)
    · obtain ⟨b, found⟩ := recorded_of_demanded sound recorded demanded depends.mem_keys
      exact sound.closed other b found kept subject depends
  have demanded_of_clear (voted : Demanded (DependsOn election.graph) up down subject ∨ down subject)
      (clear : Clear (DependsOn election.graph) down subject) : Demanded (DependsOn election.graph) up down subject :=
    voted.resolve_right (clear_iff.1 clear).1
  constructor
  · constructor
    · intro found
      have clear := (sound.value subject true found).1 rfl
      exact ⟨demanded_of_clear (sound.reached subject true found).2 clear, clear⟩
    · rintro ⟨demanded, clear⟩
      obtain ⟨b, found⟩ := known (.inl demanded)
      rw [found, (sound.value subject b found).2 clear]
  · constructor
    · intro found
      refine ⟨(sound.reached subject false found).2, fun both => ?_⟩
      simpa using (sound.value subject false found).2 both.2
    · rintro ⟨voted, unclear⟩
      obtain ⟨b, found⟩ := known voted
      cases b with
      | false => exact found
      | true =>
        have clear := (sound.value subject true found).1 rfl
        exact absurd ⟨demanded_of_clear voted clear, clear⟩ unclear
  · constructor
    · intro out voted
      obtain ⟨b, found⟩ := known voted
      simp [found] at out
    · intro unvoted
      cases found : output.get? subject with
      | none => rfl
      | some b => exact absurd (sound.reached subject b found).2 unvoted

end Elects

/-- What is not considered is left out, whatever its votes. -/
theorem Sound.left_out (h : Sound election up down output) (other : ¬ Considered election.graph up down subject) :
    output.get? subject = none := by
  cases found : output.get? subject with
  | none => rfl
  | some b => exact absurd (h.reached subject b found).1 other

/-! ## The tallies -/

/-- The vote that a source has set for a subject. -/
def voteOf (election : StateElection ε) (source : Option String) (subject : ε) : Option Bool :=
  (((election.votes.get? source).getD .empty).get? subject).join

section Vote

variable {source other_source : Option String} {v : Option Bool}

theorem graph_vote : (election.vote source subject v).graph = election.graph := by
  unfold vote
  dsimp only
  split_ifs <;> rfl

theorem voteOf_vote (source' : Option String) (subject' : ε) :
    (election.vote source subject v).voteOf source' subject' =
      if source' = source ∧ subject' = subject then v else election.voteOf source' subject' := by
  unfold vote
  dsimp only
  split_ifs with same here here
  · obtain ⟨rfl, rfl⟩ := here
    exact same.symm
  · rfl
  · obtain ⟨rfl, rfl⟩ := here
    simp [voteOf]
  · unfold voteOf
    by_cases first : source' = source
    · subst first
      have second : subject' ≠ subject := fun second => here ⟨rfl, second⟩
      simp [Dict.get?_insert_of_ne second]
    · simp [Dict.get?_insert_of_ne first]

theorem count_vote (subject' : ε) (b : Bool) : ((election.vote source subject v).tallyOf subject').count b =
    (election.tallyOf subject').count b + if subject' = subject then
      (if v = some b then 1 else 0) - (if election.voteOf source subject = some b then 1 else 0) else 0 := by
  by_cases same : v = election.voteOf source subject
  · have unchanged : election.vote source subject v = election := if_pos same
    rw [unchanged, same]
    simp
  · by_cases here : subject' = subject
    · subst here
      unfold voteOf at same ⊢
      unfold vote
      dsimp only
      rw [if_neg same, if_pos rfl]
      unfold tallyOf
      simp only [Dict.get?_insert_self, Option.getD_some, VoteTally.count_change]
      split_ifs <;> omega
    · unfold voteOf at same
      unfold vote
      dsimp only
      rw [if_neg same, if_neg here]
      simp [tallyOf, Dict.get?_insert_of_ne here]

/-- A count is the number of the sources with that vote. -/
def Counted (election : StateElection ε) : Prop :=
  ∀ subject b, ∃ sources : Finset (Option String),
    (∀ source, source ∈ sources ↔ election.voteOf source subject = some b) ∧
      (election.tallyOf subject).count b = sources.card

theorem Counted.vote (h : election.Counted) : (election.vote source subject v).Counted := by
  intro subject' b
  obtain ⟨sources, mem, count⟩ := h subject' b
  by_cases here : subject' = subject
  · subst here
    rw [count_vote, if_pos rfl, count]
    by_cases this : v = some b
    · refine ⟨insert source sources, fun source' => ?_, ?_⟩
      · rw [voteOf_vote, Finset.mem_insert, mem]
        by_cases same : source' = source <;> simp [same, this]
      · rw [if_pos this]
        split_ifs with before
        · rw [Finset.insert_eq_of_mem ((mem source).2 before)]
          omega
        · rw [Finset.card_insert_of_notMem fun listed => before ((mem source).1 listed)]
          omega
    · refine ⟨sources.erase source, fun source' => ?_, ?_⟩
      · rw [voteOf_vote, Finset.mem_erase, mem]
        by_cases same : source' = source <;> simp [same, this]
      · rw [if_neg this]
        split_ifs with before
        · have listed := (mem source).2 before
          have := Finset.card_erase_add_one listed
          omega
        · rw [Finset.erase_eq_of_notMem fun listed => before ((mem source).1 listed)]
          omega
  · refine ⟨sources, fun source' => ?_, ?_⟩
    · rw [voteOf_vote, if_neg fun both => here both.2, mem]
    · rw [count_vote, if_neg here, count, Int.add_zero]

theorem Counted.pos (h : election.Counted) (b : Bool) :
    0 ≤ (election.tallyOf subject).count b ∧
      (0 < (election.tallyOf subject).count b ↔ ∃ source, election.voteOf source subject = some b) := by
  obtain ⟨sources, mem, count⟩ := h subject b
  rw [count]
  refine ⟨by omega, ?_⟩
  simp only [← mem]
  rw [Int.natCast_pos, Finset.card_pos]
  rfl

end Vote

end StateElection

/-! ## Elections -/

/-- A call of `vote`. -/
structure Ballot (ε : Type) where
  source : Option String
  subject : ε
  vote : Option Bool
deriving DecidableEq, Repr

/-- The election in which the ballots have been cast. -/
def StateElection.cast (graph : Dict ε (List ε)) (ballots : List (Ballot ε)) : StateElection ε :=
  ballots.foldl (fun election ballot => election.vote ballot.source ballot.subject ballot.vote) { graph }

/-- A source's standing vote for a subject is its last one. -/
def standing (ballots : List (Ballot ε)) (source : Option String) (subject : ε) : Option Bool :=
  (lastOf (fun ballot => ballot.source = source ∧ ballot.subject = subject) ballots).bind Ballot.vote

def Upvoted (ballots : List (Ballot ε)) (subject : ε) : Prop :=
  ∃ source, standing ballots source subject = some true

def Downvoted (ballots : List (Ballot ε)) (subject : ε) : Prop :=
  ∃ source, standing ballots source subject = some false

section Cast

variable {graph : Dict ε (List ε)} {ballots : List (Ballot ε)}

open StateElection

theorem graph_cast (graph : Dict ε (List ε)) (ballots : List (Ballot ε)) :
    (StateElection.cast graph ballots).graph = graph := by
  unfold StateElection.cast
  induction ballots using List.reverseRecOn with
  | nil => rfl
  | append_singleton ballots ballot ih => rw [List.foldl_append, List.foldl_cons, List.foldl_nil, graph_vote, ih]

theorem voteOf_cast (graph : Dict ε (List ε)) (source : Option String) (subject : ε) :
    (StateElection.cast graph ballots).voteOf source subject = standing ballots source subject := by
  unfold StateElection.cast
  induction ballots using List.reverseRecOn with
  | nil => rfl
  | append_singleton ballots ballot ih =>
    rw [List.foldl_append, List.foldl_cons, List.foldl_nil, voteOf_vote, ih]
    unfold standing
    rw [lastOf_snoc]
    by_cases this : ballot.source = source ∧ ballot.subject = subject
    · obtain ⟨rfl, rfl⟩ := this
      simp
    · have other : ¬ (source = ballot.source ∧ subject = ballot.subject) := fun h => this ⟨h.1.symm, h.2.symm⟩
      simp [this, other]

theorem counted_cast : (StateElection.cast graph ballots).Counted := by
  unfold StateElection.cast
  induction ballots using List.reverseRecOn with
  | nil =>
    intro subject b
    refine ⟨∅, fun source => ?_, ?_⟩
    · simp [voteOf, Dict.get?_empty]
    · cases b <;> simp [tallyOf, VoteTally.count]
  | append_singleton ballots ballot ih =>
    rw [List.foldl_append, List.foldl_cons, List.foldl_nil]
    exact ih.vote

theorem tallies_cast : Tallies (StateElection.cast graph ballots) (Upvoted ballots) (Downvoted ballots) := by
  constructor
  · intro subject
    exact (counted_cast.pos true).1
  · intro subject
    unfold Upvoted
    simp only [← voteOf_cast graph]
    exact (counted_cast.pos true).2
  · intro subject
    unfold Downvoted
    simp only [← voteOf_cast graph]
    exact (counted_cast.pos false).2

theorem evaluate_decides (acyclic : AcyclicGraph graph) (ballots : List (Ballot ε)) {limit : ℕ}
    (deep : graph.keys.length < limit) : ∃ output, (StateElection.cast graph ballots).evaluate limit = .ok output ∧
      (∀ subject, Considered graph (Upvoted ballots) (Downvoted ballots) subject →
        Elects (DependsOn graph) (Upvoted ballots) (Downvoted ballots) output subject) ∧
      ∀ subject, ¬ Considered graph (Upvoted ballots) (Downvoted ballots) subject → output.get? subject = none := by
  rw [← graph_cast graph ballots] at acyclic deep
  obtain ⟨output, evaluates, sound, recorded⟩ := evaluate_returns tallies_cast acyclic deep
  refine ⟨output, evaluates, fun subject considered => ?_, fun subject other => ?_⟩
  · rw [← graph_cast graph ballots] at considered ⊢
    exact elects_of_considered sound recorded considered
  · rw [← graph_cast graph ballots] at other
    exact sound.left_out other

/-- **What `evaluate` says.** The subjects of an acyclic graph, and what demanded ones without a downvote depend on,
get the state that the standing votes decide; everything else is left out. Neither the order of the votes nor that of
the graph matters. -/
theorem evaluate_elects (acyclic : AcyclicGraph graph) (ballots : List (Ballot ε)) {limit : ℕ}
    (deep : graph.keys.length < limit) :
    ∃ output, (StateElection.cast graph ballots).evaluate limit = .ok output ∧
      (∀ subject, Considered graph (Upvoted ballots) (Downvoted ballots) subject →
        Elects (DependsOn graph) (Upvoted ballots) (Downvoted ballots) output subject) ∧
      (∀ subject, ¬ Considered graph (Upvoted ballots) (Downvoted ballots) subject → output.get? subject = none) ∧
      ∀ (graph' : Dict ε (List ε)) (ballots' : List (Ballot ε)) (limit' : ℕ), graph'.keys.length < limit' →
        (∀ subject, subject ∈ graph'.keys ↔ subject ∈ graph.keys) →
        (∀ subject other, DependsOn graph' subject other ↔ DependsOn graph subject other) →
        (∀ source subject, standing ballots' source subject = standing ballots source subject) →
        ∃ output', (StateElection.cast graph' ballots').evaluate limit' = .ok output' ∧
          ∀ subject, output'.get? subject = output.get? subject := by
  obtain ⟨output, evaluates, elects, out⟩ := evaluate_decides acyclic ballots deep
  refine ⟨output, evaluates, elects, out, fun graph' ballots' limit' deep' keys depends votes => ?_⟩
  have depends : DependsOn graph' = DependsOn graph := by
    funext subject other
    exact propext (depends subject other)
  have votes : standing ballots' = standing ballots := by
    funext source subject
    exact votes source subject
  have considered (subject : ε) : Considered graph' (Upvoted ballots') (Downvoted ballots') subject ↔
      Considered graph (Upvoted ballots) (Downvoted ballots) subject := by
    unfold Considered Upvoted Downvoted
    rw [keys, depends, votes]
  have acyclic' : AcyclicGraph graph' := by
    unfold AcyclicGraph
    rwa [depends]
  obtain ⟨output', evaluates', elects', out'⟩ := evaluate_decides acyclic' ballots' deep'
  refine ⟨output', evaluates', fun subject => ?_⟩
  by_cases here : Considered graph (Upvoted ballots) (Downvoted ballots) subject
  · have this := elects' subject ((considered subject).2 here)
    unfold Upvoted Downvoted at this
    rw [depends, votes] at this
    exact this.unique (elects subject here)
  · rw [out subject here, out' subject fun h => here ((considered subject).1 h)]

end Cast

/-- The mount depends on the roof. -/
def roofGraph : Dict String (List String) :=
  .ofList [("mount", ["roof"])]

/-- The weather has voted against the roof. -/
def roofBallots : List (Ballot String) :=
  [⟨some "weather", "roof", some false⟩]

theorem roofGraph_dependsOn {subject other : String} (h : DependsOn roofGraph subject other) :
    subject = "mount" ∧ other = "roof" := by
  obtain ⟨others, found, mem⟩ := h
  rw [Dict.get?_eq_some] at found
  have entries : roofGraph.entries = [("mount", ["roof"])] := rfl
  rw [entries, List.mem_singleton] at found
  cases found
  exact ⟨rfl, List.mem_singleton.1 mem⟩

theorem roofGraph_acyclic : AcyclicGraph roofGraph := by
  intro subject path
  obtain ⟨_, first, -⟩ := Relation.TransGen.head'_iff.1 path
  obtain ⟨_, -, last⟩ := Relation.TransGen.tail'_iff.1 path
  simp [(roofGraph_dependsOn first).1] at last
  exact absurd (roofGraph_dependsOn last).2 (by decide)

/-- The roof has a downvote, but is no subject of the graph, and nothing that is demanded depends on it. -/
theorem roof_not_elects : AcyclicGraph roofGraph ∧ ∃ output,
    (StateElection.cast roofGraph roofBallots).evaluate 2 = .ok output ∧
    ¬ Elects (DependsOn roofGraph) (Upvoted roofBallots) (Downvoted roofBallots) output "roof" := by
  refine ⟨roofGraph_acyclic, .empty, rfl, fun elects => ?_⟩
  have voted : Downvoted roofBallots "roof" := ⟨some "weather", by decide +kernel⟩
  exact elects.absent.1 rfl (.inr voted)

/-- The mount is voted up, and the vote against the roof has been cleared. -/
def mountBallots : List (Ballot String) :=
  [⟨some "weather", "roof", some false⟩, ⟨none, "mount", some true⟩, ⟨some "weather", "roof", none⟩]

theorem evaluate_elects_example : ∃ output, (StateElection.cast roofGraph mountBallots).evaluate 2 = .ok output ∧
    Elects (DependsOn roofGraph) (Upvoted mountBallots) (Downvoted mountBallots) output "mount" := by
  have here : "mount" ∈ roofGraph.keys := by decide
  obtain ⟨output, evaluates, elects, -⟩ :=
    evaluate_elects roofGraph_acyclic mountBallots (show roofGraph.keys.length < 2 by decide)
  exact ⟨output, evaluates, elects "mount" (.inl here)⟩

end SensorKit.Common
