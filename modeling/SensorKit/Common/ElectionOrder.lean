import SensorKit.Common.StateElection

/-!
# The order of election results

`evaluate` documents that its results come in the topological order of the graph. A subject is stored once what it
depends on has been, unless it has a downvote: then it is stored at once, and a dependency that is demanded through
another subject comes after it.
-/

namespace SensorKit.Common

open Lib

variable {ε : Type} [DecidableEq ε]

/-- One element comes before another one in a list, the first time that each is there. -/
def Before (list : List ε) (first second : ε) : Prop :=
  list.idxOf first < list.idxOf second

instance (list : List ε) (first second : ε) : Decidable (Before list first second) :=
  inferInstanceAs (Decidable (_ < _))

section Before

variable {list rest : List ε} {x y : ε}

theorem Before.trans {z : ε} (h : Before list x y) (h' : Before list y z) : Before list x z :=
  Nat.lt_trans h h'

/-- What comes later does not change the order of what is there. -/
theorem before_append (first : x ∈ list) (second : y ∈ list) : Before (list ++ rest) x y ↔ Before list x y := by
  unfold Before
  rw [List.idxOf_append_of_mem first, List.idxOf_append_of_mem second]

theorem before_append_new (first : x ∈ list) (second : y ∉ list) : Before (list ++ rest) x y := by
  unfold Before
  rw [List.idxOf_append_of_mem first, List.idxOf_append_of_notMem second]
  have := List.idxOf_lt_length_of_mem first
  omega

theorem not_before_append_new (first : x ∉ list) (second : y ∈ list) : ¬ Before (list ++ rest) x y := by
  unfold Before
  rw [List.idxOf_append_of_notMem first, List.idxOf_append_of_mem second]
  have := List.idxOf_lt_length_of_mem second
  omega

end Before

/-- Each subject of the results comes after its direct and transitive dependencies that are there. -/
def InOrder (graph : Dict ε (List ε)) (output : Dict ε Bool) : Prop :=
  ∀ subject ∈ output.keys, ∀ other ∈ output.keys, Relation.TransGen (DependsOn graph) subject other →
    Before output.keys other subject

namespace StateElection

variable (election : StateElection ε)

/-- A subject, and then all that is demanded because of it: nothing below a subject with a downvote is. -/
def demandsOf : ℕ → ε → List ε
  | 0, _ => []
  | limit + 1, subject =>
    subject :: if (election.tallyOf subject).downvotes > 0 then []
      else (election.dependencies subject).flatMap (demandsOf limit)

/-- What the subjects of the graph that have votes demand, in the order of the graph. -/
def demands (limit : ℕ) : List ε :=
  election.graph.keys.flatMap fun subject =>
    if (election.tallyOf subject).downvotes > 0 ∨ (election.tallyOf subject).upvotes > 0 then
      election.demandsOf limit subject
    else []

variable {election} {up down : ε → Prop} {subject other : ε} {output output' : Dict ε Bool} {asked more : List ε}
  {path : List ε} {limit : ℕ}

theorem transGen_of_mem_demandsOf (mem : other ∈ election.demandsOf limit subject) :
    other = subject ∨ Relation.TransGen (DependsOn election.graph) subject other := by
  induction limit generalizing subject with
  | zero => cases mem
  | succ limit ih =>
    unfold demandsOf at mem
    split_ifs at mem with rejected
    · exact .inl (List.mem_singleton.1 mem)
    · rcases List.mem_cons.1 mem with here | below
      · exact .inl here
      · obtain ⟨next, depends, mem⟩ := List.mem_flatMap.1 below
        have depends := mem_dependencies.1 depends
        rcases ih mem with rfl | path
        · exact .inr (.single depends)
        · exact .inr (path.head depends)

/-! ## The order that an evaluation keeps -/

/-- What has been stored so far has been asked for, and what has been asked for has been stored but for the subjects
that are being evaluated. What a subject without a downvote depends on comes before it; one with a downvote comes
where it was asked for. -/
structure Follows (election : StateElection ε) (down : ε → Prop) (asked path : List ε) (output : Dict ε Bool) :
    Prop where
  asked_of_stored : ∀ subject ∈ output.keys, subject ∈ asked
  stored_of_asked : ∀ subject ∈ asked, subject ∈ output.keys ∨ subject ∈ path
  pending : ∀ subject ∈ path, subject ∉ output.keys
  kept : ∀ subject ∈ output.keys, ¬ down subject → ∀ other, DependsOn election.graph subject other →
    other ∈ output.keys ∧ Before output.keys other subject
  rejected : ∀ subject ∈ output.keys, down subject → ∀ other ∈ output.keys,
    Relation.TransGen (DependsOn election.graph) subject other →
      (Before output.keys other subject ↔ Before asked other subject)

theorem Follows.empty : Follows election down [] [] .empty := by
  constructor <;> simp [Dict.keys, Dict.empty]

/-- Subjects that have a state are asked for again. -/
theorem Follows.recall (h : Follows election down asked path output) (stored : ∀ other ∈ more, other ∈ output.keys) :
    Follows election down (asked ++ more) path output := by
  refine ⟨fun x mem => ?_, fun x mem => ?_, h.pending, h.kept, fun x mem voted y mem' depends => ?_⟩
  · exact List.mem_append_left _ (h.asked_of_stored x mem)
  · rcases List.mem_append.1 mem with mem | mem
    · exact h.stored_of_asked x mem
    · exact .inl (stored x mem)
  · rw [before_append (h.asked_of_stored y mem') (h.asked_of_stored x mem)]
    exact h.rejected x mem voted y mem' depends

/-- Nothing below a subject that has a state is without one. -/
theorem Follows.demandsOf_stored (tallies : Tallies election up down) (h : Follows election down asked path output)
    (stored : subject ∈ output.keys) (mem : other ∈ election.demandsOf limit subject) : other ∈ output.keys := by
  induction limit generalizing subject with
  | zero => cases mem
  | succ limit ih =>
    unfold demandsOf at mem
    split_ifs at mem with rejected
    · rwa [List.mem_singleton.1 mem]
    · rcases List.mem_cons.1 mem with rfl | below
      · exact stored
      · obtain ⟨next, depends, mem⟩ := List.mem_flatMap.1 below
        have free : ¬ down subject := fun voted => rejected ((tallies.downvotes subject).2 voted)
        exact ih (h.kept subject stored free next (mem_dependencies.1 depends)).1 mem

/-- The evaluation of a subject begins: it waits for what it depends on. -/
theorem Follows.enter (h : Follows election down asked path output) (fresh : subject ∉ output.keys) :
    Follows election down (asked ++ [subject]) (subject :: path) output := by
  refine ⟨fun x mem => ?_, fun x mem => ?_, fun x mem => ?_, h.kept, fun x mem voted y mem' depends => ?_⟩
  · exact List.mem_append_left _ (h.asked_of_stored x mem)
  · rcases List.mem_append.1 mem with mem | mem
    · exact (h.stored_of_asked x mem).imp_right (List.mem_cons_of_mem subject)
    · exact .inr (List.mem_singleton.1 mem ▸ List.mem_cons_self)
  · rcases List.mem_cons.1 mem with rfl | mem
    · exact fresh
    · exact h.pending x mem
  · rw [before_append (h.asked_of_stored y mem') (h.asked_of_stored x mem)]
    exact h.rejected x mem voted y mem' depends

/-- A subject's state is stored. Where the subject has a downvote, it has just been asked for; else what it depends on
has been stored. -/
theorem Follows.store {b : Bool} (acyclic : AcyclicGraph election.graph)
    (h : Follows election down asked (subject :: path) output) (waited : subject ∉ path)
    (last : down subject → ∀ other ∈ output.keys, Before asked other subject)
    (early : ∀ other ∈ output.keys, down other → Relation.TransGen (DependsOn election.graph) other subject →
      ¬ Before asked subject other)
    (known : ¬ down subject → ∀ other, DependsOn election.graph subject other → other ∈ output.keys)
    (here : subject ∈ asked) : Follows election down asked path (output.insert subject b) := by
  have fresh : subject ∉ output.keys := h.pending subject List.mem_cons_self
  have keys : (output.insert subject b).keys = output.keys ++ [subject] := Dict.keys_insert fresh
  refine ⟨fun x mem => ?_, fun x mem => ?_, fun x mem stored => ?_, fun x mem free y depends => ?_,
    fun x mem voted y mem' depends => ?_⟩
  · rcases Dict.mem_keys_insert.1 mem with rfl | mem
    · exact here
    · exact h.asked_of_stored x mem
  · rcases h.stored_of_asked x mem with mem | mem
    · exact .inl (Dict.mem_keys_insert.2 (.inr mem))
    · rcases List.mem_cons.1 mem with rfl | mem
      · exact .inl (Dict.mem_keys_insert.2 (.inl rfl))
      · exact .inr mem
  · rcases Dict.mem_keys_insert.1 stored with rfl | stored
    · exact waited mem
    · exact h.pending x (List.mem_cons_of_mem subject mem) stored
  · rw [keys]
    rcases Dict.mem_keys_insert.1 mem with rfl | mem
    · have stored := known free y depends
      exact ⟨List.mem_append_left _ stored, before_append_new stored fresh⟩
    · obtain ⟨stored, before⟩ := h.kept x mem free y depends
      exact ⟨List.mem_append_left _ stored, (before_append stored mem).2 before⟩
  · rw [keys]
    rcases Dict.mem_keys_insert.1 mem with rfl | old
    · rcases Dict.mem_keys_insert.1 mem' with rfl | old'
      · exact absurd depends (acyclic y)
      · exact iff_of_true (before_append_new old' fresh) (last voted y old')
    · rcases Dict.mem_keys_insert.1 mem' with rfl | old'
      · exact iff_of_false (not_before_append_new fresh old) (early x old voted depends)
      · rw [before_append old' old]
        exact h.rejected x old voted y old' depends

/-- **The evaluation of one subject** asks for what it demands, in that order. -/
theorem Follows.evaluateSubject (tallies : Tallies election up down) (acyclic : AcyclicGraph election.graph)
    (limit : ℕ) : ∀ asked path subject dependency output state output',
      Follows election down asked path output →
      (∀ above ∈ path, Relation.TransGen (DependsOn election.graph) above subject) →
      election.evaluateSubject limit subject dependency output = .ok (state, output') →
      (dependency = true ∨ up subject ∨ down subject →
        Follows election down (asked ++ election.demandsOf limit subject) path output' ∧
          subject ∈ election.demandsOf limit subject) ∧
      (¬ (dependency = true ∨ up subject ∨ down subject) → output' = output) := by
  induction limit with
  | zero =>
    intro asked path subject dependency output state output' _ _ evaluates
    cases evaluates
  | succ limit ih =>
    intro asked path subject dependency output state output' follows above evaluates
    have waited : subject ∉ path := fun mem => acyclic subject (above subject mem)
    have self : subject ∈ election.demandsOf (limit + 1) subject := List.mem_cons_self
    unfold StateElection.evaluateSubject at evaluates
    cases found : output.get? subject with
    | some b =>
      rw [found] at evaluates
      cases evaluates
      have stored : subject ∈ output.keys := Dict.mem_keys.2 ⟨b, found⟩
      exact ⟨fun _ => ⟨follows.recall fun _ mem => follows.demandsOf_stored tallies stored mem, self⟩, fun _ => rfl⟩
    | none =>
      have fresh : subject ∉ output.keys := Dict.get?_eq_none.1 found
      have unasked : subject ∉ asked := fun mem => (follows.stored_of_asked subject mem).elim fresh waited
      have entered := follows.enter fresh
      have here : subject ∈ asked ++ [subject] := by simp
      rw [found] at evaluates
      dsimp only at evaluates
      by_cases rejected : (election.tallyOf subject).downvotes > 0
      · have voted := (tallies.downvotes subject).1 rejected
        rw [if_pos rejected] at evaluates
        cases evaluates
        have demands : election.demandsOf (limit + 1) subject = [subject] := by
          unfold demandsOf
          rw [if_pos rejected]
        refine ⟨fun _ => ⟨?_, self⟩, fun wanted => absurd (.inr (.inr voted)) wanted⟩
        rw [demands]
        refine entered.store acyclic waited (fun _ x mem => ?_) (fun x mem _ _ => ?_) (absurd voted) here
        · exact before_append_new (follows.asked_of_stored x mem) unasked
        · exact not_before_append_new unasked (follows.asked_of_stored x mem)
      · have free : ¬ down subject := fun voted => rejected ((tallies.downvotes subject).2 voted)
        rw [if_neg rejected] at evaluates
        have demands : election.demandsOf (limit + 1) subject =
            subject :: (election.dependencies subject).flatMap (election.demandsOf limit) := by
          rw [demandsOf, if_neg rejected]
        by_cases wanted : (election.tallyOf subject).upvotes + dependency.toNat > 0
        · rw [if_pos wanted, bind_eq_ok] at evaluates
          obtain ⟨turn, loops, ends⟩ := evaluates
          cases pure_eq_ok.1 ends
          have below : ∀ other, DependsOn election.graph subject other → ∀ a ∈ subject :: path,
              Relation.TransGen (DependsOn election.graph) a other := by
            intro other depends a mem
            rcases List.mem_cons.1 mem with rfl | mem
            · exact .single depends
            · exact (above a mem).tail depends
          -- The dependencies so far have been asked for below the subject.
          obtain ⟨inside, covered⟩ := foldlM_invariant_prefix (fun seen turn =>
            Follows election down (asked ++ [subject] ++ seen.flatMap (election.demandsOf limit)) (subject :: path)
              turn.2 ∧ ∀ other ∈ seen, other ∈ election.demandsOf limit other) loops
            ⟨by simpa using entered, by simp⟩ (by
              rintro seen other rest turn turn' eq ⟨inside, covered⟩ step
              obtain ⟨⟨state, output'⟩, evaluates, step⟩ := bind_eq_ok.1 step
              have depends : DependsOn election.graph subject other := by
                rw [← mem_dependencies, eq]
                simp
              obtain ⟨follows, self⟩ := (ih _ _ _ _ _ _ _ inside (below other depends) evaluates).1 (.inl rfl)
              cases state with
              | none => cases step
              | some good =>
                obtain rfl := pure_eq_ok.1 step
                refine ⟨by simpa using follows, fun a mem => ?_⟩
                rcases List.mem_append.1 mem with mem | mem
                · exact covered a mem
                · rwa [List.mem_singleton.1 mem])
          refine ⟨fun _ => ⟨?_, self⟩, fun unwanted => ?_⟩
          · rw [demands, List.append_cons]
            refine inside.store acyclic waited (absurd · free) (fun x mem voted depends => ?_)
              (fun _ other depends => ?_) (by simp)
            · -- What a subject with a downvote leads to has not been asked for below itself.
              have before : x ∈ asked := by
                have := inside.asked_of_stored x mem
                rw [← List.append_cons, ← demands, List.mem_append] at this
                rcases this with early | late
                · exact early
                · rcases transGen_of_mem_demandsOf late with rfl | path
                  · exact absurd voted free
                  · exact absurd (depends.trans path) (acyclic x)
              rw [List.append_assoc]
              exact not_before_append_new unasked before
            · have demanded : other ∈ asked ++ [subject] ++
                  (election.dependencies subject).flatMap (election.demandsOf limit) := by
                have mem := mem_dependencies.2 depends
                exact List.mem_append_right _ (List.mem_flatMap.2 ⟨other, mem, covered other mem⟩)
              refine (inside.stored_of_asked other demanded).resolve_right fun mem => ?_
              exact acyclic other (below other depends other mem)
          · refine absurd ?_ unwanted
            cases dependency with
            | true => exact .inl rfl
            | false => exact .inr (.inl ((tallies.upvotes subject).1 (by simpa using wanted)))
        · rw [if_neg wanted] at evaluates
          cases evaluates
          refine ⟨fun asks => ?_, fun _ => rfl⟩
          rcases asks with rfl | voted | voted
          · have := tallies.nonneg subject
            simp at wanted
            omega
          · have := (tallies.upvotes subject).2 voted
            omega
          · exact absurd voted free

/-- The evaluation of the whole graph asks for what is demanded, in that order. -/
theorem evaluate_follows (tallies : Tallies election up down) (acyclic : AcyclicGraph election.graph)
    (evaluates : election.evaluate limit = .ok output) : Follows election down (election.demands limit) [] output := by
  have asks (subject : ε) : ((election.tallyOf subject).downvotes > 0 ∨ (election.tallyOf subject).upvotes > 0) ↔
      false = true ∨ up subject ∨ down subject := by
    have := tallies.upvotes subject
    have := tallies.downvotes subject
    simp only [gt_iff_lt, Bool.false_eq_true, false_or, *]
    exact or_comm
  refine foldlM_invariant_prefix (fun seen output => Follows election down (seen.flatMap fun subject =>
    if (election.tallyOf subject).downvotes > 0 ∨ (election.tallyOf subject).upvotes > 0 then
      election.demandsOf limit subject else []) [] output) evaluates .empty ?_
  intro seen subject rest output output' _ follows step
  obtain ⟨⟨state, result⟩, evaluates, step⟩ := bind_eq_ok.1 step
  obtain rfl := pure_eq_ok.1 step
  obtain ⟨asked, skipped⟩ := Follows.evaluateSubject tallies acyclic limit _ _ _ _ _ _ _ follows (by simp) evaluates
  rw [List.flatMap_append, List.flatMap_singleton]
  split_ifs with votes
  · exact (asked ((asks subject).1 votes)).1
  · rw [List.append_nil, skipped fun wanted => votes ((asks subject).2 wanted)]
    exact follows

/-- Subjects without a downvote never come too early, so that the order is right when it is for those with one. -/
theorem Follows.inOrder (h : Follows election down asked path output)
    (rejected : ∀ subject ∈ output.keys, down subject → ∀ other ∈ output.keys,
      Relation.TransGen (DependsOn election.graph) subject other → Before asked other subject) :
    InOrder election.graph output := by
  intro subject mem other mem' leads
  induction leads using Relation.TransGen.head_induction_on with
  | @single subject depends =>
    by_cases voted : down subject
    · exact (h.rejected subject mem voted other mem' (.single depends)).2
        (rejected subject mem voted other mem' (.single depends))
    · exact (h.kept subject mem voted other depends).2
  | @head subject next depends leads ih =>
    by_cases voted : down subject
    · exact (h.rejected subject mem voted other mem' (leads.head depends)).2
        (rejected subject mem voted other mem' (leads.head depends))
    · obtain ⟨stored, before⟩ := h.kept subject mem voted next depends
      exact (ih stored).trans before

end StateElection

open StateElection

/-- Where a subject with a downvote and one that it depends on, directly or through others, are both demanded, the
dependency is demanded first. -/
def DemandedInOrder (graph : Dict ε (List ε)) (ballots : List (Ballot ε)) (limit : ℕ) : Prop :=
  let demands := (StateElection.cast graph ballots).demands limit
  ∀ subject ∈ demands, Downvoted ballots subject → ∀ other ∈ demands,
    Relation.TransGen (DependsOn graph) subject other → Before demands other subject

/-- **The results are in dependency order** exactly when no subject with a downvote is demanded before something that
it depends on. -/
theorem evaluate_inOrder_iff {graph : Dict ε (List ε)} (acyclic : AcyclicGraph graph) (ballots : List (Ballot ε))
    {limit : ℕ} (deep : graph.keys.length < limit) :
    ∃ output, (StateElection.cast graph ballots).evaluate limit = .ok output ∧
      (InOrder graph output ↔ DemandedInOrder graph ballots limit) := by
  have same := graph_cast graph ballots
  have acyclic' : AcyclicGraph (StateElection.cast graph ballots).graph := same.symm ▸ acyclic
  have deep' : (StateElection.cast graph ballots).graph.keys.length < limit := same.symm ▸ deep
  obtain ⟨output, evaluates, -⟩ := evaluate_returns tallies_cast acyclic' deep'
  refine ⟨output, evaluates, ?_⟩
  have follows := evaluate_follows tallies_cast acyclic' evaluates
  have stored (subject : ε) (mem : subject ∈ (StateElection.cast graph ballots).demands limit) : subject ∈ output.keys :=
    (follows.stored_of_asked subject mem).resolve_right List.not_mem_nil
  constructor
  · intro order subject mem voted other mem' leads
    have before := order subject (stored subject mem) other (stored other mem') leads
    rw [← same] at leads
    exact (follows.rejected subject (stored subject mem) voted other (stored other mem') leads).1 before
  · intro order
    rw [← same]
    refine follows.inOrder fun subject mem voted other mem' leads => ?_
    rw [same] at leads
    exact order subject (follows.asked_of_stored subject mem) voted other (follows.asked_of_stored other mem') leads

/-- The mount depends on the roof, and both are subjects. -/
def domeGraph : Dict String (List String) :=
  .ofList [("mount", ["roof"]), ("roof", [])]

theorem domeGraph_dependsOn {subject other : String} (h : DependsOn domeGraph subject other) :
    subject = "mount" ∧ other = "roof" := by
  obtain ⟨others, found, mem⟩ := h
  rw [Dict.get?_eq_some] at found
  have entries : domeGraph.entries = [("mount", ["roof"]), ("roof", [])] := by decide
  rw [entries] at found
  simp only [List.mem_cons, Prod.mk.injEq, List.not_mem_nil, or_false] at found
  rcases found with ⟨rfl, rfl⟩ | ⟨rfl, rfl⟩
  · exact ⟨rfl, List.mem_singleton.1 mem⟩
  · cases mem

theorem domeGraph_acyclic : AcyclicGraph domeGraph := by
  intro subject path
  obtain ⟨_, first, -⟩ := Relation.TransGen.head'_iff.1 path
  obtain ⟨_, -, last⟩ := Relation.TransGen.tail'_iff.1 path
  rw [(domeGraph_dependsOn first).1] at last
  exact absurd (domeGraph_dependsOn last).2 (by decide)

/-- The mount is voted down, and the roof up. -/
def domeBallots : List (Ballot String) :=
  [⟨some "weather", "mount", some false⟩, ⟨none, "roof", some true⟩]

/-- The mount, with a downvote, comes before the roof that it depends on. -/
theorem dome_not_inOrder : AcyclicGraph domeGraph ∧ ∃ output,
    (StateElection.cast domeGraph domeBallots).evaluate 3 = .ok output ∧ output.keys = ["mount", "roof"] ∧
      ¬ InOrder domeGraph output := by
  have evaluates : (StateElection.cast domeGraph domeBallots).evaluate 3 =
      .ok (.ofList [("mount", false), ("roof", true)]) := rfl
  refine ⟨domeGraph_acyclic, _, evaluates, by decide, fun order => ?_⟩
  have depends : DependsOn domeGraph "mount" "roof" := ⟨["roof"], by decide, by decide⟩
  exact absurd (order "mount" (by decide) "roof" (by decide) (.single depends)) (by decide)

/-- With both voted up, the roof comes first. -/
theorem evaluate_inOrder_iff_example : ∃ output,
    (StateElection.cast domeGraph [⟨none, "mount", some true⟩, ⟨none, "roof", some true⟩]).evaluate 3 = .ok output ∧
      (InOrder domeGraph output ↔
        DemandedInOrder domeGraph [⟨none, "mount", some true⟩, ⟨none, "roof", some true⟩] 3) :=
  evaluate_inOrder_iff domeGraph_acyclic _ (by decide)

end SensorKit.Common
