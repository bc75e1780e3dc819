import SensorKit.Sensor.Lowering

/-!
# Cycles of planned steps

Two checks look for cycles. The recursion through omitted steps finds one that it has not left; the sort of the graph
finds one through a kept step, in what is left once the omitted steps have been taken out.
-/

namespace SensorKit.Sensor

open Lib Common

variable {facts : BoundSensor} {steps : List PlannedStep} {byName : Dict String PlannedStep} {omitted : List String}
  {e : PlanningError} {b : GraphBuilder (Option Operation)}

/-! ## The recursion ends -/

/-- **Resolving a step ends**: a name is not entered twice, so there is fuel left where the recursion turns back. -/
theorem resolveStep_succ (fuel : ℕ) : ∀ {name : String} {resolved : ResolvedDeps} {seen : List String}, seen.Nodup →
    seen ⊆ byName.keys → byName.keys.length + 1 ≤ fuel + seen.length →
    resolveStep byName omitted (fuel + 1) name resolved seen = resolveStep byName omitted fuel name resolved seen := by
  induction fuel with
  | zero =>
    intro name resolved seen nodup inside enough
    have less := (List.subperm_of_subset nodup inside).length_le
    omega
  | succ fuel ih =>
    intro name resolved seen nodup inside enough
    rw [resolveStep, resolveStep]
    split
    · rfl
    · split_ifs with cyclic
      · rfl
      · cases found : byName.get? name with
        | none => rfl
        | some step =>
          have deeper : ∀ {on : String} {resolved : ResolvedDeps},
              resolveStep byName omitted (fuel + 1) on resolved (name :: seen) =
                resolveStep byName omitted fuel on resolved (name :: seen) := by
            intro on resolved
            refine ih (List.nodup_cons.2 ⟨cyclic, nodup⟩) ?_ ?_
            · exact List.cons_subset.2 ⟨Dict.mem_keys.2 ⟨step, found⟩, inside⟩
            · rw [List.length_cons]
              omega
          simp only [deeper]

/-- More fuel makes no difference. -/
theorem resolveStep_fuel (more : ℕ) {name : String} {resolved : ResolvedDeps} :
    resolveStep byName omitted (byName.keys.length + 1 + more) name resolved [] =
      resolveStep byName omitted (byName.keys.length + 1) name resolved [] := by
  induction more with
  | zero => rfl
  | succ more ih =>
    rw [← Nat.add_assoc, resolveStep_succ _ .nil (List.nil_subset _) (by simp)]
    exact ih

/-! ## The errors -/

/-- The error says that there is a cycle. -/
def PlanningError.IsCycle (e : PlanningError) : Prop :=
  (∃ name, e = .value ("omitted steps depend on each other, through '" ++ name ++ "'")) ∨
    ∃ labels, e = .value ("dependency cycle in graph: " ++ labels)

/-- **What the recursion refuses** has a cycle. The names that it has seen lead to the one that it resolves. -/
theorem resolveStep_error (index : ByName steps byName) (closed : ∀ n m, Declares steps n m → m ∈ steps.map PlannedStep.name)
    (fuel : ℕ) : ∀ {name : String} {resolved : ResolvedDeps} {seen : List String} {e : PlanningError},
      name ∈ steps.map PlannedStep.name → seen.Nodup → seen ⊆ byName.keys →
      byName.keys.length + 1 ≤ fuel + seen.length →
      (∀ s ∈ seen, Relation.TransGen (Declares steps) s name) →
      resolveStep byName omitted fuel name resolved seen = .error e → e.IsCycle ∧ Cyclic (Declares steps) := by
  induction fuel with
  | zero =>
    intro name resolved seen e _ nodup inside enough
    have less := (List.subperm_of_subset nodup inside).length_le
    omega
  | succ fuel ih =>
    intro name resolved seen e node nodup inside enough leads h
    rw [resolveStep] at h
    split at h
    · cases h
    split_ifs at h with cyclic
    · obtain rfl := Except.error.inj h
      exact ⟨.inl ⟨name, rfl⟩, name, leads name cyclic⟩
    obtain ⟨step, mem, rfl⟩ := List.mem_map.1 node
    rw [index.named step mem] at h
    simp only [Option.map_some, Option.getD_some] at h
    rcases bind_eq_error.1 h with loop | ⟨_, -, done⟩
    · obtain ⟨pre, dep, post, ⟨memo, here⟩, eq, -, turn⟩ := exists_of_foldlM_error (fun _ _ => True) loop trivial
        fun _ _ _ _ _ _ _ _ => trivial
      have declared : Declares steps step.name dep.on := ⟨step, mem, rfl, dep, by simp [eq], rfl⟩
      dsimp only at turn
      split_ifs at turn
      · rcases bind_eq_error.1 turn with fails | ⟨_, -, done⟩
        · refine ih (closed _ _ declared) (List.nodup_cons.2 ⟨cyclic, nodup⟩) ?_ ?_ ?_ fails
          · exact List.cons_subset.2 ⟨index.names ▸ node, inside⟩
          · rw [List.length_cons]
            omega
          · intro s seen
            rcases List.mem_cons.1 seen with rfl | seen
            · exact .single declared
            · exact (leads s seen).tail declared
        · cases done
      · cases turn
    · cases done

/-- What has been resolved leads to no cycle of omitted steps. -/
def Ended (facts : BoundSensor) (steps : List PlannedStep) (resolved : ResolvedDeps) : Prop :=
  ∀ n ∈ resolved.keys, Acc (fun m n => Declares steps n m ∧ Hidden facts steps m) n

/-- **What the recursion accepts** leads to no cycle of omitted steps. -/
theorem resolveStep_ended (index : ByName steps byName) (hidden : ∀ n, n ∈ omitted ↔ Hidden facts steps n)
    (closed : ∀ n m, Declares steps n m → m ∈ steps.map PlannedStep.name) (fuel : ℕ) :
    ∀ {name : String} {resolved resolved' : ResolvedDeps} {seen : List String} {deps : List Dependency},
      name ∈ steps.map PlannedStep.name → Ended facts steps resolved →
      resolveStep byName omitted fuel name resolved seen = .ok (resolved', deps) →
      Ended facts steps resolved' ∧ name ∈ resolved'.keys := by
  induction fuel with
  | zero => simp [resolveStep]
  | succ fuel ih =>
    intro name resolved resolved' seen deps node ended h
    rw [resolveStep] at h
    split at h
    · rename_i found
      cases h
      exact ⟨ended, Dict.mem_keys.2 ⟨_, found⟩⟩
    split_ifs at h with cyclic
    obtain ⟨step, mem, rfl⟩ := List.mem_map.1 node
    rw [index.named step mem] at h
    simp only [Option.map_some, Option.getD_some, bind_eq_ok, pure_eq_ok, Prod.mk.injEq] at h
    obtain ⟨⟨after, here⟩, loop, rfl, rfl⟩ := h
    obtain ⟨ended', leads⟩ := foldlM_invariant_prefix
      (fun pre (state : ResolvedDeps × List Dependency) => Ended facts steps state.1 ∧ ∀ dep ∈ pre,
        Hidden facts steps dep.on → Acc (fun m n => Declares steps n m ∧ Hidden facts steps m) dep.on) loop
      ⟨ended, by simp⟩ fun pre dep post state state' eq inv turn => by
        obtain ⟨memo, here⟩ := state
        have declared : Declares steps step.name dep.on := ⟨step, mem, rfl, dep, by simp [eq], rfl⟩
        dsimp only at turn
        split_ifs at turn with out
        · simp only [bind_eq_ok, pure_eq_ok] at turn
          obtain ⟨⟨memo', deps⟩, resolves, rfl⟩ := turn
          obtain ⟨ended', known⟩ := ih (closed _ _ declared) inv.1 resolves
          refine ⟨ended', fun dep' mem' omits => ?_⟩
          rcases mem_snoc.1 mem' with before | new
          · exact inv.2 dep' before omits
          · rw [new]
            exact ended' _ known
        · obtain rfl := pure_eq_ok.1 turn
          refine ⟨inv.1, fun dep' mem' omits => ?_⟩
          rcases mem_snoc.1 mem' with before | new
          · exact inv.2 dep' before omits
          · rw [new] at omits
            exact absurd ((hidden _).2 omits) out
    refine ⟨fun n known => ?_, Dict.mem_keys_insert.2 (.inl rfl)⟩
    rcases Dict.mem_keys_insert.1 known with rfl | known
    · refine ⟨_, fun m edge => ?_⟩
      obtain ⟨⟨step', mem', name, dep, listed, on⟩, omits⟩ := edge
      obtain rfl := List.inj_on_of_nodup_map index.nodup mem' mem name
      subst on
      exact leads dep listed omits
    · exact ended' n known

theorem resolvedDeps_error (index : ByName steps byName)
    (closed : ∀ n m, Declares steps n m → m ∈ steps.map PlannedStep.name) (h : resolvedDeps byName omitted = .error e) :
    e.IsCycle ∧ Cyclic (Declares steps) := by
  obtain ⟨pre, name, post, memo, eq, -, turn⟩ := exists_of_foldlM_error (fun _ _ => True) h trivial
    fun _ _ _ _ _ _ _ _ => trivial
  rcases bind_eq_error.1 turn with fails | ⟨_, -, done⟩
  · have node : name ∈ steps.map PlannedStep.name := by
      rw [← index.names, eq]
      simp
    exact resolveStep_error index closed _ node .nil (List.nil_subset _) (by simp) (by simp) fails
  · cases done

theorem resolvedDeps_ended {resolved : ResolvedDeps} (index : ByName steps byName)
    (hidden : ∀ n, n ∈ omitted ↔ Hidden facts steps n)
    (closed : ∀ n m, Declares steps n m → m ∈ steps.map PlannedStep.name) (h : resolvedDeps byName omitted = .ok resolved)
    (n : String) : Acc (fun m n => Declares steps n m ∧ Hidden facts steps m) n := by
  have all := foldlM_invariant_prefix (fun pre (memo : ResolvedDeps) => Ended facts steps memo ∧
      ∀ n ∈ pre, Acc (fun m n => Declares steps n m ∧ Hidden facts steps m) n) h
    ⟨fun n known => by simp [Dict.keys, Dict.empty] at known, by simp⟩ fun pre name post memo memo' eq inv turn => by
      simp only [bind_eq_ok, pure_eq_ok] at turn
      obtain ⟨⟨memo'', deps⟩, resolves, rfl⟩ := turn
      have node : name ∈ steps.map PlannedStep.name := by
        rw [← index.names, eq]
        simp
      obtain ⟨ended, known⟩ := resolveStep_ended index hidden closed _ node inv.1 resolves
      refine ⟨ended, fun n mem => ?_⟩
      rcases mem_snoc.1 mem with before | new
      · exact inv.2 n before
      · rw [new]
        exact ended name known
  by_cases node : n ∈ steps.map PlannedStep.name
  · exact all.2 n (index.names ▸ node)
  · refine ⟨n, fun m edge => ?_⟩
    obtain ⟨⟨step, mem, name, -⟩, -⟩ := edge
    exact absurd (List.mem_map.2 ⟨step, mem, name⟩) node

/-! ## The two checks together -/

section Compile

variable {deadlines : List DeadlineRule} {rules : List OperatorRule}

/-- What is kept stands in the graph. -/
theorem exists_kept (closed : ∀ n m, Declares steps n m → m ∈ steps.map PlannedStep.name) {n m : String}
    (declared : Declares steps n m) (stays : ¬ Hidden facts steps m) :
    ∃ j : ℕ, ((kept facts steps).map PlannedStep.name)[j]? = some m := by
  obtain ⟨step, mem, rfl⟩ := List.mem_map.1 (closed n m declared)
  have listed : step ∈ kept facts steps := mem_kept.2 ⟨mem, by
    by_contra out
    exact stays ⟨step, mem, rfl, by simpa using out⟩⟩
  exact List.mem_iff_getElem?.1 (List.mem_map_of_mem listed)

theorem Through.declared {n m : String} (chain : Through (Declares steps) (Hidden facts steps) n m) :
    ∃ o, Declares steps o m := by
  induction chain with
  | direct first => exact ⟨_, first⟩
  | hidden _ _ _ ih => exact ih

section

variable (h : Draws facts deadlines rules steps b)
include h

/-- **A graph without a cycle**, of steps whose omitted ones lead to none either, comes of dependencies without one. -/
theorem Draws.not_cyclic (closed : ∀ n m, Declares steps n m → m ∈ steps.map PlannedStep.name)
    (ended : ∀ n, Acc (fun m n => Declares steps n m ∧ Hidden facts steps m) n)
    (acyclic : WellFounded fun d n => d ∈ b.frozen.deps n) : ¬ Cyclic (Declares steps) := by
  have nodes : ∀ (i : ℕ) n, ((kept facts steps).map PlannedStep.name)[i]? = some n → Acc (fun m n => Declares steps n m) n := by
    intro i
    induction i using acyclic.induction with
    | h i ih =>
      intro n at_i
      refine acc_of_through (ended n) fun m stays chain => ?_
      obtain ⟨o, declared⟩ := Through.declared chain
      obtain ⟨j, at_j⟩ := exists_kept closed declared stays
      exact ih j ((h.deps i j).2 ⟨n, m, at_i, at_j, chain⟩) m at_j
  refine not_cyclic_of_acc fun n => acc_of_through (ended n) fun m stays chain => ?_
  obtain ⟨o, declared⟩ := Through.declared chain
  obtain ⟨j, at_j⟩ := exists_kept closed declared stays
  exact nodes j m at_j

theorem Draws.inside (n : ℕ) : ∀ d ∈ b.frozen.deps n, d < b.nodes.length := by
  intro d edge
  obtain ⟨_, m, -, at_d, -⟩ := (h.deps n d).1 edge
  have bound := (List.getElem?_eq_some_iff.1 at_d).1
  rwa [List.length_map, h.nodes.length_eq] at bound

/-- A cycle of the graph is one of the declared dependencies. -/
theorem Draws.cyclic (cyclic : Cyclic fun n d => d ∈ b.frozen.deps n) : Cyclic (Declares steps) := by
  refine cyclic.map (fun i => (((kept facts steps).map PlannedStep.name)[i]?).getD "") fun i j edge => ?_
  obtain ⟨n, m, at_i, at_j, chain⟩ := (h.deps i j).1 edge
  rw [at_i, at_j]
  exact chain.transGen

end

/-- The steps are named apart and depend on one another only, commands have targets, no unsupported command is
required, and deadlines and operator rules resolve. -/
structure Lowerable (facts : BoundSensor) (deadlines : List DeadlineRule) (rules : List OperatorRule)
    (steps : List PlannedStep) : Prop where
  names : (steps.map PlannedStep.name).Nodup
  paired : ∀ step ∈ steps, step.command.isNone = step.target.isNone
  closed : ∀ n m, Declares steps n m → m ∈ steps.map PlannedStep.name
  omits : ∀ step ∈ steps, step.omitted facts = true → step.unsupported = .omit
  resolves : ∀ step ∈ kept facts steps, ∃ payload, planned step facts deadlines = .ok payload
  ruled : ∀ step ∈ kept facts steps, ∃ effect, effects step rules facts = .ok effect

namespace Lowerable

theorem checked (h : Lowerable facts deadlines rules steps) : ∃ byName, checked steps = .ok byName := by
  unfold Sensor.checked
  refine exists_foldlM_bind (fun pre index => index.keys = pre.map PlannedStep.name) rfl
    (fun pre step post index eq names => ?_) fun index names => ⟨index, if_pos ?_⟩
  · have fresh : step.name ∉ index.keys := by
      rw [names]
      have nodup := h.names
      rw [eq, List.map_append, List.map_cons] at nodup
      exact fun mem => (List.nodup_append.1 nodup).2.2 _ mem _ (by simp) rfl
    have paired := h.paired step (by simp [eq])
    refine ⟨index.insert step.name step, ?_, ?_⟩
    · rw [if_neg fresh, if_neg (not_not.2 paired)]
    · rw [Dict.keys_insert fresh, names, List.map_append]
      rfl
  · have none : (steps.flatMap fun step => step.deps.map Dependency.on).filter (· ∉ index.keys) = [] := by
      refine List.filter_eq_nil_iff.2 fun m mem => ?_
      obtain ⟨step, listed, mem⟩ := List.mem_flatMap.1 mem
      obtain ⟨dep, declared, rfl⟩ := List.mem_map.1 mem
      have known := h.closed step.name dep.on ⟨step, listed, rfl, dep, declared, rfl⟩
      rw [names]
      simpa using known
    rw [none]
    rfl

theorem fates (h : Lowerable facts deadlines rules steps) : ∃ fated, fates steps facts = .ok fated := by
  unfold Sensor.fates
  refine (exists_foldlM (fun _ _ => True) trivial fun pre step post s eq _ => ?_).imp fun _ done => done.1
  have omits := h.omits step (by simp [eq])
  unfold fate
  split
  rename_i omitted omissions
  split
  · rename_i command target hc ht
    dsimp only
    split_ifs with supported
    · exact ⟨_, rfl, trivial⟩
    · rw [omits (by simp [PlannedStep.omitted, hc, ht, supported])]
      exact ⟨_, rfl, trivial⟩
  · exact ⟨_, rfl, trivial⟩

theorem adds (h : Lowerable facts deadlines rules steps) (hidden : ∀ n, n ∈ omitted ↔ Hidden facts steps n) :
    ∃ c, steps.foldlM (Compiling.add facts deadlines rules omitted) {} = .ok c := by
  refine (exists_foldlM (fun _ _ => True) trivial fun pre step post c eq _ => ?_).imp fun _ done => done.1
  have mem : step ∈ steps := by simp [eq]
  unfold Compiling.add
  split_ifs with out
  · exact ⟨_, rfl, trivial⟩
  · have listed : step ∈ kept facts steps := mem_kept.2 ⟨mem, by
      by_contra omits
      exact out ((hidden step.name).2 ⟨step, mem, rfl, by simpa using omits⟩)⟩
    obtain ⟨payload, plans⟩ := h.resolves step listed
    obtain ⟨effect, has⟩ := h.ruled step listed
    rw [plans, has]
    exact ⟨_, rfl, trivial⟩

/-- **The two checks are exact** together. -/
theorem compile_cases (h : Lowerable facts deadlines rules steps) :
    (∃ e, compile steps facts deadlines rules = .error e ∧ e.IsCycle ∧ Cyclic (Declares steps)) ∨
      ∃ built, compile steps facts deadlines rules = .ok built ∧ ¬ Cyclic (Declares steps) := by
  obtain ⟨byName, checks⟩ := h.checked
  obtain ⟨⟨omitted, omissions⟩, fated⟩ := h.fates
  obtain ⟨index, closed⟩ := checked_eq_ok checks
  have hidden : ∀ n, n ∈ omitted ↔ Hidden facts steps n := fun n => mem_omitted fated
  obtain ⟨c, adds⟩ := h.adds hidden
  cases resolves : resolvedDeps byName omitted with
  | error e =>
    refine .inl ⟨e, ?_, resolvedDeps_error index closed resolves⟩
    simp only [compile, checks, fated, resolves, bind, Except.bind]
  | ok resolved =>
    have draws : Draws facts deadlines rules steps (c.edged resolved) := edged_draws h.names
      (building_of_foldlM h.names hidden adds) (resolvedDeps_eq_ok index hidden closed resolves)
    cases builds : (c.edged resolved).build with
    | error message =>
      obtain ⟨⟨labels, rfl⟩, cyclic⟩ := draws.made.cyclic draws.inside builds
      refine .inl ⟨_, ?_, .inr ⟨labels, rfl⟩, draws.cyclic cyclic⟩
      simp only [compile, checks, fated, resolves, adds, built, builds, bind, Except.bind]
    | ok graph =>
      have valid := draws.made.valid builds
      obtain rfl := GraphBuilder.build_eq_ok builds
      refine .inr ⟨((c.edged resolved).frozen, c.operations, omissions), ?_, draws.not_cyclic closed (resolvedDeps_ended index hidden closed resolves) valid.acyclic⟩
      simp only [compile, checks, fated, resolves, adds, built, builds, bind, Except.bind, pure, Except.pure]

end Lowerable

/-! ## Other errors -/

/-- An error that begins otherwise says nothing of cycles. -/
theorem not_isCycle {message : String} (first : message.toList.take 2 ≠ ['o', 'm'])
    (second : message.toList.take 2 ≠ ['d', 'e']) : ¬ (PlanningError.value message).IsCycle := by
  rintro (⟨name, same⟩ | ⟨labels, same⟩)
  · apply first
    rw [PlanningError.value.inj same]
    simp [String.toList_append]
  · apply second
    rw [PlanningError.value.inj same]
    simp [String.toList_append]

/-- The computation raises no value error. -/
def Quiet {α : Type} (x : Except PlanningError α) : Prop :=
  ∀ message, x ≠ .error (.value message)

namespace Quiet

variable {α β : Type} {x : Except PlanningError α} {f : α → Except PlanningError β}

theorem ok (a : α) : Quiet (.ok a : Except PlanningError α) := by
  rintro message ⟨⟩

theorem bind (h : Quiet x) (rest : ∀ a, Quiet (f a)) : Quiet (x >>= f) := by
  intro message fails
  rcases bind_eq_error.1 fails with here | ⟨a, -, there⟩
  · exact h message here
  · exact rest a message there

theorem lookup {υ : Type} (index : Dict Placement υ) (p : Placement) : Quiet (Topology.lookup index p) := by
  intro message
  unfold Topology.lookup
  split <;> simp

theorem known (facts : Option BoundSensor) (question : String) : Quiet (known facts question) := by
  intro message
  unfold Sensor.known
  split <;> simp

theorem not_isCycle (h : Quiet x) (fails : x = .error e) : ¬ e.IsCycle := by
  rintro (⟨name, rfl⟩ | ⟨labels, rfl⟩)
  · exact h _ fails
  · exact h _ fails

theorem findM? {p : α → Except PlanningError Bool} {xs : List α} (h : ∀ x ∈ xs, Quiet (p x)) : Quiet (xs.findM? p) := by
  induction xs with
  | nil => exact .ok _
  | cons x xs ih =>
    refine .bind (h x (by simp)) fun b => ?_
    cases b with
    | true => exact .ok _
    | false => exact ih fun x mem => h x (by simp [mem])

end Quiet

mutual

/-- **A predicate raises no value error.** -/
theorem quiet_matches (p : Placement) (facts : Option BoundSensor) : (s : Selection) → Quiet (s.matches p facts)
  | .trait _ => .bind (.known _ _) fun _ => .ok _
  | .tag _ => .bind (.known _ _) fun k => .bind (.bind (.lookup _ _) fun record => by
      cases record <;> exact .ok _) fun _ => .ok _
  | .device _ => .ok _
  | .kind _ => .bind (.known _ _) fun k => .bind (.bind (.lookup _ _) fun record => by
      cases record <;> exact .ok _) fun _ => .ok _
  | .instrument _ => .bind (.known _ _) fun k => .bind (.bind (.lookup _ _) fun record => by
      cases record <;> exact .ok _) fun _ => .ok _
  | .supports _ => .bind (.known _ _) fun _ => .ok _
  | .publishes _ => .bind (.known _ _) fun _ => .ok _
  | .keyword _ _ => .bind (.known _ _) fun k => by
      cases k.deviceKeywords p.device with
      | none =>
        rintro message ⟨⟩
      | some _ => exact .ok _
  | .allOf members => quiet_matchesAll p facts members
  | .anyOf members => quiet_matchesAny p facts members
  | .negated member => .bind (quiet_matches p facts member) fun _ => .ok _

theorem quiet_matchesAll (p : Placement) (facts : Option BoundSensor) :
    (members : List Selection) → Quiet (matchesAll p facts members)
  | [] => .ok _
  | s :: members => .bind (quiet_matches p facts s) fun b => by
      cases b with
      | true => exact quiet_matchesAll p facts members
      | false => exact .ok _

theorem quiet_matchesAny (p : Placement) (facts : Option BoundSensor) :
    (members : List Selection) → Quiet (matchesAny p facts members)
  | [] => .ok _
  | s :: members => .bind (quiet_matches p facts s) fun b => by
      cases b with
      | true => exact .ok _
      | false => exact quiet_matchesAny p facts members

end

theorem quiet_effects (step : PlannedStep) (rules : List OperatorRule) (facts : BoundSensor) :
    Quiet (effects step rules facts) := by
  refine .bind (.findM? fun rule _ => ?_) fun found => ?_
  · unfold OperatorRule.matches
    split
    · dsimp only
      split
      · exact .bind (.ok _) fun _ => .ok _
      · exact .bind (quiet_matches _ _ _) fun _ => .ok _
    · exact .ok _
  · cases found <;> exact .ok _

theorem resolveDeadline_error {command : String} {target : Placement} {stated : List DeadlineRule} {explicit : Option ℚ}
    {facts : BoundSensor} (h : resolveDeadline command target stated explicit facts = .error e) :
    ¬ e.IsCycle := by
  unfold resolveDeadline at h
  split at h
  · cases h
  · dsimp only at h
    generalize [((stated.filter (·.command = some command)), Rung.device), _, _, _, _, _] = rungs at h
    induction rungs with
    | nil => cases h
    | cons rung rungs ih =>
      unfold firstAddressing at h
      dsimp only at h
      split_ifs at h
      · exact ih h
      · rcases bind_eq_error.1 h with fails | ⟨_, -, done⟩
        · unfold theRule at fails
          split at fails
          · cases fails
          · obtain rfl := Except.error.inj fails
            exact not_isCycle (by simp [String.toList_append]) (by simp [String.toList_append])
        · cases done

theorem checked_error (h : checked steps = .error e) : ¬ e.IsCycle := by
  unfold checked at h
  rcases bind_eq_error.1 h with loop | ⟨index, -, h⟩
  · obtain ⟨pre, step, post, index, -, -, turn⟩ := exists_of_foldlM_error (fun _ _ => True) loop trivial
      fun _ _ _ _ _ _ _ _ => trivial
    split_ifs at turn
    all_goals
      obtain rfl := Except.error.inj turn
      exact not_isCycle (by simp [String.toList_append]) (by simp [String.toList_append])
  · dsimp only at h
    split_ifs at h
    · cases h
    · obtain rfl := Except.error.inj h
      exact not_isCycle (by simp [String.toList_append]) (by simp [String.toList_append])

theorem fates_error (h : fates steps facts = .error e) : ¬ e.IsCycle := by
  unfold fates at h
  obtain ⟨pre, step, post, ⟨omitted, omissions⟩, -, -, turn⟩ := exists_of_foldlM_error (fun _ _ => True) h trivial
    fun _ _ _ _ _ _ _ _ => trivial
  unfold fate at turn
  dsimp only at turn
  split at turn
  · split_ifs at turn
    split at turn
    · obtain rfl := Except.error.inj turn
      exact not_isCycle (by simp [String.toList_append]) (by simp [String.toList_append])
    · cases turn
  · cases turn

theorem add_error {c : Compiling} {step : PlannedStep}
    (h : c.add facts deadlines rules omitted step = .error e) : ¬ e.IsCycle := by
  unfold Compiling.add at h
  split_ifs at h
  · cases h
  rcases bind_eq_error.1 h with fails | ⟨payload, -, h⟩
  · unfold planned at fails
    split at fails
    · rcases bind_eq_error.1 fails with fails | ⟨_, -, done⟩
      · exact resolveDeadline_error fails
      · cases done
    · cases fails
  rcases bind_eq_error.1 h with fails | ⟨_, -, done⟩
  · exact (quiet_effects step rules facts).not_isCycle fails
  · cases done

/-- **An error that says so comes of a cycle.** -/
theorem compile_isCycle (h : compile steps facts deadlines rules = .error e) (cycle : e.IsCycle) :
    Cyclic (Declares steps) := by
  unfold compile at h
  rcases bind_eq_error.1 h with fails | ⟨byName, checks, h⟩
  · exact absurd cycle (checked_error fails)
  rcases bind_eq_error.1 h with fails | ⟨⟨omitted, omissions⟩, fated, h⟩
  · exact absurd cycle (fates_error fails)
  obtain ⟨index, closed⟩ := checked_eq_ok checks
  have hidden : ∀ n, n ∈ omitted ↔ Hidden facts steps n := fun n => mem_omitted fated
  rcases bind_eq_error.1 h with fails | ⟨resolved, resolves, h⟩
  · exact (resolvedDeps_error index closed fails).2
  rcases bind_eq_error.1 h with fails | ⟨c, adds, h⟩
  · obtain ⟨pre, step, post, c, -, -, turn⟩ := exists_of_foldlM_error (fun _ _ => True) fails trivial
      fun _ _ _ _ _ _ _ _ => trivial
    exact absurd cycle (add_error turn)
  rcases bind_eq_error.1 h with fails | ⟨_, -, done⟩
  · have draws : Draws facts deadlines rules steps (c.edged resolved) := edged_draws index.nodup
      (building_of_foldlM index.nodup hidden adds) (resolvedDeps_eq_ok index hidden closed resolves)
    unfold built at fails
    split at fails
    · cases fails
    · rename_i message builds
      exact draws.cyclic (draws.made.cyclic draws.inside builds).2
  · cases done

theorem deadlinesWithin_error {operations : List Operation} {graph : String}
    (h : deadlinesWithin operations graph = .error e) : ¬ e.IsCycle := by
  obtain ⟨operation, -, here⟩ := exists_of_forM_error h
  split at here
  · cases here
  · split_ifs at here
    obtain rfl := Except.error.inj here
    exact not_isCycle (by simp [String.toList_append]) (by simp [String.toList_append])

/-- What `_validated` refuses is no cycle. -/
theorem validated_error {workflow : ExecutableWorkflow} (h : validated workflow = .error e) :
    ¬ e.IsCycle := by
  unfold validated at h
  dsimp only at h
  split_ifs at h
  · rcases bind_eq_error.1 h with late | ⟨_, -, rest⟩
    · exact deadlinesWithin_error late
    · obtain ⟨plan, -, here⟩ := exists_of_forM_error rest
      rcases bind_eq_error.1 here with unbounded | ⟨_, -, unarmed⟩
      · unfold bounded at unbounded
        dsimp only at unbounded
        split_ifs at unbounded
        · exact deadlinesWithin_error unbounded
        · obtain rfl := Except.error.inj unbounded
          exact not_isCycle (by simp [String.toList_append]) (by simp [String.toList_append])
      · unfold armedWithin at unarmed
        dsimp only at unarmed
        split_ifs at unarmed
        obtain rfl := Except.error.inj unarmed
        exact not_isCycle (by simp [String.toList_append]) (by simp [String.toList_append])
  · obtain rfl := Except.error.inj h
    exact not_isCycle (by simp [String.toList_append]) (by simp [String.toList_append])

theorem arming_error {plan : CleanupPlan} {operations : Dict String Operation}
    (h : arming plan steps operations = .error e) : ¬ e.IsCycle := by
  unfold arming at h
  split at h
  · cases h
  · dsimp only at h
    split_ifs at h
    obtain rfl := Except.error.inj h
    exact not_isCycle (by simp [String.toList_append]) (by simp [String.toList_append])

/-- **An error of `lower` that says so** comes of a cycle, in the main steps or in those of a cleanup. -/
theorem lower_isCycle {name : String} {cleanup : List CleanupPlan}
    (h : lower name steps facts cleanup deadlines rules = .error e) (cycle : e.IsCycle) :
    Cyclic (Declares steps) ∨ ∃ plan ∈ cleanup, Cyclic (Declares plan.steps) := by
  unfold lower at h
  rcases bind_eq_error.1 h with fails | ⟨⟨graph, operations, omissions⟩, -, h⟩
  · exact .inl (compile_isCycle fails cycle)
  rcases bind_eq_error.1 h with fails | ⟨plans, -, h⟩
  · obtain ⟨plan, mem, here⟩ := exists_of_mapM_error fails
    unfold tearDown at here
    rcases bind_eq_error.1 here with fails | ⟨_, -, here⟩
    · exact .inr ⟨plan, mem, compile_isCycle fails cycle⟩
    rcases bind_eq_error.1 here with fails | ⟨_, -, done⟩
    · exact absurd cycle (arming_error fails)
    · cases done
  rcases bind_eq_error.1 h with fails | ⟨_, -, done⟩
  · exact absurd cycle (validated_error fails)
  · cases done

/-- **A cycle is found**, in the main steps or in those of a cleanup, where nothing else is refused. -/
theorem lower_of_cyclic {name : String} {cleanup : List CleanupPlan} (h : Lowerable facts deadlines rules steps)
    (tears : ∀ plan ∈ cleanup, Lowerable facts deadlines rules plan.steps)
    (armed : ∀ plan ∈ cleanup, ∀ operations, ∃ armedBy, arming plan steps operations = .ok armedBy)
    (cyclic : Cyclic (Declares steps) ∨ ∃ plan ∈ cleanup, Cyclic (Declares plan.steps)) :
    ∃ e, lower name steps facts cleanup deadlines rules = .error e ∧ e.IsCycle := by
  rcases h.compile_cases with ⟨e, refused, cycle, -⟩ | ⟨⟨graph, operations, omissions⟩, compiled, acyclic⟩
  · exact ⟨e, bind_eq_error.2 (.inl refused), cycle⟩
  have some_ := cyclic.resolve_left acyclic
  have torn : ∃ e, (cleanup.mapM fun plan => tearDown plan steps operations facts deadlines rules) = .error e ∧ e.IsCycle := by
    induction cleanup with
    | nil => simp at some_
    | cons plan cleanup ih =>
      rw [List.mapM_cons]
      rcases (tears plan (by simp)).compile_cases with ⟨e, refused, cycle, -⟩ | ⟨⟨graph', operations', unbuilt⟩, built, sound⟩
      · exact ⟨e, bind_eq_error.2 (.inl (bind_eq_error.2 (.inl refused))), cycle⟩
      · obtain ⟨armedBy, arms⟩ := armed plan (by simp) operations
        have later : ∃ plan ∈ cleanup, Cyclic (Declares plan.steps) := by
          obtain ⟨plan', mem, cycle⟩ := some_
          rcases List.mem_cons.1 mem with rfl | mem
          · exact absurd cycle sound
          · exact ⟨plan', mem, cycle⟩
        obtain ⟨e, fails, cycle⟩ := ih (fun plan mem => tears plan (by simp [mem])) (fun plan mem => armed plan (by simp [mem]))
          (.inr later) later
        have passes : tearDown plan steps operations facts deadlines rules =
            .ok (⟨graph', plan.when, plan.timeoutS, plan.origin, armedBy⟩, unbuilt) :=
          bind_eq_ok.2 ⟨_, built, bind_eq_ok.2 ⟨_, arms, rfl⟩⟩
        exact ⟨e, bind_eq_error.2 (.inr ⟨_, passes, bind_eq_error.2 (.inl fails)⟩), cycle⟩
  obtain ⟨e, fails, cycle⟩ := torn
  refine ⟨e, bind_eq_error.2 (.inr ⟨_, compiled, bind_eq_error.2 (.inl fails)⟩), cycle⟩

/-- **Cycle rejection is exact.** `lower` says that there is a cycle just if the declared dependencies, of kept and of
omitted steps, have one; and the recursion through omitted steps ends, however they depend on each other. -/
theorem lower_cycle (name : String) (h : Lowerable facts deadlines rules steps) :
    ((∃ e, lower name steps facts [] deadlines rules = .error e ∧ e.IsCycle) ↔ Cyclic (Declares steps)) ∧
    (Cyclic (Declares steps) → ∀ cleanup, ∃ e, lower name steps facts cleanup deadlines rules = .error e ∧ e.IsCycle) ∧
    ∀ (byName : Dict String PlannedStep) omitted more name resolved,
      resolveStep byName omitted (byName.keys.length + 1 + more) name resolved [] =
        resolveStep byName omitted (byName.keys.length + 1) name resolved [] := by
  have raises : ∀ cleanup, Cyclic (Declares steps) →
      ∃ e, lower name steps facts cleanup deadlines rules = .error e ∧ e.IsCycle := by
    intro cleanup cyclic
    rcases h.compile_cases with ⟨e, refused, cycle, -⟩ | ⟨_, -, acyclic⟩
    · exact ⟨e, bind_eq_error.2 (.inl refused), cycle⟩
    · exact absurd cyclic acyclic
  refine ⟨⟨?_, raises []⟩, fun cyclic cleanup => raises cleanup cyclic, ?_⟩
  · rintro ⟨e, refused, cycle⟩
    rcases h.compile_cases with ⟨_, -, -, cyclic⟩ | ⟨⟨graph, operations, omissions⟩, compiled, -⟩
    · exact cyclic
    · unfold lower at refused
      rcases bind_eq_error.1 refused with fails | ⟨_, -, refused⟩
      · cases compiled.symm.trans fails
      rcases bind_eq_error.1 refused with ⟨⟨⟩⟩ | ⟨plans, none, refused⟩
      obtain rfl := pure_eq_ok.1 none
      rcases bind_eq_error.1 refused with invalid | ⟨_, -, done⟩
      · exact absurd cycle (validated_error invalid)
      · cases done
  · intro byName omitted more name resolved
    exact resolveStep_fuel more

/-- An exposure that waits for the tracking, which the mount does not support, and that for the exposure. -/
def entangled : List PlannedStep :=
  [{ name := "expose", origin := ⟨"run", [.name "expose"], ""⟩, group := "run", deps := [⟨"track", .success⟩] },
    { name := "track", origin := ⟨"run", [.name "track"], ""⟩, group := "run", target := some ⟨"mount", []⟩,
      command := some ⟨⟨"Track", none⟩, []⟩, deps := [⟨"expose", .success⟩], unsupported := .omit }]

theorem entangled_lowerable : Lowerable stopOnly [] [] entangled where
  names := by decide
  paired := by decide
  closed := by
    rintro n m ⟨step, mem, rfl, dep, listed, rfl⟩
    simp only [entangled, List.mem_cons, List.not_mem_nil, or_false] at mem
    rcases mem with rfl | rfl
    · simp only [List.mem_singleton] at listed
      subst listed
      decide
    · simp only [List.mem_singleton] at listed
      subst listed
      decide
  omits := by decide
  resolves := by
    have one : kept stopOnly entangled = entangled.take 1 := by decide
    rw [one]
    simp only [entangled, List.take_succ_cons, List.take_zero, List.mem_singleton, forall_eq]
    exact ⟨_, rfl⟩
  ruled := by
    intro step _
    exact ⟨_, rfl⟩

theorem lower_cycle_entangled : ∃ e, lower "run" entangled stopOnly [] [] [] = .error e ∧ e.IsCycle := by
  have waits : Declares entangled "expose" "track" :=
    ⟨_, List.mem_cons_self, rfl, ⟨"track", .success⟩, List.mem_singleton_self _, rfl⟩
  have waits' : Declares entangled "track" "expose" :=
    ⟨_, List.mem_cons_of_mem _ (List.mem_singleton_self _), rfl, ⟨"expose", .success⟩, List.mem_singleton_self _, rfl⟩
  exact (lower_cycle "run" entangled_lowerable).1.2 ⟨"expose", .tail (.single waits) waits'⟩

end Compile

end SensorKit.Sensor
