import SensorKit.Data.FitsSteps

/-!
# The documented steps

An `option` card replaces a card that is present, and providers that supply the same keyword leave the card of whichever
the iteration of the set meets last. Where neither happens, the header is filled as documented.
-/

namespace SensorKit.Data.Fits

open Lib

variable {L ε : Type} {context : Context L ε} {op : BuildFITSHeader L} {order other : Iteration op}
  {header prepared prepared' defined optioned result : FITSHeader L} {keyword : String} {keys keys' : List String}

/-! ## Iterating the sets in another order -/

/-- What is included leaves the same keywords in any order. -/
theorem includes_present {after after' : FITSHeader L} (same : ∀ key, key ∈ keys ↔ key ∈ keys')
    (done : keys.foldlM (applyInclude context) header = .ok after)
    (done' : keys'.foldlM (applyInclude context) header = .ok after') (keyword : String) :
    (after.get? keyword).isSome = (after'.get? keyword).isSome := by
  rcases includes_get? done keyword with ⟨key, mem, value, gives, held⟩ | ⟨none_, kept⟩
  · rcases includes_get? done' keyword with ⟨_, _, _, _, held'⟩ | ⟨none', _⟩
    · rw [held, held']
      rfl
    · rw [none' key ((same key).1 mem)] at gives
      cases gives
  · rcases includes_get? done' keyword with ⟨key, mem, value, gives, _⟩ | ⟨_, kept'⟩
    · rw [none_ key ((same key).2 mem)] at gives
      cases gives
    · rw [kept, kept']

namespace BuildFITSHeader

/-- The keys that `_apply_includes` goes through. -/
def includeKeys (op : BuildFITSHeader L) (context : Context L ε) (order : Iteration op) : List String :=
  match op.includes with
  | .all => context.providerKeys
  | .only _ => order.included

theorem mem_includeKeys (order other : Iteration op) {key : String} :
    key ∈ op.includeKeys context order ↔ key ∈ op.includeKeys context other := by
  have perm : order.included.Perm other.included := Multiset.coe_eq_coe.1 (order.included_eq.trans other.included_eq.symm)
  unfold includeKeys
  split
  · exact Iff.rfl
  · exact perm.mem_iff

theorem mem_removed (order other : Iteration op) : keyword ∈ order.removed ↔ keyword ∈ other.removed :=
  (Multiset.coe_eq_coe.1 (order.removed_eq.trans other.removed_eq.symm)).mem_iff

theorem prepare_eq_ok : op.prepare context order header = .ok prepared ↔
    ∃ included, (op.includeKeys context order).foldlM (applyInclude context) header = .ok included ∧
      op.removeCards order (op.renameCards included) = prepared := by
  unfold prepare
  rw [bind_eq_ok]
  exact exists_congr fun included => and_congr_right fun _ => pure_eq_ok

/-- The renames and the removals keep how the cards of two headers are related. -/
theorem related_of_included {R : Option (CardValue L) → Option (CardValue L) → Prop} (order other : Iteration op)
    {included included' : FITSHeader L} (related : Related R included included') (absent : R none none)
    (present : ∀ held held', R held held' → held.isSome = held'.isSome) :
    Related R (op.removeCards order (op.renameCards included)) (op.removeCards other (op.renameCards included')) := by
  intro keyword
  have renamed : Related R (op.renameCards included) (op.renameCards included') := related.rename absent present
  unfold removeCards
  rw [get?_foldl_erase, get?_foldl_erase, if_congr (mem_removed order other) rfl rfl]
  split
  · exact absent
  · exact renamed keyword

/-- Where the steps before `define` return, they do so in any order, and leave the same keywords. -/
theorem prepare_present (prepares : op.prepare context order header = .ok prepared) (other : Iteration op) :
    ∃ prepared', op.prepare context other header = .ok prepared' ∧
      ∀ keyword, (prepared.get? keyword).isSome = (prepared'.get? keyword).isSome := by
  obtain ⟨included, includes, rfl⟩ := prepare_eq_ok.1 prepares
  obtain ⟨included', includes'⟩ := includes_return header includes
    fun key mem => (mem_includeKeys other order).1 mem
  have related : Related (fun held held' => held.isSome = held'.isSome) included included' :=
    includes_present (fun key => mem_includeKeys order other) includes includes'
  exact ⟨_, prepare_eq_ok.2 ⟨included', includes', rfl⟩,
    related_of_included order other related rfl fun _ _ same => same⟩

/-! ## When the steps are followed -/

/-- No `option` card that resolves to a value names a keyword that has another card. -/
def OptionsSpare (op : BuildFITSHeader L) (context : Context L ε) (header : FITSHeader L) : Prop :=
  ∀ order prepared defined optioned result, op.Stages context order header prepared defined optioned result →
    ∀ keyword card value, defined.get? keyword = some card → op.optionsCard context defined keyword = some value → value = card

/-- The keywords that another order leaves with other cards are read by no expression, and `mutate` replaces them. -/
def OrdersAgree (op : BuildFITSHeader L) (context : Context L ε) (header : FITSHeader L) : Prop :=
  ∀ order other : Iteration op, ∀ prepared prepared' defined optioned result,
    op.Stages context order header prepared defined optioned result → op.prepare context other header = .ok prepared' →
    (∀ keyword, prepared.get? keyword ≠ prepared'.get? keyword → ∃ value, op.mutatesCard context optioned keyword = some value) ∧
      context.BlindTo {keyword | prepared.get? keyword ≠ prepared'.get? keyword}

section Stages

variable (stages : op.Stages context order header prepared defined optioned result)

include stages

theorem Stages.defined_get? (keyword : String) :
    defined.get? keyword = (prepared.get? keyword).or (op.definesCard context prepared keyword) := by
  have made := settle_get? keyword op.define.nodup stages.defines
  cases held : prepared.get? keyword with
  | some card =>
    rw [held] at made
    rw [made, Option.some_or]
    rfl
  | none =>
    rw [held, Option.or_none] at made
    rw [made, Option.none_or]
    rfl

theorem Stages.optioned_get? (keyword : String) :
    optioned.get? keyword = (op.optionsCard context defined keyword).or (defined.get? keyword) :=
  settle_get? keyword op.option.nodup stages.options

theorem Stages.result_get? (keyword : String) : result.get? keyword =
    if (optioned.get? keyword).isSome then (op.mutatesCard context optioned keyword).or (optioned.get? keyword) else none := by
  have made := settle_get? keyword op.mutate.nodup stages.mutates
  cases held : optioned.get? keyword with
  | some card => rwa [held] at made
  | none => rwa [held] at made

/-- The population returns what the last step leaves. -/
theorem Stages.populates : op.populate context order header = .ok result := by
  unfold populate
  rw [stages.prepares]
  show (op.defineCards context prepared >>= _) = _
  rw [stages.defines]
  show (op.optionCards context defined >>= _) = _
  rw [stages.options]
  exact stages.mutates

end Stages

theorem populate_eq_ok : op.populate context order header = .ok result ↔
    ∃ prepared defined optioned, op.Stages context order header prepared defined optioned result := by
  constructor
  · intro returned
    unfold populate at returned
    obtain ⟨prepared, prepares, returned⟩ := bind_eq_ok.1 returned
    obtain ⟨defined, defines, returned⟩ := bind_eq_ok.1 returned
    obtain ⟨optioned, options, mutates⟩ := bind_eq_ok.1 returned
    exact ⟨prepared, defined, optioned, prepares, defines, options, mutates⟩
  · rintro ⟨prepared, defined, optioned, stages⟩
    exact stages.populates

/-- The population of another order follows, step by step, headers that are alike. -/
theorem Stages.follow (stages : op.Stages context order header prepared defined optioned result)
    (prepares' : op.prepare context other header = .ok prepared')
    (blind : context.BlindTo {keyword | prepared.get? keyword ≠ prepared'.get? keyword}) :
    ∃ defined' optioned' result', op.Stages context other header prepared' defined' optioned' result' ∧
      Alike {keyword | prepared.get? keyword ≠ prepared'.get? keyword} optioned optioned' ∧
      ∀ keyword, op.mutatesCard context optioned keyword = op.mutatesCard context optioned' keyword := by
  obtain ⟨_, again, present⟩ := prepare_present stages.prepares other
  cases prepares'.symm.trans again
  have alike : Alike {keyword | prepared.get? keyword ≠ prepared'.get? keyword} prepared prepared' :=
    ⟨fun keyword outside => not_not.1 outside, present⟩
  obtain ⟨defined', defines, alike, -⟩ := alike.settle blind stages.defines
  obtain ⟨optioned', options, alike, -⟩ := alike.settle blind stages.options
  obtain ⟨result', mutates, -, turns⟩ := alike.settle blind stages.mutates
  exact ⟨defined', optioned', result', ⟨prepares', defines, options, mutates⟩, alike, turns⟩

/-- A population that returns does so with the same cards in any other order. -/
theorem OrdersAgree.populate (agree : OrdersAgree op context header) (other : Iteration op)
    (stages : op.Stages context order header prepared defined optioned result) :
    ∃ result', op.populate context other header = .ok result' ∧ ∀ keyword, result.get? keyword = result'.get? keyword := by
  obtain ⟨prepared', prepares', -⟩ := prepare_present stages.prepares other
  obtain ⟨replaced, blind⟩ := agree order other prepared prepared' defined optioned result stages prepares'
  obtain ⟨defined', optioned', result', stages', alike, turns⟩ := stages.follow prepares' blind
  refine ⟨result', stages'.populates, fun keyword => ?_⟩
  rw [stages.result_get? keyword, stages'.result_get? keyword, ← turns keyword, ← alike.present keyword]
  by_cases same : prepared.get? keyword = prepared'.get? keyword
  · rw [alike.same keyword (not_not.2 same)]
  · obtain ⟨value, mutates⟩ := replaced keyword same
    rw [mutates]
    rfl

theorem OptionsSpare.optioned_get? (spare : OptionsSpare op context header)
    (stages : op.Stages context order header prepared defined optioned result) {card : CardValue L}
    (held : defined.get? keyword = some card) : optioned.get? keyword = some card := by
  rw [stages.optioned_get? keyword, held]
  cases resolves : op.optionsCard context defined keyword with
  | none => rfl
  | some value => rw [spare order prepared defined optioned result stages keyword card value held resolves, Option.some_or]

theorem documented_of_spare (spare : OptionsSpare op context header) (agree : OrdersAgree op context header) :
    op.Documented context header where
  present order prepared defined optioned result stages keyword card held := by
    have defined_ := stages.defined_get? keyword
    rw [held, Option.some_or] at defined_
    exact ⟨defined_, spare.optioned_get? stages defined_⟩
  absent order prepared defined optioned result stages keyword held := by
    have defined_ := stages.defined_get? keyword
    rw [held, Option.none_or] at defined_
    cases defines : op.definesCard context prepared keyword with
    | some card =>
      rw [defines] at defined_
      rw [spare.optioned_get? stages defined_, Option.some_or]
    | none =>
      rw [defines] at defined_
      rw [stages.optioned_get? keyword, defined_, Option.or_none, Option.none_or]
  mutated order prepared defined optioned result stages := stages.result_get?
  ordered order other := by
    have same (order other : Iteration op) {result : FITSHeader L} (returned : op.populate context order header = .ok result) :
        cards (op.populate context order header) = cards (op.populate context other header) := by
      obtain ⟨prepared, defined, optioned, stages⟩ := populate_eq_ok.1 returned
      obtain ⟨result', returned', alike⟩ := agree.populate other stages
      rw [returned, returned']
      exact congrArg some (funext alike)
    cases here : op.populate context order header with
    | ok result =>
      rw [← here]
      exact same order other here
    | error error =>
      cases there : op.populate context other header with
      | ok result =>
        rw [← here, ← there]
        exact (same other order there).symm
      | error error' => rfl

theorem Documented.spare (documented : op.Documented context header) : OptionsSpare op context header := by
  intro order prepared defined optioned result stages keyword card value held resolves
  have optioned_ : optioned.get? keyword = some value := by
    rw [stages.optioned_get? keyword, resolves, Option.some_or]
  cases found : prepared.get? keyword with
  | some there =>
    obtain ⟨kept, spared⟩ := documented.present order prepared defined optioned result stages keyword there found
    rw [held] at kept
    rw [optioned_] at spared
    exact Option.some.inj (spared.trans kept.symm)
  | none =>
    have absent := documented.absent order prepared defined optioned result stages keyword found
    have defined_ := stages.defined_get? keyword
    rw [found, Option.none_or, held] at defined_
    rw [← defined_, Option.some_or, optioned_] at absent
    exact Option.some.inj absent

/-- Where no expression reads the header, headers that end with the same cards have been told apart by none but what
`mutate` replaces. -/
theorem Documented.agree (documented : op.Documented context header) (blind : context.BlindTo Set.univ) :
    OrdersAgree op context header := by
  intro order other prepared prepared' defined optioned result stages prepares'
  have unread : context.BlindTo {keyword | prepared.get? keyword ≠ prepared'.get? keyword} :=
    fun seen seen' _ present => blind seen seen' (fun _ outside => absurd trivial outside) present
  refine ⟨fun keyword differ => ?_, unread⟩
  obtain ⟨defined', optioned', result', stages', alike, turns⟩ := stages.follow prepares' unread
  have same : result.get? keyword = result'.get? keyword := by
    have ends := documented.ordered order other
    rw [stages.populates, stages'.populates] at ends
    exact congrFun (Option.some.inj ends) keyword
  by_contra kept
  have none_ : op.mutatesCard context optioned keyword = none := Option.eq_none_iff_forall_ne_some.2 fun value resolves => kept ⟨value, resolves⟩
  -- so each order ends with the card that it had before `define`
  have ends {order : Iteration op} {prepared defined optioned result : FITSHeader L}
      (stages : op.Stages context order header prepared defined optioned result)
      (there : (prepared.get? keyword).isSome) (none_ : op.mutatesCard context optioned keyword = none) :
      result.get? keyword = prepared.get? keyword := by
    obtain ⟨card, held⟩ := Option.isSome_iff_exists.1 there
    have spared := (documented.present order prepared defined optioned result stages keyword card held).2
    rw [stages.result_get? keyword, spared, none_, held]
    rfl
  obtain ⟨_, again, present⟩ := prepare_present stages.prepares other
  cases prepares'.symm.trans again
  have there : (prepared.get? keyword).isSome = true := by
    by_contra absent
    have absent' : (prepared'.get? keyword).isSome ≠ true := by rwa [← present keyword]
    rw [Option.not_isSome_iff_eq_none.1 absent, Option.not_isSome_iff_eq_none.1 absent'] at differ
    exact differ rfl
  have there' : (prepared'.get? keyword).isSome = true := by rwa [← present keyword]
  rw [ends stages there none_, ends stages' there' (by rwa [← turns keyword])] at same
  exact differ same

/-- **Population.** A header is filled as documented where no `option` card replaces another card, and the orders of the
sets differ only in cards that `mutate` replaces and no expression reads. Where expressions do not read the header, it is
filled as documented nowhere else. -/
theorem population_documented (op : BuildFITSHeader L) (context : Context L ε) (header : FITSHeader L) :
    (OptionsSpare op context header ∧ OrdersAgree op context header → op.Documented context header) ∧
      (op.Documented context header → OptionsSpare op context header) ∧
      (context.BlindTo Set.univ → (op.Documented context header ↔
        OptionsSpare op context header ∧ OrdersAgree op context header)) := by
  refine ⟨fun both => documented_of_spare both.1 both.2, Documented.spare, fun blind => ⟨fun documented => ?_, fun both => ?_⟩⟩
  · exact ⟨documented.spare, documented.agree blind⟩
  · exact documented_of_spare both.1 both.2

/-- A present `GAIN` that `option` names, and two included keywords whose providers both supply `GAIN`. -/
def gainOption : BuildFITSHeader ℕ := { option := .ofList [("GAIN", .bare (.literal 2))] }

def gainHeader : FITSHeader ℕ := .ofList [("GAIN", .bare (.literal 1))]

def gainIncludes : BuildFITSHeader ℕ := { includes := .only {"Camera", "Sensor"} }

def gainContext : Context ℕ ℕ where
  items := .ofList [("Camera", .provider { cards := [("GAIN", .bare (.literal 1))] }),
    ("Sensor", .provider { cards := [("GAIN", .bare (.literal 2))] })]
  isKeyword _ := true
  eval _ _ := .error .nameError

/-- `option` replaces the gain that the header has, and the providers' gain depends on the order of the set. -/
theorem present_gain_replaced :
    ¬ gainOption.Documented gainContext gainHeader ∧ ¬ gainIncludes.Documented gainContext .empty := by
  constructor
  · intro documented
    have stages : gainOption.Stages gainContext ⟨[], [], rfl, rfl⟩ gainHeader gainHeader gainHeader
        (.ofList [("GAIN", .bare (.literal 2))]) (.ofList [("GAIN", .bare (.literal 2))]) := ⟨rfl, rfl, rfl, rfl⟩
    have kept := (documented.present _ _ _ _ _ stages "GAIN" (.bare (.literal 1)) rfl).2
    cases kept
  · intro documented
    have same := documented.ordered ⟨["Camera", "Sensor"], [], rfl, rfl⟩ ⟨["Sensor", "Camera"], [], by decide, rfl⟩
    have gain := congrFun (Option.some.inj same) "GAIN"
    cases gain

end BuildFITSHeader

end SensorKit.Data.Fits
