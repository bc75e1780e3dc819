import SensorKit.Data.Fits

/-!
# The steps of filling a header

Each step by what it makes of the card of one keyword. The steps that resolve cards do the same to headers that differ only
in cards which no expression reads.
-/

namespace SensorKit.Data.Fits

open Lib

variable {L ε : Type} {context : Context L ε} {guard : Bool → Bool} {suppressMissing : Bool}
  {cards : List (String × CardValue L)} {card : String × CardValue L} {header before after other mid : FITSHeader L}
  {keyword key : String} {keywords : Set String}

/-! ## Resolving steps -/

theorem settle_cons {rest : List (String × CardValue L)} :
    settle context guard suppressMissing (card :: rest) header =
      settle context guard suppressMissing [card] header >>= settle context guard suppressMissing rest := by
  show settle context guard suppressMissing ([card] ++ rest) header = _
  unfold settle
  rw [List.foldlM_append]

theorem settle_single : settle context guard suppressMissing [card] header =
    if guard (header.get? card.1).isSome then resolveFromContext context header card.1 card.2 suppressMissing
    else .ok header := by
  unfold settle
  rw [List.foldlM_cons]
  split
  · cases resolveFromContext context header card.1 card.2 suppressMissing <;> rfl
  · rfl

theorem resolveFromContext_get? (resolved : resolveFromContext context header key card.2 suppressMissing = .ok after) :
    ∃ found, context.resolveFitsCard header.get? card.2 suppressMissing = .ok found ∧
      ∀ keyword, after.get? keyword = if keyword = key then found.or (header.get? key) else header.get? keyword := by
  unfold resolveFromContext at resolved
  obtain ⟨found, here, kept⟩ := bind_eq_ok.1 resolved
  refine ⟨found, here, fun keyword => ?_⟩
  cases found with
  | none =>
    cases pure_eq_ok.1 kept
    split
    · rename_i same
      rw [same, Option.none_or]
    · rfl
  | some value =>
    cases pure_eq_ok.1 kept
    rw [Dict.get?_insert]
    rfl

/-- A turn changes the card of its own keyword at most. -/
theorem settle_single_of_ne (other : card.1 ≠ keyword)
    (done : settle context guard suppressMissing [card] header = .ok after) : after.get? keyword = header.get? keyword := by
  rw [settle_single] at done
  split at done
  · obtain ⟨found, -, get⟩ := resolveFromContext_get? done
    rw [get keyword, if_neg (Ne.symm other)]
  · cases done
    rfl

theorem turn_absent (absent : keyword ∉ cards.map Prod.fst) :
    turn context guard suppressMissing keyword cards header = none := by
  induction cards generalizing header with
  | nil => rfl
  | cons card rest ih =>
    obtain ⟨apart, absent⟩ := not_or.1 (List.mem_cons.not.1 absent)
    unfold turn
    rw [if_neg (Ne.symm apart)]
    split
    · exact ih absent
    · rfl

/-- What a step makes of a keyword: where the guard lets it, the card to which its entry resolves. -/
theorem settle_get? (keyword : String) (nodup : (cards.map Prod.fst).Nodup)
    (done : settle context guard suppressMissing cards header = .ok after) :
    after.get? keyword = if guard (header.get? keyword).isSome
      then (turn context guard suppressMissing keyword cards header).or (header.get? keyword)
      else header.get? keyword := by
  induction cards generalizing header with
  | nil =>
    obtain rfl := pure_eq_ok.1 done
    unfold turn
    rw [Option.none_or, ite_self]
  | cons card rest ih =>
    obtain ⟨fresh, nodup⟩ := List.nodup_cons.1 nodup
    rw [settle_cons] at done
    obtain ⟨mid, first, done⟩ := bind_eq_ok.1 done
    have rest_ := ih nodup done
    unfold turn
    by_cases same : card.1 = keyword
    · -- the later entries are of other keywords
      subst same
      rw [turn_absent fresh, Option.none_or, ite_self] at rest_
      rw [rest_, if_pos rfl]
      rw [settle_single] at first
      split at first
      · rename_i passes
        obtain ⟨found, resolved, get⟩ := resolveFromContext_get? first
        rw [get card.1, if_pos rfl, if_pos passes, resolved]
        rfl
      · rename_i stopped
        cases first
        rw [if_neg stopped]
    · rw [if_neg same, first]
      rw [settle_single_of_ne same first] at rest_
      exact rest_

/-! ## Headers that differ in cards that are not read -/

/-- What expressions evaluate to does not depend on the cards of these keywords. -/
def Context.BlindTo (context : Context L ε) (keywords : Set String) : Prop :=
  ∀ seen seen', (∀ keyword, keyword ∉ keywords → seen keyword = seen' keyword) →
    (∀ keyword, (seen keyword).isSome = (seen' keyword).isSome) → context.eval seen = context.eval seen'

/-- The headers have the same keywords, and the same cards but for some keywords. -/
structure Alike (keywords : Set String) (header other : FITSHeader L) : Prop where
  same : ∀ keyword, keyword ∉ keywords → header.get? keyword = other.get? keyword
  present : ∀ keyword, (header.get? keyword).isSome = (other.get? keyword).isSome

section

variable (alike : Alike keywords header other)
include alike

theorem Alike.resolves (blind : context.BlindTo keywords) (value : CardValue L) :
    context.resolveFitsCard header.get? value suppressMissing = context.resolveFitsCard other.get? value suppressMissing := by
  have evaluates : context.eval header.get? = context.eval other.get? := blind _ _ alike.same alike.present
  unfold Context.resolveFitsCard Context.resolve Context.evalOr
  rw [evaluates]

theorem Alike.insert (key : String) (value : CardValue L) :
    Alike keywords (header.insert key value) (other.insert key value) := by
  constructor
  · intro keyword outside
    rw [Dict.get?_insert, Dict.get?_insert, alike.same keyword outside]
  · intro keyword
    rw [Dict.get?_insert, Dict.get?_insert]
    split
    · rfl
    · exact alike.present keyword

theorem Alike.settle_single (blind : context.BlindTo keywords)
    (done : settle context guard suppressMissing [card] header = .ok after) :
    ∃ after', settle context guard suppressMissing [card] other = .ok after' ∧ Alike keywords after after' := by
  rw [Fits.settle_single] at done ⊢
  rw [← alike.present card.1]
  split at done
  · rename_i passes
    rw [if_pos passes]
    unfold resolveFromContext at done ⊢
    rw [← alike.resolves blind]
    obtain ⟨found, resolved, kept⟩ := bind_eq_ok.1 done
    rw [resolved]
    cases found with
    | none =>
      cases pure_eq_ok.1 kept
      exact ⟨other, rfl, alike⟩
    | some value =>
      cases pure_eq_ok.1 kept
      exact ⟨other.insert card.1 value, rfl, alike.insert card.1 value⟩
  · rename_i stopped
    cases done
    rw [if_neg stopped]
    exact ⟨other, rfl, alike⟩

/-- A step takes headers that are alike to headers that are alike, and resolves the same cards. -/
theorem Alike.settle (blind : context.BlindTo keywords)
    (done : settle context guard suppressMissing cards header = .ok after) :
    ∃ after', settle context guard suppressMissing cards other = .ok after' ∧ Alike keywords after after' ∧
      ∀ keyword, turn context guard suppressMissing keyword cards header =
        turn context guard suppressMissing keyword cards other := by
  induction cards generalizing header other with
  | nil =>
    obtain rfl := pure_eq_ok.1 done
    exact ⟨other, rfl, alike, fun _ => rfl⟩
  | cons card rest ih =>
    rw [settle_cons] at done
    obtain ⟨mid, first, done⟩ := bind_eq_ok.1 done
    obtain ⟨mid', first', alike'⟩ := alike.settle_single blind first
    obtain ⟨after', done', alike'', turns⟩ := ih alike' done
    refine ⟨after', ?_, alike'', fun keyword => ?_⟩
    · rw [settle_cons, first']
      exact done'
    · unfold turn
      rw [alike.resolves blind, first, first']
      split
      · rfl
      · exact turns keyword

end

/-! ## Steps that do not resolve cards -/

/-- The card of a keyword that an included key contributes. -/
def Context.contributed (context : Context L ε) (key keyword : String) : Option (CardValue L) :=
  if context.isKeyword key then
    match context.items.get? key with
    | some (.provider provider) => (Dict.ofList provider.cards).get? keyword
    | _ => none
  else none

theorem get?_foldl_insert : (cards.foldl (fun header card => header.insert card.1 card.2) header).get? keyword =
    ((Dict.ofList cards).get? keyword).or (header.get? keyword) := by
  induction cards using List.reverseRecOn with
  | nil => rfl
  | append_singleton cards card ih =>
    have snoc : Dict.ofList (cards ++ [card]) = (Dict.ofList cards).insert card.1 card.2 := List.foldl_append
    rw [List.foldl_append, List.foldl_cons, List.foldl_nil, Dict.get?_insert, snoc, Dict.get?_insert, ih]
    split <;> rfl

theorem applyInclude_get? (keyword : String) (done : applyInclude context header key = .ok after) :
    after.get? keyword = (context.contributed key keyword).or (header.get? keyword) := by
  unfold applyInclude at done
  unfold Context.contributed
  split at done
  · rename_i declared
    rw [if_pos declared]
    cases found : context.items.get? key with
    | none =>
      rw [found] at done
      cases done
      rfl
    | some item =>
      rw [found] at done
      cases item with
      | other =>
        cases done
        rfl
      | provider provider =>
        dsimp only at done
        unfold Provider.addCards at done
        cases raises : provider.raises with
        | some error =>
          rw [raises] at done
          cases done
        | none =>
          rw [raises] at done
          cases done
          exact get?_foldl_insert
  · rename_i undeclared
    cases done
    rw [if_neg undeclared]
    rfl

/-- Whether including a key raises does not depend on the header. -/
theorem applyInclude_returns (done : applyInclude context header key = .ok after) (other : FITSHeader L) :
    ∃ after', applyInclude context other key = .ok after' := by
  unfold applyInclude at done ⊢
  split at done
  · rename_i declared
    rw [if_pos declared]
    cases found : context.items.get? key with
    | none => exact ⟨other, rfl⟩
    | some item =>
      rw [found] at done
      cases item with
      | other => exact ⟨other, rfl⟩
      | provider provider =>
        dsimp only at done ⊢
        unfold Provider.addCards at done ⊢
        cases raises : provider.raises with
        | none => exact ⟨_, rfl⟩
        | some error =>
          rw [raises] at done
          cases done
  · rename_i undeclared
    exact ⟨other, if_neg undeclared⟩

/-- What the includes leave of a keyword: a card that some included key contributes, or else what was there. -/
theorem includes_get? {keys : List String} (done : keys.foldlM (applyInclude context) header = .ok after) (keyword : String) :
    (∃ key ∈ keys, ∃ value, context.contributed key keyword = some value ∧ after.get? keyword = some value) ∨
      ((∀ key ∈ keys, context.contributed key keyword = none) ∧ after.get? keyword = header.get? keyword) := by
  induction keys generalizing header with
  | nil =>
    obtain rfl := pure_eq_ok.1 done
    exact .inr ⟨fun _ mem => absurd mem List.not_mem_nil, rfl⟩
  | cons key rest ih =>
    rw [List.foldlM_cons, bind_eq_ok] at done
    obtain ⟨mid, first, done⟩ := done
    have here := applyInclude_get? keyword first
    rcases ih done with ⟨later, mem, value, gives, held⟩ | ⟨none_, kept⟩
    · exact .inl ⟨later, List.mem_cons_of_mem key mem, value, gives, held⟩
    · rw [here] at kept
      cases gives : context.contributed key keyword with
      | some value =>
        rw [gives] at kept
        exact .inl ⟨key, List.mem_cons_self, value, gives, kept⟩
      | none =>
        rw [gives, Option.none_or] at kept
        refine .inr ⟨fun later mem => ?_, kept⟩
        rcases List.mem_cons.1 mem with rfl | mem
        · exact gives
        · exact none_ later mem

/-- Keys that can be included in one order can be in any other. -/
theorem includes_return {keys keys' : List String} (other : FITSHeader L) (done : keys.foldlM (applyInclude context) header = .ok after)
    (subset : keys' ⊆ keys) : ∃ after', keys'.foldlM (applyInclude context) other = .ok after' := by
  have each : ∀ key ∈ keys, ∀ other : FITSHeader L, ∃ after', applyInclude context other key = .ok after' := by
    clear subset
    induction keys generalizing header with
    | nil => exact fun _ mem => absurd mem List.not_mem_nil
    | cons key rest ih =>
      rw [List.foldlM_cons, bind_eq_ok] at done
      obtain ⟨mid, first, done⟩ := done
      intro later mem
      rcases List.mem_cons.1 mem with rfl | mem
      · exact applyInclude_returns first
      · exact ih done later mem
  have loop : ∃ after', keys'.foldlM (applyInclude context) other = .ok after' ∧ True := by
    apply exists_foldlM (fun _ _ => True) trivial
    intro pre key post mid eq _
    have mem : key ∈ keys' := by simp [eq]
    obtain ⟨after', done'⟩ := each key (subset mem) mid
    exact ⟨after', done', trivial⟩
  obtain ⟨after', done', -⟩ := loop
  exact ⟨after', done'⟩

/-- Headers whose cards are related keyword by keyword. -/
def Related (R : Option (CardValue L) → Option (CardValue L) → Prop) (header other : FITSHeader L) : Prop :=
  ∀ keyword, R (header.get? keyword) (other.get? keyword)

variable {R : Option (CardValue L) → Option (CardValue L) → Prop} {names : List (String × String)}

theorem renameCard_get? {name : String × String} : (renameCard header name).get? keyword =
    if (header.get? name.1).isSome then
      if keyword = name.2 then header.get? name.1 else if keyword = name.1 then none else header.get? keyword
    else header.get? keyword := by
  unfold renameCard
  cases found : header.get? name.1 with
  | none => rfl
  | some card =>
    rw [Dict.get?_insert, Dict.get?_erase]
    rfl

theorem Related.rename (related : Related R header other) (absent : R none none)
    (present : ∀ held held', R held held' → held.isSome = held'.isSome) :
    Related R (names.foldl renameCard header) (names.foldl renameCard other) := by
  induction names generalizing header other with
  | nil => exact related
  | cons name rest ih =>
    refine ih fun keyword => ?_
    rw [renameCard_get?, renameCard_get?, ← present _ _ (related name.1)]
    split_ifs
    · exact related name.1
    · exact absent
    · exact related keyword
    · exact related keyword

theorem get?_foldl_erase {removed : List String} : (removed.foldl Dict.erase header).get? keyword =
    if keyword ∈ removed then none else header.get? keyword := by
  induction removed generalizing header with
  | nil => rfl
  | cons name rest ih =>
    rw [List.foldl_cons, ih, Dict.get?_erase]
    by_cases here : keyword = name
    · rw [if_pos here, if_pos (List.mem_cons.2 (.inl here)), ite_self]
    · rw [if_neg here]
      exact if_congr (by rw [List.mem_cons, or_iff_right here]) rfl rfl

end SensorKit.Data.Fits
