import Mathlib.Data.Finset.Basic
import SensorKit.Lib.Dict
import SensorKit.Lib.Fallible

/-!
# FITS headers

A header is filled in six steps, in their order: cards of providers, renames, removals, and then cards that are resolved
against the context to define, to add optionally and to replace. The header may be a keyword of that same context, so that
an expression reads the cards that are there when its turn comes.
-/

namespace SensorKit.Data.Fits

open Lib

variable {L ε : Type}

/-- `FITSCardScalar`, with numbers and booleans as literals. -/
inductive Scalar (L : Type)
  | null
  | text (source : String)
  | literal (value : L)
deriving DecidableEq, Repr

/-- `FITSCardValue`. -/
inductive CardValue (L : Type)
  | bare (value : Scalar L)
  | commented (value : Scalar L) (comment : String)
deriving DecidableEq, Repr

abbrev FITSHeader (L : Type) := Dict String (CardValue L)

/-- What the evaluation of an expression raises. -/
inductive EvalError (ε : Type)
  | nameError
  | raised (error : ε)
deriving DecidableEq, Repr

/-- What `get_fits_cards` yields, and what it raises at its end if it does. -/
structure Provider (L ε : Type) where
  cards : List (String × CardValue L)
  raises : Option ε := none

/-- A value of a context. -/
inductive Item (L ε : Type)
  | provider (provider : Provider L ε)
  | other

/-- A context: its values, and what an expression evaluates to against them and the cards of the header. -/
structure Context (L ε : Type) where
  items : Dict String (Item L ε)
  isKeyword : String → Bool
  eval : (String → Option (CardValue L)) → String → Except (EvalError ε) (Scalar L)

/-! ## Resolving a card -/

/-- `repr` of a text of backslashes and double quotes. -/
def reprPeeled (peeled : List Char) : List Char :=
  ['\''] ++ peeled.flatMap (fun c => if c = '\\' then ['\\', '\\'] else [c]) ++ ['\'']

/-- `_raw_fstring_source`. -/
def rawFstringSource (value : String) : String :=
  let peeled := (value.toList.reverse.takeWhile fun c => c = '\\' || c = '"').reverse
  let body := value.toList.take (value.toList.length - peeled.length)
  let source := "rf\"\"\"" ++ String.ofList body ++ "\"\"\""
  if peeled = [] then source else source ++ " + " ++ String.ofList (reprPeeled peeled)

namespace Context

variable (context : Context L ε) (seen : String → Option (CardValue L))

/-- `Context.eval`; a missing name gives None where it is suppressed. -/
def evalOr (expr : String) (suppressMissing : Bool) : Except (EvalError ε) (Scalar L) :=
  match context.eval seen expr with
  | .error .nameError => if suppressMissing then .ok .null else .error .nameError
  | result => result

def fstringOpeners : List (List Char) := [['f', '"'], ['f', '\''], ['F', '"'], ['F', '\'']]

/-- `Context.resolve`, without a type. -/
def resolve (value : String) (suppressMissing : Bool) : Except (EvalError ε) (Scalar L) :=
  match value.toList with
  | '=' :: expr => context.evalOr seen (String.ofList expr) suppressMissing
  | chars =>
    if fstringOpeners.any (·.isPrefixOf chars) then context.evalOr seen value suppressMissing
    else if '\x7b' ∈ chars then context.evalOr seen (rawFstringSource value) suppressMissing
    else .ok (.text value)

/-- `resolve_fits_card`. -/
def resolveFitsCard (card : CardValue L) (suppressMissing : Bool) :
    Except (EvalError ε) (Option (CardValue L)) := do
  let (source, comment) := match card with
    | .bare source => (source, "")
    | .commented source comment => (source, comment)
  let value ← match source with
    | .text source => context.resolve seen source suppressMissing
    | source => .ok source
  match value with
  | .null => return none
  | value => return some (if comment = "" then .bare value else .commented value comment)

end Context

/-- `FITSHeader.resolve_from_context`. -/
def resolveFromContext (context : Context L ε) (header : FITSHeader L) (keyword : String) (card : CardValue L)
    (suppressMissing : Bool) : Except (EvalError ε) (FITSHeader L) := do
  match ← context.resolveFitsCard header.get? card suppressMissing with
  | none => return header
  | some resolved => return header.insert keyword resolved

/-! ## Populating a header -/

/-- `include`: every provider of the context, or a set of keywords. -/
inductive Include
  | all
  | only (keys : Finset String)

def Include.keys : Include → Finset String
  | .all => ∅
  | .only keys => keys

structure BuildFITSHeader (L : Type) where
  includes : Include := .only ∅
  rename : Dict String String := .empty
  remove : Finset String := ∅
  define : Dict String (CardValue L) := .empty
  option : Dict String (CardValue L) := .empty
  mutate : Dict String (CardValue L) := .empty

/-- The orders in which the two sets of a configuration are iterated. -/
structure Iteration (op : BuildFITSHeader L) where
  included : List String
  removed : List String
  included_eq : (included : Multiset String) = op.includes.keys.val
  removed_eq : (removed : Multiset String) = op.remove.val

/-- Set the cards that a provider yields. -/
def Provider.addCards (provider : Provider L ε) (header : FITSHeader L) : Except (EvalError ε) (FITSHeader L) :=
  let header := provider.cards.foldl (fun header card => header.insert card.1 card.2) header
  match provider.raises with
  | none => .ok header
  | some error => .error (.raised error)

/-- One turn of `_apply_includes`. -/
def applyInclude (context : Context L ε) (header : FITSHeader L) (key : String) :
    Except (EvalError ε) (FITSHeader L) :=
  if context.isKeyword key then
    match context.items.get? key with
    | some (.provider provider) => provider.addCards header
    | _ => .ok header
  else .ok header

/-- The keys of the values that are providers, in context order. -/
def Context.providerKeys (context : Context L ε) : List String :=
  context.items.entries.filterMap fun entry =>
    match entry.2 with
    | .provider _ => some entry.1
    | .other => none

/-- One turn of the rename loop. -/
def renameCard (header : FITSHeader L) (names : String × String) : FITSHeader L :=
  match header.get? names.1 with
  | some card => (header.erase names.1).insert names.2 card
  | none => header

/-- Go through cards, and resolve those that pass the guard on whether their keyword is present. -/
def settle (context : Context L ε) (guard : Bool → Bool) (suppressMissing : Bool) (cards : List (String × CardValue L))
    (header : FITSHeader L) : Except (EvalError ε) (FITSHeader L) :=
  cards.foldlM (fun header card =>
    if guard (header.get? card.1).isSome then resolveFromContext context header card.1 card.2 suppressMissing
    else .ok header) header

namespace BuildFITSHeader

variable (op : BuildFITSHeader L) (context : Context L ε)

/-- `_apply_includes`. -/
def applyIncludes (order : Iteration op) (header : FITSHeader L) : Except (EvalError ε) (FITSHeader L) :=
  let keys := match op.includes with
    | .all => context.providerKeys
    | .only _ => order.included
  keys.foldlM (applyInclude context) header

def renameCards (header : FITSHeader L) : FITSHeader L :=
  op.rename.entries.foldl renameCard header

def removeCards (order : Iteration op) (header : FITSHeader L) : FITSHeader L :=
  order.removed.foldl Dict.erase header

def defineCards (header : FITSHeader L) : Except (EvalError ε) (FITSHeader L) :=
  settle context (fun present => !present) false op.define.entries header

/-- The option loop does not ask whether the keyword is present. -/
def optionCards (header : FITSHeader L) : Except (EvalError ε) (FITSHeader L) :=
  settle context (fun _ => true) true op.option.entries header

def mutateCards (header : FITSHeader L) : Except (EvalError ε) (FITSHeader L) :=
  settle context (fun present => present) false op.mutate.entries header

/-- The steps that do not resolve cards. -/
def prepare (order : Iteration op) (header : FITSHeader L) : Except (EvalError ε) (FITSHeader L) := do
  let header ← op.applyIncludes context order header
  return op.removeCards order (op.renameCards header)

/-- `_populate`. -/
def populate (order : Iteration op) (header : FITSHeader L) : Except (EvalError ε) (FITSHeader L) := do
  let header ← op.prepare context order header
  let header ← op.defineCards context header
  let header ← op.optionCards context header
  op.mutateCards context header

end BuildFITSHeader

/-! ## What the steps are documented to do -/

/-- The card to which a keyword's entry resolves when its turn comes, if to a value. -/
def turn (context : Context L ε) (guard : Bool → Bool) (suppressMissing : Bool) (keyword : String) :
    List (String × CardValue L) → FITSHeader L → Option (CardValue L)
  | [], _ => none
  | card :: rest, header =>
    if card.1 = keyword then (context.resolveFitsCard header.get? card.2 suppressMissing).toOption.join
    else
      match settle context guard suppressMissing [card] header with
      | .ok header => turn context guard suppressMissing keyword rest header
      | .error _ => none

namespace BuildFITSHeader

variable (op : BuildFITSHeader L) (context : Context L ε) (header : FITSHeader L) (keyword : String)

def definesCard : Option (CardValue L) :=
  turn context (fun present => !present) false keyword op.define.entries header

def optionsCard : Option (CardValue L) :=
  turn context (fun _ => true) true keyword op.option.entries header

def mutatesCard : Option (CardValue L) :=
  turn context (fun present => present) false keyword op.mutate.entries header

/-- The headers that a population which returns goes through. -/
structure Stages (order : Iteration op) (header prepared defined optioned result : FITSHeader L) : Prop where
  prepares : op.prepare context order header = .ok prepared
  defines : op.defineCards context prepared = .ok defined
  options : op.optionCards context defined = .ok optioned
  mutates : op.mutateCards context optioned = .ok result

/-- The cards of a header that has been returned. -/
def cards (outcome : Except (EvalError ε) (FITSHeader L)) : Option (String → Option (CardValue L)) :=
  outcome.toOption.map Dict.get?

/-- The documented steps: what is present is changed by neither `define` nor `option`, what is absent takes its `define`
card or else its `option` card, `mutate` changes the present keywords it names, and the sets may be iterated in any
order. A card that resolves to None is no card. -/
structure Documented : Prop where
  present : ∀ order prepared defined optioned result, op.Stages context order header prepared defined optioned result →
    ∀ keyword card, prepared.get? keyword = some card → defined.get? keyword = some card ∧ optioned.get? keyword = some card
  absent : ∀ order prepared defined optioned result, op.Stages context order header prepared defined optioned result →
    ∀ keyword, prepared.get? keyword = none →
      optioned.get? keyword = (op.definesCard context prepared keyword).or (op.optionsCard context defined keyword)
  mutated : ∀ order prepared defined optioned result, op.Stages context order header prepared defined optioned result →
    ∀ keyword, result.get? keyword =
      if (optioned.get? keyword).isSome then (op.mutatesCard context optioned keyword).or (optioned.get? keyword) else none
  ordered : ∀ order other : Iteration op, cards (op.populate context order header) = cards (op.populate context other header)

end BuildFITSHeader

end SensorKit.Data.Fits
