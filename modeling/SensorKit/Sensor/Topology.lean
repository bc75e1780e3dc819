import Mathlib.Data.List.Dedup
import Mathlib.Data.List.Sort
import SensorKit.Lib.Dict
import SensorKit.Lib.Fallible

/-!
# A sensor's structure

Devices occupy positions within units and selector ports. `Topology` indexes the placements, the
chains of the instruments and the selector positions that they need. A topology carries what its
construction checks: each device on a chain has one placement, a chain meets no instrument but its
own, and no chain asks a selector for two ports.
-/

namespace SensorKit.Sensor

open Lib

/-- A device key and its structural path, used to identify workflow targets. -/
structure Placement where
  device : String
  path : List String
deriving DecidableEq, Repr

namespace Placement

def depth (p : Placement) : ℕ := p.path.length

def pathStr (p : Placement) : String :=
  if p.path = [] then "<root>" else "/".intercalate p.path

end Placement

/-- What planning raises. All but `key` are value errors. -/
inductive PlanningError where
  | value (message : String)
  | packingConflict (message : String)
  | settingUnsatisfiable (message : String)
  | selection (message : String)
  | key (placement : Placement)
deriving DecidableEq, Repr

/-- A device reference with grouping tags. -/
structure Device where
  device : String
  tags : List String := []
  «instrument» : Bool := false
deriving DecidableEq, Repr

/-- The placement at `path`, with the key appended for an instrument. -/
def Device.placement (d : Device) (path : List String) : Placement :=
  ⟨d.device, if d.instrument then path ++ [d.device] else path⟩

mutual

inductive Component where
  | device (record : Device)
  | unit (unit : String) (components : List Component)
  | selector (selector : String) (ports : List Port) (tags : List String)

inductive Port where
  | mk (name : String) (components : List Component)

end

def Port.name : Port → String
  | mk name _ => name

/-- The authored record of a placement. -/
inductive Record where
  | device (record : Device)
  | selector (selector : String) (tags : List String)
deriving DecidableEq, Repr

/-! ## The indexes -/

/-- What is indexed so far. -/
structure TopologyIndex where
  records : Dict Placement Record := .empty
  chains : Dict Placement (List Placement) := .empty
  ports : Dict Placement (List (Placement × String)) := .empty
  placed : Dict String Placement := .empty

namespace TopologyIndex

/-- `_claim`: reserve a device key for one placement. -/
def claim (t : TopologyIndex) (device : String) (placement : Placement) : Except PlanningError TopologyIndex :=
  match t.placed.get? device with
  | some held => .error (.value ("device '" ++ device ++ "' is placed twice, at '" ++ held.pathStr ++ "' and '" ++
      placement.pathStr ++ "'"))
  | none => .ok { t with placed := t.placed.insert device placement }

/-- One turn of the loop of `_scan`, over the index, the shared placements and the path segments. -/
def scanNode (path : List String) :
    TopologyIndex × List Placement × List String → Component →
      Except PlanningError (TopologyIndex × List Placement × List String)
  | (t, shared, segments), .device d => do
    let t ← t.claim d.device (d.placement path)
    return if d.instrument then (t, shared, segments ++ [d.device])
      else (t, shared ++ [d.placement path], segments)
  | (t, shared, segments), .unit name _ => return (t, shared, segments ++ [name])
  | (t, shared, segments), .selector s ports _ => do
    let t ← t.claim s ⟨s, path⟩
    return (t, shared ++ [⟨s, path⟩], segments ++ ports.map Port.name)

/-- `_scan`: validate a level and return its shared placements in authored order. -/
def scan (t : TopologyIndex) (components : List Component) (path : List String) :
    Except PlanningError (TopologyIndex × List Placement) := do
  let (t, shared, segments) ← components.foldlM (scanNode path) (t, [], [])
  let dupes := (segments.filter fun s => 1 < segments.count s).dedup.insertionSort (· ≤ ·)
  if dupes ≠ [] then
    .error (.value ("positions named twice under '" ++ (if path = [] then "<root>" else "/".intercalate path) ++
      "': " ++ ", ".intercalate dupes))
  else return (t, shared)

/-- Record a device of a level, and the chain of an instrument. -/
def recordDevice (path : List String) (here : List Placement) (selected : List (Placement × String))
    (t : TopologyIndex) : Component → TopologyIndex
  | .device d =>
    let placement := d.placement path
    let t := { t with records := t.records.insert placement (.device d) }
    if d.instrument then
      { t with
        chains := t.chains.insert placement (here ++ [placement])
        ports := t.ports.insert placement selected }
    else t
  | _ => t

/-- `_visit` of a level, before it descends: the index and the placements shared here. -/
def enter (t : TopologyIndex) (components : List Component) (path : List String) (above : List Placement)
    (selected : List (Placement × String)) : Except PlanningError (TopologyIndex × List Placement) := do
  let (t, shared) ← t.scan components path
  return (components.foldl (recordDevice path (above ++ shared) selected) t, above ++ shared)

end TopologyIndex

mutual

/-- Visit what is below a component of a level. -/
def Component.descend (path : List String) (here : List Placement) (selected : List (Placement × String)) :
    Component → TopologyIndex → Except PlanningError TopologyIndex
  | .device _, t => .ok t
  | .unit name components, t => do
    let (t, here) ← t.enter components (path ++ [name]) here selected
    descendAll (path ++ [name]) here selected components t
  | .selector s ports tags, t =>
    visitPorts path here selected ⟨s, path⟩ ports { t with records := t.records.insert ⟨s, path⟩ (.selector s tags) }

def descendAll (path : List String) (here : List Placement) (selected : List (Placement × String)) :
    List Component → TopologyIndex → Except PlanningError TopologyIndex
  | [], t => .ok t
  | c :: components, t => do
    let t ← c.descend path here selected t
    descendAll path here selected components t

def Port.visit (path : List String) (here : List Placement) (selected : List (Placement × String))
    (placement : Placement) : Port → TopologyIndex → Except PlanningError TopologyIndex
  | .mk name components, t => do
    let (t, here) ← t.enter components (path ++ [name]) here (selected ++ [(placement, name)])
    descendAll (path ++ [name]) here (selected ++ [(placement, name)]) components t

def visitPorts (path : List String) (here : List Placement) (selected : List (Placement × String))
    (placement : Placement) : List Port → TopologyIndex → Except PlanningError TopologyIndex
  | [], t => .ok t
  | p :: ports, t => do
    let t ← p.visit path here selected placement t
    visitPorts path here selected placement ports t

end

/-- `_visit` of the root. -/
def TopologyIndex.visit (components : List Component) : Except PlanningError TopologyIndex := do
  let (t, here) ← TopologyIndex.enter {} components [] [] []
  descendAll [] here [] components t

/-! ## Visits -/

/-- What a visit keeps, beside what has been noted so far: of the index, of the way to the components of a level, and of
a level that is visited. -/
structure Traversal {σ : Type} (Noted : σ → σ → Prop) (Index : σ → TopologyIndex → Prop)
    (Way Level : σ → List String → List Placement → List (Placement × String) → List Component → Prop) : Prop where
  refl : ∀ s, Noted s s
  trans : ∀ {s s' s''}, Noted s s' → Noted s' s'' → Noted s s''
  more : ∀ {s s' path here selected level}, Noted s s' → Level s path here selected level → Level s' path here selected level
  records : ∀ {s t path here selected level d ports tags}, Index s t → Level s path here selected level →
    .selector d ports tags ∈ level → Index s { t with records := t.records.insert ⟨d, path⟩ (.selector d tags) }
  enter : ∀ {s t t' components path here here' selected}, Index s t → Way s path here selected components →
    t.enter components path here selected = .ok (t', here') →
      ∃ s', Noted s s' ∧ Index s' t' ∧ Level s' path here' selected components
  «unit» : ∀ {s path here selected level name components}, Level s path here selected level →
    .unit name components ∈ level → Way s (path ++ [name]) here selected components
  port : ∀ {s path here selected level d ports tags name components}, Level s path here selected level →
    .selector d ports tags ∈ level → .mk name components ∈ ports →
      Way s (path ++ [name]) here (selected ++ [(⟨d, path⟩, name)]) components

namespace Traversal

variable {σ : Type} {Noted : σ → σ → Prop} {Index : σ → TopologyIndex → Prop}
  {Way Level : σ → List String → List Placement → List (Placement × String) → List Component → Prop}

mutual

theorem descend (v : Traversal Noted Index Way Level) : ∀ (c : Component) {s : σ} {path : List String}
    {here : List Placement} {selected : List (Placement × String)} {level : List Component} {t t' : TopologyIndex},
      c ∈ level → Index s t → Level s path here selected level → c.descend path here selected t = .ok t' →
        ∃ s', Noted s s' ∧ Index s' t'
  | .device _, s, _, _, _, _, _, _, _, h, _, hd => by
    cases hd
    exact ⟨s, v.refl s, h⟩
  | .unit name components, _, _, _, _, _, _, _, mem, h, open_, hd => by
    simp only [Component.descend, bind_eq_ok] at hd
    obtain ⟨⟨t₁, here₁⟩, entered, hd⟩ := hd
    obtain ⟨s₁, more, h, inner⟩ := v.enter h (v.unit open_ mem) entered
    obtain ⟨s₂, more', h⟩ := descendAll v components (fun _ => id) h inner hd
    exact ⟨s₂, v.trans more more', h⟩
  | .selector _ ports _, _, _, _, _, _, _, _, mem, h, open_, hd =>
    visitPorts v ports mem (fun _ => id) (v.records h open_ mem) open_ (by simpa only [Component.descend] using hd)

theorem descendAll (v : Traversal Noted Index Way Level) : ∀ (components : List Component) {s : σ} {path : List String}
    {here : List Placement} {selected : List (Placement × String)} {level : List Component} {t t' : TopologyIndex},
      (∀ c ∈ components, c ∈ level) → Index s t → Level s path here selected level →
        Sensor.descendAll path here selected components t = .ok t' → ∃ s', Noted s s' ∧ Index s' t'
  | [], s, _, _, _, _, _, _, _, h, _, hd => by
    cases hd
    exact ⟨s, v.refl s, h⟩
  | c :: components, _, _, _, _, _, _, _, inside, h, open_, hd => by
    simp only [Sensor.descendAll, bind_eq_ok] at hd
    obtain ⟨t₁, first, hd⟩ := hd
    obtain ⟨s₁, more, h⟩ := descend v c (inside c (by simp)) h open_ first
    obtain ⟨s₂, more', h⟩ := descendAll v components (fun c' mem => inside c' (by simp [mem])) h
      (v.more more open_) hd
    exact ⟨s₂, v.trans more more', h⟩

theorem visitPort (v : Traversal Noted Index Way Level) : ∀ (port : Port) {s : σ} {path : List String}
    {here : List Placement} {selected : List (Placement × String)} {level : List Component} {d : String}
    {ports : List Port} {tags : List String} {t t' : TopologyIndex}, .selector d ports tags ∈ level → port ∈ ports →
      Index s t → Level s path here selected level → port.visit path here selected ⟨d, path⟩ t = .ok t' →
        ∃ s', Noted s s' ∧ Index s' t'
  | .mk name components, _, _, _, _, _, _, _, _, _, _, mem, among, h, open_, hd => by
    simp only [Port.visit, bind_eq_ok] at hd
    obtain ⟨⟨t₁, here₁⟩, entered, hd⟩ := hd
    obtain ⟨s₁, more, h, inner⟩ := v.enter h (v.port open_ mem among) entered
    obtain ⟨s₂, more', h⟩ := descendAll v components (fun _ => id) h inner hd
    exact ⟨s₂, v.trans more more', h⟩

theorem visitPorts (v : Traversal Noted Index Way Level) : ∀ (rest : List Port) {s : σ} {path : List String}
    {here : List Placement} {selected : List (Placement × String)} {level : List Component} {d : String}
    {ports : List Port} {tags : List String} {t t' : TopologyIndex}, .selector d ports tags ∈ level →
      (∀ p ∈ rest, p ∈ ports) → Index s t → Level s path here selected level →
        Sensor.visitPorts path here selected ⟨d, path⟩ rest t = .ok t' → ∃ s', Noted s s' ∧ Index s' t'
  | [], s, _, _, _, _, _, _, _, _, _, _, _, h, _, hd => by
    cases hd
    exact ⟨s, v.refl s, h⟩
  | port :: rest, _, _, _, _, _, _, _, _, _, _, mem, among, h, open_, hd => by
    simp only [Sensor.visitPorts, bind_eq_ok] at hd
    obtain ⟨t₁, first, hd⟩ := hd
    obtain ⟨s₁, more, h⟩ := visitPort v port mem (among port (by simp)) h open_ first
    obtain ⟨s₂, more', h⟩ := visitPorts v rest mem (fun p mem => among p (by simp [mem])) h (v.more more open_) hd
    exact ⟨s₂, v.trans more more', h⟩

end

/-- **What a visit keeps holds of the finished index.** -/
theorem visit (v : Traversal Noted Index Way Level) {s : σ} {components : List Component} {t : TopologyIndex}
    (index : Index s {}) (way : Way s [] [] [] components) (h : TopologyIndex.visit components = .ok t) :
    ∃ s, Index s t := by
  simp only [TopologyIndex.visit, bind_eq_ok] at h
  obtain ⟨⟨t₁, here⟩, entered, h⟩ := h
  obtain ⟨s₁, -, index, root⟩ := v.enter index way entered
  obtain ⟨s₂, -, index⟩ := v.descendAll components (fun _ => id) index root h
  exact ⟨s₂, index⟩

end Traversal

/-- What a visit keeps, beside what has been noted so far: of the index, of the way to a level, and of a level whose
components are visited. -/
structure Visiting {σ : Type} (Noted : σ → σ → Prop) (Index : σ → TopologyIndex → Prop)
    (Way : σ → List String → List Placement → List (Placement × String) → Prop)
    (Level : σ → List String → List Placement → List (Placement × String) → List Component → Prop) : Prop where
  refl : ∀ s, Noted s s
  trans : ∀ {s s' s''}, Noted s s' → Noted s' s'' → Noted s s''
  more : ∀ {s s' path here selected components}, Noted s s' → Level s path here selected components →
    Level s' path here selected components
  records : ∀ {s t} r, Index s t → Index s { t with records := r }
  enter : ∀ {s t t' components path here here' selected}, Index s t → Way s path here selected →
    t.enter components path here selected = .ok (t', here') →
      ∃ s', Noted s s' ∧ Index s' t' ∧ Level s' path here' selected components
  «unit» : ∀ {s path here selected components} name, Level s path here selected components →
    Way s (path ++ [name]) here selected
  port : ∀ {s path here selected components d ports tags} name, Level s path here selected components →
    .selector d ports tags ∈ components → Way s (path ++ [name]) here (selected ++ [(⟨d, path⟩, name)])

namespace Visiting

variable {σ : Type} {Noted : σ → σ → Prop} {Index : σ → TopologyIndex → Prop}
  {Way : σ → List String → List Placement → List (Placement × String) → Prop}
  {Level : σ → List String → List Placement → List (Placement × String) → List Component → Prop}

/-- What is kept whatever the components on the way are. -/
theorem traversal (v : Visiting Noted Index Way Level) :
    Traversal Noted Index (fun s path here selected _ => Way s path here selected) Level where
  refl := v.refl
  trans := v.trans
  more := v.more
  records h _ _ := v.records _ h
  enter := v.enter
  «unit» open_ _ := v.unit _ open_
  port open_ mem _ := v.port _ open_ mem

theorem visit (v : Visiting Noted Index Way Level) {s : σ} {components : List Component} {t : TopologyIndex}
    (index : Index s {}) (way : Way s [] [] []) (h : TopologyIndex.visit components = .ok t) : ∃ s, Index s t :=
  v.traversal.visit index way h

end Visiting

/-! ## What the construction checks -/

/-- The index beside all placements that levels share. -/
structure Indexed (t : TopologyIndex) (shared : List Placement) : Prop where
  shared_placed : ∀ p ∈ shared, t.placed.get? p.device = some p
  instruments_placed : ∀ i ∈ t.chains.keys, t.placed.get? i.device = some i
  apart : ∀ p ∈ shared, p ∉ t.chains.keys
  chain_shared : ∀ i chain, t.chains.get? i = some chain → ∀ p ∈ chain, p = i ∨ p ∈ shared
  one_port : ∀ i states, t.ports.get? i = some states → (states.map Prod.fst).Nodup
  selectors_on_chain : ∀ i states, t.ports.get? i = some states →
    ∃ chain, t.chains.get? i = some chain ∧ ∀ s ∈ states.map Prod.fst, s ∈ chain
  own_chain : ∀ i chain, t.chains.get? i = some chain → i ∈ chain

/-- What a scan has done to the index, and found at the components so far. -/
structure Scanned (path : List String) (t : TopologyIndex) (components : List Component) (t' : TopologyIndex)
    (shared : List Placement) : Prop where
  chains : t'.chains = t.chains
  ports : t'.ports = t.ports
  kept : ∀ d p, t.placed.get? d = some p → t'.placed.get? d = some p
  shared_placed : ∀ p ∈ shared, t'.placed.get? p.device = some p ∧ t.placed.get? p.device = none
  instruments : ∀ d, .device d ∈ components → d.instrument = true →
    t'.placed.get? d.device = some (d.placement path) ∧ t.placed.get? d.device = none ∧ d.placement path ∉ shared
  selectors : ∀ s ports tags, .selector s ports tags ∈ components → ⟨s, path⟩ ∈ shared

namespace TopologyIndex

variable {t t' : TopologyIndex} {device : String} {p : Placement}

theorem claim_eq_ok (h : t.claim device p = .ok t') :
    t.placed.get? device = none ∧ t' = { t with placed := t.placed.insert device p } := by
  simp only [claim] at h
  split at h
  · simp at h
  · rename_i free
    exact ⟨free, by simpa using h.symm⟩

end TopologyIndex

namespace Scanned

variable {t t' t'' : TopologyIndex} {path : List String} {components : List Component} {shared : List Placement}
  {p : Placement}

/-- A claim by a further component. -/
theorem claim (h : Scanned path t components t' shared) (hc : t'.claim p.device p = .ok t'') :
    t''.chains = t.chains ∧ t''.ports = t.ports ∧ (∀ d q, t.placed.get? d = some q → t''.placed.get? d = some q) ∧
      (∀ q ∈ shared, t''.placed.get? q.device = some q ∧ t.placed.get? q.device = none ∧ q ≠ p) ∧
      (∀ d, .device d ∈ components → d.instrument = true → t''.placed.get? d.device = some (d.placement path) ∧
        t.placed.get? d.device = none ∧ d.placement path ∉ shared ∧ d.placement path ≠ p) ∧
      t''.placed.get? p.device = some p ∧ t.placed.get? p.device = none := by
  obtain ⟨free, rfl⟩ := TopologyIndex.claim_eq_ok hc
  have kept {d : String} {q : Placement} (placed : t'.placed.get? d = some q) :
      (t'.placed.insert p.device p).get? d = some q ∧ d ≠ p.device := by
    have other : d ≠ p.device := by
      rintro rfl
      simp [free] at placed
    exact ⟨by rwa [Dict.get?_insert_of_ne other], other⟩
  refine ⟨h.chains, h.ports, fun d q placed => (kept (h.kept d q placed)).1, fun q mem => ?_, fun d mem inst => ?_,
    by simp, ?_⟩
  · obtain ⟨placed, before⟩ := h.shared_placed q mem
    obtain ⟨placed, other⟩ := kept placed
    exact ⟨placed, before, fun same => other (congrArg Placement.device same)⟩
  · obtain ⟨placed, before, unshared⟩ := h.instruments d mem inst
    obtain ⟨placed, other⟩ := kept placed
    exact ⟨placed, before, unshared, fun same => other (congrArg Placement.device same)⟩
  · cases placed : t.placed.get? p.device with
    | none => rfl
    | some q => simp [h.kept _ _ placed] at free

theorem scanNode {segments segments' : List String} {shared' : List Placement} {c : Component}
    (h : Scanned path t components t' shared) (hs : TopologyIndex.scanNode path (t', shared, segments) c = .ok (t'', shared', segments')) :
    Scanned path t (components ++ [c]) t'' shared' := by
  cases c with
  | device d =>
    simp only [TopologyIndex.scanNode, bind_eq_ok, pure_eq_ok] at hs
    obtain ⟨t₁, claimed, hs⟩ := hs
    obtain ⟨chains, ports, kept, shared_placed, instruments, placed, before⟩ := h.claim (p := d.placement path) claimed
    split_ifs at hs with inst
    · obtain ⟨rfl, rfl, -⟩ : t₁ = t'' ∧ shared = shared' ∧ _ := by simpa using hs
      refine ⟨chains, ports, kept, fun q mem => ?_, fun e mem inst' => ?_, fun s ports tags mem => ?_⟩
      · exact ⟨(shared_placed q mem).1, (shared_placed q mem).2.1⟩
      · rcases List.mem_append.1 mem with mem | mem
        · exact ⟨(instruments e mem inst').1, (instruments e mem inst').2.1, (instruments e mem inst').2.2.1⟩
        · obtain rfl : e = d := by simpa using mem
          exact ⟨placed, before, fun mem => (shared_placed _ mem).2.2 rfl⟩
      · exact h.selectors s ports tags (by simpa using mem)
    · obtain ⟨rfl, rfl, -⟩ : t₁ = t'' ∧ shared ++ [d.placement path] = shared' ∧ _ := by simpa using hs
      refine ⟨chains, ports, kept, fun q mem => ?_, fun e mem inst' => ?_, fun s ports tags mem => ?_⟩
      · rcases List.mem_append.1 mem with mem | mem
        · exact ⟨(shared_placed q mem).1, (shared_placed q mem).2.1⟩
        · obtain rfl : q = d.placement path := by simpa using mem
          exact ⟨placed, before⟩
      · rcases List.mem_append.1 mem with mem | mem
        · obtain ⟨placed', before', unshared, other⟩ := instruments e mem inst'
          exact ⟨placed', before', by simp [unshared, other]⟩
        · obtain rfl : e = d := by simpa using mem
          exact absurd inst' inst
      · exact List.mem_append_left _ (h.selectors s ports tags (by simpa using mem))
  | unit name _ =>
    obtain ⟨rfl, rfl, -⟩ : t' = t'' ∧ shared = shared' ∧ _ := by simpa [TopologyIndex.scanNode, pure_eq_ok] using hs
    exact ⟨h.chains, h.ports, h.kept, h.shared_placed, fun d mem => h.instruments d (by simpa using mem),
      fun s ports tags mem => h.selectors s ports tags (by simpa using mem)⟩
  | selector s ports' tags =>
    simp only [TopologyIndex.scanNode, bind_eq_ok, pure_eq_ok] at hs
    obtain ⟨t₁, claimed, hs⟩ := hs
    obtain ⟨chains, ports, kept, shared_placed, instruments, placed, before⟩ := h.claim (p := ⟨s, path⟩) claimed
    obtain ⟨rfl, rfl, -⟩ : t₁ = t'' ∧ shared ++ [⟨s, path⟩] = shared' ∧ _ := by simpa using hs
    refine ⟨chains, ports, kept, fun q mem => ?_, fun e mem inst' => ?_, fun s' ports tags mem => ?_⟩
    · rcases List.mem_append.1 mem with mem | mem
      · exact ⟨(shared_placed q mem).1, (shared_placed q mem).2.1⟩
      · obtain rfl : q = ⟨s, path⟩ := by simpa using mem
        exact ⟨placed, before⟩
    · obtain ⟨placed', before', unshared, other⟩ := instruments e (by simpa using mem) inst'
      exact ⟨placed', before', by simp [unshared, other]⟩
    · rcases List.mem_append.1 mem with mem | mem
      · exact List.mem_append_left _ (h.selectors s' ports tags mem)
      · obtain ⟨rfl, -, -⟩ : s' = s ∧ ports = ports' ∧ _ := by simpa using mem
        simp

theorem of_scan (h : t.scan components path = .ok (t', shared)) : Scanned path t components t' shared := by
  simp only [TopologyIndex.scan, bind_eq_ok] at h
  obtain ⟨⟨t₁, shared₁, segments⟩, folded, h⟩ := h
  split_ifs at h
  obtain ⟨rfl, rfl⟩ : t₁ = t' ∧ shared₁ = shared := by simpa [pure_eq_ok] using h
  refine foldlM_invariant_prefix (fun pre s => Scanned path t pre s.1 s.2.1) folded ?_ ?_
  · exact ⟨rfl, rfl, fun _ _ => id, by simp, by simp, by simp⟩
  · rintro pre c post ⟨t₁, shared₁, segments₁⟩ ⟨t₂, shared₂, segments₂⟩ - inv turn
    exact inv.scanNode turn

end Scanned

namespace Indexed

variable {t t' : TopologyIndex} {path : List String} {components : List Component} {S here here' : List Placement}
  {selected : List (Placement × String)} {p : Placement}

theorem records (h : Indexed t S) (r : Dict Placement Record) : Indexed { t with records := r } S :=
  ⟨h.shared_placed, h.instruments_placed, h.apart, h.chain_shared, h.one_port, h.selectors_on_chain,
    h.own_chain⟩

/-- An instrument ends the chain that leads to it. -/
theorem addInstrument (h : Indexed t S) (placed : t.placed.get? p.device = some p) (unshared : p ∉ S)
    (inside : ∀ q ∈ here, q ∈ S) (nodup : (selected.map Prod.fst).Nodup)
    (passed : ∀ s ∈ selected.map Prod.fst, s ∈ here) :
    Indexed { t with chains := t.chains.insert p (here ++ [p]), ports := t.ports.insert p selected } S := by
  refine ⟨h.shared_placed, fun i mem => ?_, fun q mem => ?_, fun i chain eq q mem => ?_, fun i states eq => ?_,
    fun i states eq => ?_, fun i chain eq => ?_⟩
  · rcases Dict.mem_keys_insert.1 mem with rfl | mem
    · exact placed
    · exact h.instruments_placed i mem
  · rw [Dict.mem_keys_insert]
    rintro (rfl | key)
    · exact unshared mem
    · exact h.apart q mem key
  · simp only [Dict.get?_insert] at eq
    split_ifs at eq with same
    · cases eq
      rcases List.mem_append.1 mem with mem | mem
      · exact .inr (inside q mem)
      · exact .inl (by simpa [same] using mem)
    · exact h.chain_shared i chain eq q mem
  · simp only [Dict.get?_insert] at eq
    split_ifs at eq with same
    · cases eq
      exact nodup
    · exact h.one_port i states eq
  · simp only [Dict.get?_insert] at eq ⊢
    split_ifs at eq ⊢ with same
    · cases eq
      exact ⟨_, rfl, fun s mem => List.mem_append_left _ (passed s mem)⟩
    · exact h.selectors_on_chain i states eq
  · simp only [Dict.get?_insert] at eq
    split_ifs at eq with same
    · cases eq
      simp [same]
    · exact h.own_chain i chain eq

theorem recordDevices (inside : ∀ q ∈ here, q ∈ S) (nodup : (selected.map Prod.fst).Nodup)
    (passed : ∀ s ∈ selected.map Prod.fst, s ∈ here) :
    ∀ (components : List Component) (t : TopologyIndex), Indexed t S →
      (∀ d, .device d ∈ components → d.instrument = true →
        t.placed.get? d.device = some (d.placement path) ∧ d.placement path ∉ S) →
      Indexed (components.foldl (TopologyIndex.recordDevice path here selected) t) S
  | [], _, h, _ => h
  | c :: components, t, h, instruments => by
    have rest (e : Device) (mem : .device e ∈ components) := instruments e (by simp [mem])
    cases c with
    | device d =>
      refine recordDevices inside nodup passed components _ ?_ fun e mem inst => ?_
      · simp only [TopologyIndex.recordDevice]
        split_ifs with inst
        · obtain ⟨placed, unshared⟩ := instruments d (by simp) inst
          exact (h.records _).addInstrument placed unshared inside nodup passed
        · exact h.records _
      · have same : (TopologyIndex.recordDevice path here selected t (.device d)).placed = t.placed := by
          simp only [TopologyIndex.recordDevice]
          split_ifs <;> rfl
        rw [same]
        exact rest e mem inst
    | unit => exact recordDevices inside nodup passed components t h rest
    | selector => exact recordDevices inside nodup passed components t h rest

theorem enter (h : Indexed t S) (inside : ∀ q ∈ here, q ∈ S) (nodup : (selected.map Prod.fst).Nodup)
    (passed : ∀ s ∈ selected.map Prod.fst, s ∈ here) (he : t.enter components path here selected = .ok (t', here')) :
    (∀ q ∈ here, q ∈ here') ∧ (∀ s ports tags, .selector s ports tags ∈ components → ⟨s, path⟩ ∈ here') ∧
      ∃ S', (∀ p ∈ S, p ∈ S') ∧ (∀ q ∈ here', q ∈ S') ∧ Indexed t' S' := by
  simp only [TopologyIndex.enter, bind_eq_ok, pure_eq_ok] at he
  obtain ⟨⟨t₁, shared⟩, scanned, he⟩ := he
  obtain ⟨rfl, rfl⟩ : components.foldl (TopologyIndex.recordDevice path (here ++ shared) selected) t₁ = t' ∧
    here ++ shared = here' := by simpa using he
  have scanned := Scanned.of_scan scanned
  have inside' : ∀ q ∈ here ++ shared, q ∈ S ++ shared := fun q mem => by
    rcases List.mem_append.1 mem with mem | mem
    · exact List.mem_append_left _ (inside q mem)
    · exact List.mem_append_right _ mem
  refine ⟨fun q mem => List.mem_append_left _ mem,
    fun s ports tags mem => List.mem_append_right _ (scanned.selectors s ports tags mem), S ++ shared,
    fun p mem => List.mem_append_left _ mem, inside',
    recordDevices inside' nodup (fun s mem => List.mem_append_left _ (passed s mem)) _ _ ?_ ?_⟩
  · refine ⟨fun p mem => ?_, fun i mem => ?_, fun p mem => ?_, fun i chain eq p mem => ?_, fun i states eq => ?_,
      fun i states eq => ?_, fun i chain eq => ?_⟩
    · rcases List.mem_append.1 mem with mem | mem
      · exact scanned.kept _ _ (h.shared_placed p mem)
      · exact (scanned.shared_placed p mem).1
    · rw [scanned.chains] at mem
      exact scanned.kept _ _ (h.instruments_placed i mem)
    · rw [scanned.chains]
      rcases List.mem_append.1 mem with mem | mem
      · exact h.apart p mem
      · -- It was not placed before the scan, as the instruments were.
        intro key
        have before := (scanned.shared_placed p mem).2
        simp [h.instruments_placed p key] at before
    · rw [scanned.chains] at eq
      exact (h.chain_shared i chain eq p mem).imp_right (List.mem_append_left _)
    · rw [scanned.ports] at eq
      exact h.one_port i states eq
    · rw [scanned.ports] at eq
      rw [scanned.chains]
      exact h.selectors_on_chain i states eq
    · rw [scanned.chains] at eq
      exact h.own_chain i chain eq
  · intro d mem inst
    obtain ⟨placed, before, unshared⟩ := scanned.instruments d mem inst
    refine ⟨placed, fun mem => ?_⟩
    rcases List.mem_append.1 mem with mem | mem
    · have placed' := h.shared_placed _ mem
      simp [Device.placement, before] at placed'
    · exact unshared mem

/-- The selectors that have been passed on the way to a level lie above it, and are shared there. -/
structure Above (path : List String) (here : List Placement) (selected : List (Placement × String)) : Prop where
  nodup : (selected.map Prod.fst).Nodup
  shorter : ∀ s ∈ selected.map Prod.fst, s.path.length < path.length
  passed : ∀ s ∈ selected.map Prod.fst, s ∈ here

theorem Above.segment (h : Above path here selected) (name : String) (more : ∀ q ∈ here, q ∈ here') :
    Above (path ++ [name]) here' selected :=
  ⟨h.nodup, fun s mem => by simpa using Nat.lt_succ_of_lt (h.shorter s mem), fun s mem => more s (h.passed s mem)⟩

theorem Above.port {s : String} (h : Above path here selected) (shared : ⟨s, path⟩ ∈ here) (name : String) :
    Above (path ++ [name]) here (selected ++ [(⟨s, path⟩, name)]) := by
  have new : (⟨s, path⟩ : Placement) ∉ selected.map Prod.fst := fun mem => Nat.lt_irrefl _ (h.shorter _ mem)
  have cases {q : Placement} (mem : q ∈ (selected ++ [((⟨s, path⟩ : Placement), name)]).map Prod.fst) :
      q ∈ selected.map Prod.fst ∨ q = ⟨s, path⟩ := by simpa using mem
  refine ⟨?_, fun q mem => ?_, fun q mem => ?_⟩
  · rw [List.map_append]
    exact h.nodup.append (List.nodup_singleton _) (by simpa using new)
  · rcases cases mem with mem | rfl
    · have := h.shorter q mem
      simp only [List.length_append, List.length_singleton]
      omega
    · simp
  · rcases cases mem with mem | rfl
    · exact h.passed q mem
    · exact shared

/-- The selectors among the components of a level are shared there. -/
def Shares (path : List String) (here : List Placement) (components : List Component) : Prop :=
  ∀ s ports tags, .selector s ports tags ∈ components → ⟨s, path⟩ ∈ here

/-- A visit keeps the index consistent with what its levels share. -/
theorem visiting : Visiting (fun S S' : List Placement => ∀ p ∈ S, p ∈ S') (fun S t => Indexed t S)
    (fun S path here selected => (∀ q ∈ here, q ∈ S) ∧ Above path here selected)
    (fun S path here selected components =>
      (∀ q ∈ here, q ∈ S) ∧ Above path here selected ∧ Shares path here components) where
  refl _ _ mem := mem
  trans more more' p mem := more' p (more p mem)
  more more shares := ⟨fun q mem => more q (shares.1 q mem), shares.2⟩
  records r h := h.records r
  enter h level entered := by
    obtain ⟨below, shares, S', more, inside, h⟩ := h.enter level.1 level.2.nodup level.2.passed entered
    exact ⟨S', more, h, inside, ⟨level.2.nodup, level.2.shorter, fun q mem => below q (level.2.passed q mem)⟩, shares⟩
  «unit» name shares := ⟨shares.1, shares.2.1.segment name fun _ => id⟩
  port name shares mem := ⟨shares.1, shares.2.1.port (shares.2.2 _ _ _ mem) name⟩

theorem visit (h : TopologyIndex.visit components = .ok t) : ∃ S, Indexed t S := by
  have start : Indexed {} [] := ⟨by simp, by simp [Dict.empty, Dict.keys], by simp, by simp, by simp, by simp,
    by simp⟩
  exact visiting.visit start ⟨by simp, by simp, by simp, by simp⟩ h

end Indexed

/-! ## Topologies -/

/-- Validated indexes of placements, instrument chains and shared devices. -/
structure Topology extends TopologyIndex where
  /-- A device on a chain is placed where the chain says. -/
  placed_at : ∀ i chain, chains.get? i = some chain → ∀ p ∈ chain, placed.get? p.device = some p
  /-- A chain meets no instrument but its own. -/
  own_instrument : ∀ i chain, chains.get? i = some chain → ∀ p ∈ chain, p ∈ chains.keys → p = i
  /-- An instrument needs a selector in one position. -/
  one_port : ∀ i states, ports.get? i = some states → (states.map Prod.fst).Nodup
  /-- The selectors that an instrument needs lie on its chain. -/
  selectors_on_chain : ∀ i states, ports.get? i = some states →
    ∃ chain, chains.get? i = some chain ∧ ∀ s ∈ states.map Prod.fst, s ∈ chain
  /-- An instrument is on its own chain. -/
  own_chain : ∀ i chain, chains.get? i = some chain → i ∈ chain

namespace Topology

/-- The topology of a structure. -/
def build (components : List Component) : Except PlanningError Topology :=
  match h : TopologyIndex.visit components with
  | .error e => .error e
  | .ok t => .ok
    { t with
      placed_at := fun i chain eq p mem => by
        obtain ⟨S, indexed⟩ := Indexed.visit h
        rcases indexed.chain_shared i chain eq p mem with rfl | shared
        · exact indexed.instruments_placed p (Dict.mem_keys.2 ⟨chain, eq⟩)
        · exact indexed.shared_placed p shared
      own_instrument := fun i chain eq p mem key => by
        obtain ⟨S, indexed⟩ := Indexed.visit h
        exact (indexed.chain_shared i chain eq p mem).resolve_right fun shared => indexed.apart p shared key
      one_port := fun i states eq => by
        obtain ⟨S, indexed⟩ := Indexed.visit h
        exact indexed.one_port i states eq
      selectors_on_chain := fun i states eq => by
        obtain ⟨S, indexed⟩ := Indexed.visit h
        exact indexed.selectors_on_chain i states eq
      own_chain := fun i chain eq => by
        obtain ⟨S, indexed⟩ := Indexed.visit h
        exact indexed.own_chain i chain eq }

variable (t : Topology)

/-- Collection targets in structure traversal order. -/
def instruments : List Placement := t.chains.keys

/-- The value of a placement in an index, or the key error that it is not there. -/
def lookup {υ : Type} (index : Dict Placement υ) (placement : Placement) : Except PlanningError υ :=
  match index.get? placement with
  | some value => .ok value
  | none => .error (.key placement)

def record (placement : Placement) : Except PlanningError Record :=
  lookup t.records placement

def tags (placement : Placement) : Except PlanningError (List String) := do
  match ← t.record placement with
  | .device d => return d.tags
  | .selector _ tags => return tags

def kind (placement : Placement) : Except PlanningError String := do
  match ← t.record placement with
  | .selector .. => return "selector"
  | .device d => return if d.instrument then "instrument" else "device"

/-- Whether the record marks the placement as a collection target. -/
def instrument (placement : Placement) : Except PlanningError Bool := do
  match ← t.record placement with
  | .selector .. => return false
  | .device d => return d.instrument

/-- The instrument's device chain, from root to instrument. -/
def chain (instrument : Placement) : Except PlanningError (List Placement) :=
  lookup t.chains instrument

/-- The instruments whose chains include the placement. -/
def readersOf (placement : Placement) : List Placement :=
  t.chains.entries.flatMap fun (instrument, chain) => (chain.filter (· = placement)).map fun _ => instrument

/-- `_owned`: whether a chain placement is local and has only this reader. -/
def owned (placement instrument : Placement) : Bool :=
  (placement.path = instrument.path.dropLast ∨ placement.path = instrument.path) ∧
    t.readersOf placement = [instrument]

/-- Chain placements local to the instrument and used only by it. -/
def «private» (instrument : Placement) : Except PlanningError (List Placement) := do
  return (← t.chain instrument).filter (t.owned · instrument)

/-- Selector placements and required port names, from root to leaf. -/
def selectorStates (instrument : Placement) : Except PlanningError (List (Placement × String)) :=
  lookup t.ports instrument

/-- The first selector requiring different ports for the instruments. -/
def mutuallyExclusive (a b : Placement) : Except PlanningError (Option Placement) := do
  let ports := Dict.ofList (← t.selectorStates b)
  let states ← t.selectorStates a
  return (states.find? fun (selector, port) => (ports.get? selector).any (· ≠ port)).map Prod.fst

/-- The placement lies on the instrument's chain. -/
def OnChain (instrument placement : Placement) : Prop :=
  ∃ chain, t.chains.get? instrument = some chain ∧ placement ∈ chain

variable {t} {i j p q : Placement}

theorem lookup_eq_ok {υ : Type} {index : Dict Placement υ} {value : υ} :
    lookup index p = .ok value ↔ index.get? p = some value := by
  simp only [lookup]
  cases index.get? p <;> simp

theorem mem_readersOf : i ∈ t.readersOf p ↔ t.OnChain i p := by
  simp only [readersOf, List.mem_flatMap, List.mem_map, List.mem_filter, decide_eq_true_eq, Prod.exists, OnChain,
    Dict.get?_eq_some]
  constructor
  · rintro ⟨j, chain, entry, q, ⟨mem, rfl⟩, rfl⟩
    exact ⟨chain, entry, mem⟩
  · rintro ⟨chain, entry, mem⟩
    exact ⟨i, chain, entry, p, ⟨mem, rfl⟩, rfl⟩

/-- **One placement a device**, on all chains. -/
theorem eq_of_device (hp : t.OnChain i p) (hq : t.OnChain j q) (same : p.device = q.device) : p = q := by
  obtain ⟨chain, eq, mem⟩ := hp
  obtain ⟨chain', eq', mem'⟩ := hq
  have placed := t.placed_at i chain eq p mem
  have placed' := t.placed_at j chain' eq' q mem'
  rw [same, placed'] at placed
  exact (Option.some.inj placed).symm

end Topology

end SensorKit.Sensor
