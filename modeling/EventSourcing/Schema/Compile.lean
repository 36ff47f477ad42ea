import EventSourcing.Document.Basic
import EventSourcing.Schema.Basic
import EventSourcing.Schema.Error

/-!
# Schema.Compile -- schemas from documents

The document is walked once, in the order events, projections, services.  On the way
names become numbers and every place that names an event or a type is recorded.  The walk
ends at the first rule that is broken.  Then every event must be named somewhere, and
every type must be declared exactly once in the sources.
-/

namespace EventSourcing.Schema

set_option autoImplicit false

/-- What has been compiled so far.  Types are still references, numbered by first
mention. -/
structure Draft where
  events : List Event
  projections : List Projection
  services : List Service
  types : List TypeRef
  references : References

namespace Draft

def empty : Draft := ⟨[], [], [], [], .empty⟩

def eventId? (d : Draft) (name : String) : Option EventId :=
  (position? (·.name == name) d.events).map EventId.mk

def projectionId? (d : Draft) (name : String) : Option ProjectionId :=
  (position? (·.name == name) d.projections).map ProjectionId.mk

end Draft

/-- A step of the compilation. -/
abbrev Compile (α : Type) := StateT Draft (Except Error) α

namespace Compile

def malformed {α : Type} (place : NodePath) (what : Malformation) : Compile α :=
  throw (.malformed place what)

def contradictory {α : Type} (place : NodePath) (what : Contradiction) : Compile α :=
  throw (.contradictory place what)

def checkName (place : NodePath) (what : Named) (rule : Name.Rule) (name : String) :
    Compile Unit :=
  match Name.check rule name with
  | .ok () => return ()
  | .error defect => malformed place (.name what name defect)

def nameEvent (id : EventId) (place : Place) : Compile Unit :=
  modify fun d => { d with references := d.references.referEvent id place }

/-- The number of a type reference, a new one if it has none yet. -/
def typeId (r : TypeRef) : Compile TypeId := do
  let d ← get
  match position? (· == r) d.types with
  | some i => return ⟨i⟩
  | none =>
      set { d with types := d.types ++ [r] }
      return ⟨d.types.length⟩

/-- Reads a type reference and records the place that makes it. -/
def nameType (at_ : NodePath) (reference : String) (place : Place) : Compile TypeId :=
  match TypeRef.parse reference with
  | .error defect => malformed at_ (.typeReference reference defect)
  | .ok r => do
      let id ← typeId r
      modify fun d => { d with references := d.references.referType id place }
      return id

/-- The number of the event that is named at a place. -/
def event (at_ : NodePath) (name : String) : Compile EventId := do
  match (← get).eventId? name with
  | some id => return id
  | none => contradictory at_ (.undefinedEvent name)

/-- Properties; `place` records one of them. -/
def properties (path : NodePath) (place : String → Place)
    (props : Document.Named Document.Property) : Compile (List Property) :=
  props.mapM fun (name, p) => do
    checkName (path.child name) .property .property name
    let type ← nameType (path.child name) p.reference (place name)
    return ⟨name, type, p.doc⟩

def events (decls : Document.Named (Option (Document.Named Document.Property))) :
    Compile Unit := do
  let section_ := NodePath.root.child "events"
  if decls.isEmpty then
    contradictory section_ .missingEvents
  decls.forM fun (name, props) => do
    let path := section_.child name
    checkName path .event .type name
    let id : EventId := ⟨(← get).events.length⟩
    let props ← properties path (.eventProperty id) (props.getD [])
    modify fun d => { d with events := d.events ++ [⟨id, name, props⟩] }

/-! ## Projections -/

/-- States from position `index` on, after the states `before` them. -/
def statesFrom (path : NodePath) (index : Nat) (before : List String) :
    List String → Compile (List String)
  | [] => return before
  | state :: rest => do
      checkName (path.item index) .state .type state
      if before.contains state then
        contradictory (path.item index) (.duplicateState state)
      statesFrom path (index + 1) (before ++ [state]) rest

def states (path : NodePath) (names : List String) : Compile (List String) := do
  if names.isEmpty then
    contradictory path .missingStates
  statesFrom path 0 [] names

/-- A transition from its expression: three words, of which the second is an arrow. -/
def transition? (expression : String) : Option Transition :=
  match Text.words expression with
  | [source, "->", target] => some ⟨source, target⟩
  | _ => none

/-- Transitions on an event from position `index` on, after the transitions `before`
them. -/
def transitionsFrom (path : NodePath) (projection : ProjectionId) (event : EventId)
    (states : List String) (index : Nat) (before : List Transition) :
    List String → Compile (List Transition)
  | [] => return before
  | expression :: rest => do
      match transition? expression with
      | none => malformed (path.item index) (.transition expression)
      | some t =>
          if !states.contains t.source then
            contradictory path (.undefinedState .source t.source)
          if !states.contains t.target then
            contradictory path (.undefinedState .target t.target)
          if before.contains t then
            contradictory path (.duplicateTransition t.source t.target)
          nameEvent event (.transition projection index)
          transitionsFrom path projection event states (index + 1) (before ++ [t]) rest

/-- The transitions of a projection.  An event without any is left out. -/
def transitions (path : NodePath) (projection : ProjectionId) (states : List String)
    (decls : Document.Named (List String)) : Compile (List (EventId × List Transition)) := do
  let all ← decls.mapM fun (name, expressions) => do
    let id ← event (path.child name) name
    let ts ← transitionsFrom (path.child name) projection id states 0 [] expressions
    return (id, ts)
  return all.filter fun (_, ts) => !ts.isEmpty

def projection (path : NodePath) (name : String) (decl : Document.Projection) :
    Compile Unit := do
  checkName path .projection .type name
  let id : ProjectionId := ⟨(← get).projections.length⟩
  let states ← states (path.child "states") decl.states
  let props ← properties (path.child "properties") (.projectionProperty id)
    (decl.properties.getD [])
  let createOnPath := path.child "createOn"
  let createOn ← event createOnPath decl.createOn
  nameEvent createOn (.createOn id)
  let transitionsPath := path.child "transitions"
  let ts ← transitions transitionsPath id states (decl.transitions.getD [])
  if (ts.lookup createOn).isSome then
    let clash := transitionsPath.child decl.createOn
    contradictory clash (.createOnTransition decl.createOn createOnPath clash)
  let compiled : Projection := ⟨id, name, states, props, createOn, ts⟩
  modify fun d => { d with projections := d.projections ++ [compiled] }

def projections (decls : Document.Named Document.Projection) : Compile Unit :=
  decls.forM fun (name, decl) =>
    projection ((NodePath.root.child "projections").child name) name decl

/-! ## Services -/

/-- The projections of a service from position `index` on, after the projections `before`
them. -/
def projectionIdsFrom (path : NodePath) (index : Nat) (before : List ProjectionId) :
    List String → Compile (List ProjectionId)
  | [] => return before
  | name :: rest => do
      match (← get).projectionId? name with
      | none => contradictory (path.item index) (.undefinedProjection name)
      | some id =>
          if before.contains id then
            contradictory (path.item index) (.duplicateProjection name)
          projectionIdsFrom path (index + 1) (before ++ [id]) rest

/-- The events that a method emits from position `index` on, after the events `before`
them; `place` records one. -/
def emitsFrom (path : NodePath) (place : Place) (index : Nat) (before : List EventId) :
    List String → Compile (List EventId)
  | [] => return before
  | name :: rest => do
      let id ← event (path.item index) name
      if before.contains id then
        contradictory (path.item index) (.duplicateEmit name)
      nameEvent id place
      emitsFrom path place (index + 1) (before ++ [id]) rest

/-- The kind of a method.  If none is declared, a method that emits is a transaction and
any other only reads. -/
def classify (path : NodePath) (declared : Option String) (emits : Bool) :
    Compile EventSourcing.Method.Kind := do
  let word := declared.getD ""
  if word = "" then
    return if emits then .transaction else .readonly
  match EventSourcing.Method.Kind.parse? word with
  | none => malformed path (.methodType word)
  | some .readonly => if emits then contradictory path .readonlyEmits else return .readonly
  | some kind => if emits then return kind else contradictory path (.emitsRequired kind)

def method (service : ServiceId) (path : NodePath) (name : String)
    (decl : Document.Method) : Compile Method := do
  checkName path .method .type name
  let input ← decl.input.mapM fun r => nameType (path.child "in") r (.input service name)
  let output ← decl.output.mapM fun r => nameType (path.child "out") r (.output service name)
  let emits ← emitsFrom (path.child "emits") (.emit service name) 0 [] decl.emits
  let kind ← classify (path.child "type") decl.kind (!emits.isEmpty)
  return ⟨name, kind, input, output, emits⟩

/-- The items of a list, each at its first place. -/
def firstSeen {α : Type} [DecidableEq α] (items : List α) : List α :=
  items.foldl (fun seen a => if seen.contains a then seen else seen ++ [a]) []

def service (path : NodePath) (name : String) (decl : Document.Service) : Compile Unit := do
  checkName path .service .type name
  let id : ServiceId := ⟨(← get).services.length⟩
  let ids ← projectionIdsFrom (path.child "projections") 0 [] decl.projections
  let methodsPath := path.child "methods"
  let methodDecls := decl.methods.getD []
  if methodDecls.isEmpty then
    contradictory methodsPath .missingMethods
  let methods ← methodDecls.mapM fun (name, decl) =>
    method id (methodsPath.child name) name (decl.getD .empty)
  let d ← get
  let needed := ids.flatMap fun p => ((d.projections[p.index]?).map (·.subscriptions)).getD []
  let compiled : Service := ⟨id, name, ids, methods, firstSeen needed⟩
  set { d with services := d.services ++ [compiled] }

def services (decls : Document.Named Document.Service) : Compile Unit := do
  let section_ := NodePath.root.child "services"
  if decls.isEmpty then
    contradictory section_ .missingServices
  decls.forM fun (name, decl) => service (section_.child name) name decl

/-! ## The whole document -/

def checkUsed : Compile Unit := do
  let d ← get
  match d.events.find? fun e => !d.references.isEventReferenced e.id with
  | some e =>
      contradictory ((NodePath.root.child "events").child e.name) (.unusedEvent e.name)
  | none => return ()

def document (d : Document) : Compile Unit := do
  events (d.events.getD [])
  projections (d.projections.getD [])
  services (d.services.getD [])
  checkUsed

end Compile

/-- What a document says of itself, before its types are looked for. -/
def draft (d : Document) : Except Error Draft :=
  ((Compile.document d).run .empty).map Prod.snd

def undefinedTypes (sources : Source.Index) (types : List TypeRef) : List TypeRef :=
  types.filter fun r => sources.find r = []

def ambiguousTypes (sources : Source.Index) (types : List TypeRef) : List TypeRef :=
  types.filter fun r => 1 < (sources.find r).length

/-- Looks for the types of a draft in the sources. -/
def Draft.resolve (d : Draft) (raw : String) (sources : Source.Index) : Except Error Schema :=
  match undefinedTypes sources d.types, ambiguousTypes sources d.types with
  | [], [] => .ok {
      raw
      events := d.events
      types := d.types.zipIdx.flatMap fun (r, i) =>
        (sources.find r).map fun decl => ⟨⟨i⟩, r, decl⟩
      projections := d.projections
      services := d.services
      references := d.references }
  | [], ambiguous =>
      .error (.contradictory .root (.ambiguousTypes (ambiguous.map TypeRef.text)))
  | undefined, _ =>
      .error (.contradictory .root (.undefinedTypes (undefined.map TypeRef.text)))

end EventSourcing.Schema
