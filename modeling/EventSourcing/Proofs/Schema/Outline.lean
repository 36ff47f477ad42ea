import EventSourcing.Proofs.Document.Keyed
import EventSourcing.Schema.Compile

/-!
# Proofs.Schema.Outline -- what a document says, without a walk

Every event, projection and service of a document by itself: what it becomes when names are
replaced by numbers, and where it mentions events and types.  `Document.outline` puts these
together.  Numbers come from positions: those of names among all names of a kind, and those
of references among all references in the order of their first mention.
-/

namespace EventSourcing

set_option autoImplicit false

namespace Schema

open EventSourcing.Document (names)

/-! ## Mentions -/

/-- A place together with the event or the type that it names. -/
inductive Mention where
  | event (id : EventId) (place : Place)
  | type (reference : TypeRef) (place : Place)

/-- Takes down a mention.  A type gets its number when it is mentioned first. -/
def Draft.mention (d : Draft) : Mention → Draft
  | .event id place => { d with references := d.references.referEvent id place }
  | .type r place =>
      let types := if r ∈ d.types then d.types else d.types ++ [r]
      { d with types, references := d.references.referType ⟨types.idxOf r⟩ place }

def Draft.mentioned (d : Draft) (ms : List Mention) : Draft :=
  ms.foldl Draft.mention d

def Draft.addEvents (d : Draft) (nodes : List Event) : Draft :=
  { d with events := d.events ++ nodes }

def Draft.addProjections (d : Draft) (nodes : List Projection) : Draft :=
  { d with projections := d.projections ++ nodes }

def Draft.addServices (d : Draft) (nodes : List Service) : Draft :=
  { d with services := d.services ++ nodes }

def eventNumber (events : List String) (name : String) : EventId :=
  ⟨events.idxOf name⟩

def projectionNumber (projections : List String) (name : String) : ProjectionId :=
  ⟨projections.idxOf name⟩

def typeNumber (types : List TypeRef) (text : String) : TypeId :=
  ⟨types.findIdx fun r => (TypeRef.parse text).toOption = some r⟩

/-! ## Where events and types are mentioned -/

def referenceMentions (text : String) (place : Place) : List Mention :=
  match TypeRef.parse text with
  | .ok r => [.type r place]
  | .error _ => []

def propertyMentions (place : String → Place) (decls : Document.Named Document.Property) :
    List Mention :=
  decls.flatMap fun (key, p) => referenceMentions p.reference (place key)

def eventMentions (decl : Option (Document.Named Document.Property)) (i : Nat) : List Mention :=
  propertyMentions (.eventProperty ⟨i⟩) (decl.getD [])

/-- An event is mentioned once by each of the transitions on it. -/
def transitionMentions (events : List String) (i : Nat) (decls : Document.Named (List String)) :
    List Mention :=
  decls.flatMap fun (event, expressions) =>
    (List.range expressions.length).map fun k =>
      .event (eventNumber events event) (.transition ⟨i⟩ k)

def projectionMentions (events : List String) (decl : Document.Projection) (i : Nat) :
    List Mention :=
  propertyMentions (.projectionProperty ⟨i⟩) decl.propertyDecls ++
    .event (eventNumber events decl.createOn) (.createOn ⟨i⟩) ::
      transitionMentions events i decl.transitionDecls

def methodMentions (events : List String) (i : Nat) (key : String) (decl : Document.Method) :
    List Mention :=
  decl.input.toList.flatMap (referenceMentions · (.input ⟨i⟩ key)) ++
    decl.output.toList.flatMap (referenceMentions · (.output ⟨i⟩ key)) ++
    decl.emits.map fun e => .event (eventNumber events e) (.emit ⟨i⟩ key)

def serviceMentions (events : List String) (decl : Document.Service) (i : Nat) : List Mention :=
  decl.methodDecls.flatMap fun (key, m) => methodMentions events i key m

/-! ## What becomes of declarations -/

section Nodes

variable (events projections : List String) (types : List TypeRef)

def propertyNodes (decls : Document.Named Document.Property) : List Property :=
  decls.map fun (key, p) => ⟨key, typeNumber types p.reference, p.doc⟩

def eventNode (key : String) (decl : Option (Document.Named Document.Property)) (i : Nat) :
    Event :=
  ⟨⟨i⟩, key, propertyNodes types (decl.getD [])⟩

def transitionNodes (decls : Document.Named (List String)) : List (EventId × List Transition) :=
  decls.map fun (event, expressions) =>
    (eventNumber events event, expressions.filterMap Compile.transition?)

/-- The event of a projection on which there is no transition is left out. -/
def projectionNode (key : String) (decl : Document.Projection) (i : Nat) : Projection where
  id := ⟨i⟩
  name := key
  states := decl.states
  properties := propertyNodes types decl.propertyDecls
  createOn := eventNumber events decl.createOn
  transitions := (transitionNodes events decl.transitionDecls).filter fun t => !t.2.isEmpty

/-- The declared kind of a method, or else the one that goes with its events. -/
def methodKind (decl : Document.Method) : Method.Kind :=
  ((decl.kind.bind Method.Kind.parse?).getD
    (if decl.emits = [] then .readonly else .transaction))

def methodNode (key : String) (decl : Document.Method) : Method where
  name := key
  kind := methodKind decl
  input := decl.input.map (typeNumber types)
  output := decl.output.map (typeNumber types)
  emits := decl.emits.map (eventNumber events)

def neededEvents (compiled : List Projection) (ids : List ProjectionId) : List EventId :=
  ids.flatMap fun p => ((compiled[p.index]?).map (·.subscriptions)).getD []

def serviceNode (compiled : List Projection) (key : String) (decl : Document.Service) (i : Nat) :
    Service where
  id := ⟨i⟩
  name := key
  projections := decl.projections.map (projectionNumber projections)
  methods := decl.methodDecls.map fun (key, m) => methodNode events types key m
  subscriptions := Compile.firstSeen
    (neededEvents compiled (decl.projections.map (projectionNumber projections)))

end Nodes

end Schema

namespace Document

open EventSourcing.Schema

def mentionsOfEvents (d : Document) : List Mention :=
  d.eventDecls.zipIdx.flatMap fun e => eventMentions e.1.2 e.2

def mentionsOfProjections (d : Document) : List Mention :=
  d.projectionDecls.zipIdx.flatMap fun p => projectionMentions (names d.eventDecls) p.1.2 p.2

def mentionsOfServices (d : Document) : List Mention :=
  d.serviceDecls.zipIdx.flatMap fun s => serviceMentions (names d.eventDecls) s.1.2 s.2

/-- All mentions of a document, in the order in which it is walked. -/
def mentions (d : Document) : List Mention :=
  d.mentionsOfEvents ++ (d.mentionsOfProjections ++ d.mentionsOfServices)

def types (d : Document) : List TypeRef :=
  (Draft.empty.mentioned d.mentions).types

def eventNodes (d : Document) : List Schema.Event :=
  d.eventDecls.zipIdx.map fun e => eventNode d.types e.1.1 e.1.2 e.2

def projectionNodes (d : Document) : List Schema.Projection :=
  d.projectionDecls.zipIdx.map fun p =>
    projectionNode (names d.eventDecls) d.types p.1.1 p.1.2 p.2

def serviceNodes (d : Document) : List Schema.Service :=
  d.serviceDecls.zipIdx.map fun s =>
    serviceNode (names d.eventDecls) (names d.projectionDecls) d.types d.projectionNodes s.1.1
      s.1.2 s.2

/-- What a document without violations says. -/
def outline (d : Document) : Draft :=
  (((Draft.empty.mentioned d.mentions).addEvents d.eventNodes).addProjections
    d.projectionNodes).addServices d.serviceNodes

end Document

end EventSourcing
