import EventSourcing.Method
import EventSourcing.Source.Index

/-!
# Schema -- checked schemas

A schema has numbered events, projections, services and types; the number of each is its
position.  What refers to an event or a type does so by number, and every such place is
also recorded under that number, in the order in which the document names them.
-/

namespace EventSourcing

set_option autoImplicit false

namespace Schema

structure EventId where
  index : Nat
  deriving DecidableEq, Repr

structure ProjectionId where
  index : Nat
  deriving DecidableEq, Repr

structure ServiceId where
  index : Nat
  deriving DecidableEq, Repr

structure TypeId where
  index : Nat
  deriving DecidableEq, Repr

structure Property where
  name : String
  type : TypeId
  doc : List String
  deriving DecidableEq, Repr

structure Event where
  id : EventId
  name : String
  properties : List Property
  deriving DecidableEq, Repr

/-- A type that the schema refers to, with its declaration in the sources. -/
structure DeclaredType where
  id : TypeId
  reference : TypeRef
  declaration : Source.Declaration
  deriving DecidableEq, Repr

structure Transition where
  source : String
  target : String
  deriving DecidableEq, Repr

/-- A view of the events: the states of its instances, the event that creates one, and
the transitions on the events after that. -/
structure Projection where
  id : ProjectionId
  name : String
  states : List String
  properties : List Property
  createOn : EventId
  transitions : List (EventId × List Transition)
  deriving DecidableEq, Repr

structure Method where
  name : String
  kind : EventSourcing.Method.Kind
  input : Option TypeId
  output : Option TypeId
  emits : List EventId
  deriving DecidableEq, Repr

structure Service where
  id : ServiceId
  name : String
  projections : List ProjectionId
  methods : List Method
  subscriptions : List EventId
  deriving DecidableEq, Repr

/-- A place that names an event or a type. -/
inductive Place where
  | eventProperty (event : EventId) (property : String)
  | projectionProperty (projection : ProjectionId) (property : String)
  | createOn (projection : ProjectionId)
  | transition (projection : ProjectionId) (index : Nat)
  | emit (service : ServiceId) (method : String)
  | input (service : ServiceId) (method : String)
  | output (service : ServiceId) (method : String)
  deriving DecidableEq, Repr

/-- Records a place under a number.  Numbers before it for which nothing has been recorded
get no places. -/
def recordAt (slots : List (List Place)) (index : Nat) (place : Place) : List (List Place) :=
  (slots ++ List.replicate (index + 1 - slots.length) []).modify index (· ++ [place])

/-- The places that name events and those that name types, by the numbers of these. -/
structure References where
  events : List (List Place)
  types : List (List Place)
  deriving DecidableEq, Repr

namespace References

def empty : References := ⟨[], []⟩

def referEvent (r : References) (id : EventId) (place : Place) : References :=
  { r with events := recordAt r.events id.index place }

def referType (r : References) (id : TypeId) (place : Place) : References :=
  { r with types := recordAt r.types id.index place }

def eventPlaces (r : References) (id : EventId) : List Place :=
  (r.events[id.index]?).getD []

def typePlaces (r : References) (id : TypeId) : List Place :=
  (r.types[id.index]?).getD []

def isEventReferenced (r : References) (id : EventId) : Bool :=
  !(r.eventPlaces id).isEmpty

end References

namespace Projection

def initialState? (p : Projection) : Option String :=
  p.states.head?

def hasState (p : Projection) (state : String) : Bool :=
  p.states.contains state

def transitionsOn (p : Projection) (event : EventId) : List Transition :=
  (p.transitions.lookup event).getD []

/-- The state that an event leads to, if it is a step out of `source`. -/
def nextState? (p : Projection) (event : EventId) (source : String) : Option String :=
  ((p.transitionsOn event).find? (·.source == source)).map (·.target)

def triggers (p : Projection) : List EventId :=
  p.transitions.map Prod.fst

/-- The events that the projection needs. -/
def subscriptions (p : Projection) : List EventId :=
  p.createOn :: p.triggers

end Projection

namespace Service

def subscribesTo (s : Service) (event : EventId) : Bool :=
  s.subscriptions.contains event

def method? (s : Service) (name : String) : Option Method :=
  s.methods.find? (·.name == name)

end Service

def Method.mayEmit (m : Method) (event : EventId) : Bool :=
  m.emits.contains event

end Schema

/-- A checked schema, with the text that it was read from. -/
structure Schema where
  raw : String
  events : List Schema.Event
  types : List Schema.DeclaredType
  projections : List Schema.Projection
  services : List Schema.Service
  references : Schema.References
  deriving DecidableEq, Repr

namespace Schema

/-- The number of the first item with a property. -/
def position? {α : Type} (p : α → Bool) (items : List α) : Option Nat :=
  items.findIdx? p

def eventId? (s : Schema) (name : String) : Option EventId :=
  (position? (·.name == name) s.events).map EventId.mk

def projectionId? (s : Schema) (name : String) : Option ProjectionId :=
  (position? (·.name == name) s.projections).map ProjectionId.mk

def serviceId? (s : Schema) (name : String) : Option ServiceId :=
  (position? (·.name == name) s.services).map ServiceId.mk

def typeId? (s : Schema) (r : TypeRef) : Option TypeId :=
  (position? (·.reference == r) s.types).map TypeId.mk

def event? (s : Schema) (id : EventId) : Option Event := s.events[id.index]?

def projection? (s : Schema) (id : ProjectionId) : Option Projection := s.projections[id.index]?

def service? (s : Schema) (id : ServiceId) : Option Service := s.services[id.index]?

def type? (s : Schema) (id : TypeId) : Option DeclaredType := s.types[id.index]?

def eventReferrers (s : Schema) (id : EventId) : List Place :=
  s.references.eventPlaces id

def typeReferrers (s : Schema) (id : TypeId) : List Place :=
  s.references.typePlaces id

def eventNames (s : Schema) (ids : List EventId) : List String :=
  ids.filterMap fun id => (s.event? id).map (·.name)

end Schema

end EventSourcing
