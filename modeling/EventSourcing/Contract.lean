import EventSourcing.Event.Basic
import EventSourcing.Schema.Basic

/-!
# Contract -- what a service may do while it runs

The contract of a service names the events that its projections need and, for each
method, the kind and the events that it may emit.  A set of events serves a contract if
it has every event of the schema.
-/

namespace EventSourcing

set_option autoImplicit false

namespace Contract

/-- What a method may do. -/
structure Method where
  name : String
  kind : EventSourcing.Method.Kind
  emits : List String
  deriving DecidableEq, Repr

/-- An event that a method emitted though it may not, with its place in the batch. -/
structure Undeclared where
  service : String
  method : String
  event : String
  index : Nat
  deriving DecidableEq, Repr

def Undeclared.message (u : Undeclared) : String :=
  u.service ++ "." ++ u.method ++ " is not allowed to emit event " ++ u.event ++
    " (index " ++ toString u.index ++ ")"

namespace Method

def mayEmit (m : Method) (event : String) : Bool :=
  m.emits.contains event

/-- The first event of a batch that the method may not emit; `index` is the place of the
first. -/
def undeclaredFrom? {E : Type} (m : Method) (set : EventSet E) (service : String) (index : Nat) :
    List E → Option Undeclared
  | [] => none
  | e :: rest =>
      if m.mayEmit (set.name e) then undeclaredFrom? m set service (index + 1) rest
      else some ⟨service, m.name, set.name e, index⟩

/-- The first event of a batch that the method may not emit. -/
def undeclared? {E : Type} (m : Method) (set : EventSet E) (service : String)
    (events : List E) : Option Undeclared :=
  m.undeclaredFrom? set service 0 events

end Method

/-- Why there is no contract. -/
inductive Defect where
  | unknownService (service : String)
  | uncoveredEvent (service event : String)
  deriving DecidableEq, Repr

def Defect.message : Defect → String
  | unknownService service => "service `" ++ service ++ "` is not declared in the schema"
  | uncoveredEvent service event =>
      "event set does not cover event `" ++ event ++ "` declared for service `" ++ service ++ "`"

end Contract

structure Contract where
  name : String
  /-- The events of the schema. -/
  events : List String
  /-- The events that the projections of the service need. -/
  subscriptions : List String
  methods : List Contract.Method
  deriving DecidableEq, Repr

namespace Contract

def ofService (schema : Schema) (service : Schema.Service) : Contract where
  name := service.name
  events := schema.events.map (·.name)
  subscriptions := schema.eventNames service.subscriptions
  methods := service.methods.map fun m => ⟨m.name, m.kind, schema.eventNames m.emits⟩

def ofSchema (schema : Schema) (service : String) : Except Defect Contract :=
  match schema.services.find? (·.name == service) with
  | some s => .ok (ofService schema s)
  | none => .error (.unknownService service)

def subscribesTo (c : Contract) (event : String) : Bool :=
  c.subscriptions.contains event

def method? (c : Contract) (name : String) : Option Method :=
  c.methods.find? (·.name == name)

/-- Whether a set has every event of the schema, or else the first one that it lacks. -/
def checkEventSet {E : Type} (c : Contract) (set : EventSet E) : Except Defect Unit :=
  match c.events.find? fun event => !set.hasMember event with
  | some event => .error (.uncoveredEvent c.name event)
  | none => .ok ()

end Contract

end EventSourcing
