import EventSourcing.Event.Basic
import EventSourcing.Schema.Basic
import EventSourcing.Store.Basic

/-!
# Bench.View -- the projection of the bench

A view lists the events that were folded in and keeps a state for each instance of a
projection of a schema.  The rules say which events it refuses: those with certain
names, and those that the projection has no step for.
-/

namespace EventSourcing.Bench

set_option autoImplicit false

/-- What has been folded in. -/
structure View where
  /-- The events, each with the version after it. -/
  applied : List String
  /-- The states of the instances. -/
  states : List (String × String)

namespace View

def empty : View := ⟨[], []⟩

/-- Why an event is refused. -/
inductive Error where
  | rejected (event : String)
  | exists_ (id : String)
  | notFound (id : String)
  | noStep (id event state : String)
  | unencodable (error : EncodeError)

def Error.message : Error → String
  | rejected event => "rejected " ++ event
  | exists_ id => id ++ " already exists"
  | notFound id => id ++ " not found"
  | noStep id event state => id ++ " can't take " ++ event ++ " in state " ++ state
  | unencodable e => e.message

/-- Which steps the instances can take. -/
structure Machine where
  schema : Schema
  projection : Schema.Projection

/-- Which events a view refuses. -/
structure Rules where
  reject : List String
  machine : Option Machine

/-- The instance that a payload is about. -/
def instanceOf (payload : Json) : String :=
  match payload.get? "id" with
  | some (.str id) => id
  | _ => ""

def Machine.step (m : Machine) {E : Type} (set : EventSet E) (event : E) (v : View) :
    Except Error (String × String) :=
  match set.toPayload event with
  | .error e => .error (.unencodable e)
  | .ok payload =>
      let id := instanceOf payload
      let name := set.name event
      let event? := m.schema.eventId? name
      match v.states.lookup id with
      | none =>
          if event? = some m.projection.createOn then
            .ok (id, (m.projection.initialState?).getD "")
          else .error (.notFound id)
      | some state =>
          if event? = some m.projection.createOn then .error (.exists_ id)
          else
            match event?.bind (m.projection.nextState? · state) with
            | some next => .ok (id, next)
            | none => .error (.noStep id name state)

/-- Puts a state at the place of its instance, or at the end. -/
def putState (id state : String) : List (String × String) → List (String × String)
  | [] => [(id, state)]
  | (i, s) :: rest => if i = id then (id, state) :: rest else (i, s) :: putState id state rest

def apply {E : Type} (rules : Rules) (set : EventSet E) (version : Version) (event : E)
    (v : View) : Except Error Unit × View :=
  let name := set.name event
  if rules.reject.contains name then (.error (.rejected name), v)
  else
    let applied := v.applied ++ [version.text ++ " " ++ name]
    match rules.machine with
    | none => (.ok (), { v with applied })
    | some m =>
        match m.step set event v with
        | .error e => (.error e, v)
        | .ok (id, state) => (.ok (), ⟨applied, putState id state v.states⟩)

def folding {E : Type} (rules : Rules) (set : EventSet E) : Folding View E Error where
  apply version _ event v := v.apply rules set version event

/-- The refusal of the first event of a batch for which the view has no step, each taken
by itself. -/
def firstRefusal? {E : Type} (rules : Rules) (set : EventSet E) (events : List E) (v : View) :
    Option Error :=
  match rules.machine with
  | none => none
  | some m => events.findSome? fun e =>
      match m.step set e v with
      | .error refusal => some refusal
      | .ok _ => none

end View

end EventSourcing.Bench
