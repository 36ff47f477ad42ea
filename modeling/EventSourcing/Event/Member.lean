import EventSourcing.Event.Basic

/-!
# Event.Member -- sets of events given by their members

A set with one member for each name: an event is a member together with a value of the
type that the member carries.  Rebuilding takes the first member of the name.
-/

namespace EventSourcing

set_option autoImplicit false

/-- A type of payloads, with its written form. -/
structure PayloadType where
  Carrier : Type
  encode : Carrier → Except EncodeError Json
  decode : Json → Option Carrier

/-- The payload of a member that carries nothing: an empty object when written, anything
when read. -/
def PayloadType.none : PayloadType where
  Carrier := Unit
  encode _ := .ok (.obj [])
  decode _ := some ()

structure Member where
  name : String
  payload : PayloadType

namespace Member

structure Event (members : List Member) where
  member : Fin members.length
  value : (members.get member).payload.Carrier

def eventSet (members : List Member) : EventSet (Event members) where
  names := members.map (·.name)
  name e := (members.get e.member).name
  toPayload e := (members.get e.member).payload.encode e.value
  fromPayload name payload :=
    match members.findFinIdx? (·.name == name) with
    | some i =>
        match (members.get i).payload.decode payload with
        | some value => .ok ⟨i, value⟩
        | Option.none => .error .payload
    | Option.none => .error (.unknownEvent name (members.map (·.name)))

end Member

end EventSourcing
