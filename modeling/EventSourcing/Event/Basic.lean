import EventSourcing.Json.Basic
import EventSourcing.Text.Quoted

/-!
# Event.Basic -- closed sets of events

An event has a name and a payload.  A set of events knows the names of its members, how
to write the payload of a member, and how to rebuild a member from its name and payload.
-/

namespace EventSourcing

set_option autoImplicit false

structure EncodeError where
  message : String
  deriving DecidableEq, Repr

/-- Why a stored event cannot be rebuilt. -/
inductive DecodeError where
  /-- No member has this name. -/
  | unknownEvent (name : String) (expected : List String)
  /-- The stored text is no event, or its payload does not fit the member. -/
  | payload
  deriving DecidableEq, Repr

namespace DecodeError

/-- What is said of an event that cannot be rebuilt, where the wording is ours. -/
def message? : DecodeError → Option String
  | unknownEvent name expected =>
      some ("unknown event `" ++ name ++ "`, expected one of " ++ Text.quotedList expected)
  | payload => none

end DecodeError

/-- A closed set of events. -/
structure EventSet (E : Type) where
  /-- The names of the members, as a schema declares them. -/
  names : List String
  name : E → String
  /-- The payload of an event, without its name. -/
  toPayload : E → Except EncodeError Json
  /-- The event with a name and a payload. -/
  fromPayload : String → Json → Except DecodeError E

namespace EventSet

variable {E : Type}

def hasMember (s : EventSet E) (name : String) : Bool :=
  s.names.contains name

end EventSet

end EventSourcing
