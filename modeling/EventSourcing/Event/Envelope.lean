import EventSourcing.Event.Basic
import EventSourcing.Json.Printer
import EventSourcing.Json.Reader

/-!
# Event.Envelope -- events as text

A stored event is an envelope: an object with the name of the event as its `type` and
the payload.  A batch of events is written as an array of envelopes, each of which is
read by itself.  An envelope is also read from an array that holds the name and then, if
there is one, the payload.
-/

namespace EventSourcing

set_option autoImplicit false

open EventSourcing.Text (Glyph)

/-- A written event. -/
structure Envelope where
  name : String
  payload : Json

namespace Envelope

/-- The envelope as a value, with its fields in the order in which they are written. -/
def json (e : Envelope) : Json :=
  .obj [("type", .str e.name), ("payload", e.payload)]

/-- What has been read of an envelope. -/
structure Fields where
  name : Option String
  payload : Option Json

/-- The value of one field, which must not have been read before.  The value of a field
that an envelope does not have only needs the shape of a value. -/
def field (known : Fields) (key : String) (input : List Glyph) : Option (Fields × List Glyph) :=
  let fuel := Json.fuelFor input
  if key = "type" then
    match known.name with
    | some _ => none
    | none => (Json.string (Json.skipBlanks input)).map fun (s, rest) =>
        ({ known with name := some s }, rest)
  else if key = "payload" then
    match known.payload with
    | some _ => none
    | none => (Json.value fuel (Json.depthLimit - 1) input).map fun (v, rest) =>
        ({ known with payload := some v }, rest)
  else (Json.skip fuel input).map fun rest => (known, rest)

/-- The fields of an envelope up to the closing brace; there is at least one.  The fuel
bounds their number. -/
def fields : Nat → Fields → List Glyph → Option (Fields × List Glyph)
  | 0, _, _ => none
  | fuel + 1, known, input => do
      let (key, rest) ← Json.string (Json.skipBlanks input)
      match Json.skipBlanks rest with
      | .char ':' :: rest => do
          let (known, rest) ← field known key rest
          match Json.skipBlanks rest with
          | .char ',' :: rest => fields fuel known rest
          | .char '\x7d' :: after => some (known, after)
          | _ => none
      | _ => none

/-- The envelope with the fields that have been read; a payload left out is null. -/
def ofFields? (known : Fields) : Option Envelope :=
  known.name.map fun name => ⟨name, known.payload.getD .null⟩

/-- The rest of an envelope in an array, after the opening bracket. -/
def itemsFrom (input : List Glyph) : Option (Envelope × List Glyph) := do
  let (name, rest) ← Json.string (Json.skipBlanks input)
  match Json.skipBlanks rest with
  | .char ']' :: after => some (⟨name, .null⟩, after)
  | .char ',' :: rest => do
      let (payload, rest) ← Json.value (Json.fuelFor rest) (Json.depthLimit - 1) rest
      match Json.skipBlanks rest with
      | .char ']' :: after => some (⟨name, payload⟩, after)
      | _ => none
  | _ => none

/-- An envelope at the start of the input. -/
def readFrom (input : List Glyph) : Option (Envelope × List Glyph) :=
  match Json.skipBlanks input with
  | .char '\x7b' :: rest =>
      match Json.skipBlanks rest with
      | .char '\x7d' :: _ => none
      | _ => do
          let (known, after) ← fields input.length ⟨none, none⟩ rest
          return (← ofFields? known, after)
  | .char '[' :: rest => itemsFrom rest
  | _ => none

/-- The one envelope of an input. -/
def read? (input : List Glyph) : Option Envelope := do
  let (e, rest) ← readFrom input
  if (Json.skipBlanks rest).isEmpty then some e else none

end Envelope

namespace EventSet

variable {E : Type}

def envelope (s : EventSet E) (event : E) : Except EncodeError Envelope :=
  (s.toPayload event).map (⟨s.name event, ·⟩)

def encodeJson (s : EventSet E) (events : List E) : Except EncodeError Json :=
  (events.mapM s.envelope).map fun es => .arr (es.map Envelope.json)

/-- A batch of events as text, or the first failure to write one. -/
def encode (s : EventSet E) (events : List E) : Except EncodeError String :=
  (s.encodeJson events).map Json.text

def decode (s : EventSet E) (input : List Glyph) : Except DecodeError E :=
  match Envelope.read? input with
  | some e => s.fromPayload e.name e.payload
  | none => .error .payload

def decodeText (s : EventSet E) (text : String) : Except DecodeError E :=
  s.decode (Glyph.ofString text)

end EventSet

end EventSourcing
