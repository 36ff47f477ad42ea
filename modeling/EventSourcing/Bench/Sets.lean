import EventSourcing.Event.Member
import EventSourcing.Word

/-!
# Bench.Sets -- the event sets of the bench

Four small sets of events whose payloads are records, texts, free values or nothing.
A record is read from an object or from an array that holds its fields in order.
-/

namespace EventSourcing.Bench

set_option autoImplicit false

/-! ## Records -/

/-- A field of a record: its name, and whether an array may end before it. -/
structure RecordField where
  name : String
  required : Bool

/-- The values of the fields of a record, absent where the record leaves one out.  A
strict record refuses fields that it does not have. -/
def recordValues (fields : List RecordField) (strict : Bool) : Json → Option (List (Option Json))
  | .obj given =>
      let unknown := given.any fun g => fields.all (·.name != g.1)
      if strict && unknown then none
      else some (fields.map fun f => given.lookup f.name)
  | .arr items =>
      let least := (fields.takeWhile (·.required)).length
      if least ≤ items.length ∧ items.length ≤ fields.length then
        some ((List.range fields.length).map (items[·]?))
      else none
  | _ => none

def text? : Option Json → Option String
  | some (.str s) => some s
  | _ => none

/-! ## Payloads -/

structure Order where
  id : String

def orderPayload : PayloadType where
  Carrier := Order
  encode o := .ok (.object [("id", .str o.id)])
  decode v := do
    match ← recordValues [⟨"id", true⟩] false v with
    | [id] => return ⟨← text? id⟩
    | _ => none

structure Opening where
  title : String
  priority : Option Nat

def priority? : Option Json → Option (Option Nat)
  | none => some none
  | some .null => some none
  | some (.int (.ofNat n)) => if n ≤ 255 then some (some n) else none
  | _ => none

def openingPayload : PayloadType where
  Carrier := Opening
  encode o :=
    let priority := match o.priority with
      | some n => Json.int n
      | none => .null
    .ok (.object [("title", .str o.title), ("priority", priority)])
  decode v := do
    match ← recordValues [⟨"title", true⟩, ⟨"priority", false⟩] false v with
    | [title, priority] => return ⟨← text? title, ← priority? priority⟩
    | _ => none

/-- A note.  One text cannot be written. -/
def notePayload : PayloadType where
  Carrier := String
  encode s := if s = "unencodable" then .error ⟨"note can't be encoded"⟩ else .ok (.str s)
  decode
    | .str s => some s
    | _ => none

structure Score where
  points : Int

def scorePayload : PayloadType where
  Carrier := Score
  encode s := .ok (.object [("points", .int s.points)])
  decode v := do
    match ← recordValues [⟨"points", true⟩] true v with
    | [some (.int n)] => if n < Word.size 63 then return ⟨n⟩ else none
    | _ => none

def freePayload : PayloadType where
  Carrier := Json
  encode := .ok
  decode := some

/-! ## Sets -/

def orders : List Member :=
  [⟨"OrderCreated", orderPayload⟩, ⟨"OrderShipped", orderPayload⟩, ⟨"OrderCanceled", orderPayload⟩]

def creations : List Member :=
  [⟨"OrderCreated", orderPayload⟩]

def tickets : List Member :=
  [⟨"Opened", openingPayload⟩, ⟨"Closed", .none⟩, ⟨"Noted", notePayload⟩, ⟨"Scored", scorePayload⟩]

def free : List Member :=
  [⟨"E1", freePayload⟩, ⟨"E2", freePayload⟩, ⟨"E3", freePayload⟩, ⟨"E4", .none⟩]

def members? (name : String) : Option (List Member) :=
  if name = "orders" then some orders
  else if name = "creations" then some creations
  else if name = "tickets" then some tickets
  else if name = "free" then some free
  else none

end EventSourcing.Bench
