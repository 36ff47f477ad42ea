import EventSourcing.Double.Basic

/-!
# Json -- values of the data format

Numbers are either integers or floating point numbers, as they were written.  The
fields of an object are kept in the order of their names; `Json.insert` keeps that
order and lets the last of two fields with one name win.
-/

namespace EventSourcing

set_option autoImplicit false

/-- A value.  Integers that arise from reading lie between `-2 ^ 63` and `2 ^ 64 - 1`. -/
inductive Json where
  | null
  | bool (value : Bool)
  | int (value : Int)
  | float (value : Double)
  | str (value : String)
  | arr (items : List Json)
  | obj (fields : List (String × Json))
  deriving Repr, Inhabited

namespace Json

/-- Puts a field at its place among sorted fields, replacing one of the same name. -/
def insert (key : String) (value : Json) : List (String × Json) → List (String × Json)
  | [] => [(key, value)]
  | (k, v) :: rest =>
      if key < k then (key, value) :: (k, v) :: rest
      else if key = k then (key, value) :: rest
      else (k, v) :: insert key value rest

/-- The object with the given fields, of which the last wins where two share a name. -/
def object (fields : List (String × Json)) : Json :=
  .obj (fields.foldl (fun acc (k, v) => insert k v acc) [])

def get? : Json → String → Option Json
  | .obj fields, key => fields.lookup key
  | _, _ => none

end Json

end EventSourcing
