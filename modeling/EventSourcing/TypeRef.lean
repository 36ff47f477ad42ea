import EventSourcing.Name

/-!
# TypeRef -- references to types of the sources

A reference names a type and the modules that lead to it, written with dots:
`billing.line.Item`.  `TypeRef.parse` reads the text, `TypeRef.text` writes it.
-/

namespace EventSourcing

set_option autoImplicit false

/-- The modules that lead to a type, outermost first, and the type's name. -/
structure TypeRef where
  modules : List String
  name : String
  deriving DecidableEq, Repr

/-- Why a text is no type reference: the first segment that breaks its rule. -/
structure TypeRef.Defect where
  index : Nat
  segment : String
  reason : Name.Defect
  deriving DecidableEq, Repr

namespace TypeRef

def segments (text : String) : List String :=
  (text.toList.splitOn '.').map String.ofList

/-- Checks the segments from position `index` on; the last one names the type. -/
def checkFrom (index : Nat) : List String → Except Defect (List String × String)
  | [] => .error ⟨index, "", .empty⟩
  | [name] =>
      match Name.check .type name with
      | .ok () => .ok ([], name)
      | .error reason => .error ⟨index, name, reason⟩
  | segment :: rest =>
      match Name.check .module segment with
      | .ok () => (checkFrom (index + 1) rest).map fun (modules, name) => (segment :: modules, name)
      | .error reason => .error ⟨index, segment, reason⟩

def parse (text : String) : Except Defect TypeRef :=
  (checkFrom 0 (segments text)).map fun (modules, name) => ⟨modules, name⟩

def text (r : TypeRef) : String :=
  ".".intercalate (r.modules ++ [r.name])

def isQualified (r : TypeRef) : Bool :=
  !r.modules.isEmpty

def Defect.message (d : Defect) : String :=
  "segment " ++ toString d.index ++ " (" ++ Text.quoted d.segment ++ ") " ++ d.reason.message

end TypeRef

end EventSourcing
