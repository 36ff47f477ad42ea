/-!
# NodePath -- places in a schema document

A place in a document is the list of keys and positions that lead to it from the
root.  It is written with dots between the segments; the root is written `<schema>`.
-/

namespace EventSourcing

set_option autoImplicit false

/-- The keys and positions that lead from the root of a document to one of its nodes. -/
structure NodePath where
  segments : List String
  deriving DecidableEq, Repr

namespace NodePath

def root : NodePath := ⟨[]⟩

/-- The place below `p` at a key. -/
def child (p : NodePath) (key : String) : NodePath :=
  ⟨p.segments ++ [key]⟩

/-- The place below `p` at a position of a list. -/
def item (p : NodePath) (index : Nat) : NodePath :=
  p.child (toString index)

def isRoot (p : NodePath) : Bool :=
  p.segments.isEmpty

def text (p : NodePath) : String :=
  if p.isRoot then "<schema>" else ".".intercalate p.segments

/-- Whether the segments begin with the pieces of `start` between its dots. -/
def startsWith (p : NodePath) (start : String) : Bool :=
  ((start.toList.splitOn '.').map String.ofList).isPrefixOf p.segments

@[simp] theorem segments_child (p : NodePath) (key : String) :
    (p.child key).segments = p.segments ++ [key] := rfl

end NodePath

end EventSourcing
