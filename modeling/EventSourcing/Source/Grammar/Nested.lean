import EventSourcing.Source.Grammar.File

/-!
# Source.Grammar.Nested -- the inside of an attribute's arguments

The arguments of an attribute are often a list of literals and of items that look like
attributes themselves.
-/

namespace EventSourcing.Source

set_option autoImplicit false

/-- An item in the arguments of an attribute: a literal, or a path with what follows it. -/
inductive NestedItem where
  | literal
  | item (segments : List String) (form : AttributeForm)
  deriving Repr

namespace Grammar

open Phrase

variable (g : Grammar)

/-- The segments of the path of an item; any word may be one. -/
def itemSegments : Nat → Phrase (List String)
  | 0 => fail
  | turns + 1 => do
      let (segment, _) ← anyWord
      if ← punct? "::" then
        return segment :: (← itemSegments turns)
      return [segment]

def nestedItem : Phrase NestedItem := do
  let isLiteral (input : List Tree) : Bool :=
    Ahead.literal input && !(Ahead.anyWord input && Ahead.punct "=" (input.drop 1))
  if ← sees isLiteral then
    literal
    return .literal
  let _ ← punct? "::"
  let segments ← fun input => itemSegments (input.length + 1) input
  if ← sees Ahead.anyGroup then
    let (d, trees) ← anyGroup
    return .item segments (.arguments d trees)
  if ← punct? "=" then
    let (trees, _) ← taken (attributeBody.value g)
    return .item segments (.value trees)
  return .item segments .alone

end Grammar

/-- The items in the arguments of an attribute, if they are such a list. -/
def nestedItems? (trees : List Tree) : Option (List NestedItem) :=
  let g := Grammar.upTo (levelsFor trees)
  Phrase.whole (Phrase.listed g.nestedItem) trees

end EventSourcing.Source
