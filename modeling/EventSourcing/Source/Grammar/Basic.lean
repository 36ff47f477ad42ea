import EventSourcing.Source.Phrase
import EventSourcing.Source.Item

/-!
# Source.Grammar -- the rules that refer to each other

Types, expressions, patterns, statements and items may all stand inside one another.
A `Grammar` holds a phrase for each of them; the rules of the next modules are written
over a given grammar for what stands inside, and `Source.Grammar.File` ties them
together level by level.
-/

namespace EventSourcing.Source

set_option autoImplicit false

/-- What matters about a type to what follows it. -/
inductive TypeShape where
  /-- A path without a qualifying type; `plain` if it is one segment without an argument
  list in parentheses. -/
  | path (plain : Bool)
  /-- Bounds without a keyword before them; `single` if it is one. -/
  | bounds (single : Bool)
  | parenthesized
  | other
  deriving DecidableEq

inductive PathArguments where
  | none
  /-- Angle brackets with nothing between them. -/
  | empty
  | angle
  | parentheses
  deriving DecidableEq

/-- Whether there is no argument, so that an argument list may still follow. -/
def PathArguments.isEmpty : PathArguments → Bool
  | none => true
  | empty => true
  | _ => false

structure PathShape where
  /-- Whether it belongs to a type in angle brackets before it. -/
  qualified : Bool
  /-- Whether it begins at the root. -/
  rooted : Bool
  /-- The number of its segments. -/
  count : Nat
  /-- Whether no segment has arguments. -/
  simple : Bool
  /-- The arguments of the last segment. -/
  last : PathArguments

namespace PathShape

/-- A path of one segment. -/
def first (rooted : Bool) (last : PathArguments) : PathShape :=
  ⟨false, rooted, 1, last = .none, last⟩

/-- A path of no segment after a qualifying type. -/
def qualifier : PathShape := ⟨true, false, 0, true, .none⟩

def add (shape : PathShape) (last : PathArguments) : PathShape :=
  { shape with count := shape.count + 1, simple := shape.simple && last = .none, last }

end PathShape

/-- What matters about an expression to what follows it. -/
inductive ExprShape where
  | range
  | comparison
  /-- An expression that ends with its block and needs no mark after it. -/
  | block
  /-- A macro call with braces. -/
  | macroBlock
  | other
  deriving DecidableEq

/-- How tightly operators bind, the loosest first. -/
inductive Precedence where
  | least
  | assign
  | range
  | or
  | and
  | compare
  | bitOr
  | bitXor
  | bitAnd
  | shift
  | sum
  | product
  | cast
  deriving DecidableEq

def Precedence.rank : Precedence → Nat
  | least => 0
  | assign => 1
  | range => 2
  | or => 3
  | and => 4
  | compare => 5
  | bitOr => 6
  | bitXor => 7
  | bitAnd => 8
  | shift => 9
  | sum => 10
  | product => 11
  | cast => 12

/-- A phrase for each kind of thing that may stand inside another. -/
structure Grammar where
  /-- A type, which may be a sum of bounds if `plus`. -/
  type (plus : Bool) : Phrase TypeShape
  /-- A path in a type. -/
  path : Phrase PathShape
  /-- An expression.  If `braces`, a path may begin a value in braces. -/
  expr (braces : Bool) : Phrase ExprShape
  /-- An expression in the place of a statement or of a case of a match. -/
  early : Phrase ExprShape
  /-- An expression without operators between operands. -/
  unary (braces : Bool) : Phrase ExprShape
  /-- What follows an expression in the place of a left operand: operators that bind at
  least as tightly as `bound`, with their right operands. -/
  operators (braces : Bool) (bound : Precedence) (left : ExprShape) : Phrase ExprShape
  /-- What follows an expression in the place of a right operand of an operator. -/
  rightOperand (braces : Bool) (operator : Precedence) (right : ExprShape) : Phrase ExprShape
  /-- Calls, fields and the like after an expression. -/
  trailers (of : ExprShape) : Phrase ExprShape
  /-- A pattern without alternatives.  The result says whether it is a range with an open
  end. -/
  pattern : Phrase Bool
  /-- The statements of a block. -/
  statements : Phrase Unit
  /-- An item. -/
  item : Phrase Item
  /-- The tree of names that a use declaration imports; `root` if a path in it may begin
  at the root. -/
  useTree (root : Bool) : Phrase Unit

namespace Grammar

open Phrase

def none : Grammar where
  type _ := fail
  path := fail
  expr _ := fail
  early := fail
  unary _ := fail
  operators _ _ _ := fail
  rightOperand _ _ _ := fail
  trailers _ := fail
  pattern := fail
  statements := fail
  item := fail
  useTree _ := fail

variable (g : Grammar)

/-! ## Paths without arguments -/

/-- Whether a word is ahead that a path may hold. -/
def startsSegment (input : List Tree) : Bool :=
  Ahead.name input || Ahead.oneOf ["super", "self", "Self", "crate"] input

def segmentsFrom : Nat → Phrase (List String)
  | 0 => fail
  | turns + 1 => do
      demand startsSegment
      let (segment, _) ← anyWord
      if ← punct? "::" then
        return segment :: (← segmentsFrom turns)
      return [segment]

/-- A path without arguments: whether it begins at the root, and its segments. -/
def simplePath : Phrase (Bool × List String) := do
  let rooted ← punct? "::"
  let segments ← fun input => segmentsFrom (input.length + 1) input
  return (rooted, segments)

def macroArguments : Phrase Delimiter := do
  let (d, _) ← anyGroup
  return d

/-- A macro call: its path, a mark and its arguments. -/
def macroCall : Phrase Delimiter := do
  let _ ← simplePath
  punct "!"
  macroArguments

/-! ## Attributes -/

def attributeBody : Phrase Attribute := do
  let (rooted, segments) ←
    if ← word? "unsafe" then pure (false, ["unsafe"]) else simplePath
  if ← sees Ahead.anyGroup then
    let (d, trees) ← anyGroup
    return ⟨rooted, segments, .arguments d trees⟩
  if ← punct? "=" then
    let (trees, _) ← taken value
    return ⟨rooted, segments, .value trees⟩
  return ⟨rooted, segments, .alone⟩
where
  /-- A literal alone, or an expression without an attribute of its own. -/
  value : Phrase Unit := do
    if ← sees fun input => (whole literal input).isSome then
      literal
    else if ← sees fun input => Ahead.punct "#" input && Ahead.group .bracket (input.drop 1) then
      fail
    else
      let _ ← g.expr true

/-- An attribute of what follows. -/
def outerAttribute : Phrase Attribute := do
  punct "#"
  inside .bracket g.attributeBody

/-- The attributes of what follows. -/
def outerAttributes : Phrase (List Attribute) :=
  whileSeen (Ahead.punct "#") g.outerAttribute

/-- The attributes of what they stand in. -/
def innerAttributes : Phrase Unit := do
  let _ ← whileSeen (fun input => Ahead.punct "#" input && Ahead.punct "!" (input.drop 1)) do
    punct "#"
    punct "!"
    inside .bracket g.attributeBody

/-! ## Visibility -/

def visibility : Phrase Bool := do
  if !(← word? "pub") then
    return false
  match ← sees restriction with
  | true =>
      let _ ← group .parenthesis
      return true
  | false =>
      if ← sees badRestriction then
        fail
      return true
where
  /-- The inside of a group in parentheses. -/
  content? : List Tree → Option (List Tree)
    | .group .parenthesis trees :: _ => some trees
    | _ => .none
  /-- Whether a restriction is ahead: one of three words alone, or a path after `in`. -/
  restriction (input : List Tree) : Bool :=
    match content? input with
    | some [.word _ w] => ["crate", "self", "super"].contains w
    | some (.word _ "in" :: path) => (whole simplePath path).isSome
    | _ => false
  /-- Whether a restriction is ahead that lacks a path. -/
  badRestriction (input : List Tree) : Bool :=
    match content? input with
    | some (.word _ "in" :: _) => true
    | _ => false

end Grammar

end EventSourcing.Source
