import EventSourcing.Source.Grammar.Item
import EventSourcing.Source.Lexer

/-!
# Source.Grammar.File -- whole files and declarations

Ties the rules together: at each level, what stands inside of something is a phrase of
the level below.  A rule calls another one for what stands inside only after it has taken
a tree or a few rules have been called, so a few levels for each tree are enough.
-/

namespace EventSourcing.Source

set_option autoImplicit false

namespace Grammar

open Phrase

/-- The grammar around a grammar for what stands inside. -/
def around (g : Grammar) : Grammar where
  type := g.typeRule
  path := g.pathRule false
  expr := g.exprRule
  early := g.earlyRule
  unary := g.unaryRule
  operators := g.operatorsRule
  rightOperand := g.rightOperandRule
  trailers := g.trailersRule
  pattern := g.patternRule
  statements := g.statementsRule
  item := g.itemRule
  useTree := g.useTreeRule

/-- The grammar in which phrases nest less than `levels` deep. -/
def upTo : Nat → Grammar
  | 0 => none
  | levels + 1 => (upTo levels).around

end Grammar

mutual

def Tree.size : Tree → Nat
  | .group _ trees => Tree.sizes trees + 1
  | _ => 1

def Tree.sizes : List Tree → Nat
  | [] => 0
  | t :: rest => t.size + Tree.sizes rest

end

def levelsFor (trees : List Tree) : Nat :=
  4 * Tree.sizes trees + 8

def items? (trees : List Tree) : Option (List Item) :=
  let g := Grammar.upTo (levelsFor trees)
  Phrase.whole (do g.innerAttributes; Phrase.toEnd g.item) trees

/-- The one type that a text declares, with all its parts. -/
def typeDeclaration? (text : String) : Option TypeDeclaration := do
  let trees ← trees? text.toList
  let g := Grammar.upTo (levelsFor trees)
  let phrase : Phrase TypeDeclaration := do
    let attributes ← g.outerAttributes
    let _ ← Grammar.visibility
    let (_, _, declaration) ← g.typeDeclaration attributes
    return declaration
  Phrase.whole phrase trees

/-- A file without a first line that names its interpreter.  The end of that line is
kept.  A line that goes on as an attribute is no such line. -/
def withoutInterpreter (input : List Char) : List Char :=
  match input with
  | '#' :: '!' :: rest =>
      match afterSpace (rest.length + 1) rest with
      | '[' :: _ => input
      | _ => input.dropWhile (· != '\n')
  | _ => input
where
  /-- What follows white space and plain comments. -/
  afterSpace : Nat → List Char → List Char
    | 0, input => input
    | turns + 1, input =>
        match skipLength input with
        | 0 => input
        | n => afterSpace turns (input.drop n)

/-- The items of a file; none if it is malformed. -/
def fileItems? (content : String) : Option (List Item) := do
  items? (← trees? (withoutInterpreter (withoutMark content.toList)))

end EventSourcing.Source
