import EventSourcing.Text.Quoted

/-!
# Name -- the naming rules of a schema

Three rules say how the things of a schema may be called.  Events, projections,
states, services, methods and types begin with an upper case letter; properties and
modules with a lower case one.  A rule is a class for the first character and a class
for the others, so a rejected name has a first thing wrong with it (`Name.Defect`).
Only ASCII letters count.
-/

namespace EventSourcing.Name

set_option autoImplicit false

/-- What a name is for, which fixes its alphabet. -/
inductive Rule where
  /-- Events, projections, states, services, methods and types. -/
  | type
  /-- Properties of events and projections. -/
  | property
  /-- Modules that a type reference goes through. -/
  | module
  deriving DecidableEq, Repr

/-- Why a text is no name. -/
inductive Defect where
  | empty
  | mustBeginWithUpperLatin
  | mustBeginWithLowerLatin
  /-- A character outside the alphabet, with its position in bytes of UTF-8. -/
  | illegalCharacter (character : Char) (index : Nat)
  deriving DecidableEq, Repr

def isWordChar (c : Char) : Bool :=
  c.isAlphanum || c == '_'

def isLowerWordChar (c : Char) : Bool :=
  c.isLower || c.isDigit || c == '_'

namespace Rule

def isFirst : Rule → Char → Bool
  | .type => Char.isUpper
  | .property => Char.isLower
  | .module => Char.isLower

def isNext : Rule → Char → Bool
  | .type => isWordChar
  | .property => isWordChar
  | .module => isLowerWordChar

/-- What is wrong with a name that begins with a character of another class. -/
def firstDefect : Rule → Defect
  | .type => .mustBeginWithUpperLatin
  | .property => .mustBeginWithLowerLatin
  | .module => .mustBeginWithLowerLatin

end Rule

/-- Looks for the first character that may not follow; `index` is its position in
bytes. -/
def checkRest (rule : Rule) (index : Nat) : List Char → Except Defect Unit
  | [] => .ok ()
  | c :: rest =>
      if rule.isNext c then checkRest rule (index + c.utf8Size) rest
      else .error (.illegalCharacter c index)

/-- Accepts the names that follow `rule`, and says what is wrong with any other text. -/
def check (rule : Rule) (name : String) : Except Defect Unit :=
  match name.toList with
  | [] => .error .empty
  | c :: rest =>
      if rule.isFirst c then checkRest rule c.utf8Size rest else .error rule.firstDefect

def Defect.message : Defect → String
  | .empty => "empty"
  | .mustBeginWithUpperLatin => "must begin with an upper case latin character"
  | .mustBeginWithLowerLatin => "must begin with a lower case latin character"
  | .illegalCharacter c index =>
      "contains illegal character " ++ Text.quotedChar c ++ " at index " ++ toString index

end EventSourcing.Name
