import EventSourcing.Source.Grammar.Type
import EventSourcing.Source.Literal
import EventSourcing.Word

/-!
# Source.Grammar.Pattern -- patterns

Patterns and their parts.  A rule for a pattern says whether it is a range with an open
end, which may not stand between brackets without parentheses.
-/

namespace EventSourcing.Source.Grammar

set_option autoImplicit false

open Phrase

variable (g : Grammar)

def seesAlternative (input : List Tree) : Bool :=
  Ahead.punct "|" input && !Ahead.punct "||" input && !Ahead.punct "|=" input

/-- Patterns with bars between them, and perhaps before the first. -/
def alternatives : Phrase Bool := do
  let leading ← punct? "|"
  let isOpen ← g.pattern
  let others ← whileSeen seesAlternative do
    punct "|"
    g.pattern
  return isOpen && !leading && others.isEmpty

def rangeBound? : Phrase Bool := do
  let isMissing (input : List Tree) : Bool :=
    input.isEmpty || Ahead.punct "|" input || Ahead.punct "=" input ||
      Ahead.punct ":" input && !Ahead.punct "::" input || Ahead.punct "," input ||
      Ahead.punct ";" input || Ahead.word "if" input
  if ← sees isMissing then
    return false
  if ← sees Ahead.literal then
    literal
  else if ← sees startsPath then
    let _ ← g.qualifiedPath true
  else
    word "const"
    inside .brace do
      g.innerAttributes
      g.statements
  return true

/-- The dots of a range in a pattern and what follows them: whether the end is open.  Only
two dots may stand without an end. -/
def patternRange : Phrase Bool := do
  let closed ← sees fun input => Ahead.punct "..=" input || Ahead.punct "..." input
  punct (if closed then "..=" else "..") <|> punct "..."
  if ← g.rangeBound? then
    return false
  if closed then
    fail
  return true

/-- Patterns with commas between them, which take all that is left; for each of them
whether it is a range with an open end. -/
def patternList : Phrase (List Bool) :=
  listed g.alternatives

def fieldPattern : Phrase Unit := do
  let boxed ← word? "box"
  let reference ← word? "ref"
  let mutable ← word? "mut"
  if boxed || reference || mutable then
    let _ ← name
  else if ← sees Ahead.name then
    skip 1
    if ← punct? ":" then
      let _ ← g.alternatives
  else
    index
    punct ":"
    let _ ← g.alternatives
where
  /-- The position of a field. -/
  index : Phrase Unit := expect isIndex 1
  isIndex : List Tree → Bool
    | .literal .integer t :: _ => (wholeNumber? t).any (· < Word.size 32)
    | _ => false

def fieldPatterns : Nat → Phrase Unit
  | 0 => fail
  | turns + 1 => do
      if ← atEnd then
        return ()
      let _ ← g.outerAttributes
      if ← punct? ".." then
        return ()
      g.fieldPattern
      if ← atEnd then
        return ()
      punct ","
      fieldPatterns turns

def pathPattern : Phrase Bool := do
  let shape ← g.qualifiedPath true
  if !shape.qualified && shape.simple &&
      (← sees fun input => Ahead.punct "!" input && !Ahead.punct "!=" input) then
    punct "!"
    let _ ← macroArguments
    return false
  if ← sees (Ahead.group .brace) then
    inside .brace fun input => g.fieldPatterns (input.length + 1) input
    return false
  if ← sees (Ahead.group .parenthesis) then
    let _ ← inside .parenthesis g.patternList
    return false
  if ← sees (Ahead.punct "..") then
    return ← g.patternRange
  return false

/-- A name that is bound, perhaps to what a further pattern matches. -/
def bindingPattern : Phrase Unit := do
  let _ ← word? "ref"
  let _ ← word? "mut"
  if !(← word? "self") then
    let _ ← name
  if ← punct? "@" then
    let _ ← g.pattern

def startsPathPattern (input : List Tree) : Bool :=
  let after := input.drop 1
  Ahead.name input &&
      (Ahead.punct "::" after || Ahead.punct "!" after || Ahead.group .brace after ||
        Ahead.group .parenthesis after || Ahead.punct ".." after) ||
    Ahead.word "self" input && Ahead.punct "::" after ||
    Ahead.punct "::" input || Ahead.punct "<" input ||
    Ahead.oneOf ["Self", "super", "crate"] input

/-- A pattern without alternatives. -/
def patternRule : Phrase Bool := do
  if ← sees startsPathPattern then
    return ← g.pathPattern
  if ← word? "_" then
    return false
  if ← word? "box" then
    let _ ← g.pattern
    return false
  if ← sees fun input =>
      Ahead.punct "-" input || Ahead.literal input || Ahead.word "const" input then
    if !(← g.rangeBound?) then
      fail
    if ← sees (Ahead.punct "..") then
      return ← g.patternRange
    return false
  if ← sees fun input => Ahead.oneOf ["ref", "mut", "self"] input || Ahead.name input then
    g.bindingPattern
    return false
  if ← punct? "&" then
    let _ ← word? "mut"
    let _ ← g.pattern
    return false
  if ← sees (Ahead.group .parenthesis) then
    let _ ← inside .parenthesis g.patternList
    return false
  if ← sees (Ahead.group .bracket) then
    let items ← inside .bracket g.patternList
    if items.any id then
      fail
    return false
  demand fun input => Ahead.punct ".." input && !Ahead.punct "..." input
  let closed ← sees (Ahead.punct "..=")
  punct (if closed then "..=" else "..")
  if ← g.rangeBound? then
    return true
  if closed then
    fail
  return false

end EventSourcing.Source.Grammar
