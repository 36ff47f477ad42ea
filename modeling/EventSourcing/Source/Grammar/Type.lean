import EventSourcing.Source.Grammar.Basic

/-!
# Source.Grammar.Type -- paths, bounds and types

Paths with arguments, the bounds that a type may have to satisfy, types, and the generic
parameters of declarations with the conditions on them.
-/

namespace EventSourcing.Source.Grammar

set_option autoImplicit false

open Phrase

variable (g : Grammar)

/-! ## Arguments -/

/-- A constant as a generic argument: a literal, a name or a block. -/
def constArgument : Phrase Unit := do
  if ← sees Ahead.literal then
    literal
  else if ← sees Ahead.name then
    skip 1
  else
    inside .brace do
      g.innerAttributes
      g.statements

/-- The type after an arrow, if there is one; the result says whether it is in
parentheses. -/
def returnType (plus : Bool) : Phrase (Option TypeShape) := do
  if ← punct? "->" then
    return some (← g.type plus)
  return Option.none

/-- The argument list of a path in parentheses, with the type after its arrow. -/
def parenthesizedArguments : Phrase (Option TypeShape) := do
  let _ ← inside .parenthesis (listed (g.type true))
  g.returnType false

def seesParentheses (input : List Tree) : Bool :=
  Ahead.group .parenthesis input ||
    Ahead.punct "::" input && Ahead.group .parenthesis (input.drop 2)

/-! ## Lifetimes and bounds -/

def boundLifetimes : Phrase Unit := do
  word "for"
  punct "<"
  let _ ← separated (Ahead.punct ">") "," do
    let _ ← g.outerAttributes
    lifetime
  punct ">"

/-- Lifetimes that may be bound for what follows; the result says whether there are any. -/
def boundLifetimes? : Phrase Bool := do
  if ← sees (Ahead.word "for") then
    g.boundLifetimes
    return true
  return false

/-- One bound without the lifetimes and modifiers before it is a path, perhaps with an
argument list in parentheses. -/
def boundPath : Phrase Unit := do
  let p ← g.path
  if p.last.isEmpty then
    if ← sees seesParentheses then
      let _ ← punct? "::"
      let _ ← g.parenthesizedArguments

/-- A modifier that makes a bound one for constants. -/
def constModifier : Phrase Unit := do
  if ← accept (fun input => Ahead.punct "~" input && Ahead.word "const" (input.drop 1)) 2 then
    return ()
  if ← sees (Ahead.group .bracket) then
    inside .bracket (word "const")
  else
    let _ ← word? "const"

/-- A bound by a trait, outside of parentheses. -/
def traitBound (const : Bool) : Phrase Unit := do
  let bound ← g.boundLifetimes?
  if const then
    constModifier
  if ← punct? "?" then
    if !bound then
      let _ ← g.boundLifetimes?
  g.boundPath

/-- The lifetimes and names that an opaque type may capture. -/
def capture : Phrase Unit := do
  word "use"
  punct "<"
  let _ ← separated (Ahead.punct ">") "," do
    if ← sees Ahead.lifetime then
      lifetime
    else
      demand fun input => Ahead.name input || Ahead.word "Self" input
      skip 1
  punct ">"

/-- One bound.  The result says whether it is by a trait. -/
def bound (captures const : Bool) : Phrase Bool := do
  if ← sees Ahead.lifetime then
    lifetime
    return false
  if ← sees (Ahead.word "use") then
    if captures then
      capture
      return false
    fail
  if ← sees (Ahead.group .parenthesis) then
    inside .parenthesis (g.traitBound const)
  else
    g.traitBound const
  return true

def startsBound (input : List Tree) : Bool :=
  Ahead.anyWord input || Ahead.punct "::" input || Ahead.punct "?" input ||
    Ahead.lifetime input || Ahead.group .parenthesis input || Ahead.punct "~" input

/-- One or more bounds, of which one at least is by a trait; if not `plus`, exactly one. -/
def traitBounds (plus captures const : Bool) : Phrase Nat := do
  let first ← g.bound captures const
  if !plus then
    if first then
      return 1
    fail
  let others ← fun input => rest (input.length + 1) input
  if first || others.any id then
    return others.length + 1
  fail
where
  /-- The bounds after the first. -/
  rest : Nat → Phrase (List Bool)
    | 0 => fail
    | turns + 1 => do
        if !(← punct? "+") then
          return []
        if !(← sees startsBound) then
          return []
        let b ← g.bound captures const
        return b :: (← rest turns)

/-- Bounds with a plus between them, up to where a test succeeds. -/
def boundsUntil (stop : List Tree → Bool) : Phrase Unit := do
  let _ ← joined stop "+" (g.bound false true)

/-- Lifetimes with a plus between them, up to where a test succeeds. -/
def lifetimesUntil (stop : List Tree → Bool) : Phrase Unit := do
  let _ ← joined stop "+" lifetime

/-! ## Paths -/

/-- One argument between angle brackets.  A name may be set equal to an argument or be
bounded. -/
def genericArgument : Phrase Unit := do
  if ← sees fun input => Ahead.lifetime input && !Ahead.punct "+" (input.drop 1) then
    return ← lifetime
  if ← sees fun input => Ahead.literal input || Ahead.group .brace input then
    return ← g.constArgument
  if (← g.type true) = .path true then
    if ← punct? "=" then
      if ← sees fun input => Ahead.literal input || Ahead.group .brace input then
        return ← g.constArgument
      let _ ← g.type true
    else if ← punct? ":" then
      g.boundsUntil fun input => Ahead.punct "," input || Ahead.punct ">" input

/-- Arguments between angle brackets; the result says whether there are any. -/
def angleArguments : Phrase PathArguments := do
  punct "<"
  let args ← separated (Ahead.punct ">") "," g.genericArgument
  punct ">"
  return if args.isEmpty then .empty else .angle

/-- One segment of a path.  In an expression, arguments need two colons before them. -/
def segment (inExpr : Bool) : Phrase PathArguments := do
  if ← sees (Ahead.oneOf ["super", "self", "crate", "try"]) then
    skip 1
    return .none
  demand fun input => Ahead.name input || Ahead.word "Self" input
  skip 1
  let direct (input : List Tree) : Bool :=
    !inExpr && Ahead.punct "<" input && !Ahead.punct "<=" input
  if ← sees direct then
    return ← g.angleArguments
  if ← sees fun input => Ahead.punct "::" input && Ahead.punct "<" (input.drop 2) then
    punct "::"
    return ← g.angleArguments
  return .none

def furtherSegments (inExpr : Bool) : Nat → PathShape → Phrase PathShape
  | 0, _ => fail
  | turns + 1, shape => do
      if ← sees fun input =>
          Ahead.punct "::" input && !Ahead.group .parenthesis (input.drop 2) then
        punct "::"
        let last ← g.segment inExpr
        furtherSegments inExpr turns (shape.add last)
      else
        return shape

def furtherPath (inExpr : Bool) (shape : PathShape) : Phrase PathShape := fun input =>
  g.furtherSegments inExpr (input.length + 1) shape input

def pathRule (inExpr : Bool) : Phrase PathShape := do
  let rooted ← punct? "::"
  let last ← g.segment inExpr
  g.furtherPath inExpr (.first rooted last)

def qualifiedSegments (inExpr : Bool) : Nat → PathShape → Phrase PathShape
  | 0, _ => fail
  | turns + 1, shape => do
      let shape := shape.add (← g.segment inExpr)
      if ← punct? "::" then
        return ← qualifiedSegments inExpr turns shape
      return shape

/-- A path, which may begin with a type in angle brackets that it belongs to. -/
def qualifiedPath (inExpr : Bool) : Phrase PathShape := do
  if ← sees (Ahead.punct "<") then
    punct "<"
    let _ ← g.type true
    if ← word? "as" then
      let _ ← g.path
    punct ">"
    punct "::"
    return ← fun input => g.qualifiedSegments inExpr (input.length + 1) .qualifier input
  g.pathRule inExpr

/-! ## Types -/

def startsPath (input : List Tree) : Bool :=
  Ahead.name input || Ahead.oneOf ["super", "self", "Self", "crate"] input ||
    Ahead.punct "::" input || Ahead.punct "<" input

/-- The calling convention of a function, if one is given. -/
def convention? : Phrase Bool := do
  if ← word? "extern" then
    let _ ← accept Ahead.text 1
    return true
  return false

/-- Three points for further arguments, perhaps named and followed by a comma. -/
def furtherArguments : Phrase Unit := do
  if !(← sees (Ahead.punct "...")) then
    skip 1
    punct ":"
  punct "..."
  let _ ← punct? ","

def seesFurther (input : List Tree) : Bool :=
  Ahead.punct "..." input ||
    (Ahead.name input || Ahead.word "_" input) && Ahead.punct ":" (input.drop 1) &&
      Ahead.punct "..." (input.drop 2)

def functionTypeArgument (first : Bool) : Phrase Unit := do
  let isMutSelf (input : List Tree) : Bool :=
    first && Ahead.word "mut" input && Ahead.word "self" (input.drop 1)
  let mutSelf ← accept isMutSelf 1
  let isNamed (input : List Tree) : Bool :=
    (Ahead.name input || Ahead.word "_" input || first && Ahead.word "self" input) &&
      Ahead.punct ":" (input.drop 1) && !Ahead.punct "::" (input.drop 1)
  if ← sees isNamed then
    let hadSelf ← sees (Ahead.word "self")
    skip 2
    if first && !hadSelf && (← accept isMutSelf 2) then
      return ()
    let _ ← g.type true
  else if mutSelf then
    word "self"
  else
    let _ ← g.type true

def functionTypeArguments : Bool → Nat → Phrase Unit
  | _, 0 => fail
  | first, turns + 1 => do
      if ← atEnd then
        return ()
      let _ ← g.outerAttributes
      if ← sees seesFurther then
        return ← furtherArguments
      g.functionTypeArgument first
      if ← atEnd then
        return ()
      punct ","
      functionTypeArguments false turns

def functionType : Phrase Unit := do
  let _ ← g.boundLifetimes?
  let _ ← word? "unsafe"
  let _ ← convention?
  word "fn"
  inside .parenthesis fun input => g.functionTypeArguments true (input.length + 1) input
  let _ ← g.returnType false

/-- Bounds after the first, each after a plus. -/
def moreBounds : Phrase Nat := do
  let rest ← whileSeen (Ahead.punct "+") do
    punct "+"
    g.bound false false
  return rest.length

/-- The inside of a type in parentheses, and what it amounts to before it is known what
follows: none for a tuple or a bound with a question mark, which are complete. -/
inductive Inner where
  | tuple
  | bounds
  | maybe
  | single (shape : TypeShape)
  deriving DecidableEq

def innerType : Phrase Inner := do
  if ← atEnd then
    return .tuple
  if ← sees Ahead.lifetime then
    let _ ← g.traitBounds true false false
    return .bounds
  if ← sees (Ahead.punct "?") then
    g.traitBound false
    return .maybe
  let shape ← g.type true
  if ← sees (Ahead.punct ",") then
    punct ","
    let _ ← listed (g.type true)
    return .tuple
  return .single shape

/-- A type in parentheses, a tuple, or bounds of which the first is in parentheses. -/
def parenthesizedType (plus : Bool) : Phrase TypeShape := do
  match ← inside .parenthesis g.innerType with
  | .tuple => return .other
  | .bounds => return .parenthesized
  | .maybe => return .bounds ((← g.moreBounds) = 0)
  | .single shape =>
      let isBound :=
        match shape with
        | .path _ => true
        | .bounds single => single
        | _ => false
      if plus && isBound && (← sees (Ahead.punct "+")) then
        return .bounds ((← g.moreBounds) = 0)
      return .parenthesized

/-- The argument lists in parentheses after a path in a type, and the segments after
them. -/
def pathParentheses : Nat → PathShape → Phrase PathShape
  | 0, _ => fail
  | turns + 1, shape => do
      if !(shape.last.isEmpty && (← sees seesParentheses)) then
        return shape
      let _ ← punct? "::"
      let result ← g.parenthesizedArguments
      let shape := { shape with simple := false, last := .parentheses }
      if result = Option.none || result = some .parenthesized then
        pathParentheses turns (← g.furtherPath false shape)
      else
        pathParentheses turns shape

/-- A type that begins with a path; `bound` if lifetimes are bound for it. -/
def pathType (plus bound : Bool) : Phrase TypeShape := do
  let shape ← g.qualifiedPath false
  let shape ← fun input => g.pathParentheses (input.length + 1) shape input
  if shape.qualified then
    return .other
  if shape.simple && (← sees fun input => Ahead.punct "!" input && !Ahead.punct "!=" input) then
    punct "!"
    let _ ← macroArguments
    return .other
  if bound || plus && (← sees (Ahead.punct "+")) then
    if plus then
      let (trees, others) ← taken fun input => rest (input.length + 1) input
      return .bounds (others = 0 && trees.isEmpty)
    return .bounds true
  return .path (!shape.rooted && shape.count = 1 && shape.last ≠ .parentheses)
where
  /-- The number of bounds after the first. -/
  rest : Nat → Phrase Nat
    | 0 => fail
    | turns + 1 => do
        if !(← punct? "+") then
          return 0
        if !(← sees startsBound) then
          return 0
        let _ ← g.bound false false
        return (← rest turns) + 1

def typeRule (plus : Bool) : Phrase TypeShape := do
  let bound ← g.boundLifetimes?
  if bound then
    demand fun input =>
      Ahead.name input ||
        Ahead.oneOf ["fn", "unsafe", "extern", "super", "self", "Self", "crate"] input
  if ← sees (Ahead.group .parenthesis) then
    return ← g.parenthesizedType plus
  if ← sees (Ahead.oneOf ["fn", "unsafe", "extern"]) then
    g.functionType
    return .other
  if ← sees startsPath then
    return ← g.pathType plus bound
  if ← word? "dyn" then
    let _ ← punct? "*"
    let _ ← g.traitBounds plus false false
    return .other
  if ← sees (Ahead.group .bracket) then
    inside .bracket do
      let _ ← g.type true
      if ← punct? ";" then
        let _ ← g.expr true
    return .other
  if ← punct? "*" then
    if !(← word? "const") then
      word "mut"
    let _ ← g.type false
    return .other
  if ← punct? "&" then
    let _ ← accept Ahead.lifetime 1
    let _ ← word? "mut"
    let _ ← g.type false
    return .other
  if ← sees fun input => Ahead.punct "!" input && !Ahead.punct "=" input then
    punct "!"
    return .other
  if ← word? "impl" then
    let _ ← g.traitBounds plus true true
    return .other
  if ← word? "_" then
    return .other
  demand Ahead.lifetime
  let n ← g.traitBounds true false false
  return .bounds (n = 1)

/-! ## Generic parameters -/

/-- A rule's trees as text. -/
def written {α : Type} (p : Phrase α) : Phrase String := do
  let (trees, _) ← taken p
  return Tree.textOf trees

/-- What is written of bounds: a colon before them unless there are none. -/
def withColon (bounds : String) : String :=
  if bounds = "" then "" else ":" ++ bounds

def parameter : Phrase Parameter := do
  let attributes ← written g.outerAttributes
  let stop (input : List Tree) : Bool :=
    input.isEmpty || Ahead.punct "," input || Ahead.punct ">" input
  if ← sees Ahead.lifetime then
    let name ← written lifetime
    let bounds ← if ← punct? ":" then written (lifetimesUntil stop) else pure ""
    return ⟨true, name, attributes ++ name ++ withColon bounds, false⟩
  if ← sees Ahead.name then
    let name ← written (skip 1)
    let stop (input : List Tree) : Bool := stop input || Ahead.punct "=" input
    let bounds ← if ← punct? ":" then written (g.boundsUntil stop) else pure ""
    if ← punct? "=" then
      let _ ← g.type true
    return ⟨false, name, attributes ++ name ++ withColon bounds, false⟩
  if ← word? "const" then
    let (name, _) ← name
    punct ":"
    let type ← written (g.type true)
    if ← punct? "=" then
      g.constArgument
    return ⟨false, name, attributes ++ "const" ++ name ++ ":" ++ type, false⟩
  word "_"
  return ⟨false, "_", attributes ++ "_", false⟩

def parametersFrom : Nat → Phrase (List Parameter)
  | 0 => fail
  | turns + 1 => do
      if ← sees (Ahead.punct ">") then
        return []
      let p ← g.parameter
      if ← sees (Ahead.punct ">") then
        return [p]
      punct ","
      return { p with comma := true } :: (← parametersFrom turns)

/-- The generic parameters of a declaration, if it has any. -/
def parameters : Phrase (List Parameter) := do
  if !(← punct? "<") then
    return []
  let ps ← fun input => g.parametersFrom (input.length + 1) input
  punct ">"
  return ps

def endsConditions (input : List Tree) : Bool :=
  input.isEmpty || Ahead.group .brace input || Ahead.punct "," input || Ahead.punct ";" input ||
    Ahead.punct ":" input && !Ahead.punct "::" input || Ahead.punct "=" input

def condition : Phrase Unit := do
  if ← sees fun input => Ahead.lifetime input && Ahead.punct ":" (input.drop 1) then
    skip 2
    lifetimesUntil fun input =>
      input.isEmpty || Ahead.group .brace input || Ahead.punct "," input ||
        Ahead.punct ";" input || Ahead.punct ":" input || Ahead.punct "=" input
  else
    let _ ← g.boundLifetimes?
    let _ ← g.type true
    punct ":"
    g.boundsUntil endsConditions

/-- The conditions on generic parameters, as they are written; none if there is no place
for them, and empty if there is one without a condition. -/
def conditions : Phrase (Option String) := do
  if !(← word? "where") then
    return Option.none
  let (trees, _) ← taken (joined endsConditions "," g.condition)
  if trees.isEmpty then
    return some ""
  return some ("where" ++ Tree.textOf trees)

/-- Whether what follows are generic parameters and not a path with a qualifying type. -/
def seesParameters (input : List Tree) : Bool :=
  let after := input.drop 2
  Ahead.punct "<" input &&
    (Ahead.punct ">" (input.drop 1) || Ahead.punct "#" (input.drop 1) ||
      (Ahead.lifetime (input.drop 1) || Ahead.name (input.drop 1)) &&
        (Ahead.punct ":" after && !Ahead.punct "::" after || Ahead.punct "," after ||
          Ahead.punct ">" after || Ahead.punct "=" after) ||
      Ahead.word "const" (input.drop 1))

end EventSourcing.Source.Grammar
