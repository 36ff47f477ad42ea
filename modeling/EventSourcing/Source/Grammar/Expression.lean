import EventSourcing.Source.Grammar.Pattern

/-!
# Source.Grammar.Expression -- expressions

Expressions are atoms, what may follow an atom, and operators by precedence.  Comparisons
do not chain, a range is no operand of a further operator, and a cast is not followed by
what may follow an atom.
-/

namespace EventSourcing.Source.Grammar

set_option autoImplicit false

open Phrase

variable (g : Grammar)

/-! ## Operators -/

/-- The operators between two operands, longer ones before their beginnings, with their
precedences. -/
def binaryOperators : List (String × Precedence) :=
  [("+=", .assign), ("-=", .assign), ("*=", .assign), ("/=", .assign), ("%=", .assign),
    ("^=", .assign), ("&=", .assign), ("|=", .assign), ("<<=", .assign), (">>=", .assign),
    ("&&", .and), ("||", .or), ("<<", .shift), (">>", .shift), ("==", .compare),
    ("<=", .compare), ("!=", .compare), (">=", .compare), ("+", .sum), ("-", .sum),
    ("*", .product), ("/", .product), ("%", .product), ("^", .bitXor), ("&", .bitAnd),
    ("|", .bitOr), ("<", .compare), (">", .compare)]

def operator? (input : List Tree) : Option (String × Precedence) :=
  binaryOperators.find? fun (p, _) => Ahead.punct p input

def seesAssignment (input : List Tree) : Bool :=
  Ahead.punct "=" input && !Ahead.punct "=>" input

/-- The precedence of what is ahead, the least if that is no operator. -/
def precedenceAhead (input : List Tree) : Precedence :=
  match operator? input with
  | some (_, p) => p
  | Option.none =>
      if seesAssignment input then .assign
      else if Ahead.punct ".." input then .range
      else if Ahead.word "as" input then .cast
      else .least

def seesDot (input : List Tree) : Bool :=
  Ahead.punct "." input && !Ahead.punct ".." input

/-- The operand after an operator, with the tighter operators after it. -/
def operandAfter (braces : Bool) (operator : Precedence) : Phrase ExprShape := do
  let right ← g.unary braces
  g.rightOperand braces operator right

/-- What follows a right operand: the operators that bind tighter than the one before
it, or assignments after an assignment. -/
def rightOperandRule (braces : Bool) (operator : Precedence) (right : ExprShape) :
    Phrase ExprShape := do
  let next ← fun input => some (precedenceAhead input, input)
  if operator.rank < next.rank || next = operator && operator = .assign then
    let (trees, shape) ← taken (g.operators braces next right)
    if trees.isEmpty then
      return shape
    g.rightOperand braces operator shape
  else
    return right

/-- Whether a range may end before what is ahead. -/
def endsRange (braces : Bool) (input : List Tree) : Bool :=
  input.isEmpty || Ahead.punct "," input || Ahead.punct ";" input || seesDot input ||
    Ahead.punct "?" input || Ahead.punct "=>" input ||
    !braces && Ahead.group .brace input ||
    ["=", "+", "/", "%", "^", ">", "<=", "!=", "-=", "*=", "&=", "|=", "<<="].any
      (Ahead.punct · input) ||
    Ahead.word "as" input

/-- The dots of a range and its end, if it has one. -/
def rangeEnd (braces : Bool) : Phrase ExprShape := do
  demand fun input => !Ahead.punct "..." input
  let closed ← sees (Ahead.punct "..=")
  punct (if closed then "..=" else "..")
  if closed || !(← sees (endsRange braces)) then
    let _ ← g.operandAfter braces .range
  return .range

/-- Whether something follows that may not follow a cast. -/
def followsCast (input : List Tree) : Bool :=
  seesDot input || Ahead.punct "?" input || Ahead.group .bracket input ||
    Ahead.group .parenthesis input

/-- What follows a left operand: operators that bind at least as tightly as `bound`. -/
def operatorsRule (braces : Bool) (bound : Precedence) (left : ExprShape) :
    Phrase ExprShape := do
  if left = .range then
    return left
  let operator ← fun input => some (operator? input, input)
  match operator with
  | some (text, p) =>
      if p.rank < bound.rank then
        return left
      if p = .compare && left = .comparison then
        fail
      punct text
      let _ ← g.operandAfter braces p
      g.operators braces bound (if p = .compare then .comparison else .other)
  | Option.none =>
      if bound.rank ≤ Precedence.assign.rank && (← sees seesAssignment) then
        punct "="
        let _ ← g.operandAfter braces .assign
        g.operators braces bound .other
      else if bound.rank ≤ Precedence.range.rank && (← sees (Ahead.punct "..")) then
        g.operators braces bound (← g.rangeEnd braces)
      else if ← sees (Ahead.word "as") then
        word "as"
        let _ ← g.type false
        demand fun input => !followsCast input
        g.operators braces bound .other
      else
        return left

/-! ## Blocks -/

def block : Phrase Unit :=
  inside .brace g.statements

/-- A block that may begin with attributes of its own. -/
def attributedBlock : Phrase Unit :=
  inside .brace do
    g.innerAttributes
    g.statements

/-- A condition with its block, and all that follows it in further cases. -/
def conditional : Nat → Phrase Unit
  | 0 => fail
  | turns + 1 => do
      word "if"
      let _ ← g.expr false
      g.block
      if ← word? "else" then
        if ← sees (Ahead.word "if") then
          conditional turns
        else
          g.block

/-- A case of a match: attributes, a pattern, perhaps a guard, and an expression. -/
def matchArm : Phrase Unit := do
  let _ ← g.outerAttributes
  let _ ← g.alternatives
  if ← word? "if" then
    let _ ← g.expr true
  punct "=>"
  let shape ← g.early
  if shape != .block && !(← atEnd) then
    punct ","
  else
    let _ ← punct? ","

/-- An expression that begins with a word for what its block does. -/
def blockExpr : Phrase Unit := do
  if ← sees (Ahead.word "if") then
    fun input => g.conditional (input.length + 1) input
  else if ← word? "while" then
    let _ ← g.expr false
    g.attributedBlock
  else if ← word? "for" then
    let _ ← g.alternatives
    word "in"
    let _ ← g.expr false
    g.attributedBlock
  else if ← word? "loop" then
    g.attributedBlock
  else if ← word? "match" then
    let _ ← g.expr false
    inside .brace do
      g.innerAttributes
      let _ ← toEnd g.matchArm
  else if ← word? "try" then
    g.block
  else if ← word? "unsafe" then
    g.attributedBlock
  else if ← word? "const" then
    g.attributedBlock
  else
    g.attributedBlock

/-- A loop or block after a label. -/
def labeled : Phrase Unit := do
  lifetime
  punct ":"
  demand fun input =>
    Ahead.oneOf ["while", "for", "loop"] input || Ahead.group .brace input
  g.blockExpr

/-! ## Atoms -/

def startsExpr (input : List Tree) : Bool :=
  let operator (p : String) (not : List String) : Bool :=
    Ahead.punct p input && !not.any (Ahead.punct · input)
  Ahead.anyWord input || Ahead.anyGroup input || Ahead.literal input ||
    operator "!" ["!="] || operator "-" ["-=", "->"] || operator "*" ["*="] ||
    operator "|" ["|="] || operator "&" ["&="] || operator ".." [] ||
    operator "<" ["<=", "<<="] || operator "::" [] || Ahead.lifetime input || operator "#" []

def closureArgument : Phrase Unit := do
  let _ ← g.outerAttributes
  let _ ← g.pattern
  if ← punct? ":" then
    let _ ← g.type true

def closure (braces : Bool) : Phrase Unit := do
  let _ ← g.boundLifetimes?
  let _ ← word? "const"
  let _ ← word? "static"
  let _ ← word? "async"
  let _ ← word? "move"
  punct "|"
  let _ ← separated (Ahead.punct "|") "," g.closureArgument
  punct "|"
  if ← punct? "->" then
    let _ ← g.type true
    g.block
  else
    let _ ← g.expr braces

/-- The name or position of a field; the result says whether it is a name. -/
def member : Phrase Bool := do
  if ← accept Ahead.name 1 then
    return true
  expect fieldPattern.isIndex 1
  return false

def fieldValue : Phrase Unit := do
  let _ ← g.outerAttributes
  let named ← member
  if !named || (← sees (Ahead.punct ":")) then
    punct ":"
    let _ ← g.expr true

/-- The fields between braces; the last may be two dots, for all others. -/
def fieldValues : Nat → Phrase Unit
  | 0 => fail
  | turns + 1 => do
      if ← atEnd then
        return ()
      if ← punct? ".." then
        if !(← atEnd) then
          let _ ← g.expr true
        return ()
      g.fieldValue
      if ← atEnd then
        return ()
      punct ","
      fieldValues turns

def pathExpr (braces : Bool) : Phrase ExprShape := do
  let shape ← g.qualifiedPath true
  if !shape.qualified && shape.simple &&
      (← sees fun input => Ahead.punct "!" input && !Ahead.punct "!=" input) then
    punct "!"
    let d ← macroArguments
    return if d = .brace then .macroBlock else .other
  if braces && (← sees (Ahead.group .brace)) then
    inside .brace fun input => g.fieldValues (input.length + 1) input
  return .other

/-- The inside of an array: its elements, or one of them and their number. -/
def elements : Phrase Unit := do
  if ← atEnd then
    return ()
  let _ ← g.expr true
  if ← punct? ";" then
    let _ ← g.expr true
  else if !(← atEnd) then
    punct ","
    let _ ← listed (g.expr true)

def startsClosure (input : List Tree) : Bool :=
  let after := input.drop 1
  Ahead.punct "|" input || Ahead.word "move" input || Ahead.word "static" input ||
    Ahead.word "for" input && seesParameters after ||
    Ahead.word "const" input && !Ahead.group .brace after ||
    Ahead.word "async" input && (Ahead.punct "|" after || Ahead.word "move" after)

/-- Whether a word is ahead that begins an expression with a block. -/
def startsBlockExpr (input : List Tree) : Bool :=
  Ahead.oneOf ["if", "while", "for", "loop", "match", "unsafe", "const"] input ||
    Ahead.group .brace input

/-- A result for what is left, if an expression may begin here. -/
def optionalValue (braces : Bool) : Phrase Unit := do
  if ← sees fun input => startsExpr input && (braces || !Ahead.group .brace input) then
    let _ ← g.expr true

/-- Leaves a loop or block, perhaps with a value. -/
def breakExpr (braces : Bool) : Phrase Unit := do
  word "break"
  if ← sees fun input => Ahead.lifetime input && Ahead.punct ":" (input.drop 1) then
    fail
  let _ ← accept Ahead.lifetime 1
  g.optionalValue braces

def atom (braces : Bool) : Phrase ExprShape := do
  if ← sees Ahead.literal then
    literal
    return .other
  if ← sees fun input => Ahead.word "async" input && (Ahead.group .brace (input.drop 1) ||
      Ahead.word "move" (input.drop 1) && Ahead.group .brace (input.drop 2)) then
    skip 1
    let _ ← word? "move"
    g.block
    return .other
  if ← sees fun input => Ahead.word "try" input && Ahead.group .brace (input.drop 1) then
    g.blockExpr
    return .block
  if ← sees startsClosure then
    g.closure braces
    return .other
  if ← sees fun input => Ahead.word "builtin" input && Ahead.punct "#" (input.drop 1) then
    skip 2
    let _ ← name
    let _ ← group .parenthesis
    return .other
  if ← sees fun input => startsPath input ||
      Ahead.word "try" input &&
        (Ahead.punct "!" (input.drop 1) || Ahead.punct "::" (input.drop 1)) then
    return ← g.pathExpr braces
  if ← sees (Ahead.group .parenthesis) then
    let _ ← inside .parenthesis (listed (g.expr true))
    return .other
  if ← sees (Ahead.word "break") then
    g.breakExpr braces
    return .other
  if ← word? "continue" then
    let _ ← accept Ahead.lifetime 1
    return .other
  if ← word? "return" then
    g.optionalValue true
    return .other
  if ← word? "become" then
    let _ ← g.expr true
    return .other
  if ← sees (Ahead.group .bracket) then
    inside .bracket g.elements
    return .other
  if ← word? "let" then
    let _ ← g.alternatives
    punct "="
    let left ← g.unary braces
    let _ ← g.operators braces .compare left
    return .other
  if ← word? "yield" then
    g.optionalValue true
    return .other
  if ← sees startsBlockExpr then
    g.blockExpr
    return .block
  if ← sees (Ahead.punct "..") then
    return ← g.rangeEnd braces
  if ← word? "_" then
    return .other
  g.labeled
  return .block

/-! ## What may follow an atom -/

def callArguments : Phrase Unit := do
  let _ ← inside .parenthesis (listed (g.expr true))

/-- The positions in a number with a point, such as the two in `pair.0.1`: whether it
ends with a point, which then goes before what follows. -/
def positions? (text : String) : Option Bool :=
  let cs := text.toList
  let trailing := cs.getLast? == some '.'
  let cs := if trailing then cs.dropLast else cs
  let isPosition (part : List Char) : Bool :=
    (part.head?.any Char.isDigit) && part.all fun c => c.isDigit || c == '_'
  if (cs.splitOn '.').all isPosition then some trailing else Option.none

/-- A field, method or result after a dot. -/
def afterDot : Phrase Unit := do
  if ← word? "await" then
    return ()
  let named ← member
  let turbofish ← if named then sees (Ahead.punct "::") else pure false
  if turbofish then
    punct "::"
    let _ ← g.angleArguments
    g.callArguments
  else if named && (← sees (Ahead.group .parenthesis)) then
    g.callArguments

/-- What may follow an atom, or an expression of which this is a part. -/
def trailersRule (shape : ExprShape) : Phrase ExprShape := do
  if ← sees (Ahead.group .parenthesis) then
    g.callArguments
    g.trailers .other
  else if shape != .range && (← sees seesDot) then
    punct "."
    match ← number? with
    | some true => g.afterDot
    | some false => pure ()
    | Option.none => g.afterDot
    g.trailers .other
  else if ← sees (Ahead.group .bracket) then
    let _ ← inside .bracket (g.expr true)
    g.trailers .other
  else if shape != .range && (← punct? "?") then
    g.trailers .other
  else
    return shape
where
  /-- A number with a point, if one is ahead: whether it ends with the point. -/
  number? : Phrase (Option Bool)
    | .literal .float text :: rest => (positions? text).map fun trailing => (some trailing, rest)
    | input => some (Option.none, input)

/-! ## Expressions -/

/-- An expression in the place of a statement or of a case of a match: one that ends with
its block is complete there, unless a dot or a question mark follows. -/
def earlyRule : Phrase ExprShape := do
  let _ ← g.outerAttributes
  let startsEarly (input : List Tree) : Bool :=
    let after := input.drop 1
    Ahead.oneOf ["if", "while", "loop", "match", "unsafe"] input ||
      Ahead.word "for" input && !seesParameters after ||
      (Ahead.word "try" input || Ahead.word "const" input) && Ahead.group .brace after ||
      Ahead.group .brace input
  let shape ←
    if ← sees startsEarly then do
      g.blockExpr
      pure .block
    else if ← sees Ahead.lifetime then do
      g.labeled
      pure .block
    else
      g.unary true
  if shape != .block then
    return ← g.operators true .least shape
  if ← sees fun input => seesDot input || Ahead.punct "?" input then
    let shape ← g.trailers shape
    return ← g.operators true .least shape
  return shape

/-- An expression without operators between operands. -/
def unaryRule (braces : Bool) : Phrase ExprShape := do
  let attributes ← g.outerAttributes
  if ← punct? "&" then
    let raw ← accept (fun input =>
      Ahead.word "raw" input && Ahead.oneOf ["mut", "const"] (input.drop 1)) 1
    let mutable ← word? "mut"
    if raw && !mutable then
      word "const"
    let _ ← g.unary braces
    return .other
  if ← sees fun input =>
      Ahead.punct "*" input || Ahead.punct "!" input || Ahead.punct "-" input then
    skip 1
    let _ ← g.unary braces
    return .other
  let shape ← g.atom braces
  let shape ← g.trailers shape
  if shape = .range && !attributes.isEmpty then
    fail
  return shape

def exprRule (braces : Bool) : Phrase ExprShape := do
  let left ← g.unary braces
  g.operators braces .least left

end EventSourcing.Source.Grammar
