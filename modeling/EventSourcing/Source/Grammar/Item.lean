import EventSourcing.Source.Grammar.Expression

/-!
# Source.Grammar.Item -- items and statements

Items of files, modules, traits, implementations and foreign blocks, and the statements
of blocks.  Type declarations are kept with all their parts; of the other items only
modules are kept, for what they hold.
-/

namespace EventSourcing.Source.Grammar

set_option autoImplicit false

open Phrase

variable (g : Grammar)

/-! ## Functions -/

/-- Whether the function word is ahead, after the words that may stand before it. -/
def seesFunction (safe : Bool) (input : List Tree) : Bool :=
  let drop (w : String) (input : List Tree) : List Tree :=
    if Ahead.word w input then input.drop 1 else input
  let input := drop "async" (drop "const" input)
  let input :=
    if safe && Ahead.word "safe" input then input.drop 1 else drop "unsafe" input
  let input :=
    if Ahead.word "extern" input then
      if Ahead.text (input.drop 1) then input.drop 2 else input.drop 1
    else input
  Ahead.word "fn" input

/-- The argument of a method for the value it belongs to. -/
def receiver : Phrase Unit := do
  let reference ← punct? "&"
  if reference then
    let _ ← accept Ahead.lifetime 1
  let _ ← word? "mut"
  word "self"
  if !reference && (← punct? ":") then
    let _ ← g.type true

inductive Argument where
  | receiver
  | typed
  | further
  deriving DecidableEq

def argument : Phrase Argument := do
  if ← punct? "..." then
    return .further
  if ← matching g.receiver then
    g.receiver
    return .receiver
  if ← sees fun input => Ahead.name input && Ahead.punct "<" (input.drop 1) then
    let _ ← g.type true
    return .typed
  let _ ← g.pattern
  punct ":"
  if ← punct? "..." then
    return .further
  let _ ← g.type true
  return .typed

/-- The arguments of a function.  Only the first may be a receiver, and only the last may
stand for further ones. -/
def arguments : Bool → Nat → Phrase Unit
  | _, 0 => fail
  | first, turns + 1 => do
      if ← atEnd then
        return ()
      let _ ← g.outerAttributes
      let a ← g.argument
      if a = .receiver && !first then
        fail
      if !(← atEnd) then
        punct ","
        if a != .further then
          arguments false turns

/-- A function without its body. -/
def signature (safe : Bool) : Phrase Unit := do
  let _ ← word? "const"
  let _ ← word? "async"
  if !(safe && (← word? "safe")) then
    let _ ← word? "unsafe"
  let _ ← convention?
  word "fn"
  let _ ← name
  let _ ← g.parameters
  inside .parenthesis fun input => g.arguments true (input.length + 1) input
  let _ ← g.returnType true
  let _ ← g.conditions

/-- The end of a function: its body, or a mark that it has none. -/
def bodyOrMark : Phrase Unit := do
  if !(← punct? ";") then
    g.attributedBlock

/-! ## Constants and names for types -/

/-- The name of a constant, its parameters, type and value. -/
def constant : Phrase Unit := do
  word "const"
  demand fun input => Ahead.name input || Ahead.word "_" input
  skip 1
  let _ ← g.parameters
  punct ":"
  let _ ← g.type true
  if ← punct? "=" then
    let _ ← g.expr true
  let _ ← g.conditions
  punct ";"

/-- Where conditions may stand in a name for a type. -/
inductive ConditionPlace where
  | before
  | after
  | both
  deriving DecidableEq

/-- A name for a type: the name with its place, and whether it stands for a type without
being bounded. -/
def typeName (place : ConditionPlace) : Phrase ((String × Position) × Bool) := do
  word "type"
  let name ← name
  let _ ← g.parameters
  let bounded ← punct? ":"
  if bounded then
    let stop (input : List Tree) : Bool :=
      Ahead.word "where" input || Ahead.punct "=" input || Ahead.punct ";" input
    let _ ← separated stop "+" (g.bound false true)
  let conditioned ←
    if place != .after then do
      let c ← g.conditions
      pure c.isSome
    else
      pure false
  let defined ← punct? "="
  if defined then
    let _ ← g.type true
  if place != .before && !conditioned then
    let _ ← g.conditions
  punct ";"
  return (name, defined && !bounded)

/-! ## Type declarations -/

def namedField : Phrase Unit := do
  let _ ← g.outerAttributes
  let _ ← visibility
  let unnamed ← word? "_"
  if !unnamed then
    let _ ← name
  punct ":"
  if unnamed && (← sees fun input => Ahead.word "struct" input ||
      Ahead.word "union" input && Ahead.group .brace (input.drop 1)) then
    skip 1
    let fields ← group .brace
    match whole (listed nested) fields with
    | some _ => return ()
    | Option.none => fail
  else
    let _ ← g.type true
where
  /-- A field of a type inside of a field. -/
  nested : Phrase Unit := do
    let _ ← g.outerAttributes
    let _ ← visibility
    let _ ← name
    punct ":"
    let _ ← g.type true

def namedFields : Phrase Unit := do
  let _ ← inside .brace (listed g.namedField)

/-- Fields without names: the trees of their types. -/
def tupleFields : Phrase (List (List Tree)) :=
  inside .parenthesis <| listed do
    let _ ← g.outerAttributes
    let _ ← visibility
    let (trees, _) ← taken (g.type true)
    return trees

def variant : Phrase Variant := do
  let attributes ← g.outerAttributes
  let _ ← visibility
  let (name, _) ← name
  let fields ←
    if ← sees (Ahead.group .brace) then do
      g.namedFields
      pure Fields.named
    else if ← sees (Ahead.group .parenthesis) then
      pure (Fields.tuple (← g.tupleFields))
    else
      pure Fields.unit
  if ← punct? "=" then
    let _ ← g.expr true
  return ⟨attributes, name, fields⟩

def structRest : Phrase (Option String) := do
  let conditions ← g.conditions
  if conditions.isNone && (← sees (Ahead.group .parenthesis)) then
    let _ ← g.tupleFields
    let conditions ← g.conditions
    punct ";"
    return conditions
  if ← sees (Ahead.group .brace) then
    g.namedFields
    return conditions
  punct ";"
  return conditions

/-- The word, name and rest of a type declaration after its attributes and visibility: its
kind, the place of its name, and the declaration. -/
def typeDeclaration (attributes : List Attribute) :
    Phrase (DeclarationKind × Position × TypeDeclaration) := do
  if ← word? "struct" then
    let (name, place) ← name
    let parameters ← g.parameters
    let conditions ← g.structRest
    return (.struct, place, ⟨attributes, name, ⟨parameters, conditions⟩, .struct⟩)
  if ← word? "enum" then
    let (name, place) ← name
    let parameters ← g.parameters
    let conditions ← g.conditions
    let variants ← inside .brace (listed g.variant)
    return (.enum, place, ⟨attributes, name, ⟨parameters, conditions⟩, .enum variants⟩)
  word "union"
  let (name, place) ← name
  let parameters ← g.parameters
  let conditions ← g.conditions
  g.namedFields
  return (.union, place, ⟨attributes, name, ⟨parameters, conditions⟩, .union⟩)

/-! ## Traits and implementations -/

/-- A macro call in the place of an item, with a mark after it unless it has braces. -/
def macroItem : Phrase Unit := do
  if (← macroCall) != .brace then
    punct ";"

def startsMacroItem (input : List Tree) : Bool :=
  Ahead.name input || Ahead.oneOf ["self", "super", "crate"] input || Ahead.punct "::" input

def traitItem : Phrase Unit := do
  let _ ← g.outerAttributes
  let visible ← visibility
  let byDefault ← word? "default"
  if ← sees (seesFunction false) then
    g.signature false
    g.bodyOrMark
  else if ← sees (Ahead.word "const") then
    g.constant
  else if ← sees (Ahead.word "type") then
    let _ ← g.typeName .after
  else
    if visible || byDefault then
      fail
    demand startsMacroItem
    macroItem

def implItem : Phrase Unit := do
  let _ ← g.outerAttributes
  let visible ← visibility
  let byDefault ← accept (fun input =>
    Ahead.word "default" input && !Ahead.punct "!" (input.drop 1)) 1
  if ← sees (seesFunction false) then
    g.signature false
    g.bodyOrMark
  else if ← sees (Ahead.word "const") then
    g.constant
  else if ← sees (Ahead.word "type") then
    let _ ← g.typeName .after
  else
    if visible || byDefault then
      fail
    demand startsMacroItem
    macroItem

/-- The inside of a trait or an implementation. -/
def members (item : Phrase Unit) : Phrase Unit :=
  inside .brace do
    g.innerAttributes
    let _ ← toEnd item

/-- A trait, after its visibility, or a name for bounds. -/
def traitDeclaration : Phrase Unit := do
  let marked ← sees (Ahead.oneOf ["unsafe", "auto"])
  let _ ← word? "unsafe"
  let _ ← word? "auto"
  word "trait"
  let _ ← name
  let _ ← g.parameters
  if !marked && (← punct? "=") then
    let stop (input : List Tree) : Bool := Ahead.word "where" input || Ahead.punct ";" input
    let _ ← separated stop "+" (g.bound false true)
    let _ ← g.conditions
    punct ";"
  else
    if ← punct? ":" then
      let stop (input : List Tree) : Bool :=
        Ahead.word "where" input || Ahead.group .brace input
      let _ ← separated stop "+" (g.bound false true)
    let _ ← g.conditions
    g.members g.traitItem

/-- An implementation, after its visibility. -/
def implementation : Phrase Unit := do
  let _ ← word? "default"
  let _ ← word? "unsafe"
  word "impl"
  if ← sees seesParameters then
    let _ ← g.parameters
  if ← sees fun input => Ahead.word "const" input ||
      Ahead.punct "?" input && Ahead.word "const" (input.drop 1) then
    let _ ← punct? "?"
    word "const"
  let _ ← accept (fun input =>
    Ahead.punct "!" input && !Ahead.group .brace (input.drop 1)) 1
  let _ ← g.type true
  if ← word? "for" then
    let _ ← g.type true
  let _ ← g.conditions
  g.members g.implItem

/-! ## Foreign blocks and other items -/

/-- The rest of a static variable, after the words before it. -/
def staticRest (valueAlone : Bool) : Phrase Unit := do
  word "static"
  let _ ← word? "mut"
  let _ ← name
  if valueAlone && (← punct? "=") then
    let _ ← g.expr true
  else
    punct ":"
    let _ ← g.type true
    if ← punct? "=" then
      let _ ← g.expr true
  punct ";"

def foreignItem : Phrase Unit := do
  let _ ← g.outerAttributes
  let visible ← visibility
  if ← sees (seesFunction true) then
    g.signature true
    g.bodyOrMark
  else if ← sees fun input => Ahead.word "static" input ||
      Ahead.oneOf ["unsafe", "safe"] input && Ahead.word "static" (input.drop 1) then
    let _ ← accept (Ahead.oneOf ["unsafe", "safe"]) 1
    g.staticRest false
  else if ← sees (Ahead.word "type") then
    let _ ← g.typeName .both
  else
    if visible then
      fail
    demand startsMacroItem
    macroItem

def foreignBlock : Phrase Unit := do
  let _ ← word? "unsafe"
  let _ ← convention?
  g.members g.foreignItem

def rename : Phrase Unit := do
  if ← word? "as" then
    demand fun input => Ahead.name input || Ahead.word "_" input
    skip 1

/-- A library that is used under a name. -/
def externalLibrary : Phrase Unit := do
  word "extern"
  word "crate"
  if !(← word? "self") then
    let _ ← name
  rename
  punct ";"

/-- The tree of names that a use declaration imports. -/
def useTreeRule (root : Bool) : Phrase Unit := do
  if ← sees fun input => Ahead.name input ||
      Ahead.oneOf ["self", "super", "crate", "try"] input then
    skip 1
    if ← punct? "::" then
      g.useTree false
    else
      rename
  else if ← punct? "*" then
    return ()
  else
    let _ ← inside .brace <| listed do
      let rooted ← if root then punct? "::" else pure false
      g.useTree (root && !rooted)

def useDeclaration : Phrase Unit := do
  word "use"
  let rooted ← punct? "::"
  g.useTree (!rooted)
  punct ";"

/-- A module: its name, and its items if they stand in it. -/
def moduleDeclaration : Phrase Item := do
  let _ ← word? "unsafe"
  word "mod"
  let (name, _) ← if ← sees (Ahead.word "try") then anyWord else name
  if ← punct? ";" then
    return .other
  let items ← inside .brace do
    g.innerAttributes
    toEnd g.item
  return .module name items

def macroDeclaration : Phrase Unit := do
  word "macro"
  let _ ← name
  if ← sees (Ahead.group .parenthesis) then
    skip 1
  let _ ← group .brace

/-- A macro call as an item, which may give a name. -/
def namedMacroItem : Phrase Unit := do
  let _ ← simplePath
  punct "!"
  let _ ← accept (fun input => Ahead.name input || Ahead.word "try" input) 1
  if (← macroArguments) != .brace then
    punct ";"

def itemRest (attributes : List Attribute) : Phrase Item := do
  let visible ← visibility
  let after (test : List Tree → Bool) (input : List Tree) : Bool := test (input.drop 1)
  if ← sees (seesFunction false) then
    g.signature false
    g.bodyOrMark
    return .other
  if ← sees fun input => Ahead.word "extern" input && after (Ahead.word "crate") input then
    externalLibrary
    return .other
  if ← sees (Ahead.word "extern") then
    if visible then
      fail
    g.foreignBlock
    return .other
  if ← sees (Ahead.word "use") then
    g.useDeclaration
    return .other
  if ← sees (Ahead.word "static") then
    g.staticRest true
    return .other
  if ← sees (Ahead.word "const") then
    g.constant
    return .other
  if ← sees (Ahead.word "unsafe") then
    if ← sees fun input => after (Ahead.word "trait") input ||
        after (Ahead.word "auto") input && Ahead.word "trait" (input.drop 2) then
      g.traitDeclaration
      return .other
    if ← sees (after (Ahead.word "impl")) then
      g.implementation
      return .other
    if ← sees (after (Ahead.word "extern")) then
      if visible then
        fail
      g.foreignBlock
      return .other
    demand (after (Ahead.word "mod"))
    return ← g.moduleDeclaration
  if ← sees (Ahead.word "mod") then
    return ← g.moduleDeclaration
  if ← sees (Ahead.word "type") then
    let ((name, place), isAlias) ← g.typeName .before
    return if isAlias then .type .alias name place attributes else .other
  if ← sees fun input => Ahead.oneOf ["struct", "enum"] input ||
      Ahead.word "union" input && after Ahead.name input then
    let (kind, place, declaration) ← g.typeDeclaration attributes
    return .type kind declaration.name place attributes
  if ← sees fun input => Ahead.word "trait" input ||
      Ahead.word "auto" input && after (Ahead.word "trait") input then
    g.traitDeclaration
    return .other
  if ← sees fun input => Ahead.word "impl" input ||
      Ahead.word "default" input && !after (Ahead.punct "!") input then
    g.implementation
    return .other
  if ← sees (Ahead.word "macro") then
    macroDeclaration
    return .other
  if visible then
    fail
  demand startsMacroItem
  namedMacroItem
  return .other

def itemRule : Phrase Item := do
  let attributes ← g.outerAttributes
  g.itemRest attributes

/-! ## Statements -/

def startsItem (input : List Tree) : Bool :=
  let second := input.drop 1
  let third := input.drop 2
  Ahead.oneOf ["pub", "extern", "use", "fn", "mod", "type", "struct", "enum", "trait", "impl",
      "macro"] input ||
    Ahead.word "crate" input && !Ahead.punct "::" second ||
    Ahead.word "static" input &&
      (Ahead.word "mut" second ||
        Ahead.name second &&
          !(Ahead.word "async" second && (Ahead.word "move" third || Ahead.punct "|" third))) ||
    Ahead.word "const" input &&
      !(Ahead.group .brace second || Ahead.word "static" second ||
        Ahead.word "async" second && !Ahead.oneOf ["unsafe", "extern", "fn"] third ||
        Ahead.word "move" second || Ahead.punct "|" second) ||
    Ahead.word "unsafe" input && !Ahead.group .brace second ||
    Ahead.word "async" input && Ahead.oneOf ["unsafe", "extern", "fn"] second ||
    Ahead.word "union" input && Ahead.name second ||
    Ahead.word "auto" input && Ahead.word "trait" second ||
    Ahead.word "default" input && Ahead.oneOf ["unsafe", "impl"] second

/-- What a macro call at the start of a statement makes of it. -/
inductive MacroStatement where
  /-- An item that gives a name. -/
  | item
  /-- A call with braces that is a statement of its own. -/
  | call
  | other
  deriving DecidableEq

/-- Looks for a macro call at the start of a statement. -/
def macroStatement (input : List Tree) : MacroStatement :=
  match simplePath input with
  | some (_, rest) =>
      let second := rest.drop 1
      let third := rest.drop 2
      if !Ahead.punct "!" rest then .other
      else if Ahead.name second || Ahead.word "try" second then .item
      else if Ahead.group .brace second && !(seesDot third || Ahead.punct "?" third) then .call
      else .other
  | Option.none => .other

/-- A variable, perhaps with a type and a value; after a value that does not end with a
brace, a block may say what happens if the pattern does not match. -/
def localStatement : Phrase Unit := do
  word "let"
  let _ ← g.pattern
  if ← punct? ":" then
    let _ ← g.type true
  if ← punct? "=" then
    let (trees, _) ← taken (g.expr true)
    if !(Ahead.group .brace (trees.getLast?.toList)) && (← word? "else") then
      g.block
  punct ";"

/-- A statement.  The result says whether another one may follow directly. -/
def statement : Phrase Bool := do
  let attributes ← g.outerAttributes
  match ← fun input => some (macroStatement input, input) with
  | .call =>
      let _ ← macroCall
      let _ ← punct? ";"
      return true
  | kind =>
      if ← sees (Ahead.word "let") then
        g.localStatement
        return true
      if kind = .item || (← sees startsItem) then
        let _ ← g.itemRest attributes
        return true
      let shape ← g.early
      if ← punct? ";" then
        return true
      return shape = .block || shape = .macroBlock

/-- Statements, with needless marks between them, to the end of their block. -/
def statementsFrom : Nat → Phrase Unit
  | 0 => fail
  | turns + 1 => do
      let _ ← whileSeen (Ahead.punct ";") (skip 1)
      if ← atEnd then
        return ()
      let complete ← g.statement
      if ← atEnd then
        return ()
      if !complete then
        fail
      statementsFrom turns

def statementsRule : Phrase Unit := fun input =>
  g.statementsFrom (input.length + 1) input

end EventSourcing.Source.Grammar
