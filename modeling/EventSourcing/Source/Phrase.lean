import EventSourcing.Source.Token

/-!
# Source.Phrase -- phrases of token trees

A phrase takes some of the trees ahead and gives a result, or fails.  This module holds
what all rules of the grammar are made of: tests of the trees ahead, the phrases for
single tokens and groups, and repetition.
-/

namespace EventSourcing.Source

set_option autoImplicit false

/-- A rule of the grammar with a result. -/
abbrev Phrase (α : Type) := StateT (List Tree) Option α

/-! ## Looking ahead -/

/-- The words that are no names. -/
def reservedWords : List String :=
  ["_", "abstract", "as", "async", "await", "become", "box", "break", "const", "continue",
    "crate", "do", "dyn", "else", "enum", "extern", "false", "final", "fn", "for", "if", "impl",
    "in", "let", "loop", "macro", "match", "mod", "move", "mut", "override", "priv", "pub", "ref",
    "return", "Self", "self", "static", "struct", "super", "trait", "true", "try", "type",
    "typeof", "unsafe", "unsized", "use", "virtual", "where", "while", "yield"]

namespace Ahead

def word (w : String) : List Tree → Bool
  | .word _ t :: _ => t == w
  | _ => false

def oneOf (ws : List String) : List Tree → Bool
  | .word _ t :: _ => ws.contains t
  | _ => false

def anyWord : List Tree → Bool
  | .word _ _ :: _ => true
  | _ => false

def name : List Tree → Bool
  | .word _ t :: _ => !reservedWords.contains t
  | _ => false

/-- Whether the given punctuation is ahead, joined together.  More may be joined to it. -/
def mark : List Char → List Tree → Bool
  | [], _ => true
  | [c], .punct d _ :: _ => c == d
  | c :: cs, .punct d joint :: rest => c == d && joint && mark cs rest
  | _, _ => false

/-- The same for punctuation given as a text. -/
def punct (p : String) (input : List Tree) : Bool :=
  mark p.toList input

def group (d : Delimiter) : List Tree → Bool
  | .group e _ :: _ => d == e
  | _ => false

def anyGroup : List Tree → Bool
  | .group _ _ :: _ => true
  | _ => false

def lifetime : List Tree → Bool
  | .lifetime _ :: _ => true
  | _ => false

def text : List Tree → Bool
  | .literal (.text _) _ :: _ => true
  | _ => false

/-- Whether a literal is ahead; truth values are literals, and numbers may be negative. -/
def literal : List Tree → Bool
  | .literal _ _ :: _ => true
  | .word _ t :: _ => t == "true" || t == "false"
  | .punct '-' _ :: .literal .integer _ :: _ => true
  | .punct '-' _ :: .literal .float _ :: _ => true
  | _ => false

end Ahead

namespace Phrase

variable {α β : Type}

def fail : Phrase α := fun _ => none

/-- Whether a test of the trees ahead succeeds. -/
def sees (test : List Tree → Bool) : Phrase Bool := fun input => some (test input, input)

/-- Whether a test of the trees after the first succeeds. -/
def seesSecond (test : List Tree → Bool) : Phrase Bool := sees fun input => test (input.drop 1)

/-- Whether a test of the trees after the first two succeeds. -/
def seesThird (test : List Tree → Bool) : Phrase Bool := sees fun input => test (input.drop 2)

def atEnd : Phrase Bool := sees List.isEmpty

/-- Passes over the trees for which a test was made. -/
def skip (n : Nat) : Phrase Unit := fun input => some ((), input.drop n)

/-- Demands that a test succeeds. -/
def demand (test : List Tree → Bool) : Phrase Unit := fun input =>
  if test input then some ((), input) else none

/-- Takes `n` trees if a test succeeds. -/
def expect (test : List Tree → Bool) (n : Nat) : Phrase Unit := do
  demand test
  skip n

/-- Takes `n` trees if a test succeeds, and says whether it did. -/
def accept (test : List Tree → Bool) (n : Nat) : Phrase Bool := do
  if ← sees test then
    skip n
    return true
  return false

def word (w : String) : Phrase Unit := expect (Ahead.word w) 1

def word? (w : String) : Phrase Bool := accept (Ahead.word w) 1

def punct (p : String) : Phrase Unit := expect (Ahead.punct p) p.length

def punct? (p : String) : Phrase Bool := accept (Ahead.punct p) p.length

/-- Any word, and its place. -/
def anyWord : Phrase (String × Position)
  | .word place t :: rest => some ((t, place), rest)
  | _ => none

/-- A name, and its place. -/
def name : Phrase (String × Position) := do
  demand Ahead.name
  anyWord

def lifetime : Phrase Unit := expect Ahead.lifetime 1

def literal : Phrase Unit := do
  demand Ahead.literal
  skip (if ← sees (Ahead.punct "-") then 2 else 1)

/-- A group with the given brackets: the trees inside. -/
def group (d : Delimiter) : Phrase (List Tree)
  | .group e trees :: rest => if d = e then some (trees, rest) else none
  | _ => none

def anyGroup : Phrase (Delimiter × List Tree)
  | .group d trees :: rest => some ((d, trees), rest)
  | _ => none

/-- The result of a phrase that takes all of some trees. -/
def whole (p : Phrase α) (trees : List Tree) : Option α :=
  match p trees with
  | some (a, []) => some a
  | _ => none

/-- A group whose inside is a phrase. -/
def inside (d : Delimiter) (p : Phrase α) : Phrase α := do
  let trees ← group d
  match whole p trees with
  | some a => return a
  | none => fail

def when (test : List Tree → Bool) (p : Phrase α) : Phrase (Option α) := do
  if ← sees test then
    return some (← p)
  return none

/-- Whether a phrase would succeed here. -/
def matching (p : Phrase α) : Phrase Bool := sees fun input => (p input).isSome

/-- The trees that a phrase takes, with its result. -/
def taken (p : Phrase α) : Phrase (List Tree × α) := fun input =>
  (p input).map fun (a, rest) => ((input.take (input.length - rest.length), a), rest)

/-- Whether the last tree that was taken since `before` is a group in braces. -/
def endsInBrace (before after : List Tree) : Bool :=
  match before[before.length - after.length - 1]? with
  | some (.group .brace _) => before.length != after.length
  | _ => false

/-! ## Repetition

Each turn takes at least one tree, or ends the repetition, so the number of trees bounds
the number of turns. -/

def toEndFrom (p : Phrase α) : Nat → Phrase (List α)
  | 0 => fail
  | turns + 1 => do
      if ← atEnd then
        return []
      let a ← p
      return a :: (← toEndFrom p turns)

/-- Repeats a phrase up to the end of the trees. -/
def toEnd (p : Phrase α) : Phrase (List α) := fun input =>
  toEndFrom p (input.length + 1) input

def whileSeenFrom (test : List Tree → Bool) (p : Phrase α) : Nat → Phrase (List α)
  | 0 => fail
  | turns + 1 => do
      if ← sees test then
        let a ← p
        return a :: (← whileSeenFrom test p turns)
      return []

/-- Repeats a phrase for as long as a test succeeds. -/
def whileSeen (test : List Tree → Bool) (p : Phrase α) : Phrase (List α) := fun input =>
  whileSeenFrom test p (input.length + 1) input

/-- Phrases with a separator between them, up to where a test succeeds; the separator may
also stand after the last one. -/
def separatedFrom (stop : List Tree → Bool) (separator : String) (p : Phrase α) :
    Nat → Phrase (List α)
  | 0 => fail
  | turns + 1 => do
      if ← sees stop then
        return []
      let a ← p
      if ← sees stop then
        return [a]
      punct separator
      return a :: (← separatedFrom stop separator p turns)

/-- Phrases with a separator between them, up to where a test succeeds. -/
def separated (stop : List Tree → Bool) (separator : String) (p : Phrase α) :
    Phrase (List α) := fun input =>
  separatedFrom stop separator p (input.length + 1) input

/-- Phrases with a separator between them, which end where none follows or, after one,
where a test succeeds. -/
def joinedFrom (stop : List Tree → Bool) (separator : String) (p : Phrase α) :
    Nat → Phrase (List α)
  | 0 => fail
  | turns + 1 => do
      if ← sees stop then
        return []
      let a ← p
      if ← punct? separator then
        return a :: (← joinedFrom stop separator p turns)
      return [a]

/-- Phrases with a separator between them, which end where none follows or, after one,
where a test succeeds. -/
def joined (stop : List Tree → Bool) (separator : String) (p : Phrase α) :
    Phrase (List α) := fun input =>
  joinedFrom stop separator p (input.length + 1) input

/-- Phrases with commas between them, which take all that is left. -/
def listed (p : Phrase α) : Phrase (List α) :=
  separated List.isEmpty "," p

end Phrase

end EventSourcing.Source
