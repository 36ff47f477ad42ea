/-!
# Yaml.Token -- the tokens of a YAML stream

Tokens are what the grammar of `Yaml.Node` is written in.  Where a text leaves
structure to its layout, the lexer makes it explicit: block collections are bracketed
by start and end tokens, and every key of a mapping is announced.
-/

namespace EventSourcing.Yaml

set_option autoImplicit false

inductive Token where
  | streamEnd
  /-- `%YAML` with its two numbers. -/
  | versionDirective (major minor : Nat)
  /-- `%TAG` with a handle and what it stands for. -/
  | tagDirective (handle meaning : String)
  | documentStart
  | documentEnd
  | blockSequenceStart
  | blockMappingStart
  | blockEnd
  | flowSequenceStart
  | flowSequenceEnd
  | flowMappingStart
  | flowMappingEnd
  | blockEntry
  | flowEntry
  | key
  | value
  | anchor (name : String)
  | alias (name : String)
  | tag (handle suffix : String)
  /-- A scalar; only a plain one may be read as anything but text. -/
  | scalar (text : String) (plain : Bool)
  deriving DecidableEq, Repr

/-! ## Character classes -/

def isBreak (c : Char) : Bool :=
  c == '\n' || c == '\r' || c == '\x85' || c == '\u2028' || c == '\u2029'

def isBlank (c : Char) : Bool :=
  c == ' ' || c == '\t'

/-- Whether a word ends before this character, or at the end of the text. -/
def endsWord : Option Char → Bool
  | none => true
  | some c => isBlank c || isBreak c

/-- Letters, digits, `_` and `-`: the characters of anchors, handles and directives. -/
def isNameChar (c : Char) : Bool :=
  c.isAlphanum || c == '_' || c == '-'

/-- Characters that may stand in a stream at all. -/
def isAllowed (c : Char) : Bool :=
  let n := c.toNat
  n == 0x9 || n == 0xA || n == 0xD || (0x20 ≤ n && n ≤ 0x7E) || n == 0x85 ||
    (0xA0 ≤ n && n ≤ 0xD7FF) || (0xE000 ≤ n && n ≤ 0xFFFD) || 0x10000 ≤ n

/-- What a line break contributes to a text: the separators of Unicode stay, all
others become a line feed. -/
def breakChar (c : Char) : Char :=
  if c == '\u2028' || c == '\u2029' then c else '\n'

/-! ## Positions -/

/-- The text that is left and where in the stream it begins. -/
structure Cursor where
  rest : List Char
  index : Nat
  line : Nat
  column : Nat
  deriving Repr

namespace Cursor

def start (text : List Char) : Cursor := ⟨text, 0, 0, 0⟩

/-- The character `n` places ahead. -/
def peek (c : Cursor) (n : Nat) : Option Char := c.rest[n]?

/-- Passes over a character that does not end its line. -/
def next (c : Cursor) : Cursor :=
  match c.rest with
  | [] => c
  | _ :: rest => ⟨rest, c.index + 1, c.line, c.column + 1⟩

/-- Passes over `n` characters that do not end their line. -/
def advance (c : Cursor) (n : Nat) : Cursor :=
  ⟨c.rest.drop n, c.index + n, c.line, c.column + n⟩

/-- Passes over a line break; a carriage return and the line feed after it are one. -/
def nextLine (c : Cursor) : Cursor :=
  match c.rest with
  | '\r' :: '\n' :: rest => ⟨rest, c.index + 2, c.line + 1, 0⟩
  | _ :: rest => ⟨rest, c.index + 1, c.line + 1, 0⟩
  | [] => c

def skipBreak (c : Cursor) : Cursor :=
  match c.rest with
  | x :: _ => if isBreak x then c.nextLine else c
  | [] => c

/-- The characters at the cursor that belong to a class without line breaks, and the
cursor after them. -/
def takeWhile (c : Cursor) (p : Char → Bool) : List Char × Cursor :=
  let run := c.rest.takeWhile p
  (run, c.advance run.length)

def skipBlanks (c : Cursor) : Cursor :=
  (c.takeWhile isBlank).2

/-- Passes over a comment, up to the end of its line. -/
def skipComment (c : Cursor) : Cursor :=
  if c.peek 0 = some '#' then (c.takeWhile (!isBreak ·)).2 else c

/-- Whether the cursor stands at the beginning of a line that holds one of the two
document marks. -/
def isAtMark (c : Cursor) (mark : Char) : Bool :=
  c.column == 0 && c.rest.take 3 == [mark, mark, mark] && endsWord (c.peek 3)

end Cursor

end EventSourcing.Yaml
