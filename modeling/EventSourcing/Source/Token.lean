import EventSourcing.Text.Quoted

/-!
# Source.Token -- token trees

Sources are read as trees of tokens: words, punctuation, literals and lifetimes, and
groups of them between matching brackets.  A word keeps the place where it stands.
Punctuation is kept one character at a time, with a mark on each character that is
directly followed by another.
-/

namespace EventSourcing.Source

set_option autoImplicit false

/-- A place in a text; lines and columns count from one, columns in characters. -/
structure Position where
  line : Nat
  column : Nat
  deriving DecidableEq, Repr

namespace Position

def start : Position := ⟨1, 1⟩

def next (p : Position) (c : Char) : Position :=
  if c = '\n' then ⟨p.line + 1, 1⟩ else ⟨p.line, p.column + 1⟩

def after (p : Position) (cs : List Char) : Position :=
  cs.foldl next p

end Position

inductive Delimiter where
  | parenthesis
  | bracket
  | brace
  deriving DecidableEq, Repr

namespace Delimiter

def opening : Delimiter → Char
  | parenthesis => '('
  | bracket => '['
  | brace => '\x7b'

def closing : Delimiter → Char
  | parenthesis => ')'
  | bracket => ']'
  | brace => '\x7d'

def ofOpening? (c : Char) : Option Delimiter :=
  if c = '(' then some parenthesis
  else if c = '[' then some bracket
  else if c = '\x7b' then some brace
  else none

def ofClosing? (c : Char) : Option Delimiter :=
  if c = ')' then some parenthesis
  else if c = ']' then some bracket
  else if c = '\x7d' then some brace
  else none

end Delimiter

/-- What a literal is; a text comes with its value. -/
inductive LiteralKind where
  | text (value : String)
  | bytes
  | zeroTerminated
  | byte
  | character
  | float
  | integer
  deriving DecidableEq, Repr

/-- A token, or a group of tokens. -/
inductive Tree where
  | word (place : Position) (text : String)
  | punct (char : Char) (joint : Bool)
  | literal (kind : LiteralKind) (text : String)
  | lifetime (name : String)
  | group (delimiter : Delimiter) (trees : List Tree)
  deriving Repr

namespace Tree

mutual

/-- The text of a tree without any space between its tokens. -/
def text : Tree → String
  | .word _ t => t
  | .punct c _ => String.singleton c
  | .literal _ t => t
  | .lifetime name => "'" ++ name
  | .group d ts => String.singleton d.opening ++ textOf ts ++ String.singleton d.closing

def textOf : List Tree → String
  | [] => ""
  | t :: rest => text t ++ textOf rest

end

mutual

/-- The texts of the tokens of a tree, brackets included and punctuation one character at a
time. -/
def tokens : Tree → List String
  | .word _ t => [t]
  | .punct c _ => [String.singleton c]
  | .literal _ t => [t]
  | .lifetime name => ["'" ++ name]
  | .group d ts => String.singleton d.opening :: tokensOf ts ++ [String.singleton d.closing]

def tokensOf : List Tree → List String
  | [] => []
  | t :: rest => tokens t ++ tokensOf rest

end

end Tree

/-! ## Literals for texts -/

/-- One character inside a literal that stands for a text.  Zero is written so that a
digit after it is not taken for a part of it. -/
def literalChars : List Char → List Char
  | [] => []
  | '\x00' :: rest =>
      (match rest with
        | d :: _ => if '0' ≤ d ∧ d ≤ '7' then ['\\', 'x', '0', '0'] else ['\\', '0']
        | [] => ['\\', '0']) ++ literalChars rest
  | c :: rest => Text.escapeChar (· == '"') c ++ literalChars rest

/-- The literal that stands for a text. -/
def literalText (value : String) : String :=
  String.ofList ('"' :: literalChars value.toList ++ ['"'])

def Tree.ofText (value : String) : Tree :=
  .literal (.text value) (literalText value)

end EventSourcing.Source
