import EventSourcing.Source.Literal
import EventSourcing.Text.Blank

/-!
# Source.Lexer -- token trees from text

A text is cut into lexemes, each as long as its kind allows, and the lexemes are nested
by their brackets.  White space and plain comments are passed over.  A documentation
comment is read as the attribute that it stands for.
-/

namespace EventSourcing.Source

set_option autoImplicit false

open EventSourcing.Text (isBlank)

/-! ## What is passed over -/

/-- Whether a character separates tokens. -/
def isSpace (c : Char) : Bool :=
  isBlank c || c == '\u200e' || c == '\u200f'

/-- The text up to the end of the line, and how many characters it takes: a carriage
return at the end of the line is passed over. -/
def lineText : List Char → List Char × Nat
  | [] => ([], 0)
  | '\n' :: _ => ([], 0)
  | '\r' :: '\n' :: _ => ([], 1)
  | c :: rest =>
      let (text, n) := lineText rest
      (c :: text, n + 1)

/-- The number of characters up to the end of a nested comment of which `depth` levels
are open. -/
def commentFrom (depth : Nat) : List Char → Option Nat
  | '/' :: '*' :: rest => (commentFrom (depth + 1) rest).map (· + 2)
  | '*' :: '/' :: rest => if depth ≤ 1 then some 2 else (commentFrom (depth - 1) rest).map (· + 2)
  | _ :: rest => (commentFrom depth rest).map (· + 1)
  | [] => none

/-- A documentation comment: its text and whether it documents what it stands in. -/
structure DocComment where
  text : List Char
  inner : Bool
  length : Nat

/-- Whether every carriage return is followed by a line feed. -/
def hasPlainReturns : List Char → Bool
  | [] => true
  | ['\r'] => false
  | '\r' :: c :: rest => c == '\n' && hasPlainReturns (c :: rest)
  | _ :: rest => hasPlainReturns rest

def docCommentShape? : List Char → Option DocComment
  | '/' :: '/' :: '!' :: rest =>
      let (text, n) := lineText rest
      some ⟨text, true, n + 3⟩
  | '/' :: '*' :: '!' :: rest => block true ('!' :: rest)
  | '/' :: '/' :: '/' :: '/' :: _ => none
  | '/' :: '/' :: '/' :: rest =>
      let (text, n) := lineText rest
      some ⟨text, false, n + 3⟩
  | '/' :: '*' :: '*' :: '*' :: _ => none
  | '/' :: '*' :: '*' :: '/' :: _ => none
  | '/' :: '*' :: '*' :: rest => block false ('*' :: rest)
  | _ => none
where
  /-- A comment between marks: its text is what stands between `/*` and one more
  character and `*/`. -/
  block (inner : Bool) (body : List Char) : Option DocComment :=
    (commentFrom 1 body).map fun n => ⟨(body.take (n - 2)).drop 1, inner, n + 2⟩

def docComment? (input : List Char) : Option DocComment :=
  (docCommentShape? input).filter (hasPlainReturns ·.text)

/-- The number of characters ahead that are passed over in one step; zero if there are
none. -/
def skipLength : List Char → Nat
  | '/' :: '/' :: rest => if isDoc ('/' :: '/' :: rest) then 0 else (lineText rest).2 + 2
  | '/' :: '*' :: rest =>
      if isDoc ('/' :: '*' :: rest) then 0 else ((commentFrom 1 rest).map (· + 2)).getD 0
  | c :: _ => if isSpace c then 1 else 0
  | [] => 0
where
  /-- Whether a documentation comment begins here. -/
  isDoc : List Char → Bool
    | '/' :: '/' :: '!' :: _ => true
    | '/' :: '*' :: '!' :: _ => true
    | '/' :: '/' :: '/' :: '/' :: _ => false
    | '/' :: '/' :: '/' :: _ => true
    | '/' :: '*' :: '*' :: '*' :: _ => false
    | '/' :: '*' :: '*' :: '/' :: _ => false
    | '/' :: '*' :: '*' :: _ => true
    | _ => false

/-! ## Lexemes -/

def isPunctuation (c : Char) : Bool :=
  "~!@#$%^&*-=+|;:,<.>/?".toList.contains c

/-- Whether punctuation is ahead, counting the mark of a lifetime as such. -/
def startsPunctuation : List Char → Bool
  | '/' :: '/' :: _ => false
  | '/' :: '*' :: _ => false
  | c :: _ => isPunctuation c || c == '\''
  | [] => false

/-- The number of characters of the word ahead, which may be marked as a plain name by
`r#`; zero if there is none.  Five words may not be marked. -/
def wordLength (input : List Char) : Nat :=
  match input with
  | 'r' :: '#' :: rest =>
      let n := identLength rest
      let special := ["_", "super", "self", "Self", "crate"]
      if n = 0 || special.contains (String.ofList (rest.take n)) then 0 else n + 2
  | _ => identLength input

/-- Whether a literal begins here, sound or not, so that no word does. -/
def startsLiteral (input : List Char) : Bool :=
  ["r\"", "r#\"", "r##", "b\"", "b'", "br\"", "br#", "c\"", "cr\"", "cr#"].any fun p =>
    p.toList.isPrefixOf input

/-- The number of characters of the lifetime ahead, its mark included; zero if there is
none. -/
def lifetimeLength : List Char → Nat
  | '\'' :: rest =>
      let n := wordLength rest
      match n, rest.drop n with
      | 0, _ => 0
      | _, '\'' :: _ => 0
      | _, '#' :: _ => if ['r', '#'].isPrefixOf rest then n + 1 else 0
      | _, _ => n + 1
  | _ => 0

/-- The token ahead, which stands at `place`, and the number of its characters. -/
def leaf? (place : Position) (input : List Char) : Option (Tree × Nat) :=
  match literal? input with
  | some (kind, n) => some (.literal kind (String.ofList (input.take n)), n)
  | none =>
      match input with
      | [] => none
      | c :: rest =>
          if c = '\'' then
            let n := lifetimeLength input
            if n = 0 then none else some (.lifetime (String.ofList (rest.take (n - 1))), n)
          else if startsPunctuation input then
            some (.punct c (startsPunctuation rest), 1)
          else if startsLiteral input then none
          else
            let n := wordLength input
            if n = 0 then none else some (.word place (String.ofList (input.take n)), n)

/-- A token, or a bracket. -/
inductive Lexeme where
  | tree (tree : Tree)
  | opening (delimiter : Delimiter)
  | closing (delimiter : Delimiter)

/-- The attribute that a documentation comment stands for. -/
def docLexemes (place : Position) (comment : DocComment) : List Lexeme :=
  let value := Tree.ofText (String.ofList comment.text)
  let body := [.word place "doc", .punct '=' false, value]
  .tree (.punct '#' false) :: (if comment.inner then [.tree (.punct '!' false)] else []) ++
    [.tree (.group .bracket body)]

/-- The lexemes at the start of a text and the number of their characters. -/
def lexeme? (place : Position) (input : List Char) : Option (List Lexeme × Nat) :=
  match docComment? input with
  | some comment => some (docLexemes place comment, comment.length)
  | none =>
      match input with
      | [] => none
      | c :: _ =>
          match Delimiter.ofOpening? c, Delimiter.ofClosing? c with
          | some d, _ => some ([.opening d], 1)
          | none, some d => some ([.closing d], 1)
          | none, none => (leaf? place input).map fun (t, n) => ([.tree t], n)

/-- The lexemes of a text from `place` on.  The fuel bounds their number, with that of
the steps over what is passed over. -/
def lexemesFrom : Nat → Position → List Char → Option (List Lexeme)
  | 0, _, _ => none
  | _ + 1, _, [] => some []
  | fuel + 1, place, input =>
      match skipLength input with
      | 0 => do
          let (ls, n) ← lexeme? place input
          let rest ← lexemesFrom fuel (place.after (input.take n)) (input.drop n)
          return ls ++ rest
      | n => lexemesFrom fuel (place.after (input.take n)) (input.drop n)

/-! ## Nesting -/

/-- Nests lexemes.  `done` are the trees of the innermost open group, last first, and
`outer` the open groups around it with theirs. -/
def nest (done : List Tree) : List (Delimiter × List Tree) → List Lexeme → Option (List Tree)
  | [], [] => some done.reverse
  | _ :: _, [] => none
  | outer, .tree t :: rest => nest (t :: done) outer rest
  | outer, .opening d :: rest => nest [] ((d, done) :: outer) rest
  | [], .closing _ :: _ => none
  | (d, before) :: outer, .closing e :: rest =>
      if d = e then nest (.group d done.reverse :: before) outer rest else none

def withoutMark : List Char → List Char
  | '\ufeff' :: rest => rest
  | input => input

/-- The trees of a text; none if it holds something that is no token, or brackets that
do not match. -/
def trees? (input : List Char) : Option (List Tree) := do
  let place := if withoutMark input = input then Position.start else Position.start.next ' '
  let lexemes ← lexemesFrom (input.length + 1) place (withoutMark input)
  nest [] [] lexemes

end EventSourcing.Source
