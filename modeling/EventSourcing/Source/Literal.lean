import EventSourcing.Source.Token
import EventSourcing.Text.Identifier

/-!
# Source.Literal -- literals at the start of a text

Each reader below looks at the characters ahead and says how many of them belong to
the literal, suffix included, or that there is none.  A literal for a text also gives
its value.
-/

namespace EventSourcing.Source

set_option autoImplicit false

open EventSourcing.Text (isIdentStart isIdentContinue)

/-- The number of characters of the identifier ahead; zero if there is none. -/
def identLength : List Char → Nat
  | [] => 0
  | c :: rest => if isIdentStart c then (rest.takeWhile isIdentContinue).length + 1 else 0

/-- The value of a digit in bases up to sixteen. -/
def digitValue? (c : Char) : Option Nat :=
  if '0' ≤ c ∧ c ≤ '9' then some (c.toNat - '0'.toNat)
  else if 'a' ≤ c ∧ c ≤ 'f' then some (c.toNat - 'a'.toNat + 10)
  else if 'A' ≤ c ∧ c ≤ 'F' then some (c.toNat - 'A'.toNat + 10)
  else none

/-! ## Quoted literals -/

/-- What a quoted literal is made of. -/
inductive Alphabet where
  | characters
  | bytes
  /-- Characters other than zero. -/
  | nonzero
  deriving DecidableEq, Repr

namespace Alphabet

/-- Whether a character may stand for itself. -/
def admits : Alphabet → Char → Bool
  | characters, _ => true
  | bytes, c => c.toNat < 0x80
  | nonzero, c => c != '\x00'

/-- Whether two hexadecimal digits are an escape. -/
def admitsHex : Alphabet → Nat → Bool
  | characters, n => n < 0x80
  | bytes, _ => true
  | nonzero, n => n != 0

/-- Whether a code point in braces is an escape. -/
def admitsPoint : Alphabet → Nat → Bool
  | characters, _ => true
  | bytes, _ => false
  | nonzero, n => n != 0

end Alphabet

def shortEscape? (alphabet : Alphabet) (c : Char) : Option Char :=
  if c = 'n' then some '\n'
  else if c = 'r' then some '\r'
  else if c = 't' then some '\t'
  else if c = '\\' then some '\\'
  else if c = '\'' then some '\''
  else if c = '"' then some '"'
  else if c = '0' ∧ alphabet ≠ .nonzero then some '\x00'
  else none

/-- Where a reader stands inside a quoted literal. -/
inductive QuotedState where
  | plain
  /-- After a carriage return, which a line feed has to follow. -/
  | lineFeed
  /-- After a backslash. -/
  | escape
  /-- Before the two digits of an escape. -/
  | hex
  /-- Before the second of them. -/
  | hexSecond (first : Nat)
  /-- Before the brace of an escape. -/
  | brace
  /-- Inside the braces, after `count` digits. -/
  | point (count value : Nat)
  /-- After a backslash at the end of a line, before the text goes on. -/
  | indent
  /-- The same after a carriage return, which a line feed has to follow. -/
  | indentLineFeed
  deriving DecidableEq, Repr

/-- Whether a character is passed over between a backslash at the end of a line and the
text after it. -/
def isIndent (c : Char) : Bool :=
  c == ' ' || c == '\t' || c == '\n' || c == '\r'

/-- What a character does that is no part of an escape. -/
def plainStep (alphabet : Alphabet) (c : Char) : Option (Option Char × QuotedState) :=
  if c = '\\' then some (none, .escape)
  else if c = '\r' then some (none, .lineFeed)
  else if alphabet.admits c then some (some c, .plain)
  else none

/-- What one character inside a quoted literal does: it leads to another state, perhaps
after a character of the value, or it is an error. -/
def quotedStep (alphabet : Alphabet) : QuotedState → Char → Option (Option Char × QuotedState)
  | .plain, c => plainStep alphabet c
  | .lineFeed, c => if c = '\n' then some (some '\n', .plain) else none
  | .escape, c =>
      match shortEscape? alphabet c with
      | some e => some (some e, .plain)
      | none =>
          if c = 'x' then some (none, .hex)
          else if c = 'u' ∧ alphabet ≠ .bytes then some (none, .brace)
          else if c = '\n' then some (none, .indent)
          else if c = '\r' then some (none, .indentLineFeed)
          else none
  | .hex, c => (digitValue? c).map fun d => (none, .hexSecond d)
  | .hexSecond first, c => do
      let n := first * 16 + (← digitValue? c)
      if alphabet.admitsHex n then some (some (Char.ofNat n), .plain) else none
  | .brace, c => if c = '\x7b' then some (none, .point 0 0) else none
  | .point count value, c =>
      match digitValue? c with
      | some d => if count < 6 then some (none, .point (count + 1) (value * 16 + d)) else none
      | none =>
          if count = 0 then none
          else if c = '_' then some (none, .point count value)
          else if c = '\x7d' ∧ value.isValidChar ∧ alphabet.admitsPoint value then
            some (some (Char.ofNat value), .plain)
          else none
  | .indent, c =>
      if c = '\r' then some (none, .indentLineFeed)
      else if isIndent c then some (none, .indent)
      else plainStep alphabet c
  | .indentLineFeed, c => if c = '\n' then some (none, .indent) else none

/-- The value of a quoted literal and the number of its characters after the opening
quote, the closing one included. -/
def quotedFrom (alphabet : Alphabet) : QuotedState → List Char → Option (List Char × Nat)
  | _, [] => none
  | state, c :: rest =>
      if c = '"' ∧ (state = .plain ∨ state = .indent) then some ([], 1)
      else do
        let (emitted, state) ← quotedStep alphabet state c
        let (value, n) ← quotedFrom alphabet state rest
        return (emitted.toList ++ value, n + 1)

/-- The value of a raw literal and the number of its characters after the opening quote,
up to and including a quote with `hashes` marks. -/
def rawFrom (alphabet : Alphabet) (hashes : Nat) : Bool → List Char → Option (List Char × Nat)
  | _, [] => none
  | afterReturn, c :: rest =>
      if c = '"' ∧ !afterReturn ∧ (rest.take hashes) = List.replicate hashes '#' then
        some ([], 1 + hashes)
      else if afterReturn ∧ c ≠ '\n' then none
      else if !alphabet.admits c then none
      else do
        let (value, n) ← rawFrom alphabet hashes (c == '\r') rest
        return (c :: value, n + 1)

/-- The marks before a raw literal's opening quote.  There are at most 255 of them. -/
def rawMarks (input : List Char) : Option (Nat × List Char) :=
  let marks := (input.takeWhile (· == '#')).length
  match input.drop marks with
  | '"' :: rest => if marks ≤ 255 then some (marks, rest) else none
  | _ => none

def withSuffix (n : Nat) (input : List Char) : Nat :=
  n + identLength (input.drop n)

/-- A quoted literal after `skipped` characters that say what it is. -/
def quotedLiteral (alphabet : Alphabet) (skipped : Nat) (input : List Char) :
    Option (List Char × Nat) :=
  match input.drop skipped with
  | '"' :: rest =>
      (quotedFrom alphabet .plain rest).map fun (v, n) => (v, withSuffix (skipped + 1 + n) input)
  | 'r' :: rest => do
      let (marks, rest) ← rawMarks rest
      let (v, n) ← rawFrom alphabet marks false rest
      return (v, withSuffix (skipped + 2 + marks + n) input)
  | _ => none

/-- The rest of a literal for one character, after its opening quote. -/
def characterFrom (alphabet : Alphabet) (input : List Char) : Option Nat :=
  match input with
  | '\\' :: rest => escaped .escape 1 rest
  | c :: '\'' :: _ => if alphabet.admits c then some 2 else none
  | _ => none
where
  /-- Reads on to the end of the escape, which may not be a line end. -/
  escaped (state : QuotedState) (n : Nat) : List Char → Option Nat
    | [] => none
    | c :: rest =>
        match quotedStep alphabet state c with
        | some (some _, _) =>
            match rest with
            | '\'' :: _ => some (n + 2)
            | _ => none
        | some (none, .indent) => none
        | some (none, .indentLineFeed) => none
        | some (none, state) => escaped state (n + 1) rest
        | none => none

/-! ## Numbers -/

/-- The number of characters of the digits after the base; zero if there are none.  A
digit too large for the base is an error, except that a letter ends the digits. -/
def digitsLength (base : Nat) : Bool → List Char → Option Nat
  | empty, [] => if empty then none else some 0
  | empty, c :: rest =>
      if c = '_' then
        if empty ∧ base = 10 then none else (digitsLength base empty rest).map (· + 1)
      else
        match digitValue? c with
        | some d =>
            if d < base then (digitsLength base false rest).map (· + 1)
            else if c.isDigit then none
            else if empty then none else some 0
        | none => if empty then none else some 0

/-- Adds a suffix to a number.  What follows may not go on like a word. -/
def numberEnd (n : Nat) (input : List Char) : Option Nat :=
  let n := withSuffix n input
  match input.drop n with
  | c :: _ => if isIdentContinue c then none else some n
  | [] => some n

def integerLength (input : List Char) : Option Nat := do
  let (base, start) :=
    match input with
    | '0' :: 'x' :: _ => (16, 2)
    | '0' :: 'o' :: _ => (8, 2)
    | '0' :: 'b' :: _ => (2, 2)
    | _ => (10, 0)
  let n ← digitsLength base true (input.drop start)
  numberEnd (start + n) input

/-- The number that a literal for a whole number stands for, if it has no suffix. -/
def wholeNumber? (text : String) : Option Nat :=
  let (base, digits) :=
    match text.toList with
    | '0' :: 'x' :: digits => (16, digits)
    | '0' :: 'o' :: digits => (8, digits)
    | '0' :: 'b' :: digits => (2, digits)
    | digits => (10, digits)
  (digits.filter (· != '_')).foldlM (fun n c => do
    let d ← digitValue? c
    if d < base then some (base * n + d) else none) 0

def isDecimalChar (c : Char) : Bool :=
  c.isDigit || c == '_'

/-- The number of characters of an exponent after its letter, if it has a digit.  A sign
may stand before the first digit. -/
def exponentLength (input : List Char) : Option Nat :=
  let lead := (input.takeWhile (· == '_')).length
  let sign :=
    match input.drop lead with
    | c :: _ => if c = '+' ∨ c = '-' then 1 else 0
    | [] => 0
  let digits := (input.drop (lead + sign)).takeWhile isDecimalChar
  if digits.any Char.isDigit then some (lead + sign + digits.length) else none

/-- The number of characters of a number with a point or an exponent. -/
def floatLength (input : List Char) : Option Nat := do
  match input with
  | c :: _ => if !c.isDigit then none
  | [] => none
  let whole := (input.takeWhile isDecimalChar).length
  let (hasPoint, n) ←
    match input.drop whole with
    | '.' :: rest =>
        match rest with
        | c :: _ => if c = '.' ∨ isIdentStart c then none
                    else some (true, whole + 1 + (rest.takeWhile isDecimalChar).length)
        | [] => some (true, whole + 1)
    | _ => some (false, whole)
  let ending ←
    match input.drop n with
    | c :: rest =>
        if c = 'e' ∨ c = 'E' then
          match exponentLength rest with
          | some e => some (n + 1 + e)
          | none => if hasPoint then some n else none
        else if hasPoint then some n
        else none
    | [] => if hasPoint then some n else none
  numberEnd ending input

/-! ## Any literal -/

def literal? (input : List Char) : Option (LiteralKind × Nat) :=
  match input with
  | '"' :: _ => text
  | 'r' :: _ => text
  | 'b' :: '\'' :: rest =>
      (characterFrom .bytes rest).map fun n => (.byte, withSuffix (2 + n) input)
  | 'b' :: _ => (quotedLiteral .bytes 1 input).map fun (_, n) => (.bytes, n)
  | 'c' :: _ => (quotedLiteral .nonzero 1 input).map fun (_, n) => (.zeroTerminated, n)
  | '\'' :: rest =>
      (characterFrom .characters rest).map fun n => (.character, withSuffix (1 + n) input)
  | _ =>
      match floatLength input with
      | some n => some (.float, n)
      | none => (integerLength input).map fun n => (.integer, n)
where
  /-- A literal that stands for a text. -/
  text : Option (LiteralKind × Nat) :=
    (quotedLiteral .characters 0 input).map fun (v, n) => (.text (String.ofList v), n)

end EventSourcing.Source
