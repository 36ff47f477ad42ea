import EventSourcing.Text.Visibility

/-!
# Text.Quoted -- text and characters quoted in messages

How messages show a text that came from outside: between quotes, with everything
that could mislead the reader escaped.  The quote itself, the backslash and four
controls have short escapes; any other character that cannot be shown as it is
becomes `\u{…}` with its code point in hexadecimal.
-/

namespace EventSourcing.Text

set_option autoImplicit false

/-- The lower case hexadecimal digits of a number, without leading zeros. -/
def hex (n : Nat) : List Char :=
  Nat.toDigits 16 n

/-- One character as it appears between the given quotes. -/
def escapeChar (isQuote : Char → Bool) (c : Char) : List Char :=
  match c with
  | '\x00' => ['\\', '0']
  | '\t' => ['\\', 't']
  | '\n' => ['\\', 'n']
  | '\r' => ['\\', 'r']
  | '\\' => ['\\', '\\']
  | _ =>
      if isQuote c then ['\\', c]
      else if isVisible c then [c]
      else ['\\', 'u', '\x7b'] ++ hex c.toNat ++ ['\x7d']

def quoted (s : String) : String :=
  String.ofList ('"' :: s.toList.flatMap (escapeChar (· == '"')) ++ ['"'])

def quotedChar (c : Char) : String :=
  String.ofList ('\'' :: escapeChar (· == '\'') c ++ ['\''])

/-- A list of texts, each quoted, between brackets. -/
def quotedList (items : List String) : String :=
  "[" ++ ", ".intercalate (items.map quoted) ++ "]"

end EventSourcing.Text
