import EventSourcing.Json.Basic
import EventSourcing.Double.Shortest
import EventSourcing.Text.Quoted

/-!
# Json.Printer -- values as text

The compact text of a value: no spaces, fields in the order in which they are kept.
Floating point numbers always show that they are such, by a point or an exponent.
-/

namespace EventSourcing.Json

set_option autoImplicit false

/-- How floating point numbers are laid out: positional while the point stands within
`-leastPoint` and `greatestPoint` digits of the first digit, and with an exponent
that carries its sign otherwise. -/
structure FloatLayout where
  leastPoint : Int
  greatestPoint : Int

/-- The layout of numbers in this format: `0.00001` and `1000000000000000.0` are still
positional, `1e-6` and `1e+16` are not. -/
def floatLayout : FloatLayout := ⟨-5, 16⟩

def floatText (layout : FloatLayout) (d : Double) : List Char :=
  let sign := if d.negative then ['-'] else []
  if d.mantissa = 0 then sign ++ ['0', '.', '0']
  else
    let (digits, point) := d.shortest.significant
    let count : Int := digits.length
    let zeros (n : Int) := List.replicate n.toNat '0'
    sign ++
      if count ≤ point ∧ point ≤ layout.greatestPoint then
        digits ++ zeros (point - count) ++ ['.', '0']
      else if 0 < point ∧ point ≤ layout.greatestPoint then
        digits.take point.toNat ++ '.' :: digits.drop point.toNat
      else if layout.leastPoint < point ∧ point ≤ 0 then
        '0' :: '.' :: zeros (-point) ++ digits
      else
        let fraction := if digits.length ≤ 1 then [] else '.' :: digits.drop 1
        let e := point - 1
        digits.take 1 ++ fraction ++ 'e' ::
          (if e < 0 then '-' else '+') :: Nat.toDigits 10 e.natAbs

/-- One character inside a string.  Only the quote, the backslash and the controls
below the space are escaped. -/
def escapeChar (c : Char) : List Char :=
  match c with
  | '"' => ['\\', '"']
  | '\\' => ['\\', '\\']
  | '\x08' => ['\\', 'b']
  | '\x0c' => ['\\', 'f']
  | '\n' => ['\\', 'n']
  | '\r' => ['\\', 'r']
  | '\t' => ['\\', 't']
  | _ =>
      if c.toNat < 0x20 then
        let digits := Text.hex c.toNat
        ['\\', 'u'] ++ List.replicate (4 - digits.length) '0' ++ digits
      else [c]

def stringText (s : String) : List Char :=
  '"' :: s.toList.flatMap escapeChar ++ ['"']

mutual

def chars : Json → List Char
  | .null => ['n', 'u', 'l', 'l']
  | .bool true => ['t', 'r', 'u', 'e']
  | .bool false => ['f', 'a', 'l', 's', 'e']
  | .int n => (toString n).toList
  | .float d => floatText floatLayout d
  | .str s => stringText s
  | .arr items => '[' :: itemChars items ++ [']']
  | .obj fields => '\x7b' :: fieldChars fields ++ ['\x7d']

/-- The items of an array with commas between them. -/
def itemChars : List Json → List Char
  | [] => []
  | [v] => v.chars
  | v :: rest => v.chars ++ ',' :: itemChars rest

/-- The fields of an object with commas between them. -/
def fieldChars : List (String × Json) → List Char
  | [] => []
  | [(k, v)] => stringText k ++ ':' :: v.chars
  | (k, v) :: rest => stringText k ++ ':' :: v.chars ++ ',' :: fieldChars rest

end

def text (v : Json) : String :=
  String.ofList v.chars

end EventSourcing.Json
