import EventSourcing.Json.Basic
import EventSourcing.Text.Glyph
import EventSourcing.Word

/-!
# Json.Reader -- values from text

A reader is a function from the glyphs that are left to a value and the glyphs after
it.  Two readers differ in what they keep: `value` builds the value and therefore
insists on proper characters, numbers that have a value, and bounded nesting;
`skip` only checks the shape of a value nobody asked for.
-/

namespace EventSourcing.Json

set_option autoImplicit false

open EventSourcing.Text (Glyph)

/-- How deeply values may nest: one less than this. -/
def depthLimit : Nat := 128

/-- Drops spaces, tabs and line ends. -/
def skipBlanks : List Glyph → List Glyph
  | .char ' ' :: rest => skipBlanks rest
  | .char '\n' :: rest => skipBlanks rest
  | .char '\t' :: rest => skipBlanks rest
  | .char '\r' :: rest => skipBlanks rest
  | input => input

/-! ## Strings -/

def hexDigit? (c : Char) : Option Nat :=
  if '0' ≤ c ∧ c ≤ '9' then some (c.toNat - '0'.toNat)
  else if 'a' ≤ c ∧ c ≤ 'f' then some (c.toNat - 'a'.toNat + 10)
  else if 'A' ≤ c ∧ c ≤ 'F' then some (c.toNat - 'A'.toNat + 10)
  else none

def shortEscape? : Char → Option Char
  | '"' => some '"'
  | '\\' => some '\\'
  | '/' => some '/'
  | 'b' => some '\x08'
  | 'f' => some '\x0c'
  | 'n' => some '\n'
  | 'r' => some '\r'
  | 't' => some '\t'
  | _ => none

/-- Where a reader stands inside a string. -/
inductive StringState where
  | plain
  /-- After a backslash. -/
  | escape
  /-- Inside a four digit escape, with the digits still to come; `high` is the first
  half of a pair that this one has to complete. -/
  | hex (left value : Nat) (high : Option Nat)
  /-- After the first half of a pair, before the backslash of the second. -/
  | pairBackslash (high : Nat)
  /-- After that backslash. -/
  | pairMark (high : Nat)

/-- What a complete four digit escape gives: a character, or the first half of a pair. -/
def unitOrHalf (value : Nat) (high : Option Nat) : Option (Char ⊕ Nat) :=
  match high with
  | some h =>
      if 0xDC00 ≤ value ∧ value ≤ 0xDFFF then
        some (.inl (Char.ofNat (0x10000 + (h - 0xD800) * 0x400 + (value - 0xDC00))))
      else none
  | none =>
      if 0xD800 ≤ value ∧ value ≤ 0xDBFF then some (.inr value)
      else if 0xDC00 ≤ value ∧ value ≤ 0xDFFF then none
      else some (.inl (Char.ofNat value))

/-- The rest of a string after its opening quote. -/
def stringFrom : StringState → List Glyph → Option (List Char × List Glyph)
  | _, [] => none
  | _, .stray _ :: _ => none
  | .plain, .char c :: rest =>
      if c = '"' then some ([], rest)
      else if c = '\\' then stringFrom .escape rest
      else if c.toNat < 0x20 then none
      else (stringFrom .plain rest).map fun (cs, after) => (c :: cs, after)
  | .escape, .char c :: rest =>
      if c = 'u' then stringFrom (.hex 4 0 none) rest
      else do
        let e ← shortEscape? c
        let (cs, after) ← stringFrom .plain rest
        return (e :: cs, after)
  | .hex left value high, .char c :: rest => do
      let digit ← hexDigit? c
      let value := value * 16 + digit
      if left ≤ 1 then
        match ← unitOrHalf value high with
        | .inl e => do
            let (cs, after) ← stringFrom .plain rest
            return (e :: cs, after)
        | .inr half => stringFrom (.pairBackslash half) rest
      else stringFrom (.hex (left - 1) value high) rest
  | .pairBackslash high, .char c :: rest =>
      if c = '\\' then stringFrom (.pairMark high) rest else none
  | .pairMark high, .char c :: rest =>
      if c = 'u' then stringFrom (.hex 4 0 (some high)) rest else none

def string : List Glyph → Option (String × List Glyph)
  | .char '"' :: rest => (stringFrom .plain rest).map fun (cs, after) => (String.ofList cs, after)
  | _ => none

/-- Passes over the rest of a string after its opening quote, `digits` hexadecimal
digits of an escape being due. -/
def skipStringFrom (digits : Nat) (escaped : Bool) : List Glyph → Option (List Glyph)
  | [] => none
  | .stray _ :: rest => if digits = 0 && !escaped then skipStringFrom 0 false rest else none
  | .char c :: rest =>
      if 0 < digits then
        if (hexDigit? c).isSome then skipStringFrom (digits - 1) false rest else none
      else if escaped then
        if c = 'u' then skipStringFrom 4 false rest
        else if (shortEscape? c).isSome then skipStringFrom 0 false rest
        else none
      else if c = '"' then some rest
      else if c = '\\' then skipStringFrom 0 true rest
      else if c.toNat < 0x20 then none
      else skipStringFrom 0 false rest

/-! ## Numbers -/

/-- The digits at the start of the input. -/
def takeDigits : List Glyph → List Nat × List Glyph
  | .char c :: rest =>
      if c.isDigit then
        let (ds, after) := takeDigits rest
        ((c.toNat - '0'.toNat) :: ds, after)
      else ([], .char c :: rest)
  | input => ([], input)

/-- Takes digits into a significand for as long as it stays below `2 ^ 64`, and returns
how many were taken and how many were left out. -/
def accumulate (significand : Nat) : List Nat → Nat × Nat × Nat
  | [] => (significand, 0, 0)
  | d :: rest =>
      let next := significand * 10 + d
      if next < Word.size 64 then
        let (s, taken, left) := accumulate next rest
        (s, taken + 1, left)
      else (significand, 0, rest.length + 1)

/-- The sign and the digits of an exponent, from its `e` on. -/
def exponent? : List Glyph → Option (Int × List Glyph)
  | .char c :: rest =>
      if c = 'e' ∨ c = 'E' then
        let (negative, rest) :=
          match rest with
          | .char '+' :: r => (false, r)
          | .char '-' :: r => (true, r)
          | r => (false, r)
        match takeDigits rest with
        | ([], _) => none
        | (ds, after) =>
            let n : Nat := ds.foldl (fun acc d => acc * 10 + d) 0
            some (if negative then -n else n, after)
      else some (0, .char c :: rest)
  | input => some (0, input)

/-- Divides by powers of ten that are themselves numbers, at most `steps` of them. -/
def scaleDown : Nat → Double → Nat → Option Double
  | 0, f, _ => some f
  | steps + 1, f, k =>
      if k ≤ 308 then Double.pow10 k >>= f.div
      else if f.mantissa = 0 then some f
      else do scaleDown steps (← f.div (← Double.pow10 308)) (k - 308)

/-- The number `significand * 10 ^ k`, rounded after each of the steps: the significand
to a number, and its product with or quotient by a power of ten.  None if the result
is too large. -/
def scaled? (negative : Bool) (significand : Nat) (k : Int) : Option Double := do
  let f ← Double.ofRatio negative significand 1
  if 0 ≤ k then
    if k ≤ 308 then f.mul (← Double.pow10 k.toNat)
    else if f.mantissa = 0 then some f
    else none
  else scaleDown 4 f (-k).toNat

/-- A number without a point or exponent is an integer if 64 bits hold it. -/
def wholeNumber (negative : Bool) (significand dropped : Nat) (rest : List Glyph) :
    Option (Json × List Glyph) :=
  if dropped = 0 ∧ !negative then some (.int significand, rest)
  else if dropped = 0 ∧ 0 < significand ∧ significand ≤ Word.size 63 then
    some (.int (-significand), rest)
  else (scaled? negative significand dropped).map fun f => (.float f, rest)

/-- The rest of a number after its whole digits, of which `dropped` are not in the
significand. -/
def afterWhole (negative : Bool) (significand dropped : Nat) (rest : List Glyph) :
    Option (Json × List Glyph) :=
  match rest with
  | .char '.' :: afterPoint =>
      match takeDigits afterPoint with
      | ([], _) => none
      | (fraction, rest) => do
          let (significand, taken, _) := accumulate significand fraction
          let (e, rest) ← exponent? rest
          let f ← scaled? negative significand ((dropped : Int) - taken + e)
          return (.float f, rest)
  | .char c :: _ =>
      if c = 'e' ∨ c = 'E' then do
        let (e, rest) ← exponent? rest
        let f ← scaled? negative significand (dropped + e)
        return (.float f, rest)
      else wholeNumber negative significand dropped rest
  | _ => wholeNumber negative significand dropped rest

/-- A number without its sign.  Digits beyond what 64 bits hold count only by their
place. -/
def unsignedNumber (negative : Bool) (input : List Glyph) : Option (Json × List Glyph) :=
  match takeDigits input with
  | ([], _) => none
  | (0 :: _ :: _, _) => none
  | (ds, rest) =>
      let (significand, _, dropped) := accumulate 0 ds
      afterWhole negative significand dropped rest

def number : List Glyph → Option (Json × List Glyph)
  | .char '-' :: rest => unsignedNumber true rest
  | input => unsignedNumber false input

/-- Passes over a number, whatever its size. -/
def skipNumber (input : List Glyph) : Option (List Glyph) :=
  let input :=
    match input with
    | .char '-' :: rest => rest
    | _ => input
  match takeDigits input with
  | ([], _) => none
  | (0 :: _ :: _, _) => none
  | (_, .char '.' :: afterPoint) =>
      match takeDigits afterPoint with
      | ([], _) => none
      | (_, rest) => (exponent? rest).map (·.2)
  | (_, rest) => (exponent? rest).map (·.2)

/-! ## Values -/

/-- The glyphs after a word, if the input begins with it. -/
def afterWord (word : List Char) (input : List Glyph) : Option (List Glyph) :=
  (word.map Glyph.char).isPrefixOf? input

mutual

/-- A value that may nest less than `depth` levels.  The fuel bounds the number of
nested calls; twice the length of the input is enough. -/
def value : Nat → Nat → List Glyph → Option (Json × List Glyph)
  | 0, _, _ => none
  | fuel + 1, depth, input =>
      match skipBlanks input with
      | .char '"' :: rest => (string (.char '"' :: rest)).map fun (s, after) => (.str s, after)
      | .char '[' :: rest =>
          if depth ≤ 1 then none
          else
            match skipBlanks rest with
            | .char ']' :: after => some (.arr [], after)
            | rest => (items fuel (depth - 1) rest).map fun (vs, after) => (.arr vs, after)
      | .char '\x7b' :: rest =>
          if depth ≤ 1 then none
          else
            match skipBlanks rest with
            | .char '\x7d' :: after => some (.obj [], after)
            | rest =>
                (fields fuel (depth - 1) rest).map fun (fs, after) => (object fs, after)
      | .char 'n' :: rest => (afterWord ['u', 'l', 'l'] rest).map (.null, ·)
      | .char 't' :: rest => (afterWord ['r', 'u', 'e'] rest).map (.bool true, ·)
      | .char 'f' :: rest => (afterWord ['a', 'l', 's', 'e'] rest).map (.bool false, ·)
      | rest => number rest

/-- The items of an array up to its closing bracket; there is at least one. -/
def items : Nat → Nat → List Glyph → Option (List Json × List Glyph)
  | 0, _, _ => none
  | fuel + 1, depth, input => do
      let (v, rest) ← value fuel depth input
      match skipBlanks rest with
      | .char ',' :: rest => do
          let (vs, after) ← items fuel depth rest
          return (v :: vs, after)
      | .char ']' :: after => return ([v], after)
      | _ => none

/-- The fields of an object up to its closing brace; there is at least one. -/
def fields : Nat → Nat → List Glyph → Option (List (String × Json) × List Glyph)
  | 0, _, _ => none
  | fuel + 1, depth, input => do
      let (k, rest) ← string (skipBlanks input)
      match skipBlanks rest with
      | .char ':' :: rest => do
          let (v, rest) ← value fuel depth rest
          match skipBlanks rest with
          | .char ',' :: rest => do
              let (fs, after) ← fields fuel depth rest
              return ((k, v) :: fs, after)
          | .char '\x7d' :: after => return ([(k, v)], after)
          | _ => none
      | _ => none

end

mutual

/-- Passes over a value of any depth. -/
def skip : Nat → List Glyph → Option (List Glyph)
  | 0, _ => none
  | fuel + 1, input =>
      match skipBlanks input with
      | .char '"' :: rest => skipStringFrom 0 false rest
      | .char '[' :: rest =>
          match skipBlanks rest with
          | .char ']' :: after => some after
          | rest => skipItems fuel rest
      | .char '\x7b' :: rest =>
          match skipBlanks rest with
          | .char '\x7d' :: after => some after
          | rest => skipFields fuel rest
      | .char 'n' :: rest => afterWord ['u', 'l', 'l'] rest
      | .char 't' :: rest => afterWord ['r', 'u', 'e'] rest
      | .char 'f' :: rest => afterWord ['a', 'l', 's', 'e'] rest
      | rest => skipNumber rest

def skipItems : Nat → List Glyph → Option (List Glyph)
  | 0, _ => none
  | fuel + 1, input => do
      match skipBlanks (← skip fuel input) with
      | .char ',' :: rest => skipItems fuel rest
      | .char ']' :: after => some after
      | _ => none

def skipFields : Nat → List Glyph → Option (List Glyph)
  | 0, _ => none
  | fuel + 1, input =>
      match skipBlanks input with
      | .char '"' :: rest => do
          match skipBlanks (← skipStringFrom 0 false rest) with
          | .char ':' :: rest => do
              match skipBlanks (← skip fuel rest) with
              | .char ',' :: rest => skipFields fuel rest
              | .char '\x7d' :: after => some after
              | _ => none
          | _ => none
      | _ => none

end

def fuelFor (input : List Glyph) : Nat :=
  2 * input.length + 2

/-- The one value of an input, with nothing but blanks around it. -/
def read? (depth : Nat) (input : List Glyph) : Option Json := do
  let (v, rest) ← value (fuelFor input) depth input
  if (skipBlanks rest).isEmpty then some v else none

def parse? (text : String) : Option Json :=
  read? depthLimit (Glyph.ofString text)

end EventSourcing.Json
