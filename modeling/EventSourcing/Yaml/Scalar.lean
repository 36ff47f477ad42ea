import EventSourcing.Double.Basic
import EventSourcing.Word

/-!
# Yaml.Scalar -- what a plain scalar means

Where the type of a value is not known beforehand, a plain scalar may be a null, a
truth value, an integer in one of four bases, or a floating point number; everything
else is text.  Numbers with needless leading zeros are text, and so are numbers too
large for a floating point number.
-/

namespace EventSourcing.Yaml

set_option autoImplicit false

/-- What a scalar stands for. -/
inductive Meaning where
  | null
  | bool (value : Bool)
  | int (value : Int)
  | float
  | text
  deriving DecidableEq, Repr

def isNullWord (s : List Char) : Bool :=
  s == "null".toList || s == "Null".toList || s == "NULL".toList || s == "~".toList

def boolWord? (s : List Char) : Option Bool :=
  if s == "true".toList || s == "True".toList || s == "TRUE".toList then some true
  else if s == "false".toList || s == "False".toList || s == "FALSE".toList then some false
  else none

def digit? (c : Char) : Option Nat :=
  if c.isDigit then some (c.toNat - '0'.toNat)
  else if 'a' ≤ c ∧ c ≤ 'f' then some (c.toNat - 'a'.toNat + 10)
  else if 'A' ≤ c ∧ c ≤ 'F' then some (c.toNat - 'A'.toNat + 10)
  else none

def digits? (base : Nat) (s : List Char) : Option Nat :=
  if s.isEmpty then none
  else s.foldlM (fun acc c => (digit? c).bind fun d =>
    if d < base then some (acc * base + d) else none) 0

/-- Whether the text is a sign and several digits of which the first is a zero. -/
def hasLeadingZero (s : List Char) : Bool :=
  let s := match s with
    | '-' :: r => r
    | '+' :: r => r
    | r => r
  match s with
  | '0' :: _ :: _ => s.all Char.isDigit
  | _ => false

/-- The digits of a number in the base its beginning names. -/
def basedDigits? : List Char → Option Nat
  | '0' :: 'x' :: rest => digits? 16 rest
  | '0' :: 'o' :: rest => digits? 8 rest
  | '0' :: 'b' :: rest => digits? 2 rest
  | _ => none

/-- An integer of at most 128 bits. -/
def int? (s : List Char) : Option Int :=
  let fits (n : Nat) : Option Int := if n < Word.size 128 then some n else none
  let fitsNegative (n : Nat) : Option Int := if n ≤ Word.size 127 then some (-n) else none
  let magnitude? (body : List Char) : Option Nat :=
    (basedDigits? body).orElse fun _ => if hasLeadingZero s then none else digits? 10 body
  match s with
  | '-' :: body => (magnitude? body).bind fitsNegative
  | '+' :: body => (magnitude? body).bind fits
  | body => (magnitude? body).bind fits

/-- A decimal number without a sign: its digits, and where its point stands. -/
def decimal? (s : List Char) : Option (List Char × Int) :=
  let whole := s.takeWhile Char.isDigit
  let rest := s.dropWhile Char.isDigit
  let (fraction, rest) :=
    match rest with
    | '.' :: r => (r.takeWhile Char.isDigit, r.dropWhile Char.isDigit)
    | r => ([], r)
  if whole.isEmpty && fraction.isEmpty then none
  else
    let digits := whole ++ fraction
    let place : Int := -(fraction.length : Int)
    match rest with
    | [] => some (digits, place)
    | e :: r =>
        if e == 'e' || e == 'E' then
          let (negative, r) :=
            match r with
            | '-' :: r => (true, r)
            | '+' :: r => (false, r)
            | r => (false, r)
          (digits? 10 r).map fun n => (digits, place + if negative then -(n : Int) else n)
        else none

/-- Whether the number with the given digits and place is small enough for a floating
point number. -/
def isFiniteDecimal (digits : List Char) (place : Int) : Bool :=
  let digits := digits.dropWhile (· == '0')
  let n := (digits? 10 digits).getD 0
  if n = 0 then true
  else if 400 < (digits.length : Int) + place then false
  else if (digits.length : Int) + place < -400 then true
  else if 0 ≤ place then Double.isFiniteRatio (n * Nat.pow 10 place.toNat) 1
  else Double.isFiniteRatio n (Nat.pow 10 (-place).toNat)

/-- Whether the text is a floating point number. -/
def isFloat (s : List Char) : Bool :=
  let special (r : List Char) : Bool :=
    r == ".inf".toList || r == ".Inf".toList || r == ".INF".toList
  let number (r : List Char) : Bool := (decimal? r).any fun (ds, place) => isFiniteDecimal ds place
  match s with
  | '+' :: r => special r || number r
  | '-' :: r => special r || number r
  | r => special r || r == ".nan".toList || r == ".NaN".toList || r == ".NAN".toList || number r

def plainMeaning (text : String) : Meaning :=
  let s := text.toList
  if s.isEmpty || isNullWord s then .null
  else
    match boolWord? s with
    | some b => .bool b
    | none =>
        match int? s with
        | some n => .int n
        | none => if !hasLeadingZero s && isFloat s then .float else .text

/-- The meaning of a scalar with a tag.  Four tags ask for a type and are an error where
the text has another; a local tag is an error everywhere; under all other tags a
scalar is text. -/
def meaning? (tag : Option String) (text : String) (plain : Bool) : Option Meaning :=
  let s := text.toList
  match tag with
  | none => some (if plain then plainMeaning text else .text)
  | some t =>
      if t = "tag:yaml.org,2002:bool" then (boolWord? s).map .bool
      else if t = "tag:yaml.org,2002:int" then (int? s).map .int
      else if t = "tag:yaml.org,2002:float" then if isFloat s then some .float else none
      else if t = "tag:yaml.org,2002:null" then if isNullWord s then some .null else none
      else if t.toList.head? = some '!' then none
      else some .text

end EventSourcing.Yaml
