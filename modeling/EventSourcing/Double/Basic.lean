/-!
# Double -- finite binary floating point numbers

The finite numbers of the binary64 format, kept as sign, mantissa and exponent, with
the two roundings that reading and arithmetic need.  All arithmetic is exact on
natural numbers, so every rounding happens in one place: `Double.ofRatio`.
-/

namespace EventSourcing

set_option autoImplicit false

/-- The number `± mantissa * 2 ^ exponent`.  The numbers built here have a mantissa of
at most 53 bits, an exponent between -1074 and 971, and the smallest exponent that
allows. -/
structure Double where
  negative : Bool
  mantissa : Nat
  exponent : Int
  deriving DecidableEq, Repr

namespace Double

def minExponent : Int := -1074

def maxExponent : Int := 971

def zero (negative : Bool) : Double := ⟨negative, 0, minExponent⟩

/-- `num / den` divided by `2 ^ e`, as a quotient again. -/
def scale (num den : Nat) (e : Int) : Nat × Nat :=
  if 0 ≤ e then (num, den * Nat.pow 2 e.toNat) else (num * Nat.pow 2 (-e).toNat, den)

/-- The whole number nearest to `num / den`; a half goes to the even neighbour. -/
def roundHalfEven (num den : Nat) : Nat :=
  let quotient := num / den
  let rest := num % den
  if 2 * rest < den then quotient
  else if den < 2 * rest then quotient + 1
  else quotient + quotient % 2

/-- The double nearest to `± num / den`; none if that is beyond the greatest one. -/
def ofRatio (negative : Bool) (num den : Nat) : Option Double :=
  if num = 0 then some (zero negative)
  else
    let low := max ((num.log2 : Int) - (den.log2 : Int) - 53) minExponent
    let wide := scale num den low
    let e := if Nat.pow 2 53 ≤ wide.1 / wide.2 then low + 1 else low
    let exact := scale num den e
    let m := roundHalfEven exact.1 exact.2
    let (m, e) := if m = Nat.pow 2 53 then (Nat.pow 2 52, e + 1) else (m, e)
    if maxExponent < e then none else some ⟨negative, m, e⟩

def ratio (d : Double) : Nat × Nat :=
  if 0 ≤ d.exponent then (d.mantissa * Nat.pow 2 d.exponent.toNat, 1)
  else (d.mantissa, Nat.pow 2 (-d.exponent).toNat)

/-- The double nearest to a product. -/
def mul (a b : Double) : Option Double :=
  let (p, q) := a.ratio
  let (r, s) := b.ratio
  ofRatio (a.negative != b.negative) (p * r) (q * s)

/-- The double nearest to a quotient. -/
def div (a b : Double) : Option Double :=
  let (p, q) := a.ratio
  let (r, s) := b.ratio
  ofRatio (a.negative != b.negative) (p * s) (q * r)

/-- The double nearest to a power of ten. -/
def pow10 (k : Nat) : Option Double :=
  ofRatio false (Nat.pow 10 k) 1

/-- Whether `± num / den` rounds to a finite number. -/
def isFiniteRatio (num den : Nat) : Bool :=
  (ofRatio false num den).isSome

end Double

end EventSourcing
