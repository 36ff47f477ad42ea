/-!
# Text.Boundary -- character classes as lists of boundaries

A class of characters is given by the code points at which membership changes, in
increasing order: the first begins the class, the second ends it, and so on.
-/

namespace EventSourcing.Text

set_option autoImplicit false

/-- Whether `n` lies in the class whose boundaries are given: an odd number of them
is at or below it. -/
def toggles (boundaries : List Nat) (n : Nat) : Bool :=
  go false boundaries
where
  /-- Walks the boundaries, keeping whether the class is open. -/
  go (inside : Bool) : List Nat → Bool
    | [] => inside
    | b :: rest => if n < b then inside else go (!inside) rest

end EventSourcing.Text
