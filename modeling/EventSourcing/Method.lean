import EventSourcing.Text.Quoted

/-!
# Method -- what the methods of a service may do

A method only reads, appends events without looking back, or appends them in a
transaction with what it read.
-/

namespace EventSourcing.Method

set_option autoImplicit false

/-- How a method deals with the log. -/
inductive Kind where
  /-- Reads the projection and leaves the log alone. -/
  | readonly
  /-- Appends its events whatever happened meanwhile. -/
  | append
  /-- Appends its events only after what it read. -/
  | transaction
  deriving DecidableEq, Repr

namespace Kind

def text : Kind → String
  | readonly => "readonly"
  | append => "append"
  | transaction => "transaction"

def parse? (word : String) : Option Kind :=
  if word = "readonly" then some readonly
  else if word = "append" then some append
  else if word = "transaction" then some transaction
  else none

theorem parse?_text (k : Kind) : parse? k.text = some k := by
  cases k <;> rfl

theorem parse?_eq_some_iff {word : String} {k : Kind} : parse? word = some k ↔ word = k.text := by
  constructor
  · intro read
    unfold parse? at read
    split at read
    · cases read; assumption
    · split at read
      · cases read; assumption
      · split at read
        · cases read; assumption
        · cases read
  · rintro rfl
    exact parse?_text k

def unknownMessage (word : String) : String :=
  "unknown method type " ++ Text.quoted word

end Kind

end EventSourcing.Method
