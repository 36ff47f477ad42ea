import EventSourcing.Text.Blank

/-!
# Document -- a schema as it is written

A document declares events, projections and services by name, in an order that is
kept.  Nothing in it has been checked: names may be wrong and references may lead
nowhere.  What is left out is `none`; a section with nothing in it is `some []`.
-/

namespace EventSourcing.Document

set_option autoImplicit false

/-- Declarations by name, in the order of the document. -/
abbrev Named (α : Type) := List (String × α)

/-- Adds a declaration.  A name that is there already keeps its place and gets the new
value. -/
def put {α : Type} (name : String) (value : α) : Named α → Named α
  | [] => [(name, value)]
  | (n, v) :: rest => if n = name then (n, value) :: rest else (n, v) :: put name value rest

/-- The declarations of a list in which names may repeat. -/
def named {α : Type} (entries : List (String × α)) : Named α :=
  entries.foldl (fun acc (n, v) => put n v acc) []

/-- The documentation of a property: a text, or its lines. -/
inductive Documentation where
  | text (text : String)
  | lines (lines : List String)
  deriving DecidableEq, Repr

/-- A property: the reference to its type, alone or with documentation. -/
inductive Property where
  | type (reference : String)
  | documented (reference : String) (doc : Option Documentation)
  deriving DecidableEq, Repr

/-- A projection: its states, of which the first is the initial one, its properties, the
event that creates an instance, and the transitions on the events after that. -/
structure Projection where
  states : List String
  properties : Option (Named Property)
  createOn : String
  transitions : Option (Named (List String))
  deriving DecidableEq, Repr

/-- A method: the references to the types of its input and output, the word for its
kind, and the events it may emit. -/
structure Method where
  input : Option String
  output : Option String
  kind : Option String
  emits : List String
  deriving DecidableEq, Repr

structure Service where
  projections : List String
  methods : Option (Named (Option Method))
  deriving DecidableEq, Repr

namespace Property

def reference : Property → String
  | type r => r
  | documented r _ => r

def doc : Property → List String
  | type _ => []
  | documented _ none => []
  | documented _ (some (.text t)) => Text.lines t
  | documented _ (some (.lines ls)) => ls

end Property

def Method.empty : Method := ⟨none, none, none, []⟩

end EventSourcing.Document

namespace EventSourcing

structure Document where
  events : Option (Document.Named (Option (Document.Named Document.Property)))
  projections : Option (Document.Named Document.Projection)
  services : Option (Document.Named Document.Service)
  deriving DecidableEq, Repr

def Document.empty : Document := ⟨none, none, none⟩

end EventSourcing
