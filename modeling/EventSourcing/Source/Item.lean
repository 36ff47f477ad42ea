import EventSourcing.Source.Token

/-!
# Source.Item -- what the items of a source declare

Of a source file only the type declarations and the modules around them matter here,
with the attributes of the declarations.  The other kinds of items are told apart from
these and from each other only by the grammar.
-/

namespace EventSourcing.Source

set_option autoImplicit false

/-- What follows the path of an attribute. -/
inductive AttributeForm where
  | alone
  | arguments (delimiter : Delimiter) (trees : List Tree)
  | value (trees : List Tree)
  deriving Repr

/-- An attribute: the segments of its path, and whether it begins at the root. -/
structure Attribute where
  rooted : Bool
  segments : List String
  form : AttributeForm
  deriving Repr

/-- Whether an attribute has a path of the one segment `name`. -/
def Attribute.isNamed (a : Attribute) (name : String) : Bool :=
  !a.rooted && a.segments == [name]

inductive DeclarationKind where
  | struct
  | enum
  | union
  | alias
  deriving DecidableEq, Repr

inductive Item where
  /-- A type, with the place of its name. -/
  | type (kind : DeclarationKind) (name : String) (place : Position) (attributes : List Attribute)
  /-- A module with its items. -/
  | module (name : String) (items : List Item)
  /-- Anything else, a module without a body included. -/
  | other
  deriving Repr

/-! ## Types with all their parts -/

structure Parameter where
  isLifetime : Bool
  /-- The parameter as an argument. -/
  name : String
  /-- The parameter with its attributes and bounds and without its default. -/
  declared : String
  /-- Whether a comma follows. -/
  comma : Bool
  deriving Repr

/-- Generic parameters and the conditions on them, as far as there are any. -/
structure Generics where
  parameters : List Parameter
  conditions : Option String
  deriving Repr

inductive Fields where
  | unit
  /-- Fields without names: the trees of their types. -/
  | tuple (types : List (List Tree))
  | named
  deriving Repr

structure Variant where
  attributes : List Attribute
  name : String
  fields : Fields
  deriving Repr

inductive TypeBody where
  | struct
  | enum (variants : List Variant)
  | union
  deriving Repr

structure TypeDeclaration where
  attributes : List Attribute
  name : String
  generics : Generics
  body : TypeBody
  deriving Repr

end EventSourcing.Source
