import EventSourcing.Files.Path
import EventSourcing.Source.Grammar.File
import EventSourcing.TypeRef
import EventSourcing.Text.Blank

/-!
# Source.Index -- the types that sources declare

Types are found by the modules that lead to them and their name.  The modules of a file
are those of its path, and modules that stand in the file follow them.  Where one name is
declared more than once, all declarations are kept.
-/

namespace EventSourcing.Source

set_option autoImplicit false

/-- A declared type: what it is, where its name stands, and its documentation. -/
structure Declaration where
  kind : DeclarationKind
  file : String
  place : Position
  doc : List String
  deriving DecidableEq, Repr

/-- A declaration under the modules and name that lead to it. -/
structure Entry where
  modules : List String
  name : String
  declaration : Declaration
  deriving DecidableEq, Repr

structure Index where
  entries : List Entry
  deriving DecidableEq, Repr

/-- What a reference leads to. -/
inductive Resolution where
  | found (declaration : Declaration)
  | missing
  | ambiguous (count : Nat)
  deriving DecidableEq, Repr

/-! ## Documentation -/

/-- A line of documentation without the space that sets it off and without white space at
its end. -/
def docLine (line : String) : String :=
  let cs :=
    match line.toList with
    | ' ' :: rest => rest
    | cs => cs
  String.ofList (Text.trimEnd cs)

def Attribute.docLines (a : Attribute) : List String :=
  if a.isNamed "doc" then
    match a.form with
    | .value [.literal (.text value) _] => (Text.lines value).map docLine
    | _ => []
  else []

/-! ## Modules -/

/-- The file names that stand for the module of their directory. -/
def directoryNames : List String := ["lib", "main", "mod"]

def fileModules (path : String) : List String :=
  let directories := (Files.parent path).map Files.Component.text
  match Files.stem? path with
  | none => directories
  | some stem => if directoryNames.contains stem then directories else directories ++ [stem]

mutual

/-- The declarations of an item that stands in some modules. -/
def Item.entries (file : String) (modules : List String) : Item → List Entry
  | .type kind name place attributes =>
      [⟨modules, name, ⟨kind, file, place, attributes.flatMap Attribute.docLines⟩⟩]
  | .module name items => Item.entriesOf file (modules ++ [name]) items
  | .other => []

def Item.entriesOf (file : String) (modules : List String) : List Item → List Entry
  | [] => []
  | item :: rest => Item.entries file modules item ++ Item.entriesOf file modules rest

end

/-! ## The index -/

namespace Index

def empty : Index := ⟨[]⟩

def size (index : Index) : Nat := index.entries.length

def merge (a b : Index) : Index := ⟨a.entries ++ b.entries⟩

/-- The declarations that a reference may mean. -/
def find (index : Index) (r : TypeRef) : List Declaration :=
  (index.entries.filter fun e => e.modules = r.modules ∧ e.name = r.name).map (·.declaration)

def resolve (index : Index) (r : TypeRef) : Resolution :=
  match index.find r with
  | [] => .missing
  | [d] => .found d
  | many => .ambiguous many.length

/-- Adds a file: `path` gives its modules, and `file` is what it is called.  None if the
content is malformed. -/
def addFile? (index : Index) (file path content : String) : Option Index :=
  (fileItems? content).map fun items =>
    index.merge ⟨Item.entriesOf file (fileModules path) items⟩

end Index

inductive LoadError where
  | notADirectory (path : String)
  | unreadable (path : String)
  | malformed (path : String)
  deriving DecidableEq, Repr

def Index.add (index : Index) (path content : String) : Except LoadError Index :=
  match index.addFile? path path content with
  | some index => .ok index
  | none => .error (.malformed path)

end EventSourcing.Source
