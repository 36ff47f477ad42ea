import EventSourcing.Files.Directory
import EventSourcing.Source.Index

/-!
# Source.Root -- directories of sources

A root is a directory whose source files are all read, one after the other in the order
of their paths.  Directories that are hidden or hold results are passed over, and so are
links to directories.
-/

namespace EventSourcing.Source

set_option autoImplicit false

open EventSourcing.Files (Entries Node)

/-- A place where sources should be: its name, and the directory there if there is one. -/
structure Root where
  name : String
  directory : Option Entries

def isPassedOver (directory : String) : Bool :=
  directory == "target" || directory.toList.head? == some '.'

def sourceExtension : String := "rs"

/-- The outcome of reading sources: what was found, and why the reading ended early if it
did. -/
abbrev Loaded := Index × Option LoadError

namespace Root

def path (root : Root) (names : List String) : String :=
  names.foldl Files.join root.name

/-- Reads a source file of the root that stands in a directory under a name. -/
def loadFile (root : Root) (entries : Entries) (directory : List String) (name : String)
    (index : Index) : Loaded :=
  let full := root.path (directory ++ [name])
  match entries.text? directory name with
  | none => (index, some (.unreadable full))
  | some content =>
      match index.addFile? full ("/".intercalate (directory ++ [name])) content with
      | some index => (index, none)
      | none => (index, some (.malformed full))

/-- Makes some readings one after the other, up to the first failure. -/
def inTurn : List (Index → Loaded) → Index → Loaded
  | [], index => (index, none)
  | read :: rest, index =>
      match read index with
      | (index, none) => inTurn rest index
      | failed => failed

mutual

/-- Reads what stands in a directory under a name.  The sources in a directory are read in the
order of the names in it. -/
def visit (root : Root) (entries : Entries) (directory : List String) (name : String) :
    Node → Index → Loaded
  | .directory inner =>
      if isPassedOver name then (·, none)
      else inTurn ((Files.byName (visits root entries (directory ++ [name]) inner)).map (·.2))
  | _ =>
      if Files.extension? name = some sourceExtension then
        root.loadFile entries directory name
      else (·, none)

/-- How each entry of a directory is read, as the directory lists them. -/
def visits (root : Root) (entries : Entries) (directory : List String) :
    List (String × Node) → List (String × (Index → Loaded))
  | [] => []
  | (name, node) :: rest =>
      (name, visit root entries directory name node) :: visits root entries directory rest

end

/-- Reads the sources below a directory of the root, up to the first failure.  In whatever order
the directory lists its entries, they are sorted first. -/
def walk (root : Root) (entries : Entries) (directory : List String)
    (listed : List (String × Node)) : Index → Loaded :=
  inTurn ((Files.byName (root.visits entries directory listed)).map (·.2))

/-- Adds the sources of a root to an index.  What was found before a failure is kept. -/
def load (root : Root) (index : Index) : Loaded :=
  match root.directory with
  | none => (index, some (.notADirectory root.name))
  | some entries => root.walk entries [] entries index

/-- Adds the sources of several roots to an index, up to the first failure. -/
def loadAll : List Root → Index → Loaded
  | [], index => (index, none)
  | root :: rest, index =>
      match root.load index with
      | (index, none) => loadAll rest index
      | failed => failed

end Root

end EventSourcing.Source
