import EventSourcing.Files.Path
import EventSourcing.Text.Glyph

/-!
# Files.Directory -- trees of files

A directory lists files, directories and links by name, in whatever order; `byName` puts
them in the order of their names.  Reading follows links; a link that leads out of the tree
leads nowhere.
-/

namespace EventSourcing.Files

set_option autoImplicit false

/-- Something that has a name in a directory. -/
inductive Node where
  | file (bytes : List UInt8)
  | link (target : String)
  | directory (entries : List (String × Node))
  deriving Repr

/-- The content of a directory, as it is listed. -/
abbrev Entries := List (String × Node)

/-- What has names, in the order of the names. -/
def byName {α : Type} (listed : List (String × α)) : List (String × α) :=
  listed.mergeSort fun x y => x.1 ≤ y.1

namespace Entries

/-- Puts something under a name, in place of what has that name. -/
def insert (name : String) (node : Node) : Entries → Entries
  | [] => [(name, node)]
  | (n, old) :: rest =>
      if n = name then (name, node) :: rest
      else (n, old) :: insert name node rest

/-- The content of the directory with a name; nothing if there is none. -/
def inside (entries : Entries) (name : String) : Entries :=
  match entries.lookup name with
  | some (.directory inner) => inner
  | _ => []

/-- Puts something at the end of a path of names, with the directories on the way. -/
def put (entries : Entries) : List String → Node → Entries
  | [], _ => entries
  | [name], .directory [] => entries.insert name (.directory (entries.inside name))
  | [name], node => entries.insert name node
  | name :: rest, node => entries.insert name (.directory (put (entries.inside name) rest node))

/-- What stands at the end of a path of names, without following links. -/
def node? (entries : Entries) : List String → Option Node
  | [] => some (.directory entries)
  | name :: rest =>
      match entries.lookup name, rest with
      | some node, [] => some node
      | some (.directory inner), rest => node? inner rest
      | _, _ => none

/-- How many links may be followed on the way to a file. -/
def linkLimit : Nat := 40

/-- Follows a path from a directory of the tree to what is no link.  The fuel bounds the
number of parts that are passed. -/
def follow (entries : Entries) : Nat → Nat → List String → List Component → Option Node
  | 0, _, _, _ => none
  | _ + 1, _, directory, [] => entries.node? directory
  | fuel + 1, links, directory, part :: rest =>
      match part with
      | .root => none
      | .here => follow entries fuel links directory rest
      | .up =>
          if directory.isEmpty then none else follow entries fuel links directory.dropLast rest
      | .name n =>
          match entries.node? (directory ++ [n]) with
          | none => none
          | some (.file bytes) => if rest.isEmpty then some (.file bytes) else none
          | some (.directory _) => follow entries fuel links (directory ++ [n]) rest
          | some (.link target) =>
              match links with
              | 0 => none
              | links + 1 => follow entries fuel links directory (components target ++ rest)

/-- The bytes of the file that a path from a directory of the tree leads to. -/
def bytes? (entries : Entries) (directory : List String) (path : String) :
    Option (List UInt8) :=
  match follow entries 4096 linkLimit directory (components path) with
  | some (.file bytes) => some bytes
  | _ => none

/-- The text of the file that a path from a directory of the tree leads to; none if there
is no such file, or if it is no text. -/
def text? (entries : Entries) (directory : List String) (path : String) : Option String :=
  (entries.bytes? directory path).bind fun bytes => Text.Glyph.toText? (Text.Glyph.ofBytes bytes)

end Entries

end EventSourcing.Files
