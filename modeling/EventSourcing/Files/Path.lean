/-!
# Files.Path -- the parts of paths

A path is a text with slashes.  Needless slashes and dots do not count, except for a dot
at the very beginning.
-/

namespace EventSourcing.Files

set_option autoImplicit false

inductive Component where
  | root
  | here
  | up
  | name (text : String)
  deriving DecidableEq, Repr

namespace Component

def text : Component → String
  | root => "/"
  | here => "."
  | up => ".."
  | name t => t

end Component

/-- The part that a piece of a path between slashes stands for; `first` if the path
begins with it. -/
def component? (first : Bool) (piece : List Char) : Option Component :=
  if piece.isEmpty then none
  else if piece = ['.'] then if first then some .here else none
  else if piece = ['.', '.'] then some .up
  else some (.name (String.ofList piece))

def components (path : String) : List Component :=
  match path.toList.splitOn '/' with
  | [] => []
  | first :: rest =>
      let start :=
        if first.isEmpty then if rest.isEmpty then [] else [.root]
        else (component? true first).toList
      start ++ rest.filterMap (component? false)

/-- A name behind a path, with a slash between them unless the path is empty or ends in one. -/
def join (path name : String) : String :=
  match path.toList.getLast? with
  | none | some '/' => path ++ name
  | some _ => path ++ "/" ++ name

/-- The parts of a path's directory; none if there is no directory. -/
def parent (path : String) : List Component :=
  match (components path).getLast? with
  | none => []
  | some .root => []
  | some _ => (components path).dropLast

/-- The name of the file that a path leads to, unless it ends in something else. -/
def fileName? (path : String) : Option String :=
  match (components path).getLast? with
  | some (.name t) => some t
  | _ => none

/-- A file name's parts before and after its last dot.  A dot at the beginning does not
count. -/
def splitName (name : String) : String × Option String :=
  let back := name.toList.reverse
  let after := back.takeWhile (· != '.')
  match back.dropWhile (· != '.') with
  | [] => (name, none)
  | [_] => (name, none)
  | _ :: before => (String.ofList before.reverse, some (String.ofList after.reverse))

def stem? (path : String) : Option String :=
  (fileName? path).map fun name => (splitName name).1

def extension? (path : String) : Option String :=
  (fileName? path).bind fun name => (splitName name).2

end EventSourcing.Files
