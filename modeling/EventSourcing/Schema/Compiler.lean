import EventSourcing.Document.Reader
import EventSourcing.Schema.Compile
import EventSourcing.Source.Root

/-!
# Schema.Compiler -- compiling with sources

A compiler knows sources: some that it has read already and roots that are read when a
document turns out to be sound in itself.
-/

namespace EventSourcing.Schema

set_option autoImplicit false

/-- The sources that types are looked for in. -/
structure Compiler where
  sources : Source.Index
  roots : List Source.Root

namespace Compiler

def new : Compiler := ⟨.empty, []⟩

/-- Also looks for types in a directory. -/
def addRoot (c : Compiler) (root : Source.Root) : Compiler :=
  { c with roots := c.roots ++ [root] }

/-- Also looks for types in sources that have been read already. -/
def addSources (c : Compiler) (sources : Source.Index) : Compiler :=
  { c with sources := c.sources.merge sources }

def compileDocument (c : Compiler) (raw : String) (document : Document) :
    Except Error Schema := do
  let d ← draft document
  match Source.Root.loadAll c.roots c.sources with
  | (sources, none) => d.resolve raw sources
  | (_, some failure) => .error (.contradictory .root (.source failure))

def compileText (c : Compiler) (raw : String) : Except Error Schema :=
  match Document.read? raw with
  | some document => c.compileDocument raw document
  | none => .error (.malformed .root .document)

def compileFile (c : Compiler) (text : Option String) : Except Error Schema :=
  match text with
  | some raw => c.compileText raw
  | none => .error .unreadable

end Compiler

end EventSourcing.Schema
