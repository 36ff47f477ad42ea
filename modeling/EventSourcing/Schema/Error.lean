import EventSourcing.Method
import EventSourcing.NodePath
import EventSourcing.Source.Index

/-!
# Schema.Error -- why a schema is refused

A schema is refused for the form of something in it, or because its parts contradict each
other.  Either way the error says where.
-/

namespace EventSourcing.Schema

set_option autoImplicit false

/-- What has a name in a schema. -/
inductive Named where
  | event
  | projection
  | state
  | property
  | service
  | method
  deriving DecidableEq, Repr

def Named.text : Named → String
  | event => "event"
  | projection => "projection"
  | state => "state"
  | property => "property"
  | service => "service"
  | method => "method"

inductive StateRole where
  | source
  | target
  deriving DecidableEq, Repr

def StateRole.text : StateRole → String
  | source => "source"
  | target => "target"

/-- What is wrong with the form of something. -/
inductive Malformation where
  | document
  | name (what : Named) (name : String) (defect : Name.Defect)
  | typeReference (reference : String) (defect : TypeRef.Defect)
  | transition (expression : String)
  | methodType (word : String)
  deriving DecidableEq, Repr

/-- A contradiction in a schema, or between a schema and the sources. -/
inductive Contradiction where
  | missingEvents
  | missingServices
  | missingMethods
  | missingStates
  | duplicateState (state : String)
  | undefinedEvent (event : String)
  | undefinedProjection (projection : String)
  | duplicateProjection (projection : String)
  | undefinedState (role : StateRole) (state : String)
  | duplicateTransition (source target : String)
  | createOnTransition (event : String) (createOn transition : NodePath)
  | duplicateEmit (event : String)
  | emitsRequired (kind : EventSourcing.Method.Kind)
  | readonlyEmits
  | unusedEvent (event : String)
  | undefinedTypes (references : List String)
  | ambiguousTypes (references : List String)
  | source (error : Source.LoadError)
  deriving DecidableEq, Repr

/-- Why a schema is refused, and where. -/
inductive Error where
  | malformed (place : NodePath) (what : Malformation)
  | contradictory (place : NodePath) (what : Contradiction)
  /-- The file of the schema cannot be read. -/
  | unreadable
  deriving DecidableEq, Repr

/-- The malformation in words; none where a reader of documents has its own. -/
def Malformation.message? : Malformation → Option String
  | .document => none
  | .name what text defect =>
      some ("invalid " ++ what.text ++ " name " ++ Text.quoted text ++ ": " ++ defect.message)
  | .typeReference reference defect =>
      some ("invalid type reference " ++ Text.quoted reference ++ ": " ++ defect.message)
  | .transition expression =>
      some ("malformed transition " ++ Text.quoted expression ++ ", expected `FROM -> TO`")
  | .methodType word =>
      some ("illegal method type " ++ Text.quoted word ++
        ", expected one of `readonly`, `append`, `transaction`")

/-- The contradiction in words; none where the reader of sources has its own. -/
def Contradiction.message? : Contradiction → Option String
  | .missingEvents => some "missing event declarations"
  | .missingServices => some "missing service declarations"
  | .missingMethods => some "missing method declarations"
  | .missingStates => some "missing state declarations"
  | .duplicateState state => some ("duplicate state " ++ Text.quoted state)
  | .undefinedEvent event => some ("undefined event " ++ Text.quoted event)
  | .undefinedProjection projection => some ("undefined projection " ++ Text.quoted projection)
  | .duplicateProjection projection => some ("duplicate projection " ++ Text.quoted projection)
  | .undefinedState role state =>
      some ("undefined " ++ role.text ++ " state " ++ Text.quoted state)
  | .duplicateTransition before after =>
      some ("duplicate transition (" ++ before ++ " -> " ++ after ++ ")")
  | .createOnTransition event createOn transition =>
      some ("event " ++ event ++ " is used for both " ++ createOn.text ++ " and " ++
        transition.text)
  | .duplicateEmit event => some ("duplicate event " ++ Text.quoted event)
  | .emitsRequired kind => some ("method type `" ++ kind.text ++ "` requires emits not to be empty")
  | .readonlyEmits => some "method type `readonly` can't emit events"
  | .unusedEvent event => some ("unused event " ++ event)
  | .undefinedTypes references =>
      some ("types (" ++ ", ".intercalate references ++ ") undefined in source")
  | .ambiguousTypes references =>
      some ("types (" ++ ", ".intercalate references ++ ") declared more than once in source")
  | .source _ => none

namespace Error

def place? : Error → Option NodePath
  | .malformed place _ => some place
  | .contradictory place _ => some place
  | .unreadable => none

/-- The error in words; none where a reader has its own. -/
def message? : Error → Option String
  | .malformed place what =>
      what.message?.map fun m => "syntax error in " ++ place.text ++ ": " ++ m
  | .contradictory place what =>
      what.message?.map fun m => "semantic error in " ++ place.text ++ ": " ++ m
  | .unreadable => none

end Error

end EventSourcing.Schema
