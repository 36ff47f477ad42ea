import EventSourcing.Document.Basic
import EventSourcing.Yaml.Value
import EventSourcing.Yaml.Scalar

/-!
# Document.Reader -- documents from YAML

The shape of a document.  Where a text is expected, a scalar is taken as it is written.
A property may be a text or a mapping, so there a scalar counts only if it means text.
Where a collection is expected, nothing at all is an empty collection.  Every reader
below gives `none` for a value of another shape.
-/

namespace EventSourcing.Document

set_option autoImplicit false

open EventSourcing.Yaml (Value)

namespace Reader

/-- The text of a scalar, whatever it means. -/
def text? : Value → Option String
  | .scalar _ text _ => some text
  | _ => none

def items? : Value → Option (List Value)
  | .sequence _ items => some items
  | .scalar _ "" true => some []
  | _ => none

def entries? : Value → Option (List (Value × Value))
  | .mapping _ entries => some entries
  | .scalar _ "" true => some []
  | _ => none

def texts? (v : Value) : Option (List String) := do
  (← items? v).mapM text?

/-- A value that may be left out: nothing and null are `none`. -/
def optional? {α : Type} (read : Value → Option α) (v : Value) : Option (Option α) :=
  match v with
  | .scalar tag text true =>
      let absent :=
        match tag with
        | some tag =>
            if tag = "tag:yaml.org,2002:null" then
              if Yaml.isNullWord text.toList then some true else none
            else some false
        | none => some (text.isEmpty || Yaml.isNullWord text.toList)
      match absent with
      | none => none
      | some true => some none
      | some false => (read v).map some
  | _ => (read v).map some

def named? {α : Type} (read : Value → Option α) (v : Value) : Option (Named α) := do
  let entries ← (← entries? v).mapM fun (k, v) => do return (← text? k, ← read v)
  return named entries

/-- The fields of a structure, all of them among `known` and none of them twice. -/
def fields? (known : List String) (v : Value) : Option (List (String × Value)) := do
  let fields ← (← entries? v).mapM fun (k, v) => do return (← text? k, v)
  if fields.all (fun f => known.contains f.1) && (fields.map Prod.fst).Nodup then some fields
  else none

/-- A field that has a default. -/
def field? {α : Type} (fields : List (String × Value)) (name : String) (default : α)
    (read : Value → Option α) : Option α :=
  match fields.lookup name with
  | none => some default
  | some v => read v

/-- A text where a scalar could mean something else. -/
def meantText? : Value → Option String
  | .scalar tag text plain =>
      if Yaml.meaning? tag text plain = some .text then some text else none
  | _ => none

/-- Whether a tag is local to the document.  A property may not have such a tag anywhere. -/
def isLocalTag (tag : Option String) : Bool :=
  (tag.bind (·.toList.head?)) == some '!'

/-- The items of a sequence without a local tag. -/
def meantItems? : Value → Option (List Value)
  | .sequence tag items => if isLocalTag tag then none else some items
  | _ => none

def documentation? (v : Value) : Option (Option Documentation) :=
  match v with
  | .scalar tag text plain =>
      match Yaml.meaning? tag text plain with
      | some .null => some none
      | some .text => some (some (.text text))
      | _ => none
  | _ => do
      let lines ← (← meantItems? v).mapM meantText?
      return some (.lines lines)

inductive PropertyField where
  | type
  | doc
  deriving DecidableEq

/-- The field that a key stands for, by name or by position. -/
def propertyField? : Value → Option PropertyField
  | .scalar tag text plain =>
      match Yaml.meaning? tag text plain with
      | some .text =>
          if text = "type" then some .type else if text = "doc" then some .doc else none
      | some (.int 0) => some .type
      | some (.int 1) => some .doc
      | _ => none
  | _ => none

def documented? : Value → Option Property
  | .mapping tag entries => do
      if isLocalTag tag then none
      let fields ← entries.mapM fun (k, v) => do return (← propertyField? k, v)
      if !(fields.map Prod.fst).Nodup then none
      let type ← meantText? (← fields.lookup .type)
      let doc ←
        match fields.lookup .doc with
        | none => some none
        | some v => documentation? v
      return .documented type doc
  | v => do
      match ← meantItems? v with
      | [type] => return .documented (← meantText? type) none
      | [type, doc] => return .documented (← meantText? type) (← documentation? doc)
      | _ => none

def property? (v : Value) : Option Property :=
  match v with
  | .scalar _ _ _ => (meantText? v).map .type
  | _ => documented? v

def projection? (v : Value) : Option Projection := do
  let fields ← fields? ["states", "properties", "createOn", "transitions"] v
  return {
    states := ← field? fields "states" [] texts?
    properties := ← field? fields "properties" none (optional? (named? property?))
    createOn := ← text? (← fields.lookup "createOn")
    transitions := ← field? fields "transitions" none (optional? (named? texts?)) }

def method? (v : Value) : Option Method := do
  let fields ← fields? ["in", "out", "type", "emits"] v
  return {
    input := ← field? fields "in" none (optional? text?)
    output := ← field? fields "out" none (optional? text?)
    kind := ← field? fields "type" none (optional? text?)
    emits := ← field? fields "emits" [] texts? }

def service? (v : Value) : Option Service := do
  let fields ← fields? ["projections", "methods"] v
  return {
    projections := ← field? fields "projections" [] texts?
    methods := ← field? fields "methods" none (optional? (named? (optional? method?))) }

def document? (v : Value) : Option Document := do
  let fields ← fields? ["events", "projections", "services"] v
  return {
    events := ← field? fields "events" none (optional? (named? (optional? (named? property?))))
    projections := ← field? fields "projections" none (optional? (named? projection?))
    services := ← field? fields "services" none (optional? (named? service?)) }

end Reader

/-- The document a text holds; none if the text is malformed.  A text without any
content is the empty document. -/
def read? (raw : String) : Option Document :=
  if Text.isAllBlank raw then some .empty
  else
    match Yaml.documents? raw with
    | some [] => some .empty
    | some [root] => do
        let v ← root.value?
        return (← Reader.optional? Reader.document? v).getD .empty
    | _ => none

end EventSourcing.Document
