import EventSourcing.Derive.Basic
import EventSourcing.Text.Blank

/-!
# Derive.Code -- the code of a derived event set

The functions of a set go through its members case by case.  The cases are values of
their own, which can be looked up as the generated code would and written as text.  Texts
are written without any white space, so that they can be compared whatever their layout.
-/

namespace EventSourcing.Derive

set_option autoImplicit false

open EventSourcing.Source

/-! ## Cases -/

/-- A pattern for the events of one variant. -/
inductive Pattern where
  | unit (variant : String)
  /-- A pattern that binds the payload to a name, or to nothing. -/
  | carrying (variant binder : String)
  deriving DecidableEq, Repr

inductive Writing where
  | emptyObject
  | carried
  deriving DecidableEq, Repr

inductive Rebuilding where
  | unit (variant : String)
  | carrying (variant : String)
  deriving DecidableEq, Repr

def Member.nameCase (m : Member) : Pattern × String :=
  match m.payload with
  | some _ => (.carrying m.variant "_", m.name)
  | none => (.unit m.variant, m.name)

def Member.payloadCase (m : Member) : Pattern × Writing :=
  match m.payload with
  | some _ => (.carrying m.variant "inner", .carried)
  | none => (.unit m.variant, .emptyObject)

def Member.rebuildCase (m : Member) : String × Rebuilding :=
  match m.payload with
  | some _ => (m.name, .carrying m.variant)
  | none => (m.name, .unit m.variant)

/-- A payload type that occurs in one variant only, with that variant. -/
structure Conversion where
  type : List Tree
  variant : String

def conversions (members : List Member) : List Conversion :=
  let types := members.filterMap fun m => m.payload.map Tree.tokensOf
  members.filterMap fun m =>
    m.payload.bind fun type =>
      if types.count (Tree.tokensOf type) = 1 then some ⟨type, m.variant⟩ else none

/-! ## Texts -/

def Pattern.text : Pattern → String
  | unit v => "Self::" ++ v
  | carrying v binder => "Self::" ++ v ++ "(" ++ binder ++ ")"

def Writing.text : Writing → String
  | carried => "::esgen::__private::serde_json::to_value(inner)"
  | emptyObject =>
      "Ok(::esgen::__private::serde_json::Value::Object(" ++
        "::esgen::__private::serde_json::Map::new(),))"

def Rebuilding.text : Rebuilding → String
  | unit v => "Ok(Self::" ++ v ++ ")"
  | carrying v => "::esgen::__private::serde_json::from_value(payload).map(Self::" ++ v ++
      ").map_err(::esgen::event::DecodeError::Payload)"

def commas (texts : List String) : String :=
  ",".intercalate texts

def braced (s : String) : String :=
  "\x7b" ++ s ++ "\x7d"

/-- Parameters, each as `f` gives it.  Lifetimes come first. -/
def parameterList (f : Parameter → String) (parameters : List Parameter) : String :=
  if parameters.isEmpty then ""
  else
    let item (p : Parameter) : String := f p ++ if p.comma then "," else ""
    let lifetimes := parameters.filter (·.isLifetime)
    let others := parameters.filter (!·.isLifetime)
    let between :=
      match lifetimes.getLast? with
      | some last => if !last.comma && !others.isEmpty then "," else ""
      | none => ""
    "<" ++ String.join (lifetimes.map item) ++ between ++ String.join (others.map item) ++ ">"

namespace Derived

def implementation (d : Derived) (subject body : String) : String :=
  "impl" ++ parameterList (·.declared) d.generics.parameters ++ subject ++ "for" ++ d.enum ++
    parameterList (·.name) d.generics.parameters ++ d.generics.conditions.getD "" ++ braced body

def setText (d : Derived) : String :=
  let names := d.members.map fun m => literalText m.name
  let nameCases := d.members.map fun m =>
    m.nameCase.1.text ++ "=>" ++ literalText m.nameCase.2
  let payloadCases := d.members.map fun m =>
    m.payloadCase.1.text ++ "=>" ++ m.payloadCase.2.text
  let rebuildCases := d.members.map fun m =>
    literalText m.rebuildCase.1 ++ "=>" ++ m.rebuildCase.2.text ++ ","
  let unknown := "_=>Err(::esgen::event::DecodeError::UnknownEvent" ++
    braced "name:name.to_owned(),expected:<Selfas::esgen::EventSet>::NAMES," ++ "),"
  d.implementation "::esgen::EventSet" <|
    "constNAMES:&'static[&'staticstr]=&[" ++ commas names ++ "];" ++
    "fnname(&self)->&'staticstr" ++ braced ("matchself" ++ braced (commas nameCases)) ++
    "fnto_payload(&self,)->::core::result::Result<::esgen::__private::serde_json::Value," ++
      "::esgen::__private::serde_json::Error,>" ++
      braced ("matchself" ++ braced (commas payloadCases)) ++
    "fnfrom_payload(name:&str,payload:::esgen::__private::serde_json::Value,)" ++
      "->::core::result::Result<Self,::esgen::event::DecodeError>" ++
      braced ("matchname" ++ braced (String.join rebuildCases ++ unknown))

def conversionText (d : Derived) (c : Conversion) : String :=
  let type := Tree.textOf c.type
  d.implementation ("::core::convert::From<" ++ type ++ ">") <|
    "fnfrom(event:" ++ type ++ ")->Self" ++ braced ("Self::" ++ c.variant ++ "(event)")

def compact (s : String) : String :=
  String.ofList (s.toList.filter (!Text.isBlank ·))

/-- The implementations in the order in which they are written. -/
def implementations (d : Derived) : List String :=
  (d.setText :: (conversions d.members).map d.conversionText).map compact

end Derived

end EventSourcing.Derive
