import EventSourcing.Source.Grammar.Nested

/-!
# Derive.Basic -- the members of a derived event set

An enum declares a set of events: each variant is a member, with the name that its
attribute gives or else its own, and with the type of its only field as payload if it has
one.  Reading the enum collects what is wrong with it.  Problems with the shape of the
variants or with the attributes of the enum come first and alone, then problems with the
attributes of the variants, then names that occur twice.
-/

namespace EventSourcing.Derive

set_option autoImplicit false

open EventSourcing.Source

structure Member where
  variant : String
  name : String
  /-- The type of the payload; none if the event has no properties. -/
  payload : Option (List Tree)
  deriving Repr

inductive Problem where
  /-- A part of the declaration that does not fit. -/
  | misfit
  | noVariants
  | duplicateName (name : String)
  deriving DecidableEq, Repr

def Problem.message? : Problem → Option String
  | misfit => none
  | noVariants => some "an event set needs at least one variant"
  | duplicateName name => some ("duplicate event name `" ++ name ++ "`")

/-! ## Attributes -/

def eventAttributes (attributes : List Attribute) : List Attribute :=
  attributes.filter (·.segments == ["event"])

/-- The items of an attribute; none if it is no list of items. -/
def itemsOf? (a : Attribute) : Option (List NestedItem) :=
  match a.form with
  | .alone => some []
  | .arguments _ trees => nestedItems? trees
  | .value _ => none

/-- What has been read of the attributes of a variant. -/
structure Reading where
  /-- Whether a name was given, right or wrong. -/
  found : Bool
  name : Option String
  problems : List Problem

/-- The text that an item gives, if it gives one. -/
def itemText? : AttributeForm → Option String
  | .value [.literal (.text s) _] => some s
  | _ => none

/-- Reads an item.  The only thing to give is a name, and only once. -/
def Reading.item (r : Reading) : NestedItem → Reading
  | .item ["name"] form =>
      if r.found then { r with problems := r.problems ++ [.misfit] }
      else
        match itemText? form with
        | some s => { r with found := true, name := some s }
        | none => { r with found := true, problems := r.problems ++ [.misfit] }
  | _ => { r with problems := r.problems ++ [.misfit] }

def Reading.attribute (r : Reading) (a : Attribute) : Reading :=
  match itemsOf? a with
  | some items => items.foldl Reading.item r
  | none => { r with problems := r.problems ++ [.misfit] }

def readAttributes (attributes : List Attribute) : Reading :=
  (eventAttributes attributes).foldl Reading.attribute ⟨false, none, []⟩

/-- The problems with the attributes of an enum, which can give nothing. -/
def enumProblems (attributes : List Attribute) : List Problem :=
  (eventAttributes attributes).flatMap fun a =>
    match itemsOf? a with
    | some items => items.map fun _ => .misfit
    | none => [.misfit]

/-! ## Variants -/

/-- The payload of a variant, if its shape fits: no fields, or one field without a name. -/
def payload? (v : Variant) : Option (Option (List Tree)) :=
  match v.fields with
  | .unit => some none
  | .tuple [type] => some (some type)
  | _ => none

def shapeProblems (variants : List Variant) : List Problem :=
  (variants.filter (payload? · |>.isNone)).map fun _ => .misfit

/-- The member that a variant of a fitting shape declares. -/
def member? (v : Variant) : Option Member :=
  (payload? v).map fun payload =>
    ⟨v.name, (readAttributes v.attributes).name.getD v.name, payload⟩

/-- The names that occurred before, in the order of their later occurrences. -/
def duplicates (seen : List String) : List Member → List Problem
  | [] => []
  | m :: rest =>
      if seen.contains m.name then .duplicateName m.name :: duplicates seen rest
      else duplicates (m.name :: seen) rest

/-- The members that the variants of an enum declare, or what is wrong with them. -/
def membersOf (attributes : List Attribute) (variants : List Variant) :
    Except (List Problem) (List Member) :=
  let declared := enumProblems attributes ++ shapeProblems variants
  if !declared.isEmpty then .error declared
  else
    let given := variants.flatMap fun v => (readAttributes v.attributes).problems
    if !given.isEmpty then .error given
    else
      let members := variants.filterMap member?
      if members.isEmpty then .error [.noVariants]
      else
        let repeated := duplicates [] members
        if repeated.isEmpty then .ok members else .error repeated

/-! ## Declarations -/

/-- A derived set: the enum with its generics, and the members. -/
structure Derived where
  enum : String
  generics : Generics
  members : List Member
  deriving Repr

/-- The set that a declaration derives, or what is wrong with it. -/
def ofDeclaration (d : TypeDeclaration) : Except (List Problem) Derived :=
  match d.body with
  | .enum variants =>
      (membersOf d.attributes variants).map fun members => ⟨d.name, d.generics, members⟩
  | .struct => .error (enumProblems d.attributes ++ [.misfit])
  | .union => .error (enumProblems d.attributes ++ [.misfit])

/-- The set that the text of a declaration derives; none if the text is no declaration of
one type. -/
def ofText? (text : String) : Option (Except (List Problem) Derived) :=
  (typeDeclaration? text).map ofDeclaration

end EventSourcing.Derive
