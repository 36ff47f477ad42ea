import EventSourcing.Proofs.Document.Keyed
import EventSourcing.Schema.Error
import Mathlib.Data.List.Nodup

/-!
# Proofs.Schema.Rules -- what a document breaks

The rules for documents, each read by itself: a rule gives the violations that it finds at
its places, whatever other rules find.  `Document.violations` lists the violations of all
rules of a document, in the order of the places.
-/

namespace EventSourcing

set_option autoImplicit false

namespace Schema.Rules

open EventSourcing.Document (names)

/-- A violation, unless a condition holds. -/
def demand (holds : Prop) [Decidable holds] (otherwise : Error) : List Error :=
  if holds then [] else [otherwise]

/-- What a rule finds at the items of a list, each of which it judges by those that stand
before it; `before` are those before the first. -/
def inTurn {α : Type} (rule : List α → α → List Error) (before : List α) : List α → List Error
  | [] => []
  | x :: rest => rule before x ++ inTurn rule (before ++ [x]) rest

theorem demand_eq_nil {p : Prop} [Decidable p] {e : Error} : demand p e = [] ↔ p := by
  rw [demand]
  split <;> simp_all

section InTurn

variable {ξ κ : Type} {rule : List ξ → ξ → List Error} {before xs : List ξ}

theorem inTurn_eq_nil (found : inTurn rule before xs = []) :
    ∀ x ∈ xs, ∃ before, rule before x = [] := by
  induction xs generalizing before with
  | nil => intro x member; cases member
  | cons x rest ih =>
      obtain ⟨first, later⟩ := List.append_eq_nil_iff.1 found
      intro y member
      rcases List.mem_cons.1 member with rfl | member
      · exact ⟨before, first⟩
      · exact ih later y member

theorem nodup_map_append_of_inTurn (key : ξ → κ)
    (fresh : ∀ before x, rule before x = [] → key x ∉ before.map key)
    (distinct : (before.map key).Nodup) (found : inTurn rule before xs = []) :
    ((before ++ xs).map key).Nodup := by
  induction xs generalizing before with
  | nil => rwa [List.append_nil]
  | cons x rest ih =>
      obtain ⟨first, later⟩ := List.append_eq_nil_iff.1 found
      have longer : ((before ++ [x]).map key).Nodup := by
        rw [List.map_append, List.map_singleton, ← List.concat_eq_append]
        exact List.Nodup.concat (fresh before x first) distinct
      have all := ih longer later
      rwa [List.append_assoc] at all

/-- A rule that forbids repeats of something about the items leaves none. -/
theorem nodup_map_of_inTurn (key : ξ → κ)
    (fresh : ∀ before x, rule before x = [] → key x ∉ before.map key)
    (found : inTurn rule [] xs = []) : (xs.map key).Nodup :=
  @nodup_map_append_of_inTurn _ _ _ [] _ key fresh List.nodup_nil found

/-- A rule that forbids repeats leaves none. -/
theorem nodup_of_inTurn (fresh : ∀ before x, rule before x = [] → x ∉ before)
    (found : inTurn rule [] xs = []) : xs.Nodup := by
  rw [← List.map_id xs]
  refine nodup_map_of_inTurn id (fun before x here => ?_) found
  rw [List.map_id]
  exact fresh before x here

end InTurn

def name (place : NodePath) (what : Schema.Named) (rule : Name.Rule) (name : String) :
    List Error :=
  match Name.check rule name with
  | .ok () => []
  | .error defect => [.malformed place (.name what name defect)]

def reference (place : NodePath) (text : String) : List Error :=
  match TypeRef.parse text with
  | .ok _ => []
  | .error defect => [.malformed place (.typeReference text defect)]

theorem reference_eq_nil {place : NodePath} {text : String} :
    reference place text = [] ↔ ∃ r, TypeRef.parse text = .ok r := by
  rw [reference]
  cases TypeRef.parse text <;> simp

def defined (events : List String) (place : NodePath) (event : String) : List Error :=
  demand (event ∈ events) (.contradictory place (.undefinedEvent event))

def properties (path : NodePath) (decls : Document.Named Document.Property) : List Error :=
  decls.flatMap fun (key, p) =>
    name (path.child key) .property .property key ++ reference (path.child key) p.reference

def events (decls : Document.Named (Option (Document.Named Document.Property))) : List Error :=
  let path := NodePath.root.child "events"
  demand (decls ≠ []) (.contradictory path .missingEvents) ++
    decls.flatMap fun (key, props) =>
      name (path.child key) .event .type key ++ properties (path.child key) (props.getD [])

/-! ## Projections -/

def state (path : NodePath) (before : List String) (state : String) : List Error :=
  name (path.item before.length) .state .type state ++
    demand (state ∉ before) (.contradictory (path.item before.length) (.duplicateState state))

def states (path : NodePath) (names : List String) : List Error :=
  demand (names ≠ []) (.contradictory path .missingStates) ++ inTurn (state path) [] names

/-- A transition is written as two states around an arrow, which are among the declared
ones, and is not among those before it. -/
def expression (path : NodePath) (states before : List String) (expression : String) :
    List Error :=
  match Text.words expression with
  | [source, "->", target] =>
      demand (source ∈ states) (.contradictory path (.undefinedState .source source)) ++
        demand (target ∈ states) (.contradictory path (.undefinedState .target target)) ++
        demand (∀ e ∈ before, Text.words e ≠ [source, "->", target])
          (.contradictory path (.duplicateTransition source target))
  | _ => [.malformed (path.item before.length) (.transition expression)]

def transitions (path : NodePath) (events states : List String)
    (decls : Document.Named (List String)) : List Error :=
  decls.flatMap fun (event, expressions) =>
    defined events (path.child event) event ++
      inTurn (expression (path.child event) states) [] expressions

/-- A projection has a name, states and properties.  It is created on an event, which has
no transitions. -/
def projection (events : List String) (path : NodePath) (key : String)
    (decl : Document.Projection) : List Error :=
  let clash := (path.child "transitions").child decl.createOn
  name path .projection .type key ++
    states (path.child "states") decl.states ++
    properties (path.child "properties") decl.propertyDecls ++
    defined events (path.child "createOn") decl.createOn ++
    transitions (path.child "transitions") events decl.states decl.transitionDecls ++
    demand (∀ t ∈ decl.transitionDecls, t.1 = decl.createOn → t.2 = [])
      (.contradictory clash (.createOnTransition decl.createOn (path.child "createOn") clash))

def projections (events : List String) (decls : Document.Named Document.Projection) :
    List Error :=
  decls.flatMap fun (key, decl) =>
    projection events ((NodePath.root.child "projections").child key) key decl

/-! ## Services -/

/-- A projection of a service is declared and is not among those before it. -/
def entry (path : NodePath) (projections before : List String) (p : String) : List Error :=
  demand (p ∈ projections) (.contradictory (path.item before.length) (.undefinedProjection p)) ++
    demand (p ∉ before) (.contradictory (path.item before.length) (.duplicateProjection p))

/-- An event that a method emits is declared and is not among those before it. -/
def emit (path : NodePath) (events before : List String) (e : String) : List Error :=
  defined events (path.item before.length) e ++
    demand (e ∉ before) (.contradictory (path.item before.length) (.duplicateEmit e))

/-- A word for the kind of a method is known, and the kind goes with the events that the
method emits. -/
def methodType (path : NodePath) (word : Option String) (emits : List String) : List Error :=
  match word with
  | none => []
  | some word =>
      if word = "" then []
      else
        match Method.Kind.parse? word with
        | none => [.malformed path (.methodType word)]
        | some .readonly => demand (emits = []) (.contradictory path .readonlyEmits)
        | some kind => demand (emits ≠ []) (.contradictory path (.emitsRequired kind))

/-- A method has a name, types of its input and output if any, events and a kind. -/
def method (events : List String) (path : NodePath) (key : String) (decl : Document.Method) :
    List Error :=
  name path .method .type key ++
    decl.input.toList.flatMap (reference (path.child "in")) ++
    decl.output.toList.flatMap (reference (path.child "out")) ++
    inTurn (emit (path.child "emits") events) [] decl.emits ++
    methodType (path.child "type") decl.kind decl.emits

def service (events projections : List String) (path : NodePath) (key : String)
    (decl : Document.Service) : List Error :=
  name path .service .type key ++
    inTurn (entry (path.child "projections") projections) [] decl.projections ++
    demand (decl.methodDecls ≠ []) (.contradictory (path.child "methods") .missingMethods) ++
    decl.methodDecls.flatMap fun (key, m) =>
      method events ((path.child "methods").child key) key m

def services (events projections : List String) (decls : Document.Named Document.Service) :
    List Error :=
  let path := NodePath.root.child "services"
  demand (decls ≠ []) (.contradictory path .missingServices) ++
    decls.flatMap fun (key, decl) => service events projections (path.child key) key decl

end Schema.Rules

namespace Document

open EventSourcing.Schema (Error)
open EventSourcing.Schema.Rules (demand)

/-- The events that a projection is created on or has a transition on. -/
def Projection.namedEvents (p : Projection) : List String :=
  p.createOn :: names (p.transitionDecls.filter fun t => t.2 ≠ [])

def namedEvents (d : Document) : List String :=
  d.projectionDecls.flatMap (fun p => p.2.namedEvents) ++
    d.serviceDecls.flatMap fun s => s.2.methodDecls.flatMap fun m => m.2.emits

/-- All violations of the rules for documents, in the order in which a document is walked. -/
def violations (d : Document) : List Error :=
  let events := names d.eventDecls
  Schema.Rules.events d.eventDecls ++
    Schema.Rules.projections events d.projectionDecls ++
    Schema.Rules.services events (names d.projectionDecls) d.serviceDecls ++
    events.flatMap fun e =>
      demand (e ∈ d.namedEvents)
        (.contradictory ((NodePath.root.child "events").child e) (.unusedEvent e))

end Document

end EventSourcing
