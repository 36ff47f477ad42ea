import EventSourcing.Proofs.Schema.FirstViolation

/-!
# Proofs.Schema.Sound -- documents without violations

What the rules say of a document that breaks none of them, for each projection, service and
method by itself (`sound_of_no_violations`).
-/

namespace EventSourcing

set_option autoImplicit false

open EventSourcing.Document (names)
open EventSourcing.Schema (Error)
open EventSourcing.Schema.Rules (demand_eq_nil inTurn_eq_nil nodup_of_inTurn nodup_map_of_inTurn
  reference_eq_nil)

def TypeRef.Names (text : String) : Prop :=
  ∃ r, TypeRef.parse text = .ok r

namespace Document

structure Projection.Sound (events : List String) (p : Projection) : Prop where
  states : p.states ≠ []
  distinct : p.states.Nodup
  properties : ∀ q ∈ p.propertyDecls, TypeRef.Names q.2.reference
  createOn : p.createOn ∈ events
  triggers : ∀ t ∈ p.transitionDecls, t.1 ∈ events
  steps : ∀ t ∈ p.transitionDecls, ∀ e ∈ t.2, ∃ step, Schema.Compile.transition? e = some step ∧
    step.source ∈ p.states ∧ step.target ∈ p.states
  fresh : ∀ t ∈ p.transitionDecls, (t.2.map Text.words).Nodup
  apart : ∀ t ∈ p.transitionDecls, t.1 = p.createOn → t.2 = []

structure Method.Sound (events : List String) (m : Method) : Prop where
  input : ∀ text ∈ m.input, TypeRef.Names text
  output : ∀ text ∈ m.output, TypeRef.Names text
  emits : ∀ e ∈ m.emits, e ∈ events
  distinct : m.emits.Nodup
  kind : Schema.methodKind m = .readonly ↔ m.emits = []

structure Service.Sound (events projections : List String) (s : Service) : Prop where
  projections : ∀ p ∈ s.projections, p ∈ projections
  distinct : s.projections.Nodup
  filled : s.methodDecls ≠ []
  methods : ∀ m ∈ s.methodDecls, m.2.Sound events

/-- What the rules say, apart from those for names and for what must not be empty. -/
structure Sound (d : Document) : Prop where
  properties : ∀ e ∈ d.eventDecls, ∀ q ∈ e.2.getD [], TypeRef.Names q.2.reference
  projections : ∀ p ∈ d.projectionDecls, p.2.Sound (names d.eventDecls)
  services : ∀ s ∈ d.serviceDecls, s.2.Sound (names d.eventDecls) (names d.projectionDecls)
  named : ∀ e ∈ names d.eventDecls, e ∈ d.namedEvents

end Document

namespace Schema.Rules

variable {path : NodePath} {key : String} {events projectionNames : List String}

theorem sound_properties {decls : Document.Named Document.Property}
    (found : properties path decls = []) : ∀ q ∈ decls, TypeRef.Names q.2.reference := by
  intro q member
  have here := List.flatMap_eq_nil_iff.1 found q member
  exact reference_eq_nil.1 (List.append_eq_nil_iff.1 here).2

/-- What is known of an expression that breaks no rule. -/
theorem sound_expression {states before : List String} {e : String}
    (found : expression path states before e = []) :
    ∃ step, Compile.transition? e = some step ∧ step.source ∈ states ∧ step.target ∈ states ∧
      Text.words e ∉ before.map Text.words := by
  cases shape : Compile.transition? e with
  | none =>
      rw [Compile.expression_of_none shape] at found
      cases found
  | some step =>
      rw [Compile.expression_of_some shape] at found
      obtain ⟨ends, fresh⟩ := List.append_eq_nil_iff.1 found
      obtain ⟨source, target⟩ := List.append_eq_nil_iff.1 ends
      refine ⟨step, rfl, demand_eq_nil.1 source, demand_eq_nil.1 target, ?_⟩
      rw [Compile.transition?_eq_some_iff.1 shape, List.mem_map]
      rintro ⟨other, member, same⟩
      exact demand_eq_nil.1 fresh other member same

theorem sound_projection {decl : Document.Projection}
    (found : projection events path key decl = []) : decl.Sound events := by
  simp only [projection, List.append_eq_nil_iff] at found
  obtain ⟨⟨⟨⟨⟨-, declaredStates⟩, props⟩, createOn⟩, ts⟩, apart⟩ := found
  obtain ⟨filled, turns⟩ := List.append_eq_nil_iff.1 declaredStates
  have each : ∀ t ∈ decl.transitionDecls, t.1 ∈ events ∧
      inTurn (expression _ decl.states) [] t.2 = [] := fun t member =>
    (List.append_eq_nil_iff.1 (List.flatMap_eq_nil_iff.1 ts t member)).imp_left demand_eq_nil.1
  exact {
    states := demand_eq_nil.1 filled
    distinct := nodup_of_inTurn
      (fun _ _ here => demand_eq_nil.1 (List.append_eq_nil_iff.1 here).2) turns
    properties := sound_properties props
    createOn := demand_eq_nil.1 createOn
    triggers := fun t member => (each t member).1
    steps := fun t member e inside => by
      obtain ⟨before, here⟩ := inTurn_eq_nil (each t member).2 e inside
      obtain ⟨step, shape, source, target, -⟩ := sound_expression here
      exact ⟨step, shape, source, target⟩
    fresh := fun t member => nodup_map_of_inTurn Text.words
      (fun before e here => (sound_expression here).choose_spec.2.2.2) (each t member).2
    apart := demand_eq_nil.1 apart }

theorem sound_kind {decl : Document.Method}
    (found : methodType path decl.kind decl.emits = []) :
    methodKind decl = .readonly ↔ decl.emits = [] := by
  have derived : (if decl.emits = [] then Method.Kind.readonly else .transaction) = .readonly ↔
      decl.emits = [] := by
    split <;> simp_all
  unfold methodKind
  generalize decl.kind = kind at found ⊢
  cases kind with
  | none => exact derived
  | some word =>
      rw [methodType] at found
      rw [Option.bind_some]
      by_cases blank : word = ""
      · subst blank
        exact derived
      · rw [if_neg blank] at found
        split at found
        · cases found
        · rename_i known
          rw [known]
          simpa using demand_eq_nil.1 found
        · rename_i kind other known
          rw [known]
          simpa using iff_of_false other (demand_eq_nil.1 found)

theorem sound_method {decl : Document.Method} (found : method events path key decl = []) :
    decl.Sound events := by
  simp only [method, List.append_eq_nil_iff] at found
  obtain ⟨⟨⟨⟨-, input⟩, output⟩, turns⟩, type⟩ := found
  exact {
    input := fun text inside =>
      reference_eq_nil.1 (List.flatMap_eq_nil_iff.1 input text (Option.mem_toList.2 inside))
    output := fun text inside =>
      reference_eq_nil.1 (List.flatMap_eq_nil_iff.1 output text (Option.mem_toList.2 inside))
    emits := fun e member => by
      obtain ⟨before, here⟩ := inTurn_eq_nil turns e member
      exact demand_eq_nil.1 (List.append_eq_nil_iff.1 here).1
    distinct := nodup_of_inTurn
      (fun _ _ here => demand_eq_nil.1 (List.append_eq_nil_iff.1 here).2) turns
    kind := sound_kind type }

theorem sound_service {decl : Document.Service}
    (found : service events projectionNames path key decl = []) :
    decl.Sound events projectionNames := by
  simp only [service, List.append_eq_nil_iff] at found
  obtain ⟨⟨⟨-, turns⟩, filled⟩, methods⟩ := found
  exact {
    projections := fun p member => by
      obtain ⟨before, here⟩ := inTurn_eq_nil turns p member
      exact demand_eq_nil.1 (List.append_eq_nil_iff.1 here).1
    distinct := nodup_of_inTurn
      (fun _ _ here => demand_eq_nil.1 (List.append_eq_nil_iff.1 here).2) turns
    filled := demand_eq_nil.1 filled
    methods := fun m member => sound_method (List.flatMap_eq_nil_iff.1 methods m member) }

end Schema.Rules

namespace Document

open Schema.Rules

theorem sound_of_no_violations {d : Document} (sound : d.violations = []) : d.Sound := by
  simp only [violations, List.append_eq_nil_iff] at sound
  obtain ⟨⟨⟨foundEvents, foundProjections⟩, foundServices⟩, named⟩ := sound
  have inEvents := (List.append_eq_nil_iff.1 foundEvents).2
  have inServices := (List.append_eq_nil_iff.1 foundServices).2
  exact {
    properties := fun e member => sound_properties
      (List.append_eq_nil_iff.1 (List.flatMap_eq_nil_iff.1 inEvents e member)).2
    projections := fun p member =>
      sound_projection (List.flatMap_eq_nil_iff.1 foundProjections p member)
    services := fun s member => sound_service (List.flatMap_eq_nil_iff.1 inServices s member)
    named := fun e member => demand_eq_nil.1 (List.flatMap_eq_nil_iff.1 named e member) }

end Document

end EventSourcing
