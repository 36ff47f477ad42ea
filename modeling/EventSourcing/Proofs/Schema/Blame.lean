import EventSourcing.Proofs.Document.Spelling
import EventSourcing.Proofs.Document.Tracing
import EventSourcing.Proofs.Document.Writing
import EventSourcing.Proofs.Name.Reference
import EventSourcing.Proofs.Schema.FirstViolation

/-!
# Proofs.Schema.Blame -- the place of an error leads to what it is about

An error of a document says where it is and what is wrong there.  In every text that holds the
document, the place leads to a node that is wrong in this way (`Schema.Error.BorneOut`): it has the
name or the text that the error tells, and this breaks the rule that the error tells.  Only what is
missing has no such node; then there is the one that it is missing from.  Main statement:
`Schema.error_leads_to_offender`.
-/

namespace EventSourcing.Schema

set_option autoImplicit false

open EventSourcing.Document (names Found Lacking Section Listing Spells spells_iff HeldBy)
open EventSourcing.Document.Reader
open EventSourcing.Name (Breaks check_eq_error_iff)
open EventSourcing.Yaml (Value)

/-! ## What errors say of a text -/

def KeyedAt (root : Value) (place : NodePath) (key : String) : Prop :=
  ∃ parent node, place = NodePath.child parent key ∧ root.at? place.segments = some node

/-- A text stands at a position of a list, and at an earlier one too. -/
def RepeatedAt (root : Value) (place : NodePath) (text : String) : Prop :=
  ∃ list i j, i < j ∧ place = NodePath.item list j ∧ Found root place text? text ∧
    Found root (list.item i) text? text

def Named.rule : Named → Name.Rule
  | .property => .property
  | _ => .type

def StateRole.Names : StateRole → String → String → Prop
  | .source, state, e => ∃ target, Spells state target e
  | .target, state, e => ∃ source, Spells source state e

/-- What is malformed stands at its place. -/
def Malformation.BorneOut (root : Value) (place : NodePath) : Malformation → Prop
  | .document => False
  | .name .state text defect => Found root place text? text ∧ Breaks .type text defect
  | .name what text defect => KeyedAt root place text ∧ Breaks what.rule text defect
  | .typeReference text defect =>
      (Found root place text? text ∨ ∃ p, Found root place property? p ∧ p.reference = text) ∧
      TypeRef.parse text = .error defect
  | .transition e => Found root place text? e ∧ ∀ source target, ¬ Spells source target e
  | .methodType word =>
      Found root place text? word ∧ word ≠ "" ∧ Method.Kind.parse? word = none

/-- What contradicts itself or another part of the document stands at its place. -/
def Contradiction.BorneOut (root : Value) (d : Document) (place : NodePath) :
    Contradiction → Prop
  | .missingEvents => place = NodePath.root.child "events" ∧ Lacking root .root "events"
  | .missingServices => place = NodePath.root.child "services" ∧ Lacking root .root "services"
  | .missingMethods => ∃ s ∈ names d.serviceDecls,
      place = ((NodePath.root.child "services").child s).child "methods" ∧
      Lacking root ((NodePath.root.child "services").child s) "methods"
  | .missingStates => ∃ p ∈ names d.projectionDecls,
      place = ((NodePath.root.child "projections").child p).child "states" ∧
      Lacking root ((NodePath.root.child "projections").child p) "states"
  | .duplicateState state => RepeatedAt root place state
  | .undefinedEvent event =>
      (Found root place text? event ∨ KeyedAt root place event) ∧ event ∉ names d.eventDecls
  | .undefinedProjection projection =>
      Found root place text? projection ∧ projection ∉ names d.projectionDecls
  | .duplicateProjection projection => RepeatedAt root place projection
  | .undefinedState role state => ∃ p ∈ d.projectionDecls, ∃ event expressions,
      place = (((NodePath.root.child "projections").child p.1).child "transitions").child event ∧
      Found root place texts? expressions ∧ (∃ e ∈ expressions, role.Names state e) ∧
      state ∉ p.2.states
  | .duplicateTransition s t => ∃ (expressions : List String) (i j : Nat) (e e' : String),
      Found root place texts? expressions ∧ i < j ∧ expressions[i]? = some e ∧
      expressions[j]? = some e' ∧ Spells s t e ∧ Spells s t e'
  | .createOnTransition event createOn transition => ∃ projection expressions,
      createOn = NodePath.child projection "createOn" ∧
      transition = (NodePath.child projection "transitions").child event ∧ place = transition ∧
      Found root createOn text? event ∧ Found root transition texts? expressions ∧
      expressions ≠ []
  | .duplicateEmit event => RepeatedAt root place event
  | .emitsRequired kind => ∃ method, place = NodePath.child method "type" ∧
      Found root place text? kind.text ∧ kind ≠ .readonly ∧ Lacking root method "emits"
  | .readonlyEmits => ∃ method emits, place = NodePath.child method "type" ∧
      Found root place text? Method.Kind.readonly.text ∧
      Found root (method.child "emits") texts? emits ∧ emits ≠ []
  | .unusedEvent event => place = (NodePath.root.child "events").child event ∧
      KeyedAt root place event ∧ event ∉ d.namedEvents
  | .undefinedTypes _ => False
  | .ambiguousTypes _ => False
  | .source _ => False

/-- An error about something that is not there. -/
def Error.OfMissing : Error → Prop
  | .contradictory _ .missingEvents => True
  | .contradictory _ .missingServices => True
  | .contradictory _ .missingMethods => True
  | .contradictory _ .missingStates => True
  | _ => False

/-- What an error says stands at its place. -/
def Error.BorneOut (root : Value) (d : Document) : Error → Prop
  | .malformed place what => what.BorneOut root place
  | .contradictory place what => what.BorneOut root d place
  | .unreadable => False

/-! ## Rules -/

namespace Rules

theorem mem_demand {p : Prop} [Decidable p] {e otherwise : Error} :
    e ∈ demand p otherwise ↔ ¬ p ∧ e = otherwise := by
  rw [demand]
  split <;> simp_all

/-- What a rule finds at the items of a list it finds at one of them, judged by those before. -/
theorem mem_inTurn {α : Type} {rule : List α → α → List Error} {before xs : List α} {e : Error}
    (found : e ∈ inTurn rule before xs) :
    ∃ (i : Nat) (x : α), xs[i]? = some x ∧ e ∈ rule (before ++ xs.take i) x := by
  induction xs generalizing before with
  | nil => cases found
  | cons x rest ih =>
      rcases List.mem_append.1 found with here | later
      · refine ⟨0, x, rfl, ?_⟩
        rwa [List.take_zero, List.append_nil]
      · obtain ⟨i, y, there, found⟩ := ih later
        refine ⟨i + 1, y, there, ?_⟩
        rwa [List.take_succ_cons, List.append_cons]

variable {root : Value} {d : Document} {place : NodePath} {e : Error} {key : String}

/-- A name at a place, whatever has it, is borne out if it stands there. -/
theorem borneOut_name {what : Schema.Named} {text : String} (other : what ≠ .state)
    (found : e ∈ name place what what.rule text) (here : KeyedAt root place text) :
    e.BorneOut root d := by
  unfold name at found
  split at found
  · cases found
  · rename_i defect refused
    cases List.mem_singleton.1 found
    have breaks := check_eq_error_iff.1 refused
    cases what with
    | state => exact absurd rfl other
    | _ => exact ⟨here, breaks⟩

theorem borneOut_reference {text : String} (found : e ∈ reference place text)
    (here : Found root place text? text ∨
      ∃ p, Found root place property? p ∧ p.reference = text) : e.BorneOut root d := by
  unfold reference at found
  split at found
  · cases found
  · rename_i defect refused
    cases List.mem_singleton.1 found
    exact ⟨here, refused⟩

theorem borneOut_defined {event : String} (found : e ∈ defined (names d.eventDecls) place event)
    (here : Found root place text? event ∨ KeyedAt root place event) : e.BorneOut root d := by
  obtain ⟨undefined, rfl⟩ := mem_demand.1 found
  exact ⟨here, undefined⟩

/-- What was read at a place under a key is keyed there. -/
theorem keyedAt_of_found {α : Type} {read : Value → Option α} {a : α}
    (found : Found root (place.child key) read a) : KeyedAt root (place.child key) key := by
  obtain ⟨node, here, _⟩ := found
  exact ⟨place, node, rfl, here⟩

theorem borneOut_properties {decls : Document.Named Document.Property}
    (there : ∀ decl ∈ decls, Found root (place.child decl.1) property? decl.2)
    (found : e ∈ properties place decls) : e.BorneOut root d := by
  obtain ⟨decl, member, found⟩ := List.mem_flatMap.1 found
  have here := there decl member
  rcases List.mem_append.1 found with found | found
  · exact borneOut_name (by decide) found (keyedAt_of_found here)
  · exact borneOut_reference found (.inr ⟨decl.2, here, rfl⟩)

/-- An item that stands among those before another one has an earlier position. -/
theorem exists_earlier {α : Type} {xs : List α} {i : Nat} {x : α} (known : x ∈ xs.take i) :
    ∃ j, j < i ∧ xs[j]? = some x := by
  obtain ⟨j, before, same⟩ := List.mem_iff_getElem.1 known
  have earlier : j < i := by
    rw [List.length_take] at before
    omega
  refine ⟨j, earlier, ?_⟩
  rw [← same, List.getElem_take]
  exact List.getElem?_eq_getElem _

/-- A text that is among those before it in its list stands there twice. -/
theorem repeatedAt {texts : List String} (there : Listing root place key texts) {i : Nat}
    {text : String} (here : texts[i]? = some text) (known : text ∈ texts.take i) :
    RepeatedAt root ((place.child key).item i) text := by
  obtain ⟨j, earlier, first⟩ := exists_earlier known
  exact ⟨place.child key, j, i, earlier, rfl, there.each i text here, there.each j text first⟩

/-- The items before one are as many as its position. -/
theorem length_take_of_getElem? {α : Type} {xs : List α} {i : Nat} {x : α}
    (here : xs[i]? = some x) : (xs.take i).length = i := by
  have inside := (List.getElem?_eq_some_iff.1 here).1
  rw [List.length_take]
  omega

/-! ## Events -/

/-- The properties of an event, if it has any. -/
theorem borneOut_eventProperties {props : Option (Document.Named Document.Property)}
    (there : Found root place (optional? (named? property?)) props)
    (found : e ∈ properties place (props.getD [])) : e.BorneOut root d := by
  cases props with
  | none => cases found
  | some decls => exact borneOut_properties (fun _ member => there.given.declaration member) found

theorem borneOut_events (there : d.At root) (found : e ∈ events d.eventDecls) :
    e.BorneOut root d := by
  rcases List.mem_append.1 found with found | found
  · obtain ⟨lacking, rfl⟩ := mem_demand.1 found
    exact ⟨rfl, there.events.lacking (not_not.1 lacking)⟩
  · obtain ⟨decl, member, found⟩ := List.mem_flatMap.1 found
    have here := there.events.each decl member
    rcases List.mem_append.1 found with found | found
    · exact borneOut_name (by decide) found (keyedAt_of_found here)
    · exact borneOut_eventProperties here found

/-! ## Projections -/

theorem borneOut_states {p : String} {texts : List String}
    (declared : p ∈ names d.projectionDecls)
    (there : Listing root ((NodePath.root.child "projections").child p) "states" texts)
    (found : e ∈ states (((NodePath.root.child "projections").child p).child "states") texts) :
    e.BorneOut root d := by
  rcases List.mem_append.1 found with found | found
  · obtain ⟨lacking, rfl⟩ := mem_demand.1 found
    exact ⟨p, declared, rfl, there.lacking (not_not.1 lacking)⟩
  · obtain ⟨i, text, here, found⟩ := mem_inTurn found
    have length : (([] : List String) ++ texts.take i).length = i := length_take_of_getElem? here
    rw [state, length, List.nil_append] at found
    rcases List.mem_append.1 found with found | found
    · unfold name at found
      split at found
      · cases found
      · rename_i defect refused
        cases List.mem_singleton.1 found
        exact ⟨there.each i text here, check_eq_error_iff.1 refused⟩
    · obtain ⟨known, rfl⟩ := mem_demand.1 found
      exact repeatedAt there here (not_not.1 known)

theorem borneOut_expression {p : String × Document.Projection} (declared : p ∈ d.projectionDecls)
    {event : String} {expressions : List String}
    (at_ : place =
      (((NodePath.root.child "projections").child p.1).child "transitions").child event)
    (there : Found root place texts? expressions) {i : Nat} {x : String}
    (here : expressions[i]? = some x)
    (found : e ∈ expression place p.2.states (expressions.take i) x) : e.BorneOut root d := by
  unfold expression at found
  split at found
  · rename_i source target words
    have spells : Spells source target x := spells_iff.2 words
    have member : x ∈ expressions := List.mem_of_getElem? here
    simp only [List.mem_append] at found
    rcases found with (found | found) | found
    · obtain ⟨undeclared, rfl⟩ := mem_demand.1 found
      exact ⟨p, declared, event, expressions, at_, there, ⟨x, member, target, spells⟩, undeclared⟩
    · obtain ⟨undeclared, rfl⟩ := mem_demand.1 found
      exact ⟨p, declared, event, expressions, at_, there, ⟨x, member, source, spells⟩, undeclared⟩
    · obtain ⟨repeated, rfl⟩ := mem_demand.1 found
      obtain ⟨x', known, words'⟩ : ∃ x' ∈ expressions.take i,
          Text.words x' = [source, "->", target] := by simpa using repeated
      obtain ⟨j, earlier, first⟩ := exists_earlier known
      exact ⟨expressions, j, i, x', x, there, earlier, first, here, spells_iff.2 words', spells⟩
  · rename_i other
    cases List.mem_singleton.1 found
    rw [length_take_of_getElem? here]
    exact ⟨there.item here, fun source target spells => other source target (spells_iff.1 spells)⟩

theorem borneOut_transitions {p : String × Document.Projection} (declared : p ∈ d.projectionDecls)
    (at_ : place = ((NodePath.root.child "projections").child p.1).child "transitions")
    (there : ∀ t ∈ p.2.transitionDecls, Found root (place.child t.1) texts? t.2)
    (found : e ∈ transitions place (names d.eventDecls) p.2.states p.2.transitionDecls) :
    e.BorneOut root d := by
  obtain ⟨t, member, found⟩ := List.mem_flatMap.1 found
  have listed := there t member
  rcases List.mem_append.1 found with found | found
  · exact borneOut_defined found (.inr (keyedAt_of_found listed))
  · obtain ⟨i, x, here, found⟩ := mem_inTurn found
    exact borneOut_expression declared (congrArg (NodePath.child · t.1) at_) listed here found

theorem borneOut_projection {p : String × Document.Projection} (declared : p ∈ d.projectionDecls)
    (there : Found root ((NodePath.root.child "projections").child p.1)
      Document.Reader.projection? p.2)
    (found : e ∈ projection (names d.eventDecls) ((NodePath.root.child "projections").child p.1)
      p.1 p.2) : e.BorneOut root d := by
  have parts := there.projection
  unfold projection at found
  simp only [List.mem_append] at found
  rcases found with ((((found | found) | found) | found) | found) | found
  · exact borneOut_name (by decide) found (keyedAt_of_found there)
  · exact borneOut_states (List.mem_map_of_mem declared) parts.states found
  · exact borneOut_properties parts.properties.each found
  · exact borneOut_defined found (.inl parts.createOn)
  · exact borneOut_transitions declared rfl parts.transitions.each found
  · obtain ⟨clash, rfl⟩ := mem_demand.1 found
    obtain ⟨event, expressions, member, same, filled⟩ : ∃ event expressions,
        (event, expressions) ∈ p.2.transitionDecls ∧ event = p.2.createOn ∧ expressions ≠ [] := by
      simpa using clash
    subst same
    exact ⟨(NodePath.root.child "projections").child p.1, expressions, rfl, rfl, rfl,
      parts.createOn, parts.transitions.each (p.2.createOn, expressions) member, filled⟩

/-! ## Services -/

theorem borneOut_entry {texts : List String} (there : Listing root place key texts)
    (found : e ∈ inTurn (entry (place.child key) (names d.projectionDecls)) [] texts) :
    e.BorneOut root d := by
  obtain ⟨i, text, here, found⟩ := mem_inTurn found
  have length : (([] : List String) ++ texts.take i).length = i := length_take_of_getElem? here
  rw [entry, length, List.nil_append] at found
  rcases List.mem_append.1 found with found | found
  · obtain ⟨undefined, rfl⟩ := mem_demand.1 found
    exact ⟨there.each i text here, undefined⟩
  · obtain ⟨known, rfl⟩ := mem_demand.1 found
    exact repeatedAt there here (not_not.1 known)

theorem borneOut_emit {texts : List String} (there : Listing root place key texts)
    (found : e ∈ inTurn (emit (place.child key) (names d.eventDecls)) [] texts) :
    e.BorneOut root d := by
  obtain ⟨i, text, here, found⟩ := mem_inTurn found
  have length : (([] : List String) ++ texts.take i).length = i := length_take_of_getElem? here
  rw [emit, length, List.nil_append] at found
  rcases List.mem_append.1 found with found | found
  · exact borneOut_defined found (.inl (there.each i text here))
  · obtain ⟨known, rfl⟩ := mem_demand.1 found
    exact repeatedAt there here (not_not.1 known)

theorem borneOut_methodType {word : Option String} {emits : List String}
    (stands : ∀ w, word = some w → Found root (place.child "type") text? w)
    (listed : Listing root place "emits" emits)
    (found : e ∈ methodType (place.child "type") word emits) : e.BorneOut root d := by
  unfold methodType at found
  split at found
  · cases found
  · rename_i word
    have here := stands word rfl
    split at found
    · cases found
    · rename_i filled
      split at found
      · rename_i unknown
        cases List.mem_singleton.1 found
        exact ⟨here, filled, unknown⟩
      · rename_i known
        obtain ⟨emitting, rfl⟩ := mem_demand.1 found
        rw [Method.Kind.parse?_eq_some_iff.1 known] at here
        exact ⟨place, emits, rfl, here, listed.listed emitting, emitting⟩
      · rename_i kind other known
        obtain ⟨silent, rfl⟩ := mem_demand.1 found
        rw [Method.Kind.parse?_eq_some_iff.1 known] at here
        exact ⟨place, rfl, here, other, listed.lacking (not_not.1 silent)⟩

/-- The parts of a method stand under their keys, also if nothing is said about it. -/
theorem at_of_optional {m : Option Document.Method}
    (found : Found root place (optional? method?) m) :
    (m.getD .empty).At root place := by
  cases m with
  | some m => exact found.given.method
  | none =>
      obtain ⟨node, here, done⟩ := found
      have lacking := Document.lacking_of_node here (Document.vacant_of_optional? done) "emits"
      exact {
        input := fun _ given => by cases given
        output := fun _ given => by cases given
        kind := fun _ given => by cases given
        emits := ⟨fun _ _ given => (by cases given), fun filled => absurd rfl filled,
          fun _ => lacking⟩ }

theorem borneOut_method {m : String × Document.Method}
    (keyed : KeyedAt root place key) (there : m.2.At root place)
    (found : e ∈ method (names d.eventDecls) place key m.2) : e.BorneOut root d := by
  unfold method at found
  simp only [List.mem_append, List.mem_flatMap, Option.mem_toList] at found
  rcases found with (((found | ⟨r, given, found⟩) | ⟨r, given, found⟩) | found) | found
  · exact borneOut_name (by decide) found keyed
  · exact borneOut_reference found (.inl (there.input r given))
  · exact borneOut_reference found (.inl (there.output r given))
  · exact borneOut_emit there.emits found
  · exact borneOut_methodType there.kind there.emits found

theorem borneOut_service {s : String × Document.Service} (declared : s ∈ d.serviceDecls)
    (there : Found root ((NodePath.root.child "services").child s.1)
      Document.Reader.service? s.2)
    (found : e ∈ service (names d.eventDecls) (names d.projectionDecls)
      ((NodePath.root.child "services").child s.1) s.1 s.2) : e.BorneOut root d := by
  have parts := there.service
  unfold service at found
  simp only [List.mem_append] at found
  rcases found with ((found | found) | found) | found
  · exact borneOut_name (by decide) found (keyedAt_of_found there)
  · exact borneOut_entry parts.projections found
  · obtain ⟨lacking, rfl⟩ := mem_demand.1 found
    have lacking : s.2.methods.getD [] = [] := List.map_eq_nil_iff.1 (not_not.1 lacking)
    exact ⟨s.1, List.mem_map_of_mem declared, rfl, parts.methods.lacking lacking⟩
  · obtain ⟨m, member, found⟩ := List.mem_flatMap.1 found
    obtain ⟨decl, listed, rfl⟩ := List.mem_map.1 member
    have here := parts.methods.each decl listed
    exact @borneOut_method _ _ _ _ _ (decl.1, decl.2.getD .empty) (keyedAt_of_found here)
      (at_of_optional here) found

/-- Every violation is borne out by every text that holds the document. -/
theorem borneOut_violations (held : HeldBy root d) (found : e ∈ d.violations) :
    e.BorneOut root d := by
  have there := Document.at_of_heldBy held
  unfold Document.violations at found
  simp only [List.mem_append] at found
  rcases found with ((found | found) | found) | found
  · exact borneOut_events there found
  · obtain ⟨p, member, found⟩ := List.mem_flatMap.1 found
    exact borneOut_projection member (there.projections.each p member) found
  · rcases List.mem_append.1 found with found | found
    · obtain ⟨lacking, rfl⟩ := mem_demand.1 found
      exact ⟨rfl, there.services.lacking (not_not.1 lacking)⟩
    · obtain ⟨s, member, found⟩ := List.mem_flatMap.1 found
      exact borneOut_service member (there.services.each s member) found
  · obtain ⟨event, declared, found⟩ := List.mem_flatMap.1 found
    obtain ⟨unused, rfl⟩ := mem_demand.1 found
    obtain ⟨decl, member, rfl⟩ := List.mem_map.1 declared
    exact ⟨rfl, keyedAt_of_found (there.events.each decl member), unused⟩

end Rules

/-! ## Whole documents -/

variable {root : Value} {d : Document} {place : NodePath} {e : Error}

theorem node_of_found {α : Type} {read : Value → Option α} {a : α}
    (found : Found root place read a) : ∃ node, root.at? place.segments = some node := by
  obtain ⟨node, here, _⟩ := found
  exact ⟨node, here⟩

theorem Malformation.BorneOut.node {what : Malformation} (borneOut : what.BorneOut root place) :
    ∃ node, root.at? place.segments = some node := by
  have keyed {text : String} (here : KeyedAt root place text) :
      ∃ node, root.at? place.segments = some node := by
    obtain ⟨_, node, _, here⟩ := here
    exact ⟨node, here⟩
  cases what with
  | document => exact borneOut.elim
  | name what text defect =>
      cases what with
      | state => exact node_of_found borneOut.1
      | _ => exact keyed borneOut.1
  | typeReference text defect =>
      rcases borneOut.1 with found | ⟨p, found, _⟩
      · exact node_of_found found
      · exact node_of_found found
  | transition text => exact node_of_found borneOut.1
  | methodType word => exact node_of_found borneOut.1

/-- Where a place leads to: a node, or next to what is missing there. -/
def Error.Leads (root : Value) (place : NodePath) (e : Error) : Prop :=
  (∃ node, root.at? place.segments = some node) ∨
    e.OfMissing ∧ ∃ parent key, place = NodePath.child parent key ∧ Lacking root parent key

theorem Contradiction.BorneOut.leads {what : Contradiction}
    (borneOut : what.BorneOut root d place) :
    (Error.contradictory place what).Leads root place := by
  cases what with
  | missingEvents =>
      obtain ⟨at_, lacking⟩ := borneOut
      exact .inr ⟨trivial, .root, "events", at_, lacking⟩
  | missingServices =>
      obtain ⟨at_, lacking⟩ := borneOut
      exact .inr ⟨trivial, .root, "services", at_, lacking⟩
  | missingMethods =>
      obtain ⟨_, _, at_, lacking⟩ := borneOut
      exact .inr ⟨trivial, _, "methods", at_, lacking⟩
  | missingStates =>
      obtain ⟨_, _, at_, lacking⟩ := borneOut
      exact .inr ⟨trivial, _, "states", at_, lacking⟩
  | duplicateState state =>
      obtain ⟨_, _, _, _, _, found, _⟩ := borneOut
      exact .inl (node_of_found found)
  | undefinedEvent event =>
      obtain ⟨found | ⟨_, node, _, here⟩, _⟩ := borneOut
      · exact .inl (node_of_found found)
      · exact .inl ⟨node, here⟩
  | undefinedProjection projection => exact .inl (node_of_found borneOut.1)
  | duplicateProjection projection =>
      obtain ⟨_, _, _, _, _, found, _⟩ := borneOut
      exact .inl (node_of_found found)
  | undefinedState role state =>
      obtain ⟨_, _, _, _, _, found, _⟩ := borneOut
      exact .inl (node_of_found found)
  | duplicateTransition s t =>
      obtain ⟨_, _, _, _, _, found, _⟩ := borneOut
      exact .inl (node_of_found found)
  | createOnTransition event createOn transition =>
      obtain ⟨_, _, _, _, rfl, _, found, _⟩ := borneOut
      exact .inl (node_of_found found)
  | duplicateEmit event =>
      obtain ⟨_, _, _, _, _, found, _⟩ := borneOut
      exact .inl (node_of_found found)
  | emitsRequired kind =>
      obtain ⟨_, _, found, _⟩ := borneOut
      exact .inl (node_of_found found)
  | readonlyEmits =>
      obtain ⟨_, _, _, found, _⟩ := borneOut
      exact .inl (node_of_found found)
  | unusedEvent event =>
      obtain ⟨_, ⟨_, node, _, here⟩, _⟩ := borneOut
      exact .inl ⟨node, here⟩
  | undefinedTypes references => exact borneOut.elim
  | ambiguousTypes references => exact borneOut.elim
  | source failure => exact borneOut.elim

theorem Error.BorneOut.leads (borneOut : e.BorneOut root d) (at_ : e.place? = some place) :
    e.Leads root place := by
  cases e with
  | malformed place what =>
      cases at_
      exact .inl (Malformation.BorneOut.node borneOut)
  | contradictory place what =>
      cases at_
      exact Contradiction.BorneOut.leads borneOut
  | unreadable => cases at_

theorem heldBy_written (keyed : d.Keyed) : HeldBy d.written d := by
  have solid : optional? document? d.written = (document? d.written).map some := rfl
  rw [HeldBy, solid, Document.document?_written keyed]
  rfl

/-- An error of a document that is about a place in it is borne out by every text that holds the
document, of which there is one: its place leads to a node that has what the error says, or next to
what the error says is missing. -/
theorem error_leads_to_offender (keyed : d.Keyed) {c : Compiler} {raw : String}
    (refused : c.compileDocument raw d = .error e) (at_ : e.place? = some place)
    (inside : place.isRoot = false) :
    (∃ root, HeldBy root d) ∧
      ∀ root, HeldBy root d → e.Leads root place ∧ e.BorneOut root d := by
  refine ⟨⟨d.written, heldBy_written keyed⟩, fun root held => ?_⟩
  have borneOut : e.BorneOut root d := by
    cases broken : d.violations with
    | cons first rest =>
        rw [compileDocument_eq keyed, broken] at refused
        cases refused
        exact Rules.borneOut_violations held (broken ▸ List.mem_cons_self)
    | nil =>
        obtain ⟨what, _, rfl⟩ := ofSources_of_sound keyed broken refused
        cases at_
        cases inside
  exact ⟨borneOut.leads at_, borneOut⟩

/-- The gate that would come into a state that there is not: the place of its error leads to the
list of transitions with this state. -/
theorem ajar_leads_to_transitions :
    let d := gate ["Open -> Shut", "Shut -> Ajar"] ["Closed"]
    let place : NodePath := ⟨["projections", "Gate", "transitions", "Closed"]⟩
    let e := Error.contradictory place (.undefinedState .target "Ajar")
    (Compiler.compileDocument ⟨.empty, []⟩ "" d = .error e ∧ HeldBy d.written d) ∧
      e.Leads d.written place ∧ e.BorneOut d.written d := by
  have refused : Compiler.compileDocument ⟨.empty, []⟩ ""
      (gate ["Open -> Shut", "Shut -> Ajar"] ["Closed"]) =
        .error (.contradictory ⟨["projections", "Gate", "transitions", "Closed"]⟩
          (.undefinedState .target "Ajar")) := by decide +kernel
  have held := heldBy_written (keyed_gate ["Open -> Shut", "Shut -> Ajar"] ["Closed"])
  exact ⟨⟨refused, held⟩, (error_leads_to_offender (keyed_gate _ _) refused rfl rfl).2 _ held⟩

end EventSourcing.Schema
