import EventSourcing.Proofs.Schema.Walk
import EventSourcing.Schema.Compiler

/-!
# Proofs.Schema.FirstViolation -- what compilation ends at

The walk of a whole document comes to its outline, or ends at its first violation
(`draft_eq`).
-/

namespace EventSourcing.Schema

set_option autoImplicit false

open EventSourcing.Document (names)

/-! ## Events that are named -/

def Names (id : EventId) (ms : List Mention) : Prop :=
  ∃ place, Mention.event id place ∈ ms

variable {id : EventId} {ms ms' : List Mention}

theorem names_append : Names id (ms ++ ms') ↔ Names id ms ∨ Names id ms' := by
  simp only [Names, List.mem_append, exists_or]

theorem names_flatMap {ξ : Type} {f : ξ → List Mention} {xs : List ξ} :
    Names id (xs.flatMap f) ↔ ∃ x ∈ xs, Names id (f x) := by
  simp only [Names, List.mem_flatMap]
  exact ⟨fun ⟨p, x, h, i⟩ => ⟨x, h, p, i⟩, fun ⟨x, h, p, i⟩ => ⟨p, x, h, i⟩⟩

theorem names_cons_event {id' : EventId} {place : Place} :
    Names id (.event id' place :: ms) ↔ id = id' ∨ Names id ms := by
  simp [Names, exists_or]

theorem not_names_reference {text : String} {place : Place} :
    ¬ Names id (referenceMentions text place) := by
  unfold referenceMentions
  cases TypeRef.parse text <;> simp [Names]

theorem not_names_properties {place : String → Place} {decls : Document.Named Document.Property} :
    ¬ Names id (propertyMentions place decls) := by
  rw [propertyMentions, names_flatMap]
  rintro ⟨p, _, named⟩
  exact not_names_reference named

theorem names_transitions {events : List String} {i : Nat}
    {decls : Document.Named (List String)} :
    Names id (transitionMentions events i decls) ↔
      id ∈ (names (decls.filter fun t => t.2 ≠ [])).map (eventNumber events) := by
  rw [transitionMentions, names_flatMap, names, List.map_map, List.mem_map]
  constructor
  · rintro ⟨t, member, place, named⟩
    obtain ⟨k, inside, same⟩ := List.mem_map.1 named
    cases same
    have filled : t.2 ≠ [] :=
      List.ne_nil_of_length_pos (Nat.zero_lt_of_lt (List.mem_range.1 inside))
    exact ⟨t, List.mem_filter.2 ⟨member, decide_eq_true filled⟩, rfl⟩
  · rintro ⟨t, listed, rfl⟩
    obtain ⟨declared, filled⟩ := List.mem_filter.1 listed
    have nonempty : 0 < t.2.length := List.length_pos_of_ne_nil (of_decide_eq_true filled)
    exact ⟨t, declared, _, List.mem_map_of_mem (List.mem_range.2 nonempty)⟩

theorem names_projection {events : List String} {decl : Document.Projection} {i : Nat} :
    Names id (projectionMentions events decl i) ↔
      id ∈ decl.namedEvents.map (eventNumber events) := by
  rw [projectionMentions, names_append, names_cons_event, names_transitions,
    Document.Projection.namedEvents, List.map_cons, List.mem_cons]
  simp only [not_names_properties, false_or]

theorem names_method {events : List String} {i : Nat} {key : String} {decl : Document.Method} :
    Names id (methodMentions events i key decl) ↔ id ∈ decl.emits.map (eventNumber events) := by
  rw [methodMentions, names_append, names_append, names_flatMap, names_flatMap]
  simp only [not_names_reference, and_false, exists_false, false_or]
  simp [Names, eq_comm]

theorem names_service {events : List String} {decl : Document.Service} {i : Nat} :
    Names id (serviceMentions events decl i) ↔
      id ∈ (decl.methodDecls.flatMap fun m => m.2.emits).map (eventNumber events) := by
  rw [serviceMentions, names_flatMap, List.map_flatMap, List.mem_flatMap]
  exact exists_congr fun m => and_congr_right fun _ => names_method

theorem names_zipIdx {ξ : Type} {named : ξ → List EventId} (xs : List ξ)
    (mentions : ξ → Nat → List Mention) (each : ∀ x i, Names id (mentions x i) ↔ id ∈ named x) :
    Names id (xs.zipIdx.flatMap fun x => mentions x.1 x.2) ↔ id ∈ xs.flatMap named := by
  rw [names_flatMap, List.mem_flatMap]
  simp only [each]
  constructor
  · rintro ⟨x, member, holds⟩
    exact ⟨x.1, List.fst_mem_of_mem_zipIdx member, holds⟩
  · rintro ⟨x, member, holds⟩
    obtain ⟨i, inside, rfl⟩ := List.mem_iff_getElem.1 member
    exact ⟨(xs[i], i), List.mk_mem_zipIdx_iff_getElem?.2 (List.getElem?_eq_getElem inside), holds⟩

/-- The events that a document mentions are those that it names. -/
theorem names_document {d : Document} :
    Names id d.mentions ↔ id ∈ d.namedEvents.map (eventNumber (names d.eventDecls)) := by
  have empty : ¬ Names id d.mentionsOfEvents := by
    rw [Document.mentionsOfEvents, names_flatMap]
    rintro ⟨e, _, named⟩
    exact not_names_properties named
  unfold Document.mentions Document.namedEvents
  rw [names_append, names_append, or_iff_right empty, List.map_append, List.mem_append,
    List.map_flatMap, List.map_flatMap]
  refine or_congr ?_ ?_
  · exact names_zipIdx d.projectionDecls (fun p => projectionMentions (names d.eventDecls) p.2)
      fun _ _ => names_projection
  · exact names_zipIdx d.serviceDecls (fun s => serviceMentions (names d.eventDecls) s.2)
      fun _ _ => names_service

theorem isEventReferenced_mentioned :
    (Draft.empty.mentioned ms).references.isEventReferenced id = true ↔ Names id ms := by
  rw [References.isEventReferenced, eventPlaces_mentioned]
  have vacant : Draft.empty.references.eventPlaces id = [] := rfl
  rw [vacant, List.nil_append, Bool.not_eq_true', List.isEmpty_eq_false_iff_exists_mem]
  simp only [List.mem_filterMap]
  constructor
  · rintro ⟨place, m, member, recorded⟩
    cases m with
    | type r place' => cases recorded
    | event id' place' =>
        rw [Mention.ofEvent?] at recorded
        split at recorded
        · rename_i same
          exact ⟨place', same ▸ member⟩
        · cases recorded
  · rintro ⟨place, member⟩
    exact ⟨place, _, member, if_pos rfl⟩

/-! ## The whole walk -/

/-- The position of a name that stands once. -/
theorem eventNumber_eq_iff {events : List String} (distinct : events.Nodup) {i : Nat}
    (inside : i < events.length) {name : String} :
    eventNumber events name = ⟨i⟩ ↔ name = events[i] := by
  constructor
  · intro same
    have position : events.idxOf name = i := congrArg EventId.index same
    subst position
    exact (List.getElem_idxOf inside).symm
  · rintro rfl
    exact congrArg EventId.mk (distinct.idxOf_getElem i inside)

theorem map_zipIdx {ξ ν : Type} {f : ξ × Nat → ν} (g : ξ → ν) (same : ∀ x, f x = g x.1)
    (xs : List ξ) : xs.zipIdx.map f = xs.map g := by
  have all : f = g ∘ Prod.fst := funext same
  rw [all, ← List.map_map, List.zipIdx_map_fst]

/-- Nodes that keep the names of the declarations that they come from. -/
theorem names_nodes {α ν : Type} {node : (String × α) × Nat → ν} {name : ν → String}
    (kept : ∀ x, name (node x) = x.1.1) (decls : Document.Named α) :
    (decls.zipIdx.map node).map name = names decls := by
  rw [List.map_map]
  exact map_zipIdx Prod.fst kept decls

theorem names_eventNodes (d : Document) : d.eventNodes.map (·.name) = names d.eventDecls := by
  refine names_nodes (fun _ => ?_) d.eventDecls
  rfl

theorem names_projectionNodes (d : Document) :
    d.projectionNodes.map (·.name) = names d.projectionDecls := by
  refine names_nodes (fun _ => ?_) d.projectionDecls
  rfl

/-- A search for something that breaks a rule comes to the first violation of the rule. -/
theorem find?_eq_verdict {ν α : Type} (bad : ν → Bool) {rule : ν → Prop} [DecidablePred rule]
    {otherwise : ν → Error} {a : α} {nodes : List ν}
    (broken : ∀ x ∈ nodes, bad x = true ↔ ¬ rule x) :
    (match nodes.find? bad with
      | some x => Except.error (otherwise x)
      | none => Except.ok a) =
      verdict (nodes.flatMap fun x => Rules.demand (rule x) (otherwise x)) a := by
  induction nodes with
  | nil => rfl
  | cons x rest ih =>
      rw [List.flatMap_cons, List.find?_cons, Rules.demand]
      have here := broken x List.mem_cons_self
      by_cases holds : rule x
      · rw [if_pos holds, Bool.eq_false_iff.2 fun bad => here.1 bad holds]
        exact ih fun y member => broken y (List.mem_cons_of_mem x member)
      · rw [if_neg holds, here.2 holds]
        rfl

/-- A compiled event is recorded somewhere if its name is among those that the document
names. -/
theorem isEventReferenced_node {d : Document} (keyed : d.Keyed) {e : Event}
    (member : e ∈ d.eventNodes) :
    (Draft.empty.mentioned d.mentions).references.isEventReferenced e.id = true ↔
      e.name ∈ d.namedEvents := by
  obtain ⟨⟨decl, i⟩, listed, rfl⟩ := List.mem_map.1 member
  obtain ⟨inside, rfl⟩ := List.getElem?_eq_some_iff.1 (List.mk_mem_zipIdx_iff_getElem?.1 listed)
  have inside' : i < (names d.eventDecls).length := by simpa [names] using inside
  have name : (names d.eventDecls)[i] = d.eventDecls[i].1 := List.getElem_map _
  rw [isEventReferenced_mentioned, names_document, List.mem_map]
  simp only [eventNode, eventNumber_eq_iff keyed.events inside', name, exists_eq_right]

theorem run_checkUsed {d : Document} (keyed : d.Keyed) {walked : Draft}
    (events : walked.events = d.eventNodes)
    (references : walked.references = (Draft.empty.mentioned d.mentions).references) :
    Compile.checkUsed.run walked =
      verdict ((names d.eventDecls).flatMap fun e =>
        Rules.demand (e ∈ d.namedEvents)
          (.contradictory ((NodePath.root.child "events").child e) (.unusedEvent e)))
        ((), walked) := by
  rw [← names_eventNodes, List.flatMap_map, ← events]
  refine Eq.trans ?_ (find?_eq_verdict (fun e => !walked.references.isEventReferenced e.id)
    fun e member => ?_)
  · rw [Compile.checkUsed, Compile.run_get]
    cases walked.events.find? fun e => !walked.references.isEventReferenced e.id <;> rfl
  · rw [events] at member
    rw [references, Bool.not_eq_true', ← Bool.not_eq_true]
    exact not_congr (isEventReferenced_node keyed member)

theorem events_outline (d : Document) : d.outline.events = d.eventNodes := by
  have vacant : (Draft.empty.mentioned d.mentions).events = [] := events_mentioned d.mentions
  show (Draft.empty.mentioned d.mentions).events ++ d.eventNodes = _
  rw [vacant, List.nil_append]

theorem projections_outline (d : Document) : d.outline.projections = d.projectionNodes := by
  have vacant : (Draft.empty.mentioned d.mentions).projections = [] :=
    projections_mentioned d.mentions
  show (Draft.empty.mentioned d.mentions).projections ++ d.projectionNodes = _
  rw [vacant, List.nil_append]

theorem services_outline (d : Document) : d.outline.services = d.serviceNodes := by
  have vacant : (Draft.empty.mentioned d.mentions).services = [] := services_mentioned d.mentions
  show (Draft.empty.mentioned d.mentions).services ++ d.serviceNodes = _
  rw [vacant, List.nil_append]

theorem run_document {d : Document} (keyed : d.Keyed) :
    (Compile.document d).run .empty = verdict d.violations ((), d.outline) := by
  have all : Within d.types Draft.empty d.mentions := List.prefix_rfl
  let d₁ := (Draft.empty.mentioned d.mentionsOfEvents).addEvents d.eventNodes
  let d₂ := (d₁.mentioned d.mentionsOfProjections).addProjections d.projectionNodes
  let d₃ := (d₂.mentioned d.mentionsOfServices).addServices d.serviceNodes
  have outline : d₃ = d.outline := by
    show ((((Draft.empty.mentioned _).addEvents _).mentioned _).addProjections _ |>.mentioned
      _).addServices _ = _
    rw [Compile.adds_events.mentioned, Compile.adds_projections.mentioned,
      Compile.adds_events.mentioned, ← mentioned_append, ← mentioned_append]
    rfl
  have events₁ : d₁.events = d.eventNodes :=
    congrArg (· ++ d.eventNodes) (events_mentioned d.mentionsOfEvents)
  have events₂ : d₂.events = d.eventNodes :=
    (events_mentioned d.mentionsOfProjections).trans events₁
  have projections₁ : d₁.projections = [] := projections_mentioned d.mentionsOfEvents
  have projections₂ : d₂.projections = d.projectionNodes :=
    congrArg (· ++ d.projectionNodes)
      ((projections_mentioned d.mentionsOfProjections).trans projections₁)
  have services₂ : d₂.services = [] :=
    (services_mentioned d.mentionsOfProjections).trans (services_mentioned d.mentionsOfEvents)
  have known₁ : d₁.events.map (·.name) = names d.eventDecls := events₁ ▸ names_eventNodes d
  have known₂ : d₂.events.map (·.name) = names d.eventDecls := events₂ ▸ names_eventNodes d
  have within₁ : Within d.types d₁ (d.mentionsOfProjections ++ d.mentionsOfServices) :=
    Compile.adds_events.within all.right
  have within₂ : Within d.types d₂ d.mentionsOfServices :=
    Compile.adds_projections.within within₁.right
  unfold Document.violations
  simp only [List.append_assoc]
  refine Compile.run_bind (Compile.run_events rfl all.left) fun _ => ?_
  refine Compile.run_bind (Compile.run_projections known₁ (projections₁ ▸ rfl) within₁.left)
    fun _ => ?_
  refine Compile.run_bind (Compile.run_services known₂ (names_projectionNodes d) projections₂
    (services₂ ▸ rfl) within₂) fun _ => ?_
  rw [← outline]
  have references : d₃.references = d.outline.references := congrArg Draft.references outline
  exact run_checkUsed keyed ((events_mentioned d.mentionsOfServices).trans events₂) references

/-- The walk of a document comes to its outline, or ends at its first violation. -/
theorem draft_eq {d : Document} (keyed : d.Keyed) : draft d = verdict d.violations d.outline := by
  rw [draft, run_document keyed]
  cases d.violations <;> rfl

/-! ## Compilation -/

/-- With sources, a document comes to its first violation, or its outline is resolved. -/
theorem compileDocument_eq {d : Document} (keyed : d.Keyed) (c : Compiler) (raw : String) :
    c.compileDocument raw d =
      match d.violations with
      | e :: _ => .error e
      | [] =>
        match Source.Root.loadAll c.roots c.sources with
        | (sources, none) => d.outline.resolve raw sources
        | (_, some failure) => .error (.contradictory .root (.source failure)) := by
  rw [Compiler.compileDocument, draft_eq keyed]
  cases d.violations <;> rfl

/-- A contradiction that has to do with sources. -/
inductive Contradiction.OfSources : Contradiction → Prop
  | source (failure : Source.LoadError) : OfSources (.source failure)
  | undefinedTypes (references : List String) : OfSources (.undefinedTypes references)
  | ambiguousTypes (references : List String) : OfSources (.ambiguousTypes references)

theorem resolve_error {d : Draft} {raw : String} {sources : Source.Index} {e : Error}
    (refused : d.resolve raw sources = .error e) :
    ∃ what, Contradiction.OfSources what ∧ e = .contradictory .root what := by
  unfold Draft.resolve at refused
  split at refused
  · cases refused
  · cases refused
    exact ⟨_, .ambiguousTypes _, rfl⟩
  · cases refused
    exact ⟨_, .undefinedTypes _, rfl⟩

/-- A document that breaks no rule is refused only for what is in the sources. -/
theorem ofSources_of_sound {d : Document} (keyed : d.Keyed) {c : Compiler} {raw : String}
    {e : Error} (sound : d.violations = []) (refused : c.compileDocument raw d = .error e) :
    ∃ what, Contradiction.OfSources what ∧ e = .contradictory .root what := by
  rw [compileDocument_eq keyed, sound] at refused
  dsimp only at refused
  split at refused
  · exact resolve_error refused
  · cases refused
    exact ⟨_, .source _, rfl⟩

/-- A document that breaks rules is refused for its first violation, whatever the sources
and the roots are.  One that breaks none is refused only for what is in the sources. -/
theorem compileDocument_reports_first_violation {d : Document} (keyed : d.Keyed) (c : Compiler)
    (raw : String) :
    (∀ e rest, d.violations = e :: rest → c.compileDocument raw d = .error e) ∧
      (d.violations = [] → ∀ e, c.compileDocument raw d = .error e →
        ∃ what, Contradiction.OfSources what ∧ e = .contradictory .root what) := by
  constructor
  · intro e rest broken
    rw [compileDocument_eq keyed, broken]
  · intro sound e refused
    exact ofSources_of_sound keyed sound refused

/-- A gate that is opened and closed.  The transitions on its closing and the events of the
method that closes it are left open. -/
def gate (closing emits : List String) : Document where
  events := some [("Opened", none), ("Closed", some [("by", .type "Name")])]
  projections := some [("Gate", ⟨["Open", "Shut"], none, "Opened", some [("Closed", closing)]⟩)]
  services := some
    [("Gates", ⟨["Gate"], some [("Close", some ⟨some "Name", none, none, emits⟩)]⟩)]

theorem keyed_gate (closing emits : List String) : (gate closing emits).Keyed := by
  constructor <;> simp [gate, Document.eventDecls, Document.projectionDecls,
    Document.serviceDecls, Document.Projection.propertyDecls, Document.Projection.transitionDecls,
    Document.Service.methodDecls, names]

/-- The gate with a state and an event that there are not is refused for the state.  The
sound one is refused only for the type that no source declares. -/
theorem gate_reports_first_violation :
    Compiler.compileDocument ⟨.empty, []⟩ ""
        (gate ["Open -> Shut", "Shut -> Ajar"] ["Slammed"]) =
      .error (.contradictory ⟨["projections", "Gate", "transitions", "Closed"]⟩
        (.undefinedState .target "Ajar")) ∧
    ∃ what, Contradiction.OfSources what ∧
      Error.contradictory .root (.undefinedTypes ["Name"]) = .contradictory .root what :=
  ⟨(compileDocument_reports_first_violation (keyed_gate _ _) ⟨.empty, []⟩ "").1 _
      [.contradictory ⟨["services", "Gates", "methods", "Close", "emits", "0"]⟩
        (.undefinedEvent "Slammed")] (by decide +kernel),
    (compileDocument_reports_first_violation (keyed_gate ["Open -> Shut"] ["Closed"])
      ⟨.empty, []⟩ "").2 (by decide +kernel) _ (by decide +kernel)⟩

end EventSourcing.Schema
