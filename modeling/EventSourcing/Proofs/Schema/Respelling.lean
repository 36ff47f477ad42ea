import EventSourcing.Proofs.Document.Spelling
import EventSourcing.Proofs.Schema.WellFormed
import Mathlib.Logic.Relation

/-!
# Proofs.Schema.Respelling -- documents that compile alike

Every document has a plain spelling, in which everything that may be left out is written, and
nothing that may be left out of transitions is (`Document.plain`).  Spelling something differently
does not change the plain spelling (`Respelled.plain_eq`), and a document breaks the same rules as
its plain spelling and says the same (`violations_plain`, `outline_plain`).  Main statement:
documents that are spelled differently compile alike (`spellings_compile_alike`).
-/

namespace EventSourcing

set_option autoImplicit false

namespace Document

open EventSourcing.Schema (Transition)
open EventSourcing.Schema.Compile (transition? transition?_eq_some_iff)

/-! ## Plain spellings -/

def Property.plain (p : Property) : Property :=
  .documented p.reference (some (.lines p.doc))

def plainProperties (decls : Named Property) : Named Property :=
  decls.map (Prod.map id Property.plain)

/-- A transition with one space on both sides of its arrow. -/
def plainExpression (e : String) : String :=
  match transition? e with
  | some t => t.source ++ " -> " ++ t.target
  | none => e

/-- Transitions without the events that have none, as far as these are declared. -/
def plainTransitions (events : List String) (decls : Named (List String)) :
    Named (List String) :=
  (decls.map (Prod.map id (List.map plainExpression))).filter fun t => ¬ (t.1 ∈ events ∧ t.2 = [])

def Projection.plain (events : List String) (p : Projection) : Projection :=
  { p with
    properties := some (plainProperties p.propertyDecls)
    transitions := some (plainTransitions events p.transitionDecls) }

/-- A method whose kind is left out unless it is declared. -/
def Method.plain (m : Method) : Method :=
  { m with kind := if m.kind = some "" then none else m.kind }

def Service.plain (s : Service) : Service :=
  { s with methods := some ((s.methods.getD []).map (Prod.map id fun m =>
    some (m.getD .empty).plain)) }

def plainEvent (props : Option (Named Property)) : Option (Named Property) :=
  some (plainProperties (props.getD []))

/-- A document in its plain spelling. -/
def plain (d : Document) : Document where
  events := some (d.eventDecls.map (Prod.map id plainEvent))
  projections := some (d.projectionDecls.map (Prod.map id (Projection.plain (names d.eventDecls))))
  services := some (d.serviceDecls.map (Prod.map id Service.plain))

/-! ## What a step leaves alone -/

section Steps

variable {α β : Type} {step : α → α → Prop} {f : α → β}

theorem OneOf.map_eq {decls decls' : Named α} (changed : OneOf step decls decls')
    (kept : ∀ a a', step a a' → f a = f a') :
    decls.map (Prod.map id f) = decls'.map (Prod.map id f) := by
  cases changed with
  | change before after name changed => simp [kept _ _ changed]

theorem OneOf.names_eq {decls decls' : Named α} (changed : OneOf step decls decls') :
    names decls = names decls' := by
  cases changed with
  | change before after name _ => simp [names]

theorem Written.getD_eq {empty : α} {o o' : Option α} (written : Written empty step o o')
    (kept : ∀ a a', step a a' → f a = f a') : f (o.getD empty) = f (o'.getD empty) := by
  cases written with
  | absent => rfl
  | change changed => exact kept _ _ changed

variable {events : List String}

theorem Property.Respelled.plain_eq {p p' : Property} (respelled : p.Respelled p') :
    p.plain = p'.plain := by
  cases respelled <;> rfl

theorem plainProperties_eq {decls decls' : Named Property}
    (changed : OneOf Property.Respelled decls decls') :
    plainProperties decls = plainProperties decls' :=
  changed.map_eq fun _ _ respelled => respelled.plain_eq

theorem Spells.plainExpression_eq {source target e : String} (spells : Spells source target e) :
    plainExpression e = source ++ " -> " ++ target := by
  have read : transition? e = some ⟨source, target⟩ :=
    transition?_eq_some_iff.2 (spells_iff.1 spells)
  rw [plainExpression, read]

theorem Spaced.plain_eq {es es' : List String} (spaced : Spaced es es') :
    es.map plainExpression = es'.map plainExpression := by
  cases spaced with
  | change before after spells spells' =>
      simp [spells.plainExpression_eq, spells'.plainExpression_eq]

theorem TransitionsRespelled.plain_eq {decls decls' : Named (List String)}
    (respelled : TransitionsRespelled events decls decls') :
    plainTransitions events decls = plainTransitions events decls' := by
  cases respelled with
  | spaced changed =>
      rw [plainTransitions, changed.map_eq fun _ _ spaced => spaced.plain_eq, plainTransitions]
  | idle before after declared =>
      simp [plainTransitions, declared]

theorem Projection.Respelled.plain_eq {p p' : Projection} (respelled : p.Respelled events p') :
    p.plain events = p'.plain events := by
  cases respelled with
  | properties changed =>
      have same := changed.getD_eq fun _ _ changed => plainProperties_eq changed
      exact congrArg (fun decls => { p with
        properties := some decls
        transitions := some (plainTransitions events p.transitionDecls) }) same
  | transitions changed =>
      have steps : ∀ ts ts', TransitionsRespelled events ts ts' →
          plainTransitions events ts = plainTransitions events ts' :=
        fun _ _ changed => changed.plain_eq
      have same := changed.getD_eq steps
      exact congrArg (fun decls => { p with
        properties := some (plainProperties p.propertyDecls)
        transitions := some decls }) same

theorem Method.Respelled.plain_eq {m m' : Method} (respelled : m.Respelled m') :
    m.plain = m'.plain := by
  cases respelled with
  | kind absent => simp [Method.plain, absent]

theorem Service.Respelled.plain_eq {s s' : Service} (respelled : s.Respelled s') :
    s.plain = s'.plain := by
  cases respelled with
  | @methods methods changed =>
      have bodies : ∀ m m' : Option Method, Written .empty Method.Respelled m m' →
          some (m.getD .empty).plain = some (m'.getD .empty).plain := fun _ _ written =>
        congrArg some (written.getD_eq fun _ _ respelled => respelled.plain_eq)
      have same := changed.getD_eq fun _ _ changed => changed.map_eq bodies
      exact congrArg (fun methods => { s with methods := some methods }) same

/-- Spelling something differently does not change the plain spelling. -/
theorem Respelled.plain_eq {d d' : Document} (respelled : d.Respelled d') :
    d.plain = d'.plain := by
  cases respelled with
  | @events events changed =>
      have same_names : names d.eventDecls = names (events.getD []) :=
        changed.getD_eq fun _ _ changed => changed.names_eq
      have props : ∀ ps ps', Written [] (OneOf Property.Respelled) ps ps' →
          plainEvent ps = plainEvent ps' :=
        fun _ _ written =>
          congrArg some (written.getD_eq fun _ _ changed => plainProperties_eq changed)
      have same := changed.getD_eq fun _ _ changed => changed.map_eq props
      unfold plain
      rw [same_names, eventDecls, same]
      rfl
  | @projections projections changed =>
      have same := changed.getD_eq fun _ _ changed =>
        changed.map_eq fun _ _ respelled => respelled.plain_eq
      unfold plain
      rw [projectionDecls, same]
      rfl
  | @services services changed =>
      have same := changed.getD_eq fun _ _ changed =>
        changed.map_eq fun _ _ respelled => respelled.plain_eq
      unfold plain
      rw [serviceDecls, same]
      rfl

end Steps

/-! ## What expressions say -/

theorem spells_of_transition {e : String} {t : Transition} (read : transition? e = some t) :
    Spells t.source t.target e :=
  spells_iff.2 (transition?_eq_some_iff.1 read)

theorem transition?_plainExpression (e : String) :
    transition? (plainExpression e) = transition? e := by
  cases read : transition? e with
  | none => rw [plainExpression, read, read]
  | some t =>
      have spells := spells_of_transition read
      have plain : Spells t.source t.target (plainExpression e) := by
        rw [spells.plainExpression_eq]
        have nothing : Text.AllBlank [] := fun c member => (List.not_mem_nil member).elim
        have space : Text.AllBlank [' '] ∧ [' '] ≠ [] :=
          ⟨List.forall_mem_singleton.2 (by decide), List.cons_ne_nil _ _⟩
        exact ⟨spells.fromState, spells.toState, [], [' '], [' '], [], nothing, space, space,
          nothing, by simp⟩
      exact transition?_eq_some_iff.2 (spells_iff.1 plain)

theorem words_plainExpression (e : String) : Text.words (plainExpression e) = Text.words e := by
  cases read : transition? e with
  | none => rw [plainExpression, read]
  | some t =>
      have plain := (transition?_plainExpression e).trans read
      rw [transition?_eq_some_iff.1 plain, transition?_eq_some_iff.1 read]

theorem filterMap_plainExpression (es : List String) :
    (es.map plainExpression).filterMap transition? = es.filterMap transition? := by
  rw [List.filterMap_map]
  exact List.filterMap_congr fun e _ => transition?_plainExpression e

theorem Projection.propertyDecls_plain (events : List String) (p : Projection) :
    (p.plain events).propertyDecls = plainProperties p.propertyDecls :=
  rfl

theorem Projection.transitionDecls_plain (events : List String) (p : Projection) :
    (p.plain events).transitionDecls = plainTransitions events p.transitionDecls :=
  rfl

theorem Service.methodDecls_plain (s : Service) :
    s.plain.methodDecls = s.methodDecls.map (Prod.map id Method.plain) := by
  have same : s.plain.methodDecls =
      ((s.methods.getD []).map (Prod.map id fun m => some (m.getD .empty).plain)).map
        fun m => (m.1, m.2.getD .empty) := rfl
  rw [same, methodDecls, List.map_map, List.map_map]
  rfl

end Document

/-! ## What the rules find -/

namespace Schema.Rules

open EventSourcing.Document (names plainProperties plainExpression plainTransitions)
open EventSourcing.Schema.Compile (transition?)

variable {path : NodePath} {key : String} {events projectionNames states : List String} {e : Error}

theorem demand_congr {p q : Prop} [Decidable p] [Decidable q] (same : p ↔ q) :
    demand p e = demand q e := by
  by_cases holds : p
  · rw [demand, demand, if_pos holds, if_pos (same.1 holds)]
  · rw [demand, demand, if_neg holds, if_neg (mt same.2 holds)]

theorem inTurn_map {ξ η : Type} {f : ξ → η} {rule : List η → η → List Error}
    {rule' : List ξ → ξ → List Error}
    (same : ∀ before x, rule (before.map f) (f x) = rule' before x) (before xs : List ξ) :
    inTurn rule (before.map f) (xs.map f) = inTurn rule' before xs := by
  induction xs generalizing before with
  | nil => rfl
  | cons x rest ih =>
      have next := ih (before ++ [x])
      rw [List.map_append, List.map_singleton] at next
      rw [List.map_cons, inTurn, inTurn, same, next]

theorem flatMap_filter {ξ η : Type} {p : ξ → Bool} {f : ξ → List η} {xs : List ξ}
    (dropped : ∀ x ∈ xs, p x = false → f x = []) : (xs.filter p).flatMap f = xs.flatMap f := by
  induction xs with
  | nil => rfl
  | cons x rest ih =>
      obtain ⟨first, later⟩ := List.forall_mem_cons.1 dropped
      cases kept : p x with
      | true => rw [List.filter_cons_of_pos kept, List.flatMap_cons, List.flatMap_cons, ih later]
      | false =>
          rw [List.filter_cons_of_neg (by simp [kept]), List.flatMap_cons, first kept, ih later,
            List.nil_append]

/-- Declarations in which only what does not matter has changed. -/
theorem flatMap_decls {α β η : Type} {f : α → β} {g : String × β → List η}
    {g' : String × α → List η} (decls : Document.Named α)
    (same : ∀ key a, g (key, f a) = g' (key, a)) :
    (decls.map (Prod.map id f)).flatMap g = decls.flatMap g' := by
  rw [List.flatMap_map]
  exact List.flatMap_congr fun decl _ => same decl.1 decl.2

theorem properties_plain (decls : Document.Named Document.Property) :
    properties path (plainProperties decls) = properties path decls :=
  flatMap_decls decls fun _ _ => rfl

theorem map_ne_nil {ξ η : Type} {f : ξ → η} {xs : List ξ} : xs.map f ≠ [] ↔ xs ≠ [] :=
  not_congr List.map_eq_nil_iff

theorem expression_plain (before : List String) (e : String) :
    expression path states (before.map plainExpression) (plainExpression e) =
      expression path states before e := by
  cases read : transition? e with
  | none =>
      have shapeless := (Document.transition?_plainExpression e).trans read
      have same : plainExpression e = e := by
        rw [plainExpression, read]
      rw [Compile.expression_of_none shapeless, Compile.expression_of_none read, same,
        List.length_map]
  | some t =>
      have shape := (Document.transition?_plainExpression e).trans read
      have fresh : (∀ e ∈ before.map plainExpression, Text.words e ≠ [t.source, "->", t.target]) ↔
          ∀ e ∈ before, Text.words e ≠ [t.source, "->", t.target] := by
        rw [List.forall_mem_map]
        simp only [Document.words_plainExpression]
      rw [Compile.expression_of_some shape, Compile.expression_of_some read, demand_congr fresh]

theorem transitions_plain (decls : Document.Named (List String)) :
    transitions path events states (plainTransitions events decls) =
      transitions path events states decls := by
  rw [transitions, plainTransitions, flatMap_filter]
  · refine flatMap_decls decls fun event es => ?_
    exact congrArg (_ ++ ·) (inTurn_map expression_plain [] es)
  · rintro ⟨event, es⟩ _ idle
    obtain ⟨declared, rfl⟩ : event ∈ events ∧ es = [] := by simpa using idle
    exact List.append_eq_nil_iff.2 ⟨demand_eq_nil.2 declared, rfl⟩

theorem plainTransitions_eq_nil {decls : Document.Named (List String)} {event : String} :
    (∀ t ∈ plainTransitions events decls, t.1 = event → t.2 = []) ↔
      ∀ t ∈ decls, t.1 = event → t.2 = [] := by
  constructor
  · intro plain t member here
    by_contra filled
    have kept : (t.1, t.2.map plainExpression) ∈ plainTransitions events decls := by
      refine List.mem_filter.2 ⟨List.mem_map.2 ⟨t, member, rfl⟩, ?_⟩
      simp [filled]
    exact filled (List.map_eq_nil_iff.1 (plain _ kept here))
  · intro empty t member here
    obtain ⟨t', member', rfl⟩ := List.mem_map.1 (List.mem_filter.1 member).1
    exact List.map_eq_nil_iff.2 (empty t' member' here)

theorem projection_plain (decl : Document.Projection) :
    projection events path key (decl.plain events) = projection events path key decl := by
  rw [projection, projection, Document.Projection.propertyDecls_plain, properties_plain,
    Document.Projection.transitionDecls_plain, transitions_plain,
    demand_congr plainTransitions_eq_nil]
  rfl

theorem methodType_plain (kind : Option String) (emits : List String) :
    methodType path (if kind = some "" then none else kind) emits = methodType path kind emits := by
  by_cases unsaid : kind = some ""
  · rw [if_pos unsaid, unsaid]
    rfl
  · rw [if_neg unsaid]

theorem method_plain (decl : Document.Method) :
    method events path key decl.plain = method events path key decl :=
  congrArg (_ ++ ·) (methodType_plain decl.kind decl.emits)

theorem service_plain (decl : Document.Service) :
    service events projectionNames path key decl.plain =
      service events projectionNames path key decl := by
  rw [service, service, Document.Service.methodDecls_plain, demand_congr map_ne_nil]
  exact congrArg (_ ++ ·) (flatMap_decls decl.methodDecls fun _ m => method_plain m)

theorem events_plain (decls : Document.Named (Option (Document.Named Document.Property))) :
    Rules.events (decls.map (Prod.map id Document.plainEvent)) = Rules.events decls := by
  rw [Rules.events, Rules.events, demand_congr map_ne_nil]
  exact congrArg (_ ++ ·)
    (flatMap_decls decls fun _ props => congrArg (_ ++ ·) (properties_plain (props.getD [])))

theorem projections_plain (decls : Document.Named Document.Projection) :
    projections events (decls.map (Prod.map id (Document.Projection.plain events))) =
      projections events decls :=
  flatMap_decls decls fun _ decl => projection_plain decl

theorem services_plain (decls : Document.Named Document.Service) :
    services events projectionNames (decls.map (Prod.map id Document.Service.plain)) =
      services events projectionNames decls := by
  rw [services, services, demand_congr map_ne_nil]
  exact congrArg (_ ++ ·) (flatMap_decls decls fun _ decl => service_plain decl)

end Schema.Rules

namespace Document

open Schema.Rules

theorem names_map {α β : Type} {f : α → β} (decls : Named α) :
    names (decls.map (Prod.map id f)) = names decls := by
  rw [names, List.map_map]
  rfl

variable {d : Document}

theorem names_plain_eventDecls : names d.plain.eventDecls = names d.eventDecls :=
  names_map d.eventDecls

theorem names_plain_projectionDecls : names d.plain.projectionDecls = names d.projectionDecls :=
  names_map d.projectionDecls

theorem Projection.namedEvents_plain (events : List String) (p : Projection) :
    (p.plain events).namedEvents = p.namedEvents := by
  have filled : (plainTransitions events p.transitionDecls).filter (fun t => t.2 ≠ []) =
      (p.transitionDecls.filter fun t => t.2 ≠ []).map
        (Prod.map id (List.map plainExpression)) := by
    rw [plainTransitions, List.filter_filter, List.filter_map]
    refine congrArg (List.map _) (List.filter_congr fun t _ => ?_)
    by_cases empty : t.2 = [] <;> simp [empty]
  rw [namedEvents, namedEvents, transitionDecls_plain, filled, names_map]
  rfl

theorem namedEvents_plain (d : Document) : d.plain.namedEvents = d.namedEvents := by
  have inProjections : d.plain.projectionDecls.flatMap (fun p => p.2.namedEvents) =
      d.projectionDecls.flatMap fun p => p.2.namedEvents :=
    flatMap_decls d.projectionDecls fun _ p => p.namedEvents_plain (names d.eventDecls)
  have inServices :
      d.plain.serviceDecls.flatMap (fun s => s.2.methodDecls.flatMap fun m => m.2.emits) =
        d.serviceDecls.flatMap fun s => s.2.methodDecls.flatMap fun m => m.2.emits := by
    refine flatMap_decls d.serviceDecls fun _ s => ?_
    rw [s.methodDecls_plain]
    exact flatMap_decls s.methodDecls fun _ _ => rfl
  rw [namedEvents, namedEvents, inProjections, inServices]

/-- A document breaks the same rules as its plain spelling. -/
theorem violations_plain (d : Document) : d.plain.violations = d.violations := by
  have inEvents : Schema.Rules.events d.plain.eventDecls = Schema.Rules.events d.eventDecls :=
    events_plain d.eventDecls
  have inProjections : Schema.Rules.projections (names d.eventDecls) d.plain.projectionDecls =
      Schema.Rules.projections (names d.eventDecls) d.projectionDecls :=
    projections_plain d.projectionDecls
  have inServices : Schema.Rules.services (names d.eventDecls) (names d.projectionDecls)
        d.plain.serviceDecls =
      Schema.Rules.services (names d.eventDecls) (names d.projectionDecls) d.serviceDecls :=
    services_plain d.serviceDecls
  simp only [violations, names_plain_eventDecls, names_plain_projectionDecls, namedEvents_plain,
    inEvents, inProjections, inServices]

/-! ## What the outline says -/

section Outline

open EventSourcing.Schema

theorem zipIdx_decls {α β η : Type} {f : α → β} {g : (String × β) × Nat → η}
    {g' : (String × α) × Nat → η} (decls : Named α)
    (same : ∀ key a i, g ((key, f a), i) = g' ((key, a), i)) :
    (decls.map (Prod.map id f)).zipIdx.map g = decls.zipIdx.map g' := by
  rw [List.zipIdx_map, List.map_map]
  exact List.map_congr_left fun x _ => same x.1.1 x.1.2 x.2

theorem propertyMentions_plain (place : String → Place) (decls : Named Property) :
    propertyMentions place (plainProperties decls) = propertyMentions place decls :=
  flatMap_decls decls fun _ _ => rfl

theorem propertyNodes_plain (types : List TypeRef) (decls : Named Property) :
    propertyNodes types (plainProperties decls) = propertyNodes types decls := by
  rw [propertyNodes, plainProperties, List.map_map]
  rfl

theorem transitionMentions_plain (events : List String) (i : Nat) (decls : Named (List String)) :
    transitionMentions events i (plainTransitions events decls) =
      transitionMentions events i decls := by
  rw [transitionMentions, plainTransitions, flatMap_filter]
  · refine flatMap_decls decls fun event es => ?_
    dsimp only
    rw [List.length_map]
  · rintro ⟨event, es⟩ _ idle
    obtain ⟨_, rfl⟩ : event ∈ events ∧ es = [] := by simpa using idle
    rfl

/-- An event without transitions is left out of a projection in any case. -/
theorem transitionNodes_plain (events : List String) (decls : Named (List String)) :
    (transitionNodes events (plainTransitions events decls)).filter (fun t => !t.2.isEmpty) =
      (transitionNodes events decls).filter fun t => !t.2.isEmpty := by
  induction decls with
  | nil => rfl
  | cons t rest ih =>
      obtain ⟨event, es⟩ := t
      by_cases idle : event ∈ events ∧ es = []
      · obtain ⟨declared, rfl⟩ := idle
        have dropped :
            plainTransitions events ((event, []) :: rest) = plainTransitions events rest := by
          simp [plainTransitions, declared]
        rw [dropped, ih]
        rfl
      · have kept : plainTransitions events ((event, es) :: rest) =
            (event, es.map plainExpression) :: plainTransitions events rest := by
          rw [plainTransitions, List.map_cons,
            List.filter_cons_of_pos (by simpa [imp_iff_not_or] using idle)]
          rfl
        have node (es : List String) (decls : Named (List String)) :
            transitionNodes events ((event, es) :: decls) =
              (eventNumber events event, es.filterMap Compile.transition?) ::
                transitionNodes events decls :=
          rfl
        rw [kept, node, node, filterMap_plainExpression, List.filter_cons, List.filter_cons, ih]

theorem projectionMentions_plain (events : List String) (p : Projection) (i : Nat) :
    projectionMentions events (p.plain events) i = projectionMentions events p i := by
  rw [projectionMentions, projectionMentions, p.propertyDecls_plain, propertyMentions_plain,
    p.transitionDecls_plain, transitionMentions_plain]
  rfl

theorem serviceMentions_plain (events : List String) (s : Service) (i : Nat) :
    serviceMentions events s.plain i = serviceMentions events s i := by
  rw [serviceMentions, serviceMentions, s.methodDecls_plain]
  exact flatMap_decls s.methodDecls fun _ _ => rfl

theorem projectionNode_plain (events : List String) (types : List TypeRef) (key : String)
    (p : Projection) (i : Nat) :
    projectionNode events types key (p.plain events) i = projectionNode events types key p i := by
  rw [projectionNode, projectionNode, p.propertyDecls_plain, propertyNodes_plain,
    p.transitionDecls_plain, transitionNodes_plain]
  rfl

/-- No word and the empty word stand for the same kind. -/
theorem methodKind_plain (m : Method) : methodKind m.plain = methodKind m := by
  by_cases unsaid : m.kind = some ""
  · have missing : m.plain.kind = none := if_pos unsaid
    rw [methodKind, methodKind, missing, unsaid]
    rfl
  · have same : m.plain.kind = m.kind := if_neg unsaid
    rw [methodKind, methodKind, same]
    rfl

theorem methodNode_plain (events : List String) (types : List TypeRef) (key : String) (m : Method) :
    methodNode events types key m.plain = methodNode events types key m := by
  rw [methodNode, methodNode, methodKind_plain]
  rfl

theorem serviceNode_plain (events projections : List String) (types : List TypeRef)
    (compiled : List Schema.Projection) (key : String) (s : Service) (i : Nat) :
    serviceNode events projections types compiled key s.plain i =
      serviceNode events projections types compiled key s i := by
  have methods : s.plain.methodDecls.map (fun m => methodNode events types m.1 m.2) =
      s.methodDecls.map fun m => methodNode events types m.1 m.2 := by
    rw [s.methodDecls_plain, List.map_map]
    exact List.map_congr_left fun m _ => methodNode_plain events types m.1 m.2
  exact congrArg (fun methods =>
    { serviceNode events projections types compiled key s i with methods }) methods

theorem flatMap_zipIdx_decls {α β η : Type} {f : α → β} {g : (String × β) × Nat → List η}
    {g' : (String × α) × Nat → List η} (decls : Named α)
    (same : ∀ key a i, g ((key, f a), i) = g' ((key, a), i)) :
    (decls.map (Prod.map id f)).zipIdx.flatMap g = decls.zipIdx.flatMap g' := by
  rw [List.flatMap_def, List.flatMap_def, zipIdx_decls decls same]

theorem mentions_plain (d : Document) : d.plain.mentions = d.mentions := by
  have inEvents : d.plain.mentionsOfEvents = d.mentionsOfEvents :=
    flatMap_zipIdx_decls d.eventDecls fun _ props i =>
      propertyMentions_plain (.eventProperty ⟨i⟩) (props.getD [])
  have inProjections : d.plain.mentionsOfProjections = d.mentionsOfProjections := by
    rw [mentionsOfProjections, names_plain_eventDecls]
    exact flatMap_zipIdx_decls d.projectionDecls fun _ p i =>
      projectionMentions_plain (names d.eventDecls) p i
  have inServices : d.plain.mentionsOfServices = d.mentionsOfServices := by
    rw [mentionsOfServices, names_plain_eventDecls]
    exact flatMap_zipIdx_decls d.serviceDecls fun _ s i =>
      serviceMentions_plain (names d.eventDecls) s i
  rw [mentions, mentions, inEvents, inProjections, inServices]

theorem types_plain (d : Document) : d.plain.types = d.types := by
  rw [types, types, mentions_plain]

/-- A document says what its plain spelling says. -/
theorem outline_plain (d : Document) : d.plain.outline = d.outline := by
  have events : d.plain.eventNodes = d.eventNodes := by
    rw [eventNodes, types_plain]
    refine zipIdx_decls d.eventDecls fun key props i => ?_
    exact congrArg (Schema.Event.mk ⟨i⟩ key) (propertyNodes_plain d.types (props.getD []))
  have projections : d.plain.projectionNodes = d.projectionNodes := by
    rw [projectionNodes, types_plain, names_plain_eventDecls]
    exact zipIdx_decls d.projectionDecls fun key p i =>
      projectionNode_plain (names d.eventDecls) d.types key p i
  have services : d.plain.serviceNodes = d.serviceNodes := by
    rw [serviceNodes, types_plain, names_plain_eventDecls, names_plain_projectionDecls, projections]
    exact zipIdx_decls d.serviceDecls fun key s i => serviceNode_plain (names d.eventDecls)
      (names d.projectionDecls) d.types d.projectionNodes key s i
  rw [outline, outline, mentions_plain, events, projections, services]

end Outline

/-! ## Names -/

/-- Nothing gets another name, and nothing is named anew. -/
theorem keyed_plain {d : Document} (keyed : d.Keyed) : d.plain.Keyed where
  events := by
    rw [names_plain_eventDecls]
    exact keyed.events
  eventProperties := by
    intro e member
    obtain ⟨e', listed, rfl⟩ := List.mem_map.1 member
    have distinct := keyed.eventProperties e' listed
    rwa [← names_map (f := Property.plain)] at distinct
  projections := by
    rw [names_plain_projectionDecls]
    exact keyed.projections
  projectionProperties := by
    intro p member
    obtain ⟨p', listed, rfl⟩ := List.mem_map.1 member
    have distinct := keyed.projectionProperties p' listed
    rwa [← names_map (f := Property.plain)] at distinct
  transitions := by
    intro p member
    obtain ⟨p', listed, rfl⟩ := List.mem_map.1 member
    have distinct := keyed.transitions p' listed
    rw [← names_map (f := List.map plainExpression)] at distinct
    exact distinct.sublist (List.filter_sublist.map _)
  services := by
    have distinct := keyed.services
    rwa [← names_map (f := Service.plain)] at distinct
  methods := by
    intro s member
    obtain ⟨⟨key, s'⟩, listed, rfl⟩ := List.mem_map.1 member
    have distinct := keyed.methods (key, s') listed
    rw [← names_map (f := Method.plain), ← s'.methodDecls_plain] at distinct
    exact distinct

end Document

namespace Schema

variable {d d' : Document}

/-- A document compiles like its plain spelling. -/
theorem compileDocument_plain (keyed : d.Keyed) (c : Compiler) (raw : String) :
    c.compileDocument raw d.plain = c.compileDocument raw d := by
  rw [compileDocument_eq (Document.keyed_plain keyed), compileDocument_eq keyed,
    Document.violations_plain, Document.outline_plain]

/-- Documents that differ by any number of steps have the same plain spelling. -/
theorem plain_eq_of_respelled (respelled : Relation.EqvGen Document.Respelled d d') :
    d.plain = d'.plain := by
  induction respelled with
  | rel d d' step => exact step.plain_eq
  | refl d => rfl
  | symm d d' _ ih => exact ih.symm
  | trans d d' d'' _ _ first second => exact first.trans second

/-- Equivalent spellings compile alike.  Take two documents in which names stand once, and of
which one becomes the other by any number of changes to how things are spelled, there or back: what
is left out is written as empty, a type alone is written with room for documentation, a text of
documentation by its lines, a kind that is left out as the empty word, white space in a transition
is changed, or a declared event is written without transitions.  With the same sources and the
same text they compile to the same schema, or are refused for the same reason at the same place. -/
theorem spellings_compile_alike (keyed : d.Keyed) (keyed' : d'.Keyed)
    (respelled : Relation.EqvGen Document.Respelled d d') (c : Compiler) (raw : String) :
    c.compileDocument raw d = c.compileDocument raw d' := by
  have same : d.plain = d'.plain := plain_eq_of_respelled respelled
  calc c.compileDocument raw d
      = c.compileDocument raw d.plain := (compileDocument_plain keyed c raw).symm
    _ = c.compileDocument raw d'.plain := by rw [same]
    _ = c.compileDocument raw d' := compileDocument_plain keyed' c raw

/-! ### A loose gate -/

/-- A gate whose first event has no properties, with much white space in its transition. -/
def looseGate : Document :=
  { gate ["\tOpen  ->\nShut "] ["Closed"] with
    events := some [("Opened", some []), ("Closed", some [("by", .type "Name")])] }

theorem keyed_looseGate : looseGate.Keyed := by
  constructor <;> simp [looseGate, gate, Document.eventDecls, Document.projectionDecls,
    Document.serviceDecls, Document.Projection.propertyDecls, Document.Projection.transitionDecls,
    Document.Service.methodDecls, Document.names]

/-- The gate becomes loose by two steps. -/
theorem gate_respelled :
    Relation.EqvGen Document.Respelled (gate ["Open -> Shut"] ["Closed"]) looseGate := by
  have spells : Document.Spells "Open" "Shut" "Open -> Shut" :=
    Document.spells_iff.2 (by decide +kernel)
  have spells' : Document.Spells "Open" "Shut" "\tOpen  ->\nShut " :=
    Document.spells_iff.2 (by decide +kernel)
  have spaced : Document.Respelled (gate ["Open -> Shut"] ["Closed"])
      (gate ["\tOpen  ->\nShut "] ["Closed"]) :=
    .projections (.change (.change [] [] "Gate" (.transitions (.change (.spaced
      (.change [] [] "Closed" (.change [] [] spells spells')))))))
  let closed : Document.Named (Option (Document.Named Document.Property)) :=
    [("Closed", some [("by", .type "Name")])]
  have emptied : Document.Respelled (gate ["\tOpen  ->\nShut "] ["Closed"]) looseGate :=
    .events (.change (.change [] closed "Opened" .absent))
  exact .trans _ _ _ (.rel _ _ spaced) (.rel _ _ emptied)

/-- The loose gate compiles to the schema of the gate. -/
theorem looseGate_compiles : Compiler.compileDocument ⟨⟨[⟨[], "Name", nameSource⟩]⟩, []⟩ ""
    looseGate = .ok gateSchema := by
  have alike := spellings_compile_alike (keyed_gate _ _) keyed_looseGate gate_respelled
    ⟨⟨[⟨[], "Name", nameSource⟩]⟩, []⟩ ""
  exact alike.symm.trans compiled_gate

end Schema

end EventSourcing
