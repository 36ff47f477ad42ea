import EventSourcing.Proofs.Schema.Places

/-!
# Proofs.Schema.Reflection -- what a schema says of its document

What is declared in a document is in the compiled schema, in the same order and with
numbers in place of names (`Reflects`, `reflects`).  Types are numbered by the first mention
of the text that refers to them.
-/

namespace EventSourcing

set_option autoImplicit false

open EventSourcing.Document (names)

namespace Schema

/-! ## What is declared -/

def eventName? (s : Schema) (id : EventId) : Option String :=
  (s.event? id).map (·.name)

def projectionName? (s : Schema) (id : ProjectionId) : Option String :=
  (s.projection? id).map (·.name)

def typeText? (s : Schema) (id : TypeId) : Option String :=
  (s.type? id).map (·.reference.text)

def Property.Reflects (s : Schema) (q : Property) (decl : String × Document.Property) : Prop :=
  q.name = decl.1 ∧ s.typeText? q.type = some decl.2.reference ∧ q.doc = decl.2.doc

def Event.Reflects (s : Schema) (e : Event)
    (decl : String × Option (Document.Named Document.Property)) : Prop :=
  e.name = decl.1 ∧ List.Forall₂ (Property.Reflects s) e.properties (decl.2.getD [])

/-- A transition is written as its states around an arrow. -/
def Transition.Reflects (t : Transition) (expression : String) : Prop :=
  Text.words expression = [t.source, "->", t.target]

def TriggerReflects (s : Schema) (t : EventId × List Transition) (decl : String × List String) :
    Prop :=
  s.eventName? t.1 = some decl.1 ∧ List.Forall₂ Transition.Reflects t.2 decl.2

structure Projection.Reflects (s : Schema) (p : Projection)
    (decl : String × Document.Projection) : Prop where
  name : p.name = decl.1
  states : p.states = decl.2.states
  properties : List.Forall₂ (Property.Reflects s) p.properties decl.2.propertyDecls
  createOn : s.eventName? p.createOn = some decl.2.createOn
  transitions : List.Forall₂ (TriggerReflects s) p.transitions
    (decl.2.transitionDecls.filter (·.2 ≠ []))

structure Method.Reflects (s : Schema) (m : Method) (decl : String × Document.Method) : Prop where
  name : m.name = decl.1
  input : m.input.map s.typeText? = decl.2.input.map some
  output : m.output.map s.typeText? = decl.2.output.map some
  emits : m.emits.map s.eventName? = decl.2.emits.map some
  kind : m.kind = methodKind decl.2

structure Service.Reflects (s : Schema) (v : Service) (decl : String × Document.Service) :
    Prop where
  name : v.name = decl.1
  projections : v.projections.map s.projectionName? = decl.2.projections.map some
  methods : List.Forall₂ (Method.Reflects s) v.methods decl.2.methodDecls

/-- What a document declares, in its order, with numbers in place of names. -/
structure Reflects (s : Schema) (d : Document) : Prop where
  events : List.Forall₂ (Event.Reflects s) s.events d.eventDecls
  projections : List.Forall₂ (Projection.Reflects s) s.projections d.projectionDecls
  services : List.Forall₂ (Service.Reflects s) s.services d.serviceDecls
  types : s.types.map (·.reference.text) = d.typeTexts
  typings : s.typings = d.typings.map (Prod.map id fun text => ⟨d.typeTexts.idxOf text⟩)
  sharing : ∀ x ∈ s.typings.zip d.typings, ∀ y ∈ s.typings.zip d.typings,
    x.1.2 = y.1.2 ↔ x.2.2 = y.2.2

section Compiled

variable {d : Document} {raw : String} {s : Schema}

/-! ## Names and texts of numbers -/

theorem eventName?_number (compiled : Compiled d raw s) {name : String}
    (present : name ∈ names d.eventDecls) :
    s.eventName? (eventNumber (names d.eventDecls) name) = some name := by
  rw [eventName?, event?, ← List.getElem?_map, compiled.events, names_eventNodes]
  exact List.getElem?_idxOf present

theorem projectionName?_number (compiled : Compiled d raw s) {name : String}
    (present : name ∈ names d.projectionDecls) :
    s.projectionName? (projectionNumber (names d.projectionDecls) name) = some name := by
  rw [projectionName?, projection?, ← List.getElem?_map, compiled.projections,
    names_projectionNodes]
  exact List.getElem?_idxOf present

theorem texts_compiled (compiled : Compiled d raw s) :
    s.types.map (·.reference.text) = d.typeTexts := by
  rw [← texts_types compiled.sound, ← compiled.types, List.map_map]
  rfl

theorem typeText?_number (compiled : Compiled d raw s) {t : Place × String}
    (member : t ∈ d.typings) : s.typeText? (typeNumber d.types t.2) = some t.2 := by
  rw [(typeNumber_eq compiled.sound member).1, typeText?, type?, ← List.getElem?_map,
    texts_compiled compiled]
  refine List.getElem?_idxOf ?_
  rw [Document.typeTexts, List.mem_eraseDups]
  exact List.mem_map_of_mem member

end Compiled

/-! ## Transitions -/

section Transitions

variable {events : List String} {types : List TypeRef} {key : String}
  {decl : Document.Projection} {i : Nat}

def filled (decls : Document.Named (List String)) : Document.Named (List String) :=
  decls.filter (·.2 ≠ [])

theorem mem_filled {decls : Document.Named (List String)} {t : String × List String} :
    t ∈ filled decls ↔ t ∈ decls ∧ t.2 ≠ [] := by
  simp [filled]

theorem filter_transitionNodes {decls : Document.Named (List String)}
    (shaped : ∀ t ∈ decls, ∀ e ∈ t.2, ∃ step, Compile.transition? e = some step) :
    (transitionNodes events decls).filter (fun t => !t.2.isEmpty) =
      transitionNodes events (filled decls) := by
  rw [transitionNodes, transitionNodes, List.filter_map, filled]
  refine congrArg (List.map _) (List.filter_congr fun t member => ?_)
  cases given : t.2 with
  | nil => simp [given]
  | cons e rest =>
      obtain ⟨step, shape⟩ := shaped t member e (by simp [given])
      simp [given, List.filterMap_cons_some shape]

theorem transitions_projectionNode (sound : decl.Sound events) :
    (projectionNode events types key decl i).transitions =
      transitionNodes events (filled decl.transitionDecls) := by
  refine filter_transitionNodes fun t member e inside => ?_
  obtain ⟨step, shape, _⟩ := sound.steps t member e inside
  exact ⟨step, shape⟩

theorem reflects_transitions {expressions : List String}
    (shaped : ∀ e ∈ expressions, ∃ step, Compile.transition? e = some step) :
    List.Forall₂ Transition.Reflects (expressions.filterMap Compile.transition?) expressions := by
  induction expressions with
  | nil => exact .nil
  | cons e rest ih =>
      obtain ⟨⟨step, shape⟩, others⟩ := List.forall_mem_cons.1 shaped
      rw [List.filterMap_cons_some shape]
      exact .cons (Compile.transition?_eq_some_iff.1 shape) (ih others)

end Transitions

/-! ## Compiled schemas -/

section Parts

variable {d : Document} {raw : String} {s : Schema}

theorem forall₂_map_self {ξ η : Type} {f : ξ → η} {r : η → ξ → Prop} {xs : List ξ}
    (each : ∀ x ∈ xs, r (f x) x) : List.Forall₂ r (xs.map f) xs := by
  induction xs with
  | nil => exact .nil
  | cons x rest ih =>
      obtain ⟨here, others⟩ := List.forall_mem_cons.1 each
      exact .cons here (ih others)

theorem forall₂_zipIdx {ξ η : Type} {f : ξ × Nat → η} {r : η → ξ → Prop} {xs : List ξ}
    (each : ∀ x ∈ xs.zipIdx, r (f x) x.1) : List.Forall₂ r (xs.zipIdx.map f) xs := by
  have all : List.Forall₂ (fun y (x : ξ × Nat) => r y x.1) (xs.zipIdx.map f) xs.zipIdx :=
    forall₂_map_self each
  rw [← List.forall₂_map_right_iff (f := Prod.fst), List.zipIdx_map_fst] at all
  exact all

theorem reflects_properties (compiled : Compiled d raw s) (place : String → Place)
    {decls : Document.Named Document.Property}
    (listed : ∀ t ∈ Document.propertyTypings place decls, t ∈ d.typings) :
    List.Forall₂ (Property.Reflects s) (propertyNodes d.types decls) decls := by
  refine forall₂_map_self ?_
  rintro ⟨key, q⟩ member
  have known := listed (place key, q.reference) (List.mem_map.2 ⟨(key, q), member, rfl⟩)
  have text := typeText?_number compiled known
  exact ⟨rfl, text, rfl⟩

theorem reflects_events (compiled : Compiled d raw s) :
    List.Forall₂ (Event.Reflects s) s.events d.eventDecls := by
  rw [compiled.events]
  refine forall₂_zipIdx fun e member => ⟨rfl, ?_⟩
  refine reflects_properties compiled (.eventProperty ⟨e.2⟩) fun t inside => ?_
  exact List.mem_append_left _ (List.mem_append_left _ (List.mem_flatMap.2 ⟨e, member, inside⟩))

theorem reflects_projections (compiled : Compiled d raw s) :
    List.Forall₂ (Projection.Reflects s) s.projections d.projectionDecls := by
  rw [compiled.projections]
  refine forall₂_zipIdx fun p member => ?_
  have sound := compiled.sound.projections p.1 (List.fst_mem_of_mem_zipIdx member)
  exact {
    name := rfl
    states := rfl
    properties := by
      refine reflects_properties compiled (.projectionProperty ⟨p.2⟩) fun t inside => ?_
      exact List.mem_append_left _
        (List.mem_append_right _ (List.mem_flatMap.2 ⟨p, member, inside⟩))
    createOn := eventName?_number compiled sound.createOn
    transitions := by
      rw [transitions_projectionNode sound]
      refine forall₂_map_self fun t inside => ?_
      have declared := (mem_filled.1 inside).1
      refine ⟨eventName?_number compiled (sound.triggers t declared), reflects_transitions ?_⟩
      intro e written
      obtain ⟨step, shape, _⟩ := sound.steps t declared e written
      exact ⟨step, shape⟩ }

theorem map_eq_map_some {ξ ν : Type} {f : ν → Option ξ} {g : ξ → ν} {xs : List ξ}
    (each : ∀ x ∈ xs, f (g x) = some x) : (xs.map g).map f = xs.map some := by
  rw [List.map_map]
  exact List.map_congr_left each

/-- A reference that may be left out, at a place of the document. -/
theorem reflects_reference (compiled : Compiled d raw s) (place : Place) (text : Option String)
    (listed : ∀ t ∈ text, (place, t) ∈ d.typings) :
    (text.map (typeNumber d.types)).map s.typeText? = text.map some := by
  cases text with
  | none => rfl
  | some t =>
      have known := typeText?_number compiled (listed t rfl)
      exact congrArg some known

theorem reflects_services (compiled : Compiled d raw s) :
    List.Forall₂ (Service.Reflects s) s.services d.serviceDecls := by
  rw [compiled.services]
  refine forall₂_zipIdx fun v member => ?_
  have sound := compiled.sound.services v.1 (List.fst_mem_of_mem_zipIdx member)
  exact {
    name := rfl
    projections := map_eq_map_some fun n inside =>
      projectionName?_number compiled (sound.projections n inside)
    methods := by
      refine forall₂_map_self fun m inside => ?_
      have each := sound.methods m inside
      have places : ∀ t ∈ m.2.input.toList.map (fun text => (Place.input ⟨v.2⟩ m.1, text)) ++
          m.2.output.toList.map (fun text => (.output ⟨v.2⟩ m.1, text)), t ∈ d.typings :=
        fun t given => List.mem_append_right _
          (List.mem_flatMap.2 ⟨v, member, List.mem_flatMap.2 ⟨m, inside, given⟩⟩)
      exact {
        name := rfl
        input := reflects_reference compiled (.input ⟨v.2⟩ m.1) m.2.input fun t given =>
          places _ (List.mem_append_left _
            (List.mem_map.2 ⟨t, Option.mem_toList.2 given, rfl⟩))
        output := reflects_reference compiled (.output ⟨v.2⟩ m.1) m.2.output fun t given =>
          places _ (List.mem_append_right _
            (List.mem_map.2 ⟨t, Option.mem_toList.2 given, rfl⟩))
        emits := map_eq_map_some fun n inside => eventName?_number compiled (each.emits n inside)
        kind := rfl } }

theorem typings_eq (compiled : Compiled d raw s) :
    s.typings = d.typings.map (Prod.map id fun text => ⟨d.typeTexts.idxOf text⟩) := by
  rw [typings_compiled compiled]
  refine List.map_congr_left fun t member => Prod.ext rfl ?_
  exact (typeNumber_eq compiled.sound member).1

theorem mem_zip_map {ξ η : Type} {f : ξ → η} {xs : List ξ} {x : η × ξ}
    (member : x ∈ (xs.map f).zip xs) : x.2 ∈ xs ∧ x.1 = f x.2 := by
  induction xs with
  | nil => cases member
  | cons y rest ih =>
      rcases List.mem_cons.1 member with rfl | member
      · exact ⟨List.mem_cons_self, rfl⟩
      · exact (ih member).imp_left (List.mem_cons_of_mem y)

theorem sharing (compiled : Compiled d raw s) :
    ∀ x ∈ s.typings.zip d.typings, ∀ y ∈ s.typings.zip d.typings,
      x.1.2 = y.1.2 ↔ x.2.2 = y.2.2 := by
  rw [typings_eq compiled]
  intro x inside y inside'
  obtain ⟨member, same⟩ := mem_zip_map inside
  obtain ⟨_, same'⟩ := mem_zip_map inside'
  have present : x.2.2 ∈ d.typeTexts := by
    rw [Document.typeTexts, List.mem_eraseDups]
    exact List.mem_map_of_mem member
  rw [same, same', Prod.map_snd, Prod.map_snd, TypeId.mk.injEq]
  exact List.idxOf_inj present

theorem reflects (compiled : Compiled d raw s) : s.Reflects d where
  events := reflects_events compiled
  projections := reflects_projections compiled
  services := reflects_services compiled
  types := texts_compiled compiled
  typings := typings_eq compiled
  sharing := sharing compiled

end Parts

end Schema

end EventSourcing
