import EventSourcing.Proofs.Schema.Reflection

/-!
# Proofs.Schema.WellFormed -- the form of compiled schemas

Nodes sit at the positions of their numbers and are found by their names, every number in a
schema leads to a node, and projections, services and methods are sound in themselves
(`WellFormed`).  Main statement: a compiled schema is well formed and says what its document
declares (`compiled_reflects_document`).
-/

namespace EventSourcing

set_option autoImplicit false

open EventSourcing.Document (names)

namespace Schema

/-! ## Numbers -/

/-- Nodes have their positions for numbers and are found by their keys. -/
def Numbered {ν ι κ : Type} (nodes : List ν) (number : Nat → ι) (id : ν → ι) (key : ν → κ)
    (find? : κ → Option ι) : Prop :=
  ∀ i node, nodes[i]? = some node → id node = number i ∧ find? (key node) = some (number i)

def Place.event? : Place → Option EventId
  | .eventProperty e _ => some e
  | _ => none

def Place.projection? : Place → Option ProjectionId
  | .projectionProperty p _ => some p
  | .createOn p => some p
  | .transition p _ => some p
  | _ => none

def Place.service? : Place → Option ServiceId
  | .emit v _ => some v
  | .input v _ => some v
  | .output v _ => some v
  | _ => none

def References.places (r : References) : List Place :=
  r.events.flatten ++ r.types.flatten

/-- All numbers of events in a schema, those under which places are recorded included. -/
def eventIds (s : Schema) : List EventId :=
  s.events.map (·.id) ++ s.projections.flatMap (·.subscriptions) ++
    s.services.flatMap (fun v => v.subscriptions ++ v.methods.flatMap (·.emits)) ++
    s.references.places.filterMap Place.event? ++
    (List.range s.references.events.length).map EventId.mk

def projectionIds (s : Schema) : List ProjectionId :=
  s.projections.map (·.id) ++ s.services.flatMap (·.projections) ++
    s.references.places.filterMap Place.projection?

def serviceIds (s : Schema) : List ServiceId :=
  s.services.map (·.id) ++ s.references.places.filterMap Place.service?

/-- All numbers of types in a schema, those under which places are recorded included. -/
def typeIds (s : Schema) : List TypeId :=
  s.types.map (·.id) ++ s.events.flatMap (fun e => e.properties.map (·.type)) ++
    s.projections.flatMap (fun p => p.properties.map (·.type)) ++
    s.services.flatMap (fun v => v.methods.flatMap fun m => m.input.toList ++ m.output.toList) ++
    (List.range s.references.types.length).map TypeId.mk

/-! ## Sound parts -/

/-- The steps of a projection, each with the event that it is taken on. -/
def Projection.steps (p : Projection) : List (EventId × Transition) :=
  p.transitions.flatMap fun t => t.2.map fun step => (t.1, step)

structure Projection.WellFormed (p : Projection) : Prop where
  initial : p.initialState?.isSome
  states : p.states.Nodup
  properties : (p.properties.map (·.name)).Nodup
  triggers : p.triggers.Nodup
  createOn : p.createOn ∉ p.triggers
  filled : ∀ t ∈ p.transitions, t.2 ≠ []
  declared : ∀ t ∈ p.steps, t.2.source ∈ p.states ∧ t.2.target ∈ p.states
  steps : p.steps.Nodup

structure Method.WellFormed (m : Method) : Prop where
  emits : m.emits.Nodup
  kind : m.kind = .readonly ↔ m.emits = []

/-- The events that the projections of a service are created on or have transitions on. -/
def needed (s : Schema) (v : Service) : List EventId :=
  (v.projections.filterMap s.projection?).flatMap (·.subscriptions)

structure Service.WellFormed (s : Schema) (v : Service) : Prop where
  projections : v.projections.Nodup
  filled : v.methods ≠ []
  methods : (v.methods.map (·.name)).Nodup
  each : ∀ m ∈ v.methods, m.WellFormed
  subscriptions : v.subscriptions = (s.needed v).eraseDups

structure WellFormed (s : Schema) : Prop where
  events : Numbered s.events EventId.mk (·.id) (·.name) s.eventId?
  projections : Numbered s.projections ProjectionId.mk (·.id) (·.name) s.projectionId?
  services : Numbered s.services ServiceId.mk (·.id) (·.name) s.serviceId?
  types : Numbered s.types TypeId.mk (·.id) (·.reference) s.typeId?
  eventIds : ∀ id ∈ s.eventIds, (s.event? id).isSome
  projectionIds : ∀ id ∈ s.projectionIds, (s.projection? id).isSome
  serviceIds : ∀ id ∈ s.serviceIds, (s.service? id).isSome
  typeIds : ∀ id ∈ s.typeIds, (s.type? id).isSome
  eventProperties : ∀ e ∈ s.events, (e.properties.map (·.name)).Nodup
  eachProjection : ∀ p ∈ s.projections, p.WellFormed
  eachService : ∀ v ∈ s.services, v.WellFormed s

/-! ## Numbers of compiled schemas -/

section Compiled

variable {d : Document} {raw : String} {s : Schema}

theorem numbered_of {ν ι κ : Type} [DecidableEq κ] {nodes : List ν} {number : Nat → ι} {id : ν → ι}
    {key : ν → κ} {find? : κ → Option ι} (distinct : (nodes.map key).Nodup)
    (ids : nodes.map id = (List.range nodes.length).map number)
    (find : ∀ k, find? k = (position? (fun x => key x == k) nodes).map number) :
    Numbered nodes number id key find? := by
  intro i node found
  obtain ⟨inside, rfl⟩ := List.getElem?_eq_some_iff.1 found
  constructor
  · have here : (nodes.map id)[i]? = ((List.range nodes.length).map number)[i]? := by rw [ids]
    simpa [inside] using here
  · have inside' : i < (nodes.map key).length := by rwa [List.length_map]
    have position : (nodes.map key).idxOf (key nodes[i]) = i := by
      have here : (nodes.map key)[i] = key nodes[i] := List.getElem_map _
      rw [← here]
      exact distinct.idxOf_getElem i inside'
    rw [find, Compile.position?_eq, if_pos (List.mem_map_of_mem (List.getElem_mem inside)),
      position]
    rfl

theorem map_zipIdx_snd {ξ ι : Type} {f : ξ × Nat → ι} {number : Nat → ι}
    (same : ∀ x, f x = number x.2) (xs : List ξ) :
    xs.zipIdx.map f = (List.range xs.length).map number := by
  have all : f = number ∘ Prod.snd := funext same
  rw [all, ← List.map_map, List.zipIdx_map_snd, List.range_eq_range']

/-- Nodes that keep the names of their declarations, each of which stands once, and have the
positions of these for numbers. -/
theorem numbered_nodes {α ν ι : Type} {decls : Document.Named α} (distinct : (names decls).Nodup)
    {node : (String × α) × Nat → ν} {number : Nat → ι} {id : ν → ι} {name : ν → String}
    {find? : String → Option ι} (kept : ∀ x, name (node x) = x.1.1)
    (ids : ∀ x, id (node x) = number x.2)
    (find : ∀ k, find? k = (position? (fun x => name x == k) (decls.zipIdx.map node)).map number) :
    Numbered (decls.zipIdx.map node) number id name find? := by
  refine numbered_of ?_ ?_ find
  · rw [names_nodes kept]
    exact distinct
  · rw [List.map_map, List.length_map, List.length_zipIdx]
    exact map_zipIdx_snd ids decls

theorem numbered_events (keyed : d.Keyed) (compiled : Compiled d raw s) :
    Numbered s.events EventId.mk (·.id) (·.name) s.eventId? := by
  rw [compiled.events]
  refine numbered_nodes keyed.events (fun _ => rfl) (fun _ => rfl) fun name => ?_
  rw [eventId?, compiled.events]
  rfl

theorem numbered_projections (keyed : d.Keyed) (compiled : Compiled d raw s) :
    Numbered s.projections ProjectionId.mk (·.id) (·.name) s.projectionId? := by
  rw [compiled.projections]
  refine numbered_nodes keyed.projections (fun _ => rfl) (fun _ => rfl) fun name => ?_
  rw [projectionId?, compiled.projections]
  rfl

theorem numbered_services (keyed : d.Keyed) (compiled : Compiled d raw s) :
    Numbered s.services ServiceId.mk (·.id) (·.name) s.serviceId? := by
  rw [compiled.services]
  refine numbered_nodes keyed.services (fun _ => rfl) (fun _ => rfl) fun name => ?_
  rw [serviceId?, compiled.services]
  rfl

theorem numbered_types (compiled : Compiled d raw s) :
    Numbered s.types TypeId.mk (·.id) (·.reference) s.typeId? := by
  refine numbered_of ?_ ?_ fun _ => rfl
  · rw [compiled.types, types_eq]
    exact nodup_eraseDups _
  · rw [compiled.typeIds, ← compiled.types, List.length_map]

end Compiled

/-! ## Projections -/

section Projections

variable {events : List String} {types : List TypeRef} {key : String}
  {decl : Document.Projection} {i : Nat}

theorem triggers_projectionNode (sound : decl.Sound events) :
    (projectionNode events types key decl i).triggers =
      (names (filled decl.transitionDecls)).map (eventNumber events) := by
  rw [Projection.triggers, transitions_projectionNode sound, transitionNodes, List.map_map, names,
    List.map_map]
  rfl

theorem names_propertyNodes (decls : Document.Named Document.Property) :
    (propertyNodes types decls).map (·.name) = names decls := by
  rw [propertyNodes, List.map_map]
  rfl

theorem nodup_numbers {ns : List String} (distinct : ns.Nodup) (present : ∀ n ∈ ns, n ∈ events) :
    (ns.map (eventNumber events)).Nodup :=
  List.Nodup.map_on (fun n member _ _ same => Compile.eventNumber_inj (present n member) same)
    distinct

theorem names_filled_subset {decls : Document.Named (List String)} :
    List.Sublist (names (filled decls)) (names decls) :=
  List.filter_sublist.map Prod.fst

theorem nodup_filterMap_transition {expressions : List String}
    (fresh : (expressions.map Text.words).Nodup) :
    (expressions.filterMap Compile.transition?).Nodup := by
  rw [List.Nodup, List.pairwise_filterMap]
  refine (List.pairwise_map.1 fresh).imp fun {e e'} other t here t' there same => other ?_
  rw [Compile.transition?_eq_some_iff.1 here, Compile.transition?_eq_some_iff.1 there, same]

theorem wellFormed_projectionNode (sound : decl.Sound events)
    (keyed : (names decl.propertyDecls).Nodup) (keyed' : (names decl.transitionDecls).Nodup) :
    (projectionNode events types key decl i).WellFormed := by
  have listed : ∀ n ∈ names (filled decl.transitionDecls), n ∈ events := by
    intro n member
    obtain ⟨t, inside, rfl⟩ := List.mem_map.1 member
    exact sound.triggers t (mem_filled.1 inside).1
  have triggers : (projectionNode events types key decl i).triggers.Nodup := by
    rw [triggers_projectionNode sound]
    exact nodup_numbers (keyed'.sublist names_filled_subset) listed
  have node : ∀ t ∈ (projectionNode events types key decl i).transitions,
      ∃ t' ∈ decl.transitionDecls, t'.2 ≠ [] ∧
        t = (eventNumber events t'.1, t'.2.filterMap Compile.transition?) := by
    intro t member
    rw [transitions_projectionNode sound] at member
    obtain ⟨t', inside, rfl⟩ := List.mem_map.1 member
    exact ⟨t', (mem_filled.1 inside).1, (mem_filled.1 inside).2, rfl⟩
  exact {
    initial := by
      obtain ⟨first, rest, nonempty⟩ := List.exists_cons_of_ne_nil sound.states
      rw [Projection.initialState?, projectionNode, nonempty]
      rfl
    states := sound.distinct
    properties := by
      rw [projectionNode, names_propertyNodes]
      exact keyed
    triggers
    createOn := by
      rw [triggers_projectionNode sound]
      intro member
      obtain ⟨n, inside, same⟩ := List.mem_map.1 member
      obtain ⟨t, declared, rfl⟩ := List.mem_map.1 inside
      have equal := Compile.eventNumber_inj (listed t.1 inside) same
      exact (mem_filled.1 declared).2 (sound.apart t (mem_filled.1 declared).1 equal)
    filled := by
      intro t member
      obtain ⟨t', declared, nonempty, rfl⟩ := node t member
      obtain ⟨e, rest, given⟩ := List.exists_cons_of_ne_nil nonempty
      obtain ⟨step, shape, _⟩ := sound.steps t' declared e (by simp [given])
      rw [given, List.filterMap_cons_some shape]
      exact List.cons_ne_nil _ _
    declared := by
      intro x member
      obtain ⟨t, inside, taken⟩ := List.mem_flatMap.1 member
      obtain ⟨t', declared, nonempty, rfl⟩ := node t inside
      obtain ⟨step, here, rfl⟩ := List.mem_map.1 taken
      obtain ⟨e, written, shape⟩ := List.mem_filterMap.1 here
      obtain ⟨step', shape', source, target⟩ := sound.steps t' declared e written
      cases shape.symm.trans shape'
      exact ⟨source, target⟩
    steps := by
      refine nodup_flatMap_of_owner Prod.fst Prod.fst triggers ?_ ?_
      · intro t member
        obtain ⟨t', declared, nonempty, rfl⟩ := node t member
        exact (nodup_filterMap_transition (sound.fresh t' declared)).map
          fun _ _ same => (Prod.mk.inj same).2
      · intro t member x inside
        obtain ⟨step, _, rfl⟩ := List.mem_map.1 inside
        rfl }

end Projections

/-! ## Services -/

section Services

variable {events projections : List String} {types : List TypeRef} {compiled : List Projection}
  {key : String}

theorem wellFormed_methodNode {decl : Document.Method} (sound : decl.Sound events) :
    (methodNode events types key decl).WellFormed where
  emits := nodup_numbers sound.distinct sound.emits
  kind := by
    rw [methodNode, List.map_eq_nil_iff]
    exact sound.kind

theorem neededEvents_eq (ids : List ProjectionId) :
    neededEvents compiled ids =
      (ids.filterMap fun p => compiled[p.index]?).flatMap (·.subscriptions) := by
  induction ids with
  | nil => rfl
  | cons p rest ih =>
      rw [neededEvents, List.flatMap_cons, ← neededEvents, ih, List.filterMap_cons]
      cases compiled[p.index]? <;> rfl

theorem wellFormed_serviceNode {decl : Document.Service} {i : Nat} {s : Schema}
    (sound : decl.Sound events projections) (keyed : (names decl.methodDecls).Nodup)
    (all : s.projections = compiled) :
    (serviceNode events projections types compiled key decl i).WellFormed s where
  projections :=
    List.Nodup.map_on (fun n member _ _ same =>
      Compile.projectionNumber_inj (sound.projections n member) same) sound.distinct
  filled := fun empty => sound.filled (List.map_eq_nil_iff.1 empty)
  methods := by
    rw [serviceNode, List.map_map]
    exact keyed
  each := by
    intro m member
    obtain ⟨decl', declared, rfl⟩ := List.mem_map.1 member
    exact wellFormed_methodNode (sound.methods decl' declared)
  subscriptions := by
    rw [serviceNode, firstSeen_eq, neededEvents_eq, ← all]
    rfl

end Services

/-! ## Where numbers lead -/

section Parts

variable {d : Document} {raw : String} {s : Schema}

theorem isSome_of_map {ξ η : Type} {o : Option ξ} {f : ξ → η} {y : η} (mapped : o.map f = some y) :
    o.isSome = true := by
  cases o with
  | none => cases mapped
  | some x => rfl

theorem exists_mem_of_forall₂ {ξ η : Type} {r : ξ → η → Prop} {xs : List ξ} {ys : List η}
    (all : List.Forall₂ r xs ys) : ∀ x ∈ xs, ∃ y ∈ ys, r x y := by
  intro x member
  induction all with
  | nil => cases member
  | cons here _ ih =>
      rcases List.mem_cons.1 member with rfl | later
      · exact ⟨_, List.mem_cons_self, here⟩
      · obtain ⟨y, listed, related⟩ := ih later
        exact ⟨y, List.mem_cons_of_mem _ listed, related⟩

theorem exists_of_forall₂ {ξ η : Type} {r : ξ → η → Prop} {xs : List ξ} {ys : List η}
    (all : List.Forall₂ r xs ys) : ∀ x ∈ xs, ∃ y, r x y := by
  intro x member
  obtain ⟨y, _, related⟩ := exists_mem_of_forall₂ all x member
  exact ⟨y, related⟩

theorem isSome_of_map_eq {ξ η : Type} {f : ξ → Option η} {xs : List ξ} {ys : List η}
    (mapped : xs.map f = ys.map some) : ∀ x ∈ xs, (f x).isSome = true := by
  intro x member
  have known : f x ∈ ys.map some := mapped ▸ List.mem_map_of_mem member
  obtain ⟨y, _, same⟩ := List.mem_map.1 known
  rw [← same]
  rfl

def Place.Owned (s : Schema) (place : Place) : Prop :=
  (∃ e ∈ s.events, place.event? = some e.id ∧ place.projection? = none ∧ place.service? = none) ∨
  (∃ p ∈ s.projections,
    place.event? = none ∧ place.projection? = some p.id ∧ place.service? = none) ∨
  (∃ v ∈ s.services, place.event? = none ∧ place.projection? = none ∧ place.service? = some v.id)

theorem owned_of_naming {x : Place × EventId} (member : x ∈ s.namings) : x.1.Owned s := by
  rcases List.mem_append.1 member with member | member
  · obtain ⟨p, node, inside⟩ := List.mem_flatMap.1 member
    rcases List.mem_cons.1 inside with rfl | inside
    · exact .inr (.inl ⟨p, node, rfl, rfl, rfl⟩)
    · obtain ⟨t, _, inside⟩ := List.mem_flatMap.1 inside
      obtain ⟨k, _, rfl⟩ := List.mem_map.1 inside
      exact .inr (.inl ⟨p, node, rfl, rfl, rfl⟩)
  · obtain ⟨v, node, inside⟩ := List.mem_flatMap.1 member
    obtain ⟨m, _, inside⟩ := List.mem_flatMap.1 inside
    obtain ⟨e, _, rfl⟩ := List.mem_map.1 inside
    exact .inr (.inr ⟨v, node, rfl, rfl, rfl⟩)

theorem owned_of_typing {x : Place × TypeId} (member : x ∈ s.typings) : x.1.Owned s := by
  rcases List.mem_append.1 member with member | member
  · rcases List.mem_append.1 member with member | member
    · obtain ⟨e, node, inside⟩ := List.mem_flatMap.1 member
      obtain ⟨q, _, rfl⟩ := List.mem_map.1 inside
      exact .inl ⟨e, node, rfl, rfl, rfl⟩
    · obtain ⟨p, node, inside⟩ := List.mem_flatMap.1 member
      obtain ⟨q, _, rfl⟩ := List.mem_map.1 inside
      exact .inr (.inl ⟨p, node, rfl, rfl, rfl⟩)
  · obtain ⟨v, node, inside⟩ := List.mem_flatMap.1 member
    obtain ⟨m, _, inside⟩ := List.mem_flatMap.1 inside
    rcases List.mem_append.1 inside with inside | inside <;>
      obtain ⟨t, _, rfl⟩ := List.mem_map.1 inside <;>
      exact .inr (.inr ⟨v, node, rfl, rfl, rfl⟩)

theorem getD_of_mem_flatten {slots : List (List Place)} {place : Place}
    (member : place ∈ slots.flatten) : ∃ j : Nat, place ∈ (slots[j]?).getD [] := by
  obtain ⟨slot, listed, inside⟩ := List.mem_flatten.1 member
  obtain ⟨j, bound, rfl⟩ := List.mem_iff_getElem.1 listed
  refine ⟨j, ?_⟩
  rw [List.getElem?_eq_getElem bound]
  exact inside

theorem owned_of_recorded (compiled : Compiled d raw s) :
    ∀ place ∈ s.references.places, place.Owned s := by
  intro place member
  rcases List.mem_append.1 member with member | member
  · obtain ⟨j, inside⟩ := getD_of_mem_flatten member
    have recorded : place ∈ s.eventReferrers ⟨j⟩ := inside
    rw [eventReferrers_eq compiled] at recorded
    obtain ⟨x, listed, rfl⟩ := List.mem_map.1 recorded
    exact owned_of_naming (List.mem_filter.1 listed).1
  · obtain ⟨j, inside⟩ := getD_of_mem_flatten member
    have recorded : place ∈ s.typeReferrers ⟨j⟩ := inside
    rw [typeReferrers_eq compiled] at recorded
    obtain ⟨x, listed, rfl⟩ := List.mem_map.1 recorded
    exact owned_of_typing (List.mem_filter.1 listed).1

theorem isSome_subscription (compiled : Compiled d raw s) {p : Projection}
    (node : p ∈ s.projections) : ∀ id ∈ p.subscriptions, (s.event? id).isSome = true := by
  obtain ⟨decl, reflects⟩ := exists_of_forall₂ (reflects_projections compiled) p node
  intro id member
  rcases List.mem_cons.1 member with rfl | member
  · exact isSome_of_map reflects.createOn
  · obtain ⟨t, listed, rfl⟩ := List.mem_map.1 member
    obtain ⟨decl', trigger⟩ := exists_of_forall₂ reflects.transitions t listed
    exact isSome_of_map trigger.1

theorem isSome_emit (compiled : Compiled d raw s) {v : Service} (node : v ∈ s.services)
    {m : Method} (method : m ∈ v.methods) : ∀ id ∈ m.emits, (s.event? id).isSome = true := by
  obtain ⟨decl, reflects⟩ := exists_of_forall₂ (reflects_services compiled) v node
  obtain ⟨decl', reflects⟩ := exists_of_forall₂ reflects.methods m method
  intro id member
  have named := isSome_of_map_eq reflects.emits id member
  rwa [eventName?, Option.isSome_map] at named

theorem isSome_naming (compiled : Compiled d raw s) {x : Place × EventId}
    (member : x ∈ s.namings) : (s.event? x.2).isSome = true := by
  rcases List.mem_append.1 member with member | member
  · obtain ⟨p, node, inside⟩ := List.mem_flatMap.1 member
    refine isSome_subscription compiled node x.2 ?_
    rcases List.mem_cons.1 inside with rfl | inside
    · exact List.mem_cons_self
    · obtain ⟨t, listed, inside⟩ := List.mem_flatMap.1 inside
      obtain ⟨k, _, rfl⟩ := List.mem_map.1 inside
      exact List.mem_cons_of_mem _ (List.mem_map_of_mem listed)
  · obtain ⟨v, node, inside⟩ := List.mem_flatMap.1 member
    obtain ⟨m, method, inside⟩ := List.mem_flatMap.1 inside
    obtain ⟨e, emitted, rfl⟩ := List.mem_map.1 inside
    exact isSome_emit compiled node method e emitted

theorem isSome_iff_lt {ν : Type} {nodes : List ν} {i : Nat} :
    (nodes[i]?).isSome = true ↔ i < nodes.length := by
  rw [isSome_getElem?]

/-- Under no number behind the last event, places are recorded. -/
theorem length_event_records (compiled : Compiled d raw s) :
    s.references.events.length ≤ s.events.length := by
  rw [compiled.references]
  refine length_events_mentioned (Nat.zero_le _) fun id place mentioned => ?_
  have member : (place, id) ∈ s.namings := by
    rw [← namings_of_mentions compiled]
    exact List.mem_filterMap.2 ⟨_, mentioned, rfl⟩
  exact isSome_iff_lt.1 (isSome_naming compiled member)

/-- Under no number behind the last type, places are recorded. -/
theorem length_type_records (compiled : Compiled d raw s) :
    s.references.types.length ≤ s.types.length := by
  have count : s.types.length = d.types.length := by
    rw [← compiled.types, List.length_map]
  rw [compiled.references, count]
  exact length_types_mentioned (Nat.le_refl _)

theorem isSome_node {ν ι κ : Type} {nodes : List ν} {number : Nat → ι} {id : ν → ι} {key : ν → κ}
    {find? : κ → Option ι} (numbered : Numbered nodes number id key find?) (index : ι → Nat)
    (inverse : ∀ i, index (number i) = i) {node : ν} (member : node ∈ nodes) :
    (nodes[index (id node)]?).isSome = true := by
  obtain ⟨i, inside, rfl⟩ := List.mem_iff_getElem.1 member
  rw [(numbered i _ (List.getElem?_eq_getElem inside)).1, inverse]
  exact isSome_iff_lt.2 inside

theorem isSome_slot {ν : Type} {nodes : List ν} {slots : Nat} (short : slots ≤ nodes.length)
    {i : Nat} (inside : i ∈ List.range slots) : (nodes[i]?).isSome = true :=
  isSome_iff_lt.2 (Nat.lt_of_lt_of_le (List.mem_range.1 inside) short)

theorem mem_of_projection? {id : ProjectionId} {p : Projection}
    (found : s.projection? id = some p) : p ∈ s.projections :=
  List.mem_of_getElem? found

theorem isSome_eventIds (keyed : d.Keyed) (compiled : Compiled d raw s)
    (form : ∀ v ∈ s.services, v.WellFormed s) : ∀ id ∈ s.eventIds, (s.event? id).isSome = true := by
  have numbered := numbered_events keyed compiled
  have nodes : ∀ e ∈ s.events, (s.event? e.id).isSome = true := fun e node =>
    isSome_node numbered EventId.index (fun _ => rfl) node
  simp only [eventIds, List.mem_append]
  rintro id ((((own | needed) | offered) | placed) | slot)
  · obtain ⟨e, node, rfl⟩ := List.mem_map.1 own
    exact nodes e node
  · obtain ⟨p, node, inside⟩ := List.mem_flatMap.1 needed
    exact isSome_subscription compiled node id inside
  · obtain ⟨v, node, inside⟩ := List.mem_flatMap.1 offered
    rcases List.mem_append.1 inside with subscribed | emitted
    · rw [(form v node).subscriptions, List.mem_eraseDups] at subscribed
      obtain ⟨p, known, inside⟩ := List.mem_flatMap.1 subscribed
      obtain ⟨_, _, found⟩ := List.mem_filterMap.1 known
      exact isSome_subscription compiled (mem_of_projection? found) id inside
    · obtain ⟨m, method, inside⟩ := List.mem_flatMap.1 emitted
      exact isSome_emit compiled node method id inside
  · obtain ⟨place, recorded, owner⟩ := List.mem_filterMap.1 placed
    rcases owned_of_recorded compiled place recorded with
      ⟨e, node, event, _⟩ | ⟨p, node, unowned, _⟩ | ⟨v, node, unowned, _⟩
    · cases event.symm.trans owner
      exact nodes e node
    · cases unowned.symm.trans owner
    · cases unowned.symm.trans owner
  · obtain ⟨i, inside, rfl⟩ := List.mem_map.1 slot
    exact isSome_slot (length_event_records compiled) inside

theorem isSome_projectionIds (keyed : d.Keyed) (compiled : Compiled d raw s) :
    ∀ id ∈ s.projectionIds, (s.projection? id).isSome = true := by
  have numbered := numbered_projections keyed compiled
  have nodes : ∀ p ∈ s.projections, (s.projection? p.id).isSome = true := fun p node =>
    isSome_node numbered ProjectionId.index (fun _ => rfl) node
  simp only [projectionIds, List.mem_append]
  rintro id ((own | kept) | placed)
  · obtain ⟨p, node, rfl⟩ := List.mem_map.1 own
    exact nodes p node
  · obtain ⟨v, node, inside⟩ := List.mem_flatMap.1 kept
    obtain ⟨decl, reflects⟩ := exists_of_forall₂ (reflects_services compiled) v node
    have named := isSome_of_map_eq reflects.projections id inside
    rwa [projectionName?, Option.isSome_map] at named
  · obtain ⟨place, recorded, owner⟩ := List.mem_filterMap.1 placed
    rcases owned_of_recorded compiled place recorded with
      ⟨e, node, _, unowned, _⟩ | ⟨p, node, _, projection, _⟩ | ⟨v, node, _, unowned, _⟩
    · cases unowned.symm.trans owner
    · cases projection.symm.trans owner
      exact nodes p node
    · cases unowned.symm.trans owner

theorem isSome_serviceIds (keyed : d.Keyed) (compiled : Compiled d raw s) :
    ∀ id ∈ s.serviceIds, (s.service? id).isSome = true := by
  have numbered := numbered_services keyed compiled
  have nodes : ∀ v ∈ s.services, (s.service? v.id).isSome = true := fun v node =>
    isSome_node numbered ServiceId.index (fun _ => rfl) node
  simp only [serviceIds, List.mem_append]
  rintro id (own | placed)
  · obtain ⟨v, node, rfl⟩ := List.mem_map.1 own
    exact nodes v node
  · obtain ⟨place, recorded, owner⟩ := List.mem_filterMap.1 placed
    rcases owned_of_recorded compiled place recorded with
      ⟨e, node, _, _, unowned⟩ | ⟨p, node, _, _, unowned⟩ | ⟨v, node, _, _, service⟩
    · cases unowned.symm.trans owner
    · cases unowned.symm.trans owner
    · cases service.symm.trans owner
      exact nodes v node

theorem isSome_properties {props : List Property} {decls : Document.Named Document.Property}
    (reflects : List.Forall₂ (Property.Reflects s) props decls) :
    ∀ id ∈ props.map (·.type), (s.type? id).isSome = true := by
  intro id member
  obtain ⟨q, listed, rfl⟩ := List.mem_map.1 member
  obtain ⟨decl, _, text, _⟩ := exists_of_forall₂ reflects q listed
  exact isSome_of_map text

theorem isSome_reference {o : Option TypeId} {text : Option String}
    (reflects : o.map s.typeText? = text.map some) :
    ∀ id ∈ o.toList, (s.type? id).isSome = true := by
  intro id member
  cases Option.mem_toList.1 member
  cases text with
  | none => cases reflects
  | some text => exact isSome_of_map (Option.some.inj reflects)

theorem isSome_typeIds (compiled : Compiled d raw s) :
    ∀ id ∈ s.typeIds, (s.type? id).isSome = true := by
  simp only [typeIds, List.mem_append]
  rintro id ((((own | held) | kept) | offered) | slot)
  · obtain ⟨t, node, rfl⟩ := List.mem_map.1 own
    exact isSome_node (numbered_types compiled) TypeId.index (fun _ => rfl) node
  · obtain ⟨e, node, inside⟩ := List.mem_flatMap.1 held
    obtain ⟨decl, _, reflects⟩ := exists_of_forall₂ (reflects_events compiled) e node
    exact isSome_properties reflects id inside
  · obtain ⟨p, node, inside⟩ := List.mem_flatMap.1 kept
    obtain ⟨decl, reflects⟩ := exists_of_forall₂ (reflects_projections compiled) p node
    exact isSome_properties reflects.properties id inside
  · obtain ⟨v, node, inside⟩ := List.mem_flatMap.1 offered
    obtain ⟨decl, reflects⟩ := exists_of_forall₂ (reflects_services compiled) v node
    obtain ⟨m, method, inside⟩ := List.mem_flatMap.1 inside
    obtain ⟨decl', reflects⟩ := exists_of_forall₂ reflects.methods m method
    rcases List.mem_append.1 inside with inside | inside
    · exact isSome_reference reflects.input id inside
    · exact isSome_reference reflects.output id inside
  · obtain ⟨i, inside, rfl⟩ := List.mem_map.1 slot
    exact isSome_slot (length_type_records compiled) inside

theorem wellFormed_services (keyed : d.Keyed) (compiled : Compiled d raw s) :
    ∀ v ∈ s.services, v.WellFormed s := by
  rw [compiled.services]
  intro v node
  obtain ⟨⟨decl, i⟩, listed, rfl⟩ := List.mem_map.1 node
  have declared := List.fst_mem_of_mem_zipIdx listed
  exact wellFormed_serviceNode (compiled.sound.services decl declared)
    (keyed.methods decl declared) compiled.projections

theorem wellFormed (keyed : d.Keyed) (compiled : Compiled d raw s) : s.WellFormed where
  events := numbered_events keyed compiled
  projections := numbered_projections keyed compiled
  services := numbered_services keyed compiled
  types := numbered_types compiled
  eventIds := isSome_eventIds keyed compiled (wellFormed_services keyed compiled)
  projectionIds := isSome_projectionIds keyed compiled
  serviceIds := isSome_serviceIds keyed compiled
  typeIds := isSome_typeIds compiled
  eventProperties := by
    rw [compiled.events]
    intro e node
    obtain ⟨⟨decl, i⟩, listed, rfl⟩ := List.mem_map.1 node
    rw [eventNode, names_propertyNodes]
    exact keyed.eventProperties decl (List.fst_mem_of_mem_zipIdx listed)
  eachProjection := by
    rw [compiled.projections]
    intro p node
    obtain ⟨⟨decl, i⟩, listed, rfl⟩ := List.mem_map.1 node
    have declared := List.fst_mem_of_mem_zipIdx listed
    exact wellFormed_projectionNode (compiled.sound.projections decl declared)
      (keyed.projectionProperties decl declared) (keyed.transitions decl declared)
  eachService := wellFormed_services keyed compiled

end Parts

/-- Two events have different names. -/
theorem WellFormed.eventName?_inj {s : Schema} (form : s.WellFormed) {a b : EventId}
    (known : (s.event? a).isSome) (same : s.eventName? a = s.eventName? b) : a = b := by
  obtain ⟨e, found⟩ := Option.isSome_iff_exists.1 known
  have first : s.eventName? a = some e.name := by
    rw [eventName?, found, Option.map_some]
  obtain ⟨e', found', named⟩ := Option.map_eq_some_iff.1 (same.symm.trans first)
  have number : s.eventId? e.name = some a := (form.events a.index e found).2
  have number' : s.eventId? e'.name = some b := (form.events b.index e' found').2
  rw [named] at number'
  exact Option.some.inj (number.symm.trans number')

/-- A schema that was compiled is well formed, keeps the text of its document and says what
the document declares. -/
theorem compiled_reflects_document {d : Document} (keyed : d.Keyed) {c : Compiler} {raw : String}
    {s : Schema} (ok : c.compileDocument raw d = .ok s) :
    s.WellFormed ∧ s.raw = raw ∧ s.Reflects d :=
  let compiled := compiled_of_ok keyed ok
  ⟨wellFormed keyed compiled, compiled.raw, reflects compiled⟩

def nameSource : Source.Declaration where
  kind := .struct
  file := "name.rs"
  place := ⟨1, 1⟩
  doc := []

def gateSchema : Schema where
  raw := ""
  events := [⟨⟨0⟩, "Opened", []⟩, ⟨⟨1⟩, "Closed", [⟨"by", ⟨0⟩, []⟩]⟩]
  types := [⟨⟨0⟩, ⟨[], "Name"⟩, nameSource⟩]
  projections := [⟨⟨0⟩, "Gate", ["Open", "Shut"], [], ⟨0⟩, [(⟨1⟩, [⟨"Open", "Shut"⟩])]⟩]
  services := [⟨⟨0⟩, "Gates", [⟨0⟩], [⟨"Close", .transaction, some ⟨0⟩, none, [⟨1⟩]⟩],
    [⟨0⟩, ⟨1⟩]⟩]
  references :=
    { events := [[.createOn ⟨0⟩], [.transition ⟨0⟩ 0, .emit ⟨0⟩ "Close"]]
      types := [[.eventProperty ⟨1⟩ "by", .input ⟨0⟩ "Close"]] }

theorem compiled_gate : Compiler.compileDocument ⟨⟨[⟨[], "Name", nameSource⟩]⟩, []⟩ ""
    (gate ["Open -> Shut"] ["Closed"]) = .ok gateSchema := by
  decide +kernel

theorem gate_reflects_document :
    gateSchema.WellFormed ∧ gateSchema.raw = "" ∧
      gateSchema.Reflects (gate ["Open -> Shut"] ["Closed"]) :=
  compiled_reflects_document (keyed_gate _ _) compiled_gate

end Schema

end EventSourcing
