import EventSourcing.Proofs.Schema.WellFormed

/-!
# Proofs.Schema.Referrers -- the places recorded for an event or a type

What a compiled schema records under the number of an event or a type are the places of the
schema that name it, in their order and each of them once.  Every event is named somewhere
(`referrers_are_places`).
-/

namespace EventSourcing

set_option autoImplicit false

open EventSourcing.Document (names)

namespace Schema

variable {s : Schema}

/-! ## No place twice -/

theorem nodup_ids {ν ι κ : Type} {nodes : List ν} {number : Nat → ι} {id : ν → ι} {key : ν → κ}
    {find? : κ → Option ι} (numbered : Numbered nodes number id key find?)
    (distinct : ∀ i j, number i = number j → i = j) : (nodes.map id).Nodup := by
  have all : nodes.map id = (List.range nodes.length).map number := by
    refine List.ext_getElem? fun i => ?_
    by_cases inside : i < nodes.length
    · have here := (numbered i _ (List.getElem?_eq_getElem inside)).1
      simp [inside, here]
    · simp [Nat.le_of_not_lt inside]
  rw [all]
  exact List.nodup_range.map distinct

theorem nodup_projection_namings {p : Projection} (form : p.WellFormed) : p.namings.Nodup := by
  refine List.nodup_cons.2 ⟨?_, ?_⟩
  · intro member
    obtain ⟨t, _, inside⟩ := List.mem_flatMap.1 member
    obtain ⟨k, _, same⟩ := List.mem_map.1 inside
    cases same
  · refine nodup_flatMap_of_owner Prod.fst Prod.snd form.triggers ?_ ?_
    · intro t _
      refine List.nodup_range.map fun j k same => ?_
      cases same
      rfl
    · intro t _ x inside
      obtain ⟨k, _, rfl⟩ := List.mem_map.1 inside
      rfl

theorem nodup_service_namings {v : Service} (form : v.WellFormed s) : v.namings.Nodup := by
  have distinct : (v.methods.map fun m => Place.emit v.id m.name).Nodup := by
    have places := form.methods.map (f := Place.emit v.id) fun a b same => by cases same; rfl
    rwa [List.map_map] at places
  refine nodup_flatMap_of_owner _ Prod.fst distinct ?_ ?_
  · intro m method
    exact (form.each m method).emits.map fun a b same => (Prod.mk.inj same).2
  · intro m _ x inside
    obtain ⟨e, _, rfl⟩ := List.mem_map.1 inside
    rfl

theorem owner_projection_namings {p : Projection} :
    ∀ x ∈ p.namings, x.1.projection? = some p.id := by
  intro x member
  rcases List.mem_cons.1 member with rfl | member
  · rfl
  · obtain ⟨t, _, inside⟩ := List.mem_flatMap.1 member
    obtain ⟨k, _, rfl⟩ := List.mem_map.1 inside
    rfl

theorem owner_service_namings {v : Service} :
    ∀ x ∈ v.namings, x.1.projection? = none ∧ x.1.service? = some v.id := by
  intro x member
  obtain ⟨m, _, inside⟩ := List.mem_flatMap.1 member
  obtain ⟨e, _, rfl⟩ := List.mem_map.1 inside
  exact ⟨rfl, rfl⟩

theorem nodup_some {ν ι : Type} {nodes : List ν} {id : ν → ι} (distinct : (nodes.map id).Nodup) :
    (nodes.map fun x => some (id x)).Nodup := by
  have all := distinct.map fun _ _ => Option.some.inj
  rwa [List.map_map] at all

theorem nodup_namings (form : s.WellFormed) : s.namings.Nodup := by
  have projectionIds := nodup_ids form.projections fun _ _ same => congrArg ProjectionId.index same
  have serviceIds := nodup_ids form.services fun _ _ same => congrArg ServiceId.index same
  refine List.nodup_append.2 ⟨?_, ?_, ?_⟩
  · exact nodup_flatMap_of_owner _ (fun x => x.1.projection?) (nodup_some projectionIds)
      (fun p node => nodup_projection_namings (form.eachProjection p node))
      fun p _ => owner_projection_namings
  · exact nodup_flatMap_of_owner _ (fun x => x.1.service?) (nodup_some serviceIds)
      (fun v node => nodup_service_namings (form.eachService v node))
      fun v _ x inside => (owner_service_namings x inside).2
  · rintro x left _ right rfl
    obtain ⟨p, _, inside⟩ := List.mem_flatMap.1 left
    obtain ⟨v, _, inside'⟩ := List.mem_flatMap.1 right
    cases (owner_projection_namings x inside).symm.trans (owner_service_namings x inside').1

/-- The property or the method that a place belongs to. -/
def Place.member? : Place → Option String
  | .eventProperty _ name => some name
  | .projectionProperty _ name => some name
  | .emit _ name => some name
  | .input _ name => some name
  | .output _ name => some name
  | _ => none

theorem nodup_properties {props : List Property} (distinct : (props.map (·.name)).Nodup)
    {place : String → Place} (injective : ∀ a b, place a = place b → a = b) :
    (props.map fun q => place q.name).Nodup := by
  have all := distinct.map injective
  rwa [List.map_map] at all

theorem nodup_service_typings {v : Service} (form : v.WellFormed s) :
    (v.typings.map Prod.fst).Nodup := by
  rw [Service.typings, List.map_flatMap]
  refine nodup_flatMap_of_owner _ Place.member? (nodup_some form.methods) ?_ ?_
  · intro m _
    cases m.input <;> cases m.output <;> simp
  · intro m _ place member
    obtain ⟨x, inside, rfl⟩ := List.mem_map.1 member
    rcases List.mem_append.1 inside with inside | inside <;>
      obtain ⟨t, _, rfl⟩ := List.mem_map.1 inside <;> rfl

theorem owner_event_typings {e : Event} :
    ∀ place ∈ e.typings.map Prod.fst, place.event? = some e.id := by
  intro place member
  obtain ⟨x, inside, rfl⟩ := List.mem_map.1 member
  obtain ⟨q, _, rfl⟩ := List.mem_map.1 inside
  rfl

theorem owner_projection_typings {p : Projection} :
    ∀ place ∈ p.typings.map Prod.fst, place.event? = none ∧ place.projection? = some p.id := by
  intro place member
  obtain ⟨x, inside, rfl⟩ := List.mem_map.1 member
  obtain ⟨q, _, rfl⟩ := List.mem_map.1 inside
  exact ⟨rfl, rfl⟩

theorem owner_service_typings {v : Service} : ∀ place ∈ v.typings.map Prod.fst,
    place.event? = none ∧ place.projection? = none ∧ place.service? = some v.id := by
  intro place member
  obtain ⟨x, inside, rfl⟩ := List.mem_map.1 member
  obtain ⟨m, _, inside⟩ := List.mem_flatMap.1 inside
  rcases List.mem_append.1 inside with inside | inside <;>
    obtain ⟨t, _, rfl⟩ := List.mem_map.1 inside <;> exact ⟨rfl, rfl, rfl⟩

theorem nodup_typings (form : s.WellFormed) : (s.typings.map Prod.fst).Nodup := by
  have eventIds := nodup_ids form.events fun _ _ same => congrArg EventId.index same
  have projectionIds := nodup_ids form.projections fun _ _ same => congrArg ProjectionId.index same
  have serviceIds := nodup_ids form.services fun _ _ same => congrArg ServiceId.index same
  rw [typings, List.map_append, List.map_append, List.map_flatMap, List.map_flatMap,
    List.map_flatMap]
  refine List.nodup_append.2 ⟨List.nodup_append.2 ⟨?_, ?_, ?_⟩, ?_, ?_⟩
  · refine nodup_flatMap_of_owner _ Place.event? (nodup_some eventIds) ?_
      fun e _ => owner_event_typings
    intro e node
    rw [Event.typings, List.map_map]
    exact nodup_properties (form.eventProperties e node) fun a b same => by cases same; rfl
  · refine nodup_flatMap_of_owner _ Place.projection? (nodup_some projectionIds) ?_
      fun p _ place inside => (owner_projection_typings place inside).2
    intro p node
    rw [Projection.typings, List.map_map]
    exact nodup_properties (form.eachProjection p node).properties
      fun a b same => by cases same; rfl
  · rintro place left _ right rfl
    obtain ⟨e, _, inside⟩ := List.mem_flatMap.1 left
    obtain ⟨p, _, inside'⟩ := List.mem_flatMap.1 right
    cases (owner_event_typings place inside).symm.trans (owner_projection_typings place inside').1
  · exact nodup_flatMap_of_owner _ Place.service? (nodup_some serviceIds)
      (fun v node => nodup_service_typings (form.eachService v node))
      fun v _ place inside => (owner_service_typings place inside).2.2
  · rintro place left _ right rfl
    obtain ⟨v, _, inside'⟩ := List.mem_flatMap.1 right
    obtain ⟨noEvent, noProjection, _⟩ := owner_service_typings place inside'
    rcases List.mem_append.1 left with left | left
    · obtain ⟨e, _, inside⟩ := List.mem_flatMap.1 left
      cases (owner_event_typings place inside).symm.trans noEvent
    · obtain ⟨p, _, inside⟩ := List.mem_flatMap.1 left
      cases (owner_projection_typings place inside).2.symm.trans noProjection

/-! ## Recorded places -/

variable {d : Document} {raw : String}

theorem nodup_eventReferrers (compiled : Compiled d raw s) (form : s.WellFormed) (id : EventId) :
    (s.eventReferrers id).Nodup := by
  rw [eventReferrers_eq compiled]
  refine List.Nodup.map_on (fun x member y member' same => ?_) ((nodup_namings form).filter _)
  have here : x.2 = id := of_decide_eq_true (List.mem_filter.1 member).2
  have there : y.2 = id := of_decide_eq_true (List.mem_filter.1 member').2
  exact Prod.ext same (here.trans there.symm)

theorem nodup_typeReferrers (compiled : Compiled d raw s) (form : s.WellFormed) (id : TypeId) :
    (s.typeReferrers id).Nodup := by
  rw [typeReferrers_eq compiled]
  exact (nodup_typings form).sublist (List.filter_sublist.map Prod.fst)

theorem eventReferrers_ne_nil (keyed : d.Keyed) (compiled : Compiled d raw s) {e : Event}
    (node : e ∈ s.events) : s.eventReferrers e.id ≠ [] := by
  rw [compiled.events] at node
  have name : e.name ∈ names d.eventDecls := names_eventNodes d ▸ List.mem_map_of_mem node
  have used := (isEventReferenced_node keyed node).2 (compiled.sound.named e.name name)
  rw [eventReferrers, compiled.references]
  intro empty
  rw [References.isEventReferenced, empty] at used
  cases used

/-- Under the number of an event or a type, the places of the schema that name it are
recorded, in their order and each of them once.  There is one for every event. -/
theorem referrers_are_places (keyed : d.Keyed) {c : Compiler}
    (ok : c.compileDocument raw d = .ok s) :
    (∀ id, s.eventReferrers id = (s.namings.filter (·.2 = id)).map Prod.fst ∧
        (s.eventReferrers id).Nodup) ∧
      (∀ id, s.typeReferrers id = (s.typings.filter (·.2 = id)).map Prod.fst ∧
        (s.typeReferrers id).Nodup) ∧
      ∀ e ∈ s.events, s.eventReferrers e.id ≠ [] := by
  have compiled := compiled_of_ok keyed ok
  have form := wellFormed keyed compiled
  exact ⟨fun id => ⟨eventReferrers_eq compiled id, nodup_eventReferrers compiled form id⟩,
    fun id => ⟨typeReferrers_eq compiled id, nodup_typeReferrers compiled form id⟩,
    fun e node => eventReferrers_ne_nil keyed compiled node⟩

/-- The closing of the gate is recorded for the transition on it and for the method that
emits it. -/
theorem gate_referrers_are_places :
    gateSchema.eventReferrers ⟨1⟩ = [.transition ⟨0⟩ 0, .emit ⟨0⟩ "Close"] ∧
      (gateSchema.eventReferrers ⟨1⟩).Nodup :=
  (referrers_are_places (keyed_gate _ _) compiled_gate).1 ⟨1⟩

end Schema

end EventSourcing
