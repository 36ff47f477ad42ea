import EventSourcing.Proofs.Schema.Compiled

/-!
# Proofs.Schema.Places -- where a schema names events and types

All places of a schema that name an event (`namings`) or have a type (`typings`), read off
the schema in the order in which a document is walked.  They are those at which the
document mentions events and types (`namings_of_mentions`, `typings_of_mentions`).
-/

namespace EventSourcing

set_option autoImplicit false

open EventSourcing.Document (names)

namespace Schema

/-! ## Places that name events -/

def Projection.namings (p : Projection) : List (Place × EventId) :=
  (.createOn p.id, p.createOn) ::
    p.transitions.flatMap fun t =>
      (List.range t.2.length).map fun k => (.transition p.id k, t.1)

def Service.namings (v : Service) : List (Place × EventId) :=
  v.methods.flatMap fun m => m.emits.map fun e => (.emit v.id m.name, e)

/-- The places that name an event: those of projections, then those of services. -/
def namings (s : Schema) : List (Place × EventId) :=
  s.projections.flatMap (·.namings) ++ s.services.flatMap (·.namings)

/-! ## Places that have types -/

def Event.typings (e : Event) : List (Place × TypeId) :=
  e.properties.map fun q => (.eventProperty e.id q.name, q.type)

def Projection.typings (p : Projection) : List (Place × TypeId) :=
  p.properties.map fun q => (.projectionProperty p.id q.name, q.type)

def Service.typings (v : Service) : List (Place × TypeId) :=
  v.methods.flatMap fun m =>
    m.input.toList.map (fun t => (.input v.id m.name, t)) ++
      m.output.toList.map fun t => (.output v.id m.name, t)

/-- The places that have a type: those of events, of projections, then of services. -/
def typings (s : Schema) : List (Place × TypeId) :=
  s.events.flatMap (·.typings) ++ s.projections.flatMap (·.typings) ++
    s.services.flatMap (·.typings)

end Schema

namespace Document

open EventSourcing.Schema

def propertyTypings (place : String → Place) (decls : Named Document.Property) :
    List (Place × String) :=
  decls.map fun q => (place q.1, q.2.reference)

def Service.typings (s : Document.Service) (i : Nat) : List (Place × String) :=
  s.methodDecls.flatMap fun m =>
    m.2.input.toList.map (fun text => (.input ⟨i⟩ m.1, text)) ++
      m.2.output.toList.map fun text => (.output ⟨i⟩ m.1, text)

/-- The places of a document that have a type, each with the text that refers to it. -/
def typings (d : Document) : List (Place × String) :=
  d.eventDecls.zipIdx.flatMap
      (fun e => propertyTypings (.eventProperty ⟨e.2⟩) (e.1.2.getD [])) ++
    d.projectionDecls.zipIdx.flatMap
      (fun p => propertyTypings (.projectionProperty ⟨p.2⟩) p.1.2.propertyDecls) ++
    d.serviceDecls.zipIdx.flatMap fun s => s.1.2.typings s.2

/-- The texts that a document refers to types with, in the order of their first mention. -/
def typeTexts (d : Document) : List String :=
  (d.typings.map Prod.snd).eraseDups

end Document

namespace Schema

variable {d : Document} {raw : String} {s : Schema}

theorem typings_propertyNodes (place : String → Place) (types : List TypeRef)
    (decls : Document.Named Document.Property) :
    (propertyNodes types decls).map (fun q => (place q.name, q.type)) =
      (Document.propertyTypings place decls).map (Prod.map id (typeNumber types)) := by
  rw [propertyNodes, Document.propertyTypings, List.map_map, List.map_map]
  rfl

theorem typings_serviceNode {events projections : List String} {types : List TypeRef}
    {compiled : List Projection} {key : String} {decl : Document.Service} {i : Nat} :
    (serviceNode events projections types compiled key decl i).typings =
      (decl.typings i).map (Prod.map id (typeNumber types)) := by
  rw [Service.typings, serviceNode, Document.Service.typings, List.flatMap_map, List.map_flatMap]
  congr 1
  funext m
  obtain ⟨key, input, output, kind, emits⟩ := m
  cases input <;> cases output <;> rfl

/-- The types of a compiled schema are at the places of its document, with numbers in place
of texts. -/
theorem typings_compiled (compiled : Compiled d raw s) :
    s.typings = d.typings.map (Prod.map id (typeNumber d.types)) := by
  rw [typings, compiled.events, compiled.projections, compiled.services, Document.typings,
    List.map_append, List.map_append, List.map_flatMap, List.map_flatMap, List.map_flatMap,
    Document.eventNodes, Document.projectionNodes, Document.serviceNodes, List.flatMap_map,
    List.flatMap_map, List.flatMap_map]
  simp only [typings_serviceNode]
  congr 2
  · congr 1
    funext e
    exact typings_propertyNodes (.eventProperty ⟨e.2⟩) d.types (e.1.2.getD [])
  · congr 1
    funext p
    exact typings_propertyNodes (.projectionProperty ⟨p.2⟩) d.types p.1.2.propertyDecls

/-! ## Mentions of types -/

def Mention.typing? : Mention → Option (Place × TypeRef)
  | .event _ _ => none
  | .type r place => some (place, r)

/-- A place with a text that refers to a type. -/
def readTyping (t : Place × String) : Option (Place × TypeRef) :=
  (TypeRef.parse t.2).toOption.map (t.1, ·)

theorem typing_reference (text : String) (place : Place) :
    (referenceMentions text place).filterMap Mention.typing? =
      (readTyping (place, text)).toList := by
  unfold referenceMentions readTyping
  cases TypeRef.parse text <;> rfl

theorem typing_optional (place : Place) (text : Option String) :
    (text.toList.flatMap (referenceMentions · place)).filterMap Mention.typing? =
      (text.toList.map fun t => (place, t)).filterMap readTyping := by
  cases text with
  | none => rfl
  | some text =>
      rw [Option.toList_some, List.flatMap_singleton, typing_reference, List.map_singleton,
        List.filterMap_eq_flatMap_toList, List.flatMap_singleton]

theorem typing_properties (place : String → Place) (decls : Document.Named Document.Property) :
    (propertyMentions place decls).filterMap Mention.typing? =
      (Document.propertyTypings place decls).filterMap readTyping := by
  rw [propertyMentions, List.filterMap_flatMap, Document.propertyTypings, List.filterMap_map,
    List.filterMap_eq_flatMap_toList]
  congr 1
  funext q
  exact typing_reference q.2.reference (place q.1)

theorem typing_transitions (events : List String) (i : Nat)
    (decls : Document.Named (List String)) :
    (transitionMentions events i decls).filterMap Mention.typing? = [] := by
  refine List.filterMap_eq_nil_iff.2 fun m member => ?_
  obtain ⟨t, _, inside⟩ := List.mem_flatMap.1 member
  obtain ⟨k, _, rfl⟩ := List.mem_map.1 inside
  rfl

theorem typing_projection (events : List String) (decl : Document.Projection) (i : Nat) :
    (projectionMentions events decl i).filterMap Mention.typing? =
      (Document.propertyTypings (.projectionProperty ⟨i⟩) decl.propertyDecls).filterMap
        readTyping := by
  rw [projectionMentions, List.filterMap_append, typing_properties, List.filterMap_cons_none rfl,
    typing_transitions, List.append_nil]

theorem typing_service (events : List String) (decl : Document.Service) (i : Nat) :
    (serviceMentions events decl i).filterMap Mention.typing? =
      (decl.typings i).filterMap readTyping := by
  rw [serviceMentions, Document.Service.typings, List.filterMap_flatMap, List.filterMap_flatMap]
  congr 1
  funext m
  obtain ⟨key, input, output, kind, emits⟩ := m
  have empty : (emits.map fun e => Mention.event (eventNumber events e)
      (.emit ⟨i⟩ key)).filterMap Mention.typing? = [] := by
    rw [List.filterMap_map]
    exact List.filterMap_eq_nil_iff.2 fun _ _ => rfl
  dsimp only [methodMentions]
  rw [List.filterMap_append, List.filterMap_append, empty, List.append_nil, List.filterMap_append]
  exact congr (congrArg _ (typing_optional _ input)) (typing_optional _ output)

/-- The types that a document mentions are those of its places. -/
theorem typings_of_mentions (d : Document) :
    d.mentions.filterMap Mention.typing? = d.typings.filterMap readTyping := by
  rw [Document.mentions, Document.typings, List.append_assoc, List.filterMap_append,
    List.filterMap_append, List.filterMap_append, List.filterMap_append,
    Document.mentionsOfEvents, Document.mentionsOfProjections, Document.mentionsOfServices]
  simp only [List.filterMap_flatMap, typing_projection, typing_service, eventMentions,
    typing_properties]

/-! ## Numbers of types -/

/-- Texts that refer to types, as they are read. -/
theorem readTyping_spec {ts : List (Place × String)} (refer : ∀ t ∈ ts, TypeRef.Names t.2) :
    (ts.filterMap readTyping).map (Prod.map id TypeRef.text) = ts ∧
      ∀ r ∈ ts.filterMap readTyping, TypeRef.parse r.2.text = .ok r.2 := by
  induction ts with
  | nil => exact ⟨rfl, fun _ member => absurd member List.not_mem_nil⟩
  | cons t rest ih =>
      obtain ⟨⟨r, parsed⟩, others⟩ := List.forall_mem_cons.1 refer
      obtain ⟨texts, same⟩ := ih others
      have read : readTyping t = some (t.1, r) := by
        rw [readTyping, parsed]
        rfl
      have text := TypeRef.text_of_parse parsed
      rw [List.filterMap_cons_some read, List.map_cons, texts, List.forall_mem_cons]
      exact ⟨congrArg (· :: rest) (Prod.ext rfl text), text ▸ parsed, same⟩

theorem propertyTypings_refer {place : String → Place} {decls : Document.Named Document.Property}
    (sound : ∀ q ∈ decls, TypeRef.Names q.2.reference) :
    ∀ t ∈ Document.propertyTypings place decls, TypeRef.Names t.2 := by
  intro t member
  obtain ⟨q, declared, rfl⟩ := List.mem_map.1 member
  exact sound q declared

theorem typings_refer (sound : d.Sound) : ∀ t ∈ d.typings, TypeRef.Names t.2 := by
  intro t member
  rcases List.mem_append.1 member with member | member
  · rcases List.mem_append.1 member with member | member
    · obtain ⟨e, listed, inside⟩ := List.mem_flatMap.1 member
      have declared := List.fst_mem_of_mem_zipIdx listed
      exact propertyTypings_refer (sound.properties e.1 declared) t inside
    · obtain ⟨p, listed, inside⟩ := List.mem_flatMap.1 member
      have declared := List.fst_mem_of_mem_zipIdx listed
      exact propertyTypings_refer (sound.projections p.1 declared).properties t inside
  · obtain ⟨v, listed, inside⟩ := List.mem_flatMap.1 member
    have declared := List.fst_mem_of_mem_zipIdx listed
    obtain ⟨m, method, inside⟩ := List.mem_flatMap.1 inside
    have sound := (sound.services v.1 declared).methods m method
    rcases List.mem_append.1 inside with inside | inside
    · obtain ⟨text, given, rfl⟩ := List.mem_map.1 inside
      exact sound.input text (Option.mem_toList.1 given)
    · obtain ⟨text, given, rfl⟩ := List.mem_map.1 inside
      exact sound.output text (Option.mem_toList.1 given)

theorem types_eq (d : Document) :
    d.types = ((d.typings.filterMap readTyping).map Prod.snd).eraseDups := by
  rw [Document.types, types_mentioned_empty, ← typings_of_mentions, List.map_filterMap]
  congr 2
  funext m
  cases m <;> rfl

theorem texts_types (sound : d.Sound) : d.types.map TypeRef.text = d.typeTexts := by
  obtain ⟨texts, same⟩ := readTyping_spec (typings_refer sound)
  have distinct : ∀ x ∈ (d.typings.filterMap readTyping).map Prod.snd,
      ∀ y ∈ (d.typings.filterMap readTyping).map Prod.snd,
        TypeRef.text x = TypeRef.text y → x = y := by
    intro x inside y inside' equal
    obtain ⟨r, member, rfl⟩ := List.mem_map.1 inside
    obtain ⟨r', member', rfl⟩ := List.mem_map.1 inside'
    have parsed := same r member
    rw [equal, same r' member'] at parsed
    exact (Except.ok.inj parsed).symm
  rw [types_eq, ← eraseDups_map distinct, Document.typeTexts]
  conv_rhs => rw [← texts]
  rw [List.map_map, List.map_map]
  rfl

/-- A type is numbered by the first mention of its text. -/
theorem typeNumber_eq (sound : d.Sound) {t : Place × String} (member : t ∈ d.typings) :
    typeNumber d.types t.2 = ⟨d.typeTexts.idxOf t.2⟩ ∧ d.typeTexts.idxOf t.2 < d.types.length := by
  obtain ⟨r, parsed⟩ := typings_refer sound t member
  have present : r ∈ d.types := by
    rw [types_eq, List.mem_eraseDups, List.mem_map]
    refine ⟨(t.1, r), List.mem_filterMap.2 ⟨t, member, ?_⟩, rfl⟩
    rw [readTyping, parsed]
    rfl
  have inside : d.types.idxOf r < d.types.length := List.idxOf_lt_length_iff.2 present
  have position : d.typeTexts.idxOf t.2 = d.types.idxOf r := by
    have distinct : (d.types.map TypeRef.text).Nodup := by
      rw [texts_types sound]
      exact nodup_eraseDups _
    have inside' : d.types.idxOf r < (d.types.map TypeRef.text).length := by
      rwa [List.length_map]
    have here : (d.types.map TypeRef.text)[d.types.idxOf r] = t.2 := by
      rw [List.getElem_map, List.getElem_idxOf inside]
      exact TypeRef.text_of_parse parsed
    rw [← texts_types sound, ← here]
    exact distinct.idxOf_getElem _ _
  rw [position]
  exact ⟨typeNumber_of_parse parsed, inside⟩

/-! ## Mentions of events -/

def Mention.naming? : Mention → Option (Place × EventId)
  | .event id place => some (place, id)
  | .type _ _ => none

theorem naming_reference (text : String) (place : Place) :
    (referenceMentions text place).filterMap Mention.naming? = [] := by
  unfold referenceMentions
  cases TypeRef.parse text <;> rfl

theorem naming_properties (place : String → Place) (decls : Document.Named Document.Property) :
    (propertyMentions place decls).filterMap Mention.naming? = [] := by
  rw [propertyMentions, List.filterMap_flatMap]
  exact List.flatMap_eq_nil_iff.2 fun q _ => naming_reference q.2.reference (place q.1)

theorem naming_optional (place : Place) (text : Option String) :
    (text.toList.flatMap (referenceMentions · place)).filterMap Mention.naming? = [] := by
  rw [List.filterMap_flatMap]
  exact List.flatMap_eq_nil_iff.2 fun t _ => naming_reference t place

theorem naming_list {ξ : Type} (place : ξ → Place) (id : ξ → EventId) (xs : List ξ) :
    (xs.map fun x => Mention.event (id x) (place x)).filterMap Mention.naming? =
      xs.map fun x => (place x, id x) := by
  rw [List.filterMap_map]
  exact List.filterMap_eq_map_iff_forall_eq_some.2 fun _ _ => rfl

theorem naming_transitions {events : List String} {i : Nat} {decls : Document.Named (List String)}
    (shaped : ∀ t ∈ decls, ∀ e ∈ t.2, ∃ step, Compile.transition? e = some step) :
    (transitionMentions events i decls).filterMap Mention.naming? =
      ((transitionNodes events decls).filter fun t => !t.2.isEmpty).flatMap fun t =>
        (List.range t.2.length).map fun k => (.transition ⟨i⟩ k, t.1) := by
  induction decls with
  | nil => rfl
  | cons t rest ih =>
      obtain ⟨here, others⟩ := List.forall_mem_cons.1 shaped
      have length : (t.2.filterMap Compile.transition?).length = t.2.length :=
        List.filterMap_length_eq_length.2 fun e inside => Option.isSome_iff_exists.2 (here e inside)
      have first : transitionMentions events i (t :: rest) =
          ((List.range t.2.length).map fun k =>
            Mention.event (eventNumber events t.1) (.transition ⟨i⟩ k)) ++
            transitionMentions events i rest := rfl
      have node : transitionNodes events (t :: rest) =
          (eventNumber events t.1, t.2.filterMap Compile.transition?) ::
            transitionNodes events rest := rfl
      rw [first, node, List.filterMap_append, naming_list, ih others, List.filter_cons]
      split
      · rw [List.flatMap_cons, length]
      · rename_i empty
        have vacant : t.2.length = 0 := by
          rw [← length]
          simpa using empty
        rw [vacant]
        rfl

theorem naming_projectionNode {events : List String} {types : List TypeRef} {key : String}
    {decl : Document.Projection} {i : Nat} (sound : decl.Sound events) :
    (projectionMentions events decl i).filterMap Mention.naming? =
      (projectionNode events types key decl i).namings := by
  have shaped : ∀ t ∈ decl.transitionDecls, ∀ e ∈ t.2,
      ∃ step, Compile.transition? e = some step := by
    intro t member e inside
    obtain ⟨step, shape, _⟩ := sound.steps t member e inside
    exact ⟨step, shape⟩
  rw [projectionMentions, List.filterMap_append, naming_properties, List.nil_append,
    List.filterMap_cons]
  exact congrArg ((Place.createOn ⟨i⟩, eventNumber events decl.createOn) :: ·)
    (naming_transitions shaped)

theorem naming_serviceNode {events projections : List String} {types : List TypeRef}
    {compiled : List Projection} {key : String} {decl : Document.Service} {i : Nat} :
    (serviceMentions events decl i).filterMap Mention.naming? =
      (serviceNode events projections types compiled key decl i).namings := by
  rw [serviceMentions, Service.namings, serviceNode, List.flatMap_map, List.filterMap_flatMap]
  congr 1
  funext m
  obtain ⟨key, input, output, kind, emits⟩ := m
  dsimp only [methodMentions]
  rw [List.filterMap_append, List.filterMap_append, naming_optional, naming_optional,
    naming_list, methodNode, List.map_map]
  rfl

/-- The events that a document mentions are those at the places of the compiled schema. -/
theorem namings_of_mentions (compiled : Compiled d raw s) :
    d.mentions.filterMap Mention.naming? = s.namings := by
  have empty : d.mentionsOfEvents.filterMap Mention.naming? = [] := by
    rw [Document.mentionsOfEvents, List.filterMap_flatMap]
    exact List.flatMap_eq_nil_iff.2 fun e _ => naming_properties _ _
  rw [Document.mentions, List.filterMap_append, List.filterMap_append, empty, List.nil_append,
    namings, compiled.projections, compiled.services, Document.mentionsOfProjections,
    Document.mentionsOfServices, Document.projectionNodes, Document.serviceNodes,
    List.filterMap_flatMap, List.filterMap_flatMap, List.flatMap_map, List.flatMap_map]
  congr 1
  · refine List.flatMap_congr fun p listed => ?_
    have declared := List.fst_mem_of_mem_zipIdx listed
    exact naming_projectionNode (compiled.sound.projections p.1 declared)
  · exact List.flatMap_congr fun v _ => naming_serviceNode

/-! ## What is recorded -/

theorem places_eq {ν : Type} [DecidableEq ν] (xs : List (Place × ν)) (id : ν) :
    xs.filterMap (fun x => if x.2 = id then some x.1 else none) =
      (xs.filter (·.2 = id)).map Prod.fst := by
  induction xs with
  | nil => rfl
  | cons x rest ih => by_cases same : x.2 = id <;> simp [same, ih]

/-- Under the number of an event, the places that name it are recorded. -/
theorem eventReferrers_eq (compiled : Compiled d raw s) (id : EventId) :
    s.eventReferrers id = (s.namings.filter (·.2 = id)).map Prod.fst := by
  rw [eventReferrers, compiled.references, eventPlaces_mentioned, ← namings_of_mentions compiled,
    ← places_eq, List.filterMap_filterMap]
  refine congrArg (List.filterMap · d.mentions) (funext fun m => ?_)
  cases m <;> rfl

/-- Under the number of a type, the places that have it are recorded. -/
theorem typeReferrers_eq (compiled : Compiled d raw s) (id : TypeId) :
    s.typeReferrers id = (s.typings.filter (·.2 = id)).map Prod.fst := by
  have within : Within d.types Draft.empty d.mentions := List.prefix_rfl
  have mentioned : d.mentions.filterMap (Mention.ofType? d.types id) =
      (d.mentions.filterMap Mention.typing?).filterMap fun t =>
        if (⟨d.types.idxOf t.2⟩ : TypeId) = id then some t.1 else none := by
    rw [List.filterMap_filterMap]
    refine congrArg (List.filterMap · d.mentions) (funext fun m => ?_)
    cases m <;> rfl
  have recorded : s.typeReferrers id = d.mentions.filterMap (Mention.ofType? d.types id) := by
    rw [typeReferrers, compiled.references, typePlaces_mentioned within]
    rfl
  rw [recorded, mentioned, typings_of_mentions, List.filterMap_filterMap, ← places_eq,
    typings_compiled compiled, List.filterMap_map]
  refine List.filterMap_congr fun t member => ?_
  obtain ⟨r, parsed⟩ := typings_refer compiled.sound t member
  have read : readTyping t = some (t.1, r) := by
    rw [readTyping, parsed]
    rfl
  rw [read, Function.comp_apply, Prod.map_snd, typeNumber_of_parse parsed]
  rfl

end Schema

end EventSourcing
