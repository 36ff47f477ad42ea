import EventSourcing.Proofs.Service.Uptake
import EventSourcing.Proofs.Service.Vocabulary

/-!
# Proofs.Service.Contract -- what a contract says of a document

On the way from a document to the contract of a service, the names of events become numbers
and then names again.  Nothing gets lost or added on the way: the contract has the parts of
the compiled service in their order (`Contract.Mirrors`), and what it lets methods emit and
subscribes to is what the document declares (`Contract.Tells`).  So a synchronization applies
the events that the projections of the service need by the document, and no others.
-/

namespace EventSourcing

set_option autoImplicit false

open EventSourcing.Document (names)

/-! ## What is to be said -/

/-- The events of a document on which a projection of a service is created, or on which it has
a transition. -/
def Document.Service.Needs (decl : Document.Service) (d : Document) (event : String) : Prop :=
  ∃ p ∈ d.projectionDecls, p.1 ∈ decl.projections ∧
    (p.2.createOn = event ∨ ∃ t ∈ p.2.transitionDecls, t.1 = event ∧ t.2 ≠ [])

namespace Contract

/-- A method of a contract with the events of one of a schema, each of them once, in their
order and by their names. -/
structure Method.Mirrors (schema : Schema) (m : Method) (node : Schema.Method) : Prop where
  name : m.name = node.name
  kind : m.kind = node.kind
  emits : m.emits.map some = node.emits.map schema.eventName?
  distinct : m.emits.Nodup

/-- A contract with the parts of a service of a schema, each of them once, in their order and
by their names. -/
structure Mirrors (schema : Schema) (c : Contract) (node : Schema.Service) : Prop where
  name : c.name = node.name
  events : c.events = schema.events.map (·.name) ∧ c.events.Nodup
  subscriptions : c.subscriptions.map some = node.subscriptions.map schema.eventName? ∧
    c.subscriptions.Nodup
  methods : List.Forall₂ (Method.Mirrors schema) c.methods node.methods ∧
    (c.methods.map (·.name)).Nodup

/-- What a contract says of a service that a document declares, and what follows for services
under the contract.  These may keep any projection in any store, together with anything else. -/
structure Tells (c : Contract) (d : Document) (decl : Document.Service) : Prop where
  emits : ∀ m ∈ decl.methodDecls, ∃ method, c.method? m.1 = some method ∧
    ∀ event, method.mayEmit event ↔ event ∈ m.2.emits
  subscribes : ∀ event, c.subscribesTo event ↔ decl.Needs d event
  syncs : ∀ {W P E ε : Type} {s : Service W P E ε} {clock : Part W Clock}
    {log : Part W Log.Memory} {ctx : Context} {accepts : Service.SyncError ε → Bool}
    {moves : List (Move W)} {v : Version}, s.contract = c → s.log.ReadsFrom clock log →
      (s.syncWith ctx accepts).Leads moves (.done (.ok v)) → s.Synced log (decl.Needs d) moves v

end Contract

/-! ## Lists side by side -/

section SideBySide

variable {ξ η : Type} {r : ξ → η → Prop} {xs : List ξ} {ys : List η}

theorem exists_mem_of_forall₂_right (all : List.Forall₂ r xs ys) : ∀ y ∈ ys, ∃ x ∈ xs, r x y :=
  Schema.exists_mem_of_forall₂ all.flip

/-- What is there under all of some numbers is there as often. -/
theorem map_some_filterMap {f : ξ → Option η} (present : ∀ x ∈ xs, (f x).isSome) :
    (xs.filterMap f).map some = xs.map f := by
  induction xs with
  | nil => rfl
  | cons x rest ih =>
      obtain ⟨here, others⟩ := List.forall_mem_cons.1 present
      obtain ⟨y, found⟩ := Option.isSome_iff_exists.1 here
      rw [List.filterMap_cons_some found, List.map_cons, List.map_cons, ih others, found]

theorem nodup_of_map_some {f : ξ → Option η} (same : ys.map some = xs.map f) (distinct : xs.Nodup)
    (injective : ∀ x ∈ xs, ∀ x' ∈ xs, f x = f x' → x = x') : ys.Nodup := by
  have all : (ys.map some).Nodup := same ▸ distinct.map_on injective
  exact all.of_map

theorem map_eq_of_forall₂ {κ : Type} {f : ξ → κ} {g : η → κ} (all : List.Forall₂ r xs ys)
    (same : ∀ x y, r x y → f x = g y) : xs.map f = ys.map g := by
  induction all with
  | nil => rfl
  | cons here _ ih => rw [List.map_cons, List.map_cons, same _ _ here, ih]

theorem mem_of_map_some {f : ξ → Option η} (same : xs.map f = ys.map some) {y : η} :
    y ∈ ys ↔ ∃ x ∈ xs, f x = some y := by
  rw [← List.mem_map, same]
  exact (List.mem_map_of_injective (fun _ _ => Option.some.inj)).symm

end SideBySide

namespace Schema

variable {d : Document} {s : Schema}

/-! ## Names of events -/

theorem eventNames_eq {ids : List EventId} (known : ∀ id ∈ ids, (s.event? id).isSome) :
    (s.eventNames ids).map some = ids.map s.eventName? :=
  map_some_filterMap fun id member => by
    rw [Option.isSome_map]
    exact known id member

theorem eventNames_of_map {ids : List EventId} {ns : List String}
    (same : ids.map s.eventName? = ns.map some) : s.eventNames ids = ns := by
  have all : s.eventNames ids = (ids.map s.eventName?).filterMap id := by
    rw [List.filterMap_map]
    rfl
  rw [all, same, List.filterMap_map]
  exact List.filterMap_some

theorem WellFormed.eventNames (form : s.WellFormed) {ids : List EventId}
    (listed : ∀ id ∈ ids, id ∈ s.eventIds) (distinct : ids.Nodup) :
    (s.eventNames ids).map some = ids.map s.eventName? ∧ (s.eventNames ids).Nodup := by
  have known : ∀ id ∈ ids, (s.event? id).isSome := fun id member =>
    form.eventIds id (listed id member)
  have same := eventNames_eq known
  refine ⟨same, nodup_of_map_some same distinct ?_⟩
  exact fun a member b _ => form.eventName?_inj (known a member)

theorem emits_listed {node : Service} (member : node ∈ s.services) {m : Method}
    (method : m ∈ node.methods) : ∀ id ∈ m.emits, id ∈ s.eventIds := by
  intro id emitted
  have offered : id ∈ s.services.flatMap fun v => v.subscriptions ++ v.methods.flatMap (·.emits) :=
    List.mem_flatMap.2 ⟨node, member,
      List.mem_append_right _ (List.mem_flatMap.2 ⟨m, method, emitted⟩)⟩
  simp only [eventIds, List.mem_append]
  exact .inl (.inl (.inr offered))

theorem subscriptions_listed {node : Service} (member : node ∈ s.services) :
    ∀ id ∈ node.subscriptions, id ∈ s.eventIds := by
  intro id subscribed
  have offered : id ∈ s.services.flatMap fun v => v.subscriptions ++ v.methods.flatMap (·.emits) :=
    List.mem_flatMap.2 ⟨node, member, List.mem_append_left _ subscribed⟩
  simp only [eventIds, List.mem_append]
  exact .inl (.inl (.inr offered))

end Schema

open Schema

variable {d : Document} {s : Schema} {node : Schema.Service} {decl : String × Document.Service}

/-! ## The parts of a contract -/

namespace Contract

theorem mirrors_method (form : s.WellFormed) (member : node ∈ s.services) {m : Schema.Method}
    (method : m ∈ node.methods) :
    Method.Mirrors s ⟨m.name, m.kind, s.eventNames m.emits⟩ m := by
  have distinct := ((form.eachService node member).each m method).emits
  obtain ⟨emits, once⟩ := form.eventNames (emits_listed member method) distinct
  exact ⟨rfl, rfl, emits, once⟩

theorem mirrors_ofService (keyed : d.Keyed) (form : s.WellFormed) (reflects : s.Reflects d)
    (member : node ∈ s.services) : (ofService s node).Mirrors s node where
  name := rfl
  events := by
    refine ⟨rfl, ?_⟩
    have same : (ofService s node).events = names d.eventDecls :=
      map_eq_of_forall₂ reflects.events fun e decl named => named.1
    rw [same]
    exact keyed.events
  subscriptions := by
    refine form.eventNames (subscriptions_listed member) ?_
    rw [(form.eachService node member).subscriptions]
    exact nodup_eraseDups _
  methods := by
    constructor
    · exact List.forall₂_map_left_iff.2
        (List.forall₂_same.2 fun m method => mirrors_method form member method)
    · have same : (ofService s node).methods.map (·.name) = node.methods.map (·.name) :=
        List.map_map
      rw [same]
      exact (form.eachService node member).methods

/-! ## What a contract says -/

/-- The methods of a contract are those that the document declares. -/
theorem methods_ofService (reflects : node.Reflects s decl) :
    (ofService s node).methods =
      decl.2.methodDecls.map fun m => ⟨m.1, methodKind m.2, m.2.emits⟩ := by
  refine map_eq_of_forall₂ reflects.methods fun m decl' reflects' => ?_
  rw [reflects'.name, reflects'.kind, eventNames_of_map reflects'.emits]

theorem emits_ofService (reflects : node.Reflects s decl)
    (keyed : (names decl.2.methodDecls).Nodup) :
    ∀ m ∈ decl.2.methodDecls, ∃ method, (ofService s node).method? m.1 = some method ∧
      ∀ event, method.mayEmit event ↔ event ∈ m.2.emits := by
  intro m declared
  refine ⟨⟨m.1, methodKind m.2, m.2.emits⟩, ?_, fun event => List.contains_iff_mem⟩
  have found : decl.2.methodDecls.find? (·.1 == m.1) = some m := find?_key keyed declared
  rw [method?, methods_ofService reflects, List.find?_map, Function.comp_def, found]
  rfl

/-- The projections that a service keeps, one by one with what the document declares. -/
theorem kept_projection (reflects : s.Reflects d) (kept : node.Reflects s decl) {id : ProjectionId}
    (listed : id ∈ node.projections) :
    ∃ p p', s.projection? id = some p ∧ p' ∈ d.projectionDecls ∧ p.Reflects s p' ∧
      p'.1 ∈ decl.2.projections := by
  have named : s.projectionName? id ∈ decl.2.projections.map some :=
    kept.projections ▸ List.mem_map_of_mem listed
  obtain ⟨name, declared, same⟩ := List.mem_map.1 named
  obtain ⟨p, found, rfl⟩ := Option.map_eq_some_iff.1 same.symm
  obtain ⟨p', decl', reflects'⟩ :=
    exists_mem_of_forall₂ reflects.projections p (mem_of_projection? found)
  exact ⟨p, p', found, decl', reflects', reflects'.name ▸ declared⟩

/-- Every projection that a service keeps by the document is kept. -/
theorem projection_kept (keyed : d.Keyed) (reflects : s.Reflects d) (kept : node.Reflects s decl)
    {p' : String × Document.Projection} (declared : p' ∈ d.projectionDecls)
    (listed : p'.1 ∈ decl.2.projections) :
    ∃ id ∈ node.projections, ∃ p, s.projection? id = some p ∧ p.Reflects s p' := by
  obtain ⟨id, member, named⟩ := (mem_of_map_some kept.projections).1 listed
  obtain ⟨p, found, name⟩ := Option.map_eq_some_iff.1 named
  obtain ⟨p'', declared', reflects'⟩ :=
    exists_mem_of_forall₂ reflects.projections p (mem_of_projection? found)
  have same : p'' = p' := List.inj_on_of_nodup_map keyed.projections declared' declared
    (reflects'.name.symm.trans name)
  exact ⟨id, member, p, found, same ▸ reflects'⟩

/-- The events that a projection needs, by the document. -/
theorem needed_by_projection {p : Schema.Projection} {p' : String × Document.Projection}
    (reflects : p.Reflects s p') (event : String) :
    (∃ id ∈ p.subscriptions, s.eventName? id = some event) ↔
      p'.2.createOn = event ∨ ∃ t ∈ p'.2.transitionDecls, t.1 = event ∧ t.2 ≠ [] := by
  constructor
  · rintro ⟨id, subscribed, named⟩
    rcases List.mem_cons.1 subscribed with rfl | trigger
    · exact .inl (Option.some.inj (reflects.createOn.symm.trans named))
    · obtain ⟨t, listed, rfl⟩ := List.mem_map.1 trigger
      obtain ⟨t', filled, named', _⟩ := exists_mem_of_forall₂ reflects.transitions t listed
      obtain ⟨declared, nonempty⟩ := List.mem_filter.1 filled
      have same := Option.some.inj (named'.symm.trans named)
      exact .inr ⟨t', declared, same, of_decide_eq_true nonempty⟩
  · rintro (rfl | ⟨t', declared, rfl, nonempty⟩)
    · exact ⟨p.createOn, List.mem_cons_self, reflects.createOn⟩
    · have filled : t' ∈ p'.2.transitionDecls.filter (·.2 ≠ []) :=
        List.mem_filter.2 ⟨declared, decide_eq_true nonempty⟩
      obtain ⟨t, listed, named, _⟩ := exists_mem_of_forall₂_right reflects.transitions t' filled
      exact ⟨t.1, List.mem_cons_of_mem _ (List.mem_map_of_mem listed), named⟩

theorem subscribes_ofService (keyed : d.Keyed) (form : s.WellFormed) (reflects : s.Reflects d)
    (member : node ∈ s.services) (kept : node.Reflects s decl) (event : String) :
    (ofService s node).subscribesTo event ↔ decl.2.Needs d event := by
  have subscriptions : (ofService s node).subscribesTo event ↔
      ∃ id ∈ node.subscriptions, s.eventName? id = some event := by
    rw [subscribesTo, List.contains_iff_mem]
    exact List.mem_filterMap
  rw [subscriptions, (form.eachService node member).subscriptions]
  simp only [List.mem_eraseDups, needed, List.mem_flatMap, List.mem_filterMap]
  constructor
  · rintro ⟨id, ⟨p, ⟨number, listed, found⟩, subscribed⟩, named⟩
    obtain ⟨p₁, p', found', declared, reflects', stays⟩ := kept_projection reflects kept listed
    cases found.symm.trans found'
    exact ⟨p', declared, stays, (needed_by_projection reflects' event).1 ⟨id, subscribed, named⟩⟩
  · rintro ⟨p', declared, stays, needed⟩
    obtain ⟨number, listed, p, found, reflects'⟩ :=
      projection_kept keyed reflects kept declared stays
    obtain ⟨id, subscribed, named⟩ := (needed_by_projection reflects' event).2 needed
    exact ⟨id, ⟨p, ⟨number, listed, found⟩, subscribed⟩, named⟩

theorem tells_ofService (keyed : d.Keyed) (form : s.WellFormed) (reflects : s.Reflects d)
    (member : node ∈ s.services) (declared : decl ∈ d.serviceDecls) (kept : node.Reflects s decl) :
    (ofService s node).Tells d decl.2 where
  emits := emits_ofService kept (keyed.methods decl declared)
  subscribes := subscribes_ofService keyed form reflects member kept
  syncs := by
    rintro W P E ε service clock log ctx accepts moves v contract reads leads
    refine (Service.synced_of_leads reads leads).congr fun event => ?_
    rw [contract]
    exact subscribes_ofService keyed form reflects member kept event

theorem ofSchema_eq (keyed : d.Keyed) (reflects : s.Reflects d) (member : node ∈ s.services) :
    ofSchema s node.name = .ok (ofService s node) := by
  have distinct : (s.services.map (·.name)).Nodup := by
    have same : s.services.map (·.name) = names d.serviceDecls :=
      map_eq_of_forall₂ reflects.services fun v decl kept => kept.name
    rw [same]
    exact keyed.services
  rw [ofSchema, find?_key distinct member]

end Contract

/-- Every service that a document declares has a contract in the compiled schema.  It has the
methods, the events that these emit and the subscriptions of the compiled service, in their
order, and it says of them what the document declares.  A service that synchronizes under the
contract applies exactly the events that its projections need by the document, among the entries
that it has not taken in yet, and moves on past all of these. -/
theorem contracts_tell_document (keyed : d.Keyed) {c : Compiler} {raw : String}
    (ok : c.compileDocument raw d = .ok s) :
    List.Forall₂ (fun node decl => Contract.ofSchema s decl.1 = .ok (Contract.ofService s node) ∧
      (Contract.ofService s node).Mirrors s node ∧ (Contract.ofService s node).Tells d decl.2)
      s.services d.serviceDecls := by
  have compiled := compiled_of_ok keyed ok
  have form := wellFormed keyed compiled
  have said := reflects compiled
  obtain ⟨lengths, each⟩ := List.forall₂_iff_zip.1 said.services
  refine List.forall₂_iff_zip.2 ⟨lengths, fun {node decl} beside => ?_⟩
  obtain ⟨member, declared⟩ := List.of_mem_zip beside
  have kept := each beside
  refine ⟨?_, Contract.mirrors_ofService keyed form said member,
    Contract.tells_ofService keyed form said member declared kept⟩
  rw [← kept.name]
  exact Contract.ofSchema_eq keyed said member

/-! ## The keeper of a gate -/

def Gates.declared : Document.Service :=
  ⟨["Gate"], some [("Close", some ⟨some "Name", none, none, ["Closed"]⟩)]⟩

/-- The contract of the gates says what their document says, and the keeper, who has an event of
his own besides, has taken in the one entry that there is. -/
theorem keeper_follows_contract :
    Contract.ofSchema gateSchema "Gates" = .ok (Gates.services false).contract ∧
    (Gates.services false).contract.Tells (gate ["Open -> Shut"] ["Closed"]) Gates.declared ∧
    ∃ moves v, v.text = "1" ∧ (Gates.services false).Synced Commons.logPart
      (Gates.declared.Needs (gate ["Open -> Shut"] ["Closed"])) moves v := by
  have contracts := contracts_tell_document (keyed_gate _ _) compiled_gate
  rcases contracts with _ | ⟨⟨made, _, tells⟩, _⟩
  refine ⟨made, tells, ?_⟩
  obtain ⟨_, moves, result, ended, saw⟩ := Gates.keeper_looked
  have leads := Pool.leads_of_reachable Gates.reachable_watched _ ended
  match result, saw, leads with
  | .ok v, saw, leads =>
      exact ⟨moves, v, of_decide_eq_true saw,
        tells.syncs rfl (Log.Memory.readsFrom_eventLog 3) leads⟩

end EventSourcing
