import EventSourcing.Proofs.Schema.Mentions
import EventSourcing.Proofs.Schema.Rules

/-!
# Proofs.Schema.Walk -- what the walk of a document comes to

A step of the walk ends at the first violation that the rules find at its places, and if
there is none it gives what the outline gives there (`verdict`).  One statement for each
step, up to the three sections of a document (`run_events`, `run_projections`,
`run_services`).
-/

namespace EventSourcing.Schema

set_option autoImplicit false

open EventSourcing.Document (names)

/-- What comes of a step that finds some violations, and gives `a` if it finds none. -/
def verdict {α : Type} (found : List Error) (a : α) : Except Error α :=
  match found with
  | [] => .ok a
  | e :: _ => .error e

namespace Compile

variable {α β : Type} {d d' : Draft} {a : α} {r : β × Draft} {V W : List Error}
variable {types : List TypeRef} {ms : List Mention}

/-! ## Steps in a row -/

theorem run_bind {m : Compile α} {f : α → Compile β} (first : m.run d = verdict V (a, d'))
    (next : V = [] → (f a).run d' = verdict W r) : (m >>= f).run d = verdict (V ++ W) r := by
  rw [StateT.run_bind, first]
  cases V with
  | nil => exact next rfl
  | cons e rest => rfl

/-- A step that begins with a look at the draft. -/
theorem run_get (f : Draft → Compile α) : ((get : Compile Draft) >>= f).run d = (f d).run d :=
  rfl

/-- A step that finds nothing. -/
theorem run_step {m : Compile α} {f : α → Compile β} (first : m.run d = .ok (a, d'))
    (next : (f a).run d' = verdict W r) : (m >>= f).run d = verdict W r :=
  run_bind (V := []) first fun _ => next

/-- A demand is made before the next step. -/
theorem run_demand {c p : Prop} [Decidable c] [Decidable p] {k : Unit → Compile β}
    {place : NodePath} {what : Contradiction} (broken : c ↔ ¬ p)
    (next : p → (k ()).run d = verdict W r) :
    (if c then contradictory place what >>= k else k ()).run d =
      verdict (Rules.demand p (.contradictory place what) ++ W) r := by
  by_cases holds : p
  · rw [if_neg (by rw [broken]; exact not_not_intro holds), Rules.demand, if_pos holds]
    exact next holds
  · rw [if_pos (broken.2 holds), Rules.demand, if_neg holds]
    rfl

/-! ## Looking up -/

theorem position?_eq {ν κ : Type} [DecidableEq κ] (key : ν → κ) (items : List ν) (name : κ) :
    position? (fun x => key x == name) items =
      if name ∈ items.map key then some ((items.map key).idxOf name) else none := by
  have same : position? (fun x => key x == name) items =
      (items.map key).findIdx? (· == name) := by
    rw [List.findIdx?_map]
    rfl
  rw [same]
  split
  · rename_i present
    rw [List.findIdx?_eq_some_iff_findIdx_eq]
    exact ⟨List.idxOf_lt_length_iff.2 present, rfl⟩
  · rename_i absent
    rw [List.findIdx?_eq_none_iff]
    intro x member
    exact beq_false_of_ne fun same => absent (same ▸ member)

theorem run_checkName {place : NodePath} {what : Named} {rule : Name.Rule} {name : String} :
    (checkName place what rule name).run d =
      verdict (Rules.name place what rule name) ((), d) := by
  unfold checkName Rules.name
  cases Name.check rule name with
  | ok _ => rfl
  | error defect => rfl

theorem run_event {events : List String} (known : d.events.map (·.name) = events)
    {place : NodePath} {name : String} :
    (event place name).run d =
      verdict (Rules.defined events place name) (eventNumber events name, d) := by
  refine run_step (rfl : (get : Compile Draft).run d = .ok (d, d)) ?_
  rw [Draft.eventId?, position?_eq, known, Rules.defined, Rules.demand]
  by_cases present : name ∈ events
  · rw [if_pos present, if_pos present]
    rfl
  · rw [if_neg present, if_neg present]
    rfl

theorem run_typeId (r : TypeRef) :
    (typeId r).run d =
      let types := if r ∈ d.types then d.types else d.types ++ [r]
      .ok (⟨types.idxOf r⟩, { d with types }) := by
  rw [typeId, run_get]
  by_cases present : r ∈ d.types
  · have found : position? (· == r) d.types = some (d.types.idxOf r) := by
      rw [position?, List.findIdx?_eq_some_iff_findIdx_eq]
      exact ⟨List.idxOf_lt_length_iff.2 present, rfl⟩
    rw [found, if_pos present]
    rfl
  · have missing : position? (· == r) d.types = none := by
      rw [position?, List.findIdx?_eq_none_iff]
      intro x member
      exact beq_false_of_ne fun same => present (same ▸ member)
    have last : (d.types ++ [r]).idxOf r = d.types.length := by
      rw [List.idxOf_append, if_neg present, List.idxOf_cons_self, Nat.zero_add]
    rw [missing, if_neg present]
    dsimp only
    rw [last]
    rfl

theorem run_nameType {place : NodePath} {text : String} {referrer : Place}
    (within : Within types d (referenceMentions text referrer)) :
    (nameType place text referrer).run d =
      verdict (Rules.reference place text)
        (typeNumber types text, d.mentioned (referenceMentions text referrer)) := by
  unfold nameType Rules.reference
  unfold Within at within
  cases parsed : TypeRef.parse text with
  | error defect => rfl
  | ok r =>
      refine run_step (run_typeId r) ?_
      simp only [referenceMentions, parsed] at within ⊢
      rw [typeNumber_of_parse parsed, ← within.idxOf_eq_of_mem (mem_types_mention r referrer)]
      rfl

/-! ## Lists of declarations -/

/-- A last step that finds nothing. -/
theorem run_last {m : Compile α} {f : α → Compile β} (first : m.run d = verdict V (a, d'))
    (last : (f a).run d' = .ok r) : (m >>= f).run d = verdict V r := by
  rw [← List.append_nil V]
  exact run_bind first fun _ => last

/-- A last step that only puts together what there is. -/
theorem run_map {m : Compile α} {f : α → β} (first : m.run d = verdict V (a, d')) :
    (m >>= fun x => pure (f x)).run d = verdict V (f a, d') :=
  run_last first rfl

/-- Steps for the items of a list, if nothing but mentions makes a difference between them. -/
theorem run_mapM {ξ η : Type} {f : ξ → Compile η} {found : ξ → List Error} {node : ξ → η}
    {ms : ξ → List Mention} (known : Draft → Prop)
    (kept : ∀ {d} ms, known d → known (d.mentioned ms))
    (each : ∀ {d} x, known d → Within types d (ms x) →
      (f x).run d = verdict (found x) (node x, d.mentioned (ms x)))
    (xs : List ξ) (now : known d) (within : Within types d (xs.flatMap ms)) :
    (xs.mapM f).run d = verdict (xs.flatMap found) (xs.map node, d.mentioned (xs.flatMap ms)) := by
  induction xs generalizing d with
  | nil => rfl
  | cons x rest ih =>
      rw [List.flatMap_cons] at within
      rw [List.mapM_cons, List.flatMap_cons, List.flatMap_cons, mentioned_append]
      refine run_bind (each x now within.left) fun _ => ?_
      exact run_map (ih (kept (ms x) now) within.right)

theorem run_properties {path : NodePath} {place : String → Place}
    {decls : Document.Named Document.Property}
    (within : Within types d (propertyMentions place decls)) :
    (properties path place decls).run d =
      verdict (Rules.properties path decls)
        (propertyNodes types decls, d.mentioned (propertyMentions place decls)) := by
  refine run_mapM (fun _ => True) (fun _ _ => trivial) ?_ decls trivial within
  rintro d ⟨key, p⟩ _ within
  exact run_bind run_checkName fun _ => run_map (run_nameType within)

/-! ## Projections -/

theorem run_statesFrom {path : NodePath} (before : List String) {rest : List String} :
    (statesFrom path before.length before rest).run d =
      verdict (Rules.inTurn (Rules.state path) before rest) (before ++ rest, d) := by
  induction rest generalizing before with
  | nil => rw [List.append_nil]; rfl
  | cons state rest ih =>
      rw [Rules.inTurn, Rules.state, List.append_assoc]
      refine run_bind run_checkName fun _ => run_demand (by simp) fun _ => ?_
      have next := ih (before ++ [state])
      rw [List.length_append, List.append_assoc] at next
      exact next

theorem run_states {path : NodePath} {names : List String} :
    (states path names).run d = verdict (Rules.states path names) (names, d) := by
  unfold states
  exact run_demand (by simp) fun _ => run_statesFrom []

theorem transition?_eq_some_iff {expression : String} {t : Transition} :
    transition? expression = some t ↔ Text.words expression = [t.source, "->", t.target] := by
  unfold transition?
  split
  · rename_i source target shape
    rw [shape]
    constructor
    · intro same
      cases same
      rfl
    · intro same
      cases t
      simp_all
  · rename_i other
    simp only [reduceCtorEq, false_iff]
    exact other _ _

theorem expression_of_none {expression : String} (shapeless : transition? expression = none)
    {path : NodePath} {states before : List String} :
    Rules.expression path states before expression =
      [.malformed (path.item before.length) (.transition expression)] := by
  unfold Rules.expression
  split
  · rename_i source target shape
    cases shapeless.symm.trans (transition?_eq_some_iff (t := ⟨source, target⟩).2 shape)
  · rfl

theorem expression_of_some {expression : String} {t : Transition}
    (shape : transition? expression = some t) {path : NodePath} {states before : List String} :
    Rules.expression path states before expression =
      Rules.demand (t.source ∈ states) (.contradictory path (.undefinedState .source t.source)) ++
        Rules.demand (t.target ∈ states) (.contradictory path (.undefinedState .target t.target)) ++
        Rules.demand (∀ e ∈ before, Text.words e ≠ [t.source, "->", t.target])
          (.contradictory path (.duplicateTransition t.source t.target)) := by
  have words := transition?_eq_some_iff.1 shape
  unfold Rules.expression
  split
  · rename_i source target same
    cases t
    cases words.symm.trans same
    rfl
  · rename_i other
    exact absurd words (other t.source t.target)

theorem run_transitionsFrom {path : NodePath} {i : Nat} {id : EventId}
    {states : List String} (before : List String) {rest : List String} :
    (transitionsFrom path ⟨i⟩ id states before.length (before.filterMap transition?) rest).run d =
      verdict (Rules.inTurn (Rules.expression path states) before rest)
        ((before ++ rest).filterMap transition?,
          d.mentioned ((List.range' before.length rest.length).map fun k =>
            .event id (.transition ⟨i⟩ k))) := by
  induction rest generalizing d before with
  | nil => rw [List.append_nil]; rfl
  | cons e rest ih =>
      rw [Rules.inTurn, transitionsFrom]
      cases shape : transition? e with
      | none =>
          rw [expression_of_none shape]
          rfl
      | some t =>
          have fresh : (before.filterMap transition?).contains t = true ↔
              ¬ ∀ e ∈ before, Text.words e ≠ [t.source, "->", t.target] := by
            simp [List.mem_filterMap, transition?_eq_some_iff]
          rw [expression_of_some shape, List.append_assoc, List.append_assoc]
          refine run_demand (by simp) fun _ => run_demand (by simp) fun _ =>
            run_demand fresh fun _ => run_step rfl ?_
          have next := ih (d := d.mention (.event id (.transition ⟨i⟩ before.length)))
            (before ++ [e])
          rw [List.length_append, List.append_assoc, List.filterMap_append,
            List.filterMap_cons_some shape] at next
          exact next

variable {events : List String}

theorem known_mentioned (known : d.events.map (·.name) = events) (ms : List Mention) :
    (d.mentioned ms).events.map (·.name) = events := by
  rw [events_mentioned]
  exact known

theorem run_transitions {path : NodePath} {i : Nat} {states : List String}
    {decls : Document.Named (List String)} (known : d.events.map (·.name) = events)
    (within : Within types d (transitionMentions events i decls)) :
    (transitions path ⟨i⟩ states decls).run d =
      verdict (Rules.transitions path events states decls)
        ((transitionNodes events decls).filter fun t => !t.2.isEmpty,
          d.mentioned (transitionMentions events i decls)) := by
  refine run_map (run_mapM (fun d => d.events.map (·.name) = events)
    (fun ms known => known_mentioned known ms) ?_ decls known within)
  rintro d ⟨event, expressions⟩ known _
  refine run_bind (run_event known) fun _ => run_map ?_
  dsimp only
  rw [List.range_eq_range']
  exact run_transitionsFrom []

/-- What is known of transitions that break no rule. -/
theorem sound_transitions {path : NodePath} {states : List String}
    {decls : Document.Named (List String)}
    (found : Rules.transitions path events states decls = []) :
    ∀ t ∈ decls, t.1 ∈ events ∧ ∀ e ∈ t.2, ∃ step, transition? e = some step := by
  rintro ⟨event, expressions⟩ member
  obtain ⟨defined, turns⟩ := List.append_eq_nil_iff.1 (List.flatMap_eq_nil_iff.1 found _ member)
  refine ⟨Rules.demand_eq_nil.1 defined, fun e inside => ?_⟩
  obtain ⟨before, sound⟩ := Rules.inTurn_eq_nil turns e inside
  cases shape : transition? e with
  | none =>
      rw [expression_of_none shape] at sound
      cases sound
  | some step => exact ⟨step, rfl⟩

theorem eventNumber_inj {a b : String} (present : a ∈ events)
    (same : eventNumber events a = eventNumber events b) : a = b :=
  (List.idxOf_inj present).1 (congrArg EventId.index same)

/-- An event has transitions if it is declared with a list of them that is not empty. -/
theorem lookup_transitionNodes {path : NodePath} {states : List String}
    {decls : Document.Named (List String)} {event : String}
    (found : Rules.transitions path events states decls = []) :
    (((transitionNodes events decls).filter fun t => !t.2.isEmpty).lookup
        (eventNumber events event)).isSome = true ↔
      ¬ ∀ t ∈ decls, t.1 = event → t.2 = [] := by
  have sound := sound_transitions found
  rw [List.lookup_isSome_iff]
  constructor
  · rintro ⟨node, member, same⟩ vacant
    obtain ⟨listed, filled⟩ := List.mem_filter.1 member
    obtain ⟨⟨name, expressions⟩, declared, rfl⟩ := List.mem_map.1 listed
    have equal := eventNumber_inj (sound _ declared).1 (beq_iff_eq.1 same).symm
    have empty : expressions = [] := vacant _ declared equal
    rw [empty] at filled
    cases filled
  · intro nonempty
    simp only [not_forall] at nonempty
    obtain ⟨⟨name, expressions⟩, declared, rfl, filled⟩ := nonempty
    refine ⟨_, List.mem_filter.2 ⟨List.mem_map_of_mem declared, ?_⟩, beq_self_eq_true _⟩
    obtain ⟨e, rest, rfl⟩ := List.exists_cons_of_ne_nil filled
    obtain ⟨step, shape⟩ := (sound _ declared).2 e List.mem_cons_self
    dsimp only
    rw [List.filterMap_cons_some shape]
    rfl

theorem run_projection {path : NodePath} {key : String} {decl : Document.Projection}
    (known : d.events.map (·.name) = events)
    (within : Within types d (projectionMentions events decl d.projections.length)) :
    (projection path key decl).run d =
      verdict (Rules.projection events path key decl)
        ((), (d.mentioned (projectionMentions events decl d.projections.length)).addProjections
          [projectionNode events types key decl d.projections.length]) := by
  unfold projection Rules.projection
  simp only [List.append_assoc]
  refine run_bind run_checkName fun _ => run_step rfl ?_
  refine run_bind run_states fun _ => run_bind (run_properties within.left) fun _ => ?_
  refine run_bind (run_event (known_mentioned known _)) fun _ => run_step rfl ?_
  refine run_bind (run_transitions (known_mentioned known _) within.right) fun sound => ?_
  rw [← List.append_nil (Rules.demand _ _), projectionMentions, mentioned_append]
  exact run_demand (lookup_transitionNodes sound) fun _ => rfl

/-! ## Services -/

theorem projectionNumber_inj {projections : List String} {a b : String}
    (present : a ∈ projections)
    (same : projectionNumber projections a = projectionNumber projections b) : a = b :=
  (List.idxOf_inj present).1 (congrArg ProjectionId.index same)

/-- A name is repeated if its number is. -/
theorem contains_map {ν : Type} [BEq ν] [LawfulBEq ν] {number : String → ν} {name : String}
    {before : List String} (distinct : ∀ other, number name = number other → name = other) :
    (before.map number).contains (number name) = true ↔ ¬ name ∉ before := by
  rw [List.contains_iff_mem, List.mem_map, not_not]
  constructor
  · rintro ⟨other, member, same⟩
    exact distinct other same.symm ▸ member
  · exact fun member => ⟨name, member, rfl⟩

theorem run_projectionIdsFrom {path : NodePath} {projections : List String}
    (before : List String) {rest : List String} (known : d.projections.map (·.name) = projections) :
    (projectionIdsFrom path before.length (before.map (projectionNumber projections)) rest).run d =
      verdict (Rules.inTurn (Rules.entry path projections) before rest)
        ((before ++ rest).map (projectionNumber projections), d) := by
  induction rest generalizing before with
  | nil => rw [List.append_nil]; rfl
  | cons p rest ih =>
      rw [Rules.inTurn, projectionIdsFrom, Rules.entry, List.append_assoc]
      refine run_step (rfl : (get : Compile Draft).run d = .ok (d, d)) ?_
      rw [Draft.projectionId?, position?_eq, known, Rules.demand]
      by_cases present : p ∈ projections
      · rw [if_pos present, if_pos present]
        refine run_demand (contains_map fun _ => projectionNumber_inj present) fun _ => ?_
        have next := ih (before ++ [p])
        rw [List.length_append, List.append_assoc, List.map_append] at next
        exact next
      · rw [if_neg present, if_neg present]
        rfl

theorem run_emitsFrom {path : NodePath} {place : Place} (before : List String)
    {rest : List String} (known : d.events.map (·.name) = events) :
    (emitsFrom path place before.length (before.map (eventNumber events)) rest).run d =
      verdict (Rules.inTurn (Rules.emit path events) before rest)
        ((before ++ rest).map (eventNumber events),
          d.mentioned (rest.map fun e => .event (eventNumber events e) place)) := by
  induction rest generalizing d before with
  | nil => rw [List.append_nil]; rfl
  | cons e rest ih =>
      rw [Rules.inTurn, emitsFrom, Rules.emit, List.append_assoc]
      refine run_bind (run_event known) fun defined => ?_
      have present : e ∈ events := Rules.demand_eq_nil.1 defined
      refine run_demand (contains_map fun _ => eventNumber_inj present) fun _ => run_step rfl ?_
      have next := ih (d := d.mention (.event (eventNumber events e) place)) (before ++ [e]) known
      rw [List.length_append, List.append_assoc, List.map_append] at next
      exact next

theorem run_classify {path : NodePath} {decl : Document.Method} :
    (classify path decl.kind (!(decl.emits.map (eventNumber events)).isEmpty)).run d =
      verdict (Rules.methodType path decl.kind decl.emits) (methodKind decl, d) := by
  rw [List.isEmpty_map, methodKind]
  unfold classify Rules.methodType
  cases decl.kind with
  | none => cases decl.emits <;> rfl
  | some word =>
      dsimp only [Option.getD_some, Option.bind_some]
      by_cases blank : word = ""
      · subst blank
        cases decl.emits <;> rfl
      · rw [if_neg blank, if_neg blank]
        cases Method.Kind.parse? word with
        | none => rfl
        | some kind => cases kind <;> cases decl.emits <;> rfl

/-- A reference that may be left out. -/
theorem run_reference {place : NodePath} {referrer : Place} {text : Option String}
    (within : Within types d (text.toList.flatMap (referenceMentions · referrer))) :
    (text.mapM fun r => nameType place r referrer).run d =
      verdict (text.toList.flatMap (Rules.reference place))
        (text.map (typeNumber types),
          d.mentioned (text.toList.flatMap (referenceMentions · referrer))) := by
  cases text with
  | none => rfl
  | some r =>
      rw [Option.toList_some, List.flatMap_singleton] at within ⊢
      rw [List.flatMap_singleton]
      exact run_map (run_nameType within)

theorem run_method {path : NodePath} {i : Nat} {key : String} {decl : Document.Method}
    (known : d.events.map (·.name) = events)
    (within : Within types d (methodMentions events i key decl)) :
    (method ⟨i⟩ path key decl).run d =
      verdict (Rules.method events path key decl)
        (methodNode events types key decl, d.mentioned (methodMentions events i key decl)) := by
  unfold method Rules.method
  rw [methodMentions, List.append_assoc] at within ⊢
  simp only [List.append_assoc]
  refine run_bind run_checkName fun _ => run_bind (run_reference within.left) fun _ => ?_
  refine run_bind (run_reference within.right.left) fun _ => ?_
  have known' := known_mentioned (known_mentioned known
    (decl.input.toList.flatMap (referenceMentions · (.input ⟨i⟩ key))))
    (decl.output.toList.flatMap (referenceMentions · (.output ⟨i⟩ key)))
  refine run_bind (run_emitsFrom [] known') fun _ => ?_
  rw [mentioned_append, mentioned_append]
  exact run_map run_classify

theorem run_methods {path : NodePath} {i : Nat} {decl : Document.Service}
    (known : d.events.map (·.name) = events)
    (within : Within types d (serviceMentions events decl i)) :
    ((decl.methods.getD []).mapM fun ((key, m) : String × Option Document.Method) =>
        method ⟨i⟩ (path.child key) key (m.getD .empty)).run d =
      verdict (decl.methodDecls.flatMap fun (key, m) => Rules.method events (path.child key) key m)
        (decl.methodDecls.map fun (key, m) => methodNode events types key m,
          d.mentioned (serviceMentions events decl i)) := by
  have each {d : Draft} (m : String × Document.Method) (known : d.events.map (·.name) = events)
      (within : Within types d (methodMentions events i m.1 m.2)) :
      (method ⟨i⟩ (path.child m.1) m.1 m.2).run d = _ :=
    run_method known within
  have all := run_mapM (fun d => d.events.map (·.name) = events)
    (fun ms known => known_mentioned known ms) each decl.methodDecls known within
  unfold Document.Service.methodDecls at all
  rw [List.mapM_map] at all
  exact all

theorem run_service {path : NodePath} {projections : List String} {compiled : List Projection}
    {key : String} {decl : Document.Service} (known : d.events.map (·.name) = events)
    (declared : d.projections.map (·.name) = projections) (all : d.projections = compiled)
    (within : Within types d (serviceMentions events decl d.services.length)) :
    (service path key decl).run d =
      verdict (Rules.service events projections path key decl)
        ((), (d.mentioned (serviceMentions events decl d.services.length)).addServices
          [serviceNode events projections types compiled key decl d.services.length]) := by
  unfold service Rules.service
  simp only [List.append_assoc]
  refine run_bind run_checkName fun _ => run_step rfl ?_
  refine run_bind (run_projectionIdsFrom [] declared) fun _ => ?_
  refine run_demand (by simp [Document.Service.methodDecls]) fun _ => ?_
  rw [← List.append_nil (decl.methodDecls.flatMap _)]
  refine run_bind (run_methods known within) fun _ => run_step rfl ?_
  have same := (projections_mentioned (d := d)
    (serviceMentions events decl d.services.length)).trans all
  rw [← same]
  rfl

/-! ## Sections -/

/-- A way to add nodes to a draft that does not interfere with mentions. -/
structure Adds {ν : Type} (add : Draft → List ν → Draft) (size : Draft → Nat) : Prop where
  nil (d : Draft) : add d [] = d
  append (d : Draft) (xs ys : List ν) : add (add d xs) ys = add d (xs ++ ys)
  mention (d : Draft) (xs : List ν) (m : Mention) :
    (add d xs).mention m = add (d.mention m) xs
  types (d : Draft) (xs : List ν) : (add d xs).types = d.types
  size_add (d : Draft) (xs : List ν) : size (add d xs) = size d + xs.length
  size_mention (d : Draft) (m : Mention) : size (d.mention m) = size d

theorem adds_events : Adds Draft.addEvents fun d => d.events.length where
  nil d := by simp [Draft.addEvents]
  append d xs ys := by simp [Draft.addEvents]
  mention d xs m := by cases m <;> rfl
  types _ _ := rfl
  size_add _ _ := List.length_append
  size_mention d m := by cases m <;> rfl

theorem adds_projections : Adds Draft.addProjections fun d => d.projections.length where
  nil d := by simp [Draft.addProjections]
  append d xs ys := by simp [Draft.addProjections]
  mention d xs m := by cases m <;> rfl
  types _ _ := rfl
  size_add _ _ := List.length_append
  size_mention d m := by cases m <;> rfl

theorem adds_services : Adds Draft.addServices fun d => d.services.length where
  nil d := by simp [Draft.addServices]
  append d xs ys := by simp [Draft.addServices]
  mention d xs m := by cases m <;> rfl
  types _ _ := rfl
  size_add _ _ := List.length_append
  size_mention d m := by cases m <;> rfl

section Sections

variable {ξ ν : Type} {add : Draft → List ν → Draft} {size : Draft → Nat}

theorem Adds.mentioned (adds : Adds add size) (xs : List ν) :
    (add d xs).mentioned ms = add (d.mentioned ms) xs := by
  induction ms generalizing d with
  | nil => rfl
  | cons m rest ih => exact (congrArg (Draft.mentioned · rest) (adds.mention d xs m)).trans ih

theorem Adds.size_mentioned (adds : Adds add size) : size (d.mentioned ms) = size d := by
  induction ms generalizing d with
  | nil => rfl
  | cons m rest ih => exact ih.trans (adds.size_mention d m)

theorem Adds.within (adds : Adds add size) {xs : List ν} (before : Within types d ms) :
    Within types (add d xs) ms := by
  rw [Within, adds.mentioned, adds.types]
  exact before

/-- The declarations of a section.  Each adds a node and is numbered by those before it. -/
theorem run_forM (adds : Adds add size) (xs : List ξ) {f : ξ → Compile Unit}
    {found : ξ → List Error} (node : ξ → Nat → ν) (mentions : ξ → Nat → List Mention)
    (known : Draft → Prop) (kept : ∀ {d} x ms, known d → known (add (d.mentioned ms) [x]))
    (each : ∀ {d i} x, known d → size d = i → Within types d (mentions x i) →
      (f x).run d = verdict (found x) ((), add (d.mentioned (mentions x i)) [node x i]))
    {i : Nat} (now : known d) (first : size d = i)
    (within : Within types d ((xs.zipIdx i).flatMap fun x => mentions x.1 x.2)) :
    (xs.forM f).run d =
      verdict (xs.flatMap found)
        ((), add (d.mentioned ((xs.zipIdx i).flatMap fun x => mentions x.1 x.2))
          ((xs.zipIdx i).map fun x => node x.1 x.2)) := by
  induction xs generalizing d i with
  | nil => exact congrArg (fun d => Except.ok ((), d)) (adds.nil d).symm
  | cons x rest ih =>
      rw [List.zipIdx_cons, List.flatMap_cons] at within ⊢
      rw [List.flatMap_cons, List.map_cons, mentioned_append]
      have second : size (add (d.mentioned (mentions x i)) [node x i]) = i + 1 := by
        rw [adds.size_add, adds.size_mentioned, first, List.length_singleton]
      have next := ih (kept (node x i) (mentions x i) now) second (adds.within within.right)
      rw [adds.mentioned, adds.append] at next
      exact run_bind (each x now first within.left) fun _ => next

end Sections

theorem run_events {decls : Document.Named (Option (Document.Named Document.Property))}
    (first : d.events.length = 0)
    (within : Within types d (decls.zipIdx.flatMap fun e => eventMentions e.1.2 e.2)) :
    (Compile.events decls).run d =
      verdict (Rules.events decls)
        ((), (d.mentioned (decls.zipIdx.flatMap fun e => eventMentions e.1.2 e.2)).addEvents
          (decls.zipIdx.map fun e => eventNode types e.1.1 e.1.2 e.2)) := by
  unfold Compile.events Rules.events
  refine run_demand (by simp) fun _ => ?_
  refine run_forM adds_events decls (fun e => eventNode types e.1 e.2) (fun e => eventMentions e.2)
    (fun _ => True) (fun _ _ _ => trivial) ?_ trivial first within
  rintro d i ⟨key, decl⟩ _ rfl within
  refine run_bind run_checkName fun _ => run_step rfl ?_
  exact run_last (run_properties within) rfl

theorem run_projections {decls : Document.Named Document.Projection}
    (known : d.events.map (·.name) = events) (first : d.projections.length = 0)
    (within : Within types d
      (decls.zipIdx.flatMap fun p => projectionMentions events p.1.2 p.2)) :
    (Compile.projections decls).run d =
      verdict (Rules.projections events decls)
        ((), (d.mentioned
            (decls.zipIdx.flatMap fun p => projectionMentions events p.1.2 p.2)).addProjections
          (decls.zipIdx.map fun p => projectionNode events types p.1.1 p.1.2 p.2)) := by
  unfold Compile.projections
  refine run_forM adds_projections decls (fun p => projectionNode events types p.1 p.2)
    (fun p => projectionMentions events p.2) (fun d => d.events.map (·.name) = events)
    (fun _ ms known => known_mentioned known ms) ?_ known first within
  rintro d i ⟨key, decl⟩ known rfl within
  exact run_projection known within

theorem run_services {decls : Document.Named Document.Service} {projections : List String}
    {compiled : List Projection} (known : d.events.map (·.name) = events)
    (declared : compiled.map (·.name) = projections) (all : d.projections = compiled)
    (first : d.services.length = 0)
    (within : Within types d (decls.zipIdx.flatMap fun s => serviceMentions events s.1.2 s.2)) :
    (Compile.services decls).run d =
      verdict (Rules.services events projections decls)
        ((), (d.mentioned
            (decls.zipIdx.flatMap fun s => serviceMentions events s.1.2 s.2)).addServices
          (decls.zipIdx.map fun s =>
            serviceNode events projections types compiled s.1.1 s.1.2 s.2)) := by
  unfold Compile.services Rules.services
  refine run_demand (by simp) fun _ => ?_
  refine run_forM adds_services decls
    (fun s => serviceNode events projections types compiled s.1 s.2)
    (fun s => serviceMentions events s.2)
    (fun d => d.events.map (·.name) = events ∧ d.projections = compiled)
    (fun _ ms known => ⟨known_mentioned known.1 ms, (projections_mentioned ms).trans known.2⟩)
    ?_ ⟨known, all⟩ first within
  rintro d i ⟨key, decl⟩ ⟨known, all⟩ rfl within
  exact run_service known (all ▸ declared) all within

end Compile

end EventSourcing.Schema
