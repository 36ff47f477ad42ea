import EventSourcing.Proofs.Schema.WellFormed

/-!
# Proofs.Schema.Stepping -- the step that an event makes

A projection may declare several transitions that leave the same state on the same event, as
long as they lead to different ones.  Only the first of them is ever taken.  Main
statement: a compiled projection takes the first declared transition that leaves its state on the
event, so the others are never taken, and where there are no others it takes every declared one
(`next_state_is_first_declared`).
-/

namespace EventSourcing

set_option autoImplicit false

open EventSourcing.Document (names)

/-- Among the transitions that a projection declares on an event, the one at position `k` is from
`source` to `target`. -/
def Document.Projection.Declares (p : Document.Projection) (event : String) (k : Nat)
    (source target : String) : Prop :=
  ∃ expressions e, (event, expressions) ∈ p.transitionDecls ∧ expressions[k]? = some e ∧
    Text.words e = [source, "->", target]

namespace Schema

/-! ## The transitions on an event -/

theorem lookup_eq_some_iff {κ ν : Type} [DecidableEq κ] {entries : List (κ × ν)}
    (distinct : (entries.map Prod.fst).Nodup) {key : κ} {value : ν} :
    entries.lookup key = some value ↔ (key, value) ∈ entries := by
  rw [List.lookup_eq_some_iff]
  constructor
  · rintro ⟨before, after, rfl, -⟩
    exact List.mem_append_right before List.mem_cons_self
  · intro member
    obtain ⟨before, after, rfl⟩ := List.append_of_mem member
    rw [List.map_append] at distinct
    refine ⟨before, after, rfl, fun entry earlier => bne_iff_ne.2 fun same => ?_⟩
    exact List.disjoint_of_nodup_append distinct (List.mem_map_of_mem earlier)
      (same ▸ List.mem_cons_self)

section Lookup

variable {s : Schema} {steps : List (EventId × List Transition)}
  {decls : Document.Named (List String)}

/-- What is found for the number of an event is written under its name. -/
theorem lookup_reflects (form : s.WellFormed)
    (reflects : List.Forall₂ (TriggerReflects s) steps decls) {id : EventId} {event : String}
    (known : s.eventName? id = some event) :
    List.Forall₂ Transition.Reflects ((steps.lookup id).getD [])
      ((decls.lookup event).getD []) := by
  induction reflects with
  | nil => exact .nil
  | @cons t decl _ _ first _ ih =>
      obtain ⟨name, written⟩ := first
      rw [List.lookup_cons, List.lookup_cons]
      by_cases same : id = t.1
      · subst same
        have here : event = decl.1 := Option.some.inj (known.symm.trans name)
        rw [beq_iff_eq.2 rfl, beq_iff_eq.2 here]
        exact written
      · have other : event ≠ decl.1 := by
          rintro rfl
          exact same (form.eventName?_inj (isSome_of_map known) (known.trans name.symm))
        rw [beq_false_of_ne same, beq_false_of_ne other]
        exact ih

theorem lookup_of_unknown (reflects : List.Forall₂ (TriggerReflects s) steps decls) {id : EventId}
    (unknown : s.eventName? id = none) : steps.lookup id = none := by
  induction reflects with
  | nil => rfl
  | @cons t _ _ _ first _ ih =>
      have other : id ≠ t.1 := by
        rintro rfl
        cases unknown.symm.trans first.1
      rw [List.lookup_cons, beq_false_of_ne other]
      exact ih

end Lookup

/-! ## The first transition that leaves a state -/

/-- The first of some transitions that leaves a state is the first of their expressions that is
written so. -/
theorem find?_reflects {ts : List Transition} {expressions : List String}
    (reflects : List.Forall₂ Transition.Reflects ts expressions) {source target : String} :
    (ts.find? (·.source == source)).map (·.target) = some target ↔
      ∃ (k : Nat) (e : String), expressions[k]? = some e ∧ Text.words e = [source, "->", target] ∧
        ∀ j < k, ∀ e' t, expressions[j]? = some e' → Text.words e' ≠ [source, "->", t] := by
  induction reflects with
  | nil => simp
  | @cons t e _ rest first _ ih =>
      rw [List.find?_cons]
      by_cases leaves : t.source = source
      · rw [beq_iff_eq.2 leaves, Option.map_some, Option.some.injEq]
        rw [Transition.Reflects, leaves] at first
        constructor
        · rintro rfl
          exact ⟨0, e, rfl, first, fun j before => absurd before (Nat.not_lt_zero j)⟩
        · rintro ⟨k, e', listed, written, earlier⟩
          cases k with
          | zero =>
              cases listed
              simpa [first] using written
          | succ k => exact absurd first (earlier 0 k.succ_pos e t.target rfl)
      · rw [beq_false_of_ne leaves]
        have passed : ∀ target, Text.words e ≠ [source, "->", target] := by
          intro target written
          rw [Transition.Reflects, written] at first
          exact leaves (List.cons.inj first).1.symm
        refine ih.trans ?_
        constructor
        · rintro ⟨k, e', listed, written, earlier⟩
          refine ⟨k + 1, e', listed, written, fun j before e'' t listed' => ?_⟩
          cases j with
          | zero =>
              cases listed'
              exact passed t
          | succ j => exact earlier j (Nat.lt_of_succ_lt_succ before) e'' t listed'
        · rintro ⟨k, e', listed, written, earlier⟩
          cases k with
          | zero =>
              cases listed
              exact absurd written (passed target)
          | succ k =>
              refine ⟨k, e', listed, written, fun j before => ?_⟩
              exact earlier (j + 1) (Nat.succ_lt_succ before)

/-! ## What is declared -/

def expressionsOn (decl : Document.Projection) (event : String) : List String :=
  ((filled decl.transitionDecls).lookup event).getD []

section Declared

variable {decl : Document.Projection} {event source target : String} {k : Nat}

theorem declares_iff (distinct : (names decl.transitionDecls).Nodup) :
    decl.Declares event k source target ↔
      ∃ e, (expressionsOn decl event)[k]? = some e ∧ Text.words e = [source, "->", target] := by
  have distinct_filled : ((filled decl.transitionDecls).map Prod.fst).Nodup :=
    distinct.sublist (List.filter_sublist.map _)
  constructor
  · rintro ⟨expressions, e, declared, listed, written⟩
    have some_listed : expressions ≠ [] := by
      rintro rfl
      cases listed
    have found := (lookup_eq_some_iff distinct_filled).2 (mem_filled.2 ⟨declared, some_listed⟩)
    refine ⟨e, ?_, written⟩
    rw [expressionsOn, found]
    exact listed
  · rintro ⟨e, listed, written⟩
    cases found : (filled decl.transitionDecls).lookup event with
    | none =>
        rw [expressionsOn, found] at listed
        cases listed
    | some expressions =>
        rw [expressionsOn, found] at listed
        have declared := (mem_filled.1 ((lookup_eq_some_iff distinct_filled).1 found)).1
        exact ⟨expressions, e, declared, listed, written⟩

/-- Of the transitions that leave a state on an event there is a first. -/
theorem exists_first (declares : decl.Declares event k source target) :
    ∃ k t, decl.Declares event k source t ∧ ∀ j < k, ∀ t, ¬ decl.Declares event j source t := by
  induction k using Nat.strong_induction_on generalizing target with
  | h k ih =>
      by_cases earlier : ∃ j < k, ∃ t, decl.Declares event j source t
      · obtain ⟨j, before, t, declares⟩ := earlier
        exact ih j before declares
      · refine ⟨k, target, declares, fun j before t declares => ?_⟩
        exact earlier ⟨j, before, t, declares⟩

end Declared

/-! ## Compiled projections -/

/-- A projection steps as it is declared: on an event it goes from a state to where the first
transition leads that is declared from the state on that event.  So it steps where there is a
declared transition, and it takes all that are declared exactly if they lead to the same state. -/
structure Projection.StepsAs (s : Schema) (p : Projection) (decl : String × Document.Projection) :
    Prop where
  name : p.name = decl.1
  first : ∀ id source target, p.nextState? id source = some target ↔
    ∃ event k, s.eventName? id = some event ∧ decl.2.Declares event k source target ∧
      ∀ j < k, ∀ t, ¬ decl.2.Declares event j source t
  defined : ∀ id event source, s.eventName? id = some event →
    ((p.nextState? id source).isSome ↔ ∃ k target, decl.2.Declares event k source target)
  all : ∀ id event source, s.eventName? id = some event →
    ((∀ target, p.nextState? id source = some target ↔
        ∃ k, decl.2.Declares event k source target) ↔
      ∀ k k' t t', decl.2.Declares event k source t → decl.2.Declares event k' source t' → t = t')

variable {d : Document} {raw : String} {s : Schema}

/-- What a projection steps to is the first that is declared. -/
theorem nextState?_eq_some_iff (form : s.WellFormed) {p : Projection}
    {decl : String × Document.Projection} (reflects : p.Reflects s decl)
    (distinct : (names decl.2.transitionDecls).Nodup) {id : EventId} {source target : String} :
    p.nextState? id source = some target ↔
      ∃ event k, s.eventName? id = some event ∧ decl.2.Declares event k source target ∧
        ∀ j < k, ∀ t, ¬ decl.2.Declares event j source t := by
  rw [Projection.nextState?, Projection.transitionsOn]
  cases known : s.eventName? id with
  | none =>
      rw [lookup_of_unknown reflects.transitions known]
      simp
  | some event =>
      rw [find?_reflects (lookup_reflects form reflects.transitions known)]
      simp only [declares_iff distinct]
      constructor
      · rintro ⟨k, e, listed, written, earlier⟩
        refine ⟨event, k, rfl, ⟨e, listed, written⟩, fun j before t => ?_⟩
        rintro ⟨e', listed', written'⟩
        exact earlier j before e' t listed' written'
      · rintro ⟨event', k, same, ⟨e, listed, written⟩, earlier⟩
        cases same
        exact ⟨k, e, listed, written, fun j before e' t listed' written' =>
          earlier j before t ⟨e', listed', written'⟩⟩

theorem stepsAs_of_reflects (form : s.WellFormed) {p : Projection}
    {decl : String × Document.Projection} (reflects : p.Reflects s decl)
    (distinct : (names decl.2.transitionDecls).Nodup) : p.StepsAs s decl := by
  have first (id : EventId) (source target : String) : p.nextState? id source = some target ↔
      ∃ event k, s.eventName? id = some event ∧ decl.2.Declares event k source target ∧
        ∀ j < k, ∀ t, ¬ decl.2.Declares event j source t :=
    nextState?_eq_some_iff form reflects distinct
  have taken : ∀ id event source k target, s.eventName? id = some event →
      decl.2.Declares event k source target → ∃ t, p.nextState? id source = some t := by
    intro id event source k target known declares
    obtain ⟨k, t, declares, earlier⟩ := exists_first declares
    exact ⟨t, (first id source t).2 ⟨event, k, known, declares, earlier⟩⟩
  have declared : ∀ id event source t, s.eventName? id = some event →
      p.nextState? id source = some t → ∃ k, decl.2.Declares event k source t := by
    intro id event source t known steps
    obtain ⟨event', k, known', declares, _⟩ := (first id source t).1 steps
    cases known.symm.trans known'
    exact ⟨k, declares⟩
  refine ⟨reflects.name, first, fun id event source known => ?_, fun id event source known => ?_⟩
  · rw [Option.isSome_iff_exists]
    constructor
    · rintro ⟨t, steps⟩
      obtain ⟨k, declares⟩ := declared id event source t known steps
      exact ⟨k, t, declares⟩
    · rintro ⟨k, t, declares⟩
      exact taken id event source k t known declares
  · constructor
    · intro exact k k' t t' one other
      have steps := (exact t).2 ⟨k, one⟩
      have steps' := (exact t').2 ⟨k', other⟩
      exact Option.some.inj (steps.symm.trans steps')
    · intro alone target
      constructor
      · exact declared id event source target known
      · rintro ⟨k, declares⟩
        obtain ⟨t, steps⟩ := taken id event source k target known declares
        obtain ⟨k', declares'⟩ := declared id event source t known steps
        rw [steps, alone k' k t target declares' declares]

/-- A compiled projection takes the first declared transition that leaves its state on an event,
whatever the event and the state are.  So it steps on an event exactly where some transition is
declared from its state, and exactly the declared transitions are taken from a state on an event
if and only if they all lead to the same state. -/
theorem next_state_is_first_declared (keyed : d.Keyed) {c : Compiler}
    (ok : c.compileDocument raw d = .ok s) :
    List.Forall₂ (Projection.StepsAs s) s.projections d.projectionDecls := by
  have compiled := compiled_of_ok keyed ok
  have form := wellFormed keyed compiled
  obtain ⟨lengths, each⟩ := List.forall₂_iff_zip.1 (reflects_projections compiled)
  refine List.forall₂_iff_zip.2 ⟨lengths, fun {p decl} paired => ?_⟩
  have declared := (List.of_mem_zip paired).2
  exact stepsAs_of_reflects form (each paired) (keyed.transitions decl declared)

/-! ### A leaky gate -/

/-- A gate that may close in two ways. -/
def leakyGate : Document :=
  { gate ["Open -> Shut", "Open -> Ajar"] ["Closed"] with
    projections := some [("Gate", ⟨["Open", "Shut", "Ajar"], none, "Opened",
      some [("Closed", ["Open -> Shut", "Open -> Ajar"])]⟩)] }

theorem keyed_leakyGate : leakyGate.Keyed := by
  constructor <;> simp [leakyGate, gate, Document.eventDecls, Document.projectionDecls,
    Document.serviceDecls, Document.Projection.propertyDecls, Document.Projection.transitionDecls,
    Document.Service.methodDecls, names]

def leakySchema : Schema :=
  { gateSchema with
    projections := [⟨⟨0⟩, "Gate", ["Open", "Shut", "Ajar"], [], ⟨0⟩,
      [(⟨1⟩, [⟨"Open", "Shut"⟩, ⟨"Open", "Ajar"⟩])]⟩]
    references :=
      { events := [[.createOn ⟨0⟩], [.transition ⟨0⟩ 0, .transition ⟨0⟩ 1, .emit ⟨0⟩ "Close"]]
        types := [[.eventProperty ⟨1⟩ "by", .input ⟨0⟩ "Close"]] } }

theorem compiled_leakyGate : Compiler.compileDocument ⟨⟨[⟨[], "Name", nameSource⟩]⟩, []⟩ ""
    leakyGate = .ok leakySchema := by
  decide +kernel

/-- The leaky gate always closes in the way that is declared first. -/
theorem leakyGate_steps :
    leakySchema.projections.map (·.nextState? ⟨1⟩ "Open") = [some "Shut"] := by
  have steps := next_state_is_first_declared keyed_leakyGate compiled_leakyGate
  obtain ⟨stepsAs, -⟩ := List.forall₂_cons.1 steps
  have first : Document.Projection.Declares ⟨["Open", "Shut", "Ajar"], none, "Opened",
      some [("Closed", ["Open -> Shut", "Open -> Ajar"])]⟩ "Closed" 0 "Open" "Shut" :=
    ⟨_, _, List.mem_singleton_self _, rfl, by decide +kernel⟩
  have taken := (stepsAs.first ⟨1⟩ "Open" "Shut").2
    ⟨"Closed", 0, rfl, first, fun j before => absurd before (Nat.not_lt_zero j)⟩
  rw [leakySchema, List.map_singleton, taken]

/-- The other way in which the leaky gate may close is declared and never taken. -/
theorem leakyGate_never_ajar :
    Compiler.compileDocument ⟨⟨[⟨[], "Name", nameSource⟩]⟩, []⟩ "" leakyGate = .ok leakySchema ∧
      ∃ p ∈ leakySchema.projections, ∃ decl ∈ leakyGate.projectionDecls,
        p.name = decl.1 ∧ leakySchema.eventName? ⟨1⟩ = some "Closed" ∧
        ¬ (p.nextState? ⟨1⟩ "Open" = some "Ajar" ↔
          ∃ k, decl.2.Declares "Closed" k "Open" "Ajar") := by
  refine ⟨compiled_leakyGate, _, List.mem_singleton_self _, _, List.mem_singleton_self _, rfl, rfl,
    fun same => ?_⟩
  have taken := same.2 ⟨1, _, _, List.mem_singleton_self _, rfl, by decide +kernel⟩
  exact absurd taken (by decide)

end Schema

end EventSourcing
