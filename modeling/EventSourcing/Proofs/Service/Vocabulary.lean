import EventSourcing.Proofs.Fiber.Schedule
import EventSourcing.Proofs.Schema.WellFormed
import EventSourcing.Proofs.Service.Calls
import EventSourcing.Proofs.Service.Versed

/-!
# Proofs.Service.Vocabulary -- services of one schema around one log

Services that are made for the same schema each have a set of events of their own, but every
set has all events of the schema.  Whatever the services are asked for, and in whatever order
their steps come, each entry of their log carries the name of an event that the schema
declares the method to emit which appended it, and no service ever fails for an event that
it does not know (`services_know_their_log`).
-/

namespace EventSourcing

set_option autoImplicit false

open EventSourcing.Store (Cell)
open Service (SyncError CallFailure Emitted Logic)

/-! ## What a schema declares -/

namespace Schema

/-- A schema declares a method of a service to emit the event with a name. -/
def Emits (schema : Schema) (service method event : String) : Prop :=
  ∃ v m id e, schema.services.find? (·.name == service) = some v ∧ v.method? method = some m ∧
    m.mayEmit id ∧ schema.event? id = some e ∧ e.name = event

def HasEvent (schema : Schema) (name : String) : Prop :=
  ∃ e ∈ schema.events, e.name = name

theorem Emits.named {schema : Schema} {service method event : String}
    (emits : schema.Emits service method event) : schema.HasEvent event := by
  obtain ⟨_, _, id, e, _, _, _, found, rfl⟩ := emits
  exact ⟨e, List.mem_of_getElem? found, rfl⟩

end Schema

section Making

variable {W P E ε : Type} {schema : Schema} {service : String}

/-- What the contract of a service lets a method emit is declared in the schema. -/
theorem Contract.emits_of_method? {v : Schema.Service}
    (served : schema.services.find? (·.name == service) = some v) {name : String}
    {m : Contract.Method} (found : (Contract.ofService schema v).method? name = some m) :
    ∀ event ∈ m.emits, schema.Emits service name event := by
  intro event member
  change (v.methods.map fun m => (⟨m.name, m.kind, schema.eventNames m.emits⟩ :
    Contract.Method)).find? (·.name == name) = some m at found
  rw [List.find?_map, Option.map_eq_some_iff] at found
  obtain ⟨declared, first, rfl⟩ := found
  obtain ⟨id, listed, named⟩ := List.mem_filterMap.1 member
  obtain ⟨e, node, rfl⟩ := Option.map_eq_some_iff.1 named
  exact ⟨v, declared, id, e, served, first, List.contains_iff_mem.2 listed, node, rfl⟩

namespace Service

variable {set : EventSet E} {clock : Part W Clock} {log : EventLog W} {store : Store W P E ε}
  {s : Service W P E ε}

/-- A service is made for a schema if the schema has it and the set has all events of the
schema. -/
theorem ofSchema_eq_ok :
    ofSchema schema service set clock log store = .ok s ↔
      ∃ v, schema.services.find? (·.name == service) = some v ∧
        (∀ name, schema.HasEvent name → name ∈ set.names) ∧
        s = ⟨Contract.ofService schema v, set, clock, log, store⟩ := by
  unfold ofSchema Contract.ofSchema
  cases schema.services.find? (·.name == service) with
  | none => simp
  | some v =>
      have covered : (∀ name, schema.HasEvent name → name ∈ set.names) ↔
          (Contract.ofService schema v).events.find? (fun e => !set.hasMember e) = none := by
        simp [Contract.ofService, EventSet.hasMember, Schema.HasEvent]
      simp only [Option.some.injEq, exists_eq_left', new, Contract.checkEventSet, covered]
      cases (Contract.ofService schema v).events.find? fun e => !set.hasMember e with
      | none => simp [eq_comm]
      | some event => simp

/-- A service that is made for a schema knows all events of the schema, and its methods may
emit what the schema declares. -/
theorem versed_of_ofSchema {members : List Member} {clock : Part W Clock}
    {log : Part W Log.Memory} {rounds : Nat} {store : Store W P (Member.Event members) ε}
    {s : Service W P (Member.Event members) ε}
    (made : ofSchema schema service (Member.eventSet members) clock
      (Log.Memory.eventLog clock log rounds) store = .ok s)
    (disjoint : clock.Disjoint log) (apart : store.Apart log) :
    s.Versed log schema.HasEvent ∧ ∀ method m, s.contract.method? method = some m →
      ∀ event ∈ m.emits, schema.Emits service method event := by
  obtain ⟨v, served, covered, rfl⟩ := ofSchema_eq_ok.1 made
  refine ⟨⟨disjoint, ⟨rounds, rfl⟩, apart, fun name event => Member.knows (covered name event)⟩, ?_⟩
  exact fun method m found => Contract.emits_of_method? served found

end Service

end Making

/-! ## Requests to the services -/

variable {ι : Type} {P E ε : ι → Type} {X : Type}

namespace Request

def answerBy (services : (i : ι) → Service (Commons ι P X) (P i) (E i) (ε i)) :
    (r : Request ι P E ε X) → Fiber (Commons ι P X) r.Result
  | raw payload => Log.Memory.append Commons.clockPart Commons.logPart payload
  | sync i ctx => (services i).sync ctx
  | syncWith i ctx accepts => (services i).syncWith ctx accepts
  | version i ctx => (services i).projectionVersion ctx
  | readonly i ctx name logic => (services i).readonly ctx name logic
  | append i ctx name logic => (services i).append ctx name logic
  | transaction i ctx name logic => (services i).transaction ctx name logic
  | call i ctx name logic => (services i).call ctx name logic

/-- Requests to the services, whose methods leave the log alone while they run. -/
def Orderly : Request ι P E ε X → Prop
  | raw _ => False
  | r => r.Methods fun _ {_ _} logic => logic.Apart Commons.logPart

/-- The names of the events that a schema declares the method to emit which is asked for. -/
def Emits (schema : Schema) (name : ι → String) : Request ι P E ε X → String → Prop
  | append i _ method _ => schema.Emits (name i) method
  | transaction i _ method _ => schema.Emits (name i) method
  | call i _ method _ => schema.Emits (name i) method
  | _ => fun _ => False

/-- A request that was not answered with a failure for an event that the service does not
know. -/
def Understood : (r : Request ι P E ε X) → r.Result → Prop
  | raw _, _ => True
  | sync _ _, result => Spared SyncError.isUnknown result
  | syncWith _ _ _, result => Spared SyncError.isUnknown result
  | version _ _, result => Spared SyncError.isUnknown result
  | readonly _ _ _ _, result => Spared CallFailure.isUnknown result
  | append _ _ _ _, result => Spared CallFailure.isUnknown result
  | transaction _ _ _ _, result => Spared CallFailure.isUnknown result
  | call _ _ _ _, result => Spared CallFailure.isUnknown result

end Request

theorem Commons.disjoint_clock : (clockPart : Part (Commons ι P X) Clock).Disjoint logPart where
  get_set_left _ _ := rfl
  get_set_right _ _ := rfl
  set_comm _ _ _ := rfl

theorem Commons.disjoint_cell [DecidableEq ι] (i : ι) :
    (cellPart i : Part (Commons ι P X) (Cell (P i))).Disjoint logPart where
  get_set_left _ _ := rfl
  get_set_right _ _ := rfl
  set_comm _ _ _ := rfl

/-! ## In the long run -/

section Company

variable {schema : Schema} {name : ι → String} {members : ι → List Member} {rounds : ι → Nat}
  {store : (i : ι) → Store (Commons ι P X) (P i) (Member.Event (members i)) (ε i)}
  {services : (i : ι) → Service (Commons ι P X) (P i) (Member.Event (members i)) (ε i)}

/-- Services that are made for a schema answer every orderly request in words that they all
know. -/
theorem abides_answerBy
    (made : ∀ i, Service.ofSchema schema (name i) (Member.eventSet (members i)) Commons.clockPart
      (Log.Memory.eventLog Commons.clockPart Commons.logPart (rounds i)) (store i) =
        .ok (services i))
    (apart : ∀ i, (store i).Apart Commons.logPart)
    {r : Request ι P (fun i => Member.Event (members i)) ε X} (orderly : r.Orderly) :
    (Request.answerBy services r).Abides (Worded Commons.logPart schema.HasEvent)
      (Adds Commons.logPart (r.Emits schema name)) r.Understood := by
  have versed (i : ι) := (Service.versed_of_ofSchema (made i) Commons.disjoint_clock (apart i)).1
  have legal (i : ι) := (Service.versed_of_ofSchema (made i) Commons.disjoint_clock (apart i)).2
  cases r with
  | raw payload => exact orderly.elim
  | sync i ctx => exact (versed i).abides_syncWith ctx _
  | syncWith i ctx accepts => exact (versed i).abides_syncWith ctx accepts
  | version i ctx => exact (versed i).abides_projectionVersion ctx
  | readonly i ctx method logic => exact (versed i).abides_readonly orderly ctx method
  | append i ctx method logic => exact (versed i).abides_append orderly (legal i method) ctx
  | transaction i ctx method logic =>
      exact (versed i).abides_transaction orderly (legal i method) ctx
  | call i ctx method logic => exact (versed i).abides_call orderly (legal i method) ctx

theorem Request.Emits.hasEvent {E : ι → Type} {r : Request ι P E ε X} {event : String}
    (emits : r.Emits schema name event) : schema.HasEvent event := by
  cases r with
  | append i ctx method logic => exact Schema.Emits.named emits
  | transaction i ctx method logic => exact Schema.Emits.named emits
  | call i ctx method logic => exact Schema.Emits.named emits
  | _ => exact emits.elim

/-- An entry that a move puts in the log is one of those that the move adds. -/
theorem Adds.carries {may : String → Prop} {w w' : Commons ι P X} {k : Nat} {r : Log.Record}
    (adds : Adds Commons.logPart may w w') (before : w.log.records[k]? ≠ some r)
    (after : w'.log.records[k]? = some r) :
    w.log.size ≤ k ∧ Envelope.Says may r.payload := by
  obtain ⟨added, grown, named⟩ := adds
  change w'.log.records = w.log.records ++ added at grown
  rw [grown] at after
  by_cases old : k < w.log.records.length
  · rw [List.getElem?_append_left old] at after
    exact absurd after before
  · rw [List.getElem?_append_right (by omega)] at after
    exact ⟨Nat.le_of_not_lt old, named r (List.mem_of_getElem? after)⟩

variable {allowed : Request ι P (fun i => Member.Event (members i)) ε X → Prop}
  {outside : Commons ι P X → Commons ι P X → Prop} {start : Commons ι P X}
  {pool : Request.Traffic ι P (fun i => Member.Event (members i)) ε X}

/-- Services of one schema write to a log that is empty at first and that nobody else writes
to.  Then every entry was put there by a move of a task, and carries the name of an event
that the schema declares the task's method to emit.  No task ends with a failure for an event
that its service does not know, whether it synchronizes or catches up in a transaction. -/
theorem services_know_their_log
    (made : ∀ i, Service.ofSchema schema (name i) (Member.eventSet (members i)) Commons.clockPart
      (Log.Memory.eventLog Commons.clockPart Commons.logPart (rounds i)) (store i) =
        .ok (services i))
    (apart : ∀ i, (store i).Apart Commons.logPart) (orderly : ∀ r, allowed r → r.Orderly)
    (outer : ∀ w w', outside w w' → w'.log = w.log) (empty : start.log = .empty)
    (reachable : Pool.Reachable (Request.answerBy services) allowed outside start pool) :
    (∀ k record, pool.state.log.records[k]? = some record →
      ∃ task ∈ pool.tasks, ∃ mv ∈ task.moves, mv.before.log.size ≤ k ∧
        mv.after.log.records[k]? = some record ∧
        ∃ event, task.request.Emits schema name event ∧
          Envelope.Carries record.payload event) ∧
    ∀ r moves result, ⟨r, moves, .done result⟩ ∈ pool.tasks → r.Understood result := by
  have answers (r) (may : allowed r) := abides_answerBy made apart (orderly r may)
  have begun : Worded Commons.logPart schema.HasEvent start := by
    intro r member
    change r ∈ start.log.records at member
    rw [empty] at member
    cases member
  obtain ⟨_, abiding⟩ := Pool.abiding_of_reachable answers
    (fun r w w' _ worded adds => worded.adds adds fun _ => Request.Emits.hasEvent)
    (fun w w' worded happened => worded.adds (adds_of_same (outer w w' happened)) fun _ => id)
    begun reachable
  constructor
  · intro k record found
    obtain ⟨task, member, mv, moved, before, after⟩ := Pool.made_of_reachable
      (fun w => w.log.records[k]? = some record) (by simp [empty, Log.Memory.empty])
      (fun w w' happened holds => by rwa [outer w w' happened] at holds) reachable found
    have adds := (abiding task member).moves mv moved
    obtain ⟨size, event, emits, carries⟩ := adds.carries before after
    exact ⟨task, member, mv, moved, size, after, event, emits, carries⟩
  · intro r moves result ended
    exact (abiding _ ended).fiber.done start

end Company

/-! ## A gate and its keeper -/

namespace Gates

open Schema (gateSchema)

/-- The gate and its keeper each have events of their own besides those of the schema. -/
def members : Bool → List Member
  | true => [⟨"Opened", .none⟩, ⟨"Closed", .none⟩, ⟨"Painted", .none⟩]
  | false => [⟨"Bolted", .none⟩, ⟨"Closed", .none⟩, ⟨"Opened", .none⟩]

abbrev World := Commons Bool (fun _ => Nat) Unit

def counting (i : Bool) : Folding Nat (Member.Event (members i)) Unit where
  apply _ _ _ n := (.ok (), n + 1)

def store (i : Bool) : Store World Nat (Member.Event (members i)) Unit :=
  Cell.store (counting i) (Commons.cellPart i)

theorem apart_store (i : Bool) : (store i).Apart Commons.logPart :=
  Cell.apart_store (counting i) (Commons.disjoint_cell i)

def services (i : Bool) : Service World Nat (Member.Event (members i)) Unit where
  contract :=
    { name := "Gates"
      events := ["Opened", "Closed"]
      subscriptions := ["Opened", "Closed"]
      methods := [⟨"Close", .transaction, ["Closed"]⟩] }
  set := Member.eventSet (members i)
  clock := Commons.clockPart
  log := Log.Memory.eventLog Commons.clockPart Commons.logPart 3
  store := store i

theorem made_services (i : Bool) :
    Service.ofSchema gateSchema "Gates" (Member.eventSet (members i)) Commons.clockPart
      (Log.Memory.eventLog Commons.clockPart Commons.logPart 3) (store i) = .ok (services i) := by
  refine Service.ofSchema_eq_ok.2 ⟨_, rfl, ?_, rfl⟩
  rintro name ⟨e, listed, rfl⟩
  revert e
  cases i <;> decide

abbrev Asked :=
  Request Bool (fun _ => Nat) (fun i => Member.Event (members i)) (fun _ => Unit) Unit

def closing : Asked :=
  .transaction true ⟨0, none⟩ "Close"
    (fun _ _ w => (.ok ((), [⟨⟨1, by decide⟩, ()⟩]), w) :
      Logic World Nat (Member.Event (members true)) Empty Unit)

def looking : Asked :=
  .sync false ⟨0, none⟩

/-- The keeper looks when the gate is closed. -/
def afterwards : List (Cue Asked) :=
  .start closing :: .start looking :: (List.replicate 8 (.turn 0) ++ List.replicate 8 (.turn 1))

def quiet : World :=
  ⟨.start, .empty, fun _ => .new 0, ()⟩

def Usual (r : Asked) : Prop :=
  r = closing ∨ r = looking

theorem orderly_of_usual {r : Asked} (usual : Usual r) : r.Orderly := by
  rcases usual with rfl | rfl
  · exact fun _ _ _ => rfl
  · trivial

@[irreducible] def watched :
    Request.Traffic Bool (fun _ => Nat) (fun i => Member.Event (members i)) (fun _ => Unit) Unit :=
  Pool.play (Request.answerBy services) afterwards ⟨quiet, []⟩

theorem reachable_watched :
    Pool.Reachable (Request.answerBy services) Usual (fun _ _ => False) quiet watched := by
  unfold watched
  refine Pool.reachable_play (fun r member => ?_) .refl
  simp only [afterwards, List.mem_cons, List.mem_append, List.mem_replicate, Cue.start.injEq,
    reduceCtorEq, and_false, or_false] at member
  exact member

def sawOne : (r : Asked) → r.Result → Bool
  | .sync _ _, .ok v => v.text == "1"
  | _, _ => false

theorem keeper_looked :
    watched.state.log.records[0]?.isSome ∧
      ∃ moves result, ⟨looking, moves, .done result⟩ ∈ watched.tasks ∧ sawOne looking result := by
  unfold watched
  have asked : (Pool.requests afterwards)[1]? = some looking := rfl
  exact ⟨by decide +kernel, Pool.ended_play asked (by decide +kernel)⟩

end Gates

/-- The keeper of the gate knows that it was closed, from an entry that closing it put in the
log. -/
theorem keeper_knows_log :
    (∃ record, Gates.watched.state.log.records[0]? = some record ∧
      ∃ task ∈ Gates.watched.tasks, ∃ mv ∈ task.moves, mv.before.log.size ≤ 0 ∧
        mv.after.log.records[0]? = some record ∧
        ∃ event, task.request.Emits Schema.gateSchema (fun _ => "Gates") event ∧
          Envelope.Carries record.payload event) ∧
    ∃ moves result, ⟨Gates.looking, moves, .done result⟩ ∈ Gates.watched.tasks ∧
      Gates.looking.Understood result := by
  obtain ⟨written, known⟩ := services_know_their_log Gates.made_services Gates.apart_store
    (fun _ => Gates.orderly_of_usual) (fun _ _ impossible => impossible.elim) rfl
    Gates.reachable_watched
  obtain ⟨stored, moves, result, ended, _⟩ := Gates.keeper_looked
  obtain ⟨record, found⟩ := Option.isSome_iff_exists.1 stored
  exact ⟨⟨record, found, written 0 record found⟩, moves, result, ended, known _ _ _ ended⟩

end EventSourcing
