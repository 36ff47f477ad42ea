import EventSourcing.Bench.LogScript
import EventSourcing.Service.Call

/-!
# Bench.Session -- a service on the bench

A service over the rigged store and the rigged log of the bench, with the second writer
around the log.  Its methods follow scripts.  Transactions on the store can be kept open
and written to by hand.
-/

namespace EventSourcing.Bench

set_option autoImplicit false

open EventSourcing.Text (Glyph)

variable {E : Type}

/-- An event as it is given: decoded when it is needed. -/
abbrev GivenEvent (E : Type) := Except DecodeError E

/-! ## Scripted methods -/

/-- What a run of a method does. -/
structure MethodRun (E : Type) where
  cancel : Bool
  /-- The events that another writer appends meanwhile. -/
  concurrent : List (GivenEvent E)
  emit : List (GivenEvent E)
  fail : Option String
  /-- Whether the run refuses if the view has no step for an event. -/
  decide : Bool
  output : Option Json

def MethodRun.idle : MethodRun E := ⟨false, [], [], none, false, none⟩

inductive Refusal where
  | tooManyRuns
  | failed (message : String)
  | view (error : View.Error)
  | givenEvent (error : DecodeError)

def Refusal.message? : Refusal → Option String
  | tooManyRuns => some "too many runs"
  | failed message => some message
  | view e => some e.message
  | givenEvent e => e.message?

def View.statesJson (v : View) : Json :=
  .object (v.states.map fun (id, state) => (id, .str state))

/-- Appends a batch straight to the log.  A batch that cannot be written is left out. -/
def appendStraight (set : EventSet E) (events : List E) (w : World) : World :=
  if events.isEmpty then w
  else
    match set.encode events with
    | .error _ => w
    | .ok text =>
        match Log.split (Glyph.ofString text) with
        | .error _ => w
        | .ok texts => World.logPart.modify (fun l => (l.push w.clock.now texts).2) w

def MethodRun.perform (rules : View.Rules) (set : EventSet E) (r : MethodRun E) (ctx : Context)
    (view : View) (w : World) : Except Refusal (Json × List E) × World :=
  let w := if r.cancel then w.cancel ctx else w
  match r.concurrent.mapM id with
  | .error e => (.error (.givenEvent e), w)
  | .ok concurrent =>
      let w := appendStraight set concurrent w
      match r.emit.mapM id with
      | .error e => (.error (.givenEvent e), w)
      | .ok events =>
          match r.fail with
          | some message => (.error (.failed message), w)
          | none =>
              match if r.decide then View.firstRefusal? rules set events view else none with
              | some e => (.error (.view e), w)
              | none => (.ok (r.output.getD view.statesJson, events), w)

/-- The logic of a method that follows a script: the n-th run takes the n-th item. -/
def scriptedLogic (rules : View.Rules) (set : EventSet E) (runs : List (MethodRun E)) :
    Service.Logic World View E Refusal Json := fun ctx view w =>
  let n := w.seen.length
  let w := { w with seen := w.seen ++ [view.applied.length] }
  if World.mostRuns ≤ n then (.error .tooManyRuns, w)
  else ((scripted runs n).getD .idle).perform rules set ctx view w

/-! ## The service -/

def plainStore (rules : View.Rules) (set : EventSet E) : Store World View E View.Error :=
  Store.Cell.store (View.folding rules set) World.cellPart

def riggedStore (rules : View.Rules) (set : EventSet E) :
    Store World View E (Rig.StoreError View.Error) :=
  Rig.store World.rigPart (plainStore rules set)

/-- The log of the bench with the rig and the second writer around it. -/
def riggedLog : EventLog World :=
  Log.Queue.eventLog World.queuePart
    (Rig.eventLog World.rigPart World.clockPart LogScript.eventLog)

def serviceOf (schema : Schema) (name : String) (rules : View.Rules) (set : EventSet E) :
    Except Contract.Defect (Service World View E (Rig.StoreError View.Error)) :=
  Service.ofSchema schema name set World.clockPart riggedLog (riggedStore rules set)

/-! ## Transactions by hand -/

inductive Change (E : Type) where
  | apply (event : GivenEvent E) (version : Version)
  | record (version : Version)

/-- What a writer sees after a change, or the refusal of it. -/
abbrev ChangeResult := Except View.Error (Store.Snapshot View)

def Change.perform (store : Store World View E View.Error) (w : World) :
    Change E → Except DecodeError ChangeResult × World
  | .apply (.error e) _ => (.error e, w)
  | .apply (.ok event) version =>
      match store.apply version w.clock.now event w with
      | (.error e, w) => (.ok (.error e), w)
      | (.ok (), w) => (.ok (.ok w.cell.visible), w)
  | .record version =>
      match store.record version w with
      | (.error e, w) => (.ok (.error e), w)
      | (.ok (), w) => (.ok (.ok w.cell.visible), w)

/-- Makes changes one after the other, up to the first event that is none. -/
def Change.performAll (store : Store World View E View.Error) :
    List (Change E) → World → Except DecodeError (List ChangeResult) × World
  | [], w => (.ok [], w)
  | c :: rest, w =>
      match c.perform store w with
      | (.error e, w) => (.error e, w)
      | (.ok r, w) =>
          let (rs, w) := performAll store rest w
          (rs.map (r :: ·), w)

/-- Makes changes in a transaction of their own, which is kept or forgotten. -/
def writeByHand (rules : View.Rules) (set : EventSet E) (changes : List (Change E))
    (keep : Bool) : Fiber World (Except DecodeError (List ChangeResult)) := do
  let store := plainStore rules set
  match ← Fiber.await store.write with
  | .error e => return .ok [.error e]
  | .ok () => Fiber.atomic fun w =>
      let (result, w) := Change.performAll store changes w
      (result, if keep && result.isOk then store.commit w else store.rollback w)

def World.release (keep : Bool) (w : World) : World :=
  let end_ := match w.held with
    | none => id
    | some .reader => Store.Cell.endRead
    | some .writer => if keep then Store.Cell.commit else Store.Cell.rollback
  { w with cell := end_ w.cell, held := none }

/-- Begins a transaction and keeps it open in the place of the one before. -/
def hold (rules : View.Rules) (set : EventSet E) (kind : Held) :
    Fiber World (Except (Rig.StoreError View.Error) Unit) := do
  let store := riggedStore rules set
  let act := match kind with
    | .reader => store.read
    | .writer => store.write
  match ← Fiber.await act with
  | .error e => return .error e
  | .ok () => Fiber.atomic fun w => (.ok (), { w.release false with held := some kind })

end EventSourcing.Bench
