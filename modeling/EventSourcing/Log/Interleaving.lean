import EventSourcing.Event.Envelope
import EventSourcing.Log.Basic

/-!
# Log.Interleaving -- another writer at the worst moment

A log around another log that plays a second writer: batches wait in a queue and are
appended right before the next conditional append, after the caller has read its
version.  Everything else goes straight to the inner log.
-/

namespace EventSourcing

set_option autoImplicit false

namespace Log

open EventSourcing.Text (Glyph)

/-- The batches of the second writer. -/
structure Queue where
  /-- The batches that wait, the next one first. -/
  pending : List Payload
  /-- How many batches have been appended. -/
  injected : Nat

namespace Queue

def empty : Queue := ⟨[], 0⟩

/-- Lets a batch of events wait.  A batch without events does not count. -/
def inject {E : Type} (set : EventSet E) (events : List E) (q : Queue) :
    Except EncodeError Queue :=
  if events.isEmpty then .ok q
  else (set.encode events).map fun text =>
    { q with pending := q.pending ++ [Glyph.ofString text] }

variable {W : Type} (queue : Part W Queue) (inner : EventLog W)

def takeAll : Fiber W (List Payload) :=
  Fiber.atomic fun w =>
    let q := queue.get w
    (q.pending, queue.set { q with pending := [] } w)

/-- Appends batches one after the other, and gives the first failure. -/
def appendAll (ctx : Context) : List Payload → Fiber W (Option Error)
  | [] => pure none
  | payload :: rest => do
      match ← inner.append ctx payload with
      | .error e => return some e
      | .ok _ => do
          Fiber.atomic fun w =>
            ((), queue.modify (fun q => { q with injected := q.injected + 1 }) w)
          appendAll ctx rest

/-- The log with the second writer. -/
def eventLog : EventLog W where
  origin := inner.origin
  scan := inner.scan
  append := inner.append
  tryAppend ctx assumed attempt s := do
    match ← appendAll queue inner ctx (← takeAll queue) with
    | some e => return (.error (.log e), s)
    | none => inner.tryAppend ctx assumed attempt s

end Queue

inductive SeedFailure where
  | encode (error : EncodeError)
  | log (error : Error)

/-- Appends events as one batch; none if there are none. -/
def seed {W E : Type} (log : EventLog W) (set : EventSet E) (ctx : Context) (events : List E) :
    Fiber W (Except SeedFailure (Option Appended)) :=
  if events.isEmpty then pure (.ok none)
  else
    match set.encode events with
    | .error e => pure (.error (.encode e))
    | .ok text => do
        match ← log.append ctx (Glyph.ofString text) with
        | .error e => return .error (.log e)
        | .ok appended => return .ok (some appended)

end Log

end EventSourcing
