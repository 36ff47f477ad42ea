import EventSourcing.Bench.World

/-!
# Bench.LogScript -- scripted visitors and attempts

Visitors that fail or cancel at a chosen entry, and attempts whose answers are written
down: the n-th run takes the n-th answer, and the last one again after that.
-/

namespace EventSourcing.Bench

set_option autoImplicit false

/-- The item for the n-th run: the last one if there are fewer. -/
def scripted {α : Type} (items : List α) (n : Nat) : Option α :=
  items[min n (items.length - 1)]?

namespace LogScript

def eventLog : EventLog World :=
  Log.Memory.eventLog World.clockPart World.logPart (World.mostRuns + 1)

/-! ## Visitors -/

inductive VisitorError where
  | failed

def VisitorError.message : VisitorError → String
  | failed => "callback failed"

/-- Collects entries.  Refuses the entry after `failAt` others, and cancels the context at
the entry after `cancelAt` others. -/
def collector (ctx : Context) (failAt cancelAt : Option Nat) :
    Log.Visitor World (List Log.Entry) VisitorError := fun entry seen w =>
  if failAt = some seen.length then (.error .failed, w)
  else
    let w := if cancelAt = some seen.length then w.cancel ctx else w
    (.ok (seen ++ [entry]), w)

/-! ## Attempts -/

/-- What a run of an attempt produces. -/
structure Production where
  payload : Option Log.Payload
  fail : Option String
  cancel : Bool

/-- How an attempt catches up. -/
inductive Resync where
  | version (v : Version)
  | tip
  | fail (message : String)

inductive AttemptError where
  | failed (message : String)
  | tooMany

def AttemptError.message : AttemptError → String
  | failed message => message
  | tooMany => "too many attempts"

/-- How often an attempt has produced and caught up. -/
structure Counts where
  produced : Nat
  resynced : Nat

def attempt (ctx : Context) (productions : List Production) (resyncs : List Resync) :
    Log.Attempt World Counts AttemptError where
  produce counts w :=
    let n := counts.produced
    let counts := { counts with produced := n + 1 }
    if World.mostRuns ≤ n then ((.error .tooMany, counts), w)
    else
      match scripted productions n with
      | none => ((.ok none, counts), w)
      | some p =>
          let w := if p.cancel then w.cancel ctx else w
          match p.fail with
          | some message => ((.error (.failed message), counts), w)
          | none => ((.ok p.payload, counts), w)
  resync counts := Fiber.atomic fun w =>
    let n := counts.resynced
    let counts := { counts with resynced := n + 1 }
    let answer := match scripted resyncs n with
      | some (.version v) => .ok v
      | some (.fail message) => .error (.failed message)
      | some .tip => .ok w.log.tip
      | none => .ok w.log.tip
    ((answer, counts), w)

end LogScript

end EventSourcing.Bench
