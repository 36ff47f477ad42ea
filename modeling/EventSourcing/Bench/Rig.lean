import EventSourcing.Log.Basic
import EventSourcing.Store.Basic

/-!
# Bench.Rig -- logs and stores that fail on purpose

A rig stands around a log or a store.  It lets chosen calls fail, ends conditional
appends without asking for anything, and cancels the context of a scan after some
entries.
-/

namespace EventSourcing.Bench

set_option autoImplicit false

/-- A call that can be made to fail. -/
inductive RiggedCall where
  | origin
  | scan
  | append
  | tryAppend
  | read
  | write
  | version
  | record
  deriving DecidableEq, Repr

def RiggedCall.word : RiggedCall → String
  | origin => "begin"
  | scan => "scan"
  | append => "append"
  | tryAppend => "try_append"
  | read => "read"
  | write => "write"
  | version => "version"
  | record => "update"

def RiggedCall.message (c : RiggedCall) : String :=
  "rigged " ++ c.word

structure Rig where
  /-- After how many more entries the context of a scan is canceled. -/
  cancelAfter : Option Nat
  /-- Whether conditional appends end at once. -/
  skipProduce : Bool
  /-- The words of the calls that fail. -/
  failing : List String
  deriving DecidableEq, Repr

namespace Rig

def idle : Rig := ⟨none, false, []⟩

def fails (r : Rig) (c : RiggedCall) : Bool :=
  r.failing.contains c.word

/-- Counts an entry, and says whether it is the one after which to cancel. -/
def countEntry (r : Rig) : Bool × Rig :=
  match r.cancelAfter with
  | none => (false, r)
  | some n => if n ≤ 1 then (true, { r with cancelAfter := none })
      else (false, { r with cancelAfter := some (n - 1) })

variable {W : Type} (rig : Part W Rig)

/-! ## Logs -/

/-- The failure of a rigged call to a log. -/
def logError (c : RiggedCall) : Log.Error :=
  .malformedVersion c.message

/-- Looks whether a call fails. -/
def look (c : RiggedCall) : Fiber W Bool :=
  Fiber.atomic fun w => ((rig.get w).fails c, w)

/-- A visitor after whose success the rig may cancel. -/
def visitor {σ ε : Type} (clock : Part W Clock) (ctx : Context) (inner : Log.Visitor W σ ε) :
    Log.Visitor W σ ε := fun entry s w =>
  match inner entry s w with
  | (.error e, w) => (.error e, w)
  | (.ok s, w) =>
      let (cancel, r) := (rig.get w).countEntry
      let w := rig.set r w
      (.ok s, if cancel then ((ctx.cancel clock).advance w).2 else w)

def eventLog (clock : Part W Clock) (inner : EventLog W) : EventLog W where
  origin ctx := do
    if ← look rig .origin then return .error (logError .origin) else inner.origin ctx
  scan ctx start limit visit s := do
    if ← look rig .scan then return (some (.log (logError .scan)), s)
    else inner.scan ctx start limit (visitor rig clock ctx visit) s
  append ctx payload := do
    if ← look rig .append then return .error (logError .append) else inner.append ctx payload
  tryAppend ctx assumed attempt s := do
    if ← look rig .tryAppend then return (.error (.log (logError .tryAppend)), s)
    else if ← Fiber.atomic fun w => ((rig.get w).skipProduce, w) then return (.ok none, s)
    else inner.tryAppend ctx assumed attempt s

/-! ## Stores -/

inductive StoreError (ε : Type) where
  | rigged (call : RiggedCall)
  | own (error : ε)

def StoreError.message {ε : Type} (own : ε → String) : StoreError ε → String
  | rigged c => c.message
  | .own e => own e

variable {P E ε : Type}

/-- The answer of a store, as that of a rigged one. -/
def lift {α : Type} (r : Except ε α) : Except (StoreError ε) α :=
  r.mapError .own

def store (inner : Store W P E ε) : Store W P E (StoreError ε) where
  read w := if (rig.get w).fails .read then some (.error (.rigged .read), w)
    else (inner.read w).map fun (r, w) => (lift r, w)
  write w := if (rig.get w).fails .write then some (.error (.rigged .write), w)
    else (inner.write w).map fun (r, w) => (lift r, w)
  projection := inner.projection
  version w := if (rig.get w).fails .version then .error (.rigged .version)
    else lift (inner.version w)
  complete := inner.complete
  record v w := if (rig.get w).fails .record then (.error (.rigged .record), w)
    else
      let (r, w) := inner.record v w
      (lift r, w)
  apply version timestamp event w :=
    let (r, w) := inner.apply version timestamp event w
    (lift r, w)
  commit := inner.commit
  rollback := inner.rollback

end Rig

end EventSourcing.Bench
