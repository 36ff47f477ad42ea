import EventSourcing.Contract
import EventSourcing.Event.Envelope
import EventSourcing.Log.Basic
import EventSourcing.Store.Basic

/-!
# Service.Basic -- a projection kept along a log

A service couples the store of a projection with a log of events under a contract.  What
can go wrong when it brings the projection up to date is a failure to synchronize; what
can go wrong with a call of a method is a refusal, or an event that the method emitted
though it may not, which aborts the call.
-/

namespace EventSourcing

set_option autoImplicit false

/-- A service over a state of type `W`, with projections of type `P` and events of
type `E`. -/
structure Service (W P E ε : Type) where
  contract : Contract
  set : EventSet E
  clock : Part W Clock
  log : EventLog W
  store : Store W P E ε

namespace Service

inductive SyncError (ε : Type) where
  | interrupted (reason : Interruption)
  | log (error : Log.Error)
  | store (error : ε)
  | decode (offset : Version) (error : DecodeError)

namespace SyncError

variable {ε : Type}

def isInterrupted : SyncError ε → Bool
  | interrupted _ => true
  | _ => false

def message? (storeMessage : ε → String) : SyncError ε → Option String
  | interrupted reason => some reason.message
  | log e => e.message?.map ("failed to read the event log: " ++ ·)
  | store e => some ("failed to update the projection: " ++ storeMessage e)
  | decode offset e =>
      e.message?.map fun m => "failed to decode event at offset " ++ offset.text ++ ": " ++ m

end SyncError

/-- Why a call of a method was refused; `L` is the type of the method's own refusals. -/
inductive MethodError (L ε : Type) where
  | logic (error : L)
  | interrupted (reason : Interruption)
  | sync (error : SyncError ε)
  | log (error : Log.Error)
  | store (error : ε)
  | encode (error : EncodeError)
  | unknownMethod (method : String)
  | kindMismatch (method : String) (declared called : Method.Kind)
  /-- The log ended a conditional append without asking for anything. -/
  | nothingProduced

namespace MethodError

variable {L ε : Type}

def isInterrupted : MethodError L ε → Bool
  | interrupted _ => true
  | sync e => e.isInterrupted
  | _ => false

def message? (logicMessage : L → String) (storeMessage : ε → String) :
    MethodError L ε → Option String
  | logic e => some ("method rejected the call: " ++ logicMessage e)
  | interrupted reason => some reason.message
  | sync e => (e.message? storeMessage).map ("failed to synchronize the projection: " ++ ·)
  | log e => e.message?.map ("failed to append to the event log: " ++ ·)
  | store e => some ("projection store error: " ++ storeMessage e)
  | encode e => some ("failed to encode events: " ++ e.message)
  | unknownMethod method => some ("method `" ++ method ++ "` is not declared by the service")
  | kindMismatch method declared called =>
      some ("method `" ++ method ++ "` is declared `" ++ declared.text ++ "` but was called as `" ++
        called.text ++ "`")
  | nothingProduced =>
      some "event log finished a conditional append without running the method"

end MethodError

inductive CallFailure (L ε : Type) where
  | refused (error : MethodError L ε)
  | aborted (event : Contract.Undeclared)

def CallFailure.isInterrupted {L ε : Type} : CallFailure L ε → Bool
  | refused e => e.isInterrupted
  | aborted _ => false

/-- What a call of a method brought about. -/
structure Emitted (O E : Type) where
  output : O
  events : List E
  /-- Where the events were appended; none if there are no events, or if the method only
  reads. -/
  appended : Option Log.Appended

/-- What a method does: given the projection, an output and events, or a refusal.  It may
act on the shared state meanwhile. -/
abbrev Logic (W P E L O : Type) := Context → P → W → Except L (O × List E) × W

variable {W P E ε : Type}

/-- The service under a contract, if the set has every event of the schema. -/
def new (contract : Contract) (set : EventSet E) (clock : Part W Clock) (log : EventLog W)
    (store : Store W P E ε) : Except Contract.Defect (Service W P E ε) :=
  match contract.checkEventSet set with
  | .ok () => .ok ⟨contract, set, clock, log, store⟩
  | .error d => .error d

def ofSchema (schema : Schema) (name : String) (set : EventSet E) (clock : Part W Clock)
    (log : EventLog W) (store : Store W P E ε) : Except Contract.Defect (Service W P E ε) :=
  match Contract.ofSchema schema name with
  | .ok contract => new contract set clock log store
  | .error d => .error d

end Service

end EventSourcing
