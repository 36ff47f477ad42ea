import EventSourcing.Service.Sync

/-!
# Service.Call -- calling methods

A method that only reads is given the projection as it is.  A method that appends is
given the projection as it is, and its events are appended whatever happened meanwhile.
A transaction is given a projection and its events are appended only if the log still
ends where that projection ends; otherwise the projection is brought up to date and the
method runs again.
-/

namespace EventSourcing.Service

set_option autoImplicit false

open EventSourcing.Text (Glyph)

variable {W P E ε L O : Type} (s : Service W P E ε)

/-- The method with a name, if it has the kind it is called as. -/
def method (name : String) (called : Method.Kind) : Except (CallFailure L ε) Contract.Method :=
  match s.contract.method? name with
  | none => .error (.refused (.unknownMethod name))
  | some m =>
      if m.kind = called then .ok m else .error (.refused (.kindMismatch name m.kind called))

/-! ## Methods that only read -/

/-- Runs a method on the projection that is committed. -/
def runReadonly (ctx : Context) (logic : Logic W P E L O) :
    Fiber W (Except (CallFailure L ε) (O × List E)) := do
  match ← ctx.run s.clock (Fiber.await s.store.read) with
  | .error reason => return .error (.refused (.interrupted reason))
  | .ok (.error e) => return .error (.refused (.store e))
  | .ok (.ok ()) =>
      let result ← Fiber.atomic fun w => logic ctx (s.store.projection w) w
      Fiber.atomic fun w => ((), s.store.complete w)
      match result with
      | .error e => return .error (.refused (.logic e))
      | .ok r => return .ok r

/-- Calls a method that is declared to only read.  Its events are part of its output. -/
def readonly (ctx : Context) (name : String) (logic : Logic W P E L O) :
    Fiber W (Except (CallFailure L ε) (O × List E)) :=
  match s.method name .readonly with
  | .error e => pure (.error e)
  | .ok _ => s.runReadonly ctx logic

/-! ## Methods that append -/

/-- Runs a method on the projection that is committed, and appends its events. -/
def runAppend (ctx : Context) (m : Contract.Method) (logic : Logic W P E L O) :
    Fiber W (Except (CallFailure L ε) (Emitted O E)) := do
  match ← s.runReadonly ctx logic with
  | .error e => return .error e
  | .ok (output, events) =>
      match m.undeclared? s.set s.contract.name events with
      | some u => return .error (.aborted u)
      | none =>
          match ← ctx.check s.clock with
          | some reason => return .error (.refused (.interrupted reason))
          | none =>
              if events.isEmpty then return .ok ⟨output, [], none⟩
              else
                match s.set.encode events with
                | .error e => return .error (.refused (.encode e))
                | .ok text =>
                    match ← s.log.append ctx (Glyph.ofString text) with
                    | .error e => return .error (.refused (.log e))
                    | .ok appended => return .ok ⟨output, events, some appended⟩

def append (ctx : Context) (name : String) (logic : Logic W P E L O) :
    Fiber W (Except (CallFailure L ε) (Emitted O E)) :=
  match s.method name .append with
  | .error e => pure (.error e)
  | .ok m => s.runAppend ctx m logic

/-! ## Transactions -/

/-- What the last run of a transaction's method gave. -/
abbrev Produced (O E : Type) := Option (O × List E)

/-- Runs the method on the projection that the transaction sees, and gives the text of its
events. -/
def produce (ctx : Context) (m : Contract.Method) (logic : Logic W P E L O)
    (before : Produced O E) (w : W) :
    (Except (CallFailure L ε) (Option Log.Payload) × Produced O E) × W :=
  match logic ctx (s.store.projection w) w with
  | (.error e, w) => ((.error (.refused (.logic e)), before), w)
  | (.ok (output, events), w) =>
      match m.undeclared? s.set s.contract.name events with
      | some u => ((.error (.aborted u), before), w)
      | none =>
          if events.isEmpty then ((.ok none, some (output, [])), w)
          else
            match s.set.encode events with
            | .error e => ((.error (.refused (.encode e)), before), w)
            | .ok text => ((.ok (some (Glyph.ofString text)), some (output, events)), w)

/-- A transaction's side of the conditional append. -/
def attempt (ctx : Context) (m : Contract.Method) (logic : Logic W P E L O) :
    Log.Attempt W (Produced O E) (CallFailure L ε) where
  produce := s.produce ctx m logic
  resync before := do
    match ← s.syncIn ctx with
    | .error e => return (.error (.refused (.sync e)), before)
    | .ok v => return (.ok v, before)

/-- Runs a method inside a transaction that writes, as often as it takes. -/
def transact (ctx : Context) (m : Contract.Method) (logic : Logic W P E L O) :
    Fiber W (Except (CallFailure L ε) (Emitted O E)) := do
  match ← s.recorded with
  | .error e => return .error (.refused (.store e))
  | .ok v =>
      match ← s.versionOrOrigin ctx v with
      | .error e => return .error (.refused (.sync e))
      | .ok assumed =>
          match ← s.log.tryAppend ctx assumed (s.attempt ctx m logic) none with
          | (.error (.attempt e), _) => return .error e
          | (.error (.log e), _) => return .error (.refused (.log e))
          | (.error (.interrupted reason), _) => return .error (.refused (.interrupted reason))
          | (.ok _, none) => return .error (.refused .nothingProduced)
          | (.ok appended, some (output, events)) => return .ok ⟨output, events, appended⟩

/-- Runs a method as a transaction.  What was brought up to date on the way is kept if the
call succeeded or was interrupted. -/
def runTransaction (ctx : Context) (m : Contract.Method) (logic : Logic W P E L O) :
    Fiber W (Except (CallFailure L ε) (Emitted O E)) := do
  match ← ctx.run s.clock (Fiber.await s.store.write) with
  | .error reason => return .error (.refused (.interrupted reason))
  | .ok (.error e) => return .error (.refused (.store e))
  | .ok (.ok ()) =>
      let result ← s.transact ctx m logic
      s.finish (match result with
        | .ok _ => true
        | .error e => e.isInterrupted)
      return result

def transaction (ctx : Context) (name : String) (logic : Logic W P E L O) :
    Fiber W (Except (CallFailure L ε) (Emitted O E)) :=
  match s.method name .transaction with
  | .error e => pure (.error e)
  | .ok m => s.runTransaction ctx m logic

/-! ## Methods of any kind -/

/-- Calls a method as what it is declared as.  A method that only reads must not emit
events. -/
def call (ctx : Context) (name : String) (logic : Logic W P E L O) :
    Fiber W (Except (CallFailure L ε) (Emitted O E)) :=
  match s.contract.method? name with
  | none => pure (.error (.refused (.unknownMethod name)))
  | some m =>
      match m.kind with
      | .append => s.runAppend ctx m logic
      | .transaction => s.runTransaction ctx m logic
      | .readonly => do
          match ← s.runReadonly ctx logic with
          | .error e => return .error e
          | .ok (output, events) =>
              match m.undeclared? s.set s.contract.name events with
              | some u => return .error (.aborted u)
              | none => return .ok ⟨output, events, none⟩

end EventSourcing.Service
