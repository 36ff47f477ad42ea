import EventSourcing.Service.Basic

/-!
# Service.Sync -- bringing a projection up to date

The entries after the recorded version are folded in one by one, each together with its
version.  What has been folded in is kept if all went well, if the context was
interrupted, or if the caller accepts the failure; otherwise all of it is forgotten.
-/

namespace EventSourcing.Service

set_option autoImplicit false

variable {W P E ε : Type} (s : Service W P E ε)

/-- Takes in one entry: an event that the projections need is folded in, and the version
after the entry is recorded. -/
def takeIn : Log.Visitor W Version (SyncError ε) := fun entry _ w =>
  match s.set.decodeText entry.payload with
  | .error e => (.error (.decode entry.offset e), w)
  | .ok event =>
      let (applied, w) :=
        if s.contract.subscribesTo (s.set.name event) then
          s.store.apply entry.next entry.timestamp event w
        else (.ok (), w)
      match applied with
      | .error e => (.error (.store e), w)
      | .ok () =>
          match s.store.record entry.next w with
          | (.error e, w) => (.error (.store e), w)
          | (.ok (), w) => (.ok entry.next, w)

def versionOrOrigin (ctx : Context) (recorded : Option Version) :
    Fiber W (Except (SyncError ε) Version) :=
  match recorded with
  | some v => pure (.ok v)
  | none => do
      match ← s.log.origin ctx with
      | .error e => return .error (.log e)
      | .ok v => return .ok v

/-- The recorded version as the transaction under way sees it. -/
def recorded : Fiber W (Except ε (Option Version)) :=
  Fiber.atomic fun w => (s.store.version w, w)

/-- Takes in every entry after the recorded version, inside a transaction that writes,
and gives the version reached. -/
def syncIn (ctx : Context) : Fiber W (Except (SyncError ε) Version) := do
  match ← s.recorded with
  | .error e => return .error (.store e)
  | .ok v =>
      match ← s.versionOrOrigin ctx v with
      | .error e => return .error e
      | .ok start =>
          match ← s.log.scan ctx start 0 s.takeIn start with
          | (none, reached) => return .ok reached
          | (some (.log e), reached) =>
              if e.isOutOfBound then return .ok reached else return .error (.log e)
          | (some (.visitor e), _) => return .error e
          | (some (.interrupted reason), _) => return .error (.interrupted reason)

def finish (keep : Bool) : Fiber W Unit :=
  Fiber.atomic fun w => ((), if keep then s.store.commit w else s.store.rollback w)

/-- Brings the projection up to date and gives the version reached.  What was taken in
before a failure is kept if the caller accepts the failure. -/
def syncWith (ctx : Context) (accepts : SyncError ε → Bool) :
    Fiber W (Except (SyncError ε) Version) := do
  match ← ctx.run s.clock (Fiber.await s.store.write) with
  | .error reason => return .error (.interrupted reason)
  | .ok (.error e) => return .error (.store e)
  | .ok (.ok ()) =>
      let result ← s.syncIn ctx
      s.finish (match result with
        | .ok _ => true
        | .error e => e.isInterrupted || accepts e)
      return result

/-- Brings the projection up to date, all or nothing unless the context is interrupted. -/
def sync (ctx : Context) : Fiber W (Except (SyncError ε) Version) :=
  s.syncWith ctx fun _ => false

def projectionVersion (ctx : Context) : Fiber W (Except (SyncError ε) Version) := do
  match ← ctx.run s.clock (Fiber.await s.store.read) with
  | .error reason => return .error (.interrupted reason)
  | .ok (.error e) => return .error (.store e)
  | .ok (.ok ()) =>
      let version ← s.recorded
      Fiber.atomic fun w => ((), s.store.complete w)
      match version with
      | .error e => return .error (.store e)
      | .ok v => s.versionOrOrigin ctx v

end EventSourcing.Service
