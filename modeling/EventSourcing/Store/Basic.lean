import EventSourcing.Version

/-!
# Store.Basic -- projections and where they are kept

A projection is folded from events.  A store keeps one together with the version of the
log that it reflects, and hands out transactions: any number that read, or one that
writes and is then committed or rolled back as a whole.
-/

namespace EventSourcing

set_option autoImplicit false

/-- How an event of type `E` changes a projection of type `P`.  A refused event may
have changed the projection all the same. -/
structure Folding (P E ε : Type) where
  /-- Folds in an event, given the version of the log after it and the time at which it
  was appended. -/
  apply : Version → Nat → E → P → Except ε Unit × P

/-- A store of a projection of type `P`, as part of a state of type `W`.  The operations
on a transaction are those of the transaction that is under way. -/
structure Store (W P E ε : Type) where
  /-- Begins to read, unless someone writes. -/
  read : W → Option (Except ε Unit × W)
  /-- Begins to write, unless someone reads or writes. -/
  write : W → Option (Except ε Unit × W)
  /-- The projection as the transaction sees it. -/
  projection : W → P
  /-- The recorded version as the transaction sees it; none if there never was one. -/
  version : W → Except ε (Option Version)
  /-- Ends a transaction that reads. -/
  complete : W → W
  /-- Records a version. -/
  record : Version → W → Except ε Unit × W
  /-- Folds an event into the projection. -/
  apply : Version → Nat → E → W → Except ε Unit × W
  /-- Keeps what was written. -/
  commit : W → W
  /-- Forgets what was written. -/
  rollback : W → W

end EventSourcing
