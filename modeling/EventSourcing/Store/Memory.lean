import EventSourcing.Fiber.Part
import EventSourcing.Store.Basic

/-!
# Store.Memory -- stores in memory

A cell holds what was last committed.  A writer works on a draft, which replaces the
committed state or is thrown away.
-/

namespace EventSourcing.Store

set_option autoImplicit false

/-- A projection with the version of the log that it reflects. -/
structure Snapshot (P : Type) where
  projection : P
  version : Option Version

/-- A store in memory. -/
structure Cell (P : Type) where
  committed : Snapshot P
  /-- How many transactions read. -/
  readers : Nat
  /-- What the transaction that writes has made of the committed state. -/
  draft : Option (Snapshot P)

namespace Cell

variable {W P E ε : Type}

/-- A store of a projection that was never brought up to any version. -/
def new (projection : P) : Cell P :=
  ⟨⟨projection, none⟩, 0, none⟩

/-- What the transaction under way sees. -/
def visible (c : Cell P) : Snapshot P :=
  c.draft.getD c.committed

def isWritten (c : Cell P) : Bool :=
  c.draft.isSome

def isFree (c : Cell P) : Bool :=
  c.readers == 0 && !c.isWritten

def beginRead (c : Cell P) : Cell P :=
  { c with readers := c.readers + 1 }

def endRead (c : Cell P) : Cell P :=
  { c with readers := c.readers - 1 }

def beginWrite (c : Cell P) : Cell P :=
  { c with draft := some c.committed }

def modifyDraft (f : Snapshot P → Snapshot P) (c : Cell P) : Cell P :=
  { c with draft := c.draft.map f }

def commit (c : Cell P) : Cell P :=
  { c with committed := c.visible, draft := none }

def rollback (c : Cell P) : Cell P :=
  { c with draft := none }

def apply (folding : Folding P E ε) (version : Version) (timestamp : Nat) (event : E)
    (c : Cell P) : Except ε Unit × Cell P :=
  let (result, projection) := folding.apply version timestamp event c.visible.projection
  (result, c.modifyDraft fun s => { s with projection })

def store (folding : Folding P E ε) (cell : Part W (Cell P)) : Store W P E ε where
  read w := if (cell.get w).isWritten then none else some (.ok (), cell.modify beginRead w)
  write w := if (cell.get w).isFree then some (.ok (), cell.modify beginWrite w) else none
  projection w := (cell.get w).visible.projection
  version w := .ok (cell.get w).visible.version
  complete := cell.modify endRead
  record version w := (.ok (), cell.modify (modifyDraft ({ · with version := some version })) w)
  apply version timestamp event w :=
    let (result, c) := (cell.get w).apply folding version timestamp event
    (result, cell.set c w)
  commit := cell.modify commit
  rollback := cell.modify rollback

end Cell

end EventSourcing.Store
