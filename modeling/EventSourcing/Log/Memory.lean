import EventSourcing.Event.Basic
import EventSourcing.Json.Printer
import EventSourcing.Json.Reader
import EventSourcing.Log.Basic

/-!
# Log.Memory -- logs in memory

The entries of a log as a list.  An array is appended as one entry for each item, which
is written anew; any other value is appended as the text that it was given as.
-/

namespace EventSourcing

set_option autoImplicit false

namespace Log

open EventSourcing.Text (Glyph)

structure Record where
  timestamp : Nat
  payload : String
  deriving DecidableEq, Repr

/-- The texts of the entries that a payload is split into; there is at least one. -/
def split (payload : Payload) : Except Error (List String) :=
  match Glyph.toText? payload, Json.read? Json.depthLimit payload with
  | some _, some (.arr []) => .error .emptyAppend
  | some _, some (.arr items) => .ok (items.map Json.text)
  | some text, some _ => .ok [text]
  | _, _ => .error .malformedPayload

structure Memory where
  records : List Record
  deriving DecidableEq, Repr

namespace Memory

def empty : Memory := ⟨[]⟩

def size (m : Memory) : Nat := m.records.length

/-- The version after the last entry. -/
def tip (m : Memory) : Version := .ofNat m.size

def push (now : Nat) (texts : List String) (m : Memory) : Appended × Memory :=
  let after : Memory := ⟨m.records ++ texts.map (Record.mk now)⟩
  (⟨m.tip, after.tip⟩, after)

/-- Puts entries at the end if there are exactly `expected` before. -/
def pushIf (expected now : Nat) (texts : List String) (m : Memory) : Option Appended × Memory :=
  if m.size = expected then
    let (appended, after) := m.push now texts
    (some appended, after)
  else (none, m)

/-- The number of entries before a version. -/
def offsetOf (v : Version) : Except Error Nat :=
  match v.offset? with
  | some n => .ok n
  | none => .error (.malformedVersion v.text)

/-- Records as entries, the first of them at `offset`. -/
def entriesAt (offset : Nat) : List Record → List Entry
  | [] => []
  | r :: rest => ⟨.ofNat offset, .ofNat (offset + 1), r.timestamp, r.payload⟩ ::
      entriesAt (offset + 1) rest

/-- The entries from a version on, at most `limit` of them unless that is zero. -/
def entriesFrom (start : Version) (limit : Nat) (m : Memory) : Except Error (List Entry) :=
  match offsetOf start with
  | .error e => .error e
  | .ok offset =>
      if m.size ≤ offset then .error (.offsetOutOfBound offset m.size)
      else
        let rest := m.records.drop offset
        .ok (entriesAt offset (if limit = 0 then rest else rest.take limit))

/-- The events of all entries, or the first failure to rebuild one. -/
def decodeAll {E : Type} (decode : String → Except DecodeError E) (m : Memory) :
    Except DecodeError (List E) :=
  m.records.mapM fun r => decode r.payload

/-! ## As part of a shared state -/

variable {W : Type} (clock : Part W Clock) (log : Part W Memory)

def append (payload : Payload) : Fiber W (Except Error Appended) :=
  match split payload with
  | .error e => pure (.error e)
  | .ok texts =>
      Fiber.atomic fun w =>
        let (appended, after) := (log.get w).push (clock.get w).now texts
        (.ok appended, log.set after w)

/-- Shows entries one after the other, as long as the context is live. -/
def visit {σ ε : Type} (ctx : Context) (visitor : Visitor W σ ε) :
    List Entry → σ → Fiber W (Option (ScanFailure ε) × σ)
  | [], s => pure (none, s)
  | e :: rest, s => do
      match ← ctx.check clock with
      | some reason => return (some (.interrupted reason), s)
      | none =>
          match ← Fiber.atomic (visitor e s) with
          | .error error => return (some (.visitor error), s)
          | .ok s => visit ctx visitor rest s

/-- Shows the entries that there are when the scan begins. -/
def scan {σ ε : Type} (ctx : Context) (start : Version) (limit : Nat) (visitor : Visitor W σ ε)
    (s : σ) : Fiber W (Option (ScanFailure ε) × σ) := do
  match ← Fiber.atomic fun w => ((log.get w).entriesFrom start limit, w) with
  | .error e => return (some (.log e), s)
  | .ok entries => visit clock ctx visitor entries s

/-- Appends what an attempt produces if the log still ends at the assumed version, and
otherwise lets the attempt catch up and produce again.  After `rounds` vain attempts the
call waits for good. -/
def tryAppend {σ ε : Type} (ctx : Context) (attempt : Attempt W σ ε) :
    Nat → Version → σ → Fiber W (Except (AppendFailure ε) (Option Appended) × σ)
  | 0, _, _ => Fiber.stuck
  | rounds + 1, assumed, s => do
      match ← ctx.check clock with
      | some reason => return (.error (.interrupted reason), s)
      | none =>
          match ← Fiber.atomic (attempt.produce s) with
          | (.error e, s) => return (.error (.attempt e), s)
          | (.ok none, s) => return (.ok none, s)
          | (.ok (some payload), s) =>
              match split payload, offsetOf assumed with
              | .error e, _ => return (.error (.log e), s)
              | .ok _, .error e => return (.error (.log e), s)
              | .ok texts, .ok expected =>
                  let pushed ← Fiber.atomic fun w =>
                    let (pushed, after) := (log.get w).pushIf expected (clock.get w).now texts
                    (pushed, log.set after w)
                  match pushed with
                  | some appended => return (.ok (some appended), s)
                  | none =>
                      match ← attempt.resync s with
                      | (.error e, s) => return (.error (.attempt e), s)
                      | (.ok next, s) => tryAppend ctx attempt rounds next s

/-- The log in memory, whose conditional appends try at most `rounds` times. -/
def eventLog (rounds : Nat) : EventLog W where
  origin _ := pure (.ok (.ofNat 0))
  scan := scan clock log
  append _ := append clock log
  tryAppend ctx assumed attempt s := tryAppend clock log ctx attempt rounds assumed s

end Memory

end Log

end EventSourcing
