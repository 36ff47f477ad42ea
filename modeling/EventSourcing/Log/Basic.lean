import EventSourcing.Context.Basic
import EventSourcing.Text.Glyph
import EventSourcing.Text.Quoted
import EventSourcing.Version

/-!
# Log.Basic -- what a log of events can do

A log holds entries in the order in which they were appended.  It can be scanned from a
version on and appended to, either in any case or only if nothing was appended since a
version was read.  The latter is driven by an attempt, which produces what to append
and, if it came too late, catches up and names the version to go on from.
-/

namespace EventSourcing

set_option autoImplicit false

namespace Log

/-- What is appended: the text of an array of envelopes, or of a single envelope. -/
abbrev Payload := List Text.Glyph

/-- An entry as a scan shows it. -/
structure Entry where
  offset : Version
  /-- The version of the log once this entry has been taken in. -/
  next : Version
  timestamp : Nat
  payload : String
  deriving DecidableEq, Repr

/-- The entries that an append added: from `offset` on, and up to `version`. -/
structure Appended where
  offset : Version
  version : Version
  deriving DecidableEq, Repr

inductive Error where
  | offsetOutOfBound (offset tip : Nat)
  | malformedVersion (version : String)
  | malformedPayload
  | emptyAppend
  deriving DecidableEq, Repr

namespace Error

def message? : Error → Option String
  | offsetOutOfBound offset tip =>
      some ("offset " ++ toString offset ++ " is out of bound, log ends at " ++ toString tip)
  | malformedVersion version => some ("malformed version " ++ Text.quoted version)
  | malformedPayload => none
  | emptyAppend => some "append payload holds no events"

/-- Whether a scan began where the log ends, or later. -/
def isOutOfBound : Error → Bool
  | offsetOutOfBound _ _ => true
  | _ => false

end Error

inductive ScanFailure (ε : Type) where
  | log (error : Error)
  /-- The visitor refused an entry. -/
  | visitor (error : ε)
  | interrupted (reason : Interruption)

inductive AppendFailure (ε : Type) where
  | log (error : Error)
  | attempt (error : ε)
  | interrupted (reason : Interruption)

/-- The caller's side of a conditional append, with a memory of type `σ`. -/
structure Attempt (W σ ε : Type) where
  /-- What to append, or nothing if there is nothing to append. -/
  produce : σ → W → (Except ε (Option Payload) × σ) × W
  /-- Catches up with the log and gives the version to go on from. -/
  resync : σ → Fiber W (Except ε Version × σ)

/-- Looks at an entry, with a memory of type `σ`. -/
abbrev Visitor (W σ ε : Type) := Entry → σ → W → Except ε σ × W

end Log

/-- A log of events, as part of a state of type `W`. -/
structure EventLog (W : Type) where
  /-- The version of a log without entries. -/
  origin : Context → Fiber W (Except Log.Error Version)
  /-- Shows the entries from a version on, at most so many of them unless that is zero. -/
  scan : {σ ε : Type} → Context → Version → Nat → Log.Visitor W σ ε → σ →
    Fiber W (Option (Log.ScanFailure ε) × σ)
  /-- Appends in any case. -/
  append : Context → Log.Payload → Fiber W (Except Log.Error Log.Appended)
  /-- Appends what an attempt produces while nothing comes between. -/
  tryAppend : {σ ε : Type} → Context → Version → Log.Attempt W σ ε → σ →
    Fiber W (Except (Log.AppendFailure ε) (Option Log.Appended) × σ)

end EventSourcing
