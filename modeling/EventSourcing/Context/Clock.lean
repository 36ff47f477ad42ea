/-!
# Context.Clock -- time, and who has been canceled

Time passes only while everyone waits; whoever waits for a time sets an alarm, so that time
does not pass beyond it unnoticed.  Contexts come in families.  A family is canceled in two
steps: a flag is raised, and then those who wait for it are notified.
-/

namespace EventSourcing

set_option autoImplicit false

/-- The time, and the families of contexts. -/
structure Clock where
  /-- Milliseconds since the start. -/
  now : Nat
  /-- How many families there are; they are numbered from zero. -/
  families : Nat
  /-- The families whose flag has been raised. -/
  canceled : List Nat
  /-- The families whose waiters have been notified, the last one first. -/
  notices : List Nat
  /-- The times that someone has waited for. -/
  alarms : List Nat
  /-- How the next choice falls between two that are equally good. -/
  coin : Bool
  deriving DecidableEq, Repr

namespace Clock

def start : Clock :=
  ⟨0, 0, [], [], [], false⟩

def newFamily (c : Clock) : Nat × Clock :=
  (c.families, { c with families := c.families + 1 })

def raise (family : Nat) (c : Clock) : Clock :=
  { c with canceled := family :: c.canceled }

def notify (family : Nat) (c : Clock) : Clock :=
  { c with notices := family :: c.notices }

/-- How often those who wait for a family have been notified. -/
def noticesOf (family : Nat) (c : Clock) : Nat :=
  c.notices.count family

def cancelFamily (family : Nat) (c : Clock) : Clock :=
  (c.raise family).notify family

def setAlarm (time : Nat) (c : Clock) : Clock :=
  { c with alarms := time :: c.alarms }

def advanceTo (time : Nat) (c : Clock) : Clock :=
  { c with now := max c.now time }

/-- The times from now on, in order and until `last`, for which there is an alarm; `last` is
one of them. -/
def moments (last : Nat) (c : Clock) : List Nat :=
  (c.alarms.filter fun t => c.now ≤ t && t < last).mergeSort (· ≤ ·) ++ [last]

end Clock

end EventSourcing
