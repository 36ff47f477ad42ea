import EventSourcing.Context.Clock
import EventSourcing.Fiber.Part
import EventSourcing.Fiber.Race

/-!
# Context.Basic -- calls that can be interrupted

A call runs under a context.  It is interrupted when the family of the context is
canceled, and when the deadline of the context has come.  Clones of a context belong to
its family, but have their own deadline from then on; a deadline can only come nearer.
-/

namespace EventSourcing

set_option autoImplicit false

/-- Why a call stopped early. -/
inductive Interruption where
  | canceled
  | deadlineExceeded
  deriving DecidableEq, Repr

def Interruption.message : Interruption → String
  | canceled => "context canceled"
  | deadlineExceeded => "context deadline exceeded"

/-- What a call runs under. -/
structure Context where
  family : Nat
  /-- The time at which the context ends by itself. -/
  deadline : Option Nat
  deriving DecidableEq, Repr

namespace Context

def new (c : Clock) : Context × Clock :=
  let (family, c) := c.newFamily
  (⟨family, none⟩, c)

/-- The context with a deadline, unless it has an earlier one. -/
def withDeadline (ctx : Context) (time : Nat) : Context :=
  { ctx with deadline := some (match ctx.deadline with
      | some earlier => min earlier time
      | none => time) }

def withTimeout (ctx : Context) (c : Clock) (span : Nat) : Context :=
  ctx.withDeadline (c.now + span)

/-- Why the context is no longer live, if it is not. -/
def interruption? (ctx : Context) (c : Clock) : Option Interruption :=
  if c.canceled.contains ctx.family then some .canceled
  else
    match ctx.deadline with
    | some time => if time ≤ c.now then some .deadlineExceeded else none
    | none => none

variable {W α : Type} (clock : Part W Clock)

def check (ctx : Context) : Fiber W (Option Interruption) :=
  Fiber.atomic fun w => (ctx.interruption? (clock.get w), w)

/-! ## Canceling -/

def cancel (ctx : Context) : Fiber W Unit := do
  Fiber.atomic fun w => ((), clock.modify (Clock.raise ctx.family) w)
  Fiber.atomic fun w => ((), clock.modify (Clock.notify ctx.family) w)

/-- Waits until the family of the context is canceled.  Each round registers for the next
notice before it reads the flag, and waits for that notice while the flag is down. -/
def listen (ctx : Context) : (rounds : Nat) → Fiber W Unit
  | 0 => Fiber.stuck
  | rounds + 1 => do
      let registered ← Fiber.atomic fun w => ((clock.get w).noticesOf ctx.family, w)
      if ← Fiber.atomic fun w => ((clock.get w).canceled.contains ctx.family, w) then return
      else
        Fiber.await fun w =>
          if (clock.get w).noticesOf ctx.family ≠ registered then some ((), w) else none
        listen ctx rounds

/-! ## Waiting -/

/-- Waits until it is some time. -/
def sleep (time : Nat) : Fiber W Unit := do
  Fiber.atomic fun w => ((), clock.modify (Clock.setAlarm time) w)
  Fiber.await fun w => if time ≤ (clock.get w).now then some ((), w) else none

/-- Waits until the context is no longer live.  Nobody is notified before the flag is up, so
that the second round of listening is the last. -/
def interrupted (ctx : Context) : Fiber W Interruption :=
  let canceled : Fiber W Interruption := do
    ctx.listen clock 2
    return .canceled
  match ctx.deadline with
  | none => canceled
  | some time => Fiber.either (fun w => (clock.get w).coin) canceled do
      sleep clock time
      return .deadlineExceeded

/-- Runs a fiber unless the context is interrupted first.  It does not even begin if the
context is not live to begin with. -/
def run (ctx : Context) (p : Fiber W α) : Fiber W (Except Interruption α) := do
  match ← ctx.check clock with
  | some reason => return .error reason
  | none => Fiber.race p (ctx.interrupted clock)

end Context

end EventSourcing
