import EventSourcing.Context.Basic

/-!
# Context.Run -- a fiber that is run to its end

A fiber goes on as long as it can.  When it has to wait, time passes from one moment at
which something happens to the next, and the fiber tries again.  After a while its patience
is at an end.  Another fiber may go on beside it, whenever the first has to wait.
-/

namespace EventSourcing.Fiber

set_option autoImplicit false

variable {W β : Type} (clock : Part W Clock)

/-- Tries an action at each of some moments, after the fiber beside has gone as far as it
can. -/
def awaitAt (act : W → Option (β × W)) :
    List Nat → Fiber W Unit → W → Option β × Fiber W Unit × W
  | [], beside, w => (none, beside, w)
  | time :: later, beside, w =>
      let (beside, w) := beside.advance (clock.modify (Clock.advanceTo time) w)
      match act w with
      | some (b, w) => (some b, beside, w)
      | none => awaitAt act later beside w

/-- Runs a fiber that never waits longer than `patience`, with another one beside it.  Gives
no result if it would wait longer, and what is left of the other one. -/
def runBeside {α : Type} (patience : Nat) :
    Fiber W α → Fiber W Unit → W → Option α × Fiber W Unit × W
  | done a, beside, w => (some a, beside, w)
  | step act rest, beside, w =>
      match act w with
      | some (b, w) => runBeside patience (rest b) beside w
      | none =>
          let (beside, w) := beside.advance w
          let c := clock.get w
          match awaitAt clock act (c.now :: c.moments (c.now + patience)) beside w with
          | (some b, beside, w) => runBeside patience (rest b) beside w
          | (none, beside, w) => (none, beside, w)

def run {α : Type} (patience : Nat) (p : Fiber W α) (w : W) : Option α × W :=
  let (result, _, w) := runBeside clock patience p (done ()) w
  (result, w)

end EventSourcing.Fiber
