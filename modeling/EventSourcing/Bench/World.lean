import EventSourcing.Bench.Rig
import EventSourcing.Bench.View
import EventSourcing.Context.Run
import EventSourcing.Log.Interleaving
import EventSourcing.Log.Memory
import EventSourcing.Store.Memory

/-!
# Bench.World -- the shared state of the bench

Everything that the fibers on the bench share: the clock and the named contexts, one
log with its second writer, one store, the rig, and a record of what the methods were
shown.
-/

namespace EventSourcing.Bench

set_option autoImplicit false

/-- A transaction that is kept open. -/
inductive Held where
  | reader
  | writer
  deriving DecidableEq, Repr

structure World where
  clock : Clock
  contexts : List (String × Context)
  log : Log.Memory
  queue : Log.Queue
  cell : Store.Cell View
  rig : Rig
  held : Option Held
  /-- For each run of a method during the call under way, how many events had been folded
  in. -/
  seen : List Nat

namespace World

def start : World :=
  ⟨.start, [], .empty, .empty, .new .empty, .idle, none, []⟩

def clockPart : Part World Clock where
  get := clock
  set c w := { w with clock := c }

def logPart : Part World Log.Memory where
  get := log
  set l w := { w with log := l }

def queuePart : Part World Log.Queue where
  get := queue
  set q w := { w with queue := q }

def cellPart : Part World (Store.Cell View) where
  get := cell
  set c w := { w with cell := c }

def rigPart : Part World Rig where
  get := rig
  set r w := { w with rig := r }

/-- How often a scripted method or attempt runs at most. -/
def mostRuns : Nat := 20

/-- How long a fiber waits, in milliseconds. -/
def patience : Nat := 3600000

def run {α : Type} (p : Fiber World α) (w : World) : Option α × World :=
  p.run clockPart patience w

/-! ## Contexts -/

/-- The context with a name; without a name, a new one. -/
def context (name : Option String) (w : World) : Context × World :=
  match name.bind (w.contexts.lookup ·) with
  | some ctx => (ctx, w)
  | none =>
      let (ctx, clock) := Context.new w.clock
      (ctx, { w with clock })

/-- Makes a context, or a clone of another, with deadlines some time from now and at some
times, and gives it a name. -/
def newContext (name : String) (of : Option String) (timeouts deadlines : List Nat) (w : World) :
    Context × World :=
  let (ctx, w) := w.context of
  let ctx := timeouts.foldl (fun ctx span => ctx.withTimeout w.clock span) ctx
  let ctx := deadlines.foldl Context.withDeadline ctx
  (ctx, { w with contexts := (name, ctx) :: w.contexts })

def cancel (ctx : Context) (w : World) : World :=
  ((ctx.cancel clockPart).advance w).2

def advance (span : Nat) (w : World) : World :=
  clockPart.modify (fun c => c.advanceTo (c.now + span)) w

/-- What runs under a context. -/
inductive Work where
  | ready
  | sleep (span : Nat)
  | endless

def work (ctx : Context) : Work → Fiber World (Except Interruption Unit)
  | .ready => ctx.run clockPart (pure ())
  | .endless => ctx.run clockPart Fiber.stuck
  | .sleep span => do
      let wake ← Fiber.atomic fun w => (w.clock.now + span, w)
      ctx.run clockPart (Context.sleep clockPart wake)

/-- Runs a fiber while the context is to be canceled after some time, and lets that time
pass in any case. -/
def runCanceling {α : Type} (ctx : Context) (after : Option Nat) (p : Fiber World α)
    (w : World) : Option α × World :=
  match after with
  | none => w.run p
  | some span =>
      let time := w.clock.now + span
      let canceling : Fiber World Unit := do
        Context.sleep clockPart time
        ctx.cancel clockPart
      let (result, beside, w) := p.runBeside clockPart patience canceling w
      let (_, w) := beside.advance (clockPart.modify (Clock.advanceTo time) w)
      (result, w)

end World

end EventSourcing.Bench
