import EventSourcing.Proofs.Context.Calling

/-!
# Proofs.Context.Asking -- requests under contexts

In a pool of requests some ask a context, some wait for its end or run something under it, and
some cancel it; whatever else is at work is courteous (`Ask.Courteous`).  How far each has come
can be told at any time (`Ask.Stands`).  Main statement: whoever has to wait has not been
notified of the end of its context (`Ask.Stands.asleep`).
-/

namespace EventSourcing

set_option autoImplicit false

/-! ## Requests -/

/-- What can be asked for where contexts are used. -/
inductive Ask (W : Type) : Type 1 where
  | check (ctx : Context)
  | interrupted (ctx : Context)
  | run {α : Type} (ctx : Context) (p : Fiber W α)
  | cancel (ctx : Context)
  | other {α : Type} (p : Fiber W α)

namespace Ask

variable {W : Type} (clock : Part W Clock)

def Result : Ask W → Type
  | check _ => Option Interruption
  | interrupted _ => Interruption
  | @run _ α _ _ => Except Interruption α
  | cancel _ => Unit
  | @other _ α _ => α

def answer : (r : Ask W) → Fiber W r.Result
  | check ctx => ctx.check clock
  | interrupted ctx => ctx.interrupted clock
  | run ctx p => ctx.run clock p
  | cancel ctx => ctx.cancel clock
  | other p => p

/-- What is run under a context and what goes on beside is courteous; no more is asked of it. -/
def Courteous : Ask W → Prop
  | run _ p => p.Courteous clock none
  | other p => p.Courteous clock none
  | _ => True

/-- The context for whose end a request waits, if it has to wait. -/
def under : Ask W → Option Context
  | interrupted ctx => some ctx
  | run ctx _ => some ctx
  | _ => none

variable {clock}

theorem courteous_answer {r : Ask W} (courteous : r.Courteous clock) :
    (r.answer clock).Courteous clock none := by
  have biding {α : Type} {p : Fiber W α} (keeps : p.Keeps (Context.Bides clock)) :
      p.Keeps fun w w' => (clock.get w).Orderly (clock.get w') :=
    Fiber.keeps_mono (fun _ _ bides => bides.orderly) keeps
  have looks (ctx : Context) : (ctx.check clock).Courteous clock none :=
    Fiber.courteous_of_keeps (biding Context.keeps_look)
  cases r with
  | check ctx => exact looks ctx
  | interrupted ctx => exact Fiber.courteous_of_keeps (biding (Context.keeps_interrupted clock ctx))
  | run ctx p =>
      refine Fiber.courteous_bind (looks ctx) fun asked => ?_
      cases asked with
      | some reason => rfl
      | none =>
          exact Fiber.courteous_race courteous (Context.pending_interrupted clock ctx)
            (biding (Context.keeps_interrupted clock ctx))
  | cancel ctx =>
      intro w b w' raised
      cases raised
      refine ⟨some ctx.family, ?_, fun w => ⟨(), _, rfl, ?_, rfl⟩⟩
      · rw [Part.get_modify]
        exact .raise ctx.family
      · exact Part.get_modify _ _ _
  | other p => exact courteous

/-! ## How far they have come -/

/-- How far someone has come who waits for the end of a context and nothing else. -/
inductive Waits (clock : Part W Clock) (ctx : Context) (c : Clock) :
    List (Move W) → Fiber W Interruption → Prop where
  | waiting {moves : List (Move W)} {q : Fiber W Interruption} (pending : q.Pending)
      (watching : Context.Watching clock ctx c q) : Waits clock ctx c moves q
  | told {moves : List (Move W)} {w : W} {reason : Interruption}
      (last : moves.getLast?.map Move.after = some w) (ended : ctx.Ended (clock.get w) reason) :
      Waits clock ctx c moves (.done reason)

/-- How far a request has come, by its moves and by what is left of it. -/
def Stands (clock : Part W Clock) (c : Clock) :
    (r : Ask W) → List (Move W) → Fiber W r.Result → Prop
  | check ctx, moves, q => moves = [] ∧ q = ctx.check clock ∨
      ∃ w, moves = [⟨w, w⟩] ∧ q = .done (ctx.interruption? (clock.get w))
  | interrupted ctx, moves, q => Waits clock ctx c moves q
  | run ctx p, moves, q => Context.Calls clock ctx p c moves q
  | cancel _, _, _ => True
  | other _, _, _ => True

variable {c c' : Clock} {r : Ask W} {moves : List (Move W)} {q q' : Fiber W r.Result} {mv : Move W}
  {w : W} {ctx : Context}

theorem stands_answer (clock : Part W Clock) (c : Clock) (r : Ask W) :
    r.Stands clock c [] (r.answer clock) := by
  cases r with
  | check ctx => exact .inl ⟨rfl, rfl⟩
  | interrupted ctx =>
      exact .waiting (Context.pending_interrupted clock ctx)
        (Context.watching_interrupted clock ctx c)
  | run ctx p => exact .begun
  | cancel ctx => trivial
  | other p => trivial

theorem Stands.goes (stands : r.Stands clock (clock.get mv.before) moves q) (goes : q.Goes mv q')
    (sound : (clock.get mv.before).Sound) (later : (clock.get mv.before).Later (clock.get mv.after))
    (still : (clock.get mv.after).now = (clock.get mv.before).now) :
    r.Stands clock (clock.get mv.after) (moves ++ [mv]) q' := by
  cases r with
  | check ctx =>
      rcases stands with ⟨rfl, rfl⟩ | ⟨_, _, rfl⟩
      · obtain ⟨w, w'⟩ := mv
        obtain ⟨taken⟩ := goes
        cases taken
        exact .inr ⟨w, rfl, rfl⟩
      · cases goes
  | interrupted ctx =>
      cases stands with
      | waiting pending watching =>
          obtain ⟨_, after⟩ := watching.goes sound goes
          cases q' with
          | done reason => exact .told (by rw [List.getLast?_concat]; rfl) after.ended
          | step act rest => exact .waiting trivial after
      | told last ended => cases goes
  | run ctx p => exact Context.Calls.goes stands goes sound later still
  | cancel ctx => trivial
  | other p => trivial

theorem Stands.later (stands : r.Stands clock c moves q) (later : c.Later c')
    (still : c'.now = c.now) : r.Stands clock c' moves q := by
  cases r with
  | check ctx => exact stands
  | interrupted ctx =>
      cases stands with
      | waiting pending watching => exact .waiting pending (watching.later later)
      | told last ended => exact .told last ended
  | run ctx p => exact Context.Calls.later stands later still
  | cancel ctx => trivial
  | other p => trivial

theorem Stands.pass {time : Nat} (stands : r.Stands clock (clock.get w) moves q)
    (rests : q.Pending → q.Asleep w)
    (alarms : ∀ alarm ∈ (clock.get w).alarms, (clock.get w).now < alarm → time ≤ alarm) :
    r.Stands clock ((clock.get w).advanceTo time) moves q := by
  cases r with
  | check ctx => exact stands
  | interrupted ctx =>
      cases stands with
      | waiting pending watching =>
          exact .waiting pending (watching.later (Clock.later_advanceTo time _))
      | told last ended => exact .told last ended
  | run ctx p => exact Context.Calls.pass stands rests alarms
  | cancel ctx => trivial
  | other p => trivial

/-- Whoever has to wait has not been notified of the end of its context, and the alarm is set for
its deadline. -/
theorem Stands.asleep (stands : r.Stands clock c moves q) (under : r.under = some ctx)
    (asleep : q.Asleep w) : ctx.family ∉ (clock.get w).notices ∧
      ∀ time, ctx.deadline = some time → (clock.get w).now < time ∧ time ∈ c.alarms := by
  cases r with
  | interrupted ctx =>
      cases under
      cases stands with
      | waiting pending watching => exact watching.asleep asleep
      | told last ended => cases asleep
  | run ctx p =>
      cases under
      obtain ⟨_, _, q', _, _, _, _, watching, waits⟩ := Context.Calls.asleep stands asleep
      exact watching.asleep waits
  | check _ => cases under
  | cancel _ => cases under
  | other _ => cases under

end Ask

end EventSourcing
