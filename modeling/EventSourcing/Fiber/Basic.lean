/-!
# Fiber.Basic -- computations that take turns

A fiber works on a state that it shares with others.  It goes on in steps; each step
is a single action on the shared state, and between two steps the others may act.  An
action that cannot be taken yet leaves the fiber where it is until it can.

A fiber is a tree: a step and what follows for each outcome of it.  Therefore every
fiber ends after finitely many steps of its own, if it is ever let.
-/

namespace EventSourcing

set_option autoImplicit false

/-- A computation over a shared state of type `W` that ends with an `α`. -/
inductive Fiber (W α : Type) : Type 1 where
  | done (result : α)
  /-- An action, which gives nothing while it cannot be taken, and what follows it. -/
  | step {β : Type} (act : W → Option (β × W)) (rest : β → Fiber W α)

namespace Fiber

variable {W α β : Type}

/-- Goes on with what a fiber ends with. -/
def bind : Fiber W α → (α → Fiber W β) → Fiber W β
  | done a, next => next a
  | step act rest, next => step act fun b => (rest b).bind next

instance : Monad (Fiber W) where
  pure := done
  bind := bind

/-- An action as soon as it can be taken. -/
def await (act : W → Option (α × W)) : Fiber W α :=
  step act done

/-- An action that can always be taken. -/
def atomic (act : W → α × W) : Fiber W α :=
  await fun w => some (act w)

/-- A fiber that waits for good. -/
def stuck : Fiber W α :=
  await fun _ => none

/-- A fiber that goes as far as it can at once, and the state then. -/
def advance : Fiber W α → W → Fiber W α × W
  | done a, w => (done a, w)
  | step act rest, w =>
      match act w with
      | some (b, w) => advance (rest b) w
      | none => (step act rest, w)

theorem bind_done (p : Fiber W α) : p.bind done = p := by
  induction p with
  | done a => rfl
  | step act rest ih => simp only [bind, ih]

theorem bind_assoc {γ : Type} (p : Fiber W α) (f : α → Fiber W β) (g : β → Fiber W γ) :
    (p.bind f).bind g = p.bind fun a => (f a).bind g := by
  induction p with
  | done a => rfl
  | step act rest ih => simp only [bind, ih]

instance : LawfulMonad (Fiber W) :=
  LawfulMonad.mk' (Fiber W) (fun p => bind_done p) (fun _ _ => rfl)
    (fun p f g => bind_assoc p f g)

end Fiber

end EventSourcing
