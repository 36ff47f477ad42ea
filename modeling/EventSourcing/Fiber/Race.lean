import EventSourcing.Fiber.Basic

/-!
# Fiber.Race -- two fibers, of which one is needed

Two fibers go on side by side until one of them has ended, and the other is then forgotten.
Where neither is preferred, either of them takes the next step (`Fiber.either`).  A race
prefers the first one (`Fiber.race`): each round of it lets the first go as far as it can and
then the second, and only then waits until one of them can go on.
-/

namespace EventSourcing.Fiber

set_option autoImplicit false

variable {W α β γ δ : Type}

/-- The first of two actions that can be taken; `swap` tells whether the second is tried
first. -/
def firstOf (swap : Bool) (act : W → Option (γ × W)) (act' : W → Option (δ × W)) (w : W) :
    Option ((γ ⊕ δ) × W) :=
  let left := (act w).map fun (c, w) => (.inl c, w)
  let right := (act' w).map fun (d, w) => (.inr d, w)
  if swap then right <|> left else left <|> right

/-! ## Without preference -/

/-- A step `act` and a fiber side by side; `again` tells how it goes on after the step. -/
def eitherWith (swap : W → Bool) (act : W → Option (γ × W)) (again : γ → Fiber W α → Fiber W α) :
    Fiber W α → Fiber W α
  | done a => done a
  | step act' rest' =>
      step (fun w => firstOf (swap w) act act' w)
        (Sum.elim (fun c => again c (step act' rest'))
          fun d => eitherWith swap act again (rest' d))

/-- Two fibers side by side.  Where both can go on, `swap` tells whether the second does. -/
def either (swap : W → Bool) : Fiber W α → Fiber W α → Fiber W α
  | done a, _ => done a
  | step act rest, q => eitherWith swap act (fun c => either swap (rest c)) q

/-! ## Races -/

/-- A race in which it is the turn of one of the two: of the first, or of the second. -/
structure Turns (W α β : Type) where
  first : Fiber W (Except β α)
  second : Fiber W (Except β α)

/-- A race between a step `act` and a fiber; `again` tells how it goes on after the step.  The
second gives the turn back when it cannot go on.  Where neither can, the first has the turn. -/
def raceWith (act : W → Option (γ × W)) (again : γ → Fiber W β → Turns W α β) :
    Fiber W β → Turns W α β
  | done b =>
      { first := step (firstOf false act fun w => some ((), w))
          (Sum.elim (fun c => (again c (done b)).first) fun _ => done (.error b))
        second := done (.error b) }
  | step act' rest' =>
      let first := step (firstOf false act act')
        (Sum.elim (fun c => (again c (step act' rest')).first)
          fun d => (raceWith act again (rest' d)).second)
      { first
        second := step (firstOf false act' fun w => some ((), w))
          (Sum.elim (fun d => (raceWith act again (rest' d)).second) fun _ => first) }

/-- A race, whoever has the turn. -/
def turns : Fiber W α → Fiber W β → Turns W α β
  | done a, _ => ⟨done (.ok a), done (.ok a)⟩
  | step act rest, q => raceWith act (fun c => turns (rest c)) q

/-- A race that the first fiber wins if it can end before the second does. -/
def race (p : Fiber W α) (q : Fiber W β) : Fiber W (Except β α) :=
  (turns p q).first

/-- A race in which it is the turn of the second fiber. -/
def raceBack (p : Fiber W α) (q : Fiber W β) : Fiber W (Except β α) :=
  (turns p q).second

end EventSourcing.Fiber
