/-!
# Fiber.Part -- parts of a shared state

Components that share a state each own a part of it.  A part is read and replaced
without regard to the rest.
-/

namespace EventSourcing

set_option autoImplicit false

/-- A part of type `S` in a state of type `W`. -/
structure Part (W S : Type) where
  get : W → S
  set : S → W → W
  get_set : ∀ s w, get (set s w) = s := by intros; rfl
  set_get : ∀ w, set (get w) w = w := by intros; rfl
  set_set : ∀ s t w, set s (set t w) = set s w := by intros; rfl

namespace Part

variable {W S : Type}

def modify (p : Part W S) (f : S → S) (w : W) : W :=
  p.set (f (p.get w)) w

structure Disjoint {T : Type} (p : Part W S) (q : Part W T) : Prop where
  get_set_left : ∀ t w, p.get (q.set t w) = p.get w
  get_set_right : ∀ s w, q.get (p.set s w) = q.get w
  set_comm : ∀ s t w, p.set s (q.set t w) = q.set t (p.set s w)

@[simp] theorem get_modify (p : Part W S) (f : S → S) (w : W) :
    p.get (p.modify f w) = f (p.get w) :=
  p.get_set _ _

end Part

end EventSourcing
