import EventSourcing.Fiber.Basic
import Mathlib.Logic.Relation

/-!
# Proofs.Fiber.Pool -- fibers that take turns

A pool is a shared state together with the tasks that are under way on it.  A task
answers a request by a fiber.  Requests come in at any time, the tasks take their steps in
any order, and between two steps something may happen outside of all of them.  Each task
keeps a record of its own moves, so that what one call did to the shared state can be told
from what happened meanwhile.
-/

namespace EventSourcing

set_option autoImplicit false

/-- What one action made of the shared state. -/
structure Move (W : Type) where
  before : W
  after : W

structure Task (W : Type) {R : Type 1} (Result : R → Type) where
  request : R
  /-- The moves made for this request so far, the first one first. -/
  moves : List (Move W)
  /-- What is still to be done. -/
  fiber : Fiber W (Result request)

/-- A shared state and the tasks on it, in the order in which the requests came in. -/
structure Pool (W : Type) {R : Type 1} (Result : R → Type) where
  state : W
  tasks : List (Task W Result)

namespace Pool

variable {W : Type} {R : Type 1} {Result : R → Type}

/-- What can happen next: an allowed request comes in, a task takes its next step if that
can be taken, or something happens outside. -/
inductive Step (answer : (r : R) → Fiber W (Result r)) (allowed : R → Prop)
    (outside : W → W → Prop) : Pool W Result → Pool W Result → Prop where
  | start {w : W} {tasks : List (Task W Result)} (r : R) :
      allowed r → Step answer allowed outside ⟨w, tasks⟩ ⟨w, tasks ++ [⟨r, [], answer r⟩]⟩
  | turn {w w' : W} {tasks : List (Task W Result)} {r : R} {moves : List (Move W)}
      {β : Type} {act : W → Option (β × W)} {rest : β → Fiber W (Result r)} {b : β} (k : Nat) :
      tasks[k]? = some ⟨r, moves, .step act rest⟩ → act w = some (b, w') →
        Step answer allowed outside ⟨w, tasks⟩
          ⟨w', tasks.set k ⟨r, moves ++ [⟨w, w'⟩], rest b⟩⟩
  | outside {w w' : W} {tasks : List (Task W Result)} :
      outside w w' → Step answer allowed outside ⟨w, tasks⟩ ⟨w', tasks⟩

/-- Whatever can come of a shared state on which no task is under way. -/
def Reachable (answer : (r : R) → Fiber W (Result r)) (allowed : R → Prop)
    (outside : W → W → Prop) (start : W) : Pool W Result → Prop :=
  Relation.ReflTransGen (Step answer allowed outside) ⟨start, []⟩

/-- Only allowed requests are ever answered. -/
theorem Reachable.allowed {answer : (r : R) → Fiber W (Result r)} {allowed : R → Prop}
    {outside : W → W → Prop} {start : W} {pool : Pool W Result}
    (reachable : Reachable answer allowed outside start pool) :
    ∀ task ∈ pool.tasks, allowed task.request := by
  induction reachable with
  | refl => intro task member; cases member
  | tail _ step ih =>
      cases step with
      | start r may =>
          intro task member
          rcases List.mem_append.1 member with old | new
          · exact ih task old
          · rw [List.mem_singleton.1 new]
            exact may
      | turn k found taken =>
          intro task member
          rcases List.mem_or_eq_of_mem_set member with old | rfl
          · exact ih task old
          · have asked := ih _ (List.mem_of_getElem? found)
            exact asked
      | outside happened => exact ih

end Pool

end EventSourcing
