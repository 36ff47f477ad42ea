import EventSourcing.Proofs.Fiber.Pool

/-!
# Proofs.Fiber.Schedule -- letting fibers take turns

A schedule says which request comes in next or which task takes its next step.  Whatever a
schedule brings about is reachable (`Pool.reachable_play`), and its requests are those that
came in (`Pool.requests_play`).
-/

namespace EventSourcing

set_option autoImplicit false

/-- What is to happen next. -/
inductive Cue (R : Type 1) : Type 1 where
  | start (r : R)
  | turn (k : Nat)

variable {W : Type} {R : Type 1} {Result : R → Type}

def Task.endedWith (good : (r : R) → Result r → Bool) : Task W Result → Bool
  | ⟨r, _, .done result⟩ => good r result
  | ⟨_, _, .step _ _⟩ => false

namespace Pool

/-- Lets a task take its next step, if it can take one. -/
def turn (k : Nat) (pool : Pool W Result) : Pool W Result :=
  match pool.tasks[k]? with
  | some ⟨r, moves, .step act rest⟩ =>
      match act pool.state with
      | some (b, w) => ⟨w, pool.tasks.set k ⟨r, moves ++ [⟨pool.state, w⟩], rest b⟩⟩
      | none => pool
  | _ => pool

variable (answer : (r : R) → Fiber W (Result r))

def play : List (Cue R) → Pool W Result → Pool W Result
  | [], pool => pool
  | .start r :: rest, pool => play rest ⟨pool.state, pool.tasks ++ [⟨r, [], answer r⟩]⟩
  | .turn k :: rest, pool => play rest (pool.turn k)

variable {answer} {allowed : R → Prop} {outside : W → W → Prop} {pool : Pool W Result}

theorem steps_turn (answer : (r : R) → Fiber W (Result r)) (allowed : R → Prop)
    (outside : W → W → Prop) (pool : Pool W Result) (k : Nat) :
    Relation.ReflTransGen (Step answer allowed outside) pool (pool.turn k) := by
  unfold turn
  split
  · rename_i task
    split
    · rename_i taken
      exact .single (.turn k task taken)
    · exact .refl
  · exact .refl

/-- A schedule of allowed requests is followed step by step. -/
theorem steps_play {cues : List (Cue R)} (may : ∀ r, Cue.start r ∈ cues → allowed r) :
    Relation.ReflTransGen (Step answer allowed outside) pool (play answer cues pool) := by
  induction cues generalizing pool with
  | nil => exact .refl
  | cons cue rest ih =>
      have later : ∀ r, Cue.start r ∈ rest → allowed r := fun r member => may r (.tail _ member)
      cases cue with
      | start r => exact (ih later).head (.start r (may r List.mem_cons_self))
      | turn k => exact (steps_turn answer allowed outside pool k).trans (ih later)

/-- Whatever a schedule of allowed requests brings about is reachable. -/
theorem reachable_play {cues : List (Cue R)} {start : W}
    (may : ∀ r, Cue.start r ∈ cues → allowed r)
    (reachable : Reachable answer allowed outside start pool) :
    Reachable answer allowed outside start (play answer cues pool) :=
  reachable.trans (steps_play may)

/-! ## Who asked for what -/

def requests : List (Cue R) → List R
  | [] => []
  | .start r :: rest => r :: requests rest
  | .turn _ :: rest => requests rest

theorem requests_turn (k : Nat) :
    (pool.turn k).tasks.map Task.request = pool.tasks.map Task.request := by
  unfold turn
  split
  · rename_i task
    split
    · refine List.ext_getElem? fun j => ?_
      rw [List.getElem?_map, List.getElem?_map, List.getElem?_set]
      by_cases same : k = j
      · subst same
        rw [if_pos rfl, if_pos (List.getElem?_eq_some_iff.1 task).1, task]
        rfl
      · rw [if_neg same]
    · rfl
  · rfl

theorem requests_play (cues : List (Cue R)) :
    (play answer cues pool).tasks.map Task.request =
      pool.tasks.map Task.request ++ requests cues := by
  induction cues generalizing pool with
  | nil => exact (List.append_nil _).symm
  | cons cue rest ih =>
      cases cue with
      | start r =>
          rw [play, ih, List.map_append, List.append_assoc]
          rfl
      | turn k =>
          rw [play, ih, requests_turn]
          rfl

/-- A task that has ended with a good result, at its place. -/
theorem ended_at {k : Nat} {good : (r : R) → Result r → Bool}
    (ended : (pool.tasks[k]?).any (Task.endedWith good)) :
    ∃ r moves result, pool.tasks[k]? = some ⟨r, moves, .done result⟩ ∧ good r result := by
  rw [Option.any_eq_true] at ended
  obtain ⟨⟨r, moves, fiber⟩, found, ended⟩ := ended
  cases fiber with
  | done result => exact ⟨r, moves, result, found, ended⟩
  | step act rest => cases ended

/-- A request of a schedule whose task has ended with a good result. -/
theorem ended_request {cues : List (Cue R)} {start : W} {k : Nat} {r : R}
    {good : (r : R) → Result r → Bool} (asked : (requests cues)[k]? = some r)
    (ended : ((play answer cues ⟨start, []⟩).tasks[k]?).any (Task.endedWith good)) :
    ∃ moves result, (play answer cues ⟨start, []⟩).tasks[k]? = some ⟨r, moves, .done result⟩ ∧
      good r result := by
  have same : (play answer cues ⟨start, []⟩).tasks.map Task.request = requests cues :=
    requests_play cues
  obtain ⟨r', moves, result, found, ended⟩ := ended_at ended
  have asked' := congrArg (·[k]?) same
  rw [List.getElem?_map, found, asked] at asked'
  cases asked'
  exact ⟨moves, result, found, ended⟩

/-- A task of a schedule that has ended with a good result. -/
theorem ended_play {cues : List (Cue R)} {start : W} {k : Nat} {r : R}
    {good : (r : R) → Result r → Bool} (asked : (requests cues)[k]? = some r)
    (ended : ((play answer cues ⟨start, []⟩).tasks[k]?).any (Task.endedWith good)) :
    ∃ moves result, ⟨r, moves, .done result⟩ ∈ (play answer cues ⟨start, []⟩).tasks ∧
      good r result := by
  obtain ⟨moves, result, found, good⟩ := ended_request asked ended
  exact ⟨moves, result, List.mem_of_getElem? found, good⟩

end Pool

end EventSourcing
