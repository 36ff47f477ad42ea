import EventSourcing.Proofs.Fiber.Schedule
import EventSourcing.Proofs.Fiber.Standing
import Mathlib.Data.List.Chain

/-!
# Proofs.Fiber.History -- who moved when

A pool records for each task what it did, but not how the moves of different tasks follow
each other.  A history does: it lists all moves in the order in which they were made, each
with the number of its task.  Every reachable pool has a history (`Pool.exists_history`), and
the moves of a task are those in it that carry its number (`Pool.History.moves`).  Main
statement: what grows between two moves of a task is made to grow by a move of another task
in between (`Pool.gaps_le_growths`).
-/

namespace EventSourcing

set_option autoImplicit false

namespace Pool

variable {W : Type} {R : Type 1} {Result : R → Type}

/-- All moves that have been made, in order, from the start on. -/
inductive History (answer : (r : R) → Fiber W (Result r)) (allowed : R → Prop)
    (outside : W → W → Prop) (start : W) : List (Nat × Move W) → Pool W Result → Prop where
  | begun : History answer allowed outside start [] ⟨start, []⟩
  | start {made : List (Nat × Move W)} {w : W} {tasks : List (Task W Result)} (r : R) :
      History answer allowed outside start made ⟨w, tasks⟩ → allowed r →
        History answer allowed outside start made ⟨w, tasks ++ [⟨r, [], answer r⟩]⟩
  | turn {made : List (Nat × Move W)} {w w' : W} {tasks : List (Task W Result)} {r : R}
      {moves : List (Move W)} {β : Type} {act : W → Option (β × W)}
      {rest : β → Fiber W (Result r)} {b : β} (k : Nat) :
      History answer allowed outside start made ⟨w, tasks⟩ →
        tasks[k]? = some ⟨r, moves, .step act rest⟩ → act w = some (b, w') →
          History answer allowed outside start (made ++ [(k, ⟨w, w'⟩)])
            ⟨w', tasks.set k ⟨r, moves ++ [⟨w, w'⟩], rest b⟩⟩
  | outside {made : List (Nat × Move W)} {w w' : W} {tasks : List (Task W Result)} :
      History answer allowed outside start made ⟨w, tasks⟩ → outside w w' →
        History answer allowed outside start made ⟨w', tasks⟩

def ownMoves (k : Nat) (made : List (Nat × Move W)) : List (Move W) :=
  (made.filter (·.1 = k)).map (·.2)

def otherMoves (k : Nat) (made : List (Nat × Move W)) : List (Move W) :=
  (made.filter (·.1 ≠ k)).map (·.2)

variable {answer : (r : R) → Fiber W (Result r)} {allowed : R → Prop} {outside : W → W → Prop}
  {start : W} {made : List (Nat × Move W)} {pool : Pool W Result}

theorem History.reachable (history : History answer allowed outside start made pool) :
    Reachable answer allowed outside start pool := by
  induction history with
  | begun => exact .refl
  | start r _ may ih => exact ih.tail (.start r may)
  | turn k _ found taken ih => exact ih.tail (.turn k found taken)
  | outside _ happened ih => exact ih.tail (.outside happened)

theorem exists_history (reachable : Reachable answer allowed outside start pool) :
    ∃ made, History answer allowed outside start made pool := by
  induction reachable with
  | refl => exact ⟨[], .begun⟩
  | tail _ step ih =>
      obtain ⟨made, history⟩ := ih
      cases step with
      | start r may => exact ⟨made, .start r history may⟩
      | turn k found taken => exact ⟨_, .turn k history found taken⟩
      | outside happened => exact ⟨made, .outside history happened⟩

theorem ownMoves_append (k : Nat) (made made' : List (Nat × Move W)) :
    ownMoves k (made ++ made') = ownMoves k made ++ ownMoves k made' := by
  rw [ownMoves, List.filter_append, List.map_append]
  rfl

theorem ownMoves_cons_self (k : Nat) (mv : Move W) (made : List (Nat × Move W)) :
    ownMoves k ((k, mv) :: made) = mv :: ownMoves k made := by
  simp [ownMoves]

theorem ownMoves_cons_ne {j k : Nat} (other : j ≠ k) (mv : Move W)
    (made : List (Nat × Move W)) : ownMoves k ((j, mv) :: made) = ownMoves k made := by
  simp [ownMoves, other]

theorem otherMoves_cons_self (k : Nat) (mv : Move W) (made : List (Nat × Move W)) :
    otherMoves k ((k, mv) :: made) = otherMoves k made := by
  simp [otherMoves]

theorem otherMoves_cons_ne {j k : Nat} (other : j ≠ k) (mv : Move W)
    (made : List (Nat × Move W)) : otherMoves k ((j, mv) :: made) = mv :: otherMoves k made := by
  simp [otherMoves, other]

/-- The moves of a task are those that carry its number. -/
theorem History.ownMoves_eq (history : History answer allowed outside start made pool) (k : Nat) :
    ownMoves k made = (pool.tasks[k]?.map Task.moves).getD [] := by
  induction history with
  | begun => rfl
  | @start made w tasks r _ _ ih =>
      rw [ih]
      rcases Nat.lt_trichotomy k tasks.length with old | rfl | beyond
      · rw [List.getElem?_append_left old]
      · rw [List.getElem?_concat_length, List.getElem?_eq_none (Nat.le_refl _)]
        rfl
      · have more : (tasks ++ [(⟨r, [], answer r⟩ : Task W Result)]).length ≤ k := by
          rw [List.length_append, List.length_singleton]
          exact beyond
        rw [List.getElem?_eq_none more, List.getElem?_eq_none (Nat.le_of_lt beyond)]
  | @turn made w w' tasks r moves β act rest b j _ found taken ih =>
      rw [ownMoves_append, ih]
      by_cases same : j = k
      · subst same
        have inside : j < tasks.length := (List.getElem?_eq_some_iff.1 found).1
        rw [List.getElem?_set_self inside, found, ownMoves_cons_self]
        rfl
      · rw [List.getElem?_set_ne same, ownMoves_cons_ne same]
        exact List.append_nil _
  | outside _ _ ih => exact ih

theorem History.moves (history : History answer allowed outside start made pool) {k : Nat}
    {task : Task W Result} (found : pool.tasks[k]? = some task) : ownMoves k made = task.moves := by
  rw [history.ownMoves_eq, found]
  rfl

/-- Whatever has been done was done by some task. -/
theorem History.mem_moves (history : History answer allowed outside start made pool) :
    ∀ e ∈ made, ∃ task ∈ pool.tasks, e.2 ∈ task.moves := by
  intro e member
  have own : e.2 ∈ ownMoves e.1 made :=
    List.mem_map.2 ⟨e, List.mem_filter.2 ⟨member, decide_eq_true rfl⟩, rfl⟩
  rw [history.ownMoves_eq] at own
  cases found : pool.tasks[e.1]? with
  | none =>
      rw [found] at own
      cases own
  | some task =>
      rw [found] at own
      exact ⟨task, List.mem_of_getElem? found, own⟩

/-- Where a task was when it made one of its moves. -/
theorem cut_at_move {k : Nat} {before after : List (Move W)} {mv : Move W}
    (own : ownMoves k made = before ++ mv :: after) :
    ∃ earlier later, made = earlier ++ (k, mv) :: later ∧ ownMoves k earlier = before ∧
      ownMoves k later = after := by
  induction made generalizing before with
  | nil => cases before <;> cases own
  | cons e rest ih =>
      obtain ⟨j, mv'⟩ := e
      by_cases same : j = k
      · subst same
        rw [ownMoves_cons_self] at own
        cases before with
        | nil =>
            cases own
            exact ⟨[], rest, rfl, rfl, rfl⟩
        | cons first before =>
            obtain ⟨same, others⟩ := List.cons.inj own
            obtain ⟨earlier, later, rfl, led, on⟩ := ih others
            exact ⟨_ :: earlier, later, rfl, by rw [ownMoves_cons_self, led, same], on⟩
      · rw [ownMoves_cons_ne same] at own
        obtain ⟨earlier, later, rfl, led, on⟩ := ih own
        exact ⟨_ :: earlier, later, rfl, by rw [ownMoves_cons_ne same, led], on⟩

/-! ## What grows -/

section

variable (size : W → Nat)

/-- Of two moves the second begins where the first has ended, as far as `size` tells. -/
def Adjoins (first second : Nat × Move W) : Prop :=
  size second.2.before = size first.2.after

/-- How often it has grown since a state when one of some moves was made. -/
def gaps : W → List (Move W) → Nat
  | _, [] => 0
  | w, mv :: rest => (if size w < size mv.before then 1 else 0) + gaps mv.after rest

variable {size}

theorem gaps_append (w : W) (moves moves' : List (Move W)) :
    gaps size w (moves ++ moves') =
      gaps size w moves + gaps size (stateAfter w moves) moves' := by
  induction moves generalizing w with
  | nil => exact (Nat.zero_add _).symm
  | cons mv rest ih =>
      rw [List.cons_append, gaps, gaps, ih, stateAfter, Nat.add_assoc]

/-- What grows in two stages grows in one of them. -/
theorem grown_le_add (a b c : Nat) :
    (if a < c then 1 else 0) ≤ (if a < b then 1 else 0) + if b < c then 1 else 0 := by
  split <;> split <;> split <;> omega

/-- What has grown in the course of moves that do not make it grow has grown in between. -/
theorem grown_le_gaps {w : W} {moves : List (Move W)}
    (still : ∀ mv ∈ moves, size mv.after = size mv.before) :
    (if size w < size (stateAfter w moves) then 1 else 0) ≤ gaps size w moves := by
  induction moves generalizing w with
  | nil => rw [stateAfter, if_neg (Nat.lt_irrefl _)]; exact Nat.zero_le _
  | cons mv rest ih =>
      obtain ⟨same, later⟩ := List.forall_mem_cons.1 still
      have within := ih (w := mv.after) later
      rw [gaps, stateAfter]
      rw [same] at within
      exact (grown_le_add _ _ _).trans (Nat.add_le_add_left within _)

/-- Moves that were made one after the other adjoin if nothing else changes the size. -/
theorem History.adjoins (history : History answer allowed outside start made pool)
    (outer : ∀ w w', outside w w' → size w' = size w) :
    made.IsChain (Adjoins size) ∧ ∀ e ∈ made.getLast?, size pool.state = size e.2.after := by
  induction history with
  | begun => exact ⟨.nil, fun e member => by cases member⟩
  | start r _ _ ih => exact ih
  | @turn made w w' tasks r moves β act rest b k _ found taken ih =>
      obtain ⟨chain, last⟩ := ih
      refine ⟨List.isChain_append.2 ⟨chain, .singleton _, ?_⟩, ?_⟩
      · intro e ended e' added
        cases added
        exact last e ended
      · intro e ended
        rw [List.getLast?_concat] at ended
        cases ended
        rfl
  | @outside made w w' tasks _ happened ih =>
      obtain ⟨chain, last⟩ := ih
      exact ⟨chain, fun e ended => (outer _ _ happened).trans (last e ended)⟩

theorem gaps_le_of_grown {w w' : W} (grown : size w ≤ size w') (moves : List (Move W)) :
    gaps size w moves ≤ (if size w < size w' then 1 else 0) + gaps size w' moves := by
  cases moves with
  | nil => exact Nat.zero_le _
  | cons mv rest =>
      rw [gaps, gaps]
      split <;> split <;> split <;> omega

/-- Whenever it has grown between two moves of a task, another task has made it grow. -/
theorem gaps_le_growths {k : Nat} {first : Nat × Move W} {made : List (Nat × Move W)}
    (chain : (first :: made).IsChain (Adjoins size))
    (grow : ∀ e ∈ made, size e.2.before ≤ size e.2.after) :
    gaps size first.2.after (ownMoves k made) ≤
      (otherMoves k made).countP fun mv => size mv.before < size mv.after := by
  induction made generalizing first with
  | nil => exact Nat.zero_le _
  | cons e rest ih =>
      obtain ⟨j, mv⟩ := e
      obtain ⟨adjoins, chain⟩ := List.isChain_cons_cons.1 chain
      obtain ⟨grown, later⟩ := List.forall_mem_cons.1 grow
      have within := ih chain later
      dsimp only at within
      by_cases same : j = k
      · subst same
        have begins : size mv.before = size first.2.after := adjoins
        rw [ownMoves_cons_self, otherMoves_cons_self, gaps, begins, if_neg (Nat.lt_irrefl _),
          Nat.zero_add]
        exact within
      · have begins : size mv.before = size first.2.after := adjoins
        rw [ownMoves_cons_ne same, otherMoves_cons_ne same, List.countP_cons]
        refine Nat.le_trans (gaps_le_of_grown (begins ▸ grown) _) ?_
        simp only [← begins, decide_eq_true_eq]
        omega

end

/-! ## Schedules -/

section

variable {W : Type} {R : Type 1} {Result : R → Type}

/-- The move of a task that takes its next step, if it can take one. -/
def turnMade (k : Nat) (pool : Pool W Result) : List (Nat × Move W) :=
  match pool.tasks[k]? with
  | some ⟨_, _, .step act _⟩ =>
      match act pool.state with
      | some (_, w) => [(k, ⟨pool.state, w⟩)]
      | none => []
  | _ => []

/-- The moves that are made where a schedule is followed. -/
def playMade (answer : (r : R) → Fiber W (Result r)) :
    List (Cue R) → Pool W Result → List (Nat × Move W)
  | [], _ => []
  | .start r :: rest, pool =>
      playMade answer rest ⟨pool.state, pool.tasks ++ [⟨r, [], answer r⟩]⟩
  | .turn k :: rest, pool => turnMade k pool ++ playMade answer rest (pool.turn k)

variable {answer : (r : R) → Fiber W (Result r)} {allowed : R → Prop} {outside : W → W → Prop}
  {start : W} {made : List (Nat × Move W)} {pool : Pool W Result}

theorem history_turn (history : History answer allowed outside start made pool) (k : Nat) :
    History answer allowed outside start (made ++ turnMade k pool) (pool.turn k) := by
  rw [turn, turnMade]
  cases found : pool.tasks[k]? with
  | none =>
      rw [List.append_nil]
      exact history
  | some task =>
      obtain ⟨r, moves, fiber⟩ := task
      cases fiber with
      | done result =>
          rw [List.append_nil]
          exact history
      | step act rest =>
          dsimp only
          cases taken : act pool.state with
          | none =>
              rw [List.append_nil]
              exact history
          | some after => exact .turn k history found taken

theorem history_play_from {cues : List (Cue R)} (may : ∀ r, Cue.start r ∈ cues → allowed r)
    (history : History answer allowed outside start made pool) :
    History answer allowed outside start (made ++ playMade answer cues pool)
      (play answer cues pool) := by
  induction cues generalizing made pool with
  | nil =>
      rw [playMade, List.append_nil]
      exact history
  | cons cue rest ih =>
      have later : ∀ r, Cue.start r ∈ rest → allowed r := fun r member => may r (.tail _ member)
      cases cue with
      | start r => exact ih later (.start r history (may r List.mem_cons_self))
      | turn k =>
          rw [playMade, ← List.append_assoc]
          exact ih later (history_turn history k)

/-- Whatever a schedule of allowed requests brings about has the moves of the schedule as its
history. -/
theorem history_play {cues : List (Cue R)} (may : ∀ r, Cue.start r ∈ cues → allowed r) :
    History answer allowed outside start (playMade answer cues ⟨start, []⟩)
      (play answer cues ⟨start, []⟩) := by
  have fresh : History answer allowed outside start [] ⟨start, []⟩ := .begun
  have history := history_play_from may fresh
  rwa [List.nil_append] at history

end

end Pool

end EventSourcing
