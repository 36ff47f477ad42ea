import EventSourcing.Proofs.Fiber.Terms

/-!
# Proofs.Fiber.Abiding -- fibers that rely on nobody

Often a fiber need not know what the others do between its moves, as long as what is known
of the state stays true.  Such a fiber stands in one way only, and each task can be bound to
moves of its own.  Main statements: the tasks of a reachable pool have made no other moves
than those that their requests allow (`Pool.abiding_of_reachable`), and what was not so at
the start and does not come about outside was brought about by a move of some task
(`Pool.made_of_reachable`).
-/

namespace EventSourcing

set_option autoImplicit false

/-- Terms on which others may do anything. -/
def Terms.alone {W : Type} (known : W → Prop) (may : W → W → Prop) : Terms W Unit where
  known := known
  others _ _ _ := True
  own _ w w' _ := may w w'

namespace Fiber

variable {W α β : Type} {known : W → Prop} {may : W → W → Prop}

/-- A fiber that relies on nobody is as safe from any state on, whatever it has done. -/
theorem safe_anywhere {post : α → Prop} {p : Fiber W α} {moves moves' : List (Move W)} {w w' : W}
    (safe : p.Safe (Terms.alone known may) (fun a _ _ _ => post a) () moves w) :
    p.Safe (Terms.alone known may) (fun a _ _ _ => post a) () moves' w' := by
  induction p generalizing moves moves' w w' with
  | done a => exact safe
  | step act rest ih =>
      intro w₁ _ now b w₂ taken
      obtain ⟨_, own, after⟩ := safe w₁ trivial now b w₂ taken
      exact ⟨(), own, ih b after⟩

/-- A fiber that makes none but certain moves and ends with `post`, as long as it finds what
is known of the state whenever it moves. -/
def Abides (known : W → Prop) (may : W → W → Prop) (post : α → Prop) (p : Fiber W α) : Prop :=
  ∀ moves w, p.Safe (Terms.alone known may) (fun a _ _ _ => post a) () moves w

theorem abides_pure {post : α → Prop} {a : α} (holds : post a) :
    (pure a : Fiber W α).Abides known may post :=
  fun _ _ => safe_pure holds

theorem abides_bind {post : α → Prop} {post' : β → Prop} {p : Fiber W α} {next : α → Fiber W β}
    (first : p.Abides known may post) (later : ∀ a, post a → (next a).Abides known may post') :
    (p >>= next).Abides known may post' :=
  fun moves w => safe_bind
    (safe_mono (fun a _ moves w holds => later a holds moves w) (first moves w))

theorem abides_await (post : α → Prop) {act : W → Option (α × W)}
    (abides : ∀ w, known w → ∀ a w', act w = some (a, w') → may w w' ∧ post a) :
    (await act).Abides known may post :=
  fun _ _ => safe_await fun w _ now a w' taken => ⟨(), abides w now a w' taken⟩

theorem abides_atomic (post : α → Prop) {act : W → α × W}
    (abides : ∀ w, known w → may w (act w).2 ∧ post (act w).1) :
    (atomic act).Abides known may post :=
  fun _ _ => safe_atomic fun w _ now => ⟨(), abides w now⟩

theorem abides_stuck {post : α → Prop} : (stuck : Fiber W α).Abides known may post :=
  fun _ _ => safe_stuck

theorem Abides.done {post : α → Prop} {a : α}
    (abides : (done a : Fiber W α).Abides known may post) (w : W) : post a :=
  abides [] w

/-- What an abiding fiber does next is one of its moves, and it abides further on. -/
theorem Abides.step {post : α → Prop} {act : W → Option (β × W)} {rest : β → Fiber W α}
    (abides : (step act rest).Abides known may post) {w w' : W} {b : β} (now : known w)
    (taken : act w = some (b, w')) : may w w' ∧ (rest b).Abides known may post := by
  obtain ⟨_, own, after⟩ := abides [] w w trivial now b w' taken
  exact ⟨own, fun _ _ => safe_anywhere after⟩

end Fiber

/-! ## Pools of such fibers -/

variable {W : Type} {R : Type 1} {Result : R → Type} {known : W → Prop}
  {may : R → W → W → Prop} {post : (r : R) → Result r → Prop}

/-- A task that has made no other moves than its request allows, and will make none. -/
structure Task.Abiding (known : W → Prop) (may : R → W → W → Prop)
    (post : (r : R) → Result r → Prop) (task : Task W Result) : Prop where
  moves : ∀ mv ∈ task.moves, may task.request mv.before mv.after
  fiber : task.fiber.Abides known (may task.request) (post task.request)

namespace Pool

variable {answer : (r : R) → Fiber W (Result r)} {allowed : R → Prop} {outside : W → W → Prop}
  {start : W} {pool : Pool W Result}

/-- Where every answer abides by what its request allows, and nothing that may happen breaks
what is known of the state, all tasks abide at any time. -/
theorem abiding_of_reachable
    (answers : ∀ r, allowed r → (answer r).Abides known (may r) (post r))
    (stays : ∀ r w w', allowed r → known w → may r w w' → known w')
    (outer : ∀ w w', known w → outside w w' → known w') (begun : known start)
    (reachable : Reachable answer allowed outside start pool) :
    known pool.state ∧ ∀ task ∈ pool.tasks, task.Abiding known may post := by
  induction reachable with
  | refl => exact ⟨begun, fun task member => by cases member⟩
  | tail earlier step ih =>
      obtain ⟨now, abiding⟩ := ih
      cases step with
      | start r asked =>
          refine ⟨now, fun task member => ?_⟩
          rcases List.mem_append.1 member with old | new
          · exact abiding task old
          · rw [List.mem_singleton.1 new]
            exact ⟨fun mv made => (List.not_mem_nil made).elim, answers r asked⟩
      | turn k found taken =>
          have member := List.mem_of_getElem? found
          have before := abiding _ member
          obtain ⟨own, after⟩ := before.fiber.step now taken
          refine ⟨stays _ _ _ (Reachable.allowed earlier _ member) now own, fun task member => ?_⟩
          rcases List.mem_or_eq_of_mem_set member with old | rfl
          · exact abiding task old
          · refine ⟨fun mv made => ?_, after⟩
            rcases List.mem_append.1 made with old | new
            · exact before.moves mv old
            · rw [List.mem_singleton.1 new]
              exact own
      | outside happened => exact ⟨outer _ _ now happened, abiding⟩

/-- A move that is made stays among those of its task. -/
theorem exists_mem_set {tasks : List (Task W Result)} {k : Nat} {old new : Task W Result}
    (found : tasks[k]? = some old) (kept : old.moves ⊆ new.moves) {made : Move W → Prop}
    (before : ∃ task ∈ tasks, ∃ mv ∈ task.moves, made mv) :
    ∃ task ∈ tasks.set k new, ∃ mv ∈ task.moves, made mv := by
  obtain ⟨task, member, mv, moved, holds⟩ := before
  obtain ⟨j, here⟩ := List.getElem?_of_mem member
  by_cases same : k = j
  · subst same
    cases found.symm.trans here
    have inside : k < tasks.length := (List.getElem?_eq_some_iff.1 found).1
    exact ⟨new, List.mem_of_getElem? (List.getElem?_set_self inside), mv, kept moved, holds⟩
  · exact ⟨task, List.mem_of_getElem? ((List.getElem?_set_ne same).trans here), mv, moved, holds⟩

/-- What was not so at the start and does not come about outside was brought about by a move
of some task. -/
theorem made_of_reachable (has : W → Prop) (fresh : ¬ has start)
    (outer : ∀ w w', outside w w' → has w' → has w)
    (reachable : Reachable answer allowed outside start pool) (holds : has pool.state) :
    ∃ task ∈ pool.tasks, ∃ mv ∈ task.moves, ¬ has mv.before ∧ has mv.after := by
  induction reachable with
  | refl => exact absurd holds fresh
  | tail earlier step ih =>
      cases step with
      | start r asked =>
          obtain ⟨task, member, made⟩ := ih holds
          exact ⟨task, List.mem_append_left _ member, made⟩
      | @turn w w' tasks r moves _ _ rest b k found taken =>
          by_cases already : has w
          · exact exists_mem_set found (List.subset_append_left _ _) (ih already)
          · have inside : k < tasks.length := (List.getElem?_eq_some_iff.1 found).1
            exact ⟨_, List.mem_of_getElem? (List.getElem?_set_self inside), ⟨w, w'⟩,
              List.mem_append_right _ (List.mem_singleton_self _), already, holds⟩
      | outside happened => exact ih (outer _ _ happened holds)

end Pool

end EventSourcing
