import EventSourcing.Proofs.Fiber.Pool

/-!
# Proofs.Fiber.Terms -- terms on which fibers share a state

A fiber that shares its state with others can only say something about it on terms: how it
stands towards the state tells what the others may do meanwhile, and it keeps to certain
moves itself, by which its standing may change.  `Fiber.Safe` says that a fiber keeps to
the terms and in the end has established something; the rules for it follow the way in
which fibers are put together.  What the moves of each task keep, and what others may do, can
be told of a whole pool at any time (`Pool.holds_of_reachable`).  Main statement: where the
terms are in harmony and every answer is safe, every task of a reachable pool is
(`Pool.sound_of_reachable`).
-/

namespace EventSourcing

set_option autoImplicit false

/-- Terms for fibers on a state of type `W`; `H` says how a fiber stands. -/
structure Terms (W H : Type) where
  /-- What is known of the state at any time. -/
  known : W → Prop
  /-- What others may make of the state between two moves of the fiber. -/
  others : H → W → W → Prop
  /-- What the fiber may make of the state, and how it stands then. -/
  own : H → W → W → H → Prop

namespace Fiber

variable {W H α β : Type} (t : Terms W H)

/-- A fiber that keeps to the terms whatever others do within theirs, and that ends with
`post`.  It stands as `h`, has made some moves already, and the state was `w` after the
last of them. -/
def Safe (post : α → H → List (Move W) → W → Prop) :
    Fiber W α → H → List (Move W) → W → Prop
  | done a, h, moves, w => post a h moves w
  | step act rest, h, moves, w =>
      ∀ w₁, t.others h w w₁ → t.known w₁ → ∀ b w₂, act w₁ = some (b, w₂) →
        ∃ h', t.own h w₁ w₂ h' ∧ (rest b).Safe post h' (moves ++ [⟨w₁, w₂⟩]) w₂

variable {t} {h : H} {moves : List (Move W)} {w : W}

theorem safe_pure {post : α → H → List (Move W) → W → Prop} {a : α} (holds : post a h moves w) :
    (pure a : Fiber W α).Safe t post h moves w :=
  holds

theorem safe_mono {post post' : α → H → List (Move W) → W → Prop} {p : Fiber W α}
    (weaker : ∀ a h moves w, post a h moves w → post' a h moves w)
    (safe : p.Safe t post h moves w) : p.Safe t post' h moves w := by
  induction p generalizing h moves w with
  | done a => exact weaker a h moves w safe
  | step act rest ih =>
      intro w₁ meanwhile known b w₂ taken
      obtain ⟨h', own, after⟩ := safe w₁ meanwhile known b w₂ taken
      exact ⟨h', own, ih b after⟩

theorem safe_bind {post : β → H → List (Move W) → W → Prop} {p : Fiber W α}
    {next : α → Fiber W β}
    (safe : p.Safe t (fun a h moves w => (next a).Safe t post h moves w) h moves w) :
    (p >>= next).Safe t post h moves w := by
  induction p generalizing h moves w with
  | done a => exact safe
  | step act rest ih =>
      intro w₁ meanwhile known b w₂ taken
      obtain ⟨h', own, after⟩ := safe w₁ meanwhile known b w₂ taken
      exact ⟨h', own, ih b after⟩

theorem safe_await {post : α → H → List (Move W) → W → Prop} {act : W → Option (α × W)}
    (safe : ∀ w₁, t.others h w w₁ → t.known w₁ → ∀ a w₂, act w₁ = some (a, w₂) →
      ∃ h', t.own h w₁ w₂ h' ∧ post a h' (moves ++ [⟨w₁, w₂⟩]) w₂) :
    (await act).Safe t post h moves w :=
  safe

theorem safe_atomic {post : α → H → List (Move W) → W → Prop} {act : W → α × W}
    (safe : ∀ w₁, t.others h w w₁ → t.known w₁ →
      ∃ h', t.own h w₁ (act w₁).2 h' ∧
        post (act w₁).1 h' (moves ++ [⟨w₁, (act w₁).2⟩]) (act w₁).2) :
    (atomic act).Safe t post h moves w := by
  intro w₁ meanwhile known a w₂ taken
  simp only [Option.some.injEq] at taken
  have kept := safe w₁ meanwhile known
  rw [taken] at kept
  exact kept

theorem safe_stuck {post : α → H → List (Move W) → W → Prop} :
    (stuck : Fiber W α).Safe t post h moves w := by
  intro w₁ _ _ b w₂ taken
  cases taken

end Fiber

/-! ## Pools on terms -/

namespace Terms

variable {W H : Type}

/-- Terms that fit together: `shares` says how all the tasks together may stand, `idle` is
how a task stands at first, and `outside` is what may happen outside of the tasks. -/
structure Harmony (t : Terms W H) (idle : H) (shares : W → List H → Prop)
    (outside : W → W → Prop) : Prop where
  refl : ∀ h w, t.others h w w
  trans : ∀ {h w w₁ w₂}, t.others h w w₁ → t.others h w₁ w₂ → t.others h w w₂
  start : ∀ {w hs}, shares w hs → shares w (hs ++ [idle])
  turn : ∀ {w w' hs k h h'}, t.known w → shares w hs → hs[k]? = some h → t.own h w w' h' →
    t.known w' ∧ shares w' (hs.set k h') ∧
      ∀ j g, j ≠ k → hs[j]? = some g → t.others g w w'
  outside : ∀ {w w' hs}, t.known w → shares w hs → outside w w' →
    t.known w' ∧ shares w' hs ∧ ∀ g, t.others g w w'

end Terms

namespace Pool

variable {W H : Type} {R : Type 1} {Result : R → Type} {t : Terms W H} {idle : H}
  {shares : W → List H → Prop} {outside : W → W → Prop} {allowed : R → Prop}
  {answer : (r : R) → Fiber W (Result r)}
  {post : (r : R) → Result r → H → List (Move W) → W → Prop}

/-- A task that stands as `h` and is safe from its last move on. -/
def SafeTask (t : Terms W H) (post : (r : R) → Result r → H → List (Move W) → W → Prop)
    (now : W) (task : Task W Result) (h : H) : Prop :=
  ∃ w, t.others h w now ∧ task.fiber.Safe t (post task.request) h task.moves w

/-- A pool all of whose tasks keep to the terms. -/
structure Sound (t : Terms W H) (shares : W → List H → Prop)
    (post : (r : R) → Result r → H → List (Move W) → W → Prop) (pool : Pool W Result) :
    Prop where
  known : t.known pool.state
  /-- The standings of the tasks. -/
  standings : ∃ hs : List H, shares pool.state hs ∧ hs.length = pool.tasks.length ∧
    ∀ (k : Nat) (task : Task W Result) (h : H), pool.tasks[k]? = some task → hs[k]? = some h →
      SafeTask t post pool.state task h

/-- Whatever happens next is a move that the terms allow to a task, or happens outside,
or leaves the state as it is. -/
inductive Change (t : Terms W H) (outside : W → W → Prop) (w w' : W) : Prop where
  | none (same : w' = w)
  | own {h h' : H} (own : t.own h w w' h')
  | outside (outside : outside w w')

/-- What stands in a list to which one thing is added. -/
theorem getElem?_concat {α : Type 1} {xs : List α} {x y : α} {k : Nat}
    (found : (xs ++ [x])[k]? = some y) : xs[k]? = some y ∨ k = xs.length ∧ y = x := by
  rcases Nat.lt_or_ge k xs.length with old | new
  · rw [List.getElem?_append_left old] at found
    exact .inl found
  · rw [List.getElem?_append_right new, List.getElem?_singleton] at found
    split at found
    · cases found
      exact .inr ⟨by omega, rfl⟩
    · cases found

/-- What can be said of a pool and of each of its tasks, by how the task stands. -/
structure Holds (t : Terms W H) (shares : W → List H → Prop)
    (stands : W → Task W Result → H → Prop) (pool : Pool W Result) : Prop where
  known : t.known pool.state
  /-- The standings of the tasks. -/
  standings : ∃ hs : List H, shares pool.state hs ∧ hs.length = pool.tasks.length ∧
    ∀ (k : Nat) (task : Task W Result) (h : H), pool.tasks[k]? = some task → hs[k]? = some h →
      stands pool.state task h

/-- What is true of every task at first, is kept by its own moves as the terms have them, and is
kept by whatever others may do, stays true of all tasks. -/
theorem Holds.step (harmony : t.Harmony idle shares outside)
    {stands : W → Task W Result → H → Prop}
    (begins : ∀ r w, allowed r → stands w ⟨r, [], answer r⟩ idle)
    (moves : ∀ {w w' : W} {r : R} {moves : List (Move W)} {β : Type} {act : W → Option (β × W)}
      {rest : β → Fiber W (Result r)} {b : β} {h : H}, t.known w →
      stands w ⟨r, moves, .step act rest⟩ h → act w = some (b, w') →
        ∃ h', t.own h w w' h' ∧ stands w' ⟨r, moves ++ [⟨w, w'⟩], rest b⟩ h')
    (waits : ∀ {w w' : W} {task : Task W Result} {h : H}, stands w task h → t.others h w w' →
      stands w' task h)
    {pool pool' : Pool W Result} (holds : Holds t shares stands pool)
    (step : Step answer allowed outside pool pool') :
    Holds t shares stands pool' ∧ Change t outside pool.state pool'.state := by
  obtain ⟨now, hs, shared, lengths, each⟩ := holds
  cases step with
  | @start w tasks r may =>
      refine ⟨⟨now, hs ++ [idle], harmony.start shared, by simp [lengths], ?_⟩, .none rfl⟩
      intro k task h found standing
      rcases getElem?_concat found with old | ⟨rfl, rfl⟩
      · have inside : k < hs.length := lengths ▸ (List.getElem?_eq_some_iff.1 old).1
        rw [List.getElem?_append_left inside] at standing
        exact each k task h old standing
      · rw [← lengths, List.getElem?_concat_length] at standing
        cases standing
        exact begins r w may
  | @turn w w' tasks r made β act rest b k found taken =>
      have inside : k < tasks.length := (List.getElem?_eq_some_iff.1 found).1
      obtain ⟨h, standing⟩ : ∃ h, hs[k]? = some h :=
        ⟨_, List.getElem?_eq_getElem (lengths ▸ inside)⟩
      obtain ⟨h', own, moved⟩ := moves now (each k _ h found standing) taken
      obtain ⟨now', shared', undisturbed⟩ := harmony.turn now shared standing own
      refine ⟨⟨now', hs.set k h', shared', by simp [lengths], ?_⟩, .own own⟩
      intro j task g found' standing'
      dsimp only at found' ⊢
      by_cases same : k = j
      · subst same
        rw [List.getElem?_set_self inside] at found'
        rw [List.getElem?_set_self (lengths ▸ inside)] at standing'
        cases found'
        cases standing'
        exact moved
      · rw [List.getElem?_set_ne same] at found' standing'
        exact waits (each j task g found' standing') (undisturbed j g (Ne.symm same) standing')
  | outside happened =>
      obtain ⟨now', shared', undisturbed⟩ := harmony.outside now shared happened
      refine ⟨⟨now', hs, shared', lengths, fun k task h found standing => ?_⟩, .outside happened⟩
      exact waits (each k task h found standing) (undisturbed h)

theorem holds_of_reachable (harmony : t.Harmony idle shares outside)
    {stands : W → Task W Result → H → Prop}
    (begins : ∀ r w, allowed r → stands w ⟨r, [], answer r⟩ idle)
    (moves : ∀ {w w' : W} {r : R} {moves : List (Move W)} {β : Type} {act : W → Option (β × W)}
      {rest : β → Fiber W (Result r)} {b : β} {h : H}, t.known w →
      stands w ⟨r, moves, .step act rest⟩ h → act w = some (b, w') →
        ∃ h', t.own h w w' h' ∧ stands w' ⟨r, moves ++ [⟨w, w'⟩], rest b⟩ h')
    (waits : ∀ {w w' : W} {task : Task W Result} {h : H}, stands w task h → t.others h w w' →
      stands w' task h)
    {start : W} (known : t.known start) (free : shares start []) {pool : Pool W Result}
    (reachable : Reachable answer allowed outside start pool) : Holds t shares stands pool := by
  induction reachable with
  | refl => exact ⟨known, [], free, rfl, fun k task h found => by cases found⟩
  | tail _ step ih => exact (ih.step harmony begins moves waits step).1

theorem sound_step (harmony : t.Harmony idle shares outside)
    (answers : ∀ r, allowed r → ∀ w, (answer r).Safe t (post r) idle [] w)
    {pool pool' : Pool W Result} (sound : Sound t shares post pool)
    (step : Step answer allowed outside pool pool') :
    Sound t shares post pool' ∧ Change t outside pool.state pool'.state := by
  have holds : Holds t shares (SafeTask t post) pool := ⟨sound.known, sound.standings⟩
  obtain ⟨after, change⟩ := holds.step harmony
    (fun r w may => ⟨w, harmony.refl _ _, answers r may w⟩)
    (fun known ⟨_, meanwhile, safe⟩ taken => by
      obtain ⟨h', own, after⟩ := safe _ meanwhile known _ _ taken
      exact ⟨h', own, _, harmony.refl _ _, after⟩)
    (fun ⟨w, before, safe⟩ meanwhile => ⟨w, harmony.trans before meanwhile, safe⟩) step
  exact ⟨⟨after.known, after.standings⟩, change⟩

/-- Where the terms are in harmony and every answer is safe, every task is safe at any
time. -/
theorem sound_of_reachable (harmony : t.Harmony idle shares outside)
    (answers : ∀ r, allowed r → ∀ w, (answer r).Safe t (post r) idle [] w) {start : W}
    (known : t.known start) (free : shares start []) {pool : Pool W Result}
    (reachable : Reachable answer allowed outside start pool) : Sound t shares post pool := by
  induction reachable with
  | refl => exact ⟨known, [], free, rfl, fun k task h found => by simp at found⟩
  | tail _ step ih => exact (sound_step harmony answers ih step).1

/-- What is true of a move when a task has made it, and stays true whatever happens next, is
true of all moves of all tasks. -/
theorem since_of_reachable (harmony : t.Harmony idle shares outside)
    (answers : ∀ r, allowed r → ∀ w, (answer r).Safe t (post r) idle [] w) {start : W}
    (known : t.known start) (free : shares start []) (since : Move W → W → Prop)
    (made : ∀ w w', t.known w → since ⟨w, w'⟩ w')
    (later : ∀ {mv w w'}, t.known w → Change t outside w w' → since mv w → since mv w')
    {pool : Pool W Result} (reachable : Reachable answer allowed outside start pool) :
    ∀ task ∈ pool.tasks, ∀ mv ∈ task.moves, since mv pool.state := by
  induction reachable with
  | refl => intro task member; cases member
  | tail earlier step ih =>
      have sound := sound_of_reachable harmony answers known free earlier
      have passed {mv : Move W} : since mv _ → since mv _ :=
        later sound.known (sound_step harmony answers sound step).2
      cases step with
      | start r may =>
          intro task member
          rcases List.mem_append.1 member with old | new
          · exact ih task old
          · rw [List.mem_singleton.1 new]
            intro mv empty
            cases empty
      | turn k found taken =>
          intro task member
          rcases List.mem_or_eq_of_mem_set member with old | rfl
          · exact fun mv done => passed (ih task old mv done)
          · intro mv done
            rcases List.mem_append.1 done with old | new
            · exact passed (ih _ (List.mem_of_getElem? found) mv old)
            · rw [List.mem_singleton.1 new]
              exact made _ _ sound.known
      | outside happened => exact fun task member mv done => passed (ih task member mv done)

/-- What a task that has ended has established, as of its last move. -/
theorem post_of_done {pool : Pool W Result} (sound : Sound t shares post pool) {r : R}
    {moves : List (Move W)} {result : Result r}
    (task : (⟨r, moves, .done result⟩ : Task W Result) ∈ pool.tasks) :
    ∃ h w, t.others h w pool.state ∧ post r result h moves w := by
  obtain ⟨hs, _, lengths, each⟩ := sound.standings
  obtain ⟨k, found⟩ := List.getElem?_of_mem task
  have inTasks : k < pool.tasks.length := (List.getElem?_eq_some_iff.1 found).1
  obtain ⟨w, meanwhile, safe⟩ :=
    each k _ _ found (List.getElem?_eq_getElem (lengths ▸ inTasks))
  exact ⟨_, w, meanwhile, safe⟩

end Pool

end EventSourcing
