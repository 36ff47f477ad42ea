import EventSourcing.Proofs.Fiber.Trail

/-!
# Proofs.Fiber.Standing -- what happens between the moves of a task

Where fibers share a state on terms, the moves that a task has made form a chain: each of
them keeps to the terms, and between two of them the others have kept to theirs
(`Pool.chain_of_reachable`).  This is so at any time, whether the task has ended or not.
Nothing is said of the fiber; what its moves are can be told from it by `Fiber.Leads`.
-/

namespace EventSourcing

set_option autoImplicit false

/-- The state after the last of some moves; the given one if there are none. -/
def stateAfter {W : Type} : W → List (Move W) → W
  | w, [] => w
  | _, mv :: rest => stateAfter mv.after rest

namespace Terms

variable {W H : Type}

/-- Moves of a fiber on the terms, with what others do before, between and after them: it stands
as `h` in `w` at first and as `h'` in `w'` at last. -/
inductive Chain (t : Terms W H) : H → W → List (Move W) → H → W → Prop where
  | wait {h : H} {w w' : W} (meanwhile : t.others h w w') : Chain t h w [] h w'
  | move {h h' h'' : H} {w w' : W} {mv : Move W} {moves : List (Move W)}
      (meanwhile : t.others h w mv.before) (own : t.own h mv.before mv.after h')
      (later : Chain t h' mv.after moves h'' w') : Chain t h w (mv :: moves) h'' w'

variable {t : Terms W H} {idle h h' h'' : H} {shares : W → List H → Prop} {outside : W → W → Prop}
  {w w' w'' : W} {moves moves' : List (Move W)}

theorem Chain.later (harmony : t.Harmony idle shares outside) (chain : t.Chain h w moves h' w')
    (meanwhile : t.others h' w' w'') : t.Chain h w moves h' w'' := by
  induction chain with
  | wait before => exact .wait (harmony.trans before meanwhile)
  | move before own _ ih => exact .move before own (ih meanwhile)

theorem Chain.snoc (harmony : t.Harmony idle shares outside) (chain : t.Chain h w moves h' w')
    (own : t.own h' w' w'' h'') : t.Chain h w (moves ++ [⟨w', w''⟩]) h'' w'' := by
  induction chain with
  | wait before => exact .move before own (.wait (harmony.refl _ _))
  | move before own' _ ih => exact .move before own' (ih own)

/-- A chain can be parted at any place. -/
theorem Chain.parts (harmony : t.Harmony idle shares outside)
    (chain : t.Chain h w (moves ++ moves') h'' w'') :
    ∃ h' w', t.Chain h w moves h' w' ∧ t.Chain h' w' moves' h'' w'' := by
  induction moves generalizing h w with
  | nil => exact ⟨h, w, .wait (harmony.refl _ _), chain⟩
  | cons mv rest ih =>
      cases chain with
      | move before own later =>
          obtain ⟨h', w', first, second⟩ := ih later
          exact ⟨h', w', .move before own first, second⟩

end Terms

namespace Pool

variable {W H : Type} {R : Type 1} {Result : R → Type} {t : Terms W H} {idle : H}
  {shares : W → List H → Prop} {outside : W → W → Prop} {allowed : R → Prop}
  {answer : (r : R) → Fiber W (Result r)}
  {post : (r : R) → Result r → H → List (Move W) → W → Prop}

/-- The moves of every task form a chain up to the present state. -/
theorem chain_of_reachable (harmony : t.Harmony idle shares outside)
    (answers : ∀ r, allowed r → ∀ w, (answer r).Safe t (post r) idle [] w) {start : W}
    (known : t.known start) (free : shares start []) {pool : Pool W Result}
    (reachable : Reachable answer allowed outside start pool) :
    ∀ task ∈ pool.tasks, ∃ w h, t.Chain idle w task.moves h pool.state := by
  have holds : Holds t shares (fun now task h =>
      SafeTask t post now task h ∧ ∃ w, t.Chain idle w task.moves h now) pool :=
    holds_of_reachable harmony
      (fun r w may => ⟨⟨w, harmony.refl _ _, answers r may w⟩, w, .wait (harmony.refl _ _)⟩)
      (fun known ⟨⟨w₀, meanwhile, safe⟩, w, chain⟩ taken => by
        obtain ⟨h', own, after⟩ := safe _ meanwhile known _ _ taken
        exact ⟨h', own, ⟨_, harmony.refl _ _, after⟩, w, chain.snoc harmony own⟩)
      (fun ⟨⟨w₀, before, safe⟩, w, chain⟩ meanwhile =>
        ⟨⟨w₀, harmony.trans before meanwhile, safe⟩, w, chain.later harmony meanwhile⟩)
      known free reachable
  obtain ⟨_, hs, _, lengths, each⟩ := holds
  intro task member
  obtain ⟨k, found⟩ := List.getElem?_of_mem member
  have inside : k < hs.length := lengths ▸ (List.getElem?_eq_some_iff.1 found).1
  obtain ⟨_, w, chain⟩ := each k task _ found (List.getElem?_eq_getElem inside)
  exact ⟨w, _, chain⟩

end Pool

end EventSourcing
