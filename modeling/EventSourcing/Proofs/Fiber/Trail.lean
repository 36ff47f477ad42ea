import EventSourcing.Proofs.Fiber.Abiding

/-!
# Proofs.Fiber.Trail -- the moves that lead somewhere

A fiber and the moves it has made tell what is left of it, whatever others did in between
(`Fiber.Leads`).  Main statement: every task of a reachable pool got where it is by its own
moves (`Pool.leads_of_reachable`).
-/

namespace EventSourcing

set_option autoImplicit false

namespace Fiber

variable {W α β : Type}

/-- What some moves leave of a fiber. -/
inductive Leads : Fiber W α → List (Move W) → Fiber W α → Prop where
  | stay (p : Fiber W α) : Leads p [] p
  | move {γ : Type} {act : W → Option (γ × W)} {rest : γ → Fiber W α} {b : γ} {w w' : W}
      {moves : List (Move W)} {q : Fiber W α} (taken : act w = some (b, w'))
      (later : Leads (rest b) moves q) : Leads (step act rest) (⟨w, w'⟩ :: moves) q

theorem Leads.snoc {γ : Type} {p : Fiber W α} {moves : List (Move W)}
    {act : W → Option (γ × W)} {rest : γ → Fiber W α} {b : γ} {w w' : W}
    (leads : p.Leads moves (step act rest)) (taken : act w = some (b, w')) :
    p.Leads (moves ++ [⟨w, w'⟩]) (rest b) := by
  generalize same : step act rest = q at leads
  induction leads with
  | stay p =>
      subst same
      exact .move taken (.stay _)
  | move first _ ih => exact .move first (ih same)

theorem Leads.of_done {a : α} {moves : List (Move W)} {q : Fiber W α}
    (leads : (done a).Leads moves q) : moves = [] ∧ q = done a := by
  cases leads
  exact ⟨rfl, rfl⟩

/-- A fiber that has something left to do. -/
def Pending : Fiber W α → Prop
  | done _ => False
  | step _ _ => True

theorem Pending.ne_done {p : Fiber W α} (pending : p.Pending) (a : α) : p ≠ done a := by
  rintro rfl
  exact pending

/-- Where one fiber follows another, either the first has something left to do, or it has
ended and the moves since then are those of the second. -/
theorem Leads.split {p : Fiber W α} {next : α → Fiber W β} {moves : List (Move W)}
    {q : Fiber W β} (leads : (p >>= next).Leads moves q) :
    (∃ p', p'.Pending ∧ p.Leads moves p' ∧ q = p' >>= next) ∨
      ∃ a before after, p.Leads before (done a) ∧ (next a).Leads after q ∧
        moves = before ++ after := by
  induction p generalizing moves with
  | done a => exact .inr ⟨a, [], moves, .stay _, leads, rfl⟩
  | step act rest ih =>
      cases leads with
      | stay => exact .inl ⟨step act rest, trivial, .stay _, rfl⟩
      | move taken later =>
          rcases ih _ later with ⟨p', pending, within, left⟩ | ⟨a, before, after, led, on, same⟩
          · exact .inl ⟨p', pending, .move taken within, left⟩
          · exact .inr ⟨a, _ :: before, after, .move taken led, on, congrArg (_ :: ·) same⟩

theorem Pending.bind {p : Fiber W α} (pending : p.Pending) (next : α → Fiber W β) :
    (p >>= next).Pending := by
  cases p with
  | done a => exact pending.elim
  | step act rest => exact trivial

/-- What is left of the first of two fibers matters only once it has ended. -/
theorem Leads.of_bind {p : Fiber W α} {next : α → Fiber W β} {moves : List (Move W)}
    {q : Fiber W β} (leads : (p >>= next).Leads moves q) :
    (q.Pending ∧ ∃ p', p.Leads moves p') ∨
      ∃ a before after, p.Leads before (done a) ∧ (next a).Leads after q ∧
        moves = before ++ after := by
  rcases leads.split with ⟨p', pending, within, rfl⟩ | parts
  · exact .inl ⟨pending.bind next, p', within⟩
  · exact .inr parts

/-- A fiber that begins with one action has not moved yet, or has taken that action first. -/
theorem Leads.of_atomic {act : W → α × W} {next : α → Fiber W β} {moves : List (Move W)}
    {q : Fiber W β} (leads : (atomic act >>= next).Leads moves q) :
    (moves = [] ∧ q.Pending) ∨
      ∃ w later, moves = ⟨w, (act w).2⟩ :: later ∧ (next (act w).1).Leads later q := by
  cases leads with
  | stay => exact .inl ⟨rfl, trivial⟩
  | @move _ _ _ b w w' later _ taken on =>
      have same := Option.some.inj taken
      refine .inr ⟨w, later, ?_, ?_⟩
      · rw [same]
      · rw [same]
        exact on

/-- Where one fiber follows another and both have ended, the moves are those of the first and then
those of the second. -/
theorem Leads.parts {p : Fiber W α} {next : α → Fiber W β} {moves : List (Move W)} {b : β}
    (leads : (p >>= next).Leads moves (done b)) :
    ∃ a before after, p.Leads before (done a) ∧ (next a).Leads after (done b) ∧
      moves = before ++ after := by
  rcases leads.of_bind with ⟨pending, _⟩ | parts
  · exact pending.elim
  · exact parts

/-- A fiber that begins with one action and has ended took that action first. -/
theorem Leads.first {act : W → α × W} {next : α → Fiber W β} {moves : List (Move W)} {b : β}
    (leads : (atomic act >>= next).Leads moves (done b)) :
    ∃ w later, moves = ⟨w, (act w).2⟩ :: later ∧ (next (act w).1).Leads later (done b) := by
  rcases leads.of_atomic with ⟨_, pending⟩ | first
  · exact pending.elim
  · exact first

/-! ## Waiting -/

/-- A fiber that has ended, or that can take its next step whatever the state is. -/
def Ready : Fiber W α → Prop
  | done _ => True
  | step act _ => ∀ w, (act w).isSome

theorem Ready.bind {p : Fiber W α} (ready : p.Ready) (pending : p.Pending)
    (next : α → Fiber W β) : (p >>= next).Ready := by
  cases p with
  | done a => exact pending.elim
  | step act rest => exact ready

/-- A fiber that never has to wait, wherever its moves lead. -/
def Live (p : Fiber W α) : Prop :=
  ∀ moves q, p.Leads moves q → q.Ready

theorem live_pure {a : α} : (pure a : Fiber W α).Live := by
  intro moves q leads
  obtain ⟨_, rfl⟩ := leads.of_done
  exact trivial

theorem live_bind {p : Fiber W α} {next : α → Fiber W β} (first : p.Live)
    (later : ∀ a, (next a).Live) : (p >>= next).Live := by
  intro moves q leads
  rcases leads.split with ⟨p', pending, within, rfl⟩ | ⟨a, _, after, _, on, _⟩
  · exact (first _ _ within).bind pending next
  · exact later a _ _ on

theorem live_atomic {act : W → α × W} : (atomic act).Live := by
  intro moves q leads
  cases leads with
  | stay => exact fun _ => rfl
  | move taken later =>
      obtain ⟨_, rfl⟩ := later.of_done
      exact trivial

/-! ## Keeping to certain moves -/

/-- A fiber that abides by certain moves has made no others, if what is known of the state was
true before each of them. -/
theorem Abides.of_leads {known : W → Prop} {may : W → W → Prop} {post : α → Prop}
    {p q : Fiber W α} {moves : List (Move W)} (abides : p.Abides known may post)
    (leads : p.Leads moves q) (held : ∀ mv ∈ moves, known mv.before) :
    (∀ mv ∈ moves, may mv.before mv.after) ∧ q.Abides known may post := by
  induction leads with
  | stay p => exact ⟨fun mv member => (List.not_mem_nil member).elim, abides⟩
  | move taken _ ih =>
      obtain ⟨first, held⟩ := List.forall_mem_cons.1 held
      obtain ⟨own, after⟩ := abides.step first taken
      obtain ⟨others, left⟩ := ih after held
      exact ⟨List.forall_mem_cons.2 ⟨own, others⟩, left⟩

/-- A fiber that makes certain moves only, whatever it finds. -/
def Keeps (may : W → W → Prop) (p : Fiber W α) : Prop :=
  p.Abides (fun _ => True) may fun _ => True

theorem Keeps.moves {may : W → W → Prop} {p q : Fiber W α} {moves : List (Move W)}
    (keeps : p.Keeps may) (leads : p.Leads moves q) : ∀ mv ∈ moves, may mv.before mv.after :=
  (keeps.of_leads leads fun _ _ => trivial).1

end Fiber

/-! ## Pools -/

namespace Pool

variable {W : Type} {R : Type 1} {Result : R → Type} {answer : (r : R) → Fiber W (Result r)}
  {allowed : R → Prop} {outside : W → W → Prop} {start : W} {pool : Pool W Result}

/-- Every task got where it is by its own moves. -/
theorem leads_of_reachable (reachable : Reachable answer allowed outside start pool) :
    ∀ task ∈ pool.tasks, (answer task.request).Leads task.moves task.fiber := by
  induction reachable with
  | refl => exact fun task member => (List.not_mem_nil member).elim
  | tail _ step ih =>
      cases step with
      | start r asked =>
          intro task member
          rcases List.mem_append.1 member with old | new
          · exact ih task old
          · rw [List.mem_singleton.1 new]
            exact .stay _
      | turn k found taken =>
          intro task member
          rcases List.mem_or_eq_of_mem_set member with old | rfl
          · exact ih task old
          · exact (ih _ (List.mem_of_getElem? found)).snoc taken
      | outside happened => exact ih

end Pool

end EventSourcing
