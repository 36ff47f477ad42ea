import EventSourcing.Fiber.Race
import EventSourcing.Proofs.Fiber.Trail

/-!
# Proofs.Fiber.Racing -- what is left of a race

A step of two fibers side by side is a step of one of them, and they wait where both do.  In a
race it is moreover the turn of one of them: the second takes a step only after the first had
to wait, and before the first is asked again.  Main statements: the steps of a race
(`Fiber.goes_race`, `Fiber.goes_raceBack`), and where it waits (`Fiber.asleep_race`).
-/

namespace EventSourcing.Fiber

set_option autoImplicit false

variable {W α β γ δ : Type}

/-! ## Steps -/

/-- One step of a fiber, and what it leaves. -/
inductive Goes : Fiber W α → Move W → Fiber W α → Prop where
  | go {γ : Type} {act : W → Option (γ × W)} {rest : γ → Fiber W α} {b : γ} {w w' : W}
      (taken : act w = some (b, w')) : Goes (step act rest) ⟨w, w'⟩ (rest b)

/-- A fiber that has to wait. -/
def Asleep : Fiber W α → W → Prop
  | done _, _ => False
  | step act _, w => act w = none

instance : (p : Fiber W α) → Decidable p.Pending
  | done _ => .isFalse id
  | step _ _ => .isTrue trivial

instance (w : W) : (p : Fiber W α) → Decidable (p.Asleep w)
  | done _ => .isFalse id
  | step act _ => inferInstanceAs (Decidable (act w = none))

variable {p p' : Fiber W α} {mv : Move W} {w : W}

theorem Goes.pending (goes : p.Goes mv p') : p.Pending := by
  cases goes
  trivial

theorem Asleep.pending (asleep : p.Asleep w) : p.Pending := by
  cases p with
  | done a => exact asleep
  | step act rest => trivial

theorem Pending.exists_step (pending : p.Pending) :
    ∃ (γ : Type) (act : W → Option (γ × W)) (rest : γ → Fiber W α), p = step act rest := by
  cases p with
  | done a => exact pending.elim
  | step act rest => exact ⟨_, act, rest, rfl⟩

/-- A fiber that has something left to do either has to wait or can take a step. -/
theorem Pending.asleep_or_goes (pending : p.Pending) (w : W) :
    p.Asleep w ∨ ∃ w' p', p.Goes ⟨w, w'⟩ p' := by
  obtain ⟨_, act, rest, rfl⟩ := pending.exists_step
  cases taken : act w with
  | none => exact .inl taken
  | some r => exact .inr ⟨r.2, rest r.1, .go taken⟩

theorem Leads.goes {moves : List (Move W)} {q : Fiber W α} (leads : p.Leads moves q)
    (goes : q.Goes mv p') : p.Leads (moves ++ [mv]) p' := by
  obtain ⟨taken⟩ := goes
  exact leads.snoc taken

/-- A step of a fiber that is followed by another. -/
theorem goes_bind {next : α → Fiber W β} {r : Fiber W β} (pending : p.Pending)
    (goes : (p >>= next).Goes mv r) : ∃ p', p.Goes mv p' ∧ r = p' >>= next := by
  obtain ⟨_, act, rest, rfl⟩ := pending.exists_step
  obtain ⟨taken⟩ := goes
  exact ⟨_, .go taken, rfl⟩

/-- A step of a fiber that begins with an action which can always be taken. -/
theorem goes_atomic {act : W → α × W} {next : α → Fiber W β} {r : Fiber W β}
    (goes : (atomic act >>= next).Goes mv r) :
    mv.after = (act mv.before).2 ∧ r = next (act mv.before).1 := by
  obtain ⟨taken⟩ := goes
  have same := Option.some.inj taken
  rw [same]
  exact ⟨rfl, rfl⟩

theorem atomic_goes {act : W → α × W} {next : α → Fiber W β} (w : W) :
    (atomic act >>= next).Goes ⟨w, (act w).2⟩ (next (act w).1) :=
  .go rfl

/-! ## What every step keeps -/

/-- What is kept by each step of a fiber, together with a bound on its moves, bounds them
all. -/
theorem keeps_of_goes {may : W → W → Prop} (kept : Fiber W α → Prop)
    (goes : ∀ p mv q, kept p → p.Goes mv q → may mv.before mv.after ∧ kept q) (begun : kept p) :
    p.Keeps may := by
  induction p with
  | done a => exact abides_pure trivial
  | step act rest ih =>
      intro moves w w₁ _ _ b w₂ taken
      obtain ⟨own, after⟩ := goes _ _ _ begun (.go taken)
      exact ⟨(), own, ih b after _ _⟩

theorem Keeps.goes {may : W → W → Prop} (keeps : p.Keeps may) (goes : p.Goes mv p') :
    may mv.before mv.after ∧ p'.Keeps may := by
  obtain ⟨taken⟩ := goes
  exact keeps.step trivial taken

theorem keeps_mono {may may' : W → W → Prop} (more : ∀ w w', may w w' → may' w w')
    (keeps : p.Keeps may) : p.Keeps may' :=
  keeps_of_goes (Keeps may)
    (fun _ _ _ keeps goes => ⟨more _ _ (keeps.goes goes).1, (keeps.goes goes).2⟩) keeps

/-- What is kept by each step on some terms, and tells the end, makes a fiber safe. -/
theorem safe_of_goes {H : Type} {t : Terms W H} {post : α → H → List (Move W) → W → Prop}
    (kept : Fiber W α → H → List (Move W) → W → Prop) {h : H} {moves : List (Move W)}
    (ended : ∀ a h moves w, kept (.done a) h moves w → post a h moves w)
    (goes : ∀ p h moves w mv q, kept p h moves w → p.Goes mv q → t.others h w mv.before →
      t.known mv.before → ∃ h', t.own h mv.before mv.after h' ∧
        kept q h' (moves ++ [mv]) mv.after)
    (begun : kept p h moves w) : p.Safe t post h moves w := by
  induction p generalizing h moves w with
  | done a => exact ended a h moves w begun
  | step act rest ih =>
      intro w₁ meanwhile known b w₂ taken
      obtain ⟨h', own, after⟩ := goes _ _ _ _ _ _ begun (.go taken) meanwhile known
      exact ⟨h', own, ih b after⟩

/-! ## Side by side -/

theorem firstOf_eq_none {swap : Bool} {act : W → Option (γ × W)} {act' : W → Option (δ × W)} :
    firstOf swap act act' w = none ↔ act w = none ∧ act' w = none := by
  unfold firstOf
  cases swap <;> cases act w <;> cases act' w <;> simp

/-- What is taken of two actions is one of them. -/
theorem firstOf_eq_some {swap : Bool} {act : W → Option (γ × W)} {act' : W → Option (δ × W)}
    {r : γ ⊕ δ} {w' : W} (taken : firstOf swap act act' w = some (r, w')) :
    (∃ c, r = .inl c ∧ act w = some (c, w')) ∨ ∃ d, r = .inr d ∧ act' w = some (d, w') := by
  unfold firstOf at taken
  cases swap <;> cases left : act w <;> cases right : act' w <;> simp_all <;> grind

/-- The second of two actions is taken only where the first cannot be. -/
theorem firstOf_eq_inr {act : W → Option (γ × W)} {act' : W → Option (δ × W)} {d : δ} {w' : W}
    (taken : firstOf false act act' w = some (.inr d, w')) : act w = none := by
  unfold firstOf at taken
  cases left : act w with
  | none => rfl
  | some r => simp [left] at taken

section Either

variable {swap : W → Bool} {q : Fiber W α}

theorem either_step (act : W → Option (γ × W)) (rest : γ → Fiber W α)
    (act' : W → Option (δ × W)) (rest' : δ → Fiber W α) :
    either swap (step act rest) (step act' rest') =
      step (fun w => firstOf (swap w) act act' w)
        (Sum.elim (fun c => either swap (rest c) (step act' rest'))
          fun d => either swap (step act rest) (rest' d)) :=
  rfl

theorem either_eq_done {a : α} (ended : either swap p q = done a) : p = done a ∨ q = done a := by
  cases p with
  | done _ => exact .inl ended
  | step act rest =>
      cases q with
      | done _ => exact .inr ended
      | step act' rest' => cases ended

theorem pending_of_either (pending : (either swap p q).Pending) :
    p.Pending ∧ q.Pending := by
  cases p with
  | done _ => exact pending.elim
  | step act rest =>
      cases q with
      | done _ => exact pending.elim
      | step act' rest' => exact ⟨trivial, trivial⟩

/-- A step of one of two fibers, or of the other. -/
theorem goes_either {r : Fiber W α} (goes : (either swap p q).Goes mv r) :
    (∃ p', p.Goes mv p' ∧ r = either swap p' q) ∨ ∃ q', q.Goes mv q' ∧ r = either swap p q' := by
  obtain ⟨pending, pending'⟩ := pending_of_either goes.pending
  obtain ⟨_, act, rest, rfl⟩ := pending.exists_step
  obtain ⟨_, act', rest', rfl⟩ := pending'.exists_step
  rw [either_step] at goes
  obtain ⟨taken⟩ := goes
  rcases firstOf_eq_some taken with ⟨c, rfl, own⟩ | ⟨d, rfl, own⟩
  · exact .inl ⟨_, .go own, rfl⟩
  · exact .inr ⟨_, .go own, rfl⟩

theorem asleep_either (asleep : (either swap p q).Asleep w) : p.Asleep w ∧ q.Asleep w := by
  obtain ⟨pending, pending'⟩ := pending_of_either asleep.pending
  obtain ⟨_, act, rest, rfl⟩ := pending.exists_step
  obtain ⟨_, act', rest', rfl⟩ := pending'.exists_step
  rw [either_step] at asleep
  exact firstOf_eq_none.1 asleep

theorem keeps_either {may : W → W → Prop} (keeps : p.Keeps may) (keeps' : q.Keeps may) :
    (either swap p q).Keeps may := by
  refine keeps_of_goes (fun r => ∃ p q, r = either swap p q ∧ p.Keeps may ∧ q.Keeps may) ?_
    ⟨p, q, rfl, keeps, keeps'⟩
  rintro _ mv r ⟨p, q, rfl, keeps, keeps'⟩ goes
  rcases goes_either goes with ⟨p', first, rfl⟩ | ⟨q', second, rfl⟩
  · obtain ⟨own, after⟩ := keeps.goes first
    exact ⟨own, p', _, rfl, after, keeps'⟩
  · obtain ⟨own, after⟩ := keeps'.goes second
    exact ⟨own, _, q', rfl, keeps, after⟩

end Either

/-! ## Races -/

section Race

variable {q : Fiber W β}

theorem race_step (act : W → Option (γ × W)) (rest : γ → Fiber W α)
    (act' : W → Option (δ × W)) (rest' : δ → Fiber W β) :
    race (step act rest) (step act' rest') =
      step (firstOf false act act')
        (Sum.elim (fun c => race (rest c) (step act' rest'))
          fun d => raceBack (step act rest) (rest' d)) :=
  rfl

theorem raceBack_step (act : W → Option (γ × W)) (rest : γ → Fiber W α)
    (act' : W → Option (δ × W)) (rest' : δ → Fiber W β) :
    raceBack (step act rest) (step act' rest') =
      step (firstOf false act' fun w => some ((), w))
        (Sum.elim (fun d => raceBack (step act rest) (rest' d))
          fun _ => race (step act rest) (step act' rest')) :=
  rfl

theorem raceBack_done (pending : p.Pending) (b : β) :
    raceBack p (done b) = done (.error b) := by
  obtain ⟨_, act, rest, rfl⟩ := pending.exists_step
  rfl

theorem pending_race (pending : p.Pending) (pending' : q.Pending) : (race p q).Pending := by
  obtain ⟨_, act, rest, rfl⟩ := pending.exists_step
  obtain ⟨_, act', rest', rfl⟩ := pending'.exists_step
  rw [race_step]
  trivial

theorem pending_raceBack (pending : p.Pending) (pending' : q.Pending) :
    (raceBack p q).Pending := by
  obtain ⟨_, act, rest, rfl⟩ := pending.exists_step
  obtain ⟨_, act', rest', rfl⟩ := pending'.exists_step
  rw [raceBack_step]
  trivial

/-- A step of a race is one of the first fiber, or of the second where the first has to
wait. -/
theorem goes_race {r : Fiber W (Except β α)} (pending : q.Pending)
    (goes : (race p q).Goes mv r) :
    (∃ p', p.Goes mv p' ∧ r = race p' q) ∨
      p.Asleep mv.before ∧ ∃ q', q.Goes mv q' ∧ r = raceBack p q' := by
  obtain ⟨_, act', rest', rfl⟩ := pending.exists_step
  cases p with
  | done _ => cases goes
  | step act rest =>
      rw [race_step] at goes
      obtain ⟨taken⟩ := goes
      rcases firstOf_eq_some taken with ⟨c, rfl, own⟩ | ⟨d, rfl, own⟩
      · exact .inl ⟨_, .go own, rfl⟩
      · exact .inr ⟨firstOf_eq_inr taken, _, .go own, rfl⟩

/-- When it is the turn of the second fiber, it takes a step, or gives the turn back where it
has to wait. -/
theorem goes_raceBack {r : Fiber W (Except β α)} (pending : p.Pending)
    (goes : (raceBack p q).Goes mv r) :
    (∃ q', q.Goes mv q' ∧ r = raceBack p q') ∨
      q.Asleep mv.before ∧ mv.after = mv.before ∧ r = race p q := by
  obtain ⟨_, act, rest, rfl⟩ := pending.exists_step
  cases q with
  | done _ => cases goes
  | step act' rest' =>
      rw [raceBack_step] at goes
      obtain ⟨taken⟩ := goes
      rcases firstOf_eq_some taken with ⟨d, rfl, own⟩ | ⟨_, rfl, own⟩
      · exact .inl ⟨_, .go own, rfl⟩
      · cases own
        exact .inr ⟨firstOf_eq_inr taken, rfl, rfl⟩

theorem asleep_race (pending : q.Pending) : (race p q).Asleep w ↔ p.Asleep w ∧ q.Asleep w := by
  obtain ⟨_, act', rest', rfl⟩ := pending.exists_step
  cases p with
  | done _ => exact ⟨False.elim, fun both => both.1⟩
  | step act rest =>
      rw [race_step]
      exact firstOf_eq_none

theorem not_asleep_raceBack : ¬ (raceBack p q).Asleep w := by
  cases p with
  | done _ => exact id
  | step act rest =>
      cases q with
      | done _ => exact id
      | step act' rest' =>
          rw [raceBack_step]
          intro asleep
          cases (firstOf_eq_none.1 asleep).2

/-- The first fiber of a race goes whenever it can and it has the turn. -/
theorem race_goes (pending : q.Pending) (goes : p.Goes mv p') : (race p q).Goes mv (race p' q) := by
  obtain ⟨_, act', rest', rfl⟩ := pending.exists_step
  obtain @⟨_, act, rest, b, w, w', taken⟩ := goes
  rw [race_step]
  have first : firstOf false act act' w = some (.inl b, w') := by
    simp [firstOf, taken]
  exact .go first

end Race

end EventSourcing.Fiber
