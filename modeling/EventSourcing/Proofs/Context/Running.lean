import EventSourcing.Proofs.Context.Clock
import EventSourcing.Proofs.Fiber.Racing

/-!
# Proofs.Context.Running -- calls that wait for one action

Whoever waits for the end of a context sets alarms, and that is all it does to the state
(`Context.keeps_interrupted`).  Main statements: a call that runs one action under a context
takes it in its last move and does nothing but wait before (`Context.outcome_of_run`), and on
any terms it is safe if its waiting and its action are (`Context.safe_run_await`).
-/

namespace EventSourcing.Context

set_option autoImplicit false

variable {W α β : Type} {clock : Part W Clock} {ctx : Context} {act : W → Option (α × W)}

/-! ## Biding -/

theorem keeps_look {f : W → α} : (Fiber.atomic fun w => (f w, w)).Keeps (Bides clock) :=
  Fiber.abides_atomic _ fun _ _ => ⟨.inl rfl, trivial⟩

/-- Waiting for something to come about changes nothing. -/
theorem keeps_until (ready : W → Prop) [DecidablePred ready] :
    (Fiber.await fun w => if ready w then some ((), w) else none).Keeps (Bides clock) := by
  refine Fiber.abides_await _ fun w _ a w' taken => ⟨.inl ?_, trivial⟩
  split at taken <;> cases taken
  rfl

theorem keeps_listen (clock : Part W Clock) (ctx : Context) (rounds : Nat) :
    (ctx.listen clock rounds).Keeps (Bides clock) := by
  induction rounds with
  | zero => exact Fiber.abides_stuck
  | succ rounds ih =>
      refine Fiber.abides_bind keeps_look fun registered _ => ?_
      refine Fiber.abides_bind keeps_look fun up _ => ?_
      cases up with
      | true => exact Fiber.abides_pure trivial
      | false =>
          exact Fiber.abides_bind
            (keeps_until fun w => (clock.get w).noticesOf ctx.family ≠ registered) fun _ _ => ih

theorem keeps_sleep (clock : Part W Clock) (time : Nat) :
    (sleep clock time).Keeps (Bides clock) :=
  Fiber.abides_bind (Fiber.abides_atomic (fun _ => True) fun _ _ => ⟨.inr ⟨time, rfl⟩, trivial⟩)
    fun _ _ => keeps_until _

theorem keeps_interrupted (clock : Part W Clock) (ctx : Context) :
    (ctx.interrupted clock).Keeps (Bides clock) := by
  have canceled : (ctx.listen clock 2 >>= fun _ => pure Interruption.canceled).Keeps
      (Bides clock) :=
    Fiber.abides_bind (keeps_listen clock ctx 2) fun _ _ => Fiber.abides_pure trivial
  unfold interrupted
  cases ctx.deadline with
  | none => exact canceled
  | some time =>
      exact Fiber.keeps_either canceled
        (Fiber.abides_bind (keeps_sleep clock time) fun _ _ => Fiber.abides_pure trivial)

theorem pending_interrupted (clock : Part W Clock) (ctx : Context) :
    (ctx.interrupted clock).Pending := by
  unfold interrupted
  cases ctx.deadline <;> trivial

/-! ## A race for one action -/

def Races (act : W → Option (α × W)) (q : Fiber W β) (r : Fiber W (Except β α)) : Prop :=
  q.Pending ∧ r = Fiber.race (Fiber.await act) q ∨ r = Fiber.raceBack (Fiber.await act) q

/-- Either the action is taken and the race is over, or it goes on, or the other fiber takes a
step. -/
theorem Races.goes {q : Fiber W β} {r r' : Fiber W (Except β α)} {mv : Move W}
    (races : Races act q r) (goes : r.Goes mv r') :
    (∃ a, act mv.before = some (a, mv.after) ∧ r' = .done (.ok a)) ∨
      (mv.after = mv.before ∧ Races act q r') ∨ ∃ q', q.Goes mv q' ∧ Races act q' r' := by
  rcases races with ⟨pending, rfl⟩ | rfl
  · rcases Fiber.goes_race pending goes with ⟨p', first, rfl⟩ | ⟨_, q', second, rfl⟩
    · obtain ⟨taken⟩ := first
      exact .inl ⟨_, taken, rfl⟩
    · exact .inr (.inr ⟨q', second, .inr rfl⟩)
  · rcases Fiber.goes_raceBack (p := Fiber.await act) trivial goes with
      ⟨q', second, rfl⟩ | ⟨asleep, same, rfl⟩
    · exact .inr (.inr ⟨q', second, .inr rfl⟩)
    · exact .inr (.inl ⟨same, .inl ⟨asleep.pending, rfl⟩⟩)

/-- A race that is not decided by the action is decided by the other fiber, if at all. -/
theorem Races.pending_or_done {q : Fiber W β} {r : Fiber W (Except β α)}
    (races : Races act q r) : r.Pending ∨ ∃ b, r = .done (.error b) := by
  rcases races with ⟨pending, rfl⟩ | rfl
  · exact .inl (Fiber.pending_race (p := Fiber.await act) trivial pending)
  · cases q with
    | done b => exact .inr ⟨b, rfl⟩
    | step act' rest' =>
        exact .inl (Fiber.pending_raceBack (p := Fiber.await act) trivial trivial)

/-- A fiber that changes the clock at most, or does so until it takes an action in its last
move. -/
def Outcome (clock : Part W Clock) (act : W → Option (α × W)) (moves : List (Move W))
    (r : Fiber W (Except β α)) : Prop :=
  ((∀ mv ∈ moves, ∃ c, mv.after = clock.set c mv.before) ∧
      (r.Pending ∨ ∃ b, r = .done (.error b))) ∨
    ∃ before taking a, moves = before ++ [taking] ∧
      (∀ mv ∈ before, ∃ c, mv.after = clock.set c mv.before) ∧
      act taking.before = some (a, taking.after) ∧ r = .done (.ok a)

theorem Outcome.cons {mv : Move W} {moves : List (Move W)} {r : Fiber W (Except β α)}
    (outcome : Outcome clock act moves r) (still : ∃ c, mv.after = clock.set c mv.before) :
    Outcome clock act (mv :: moves) r := by
  rcases outcome with ⟨waits, ending⟩ | ⟨before, taking, a, rfl, waits, taken, rfl⟩
  · exact .inl ⟨List.forall_mem_cons.2 ⟨still, waits⟩, ending⟩
  · exact .inr ⟨mv :: before, taking, a, rfl, List.forall_mem_cons.2 ⟨still, waits⟩, taken, rfl⟩

theorem outcome_of_race {q : Fiber W β} {moves : List (Move W)} {r r' : Fiber W (Except β α)}
    (keeps : q.Keeps (Bides clock)) (races : Races act q r) (leads : r.Leads moves r') :
    Outcome clock act moves r' := by
  induction leads generalizing q with
  | stay r => exact .inl ⟨fun mv member => (List.not_mem_nil member).elim, races.pending_or_done⟩
  | @move _ act' rest b w w' moves r' taken later ih =>
      rcases races.goes (.go taken) with ⟨a, acted, given⟩ | ⟨same, on⟩ | ⟨q', goes, on⟩
      · rw [given] at later
        obtain ⟨rfl, rfl⟩ := later.of_done
        exact .inr ⟨[], _, a, rfl, fun mv member => (List.not_mem_nil member).elim, acted, rfl⟩
      · exact (ih keeps on).cons (Bides.set (.inl same))
      · obtain ⟨bides, keeps'⟩ := keeps.goes goes
        exact (ih keeps' on).cons bides.set

/-! ## Calls -/

/-- A call that waits for an action changes the clock at most, until it takes the action in its
last move or finds that it is interrupted. -/
theorem outcome_of_run {moves : List (Move W)} {q : Fiber W (Except Interruption α)}
    (leads : (ctx.run clock (Fiber.await act)).Leads moves q) :
    ((∀ mv ∈ moves, ∃ c, mv.after = clock.set c mv.before) ∧
        (q.Pending ∨ ∃ reason, q = .done (.error reason))) ∨
      ∃ before taking a, moves = before ++ [taking] ∧
        (∀ mv ∈ before, ∃ c, mv.after = clock.set c mv.before) ∧
        act taking.before = some (a, taking.after) ∧ q = .done (.ok a) := by
  rw [run] at leads
  rcases leads.of_atomic with ⟨rfl, pending⟩ | ⟨w, moves, rfl, live⟩
  · exact .inl ⟨fun mv member => (List.not_mem_nil member).elim, .inl pending⟩
  have still : ∃ c, w = clock.set c w := ⟨clock.get w, (clock.set_get w).symm⟩
  cases interrupted : ctx.interruption? (clock.get w) with
  | some reason =>
      rw [interrupted] at live
      obtain ⟨rfl, rfl⟩ := live.of_done
      exact .inl ⟨List.forall_mem_singleton.2 still, .inr ⟨reason, rfl⟩⟩
  | none =>
      rw [interrupted] at live
      exact (outcome_of_race (keeps_interrupted clock ctx)
        (.inl ⟨pending_interrupted clock ctx, rfl⟩) live).cons still

/-- A call that has taken the action that it waited for, took it in its last move. -/
theorem taken_of_run {moves : List (Move W)} {a : α}
    (leads : (ctx.run clock (Fiber.await act)).Leads moves (.done (.ok a))) :
    ∃ before taking, moves = before ++ [taking] ∧
      (∀ mv ∈ before, ∃ c, mv.after = clock.set c mv.before) ∧
      act taking.before = some (a, taking.after) := by
  rcases outcome_of_run leads with ⟨_, pending | ⟨reason, same⟩⟩ | ⟨before, taking, b, made, idle,
    taken, same⟩
  · exact pending.elim
  · cases same
  · cases same
    exact ⟨before, taking, made, idle, taken⟩

/-- A call that waits for an action is safe if the way it stands allows it to bide its time, and
to take the action.  What is `still` true while it waits tells how it is refused. -/
theorem safe_run_await {H : Type} {t : Terms W H} {h : H} {moves : List (Move W)} {w : W}
    {post : Except Interruption α → H → List (Move W) → W → Prop}
    (still : List (Move W) → W → Prop) (begun : still moves w)
    (waits : ∀ moves w w₁ w₂, still moves w → t.others h w w₁ → t.known w₁ →
      Bides clock w₁ w₂ → t.own h w₁ w₂ h ∧ still (moves ++ [⟨w₁, w₂⟩]) w₂)
    (interrupted : ∀ reason moves w, still moves w → post (.error reason) h moves w)
    (taken : ∀ moves w w₁ a w₂, still moves w → t.others h w w₁ → t.known w₁ →
      act w₁ = some (a, w₂) →
        ∃ h', t.own h w₁ w₂ h' ∧ post (.ok a) h' (moves ++ [⟨w₁, w₂⟩]) w₂) :
    (ctx.run clock (Fiber.await act)).Safe t post h moves w := by
  refine Fiber.safe_bind (Fiber.safe_atomic fun w₁ meanwhile known => ?_)
  obtain ⟨own, looked⟩ := waits moves w w₁ w₁ begun meanwhile known (.inl rfl)
  refine ⟨h, own, ?_⟩
  dsimp only
  cases ctx.interruption? (clock.get w₁) with
  | some reason => exact Fiber.safe_pure (interrupted reason _ _ looked)
  | none =>
      -- While the race goes on the call stands as before; once the action is taken it is over.
      refine Fiber.safe_of_goes
        (fun r h' moves w =>
          (h' = h ∧ still moves w ∧
              ∃ q : Fiber W Interruption, q.Keeps (Bides clock) ∧ Races act q r) ∨
            ∃ a, r = .done (.ok a) ∧ post (.ok a) h' moves w)
        ?_ ?_ (.inl ⟨rfl, looked, _, keeps_interrupted clock ctx,
          .inl ⟨pending_interrupted clock ctx, rfl⟩⟩)
      · rintro result h' moves w (⟨rfl, waited, q, _, races⟩ | ⟨a, same, holds⟩)
        · rcases races.pending_or_done with pending | ⟨reason, same⟩
          · exact pending.elim
          · cases same
            exact interrupted reason moves w waited
        · cases same
          exact holds
      · rintro r h' moves w mv r' (⟨rfl, waited, q, keeps, races⟩ | ⟨a, rfl, _⟩) goes others known
        · rcases races.goes goes with ⟨a, acted, rfl⟩ | ⟨same, on⟩ | ⟨q', second, on⟩
          · obtain ⟨h', own, holds⟩ := taken moves w _ a _ waited others known acted
            exact ⟨h', own, .inr ⟨a, rfl, holds⟩⟩
          · obtain ⟨own, waited⟩ := waits moves w _ mv.after waited others known (.inl same)
            exact ⟨h', own, .inl ⟨rfl, waited, q, keeps, on⟩⟩
          · obtain ⟨bides, keeps'⟩ := keeps.goes second
            obtain ⟨own, waited⟩ := waits moves w _ mv.after waited others known bides
            exact ⟨h', own, .inl ⟨rfl, waited, q', keeps', on⟩⟩
        · cases goes

end EventSourcing.Context
