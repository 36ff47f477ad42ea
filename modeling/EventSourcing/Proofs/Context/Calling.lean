import EventSourcing.Proofs.Context.Listening
import EventSourcing.Proofs.Context.Passing
import Mathlib.Data.List.Induction

/-!
# Proofs.Context.Calling -- how a call under a context goes

A call asks its context, and if that is live it goes on in rounds: what it runs goes as far as
it can, and then whoever waits for the end of the context does (`Context.Calls`).  Main
statements: each step of a call keeps this (`Context.Calls.goes`), and so does whatever others
do meanwhile and the passing of time (`Context.Calls.later`, `Context.Calls.pass`).
-/

namespace EventSourcing.Context

set_option autoImplicit false

variable {W α : Type}

/-- The moves of a call: those of what it runs, and between them some in which it bides its
time. -/
inductive Mingles (clock : Part W Clock) : List (Move W) → List (Move W) → Prop where
  | none : Mingles clock [] []
  | own {own moves : List (Move W)} (mingles : Mingles clock own moves) (mv : Move W) :
      Mingles clock (own ++ [mv]) (moves ++ [mv])
  | bides {own moves : List (Move W)} {mv : Move W} (mingles : Mingles clock own moves)
      (bides : Bides clock mv.before mv.after) : Mingles clock own (moves ++ [mv])

/-- A round in which what is run has to wait at first, and after which it is not asked again: no
time passes in it. -/
structure Round (clock : Part W Clock) (p : Fiber W α) (now : Nat) (asked : Move W)
    (since : List (Move W)) : Prop where
  asleep : p.Asleep asked.before
  bides : ∀ mv ∈ asked :: since, Bides clock mv.before mv.after
  now : ∀ mv ∈ asked :: since, (clock.get mv.before).now = now

/-- How a call goes that has ended, by its moves.  It is refused at once where its context is at
its end to begin with.  Otherwise it gives what `p` ends with, or it ends at a time at which `p`
was asked and had to wait, for a reason that its context has then. -/
inductive Ends (clock : Part W Clock) (ctx : Context) (p : Fiber W α) :
    List (Move W) → Except Interruption α → Prop where
  | refused {w : W} {reason : Interruption}
      (expired : ctx.interruption? (clock.get w) = some reason) :
      Ends clock ctx p [⟨w, w⟩] (.error reason)
  | output {w : W} {own moves : List (Move W)} {a : α}
      (live : ctx.interruption? (clock.get w) = none) (led : p.Leads own (.done a))
      (mingles : Mingles clock own moves) : Ends clock ctx p (⟨w, w⟩ :: moves) (.ok a)
  | interrupted {w w' : W} {own earlier since : List (Move W)} {asked : Move W} {p' : Fiber W α}
      {reason : Interruption} (live : ctx.interruption? (clock.get w) = none)
      (led : p.Leads own p') (mingles : Mingles clock own earlier)
      (round : Round clock p' (clock.get w').now asked since)
      (last : (asked :: since).getLast?.map Move.after = some w')
      (ended : ctx.Ended (clock.get w') reason)
      (exact : reason = .deadlineExceeded → ctx.deadline = some (clock.get w').now) :
      Ends clock ctx p (⟨w, w⟩ :: (earlier ++ asked :: since)) (.error reason)

/-- A deadline that has not been passed. -/
def InTime (ctx : Context) (c : Clock) : Prop :=
  ∀ time, ctx.deadline = some time → c.now ≤ time

/-- How far a call has come, by its moves and by what is left of it. -/
inductive Calls (clock : Part W Clock) (ctx : Context) (p : Fiber W α) (c : Clock) :
    List (Move W) → Fiber W (Except Interruption α) → Prop where
  | begun : Calls clock ctx p c [] (ctx.run clock p)
  /-- It is the turn of what is run. -/
  | first {w : W} {own moves : List (Move W)} {p' : Fiber W α} {q : Fiber W Interruption}
      (live : ctx.interruption? (clock.get w) = none) (led : p.Leads own p')
      (mingles : Mingles clock own moves) (pending : p'.Pending) (watching : Watching clock ctx c q)
      (pending' : q.Pending) (inTime : ctx.InTime c) :
      Calls clock ctx p c (⟨w, w⟩ :: moves) (.race p' q)
  /-- It is the turn of whoever waits for the end of the context. -/
  | second {w : W} {own earlier since : List (Move W)} {asked : Move W} {p' : Fiber W α}
      {q : Fiber W Interruption} (live : ctx.interruption? (clock.get w) = none)
      (led : p.Leads own p') (mingles : Mingles clock own earlier)
      (round : Round clock p' c.now asked since) (watching : Watching clock ctx c q)
      (pending' : q.Pending) (inTime : ctx.InTime c) :
      Calls clock ctx p c (⟨w, w⟩ :: (earlier ++ asked :: since)) (.raceBack p' q)
  | ended {moves : List (Move W)} {result : Except Interruption α}
      (ends : Ends clock ctx p moves result) : Calls clock ctx p c moves (.done result)

variable {clock : Part W Clock} {ctx : Context} {p p' : Fiber W α} {c c' : Clock}
  {moves own since : List (Move W)} {asked mv : Move W} {r r' : Fiber W (Except Interruption α)}
  {w : W}

theorem Mingles.round (mingles : Mingles clock own moves)
    (bides : ∀ mv ∈ since, Bides clock mv.before mv.after) :
    Mingles clock own (moves ++ since) := by
  induction since using List.reverseRecOn with
  | nil => rwa [List.append_nil]
  | append_singleton since mv ih =>
      rw [← List.append_assoc]
      exact (ih fun mv member => bides mv (List.mem_append_left _ member)).bides
        (bides mv (List.mem_append_right _ (List.mem_singleton_self _)))

theorem Round.concat {now : Nat} (round : Round clock p now asked since)
    (bides : Bides clock mv.before mv.after) (same : (clock.get mv.before).now = now) :
    Round clock p now asked (since ++ [mv]) := by
  obtain ⟨asleep, biding, time⟩ := round
  refine ⟨asleep, ?_, ?_⟩
  · rw [← List.cons_append]
    exact List.forall_mem_append.2 ⟨biding, List.forall_mem_singleton.2 bides⟩
  · rw [← List.cons_append]
    exact List.forall_mem_append.2 ⟨time, List.forall_mem_singleton.2 same⟩

/-- A reason that a context has while its deadline has not been passed. -/
theorem InTime.exact {reason : Interruption} (inTime : ctx.InTime c) (ended : ctx.Ended c reason)
    (late : reason = .deadlineExceeded) : ctx.deadline = some c.now := by
  subst late
  obtain ⟨time, deadline, passed⟩ := ended
  rw [deadline, Nat.le_antisymm passed (inTime time deadline)]

theorem inTime_of_live (live : ctx.interruption? c = none) : ctx.InTime c := fun time deadline =>
  Nat.le_of_lt ((interruption?_eq_none.1 live).2 time deadline)

theorem Calls.of_done {result : Except Interruption α}
    (calls : Calls clock ctx p c moves (.done result)) : Ends clock ctx p moves result := by
  generalize same : Fiber.done result = r at calls
  cases calls with
  | begun => cases same
  | first live led mingles pending watching pending' =>
      have still := Fiber.pending_race pending pending'
      rw [← same] at still
      exact still.elim
  | second live led mingles round watching pending' =>
      have still := Fiber.pending_raceBack round.asleep.pending pending'
      rw [← same] at still
      exact still.elim
  | ended ends =>
      cases same
      exact ends

/-! ## What a call does -/

/-- What has become of a call when it is the turn of what is run. -/
theorem calls_race {q : Fiber W Interruption} (live : ctx.interruption? (clock.get w) = none)
    (led : p.Leads own p') (mingles : Mingles clock own moves) (watching : Watching clock ctx c q)
    (pending' : q.Pending) (inTime : ctx.InTime c) :
    Calls clock ctx p c (⟨w, w⟩ :: moves) (.race p' q) := by
  cases p' with
  | done a => exact .ended (.output live led mingles)
  | step act rest => exact .first live led mingles trivial watching pending' inTime

/-- What has become of a call when it is the turn of whoever waits for the end of the context. -/
theorem calls_raceBack {q : Fiber W Interruption} {w' : W} {earlier : List (Move W)}
    (live : ctx.interruption? (clock.get w) = none) (led : p.Leads own p')
    (mingles : Mingles clock own earlier) (round : Round clock p' (clock.get w').now asked since)
    (watching : Watching clock ctx (clock.get w') q)
    (last : (asked :: since).getLast?.map Move.after = some w')
    (inTime : ctx.InTime (clock.get w')) :
    Calls clock ctx p (clock.get w') (⟨w, w⟩ :: (earlier ++ asked :: since)) (.raceBack p' q) := by
  cases q with
  | done reason =>
      rw [Fiber.raceBack_done round.asleep.pending]
      exact .ended (.interrupted live led mingles round last watching.ended
        (inTime.exact watching.ended))
  | step act rest => exact .second live led mingles round watching trivial inTime

/-- A step of a call is as it should be, whatever its context and what it runs have become. -/
theorem Calls.goes (calls : Calls clock ctx p (clock.get mv.before) moves r) (goes : r.Goes mv r')
    (sound : (clock.get mv.before).Sound) (later : (clock.get mv.before).Later (clock.get mv.after))
    (still : (clock.get mv.after).now = (clock.get mv.before).now) :
    Calls clock ctx p (clock.get mv.after) (moves ++ [mv]) r' := by
  have kept (inTime : ctx.InTime (clock.get mv.before)) : ctx.InTime (clock.get mv.after) :=
    fun time deadline => Nat.le_trans (Nat.le_of_eq still) (inTime time deadline)
  cases calls with
  | begun =>
      obtain ⟨same, rfl⟩ := Fiber.goes_atomic goes
      obtain ⟨w, w'⟩ := mv
      obtain rfl : w' = w := same
      dsimp only
      cases asked : ctx.interruption? (clock.get w') with
      | some reason => exact .ended (.refused asked)
      | none =>
          have watching := watching_interrupted clock ctx (clock.get w')
          exact calls_race asked (.stay p) .none watching (pending_interrupted clock ctx)
            (inTime_of_live asked)
  | @first w own moves p₁ q live led mingles pending watching pending' inTime =>
      rcases Fiber.goes_race pending' goes with ⟨p₂, step, rfl⟩ | ⟨asleep, q', step, rfl⟩
      · exact calls_race live (led.goes step) (mingles.own mv) (watching.later later) pending'
          (kept inTime)
      · obtain ⟨bides, after⟩ := watching.goes sound step
        have round : Round clock p₁ (clock.get mv.after).now mv [] :=
          ⟨asleep, List.forall_mem_singleton.2 bides, List.forall_mem_singleton.2 still.symm⟩
        exact calls_raceBack live led mingles round after rfl (kept inTime)
  | @second w own earlier since asked p₁ q live led mingles round watching pending' inTime =>
      rcases Fiber.goes_raceBack round.asleep.pending goes with
        ⟨q', step, rfl⟩ | ⟨asleep, same, rfl⟩
      · obtain ⟨bides, after⟩ := watching.goes sound step
        rw [List.cons_append, List.append_assoc, List.cons_append]
        refine calls_raceBack live led mingles ?_ after ?_ (kept inTime)
        · rw [still]
          exact round.concat bides rfl
        · rw [← List.cons_append, List.getLast?_concat]
          rfl
      · have mingled : Mingles clock own (earlier ++ asked :: since ++ [mv]) :=
          (mingles.round round.bides).bides (.inl same)
        rw [List.cons_append]
        exact calls_race live led mingled (watching.later later) pending' (kept inTime)
  | ended ends => cases goes

/-! ## What others do -/

theorem Calls.later (calls : Calls clock ctx p c moves r) (later : c.Later c')
    (still : c'.now = c.now) : Calls clock ctx p c' moves r := by
  have kept (inTime : ctx.InTime c) : ctx.InTime c' :=
    fun time deadline => Nat.le_trans (Nat.le_of_eq still) (inTime time deadline)
  cases calls with
  | begun => exact .begun
  | first live led mingles pending watching pending' inTime =>
      exact .first live led mingles pending (watching.later later) pending' (kept inTime)
  | second live led mingles round watching pending' inTime =>
      exact .second live led mingles (still ▸ round) (watching.later later) pending' (kept inTime)
  | ended ends => exact .ended ends

/-- A call that has to wait: what it runs has to wait too, nobody has notified it, and the alarm
is set for its deadline. -/
theorem Calls.asleep (calls : Calls clock ctx p c moves r) (asleep : r.Asleep w) :
    ∃ own p' q, r = .race p' q ∧ p.Leads own p' ∧ Mingles clock own moves.tail ∧ p'.Asleep w ∧
      Watching clock ctx c q ∧ q.Asleep w := by
  cases calls with
  | begun => cases asleep
  | @first w' own moves p' q live led mingles pending watching pending' inTime =>
      obtain ⟨waits, waits'⟩ := (Fiber.asleep_race pending').1 asleep
      exact ⟨own, p', q, rfl, led, mingles, waits, watching, waits'⟩
  | second => exact absurd asleep Fiber.not_asleep_raceBack
  | ended ends => cases asleep

/-- Time passes for a call that has to wait, or that has ended, but not beyond an alarm. -/
theorem Calls.pass {time : Nat} (calls : Calls clock ctx p (clock.get w) moves r)
    (rests : r.Pending → r.Asleep w)
    (alarms : ∀ alarm ∈ (clock.get w).alarms, (clock.get w).now < alarm → time ≤ alarm) :
    Calls clock ctx p ((clock.get w).advanceTo time) moves r := by
  have later := Clock.later_advanceTo time (clock.get w)
  cases calls with
  | begun => exact .begun
  | @first w' own moves p' q live led mingles pending watching pending' inTime =>
      obtain ⟨_, waits⟩ := (Fiber.asleep_race pending').1
        (rests (Fiber.pending_race pending pending'))
      refine .first live led mingles pending (watching.later later) pending' fun deadline set => ?_
      obtain ⟨future, alarm⟩ := (watching.asleep waits).2 deadline set
      exact Nat.max_le.2 ⟨Nat.le_of_lt future, alarms deadline alarm future⟩
  | second live led mingles round watching pending' inTime =>
      exact absurd (rests (Fiber.pending_raceBack round.asleep.pending pending'))
        Fiber.not_asleep_raceBack
  | ended ends => exact .ended ends

end EventSourcing.Context
