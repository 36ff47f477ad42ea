import EventSourcing.Proofs.Context.Asking
import EventSourcing.Proofs.Context.Family
import Mathlib.Logic.Function.Iterate

/-!
# Proofs.Context.Waiting -- who waits is woken in time

Requests under contexts take their turns, and time passes while all of them have to wait.  When a
context has come to its end no more time passes until whoever waits for that has been told
(`Ask.still_of_over`), and those who wait need nobody's help to go on (`Ask.ends_alone`).  Main
statement: contexts obey one clock, and all who observe them agree
(`Context.contexts_obey_one_clock`).
-/

namespace EventSourcing

set_option autoImplicit false

open Pool (Becomes Timed)

namespace Ask

variable {W : Type}

/-- Requests under contexts, and what becomes of them as time passes. -/
abbrev Traffic (W : Type) := Pool W (Ask.Result (W := W))

/-- What becomes of requests of which those that go on beside are courteous. -/
abbrev Turns (clock : Part W Clock) (outside : W → W → Prop) : Traffic W → Traffic W → Prop :=
  Becomes clock (answer clock) (Courteous clock) outside

/-- What is known of requests at any time. -/
structure Kept (clock : Part W Clock) (pool : Traffic W) : Prop where
  holds : pool.Holds (Pool.courtesy clock) (Pool.Owed clock)
    fun _ task owes => task.fiber.Courteous clock owes
  stands : ∀ task ∈ pool.tasks,
    task.request.Stands clock (clock.get pool.state) task.moves task.fiber

variable {clock : Part W Clock} {outside : W → W → Prop} {start : W} {pool pool' : Traffic W}
  {ctx : Context} {k : Nat}

theorem Kept.sound (kept : Kept clock pool) : (clock.get pool.state).Sound :=
  kept.holds.known

/-- A step of a task does to the clock what a courteous one does. -/
theorem Kept.acts (kept : Kept clock pool) {task : Task W (Ask.Result (W := W))}
    (found : pool.tasks[k]? = some task) {w : W} {q : Fiber W task.request.Result}
    (goes : task.fiber.Goes ⟨pool.state, w⟩ q) :
    (clock.get pool.state).Later (clock.get w) ∧
      (clock.get w).now = (clock.get pool.state).now := by
  obtain ⟨hs, _, lengths, each⟩ := kept.holds.standings
  have inside : k < hs.length := lengths ▸ (List.getElem?_eq_some_iff.1 found).1
  obtain ⟨owes, acts, _⟩ := (each k _ _ found (List.getElem?_eq_getElem inside)).goes goes
  exact ⟨acts.later, acts.now⟩

/-- While anything is at work no time passes. -/
theorem Kept.work (kept : Kept clock pool)
    (orderly : ∀ w w', outside w w' → (clock.get w).Orderly (clock.get w'))
    (step : Pool.Step (answer clock) (Courteous clock) outside pool pool') :
    (clock.get pool.state).Later (clock.get pool'.state) ∧
      (clock.get pool'.state).now = (clock.get pool.state).now := by
  cases step with
  | start r may => exact ⟨.refl _, rfl⟩
  | turn k found taken => exact kept.acts found (.go taken)
  | outside happened =>
      have orderly := orderly _ _ happened
      exact ⟨orderly.toLater, orderly.still⟩

theorem Kept.stands_step (kept : Kept clock pool)
    (orderly : ∀ w w', outside w w' → (clock.get w).Orderly (clock.get w'))
    (timed : Timed clock (answer clock) (Courteous clock) outside pool pool') :
    ∀ task ∈ pool'.tasks,
      task.request.Stands clock (clock.get pool'.state) task.moves task.fiber := by
  cases timed with
  | work step =>
      have changes := kept.work orderly step
      cases step with
      | start r may =>
          intro task member
          rcases List.mem_append.1 member with old | new
          · exact kept.stands task old
          · rw [List.mem_singleton.1 new]
            exact stands_answer clock _ r
      | turn k found taken =>
          intro task member
          rcases List.mem_or_eq_of_mem_set member with old | rfl
          · exact (kept.stands task old).later changes.1 changes.2
          · exact (kept.stands _ (List.mem_of_getElem? found)).goes (.go taken) kept.sound
              changes.1 changes.2
      | outside happened =>
          exact fun task member => (kept.stands task member).later changes.1 changes.2
  | pass time rests alarms =>
      intro task member
      rw [Part.get_modify]
      exact (kept.stands task member).pass (rests task member) alarms

theorem kept_of_turns (orderly : ∀ w w', outside w w' → (clock.get w).Orderly (clock.get w'))
    (settled : (clock.get start).Settled) (turns : Turns clock outside ⟨start, []⟩ pool) :
    Kept clock pool := by
  have holds {pool : Traffic W} (turns : Turns clock outside ⟨start, []⟩ pool) :=
    Pool.courteous_of_becomes (fun r => courteous_answer) orderly settled turns
  induction turns with
  | refl => exact ⟨holds .refl, fun task member => (List.not_mem_nil member).elim⟩
  | tail earlier timed ih => exact ⟨holds (earlier.tail timed), ih.stands_step orderly timed⟩

/-! ## Time -/

/-- When all have to wait, nobody waits whose context is at its end, and the alarms are set for
the deadlines of those who wait. -/
theorem Kept.rests (kept : Kept clock pool) (rests : pool.Rests)
    {task : Task W (Ask.Result (W := W))} (member : task ∈ pool.tasks)
    (under : task.request.under = some ctx) (pending : task.fiber.Pending) :
    ctx.interruption? (clock.get pool.state) = none ∧
      ∀ time, ctx.deadline = some time → time ∈ (clock.get pool.state).alarms := by
  obtain ⟨unnoticed, alarms⟩ := (kept.stands task member).asleep under (rests task member pending)
  have settled := Pool.settled_of_rest kept.holds rests
  refine ⟨Context.interruption?_eq_none.2 ⟨?_, fun time deadline => (alarms time deadline).1⟩,
    fun time deadline => (alarms time deadline).2⟩
  exact fun canceled => unnoticed ((settled ctx.family).2 canceled)

/-- Time does not pass for those whose context is at its end, and for the others not beyond the
deadline. -/
theorem Kept.passes (kept : Kept clock pool)
    (orderly : ∀ w w', outside w w' → (clock.get w).Orderly (clock.get w'))
    (timed : Timed clock (answer clock) (Courteous clock) outside pool pool')
    (passed : (clock.get pool'.state).now ≠ (clock.get pool.state).now)
    {task : Task W (Ask.Result (W := W))} (member : task ∈ pool.tasks)
    (under : task.request.under = some ctx) (pending : task.fiber.Pending) :
    ctx.interruption? (clock.get pool.state) = none ∧
      ∀ time, ctx.deadline = some time → (clock.get pool'.state).now ≤ time := by
  cases timed with
  | work step => exact absurd (kept.work orderly step).2 passed
  | pass time rests alarms =>
      obtain ⟨live, set⟩ := kept.rests rests member under pending
      refine ⟨live, fun deadline found => ?_⟩
      have future := (Context.interruption?_eq_none.1 live).2 deadline found
      rw [Part.get_modify]
      exact Nat.max_le.2 ⟨Nat.le_of_lt future, alarms deadline (set deadline found) future⟩

theorem Kept.later (kept : Kept clock pool)
    (orderly : ∀ w w', outside w w' → (clock.get w).Orderly (clock.get w'))
    (timed : Timed clock (answer clock) (Courteous clock) outside pool pool') :
    (clock.get pool.state).Later (clock.get pool'.state) := by
  cases timed with
  | work step => exact (kept.work orderly step).1
  | pass time rests alarms =>
      rw [Part.get_modify]
      exact Clock.later_advanceTo time _

theorem later_of_turns (orderly : ∀ w w', outside w w' → (clock.get w).Orderly (clock.get w'))
    (settled : (clock.get start).Settled) (turns : Turns clock outside ⟨start, []⟩ pool)
    (becomes : Turns clock outside pool pool') :
    (clock.get pool.state).Later (clock.get pool'.state) := by
  induction becomes with
  | refl => exact .refl _
  | tail earlier timed ih =>
      exact ih.trans ((kept_of_turns orderly settled (turns.trans earlier)).later orderly timed)

/-- Once the context of a request is at its end, no time passes until the request has ended. -/
theorem still_of_over (orderly : ∀ w w', outside w w' → (clock.get w).Orderly (clock.get w'))
    (settled : (clock.get start).Settled) (turns : Turns clock outside ⟨start, []⟩ pool)
    {r : Ask W} {moves : List (Move W)} {q : Fiber W r.Result}
    (found : pool.tasks[k]? = some ⟨r, moves, q⟩) (under : r.under = some ctx)
    (expired : (ctx.interruption? (clock.get pool.state)).isSome)
    (becomes : Turns clock outside pool pool') :
    ∃ more q', pool'.tasks[k]? = some ⟨r, moves ++ more, q'⟩ ∧
      (∀ mv ∈ more, (clock.get mv.before).now = (clock.get pool.state).now) ∧
      (q'.Pending → (clock.get pool'.state).now = (clock.get pool.state).now) := by
  induction becomes with
  | refl =>
      exact ⟨[], q, by rw [List.append_nil]; exact found,
        fun mv member => (List.not_mem_nil member).elim, fun _ => rfl⟩
  | @tail pool₁ pool₂ earlier timed ih =>
      obtain ⟨more, q', found', times, still⟩ := ih
      have kept := kept_of_turns orderly settled (turns.trans earlier)
      have expired' := Context.over_of_onward
        (later_of_turns orderly settled turns earlier).toOnward expired
      have member := List.mem_of_getElem? found'
      -- While the request waits, a step by which time passed would find its context live.
      have waits (pending : q'.Pending) :
          (clock.get pool₂.state).now = (clock.get pool.state).now := by
        by_contra other
        have passed : (clock.get pool₂.state).now ≠ (clock.get pool₁.state).now :=
          fun same => other (same.trans (still pending))
        have live := (kept.passes orderly timed passed member under pending).1
        rw [live] at expired'
        cases expired'
      rcases timed.task found' with same | ⟨mv, q'', goes, before, _, same⟩
      · exact ⟨more, q', same, times, waits⟩
      · refine ⟨more ++ [mv], q'', by rw [same, List.append_assoc], ?_, fun _ => waits goes.pending⟩
        refine List.forall_mem_append.2 ⟨times, List.forall_mem_singleton.2 ?_⟩
        rw [before]
        exact still goes.pending

/-! ## Alone -/

/-- A task that can take a step takes it when it is its turn. -/
theorem turn_of_goes {r : Ask W} {moves : List (Move W)} {q q' : Fiber W r.Result} {w : W}
    (found : pool.tasks[k]? = some ⟨r, moves, q⟩) (goes : q.Goes ⟨pool.state, w⟩ q') :
    pool.turn k = ⟨w, pool.tasks.set k ⟨r, moves ++ [⟨pool.state, w⟩], q'⟩⟩ := by
  obtain ⟨taken⟩ := goes
  unfold Pool.turn
  simp only [found, taken]

theorem getElem?_turn {r : Ask W} {moves : List (Move W)} {q q' : Fiber W r.Result} {w : W}
    (found : pool.tasks[k]? = some ⟨r, moves, q⟩) (goes : q.Goes ⟨pool.state, w⟩ q') :
    (pool.turn k).state = w ∧
      (pool.turn k).tasks[k]? = some ⟨r, moves ++ [⟨pool.state, w⟩], q'⟩ := by
  rw [turn_of_goes found goes]
  exact ⟨rfl, List.getElem?_set_self (List.getElem?_eq_some_iff.1 found).1⟩

/-- Whoever waits for the end of a context need not wait any longer: it has been notified, or the
deadline has come. -/
def Woken (ctx : Context) (c : Clock) : Prop :=
  ctx.family ∈ c.notices ∨ ctx.Ended c .deadlineExceeded

theorem Woken.later {c c' : Clock} (woken : Woken ctx c) (later : c.Later c') : Woken ctx c' :=
  woken.imp later.mem_notices fun ended => ended.onward later.toOnward

/-- A request that has been woken ends if it is let. -/
theorem ends_alone (orderly : ∀ w w', outside w w' → (clock.get w).Orderly (clock.get w'))
    (settled : (clock.get start).Settled) (turns : Turns clock outside ⟨start, []⟩ pool)
    {r : Ask W} {moves : List (Move W)} {q : Fiber W r.Result}
    (found : pool.tasks[k]? = some ⟨r, moves, q⟩) (under : r.under = some ctx)
    (woken : Woken ctx (clock.get pool.state)) :
    ∃ n more result,
      ((Pool.turn k)^[n] pool).tasks[k]? = some ⟨r, moves ++ more, .done result⟩ := by
  induction q generalizing pool moves with
  | done result => exact ⟨0, [], result, by rw [List.append_nil]; exact found⟩
  | step act rest ih =>
      have kept := kept_of_turns orderly settled turns
      rcases Fiber.Pending.asleep_or_goes (p := .step act rest) trivial pool.state with
        asleep | ⟨w, q', goes⟩
      · obtain ⟨unnoticed, alarms⟩ :=
          (kept.stands _ (List.mem_of_getElem? found)).asleep under asleep
        rcases woken with noticed | ⟨time, deadline, passed⟩
        · exact absurd noticed unnoticed
        · exact absurd (alarms time deadline).1 (Nat.not_lt.2 passed)
      · obtain ⟨state, found'⟩ := getElem?_turn found goes
        obtain @⟨_, _, _, b, _, _, taken⟩ := goes
        have woken' : Woken ctx (clock.get (pool.turn k).state) :=
          woken.later (state ▸ (kept.acts found (.go taken)).1)
        obtain ⟨n, more, result, ended⟩ := ih b (Pool.becomes_turn turns k) found' woken'
        rw [List.append_assoc] at ended
        exact ⟨n + 1, _, result, ended⟩

/-- A call gives what it runs ends with, if that can end when the call is let go on. -/
theorem gives_alone {α : Type} {p p' : Fiber W α} {q : Fiber W Interruption} {a : α} {w : W}
    {moves : List (Move W)} (pending : q.Pending)
    (found : pool.tasks[k]? = some ⟨.run ctx p, moves, Fiber.race p' q⟩)
    (ends : p'.advance pool.state = (.done a, w)) :
    ∃ n more, ((Pool.turn k)^[n] pool).tasks[k]? =
      some ⟨.run ctx p, moves ++ more, .done (.ok a)⟩ := by
  induction p' generalizing pool moves with
  | done b =>
      cases ends
      exact ⟨0, [], by rw [List.append_nil]; exact found⟩
  | step act rest ih =>
      rw [Fiber.advance] at ends
      cases taken : act pool.state with
      | none =>
          rw [taken] at ends
          cases ends
      | some r =>
          rw [taken] at ends
          have goes := Fiber.race_goes pending (Fiber.Goes.go taken : (Fiber.step act rest).Goes _ _)
          obtain ⟨state, found'⟩ := getElem?_turn found goes
          obtain ⟨n, more, given⟩ := ih r.1 found' (state ▸ ends)
          rw [List.append_assoc] at given
          exact ⟨n + 1, _, given⟩

/-! ## All observers -/

/-- Those who ask a context, wait for its end or run something under it agree, at any time. -/
structure Observed (clock : Part W Clock) (outside : W → W → Prop) (pool : Traffic W) : Prop where
  /-- A check tells whether the context is at its end, and why, at the time of its only move. -/
  checked : ∀ ctx moves result, ⟨.check ctx, moves, .done result⟩ ∈ pool.tasks →
    ∃ w, moves = [⟨w, w⟩] ∧ result = ctx.interruption? (clock.get w)
  /-- Nothing is run under a context that is at its end, not even for one step. -/
  refused : ∀ {α : Type} ctx (p : Fiber W α) mv moves q reason,
    ⟨.run ctx p, mv :: moves, q⟩ ∈ pool.tasks →
    ctx.interruption? (clock.get mv.before) = some reason →
      moves = [] ∧ mv.after = mv.before ∧ q = .done (.error reason)
  /-- A call that has ended has gone as calls do. -/
  ended : ∀ {α : Type} ctx (p : Fiber W α) moves result,
    ⟨.run ctx p, moves, .done result⟩ ∈ pool.tasks → Context.Ends clock ctx p moves result
  /-- Whoever only waits for the end of a context is told a reason that it has then. -/
  told : ∀ ctx moves reason, ⟨.interrupted ctx, moves, .done reason⟩ ∈ pool.tasks →
    ∃ w, moves.getLast?.map Move.after = some w ∧ ctx.Ended (clock.get w) reason
  /-- Time passes for those who wait only while their contexts are live, and not beyond a
  deadline. -/
  passes : ∀ pool', Timed clock (answer clock) (Courteous clock) outside pool pool' →
    (clock.get pool'.state).now ≠ (clock.get pool.state).now →
    ∀ task ∈ pool.tasks, ∀ ctx, task.request.under = some ctx → task.fiber.Pending →
      ctx.interruption? (clock.get pool.state) = none ∧
        ∀ time, ctx.deadline = some time → (clock.get pool'.state).now ≤ time
  /-- From when on a context is at its end, no time passes until those who wait have ended. -/
  still : ∀ ctx (k : Nat) r moves q, pool.tasks[k]? = some ⟨r, moves, q⟩ → r.under = some ctx →
    (ctx.interruption? (clock.get pool.state)).isSome →
    ∀ pool', Turns clock outside pool pool' →
      ∃ more q', pool'.tasks[k]? = some ⟨r, moves ++ more, q'⟩ ∧
        (∀ mv ∈ more, (clock.get mv.before).now = (clock.get pool.state).now) ∧
        (q'.Pending → (clock.get pool'.state).now = (clock.get pool.state).now)
  /-- Those who have been notified, or whose deadline has come, end without anybody's help. -/
  ends : ∀ ctx (k : Nat) r moves q, pool.tasks[k]? = some ⟨r, moves, q⟩ → r.under = some ctx →
    Woken ctx (clock.get pool.state) →
      ∃ n more result, ((Pool.turn k)^[n] pool).tasks[k]? = some ⟨r, moves ++ more, .done result⟩
  /-- A call under a live context gives what it runs ends with, if that can end at once. -/
  begins : ∀ {α : Type} ctx (p : Fiber W α) (k : Nat) q a w,
    pool.tasks[k]? = some ⟨.run ctx p, [], q⟩ →
    ctx.interruption? (clock.get pool.state) = none → p.advance pool.state = (.done a, w) →
      ∃ n more, ((Pool.turn k)^[n] pool).tasks[k]? = some ⟨.run ctx p, more, .done (.ok a)⟩
  /-- So does a call that had to wait, if what is left of what it runs can end now. -/
  gives : ∀ {α : Type} ctx (p : Fiber W α) (k : Nat) moves q,
    pool.tasks[k]? = some ⟨.run ctx p, moves, q⟩ → (∃ w, q.Asleep w) →
      ∃ own p', p.Leads own p' ∧ Context.Mingles clock own moves.tail ∧
        ∀ a w, p'.advance pool.state = (.done a, w) →
          ∃ n more, ((Pool.turn k)^[n] pool).tasks[k]? =
            some ⟨.run ctx p, moves ++ more, .done (.ok a)⟩

/-- A call that has not begun gives what it runs ends with, if its context is live and that can
end at once. -/
theorem begins_alone {α : Type} {p : Fiber W α} {a : α} {w : W}
    (found : pool.tasks[k]? = some ⟨.run ctx p, [], ctx.run clock p⟩)
    (live : ctx.interruption? (clock.get pool.state) = none)
    (ends : p.advance pool.state = (.done a, w)) :
    ∃ n more, ((Pool.turn k)^[n] pool).tasks[k]? = some ⟨.run ctx p, more, .done (.ok a)⟩ := by
  have goes : (ctx.run clock p).Goes ⟨pool.state, pool.state⟩ _ := Fiber.atomic_goes pool.state
  simp only [live] at goes
  obtain ⟨state, found'⟩ := getElem?_turn found goes
  obtain ⟨n, more, given⟩ := gives_alone (Context.pending_interrupted clock ctx) found'
    (state ▸ ends)
  exact ⟨n + 1, _, given⟩

theorem observed_of_turns
    (orderly : ∀ w w', outside w w' → (clock.get w).Orderly (clock.get w'))
    (settled : (clock.get start).Settled) (turns : Turns clock outside ⟨start, []⟩ pool) :
    Observed clock outside pool := by
  have kept := kept_of_turns orderly settled turns
  constructor
  case checked =>
    intro ctx moves result member
    rcases kept.stands _ member with ⟨_, same⟩ | ⟨w, rfl, same⟩
    · cases same
    · cases same
      exact ⟨w, rfl, rfl⟩
  case refused =>
    intro α ctx p mv moves q reason member expired
    have calls : Context.Calls clock ctx p _ (mv :: moves) q := kept.stands _ member
    cases calls with
    | first live => cases live.symm.trans expired
    | second live => cases live.symm.trans expired
    | ended ends =>
        cases ends with
        | refused expired' =>
            cases expired'.symm.trans expired
            exact ⟨rfl, rfl, rfl⟩
        | output live => cases live.symm.trans expired
        | interrupted live => cases live.symm.trans expired
  case ended =>
    intro α ctx p moves result member
    have calls : Context.Calls clock ctx p _ moves (.done result) := kept.stands _ member
    exact calls.of_done
  case told =>
    intro ctx moves reason member
    have waits : Waits clock ctx _ moves (.done reason) := kept.stands _ member
    cases waits with
    | waiting pending _ => exact pending.elim
    | told last ended => exact ⟨_, last, ended⟩
  case passes =>
    exact fun pool' timed passed task member ctx under pending =>
      kept.passes orderly timed passed member under pending
  case still =>
    exact fun ctx k r moves q found under expired pool' becomes =>
      still_of_over orderly settled turns found under expired becomes
  case ends =>
    exact fun ctx k r moves q found under woken =>
      ends_alone orderly settled turns found under woken
  case begins =>
    intro α ctx p k q a w found live ends
    have calls : Context.Calls clock ctx p _ [] q := kept.stands _ (List.mem_of_getElem? found)
    have same : q = ctx.run clock p := by
      cases calls with
      | begun => rfl
      | ended ends => cases ends
    subst same
    exact begins_alone found live ends
  case gives =>
    rintro α ctx p k moves q found ⟨w, asleep⟩
    have calls : Context.Calls clock ctx p _ moves q := kept.stands _ (List.mem_of_getElem? found)
    obtain ⟨own, p', q', rfl, led, mingles, _, _, waits⟩ := calls.asleep asleep
    exact ⟨own, p', led, mingles, fun a w ends => gives_alone waits.pending found ends⟩

end Ask

namespace Context

/-- A context is canceled if one of its family is, whenever either was made.  Otherwise it is at its
end from the smallest deadline on that was set on the way to it; a deadline of another context
changes nothing.  Once it is at its end it stays there, and all who observe it agree. -/
theorem contexts_obey_one_clock :
    (∀ deeds, Valid deeds → ∀ (k : Nat) ctx, (scene deeds).contexts[k]? = some ctx →
      ∀ r, ctx.interruption? (scene deeds).clock = r ↔ Verdict deeds k r) ∧
    (∀ deeds d (i k : Nat), ((∃ time, d = .deadline i time) ∨ ∃ span, d = .timeout i span) →
      k ≠ i → (scene (d :: deeds)).contexts[k]? = (scene deeds).contexts[k]? ∧
        (scene (d :: deeds)).clock = (scene deeds).clock) ∧
    (∀ later deeds, Valid (later ++ deeds) → ∀ (k : Nat) ctx ctx',
      (scene deeds).contexts[k]? = some ctx →
      (scene (later ++ deeds)).contexts[k]? = some ctx' →
      (ctx.interruption? (scene deeds).clock).isSome →
        (ctx'.interruption? (scene (later ++ deeds)).clock).isSome) ∧
    (∀ deeds, (scene deeds).clock.Settled) ∧
    ∀ {W : Type} (clock : Part W Clock) outside start (pool : Ask.Traffic W),
      (∀ w w', outside w w' → (clock.get w).Orderly (clock.get w')) →
      (clock.get start).Settled → Ask.Turns clock outside ⟨start, []⟩ pool →
        Ask.Observed clock outside pool :=
  ⟨fun _ valid _ _ found r => verdict_of_valid valid found r,
    fun _ _ _ _ sets other => others_of_set sets other,
    fun _ _ valid _ _ _ found found' ended => over_of_later valid found found' ended,
    settled_scene,
    fun _ _ _ _ orderly settled turns => Ask.observed_of_turns orderly settled turns⟩

/-! ## A night -/

namespace Night

/-- A context, a clone of it that gets a deadline, and a context of another family. -/
def deeds : List Deed :=
  [.make, .timeout 1 5, .clone 0, .make]

/-- Something that never ends is run under the clone. -/
def dozing : Ask Clock :=
  .run ⟨0, some 5⟩ (Fiber.stuck : Fiber Clock Unit)

/-- Something that ends at three is run under the context itself. -/
def napping : Ask Clock :=
  .run ⟨0, none⟩ (sleep alone 3)

/-- Something that never ends is run under the context of the other family. -/
def idling : Ask Clock :=
  .run ⟨1, none⟩ (Fiber.stuck : Fiber Clock Unit)

def canceling : Ask Clock :=
  .cancel ⟨1, none⟩

def late : Ask Clock :=
  .run ⟨1, none⟩ (pure () : Fiber Clock Unit)

/-- The other family is canceled after `idling` has registered and before it reads the flag. -/
def evening : List (Cue (Ask Clock)) :=
  .start dozing :: .start napping :: .start idling :: .start canceling :: .start late ::
    (List.replicate 5 (.turn 0) ++ List.replicate 5 (.turn 1) ++
      [.turn 2, .turn 2, .turn 3, .turn 2, .turn 3, .turn 4])

def night : Ask.Traffic Clock :=
  Pool.play (Ask.answer alone) evening ⟨(scene deeds).clock, []⟩

/-- It has become three. -/
def dawn : Ask.Traffic Clock :=
  Pool.play (Ask.answer alone) [.turn 1] ⟨night.state.advanceTo 3, night.tasks⟩

/-- It has become five. -/
def noon : Ask.Traffic Clock :=
  Pool.play (Ask.answer alone) [.turn 0] ⟨dawn.state.advanceTo 5, dawn.tasks⟩

theorem turns_noon :
    Ask.Turns alone (fun _ _ => False) ⟨(scene deeds).clock, []⟩ noon := by
  have stuck : (Fiber.stuck : Fiber Clock Unit).Courteous alone none := by
    intro w b w' taken
    cases taken
  have asked (r : Ask Clock) (started : Cue.start r ∈ evening) : r.Courteous alone := by
    simp only [evening, List.mem_cons, List.mem_append, List.mem_replicate, Cue.start.injEq,
      reduceCtorEq, and_false, or_false, List.not_mem_nil] at started
    rcases started with rfl | rfl | rfl | rfl | rfl
    · exact stuck
    · exact Fiber.courteous_of_keeps
        (Fiber.keeps_mono (fun _ _ bides => bides.orderly) (keeps_sleep alone 3))
    · exact stuck
    · trivial
    · rfl
  have asksNothing (cue : Nat) (r : Ask Clock) (started : Cue.start r ∈ [Cue.turn cue]) :
      r.Courteous alone := by
    cases List.mem_singleton.1 started
  have first : Ask.Turns alone (fun _ _ => False) ⟨(scene deeds).clock, []⟩ night :=
    Pool.becomes_play asked .refl
  have second : Ask.Turns alone (fun _ _ => False) ⟨(scene deeds).clock, []⟩ dawn :=
    Pool.becomes_play (asksNothing 1) (first.tail (.pass 3 (by decide +kernel) (by decide +kernel)))
  exact Pool.becomes_play (asksNothing 0)
    (second.tail (.pass 5 (by decide +kernel) (by decide +kernel)))

end Night

/-- A clone with a deadline is at its end once the deadline has come, the context itself is not,
and both are when the context is canceled.  What never ends is given up under the clone at five,
and what ends at three is awaited.  Whoever has registered but not read the flag when its family
is canceled is not left behind, and nothing is run under that family any more. -/
theorem clone_with_deadline :
    (Valid (.cancel 0 :: .pass 7 :: Night.deeds) ∧
      (scene Night.deeds).contexts = [⟨0, none⟩, ⟨0, some 5⟩, ⟨1, none⟩]) ∧
    Verdict (.pass 7 :: Night.deeds) 1 (some .deadlineExceeded) ∧
    Verdict (.pass 7 :: Night.deeds) 0 none ∧
    Verdict (.cancel 0 :: .pass 7 :: Night.deeds) 1 (some .canceled) ∧
    (∃ moves, ⟨Night.dozing, moves, .done (.error .deadlineExceeded)⟩ ∈ Night.noon.tasks ∧
      Ends alone ⟨0, some 5⟩ Fiber.stuck moves (.error .deadlineExceeded : Except _ Unit)) ∧
    (∃ moves, ⟨Night.napping, moves, .done (.ok ())⟩ ∈ Night.noon.tasks ∧
      Ends alone ⟨0, none⟩ (sleep alone 3) moves (.ok ())) ∧
    (∃ moves, ⟨Night.idling, moves, .done (.error .canceled)⟩ ∈ Night.noon.tasks ∧
      Ends alone ⟨1, none⟩ Fiber.stuck moves (.error .canceled : Except _ Unit)) ∧
    ∃ w, ⟨Night.late, [⟨w, w⟩], .done (.error .canceled)⟩ ∈ Night.noon.tasks := by
  obtain ⟨found, _, _, settled, observed⟩ := contexts_obey_one_clock
  have valid : Valid (.cancel 0 :: .pass 7 :: Night.deeds) := by
    simp [Valid, Deed.subject?, made, Night.deeds]
  have seen : Ask.Observed alone (fun _ _ => False) Night.noon :=
    observed alone _ _ Night.noon (fun _ _ => False.elim) (settled Night.deeds) Night.turns_noon
  have dozed : ∃ moves, Night.noon.tasks[0]? =
      some ⟨Night.dozing, moves, .done (.error .deadlineExceeded)⟩ := ⟨_, rfl⟩
  have napped : ∃ moves, Night.noon.tasks[1]? =
      some ⟨Night.napping, moves, .done (.ok ())⟩ := ⟨_, rfl⟩
  have idled : ∃ moves, Night.noon.tasks[2]? =
      some ⟨Night.idling, moves, .done (.error .canceled)⟩ := ⟨_, rfl⟩
  have refused : ∃ w, Night.noon.tasks[4]? =
      some ⟨Night.late, [⟨w, w⟩], .done (.error .canceled)⟩ := ⟨_, rfl⟩
  refine ⟨⟨valid, rfl⟩, (found _ valid.2 1 _ rfl _).1 rfl, (found _ valid.2 0 _ rfl _).1 rfl,
    (found _ valid 1 _ rfl _).1 rfl, ?_, ?_, ?_, ?_⟩
  · obtain ⟨moves, here⟩ := dozed
    have member := List.mem_of_getElem? here
    exact ⟨moves, member, seen.ended _ _ moves _ member⟩
  · obtain ⟨moves, here⟩ := napped
    have member := List.mem_of_getElem? here
    exact ⟨moves, member, seen.ended _ _ moves _ member⟩
  · obtain ⟨moves, here⟩ := idled
    have member := List.mem_of_getElem? here
    exact ⟨moves, member, seen.ended _ _ moves _ member⟩
  · obtain ⟨w, here⟩ := refused
    exact ⟨w, List.mem_of_getElem? here⟩

end Context

end EventSourcing
