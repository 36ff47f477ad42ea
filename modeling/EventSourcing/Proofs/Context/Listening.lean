import EventSourcing.Proofs.Context.Clock
import EventSourcing.Proofs.Context.Running

/-!
# Proofs.Context.Listening -- nobody sleeps through a notice

Whoever listens for the end of a context registers for the next notice before it reads the
flag.  A flag may be raised at any moment in between, and those who wait are notified some
time later.  What is known of a listener at each point of its way (`Context.Listening`) is
kept whatever happens to the clock meanwhile, and by its own steps.  Main statements: whoever
still waits has not been notified (`Context.Watching.asleep`), and whoever has ended was told
the truth (`Context.Watching.ended`).
-/

namespace EventSourcing

set_option autoImplicit false

namespace Context

variable {W : Type} {clock : Part W Clock} {ctx : Context} {c c' : Clock} {mv : Move W} {w : W}
  {time : Nat}

/-! ## Listening -/

/-- What is left of a round of listening that has registered when there had been `registered`
notices. -/
def heed (clock : Part W Clock) (ctx : Context) (registered rounds : Nat) : Fiber W Unit := do
  if ← Fiber.atomic fun w => ((clock.get w).canceled.contains ctx.family, w) then return
  else
    Fiber.await fun w =>
      if (clock.get w).noticesOf ctx.family ≠ registered then some ((), w) else none
    ctx.listen clock rounds

/-- How far a listener has come, and what is known of the clock then.  A listener sleeps only if
the flag was down after it had registered; therefore there had been no notice when it did. -/
inductive Listening (clock : Part W Clock) (ctx : Context) (c : Clock) : Fiber W Unit → Prop where
  | begun : Listening clock ctx c (ctx.listen clock 2)
  | registered {k : Nat} (known : k ≤ c.noticesOf ctx.family) :
      Listening clock ctx c (heed clock ctx k 1)
  | sleeping : Listening clock ctx c (do
      Fiber.await fun w => if (clock.get w).noticesOf ctx.family ≠ 0 then some ((), w) else none
      ctx.listen clock 1)
  | woken (up : ctx.family ∈ c.canceled) : Listening clock ctx c (ctx.listen clock 1)
  | again {k : Nat} (up : ctx.family ∈ c.canceled) : Listening clock ctx c (heed clock ctx k 0)
  | ended (up : ctx.family ∈ c.canceled) : Listening clock ctx c (.done ())

variable {l l' : Fiber W Unit}

/-- Whatever happens to the clock, a listener has not missed it. -/
theorem Listening.later (listening : Listening clock ctx c l) (later : c.Later c') :
    Listening clock ctx c' l := by
  cases listening with
  | begun => exact .begun
  | registered known => exact .registered (Nat.le_trans known (later.notices _))
  | sleeping => exact .sleeping
  | woken up => exact .woken (later.canceled up)
  | again up => exact .again (later.canceled up)
  | ended up => exact .ended (later.canceled up)

/-- The step of a listener that reads the flag. -/
theorem heed_goes {k rounds : Nat} (goes : (heed clock ctx k rounds).Goes mv l') :
    mv.after = mv.before ∧
      (ctx.family ∈ (clock.get mv.before).canceled ∧ l' = .done () ∨
        ctx.family ∉ (clock.get mv.before).canceled ∧ l' = (do
          Fiber.await fun w =>
            if (clock.get w).noticesOf ctx.family ≠ k then some ((), w) else none
          ctx.listen clock rounds)) := by
  obtain ⟨same, rfl⟩ := Fiber.goes_atomic goes
  refine ⟨same, ?_⟩
  by_cases up : ctx.family ∈ (clock.get mv.before).canceled
  · exact .inl ⟨up, by simp only [List.contains_iff_mem, up, if_true]; rfl⟩
  · exact .inr ⟨up, by simp only [List.contains_iff_mem, up, if_false]⟩

theorem Listening.goes (listening : Listening clock ctx (clock.get mv.before) l)
    (sound : (clock.get mv.before).Sound) (goes : l.Goes mv l') :
    mv.after = mv.before ∧ Listening clock ctx (clock.get mv.before) l' := by
  cases listening with
  | begun =>
      obtain ⟨same, rfl⟩ := Fiber.goes_atomic goes
      exact ⟨same, .registered (Nat.le_refl _)⟩
  | registered known =>
      obtain ⟨same, ⟨up, rfl⟩ | ⟨down, rfl⟩⟩ := heed_goes goes
      · exact ⟨same, .ended up⟩
      · -- The flag is down, so that nobody has been notified of it yet.
        have unnoticed : (clock.get mv.before).noticesOf ctx.family = 0 :=
          Clock.noticesOf_eq_zero.2 fun noticed => down (sound noticed)
        obtain rfl := Nat.le_zero.1 (unnoticed ▸ known)
        exact ⟨same, .sleeping⟩
  | sleeping =>
      obtain @⟨_, _, _, _, w, w', taken⟩ := goes
      simp only at taken
      split at taken
      · rename_i noticed
        cases taken
        have member := Clock.noticesOf_pos.1 (Nat.pos_of_ne_zero noticed)
        exact ⟨rfl, .woken (sound member)⟩
      · cases taken
  | woken up =>
      obtain ⟨same, rfl⟩ := Fiber.goes_atomic goes
      exact ⟨same, .again up⟩
  | again up =>
      obtain ⟨same, ⟨_, rfl⟩ | ⟨down, _⟩⟩ := heed_goes goes
      · exact ⟨same, .ended up⟩
      · exact absurd up down
  | ended up => cases goes

/-- A listener that has to wait has not been notified. -/
theorem Listening.asleep (listening : Listening clock ctx c l) (asleep : l.Asleep w) :
    ctx.family ∉ (clock.get w).notices := by
  cases listening with
  | begun => cases asleep
  | registered known => cases asleep
  | sleeping =>
      have waits : (if (clock.get w).noticesOf ctx.family ≠ 0 then some ((), w) else none) = none :=
        asleep
      split at waits
      · cases waits
      · rename_i zero
        exact Clock.noticesOf_eq_zero.1 (not_not.1 zero)
  | woken up => cases asleep
  | again up => cases asleep
  | ended up => cases asleep

/-! ## Sleeping -/

/-- How far someone has come who sleeps until some time. -/
inductive Sleeping (clock : Part W Clock) (time : Nat) (c : Clock) : Fiber W Unit → Prop where
  | begun : Sleeping clock time c (sleep clock time)
  | sleeping (alarm : time ∈ c.alarms) : Sleeping clock time c
      (Fiber.await fun w => if time ≤ (clock.get w).now then some ((), w) else none)
  | ended (passed : time ≤ c.now) : Sleeping clock time c (.done ())

theorem Sleeping.later (sleeping : Sleeping clock time c l) (later : c.Later c') :
    Sleeping clock time c' l := by
  cases sleeping with
  | begun => exact .begun
  | sleeping alarm => exact .sleeping (later.alarms alarm)
  | ended passed => exact .ended (Nat.le_trans passed later.now)

theorem Sleeping.goes (sleeping : Sleeping clock time (clock.get mv.before) l)
    (goes : l.Goes mv l') :
    Bides clock mv.before mv.after ∧ Sleeping clock time (clock.get mv.after) l' := by
  cases sleeping with
  | begun =>
      obtain ⟨set, rfl⟩ := Fiber.goes_atomic goes
      refine ⟨.inr ⟨time, set⟩, .sleeping ?_⟩
      rw [set, Part.get_modify]
      exact List.mem_cons_self
  | sleeping alarm =>
      obtain @⟨_, _, _, _, w, w', taken⟩ := goes
      simp only at taken
      split at taken
      · rename_i passed
        cases taken
        exact ⟨.inl rfl, .ended passed⟩
      · cases taken
  | ended passed => cases goes

/-- Someone who has to wait for some time has set the alarm for it. -/
theorem Sleeping.asleep (sleeping : Sleeping clock time c l) (asleep : l.Asleep w) :
    (clock.get w).now < time ∧ time ∈ c.alarms := by
  cases sleeping with
  | begun => cases asleep
  | sleeping alarm =>
      have waits : (if time ≤ (clock.get w).now then some ((), w) else none) = none := asleep
      split at waits
      · cases waits
      · exact ⟨Nat.lt_of_not_le ‹_›, alarm⟩
  | ended passed => cases asleep

/-! ## Waiting for the end of a context -/

def telling (l : Fiber W Unit) (reason : Interruption) : Fiber W Interruption := do
  l
  return reason

/-- How far someone has come who waits for the end of a context. -/
inductive Watching (clock : Part W Clock) (ctx : Context) (c : Clock) :
    Fiber W Interruption → Prop where
  | listening {l : Fiber W Unit} (endless : ctx.deadline = none)
      (listening : Listening clock ctx c l) : Watching clock ctx c (telling l .canceled)
  | both {time : Nat} {l s : Fiber W Unit} (deadline : ctx.deadline = some time)
      (listening : Listening clock ctx c l) (sleeping : Sleeping clock time c s) :
      Watching clock ctx c (Fiber.either (fun w => (clock.get w).coin) (telling l .canceled)
        (telling s .deadlineExceeded))

variable {q q' : Fiber W Interruption}

theorem watching_interrupted (clock : Part W Clock) (ctx : Context) (c : Clock) :
    Watching clock ctx c (ctx.interrupted clock) := by
  unfold interrupted
  cases deadline : ctx.deadline with
  | none => exact .listening deadline .begun
  | some time => exact .both deadline .begun .begun

theorem Watching.later (watching : Watching clock ctx c q) (later : c.Later c') :
    Watching clock ctx c' q := by
  cases watching with
  | listening endless listening => exact .listening endless (listening.later later)
  | both deadline listening sleeping =>
      exact .both deadline (listening.later later) (sleeping.later later)

theorem telling_eq_done {reason reason' : Interruption} (ended : telling l reason = .done reason') :
    l = .done () ∧ reason' = reason := by
  cases l with
  | done _ =>
      cases ended
      exact ⟨rfl, rfl⟩
  | step act rest => cases ended

theorem Listening.up (listening : Listening clock ctx c (.done ())) : ctx.family ∈ c.canceled := by
  cases listening with
  | ended up => exact up

/-- Whoever has ended was told a reason for which the context is at its end. -/
theorem Watching.ended {reason : Interruption} (watching : Watching clock ctx c (.done reason)) :
    ctx.Ended c reason := by
  generalize same : Fiber.done reason = q at watching
  cases watching with
  | listening endless listening =>
      obtain ⟨rfl, rfl⟩ := telling_eq_done same.symm
      exact listening.up
  | @both time l s deadline listening sleeping =>
      rcases Fiber.either_eq_done same.symm with told | told
      · obtain ⟨rfl, rfl⟩ := telling_eq_done told
        exact listening.up
      · obtain ⟨rfl, rfl⟩ := telling_eq_done told
        cases sleeping with
        | ended passed => exact ⟨time, deadline, passed⟩

/-- A step of a fiber that gives a reason in the end. -/
theorem telling_goes {reason : Interruption} (goes : (telling l reason).Goes mv q') :
    ∃ l', l.Goes mv l' ∧ q' = telling l' reason := by
  cases l with
  | done _ => cases goes
  | step act rest => exact Fiber.goes_bind (p := .step act rest) trivial goes

theorem Watching.goes (watching : Watching clock ctx (clock.get mv.before) q)
    (sound : (clock.get mv.before).Sound) (goes : q.Goes mv q') :
    Bides clock mv.before mv.after ∧ Watching clock ctx (clock.get mv.after) q' := by
  cases watching with
  | listening endless listening =>
      obtain ⟨l', own, rfl⟩ := telling_goes goes
      obtain ⟨same, on⟩ := listening.goes sound own
      exact ⟨.inl same, .listening endless (same ▸ on)⟩
  | both deadline listening sleeping =>
      rcases Fiber.goes_either goes with ⟨p', told, rfl⟩ | ⟨p', told, rfl⟩
      · obtain ⟨l', own, rfl⟩ := telling_goes told
        obtain ⟨same, on⟩ := listening.goes sound own
        exact ⟨.inl same, .both deadline (same ▸ on) (same ▸ sleeping)⟩
      · obtain ⟨s', own, rfl⟩ := telling_goes told
        obtain ⟨bides, on⟩ := sleeping.goes own
        exact ⟨bides, .both deadline (listening.later bides.later) on⟩

theorem telling_asleep {reason : Interruption} (asleep : (telling l reason).Asleep w) :
    l.Asleep w := by
  cases l with
  | done _ => cases asleep
  | step act rest => exact asleep

/-- Whoever has to wait for the end of a context has not been notified of it, and has set the
alarm for a deadline that is still to come. -/
theorem Watching.asleep (watching : Watching clock ctx c q) (asleep : q.Asleep w) :
    ctx.family ∉ (clock.get w).notices ∧ ∀ time, ctx.deadline = some time →
      (clock.get w).now < time ∧ time ∈ c.alarms := by
  cases watching with
  | listening endless listening =>
      refine ⟨listening.asleep (telling_asleep asleep), fun time deadline => ?_⟩
      cases endless.symm.trans deadline
  | both deadline listening sleeping =>
      obtain ⟨listens, sleeps⟩ := Fiber.asleep_either asleep
      refine ⟨listening.asleep (telling_asleep listens), fun time' deadline' => ?_⟩
      cases deadline.symm.trans deadline'
      exact sleeping.asleep (telling_asleep sleeps)

end Context

end EventSourcing
