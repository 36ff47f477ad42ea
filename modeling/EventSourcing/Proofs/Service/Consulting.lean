import EventSourcing.Proofs.Service.Uptake
import EventSourcing.Service.Call

/-!
# Proofs.Service.Consulting -- methods that are run on what is committed

A method that only reads and a method that appends are run in the same way: the call waits until
it may read, runs the method once, and ends the reading (`consults_of_leads`).  What a method that
appends has given is then looked at in a fixed order, and only the last step touches the log
(`delivers_of_leads`).  Nothing is assumed of what others do meanwhile.
-/

namespace EventSourcing.Service

set_option autoImplicit false

open EventSourcing.Text (Glyph)

variable {W P E ε L O : Type}

/-- Moves that change the clock at most. -/
def Waits (clock : Part W Clock) (moves : List (Move W)) : Prop :=
  ∀ mv ∈ moves, ∃ c, mv.after = clock.set c mv.before

/-- What a method gives when it is run in a state. -/
def given (s : Service W P E ε) (ctx : Context) (logic : Logic W P E L O) (w : W) :
    Except L (O × List E) :=
  (logic ctx (s.store.projection w) w).1

/-- The move by which a method is run on the projection that is there. -/
def Ran (s : Service W P E ε) (ctx : Context) (logic : Logic W P E L O) (run : Move W) : Prop :=
  run.after = (logic ctx (s.store.projection run.before) run.before).2

/-- What a caller is told of what a method has given. -/
def told {α : Type} : Except L α → Except (CallFailure L ε) α
  | .error e => .error (.refused (.logic e))
  | .ok a => .ok a

theorem told_eq_ok {α : Type} {r : Except L α} {a : α}
    (same : (told r : Except (CallFailure L ε) α) = .ok a) : r = .ok a := by
  cases r <;> cases same
  rfl

theorem told_eq_error {α : Type} {r : Except L α} {failure : CallFailure L ε}
    (same : told r = .error failure) : ∃ e, r = .error e ∧ failure = .refused (.logic e) := by
  cases r <;> cases same
  exact ⟨_, rfl, rfl⟩

/-- How far a call has come that runs a method on what is committed, and what is left of it. -/
inductive Consults (s : Service W P E ε) (ctx : Context) (logic : Logic W P E L O) :
    List (Move W) → Fiber W (Except (CallFailure L ε) (O × List E)) → Prop where
  | waits {before : List (Move W)} {q : Fiber W (Except (CallFailure L ε) (O × List E))}
      (waits : Waits s.clock before) (pending : q.Pending) : Consults s ctx logic before q
  | interrupted {before : List (Move W)} {reason : Interruption} (waits : Waits s.clock before) :
      Consults s ctx logic before (.done (.error (.refused (.interrupted reason))))
  | failed {before : List (Move W)} {begins : Move W} {e : ε} (waits : Waits s.clock before)
      (failed : s.store.read begins.before = some (.error e, begins.after)) :
      Consults s ctx logic (before ++ [begins]) (.done (.error (.refused (.store e))))
  | begun {before : List (Move W)} {begins : Move W}
      {q : Fiber W (Except (CallFailure L ε) (O × List E))} (waits : Waits s.clock before)
      (began : s.store.read begins.before = some (.ok (), begins.after)) (pending : q.Pending) :
      Consults s ctx logic (before ++ [begins]) q
  | run {before : List (Move W)} {begins run : Move W}
      {q : Fiber W (Except (CallFailure L ε) (O × List E))} (waits : Waits s.clock before)
      (began : s.store.read begins.before = some (.ok (), begins.after))
      (ran : s.Ran ctx logic run) (pending : q.Pending) :
      Consults s ctx logic (before ++ [begins, run]) q
  | ended {before : List (Move W)} {begins run ends : Move W} (waits : Waits s.clock before)
      (began : s.store.read begins.before = some (.ok (), begins.after))
      (ran : s.Ran ctx logic run) (completed : ends.after = s.store.complete ends.before) :
      Consults s ctx logic (before ++ [begins, run, ends])
        (.done (told (s.given ctx logic run.before)))

/-- How a call that appends goes on once its method has given events: it looks at what the method
may emit, at its context, and at how the events are written, in this order, and then appends
them. -/
inductive Delivers (s : Service W P E ε) (log : Part W Log.Memory) (ctx : Context)
    (m : Contract.Method) (output : O) :
    List E → List (Move W) → Fiber W (Except (CallFailure L ε) (Emitted O E)) → Prop where
  | undeclared {events : List E} {u : Contract.Undeclared}
      (found : m.undeclared? s.set s.contract.name events = some u) :
      Delivers s log ctx m output events [] (.done (.error (.aborted u)))
  | declared {events : List E} {q : Fiber W (Except (CallFailure L ε) (Emitted O E))}
      (declared : m.undeclared? s.set s.contract.name events = none) (pending : q.Pending) :
      Delivers s log ctx m output events [] q
  | interrupted {events : List E} {w : W} {reason : Interruption}
      (declared : m.undeclared? s.set s.contract.name events = none)
      (found : ctx.interruption? (s.clock.get w) = some reason) :
      Delivers s log ctx m output events [⟨w, w⟩]
        (.done (.error (.refused (.interrupted reason))))
  | nothing {w : W} (live : ctx.interruption? (s.clock.get w) = none) :
      Delivers s log ctx m output [] [⟨w, w⟩] (.done (.ok ⟨output, [], none⟩))
  | unwritten {events : List E} {w : W} {e : EncodeError}
      (declared : m.undeclared? s.set s.contract.name events = none)
      (live : ctx.interruption? (s.clock.get w) = none) (nonempty : events ≠ [])
      (failed : s.set.encode events = .error e) :
      Delivers s log ctx m output events [⟨w, w⟩] (.done (.error (.refused (.encode e))))
  | unsplit {events : List E} {w : W} {text : String} {e : Log.Error}
      (declared : m.undeclared? s.set s.contract.name events = none)
      (live : ctx.interruption? (s.clock.get w) = none) (nonempty : events ≠ [])
      (written : s.set.encode events = .ok text)
      (failed : Log.split (Glyph.ofString text) = .error e) :
      Delivers s log ctx m output events [⟨w, w⟩] (.done (.error (.refused (.log e))))
  | written {events : List E} {w : W} {q : Fiber W (Except (CallFailure L ε) (Emitted O E))}
      (declared : m.undeclared? s.set s.contract.name events = none)
      (live : ctx.interruption? (s.clock.get w) = none) (pending : q.Pending) :
      Delivers s log ctx m output events [⟨w, w⟩] q
  | appended {events : List E} {w w₁ : W} {text : String} {texts : List String}
      (declared : m.undeclared? s.set s.contract.name events = none)
      (live : ctx.interruption? (s.clock.get w) = none) (nonempty : events ≠ [])
      (written : s.set.encode events = .ok text)
      (split : Log.split (Glyph.ofString text) = .ok texts) :
      Delivers s log ctx m output events
        [⟨w, w⟩, ⟨w₁, log.set ((log.get w₁).push (s.clock.get w₁).now texts).2 w₁⟩]
        (.done (.ok ⟨output, events,
          some ((log.get w₁).push (s.clock.get w₁).now texts).1⟩))

variable {s : Service W P E ε} {log : Part W Log.Memory} {ctx : Context}
  {logic : Logic W P E L O} {m : Contract.Method} {moves : List (Move W)}

/-- Every call that runs a method on what is committed goes like this. -/
theorem consults_of_leads {q : Fiber W (Except (CallFailure L ε) (O × List E))}
    (leads : (s.runReadonly ctx logic).Leads moves q) : s.Consults ctx logic moves q := by
  rw [runReadonly] at leads
  rcases leads.split with ⟨p, pending, within, rfl⟩ | ⟨began, before, after, led, on, rfl⟩
  · rcases Context.outcome_of_run within with ⟨waits, _⟩ | ⟨_, _, r, _, _, _, rfl⟩
    · exact .waits waits (pending.bind _)
    · exact pending.elim
  rcases Context.outcome_of_run led with ⟨waits, pending | ⟨reason, same⟩⟩ |
    ⟨before, begins, r, rfl, waits, taken, same⟩
  · exact pending.elim
  · cases same
    obtain ⟨rfl, rfl⟩ := on.of_done
    rw [List.append_nil]
    exact .interrupted waits
  cases same
  rcases r with e | ⟨⟩
  · obtain ⟨rfl, rfl⟩ := on.of_done
    rw [List.append_nil]
    exact .failed waits taken
  rcases on.of_atomic with ⟨rfl, pending⟩ | ⟨w, after, rfl, ended⟩
  · rw [List.append_nil]
    exact .begun waits taken pending
  have ran : s.Ran ctx logic ⟨w, (logic ctx (s.store.projection w) w).2⟩ := rfl
  rcases ended.of_atomic with ⟨rfl, pending⟩ | ⟨w₁, after, rfl, done⟩
  · rw [List.append_assoc]
    exact .run waits taken ran pending
  have completes : (⟨w₁, s.store.complete w₁⟩ : Move W).after = s.store.complete w₁ := rfl
  have told : after = [] ∧ q = .done (told (s.given ctx logic w)) := by
    rw [given]
    rcases gave : (logic ctx (s.store.projection w) w).1 with e | r <;> rw [gave] at done <;>
      exact done.of_done
  obtain ⟨rfl, rfl⟩ := told
  rw [List.append_assoc]
  exact .ended waits taken ran completes

/-- What a call that appends does once its method has given events. -/
def deliver (s : Service W P E ε) (ctx : Context) (m : Contract.Method) (output : O)
    (events : List E) : Fiber W (Except (CallFailure L ε) (Emitted O E)) :=
  match m.undeclared? s.set s.contract.name events with
  | some u => pure (.error (.aborted u))
  | none => do
      match ← ctx.check s.clock with
      | some reason => return .error (.refused (.interrupted reason))
      | none =>
          if events.isEmpty then return .ok ⟨output, [], none⟩
          else
            match s.set.encode events with
            | .error e => return .error (.refused (.encode e))
            | .ok text =>
                match ← s.log.append ctx (Glyph.ofString text) with
                | .error e => return .error (.refused (.log e))
                | .ok appended => return .ok ⟨output, events, some appended⟩

theorem runAppend_eq_deliver :
    s.runAppend ctx m logic = s.runReadonly ctx logic >>= fun result =>
      match result with
      | .error e => pure (.error e)
      | .ok (output, events) => s.deliver ctx m output events :=
  rfl

/-- A batch is put at the end of a log in memory in one move, if it can be split. -/
theorem delivers_of_append {output : O} {events : List E} {w : W} {text : String}
    {q : Fiber W (Except (CallFailure L ε) (Emitted O E))}
    (declared : m.undeclared? s.set s.contract.name events = none)
    (live : ctx.interruption? (s.clock.get w) = none) (nonempty : events ≠ [])
    (written : s.set.encode events = .ok text)
    (leads : (Log.Memory.append s.clock log (Glyph.ofString text) >>= fun result =>
      match result with
      | .error e => pure (.error (.refused (.log e)))
      | .ok appended => pure (.ok ⟨output, events, some appended⟩)).Leads moves q) :
    s.Delivers log ctx m output events (⟨w, w⟩ :: moves) q := by
  unfold Log.Memory.append at leads
  cases split : Log.split (Glyph.ofString text) with
  | error e =>
      rw [split] at leads
      obtain ⟨rfl, rfl⟩ := leads.of_done
      exact .unsplit declared live nonempty written split
  | ok texts =>
      rw [split] at leads
      rcases leads.of_atomic with ⟨rfl, pending⟩ | ⟨w₁, later, rfl, done⟩
      · exact .written declared live pending
      · obtain ⟨rfl, rfl⟩ := done.of_done
        exact .appended declared live nonempty written split

/-- Every call that appends goes on like this, if its log is one in memory. -/
theorem delivers_of_leads (appends : ∀ ctx payload, s.log.append ctx payload =
      Log.Memory.append s.clock log payload) {output : O} {events : List E}
    {q : Fiber W (Except (CallFailure L ε) (Emitted O E))}
    (leads : (s.deliver ctx m output events).Leads moves q) :
    s.Delivers log ctx m output events moves q := by
  rw [deliver] at leads
  cases declared : m.undeclared? s.set s.contract.name events with
  | some u =>
      rw [declared] at leads
      obtain ⟨rfl, rfl⟩ := leads.of_done
      exact .undeclared declared
  | none =>
      rw [declared] at leads
      rcases leads.of_atomic with ⟨rfl, pending⟩ | ⟨w, later, rfl, looked⟩
      · exact .declared declared pending
      cases live : ctx.interruption? (s.clock.get w) with
      | some reason =>
          rw [live] at looked
          obtain ⟨rfl, rfl⟩ := looked.of_done
          exact .interrupted declared live
      | none =>
          rw [live] at looked
          dsimp only at looked
          rcases events with _ | ⟨e, rest⟩
          · obtain ⟨rfl, rfl⟩ := looked.of_done
            exact .nothing live
          rw [if_neg (by simp)] at looked
          cases written : s.set.encode (e :: rest) with
          | error failure =>
              rw [written] at looked
              obtain ⟨rfl, rfl⟩ := looked.of_done
              exact .unwritten declared live (List.cons_ne_nil _ _) written
          | ok text =>
              rw [written] at looked
              dsimp only at looked
              rw [appends] at looked
              exact delivers_of_append declared live (List.cons_ne_nil _ _) written looked

/-- A call that appends runs its method on what is committed, and then delivers what the method
has given. -/
theorem parts_of_runAppend (appends : ∀ ctx payload, s.log.append ctx payload =
      Log.Memory.append s.clock log payload)
    {q : Fiber W (Except (CallFailure L ε) (Emitted O E))}
    (leads : (s.runAppend ctx m logic).Leads moves q) :
    (∃ p, s.Consults ctx logic moves p ∧ p.Pending ∧ q.Pending) ∨
      (∃ e, s.Consults ctx logic moves (.done (.error e)) ∧ q = .done (.error e)) ∨
        ∃ output events before after, moves = before ++ after ∧
          s.Consults ctx logic before (.done (.ok (output, events))) ∧
          s.Delivers log ctx m output events after q := by
  rw [runAppend_eq_deliver] at leads
  rcases leads.split with ⟨p, pending, within, rfl⟩ | ⟨result, before, after, led, on, rfl⟩
  · exact .inl ⟨p, consults_of_leads within, pending, pending.bind _⟩
  have consults := consults_of_leads led
  rcases result with e | ⟨output, events⟩
  · obtain ⟨rfl, rfl⟩ := on.of_done
    rw [List.append_nil]
    exact .inr (.inl ⟨e, consults, rfl⟩)
  · exact .inr (.inr ⟨output, events, before, after, rfl, consults,
      delivers_of_leads appends on⟩)

/-- The moves of a call that has run its method once, between the beginning and the end of a
reading. -/
structure Consulted (s : Service W P E ε) (ctx : Context) (logic : Logic W P E L O)
    (moves before : List (Move W)) (begins run ends : Move W) : Prop where
  moves : moves = before ++ [begins, run, ends]
  waits : Waits s.clock before
  began : s.store.read begins.before = some (.ok (), begins.after)
  ran : s.Ran ctx logic run
  completed : ends.after = s.store.complete ends.before

/-- A call that has ended was interrupted while it waited, or failed to begin to read, or has run
its method. -/
theorem Consults.of_done {result : Except (CallFailure L ε) (O × List E)}
    (consults : s.Consults ctx logic moves (.done result)) :
    (Waits s.clock moves ∧ ∃ reason, result = .error (.refused (.interrupted reason))) ∨
      (∃ before begins e, moves = before ++ [begins] ∧ Waits s.clock before ∧
        s.store.read begins.before = some (.error e, begins.after) ∧
        result = .error (.refused (.store e))) ∨
      ∃ before begins run ends, s.Consulted ctx logic moves before begins run ends ∧
        result = told (s.given ctx logic run.before) := by
  generalize same : Fiber.done result = q at consults
  cases consults with
  | waits _ pending => exact (pending.ne_done _ same.symm).elim
  | interrupted waits =>
      cases same
      exact .inl ⟨waits, _, rfl⟩
  | failed waits failed =>
      cases same
      exact .inr (.inl ⟨_, _, _, rfl, waits, failed, rfl⟩)
  | begun _ _ pending => exact (pending.ne_done _ same.symm).elim
  | run _ _ _ pending => exact (pending.ne_done _ same.symm).elim
  | ended waits began ran completed =>
      cases same
      exact .inr (.inr ⟨_, _, _, _, ⟨rfl, waits, began, ran, completed⟩, rfl⟩)

end EventSourcing.Service
