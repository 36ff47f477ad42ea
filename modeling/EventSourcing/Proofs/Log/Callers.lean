import EventSourcing.Log.Memory
import EventSourcing.Proofs.Fiber.Trail

/-!
# Proofs.Log.Callers -- what a call that appends does

A call either leaves the log as it is or puts its entries at the end in its last move
(`Call.outcome_of_leads`), whatever other callers do meanwhile.  A conditional append puts them
exactly where the version it assumed last says.
-/

namespace EventSourcing.Log

set_option autoImplicit false

/-! ## Calls -/

inductive Call (W : Type) : Type 1 where
  | append (payload : Payload)
  | tryAppend {σ ε : Type} (rounds : Nat) (ctx : Context) (assumed : Version)
      (attempt : Attempt W σ ε) (s : σ)

/-- An attempt that reaches the log through its call only. -/
structure Attempt.Apart {W σ ε : Type} (log : Part W Memory) (attempt : Attempt W σ ε) :
    Prop where
  produce : ∀ s w, log.get (attempt.produce s w).2 = log.get w
  resync : ∀ s, (attempt.resync s).Abides (fun _ => True)
    (fun w w' => log.get w' = log.get w) (fun _ => True)

/-- The rounds of a conditional append that came too late.  The call assumed a version, with a
memory of the attempt, and after these moves it assumes another one. -/
inductive Assumes {W σ ε : Type} (attempt : Attempt W σ ε) :
    Version → σ → List (Move W) → Version → σ → Prop where
  | begun (v : Version) (s : σ) : Assumes attempt v s [] v s
  | again {v v₁ v₂ : Version} {s s₁ s₂ s₃ : σ} {check produce push : Move W}
      {resync later : List (Move W)} {payload : Payload}
      (produced : attempt.produce s produce.before = ((.ok (some payload), s₁), produce.after))
      (resynced : (attempt.resync s₁).Leads resync (.done (.ok v₁, s₂)))
      (rest : Assumes attempt v₁ s₂ later v₂ s₃) :
      Assumes attempt v s (check :: produce :: push :: (resync ++ later)) v₂ s₃

/-- After some moves a conditional append is about to put a payload behind so many entries:
the attempt has just produced it, and the version that was assumed last has as many entries
before it. -/
def Attempt.Sends {W σ ε : Type} (attempt : Attempt W σ ε) (assumed : Version) (s : σ)
    (moves : List (Move W)) (size : Nat) (payload : Payload) : Prop :=
  ∃ earlier check produce v s₁ s₂, moves = earlier ++ [check, produce] ∧
    Assumes attempt assumed s earlier v s₁ ∧
    attempt.produce s₁ produce.before = ((.ok (some payload), s₂), produce.after) ∧
    v.offset? = some size

def tried? {σ ε : Type} : Except (AppendFailure ε) (Option Appended) × σ → Option Appended
  | (.ok appended, _) => appended
  | (.error _, _) => none

namespace Call

variable {W : Type}

def Result : Call W → Type
  | append _ => Except Error Appended
  | @tryAppend _ σ ε _ _ _ _ _ => Except (AppendFailure ε) (Option Appended) × σ

def added? : (c : Call W) → c.Result → Option Appended
  | append _ => Except.toOption
  | tryAppend .. => tried?

/-- After some moves a call is about to put a payload behind so many entries. -/
def Sends : Call W → List (Move W) → Nat → Payload → Prop
  | append given => fun moves _ payload => moves = [] ∧ payload = given
  | tryAppend _ _ assumed attempt s => attempt.Sends assumed s

variable (clock : Part W Clock) (log : Part W Memory)

def answer : (c : Call W) → Fiber W c.Result
  | append payload => Memory.append clock log payload
  | tryAppend rounds ctx assumed attempt s =>
      Memory.tryAppend clock log ctx attempt rounds assumed s

/-- A call whose attempt, if it has one, reaches the log through the call only. -/
def Apart : Call W → Prop
  | append _ => True
  | tryAppend _ _ _ attempt _ => attempt.Apart log

end Call

/-! ## What a call does -/

section

variable {W α : Type} (log : Part W Memory)

/-- Moves that leave the log as it is. -/
def Quiet (moves : List (Move W)) : Prop :=
  ∀ mv ∈ moves, log.get mv.after = log.get mv.before

/-- What has come of a call after some moves.  Either the log is as it was, and the call does
not return that it has added something; or the last move put entries at the end, and the call
returns their range. -/
inductive Outcome (added? : α → Option Appended) (sends : List (Move W) → Nat → Payload → Prop) :
    List (Move W) → Fiber W α → Prop where
  | quiet {moves : List (Move W)} {p : Fiber W α} (still : Quiet log moves)
      (silent : ∀ a, p = .done a → added? a = none) : Outcome added? sends moves p
  | put {moves : List (Move W)} {w w' : W} {a : α} {payload : Payload} {texts : List String}
      {now : Nat} {appended : Appended} (still : Quiet log moves)
      (sent : sends moves (log.get w).size payload) (split : split payload = .ok texts)
      (pushed : (log.get w).push now texts = (appended, log.get w'))
      (returned : added? a = some appended) :
      Outcome added? sends (moves ++ [⟨w, w'⟩]) (.done a)

variable {log} {added? : α → Option Appended} {sends sends' : List (Move W) → Nat → Payload → Prop}
  {moves : List (Move W)} {p : Fiber W α}

theorem quiet_nil : Quiet log [] :=
  fun _ member => (List.not_mem_nil member).elim

theorem Quiet.append {moves' : List (Move W)} (first : Quiet log moves) (rest : Quiet log moves') :
    Quiet log (moves ++ moves') :=
  fun mv member => (List.mem_append.1 member).elim (first mv) (rest mv)

theorem Quiet.cons {mv : Move W} (first : log.get mv.after = log.get mv.before)
    (rest : Quiet log moves) : Quiet log (mv :: moves) :=
  List.forall_mem_cons.2 ⟨first, rest⟩

theorem Outcome.pending (still : Quiet log moves) (pending : p.Pending) :
    Outcome log added? sends moves p :=
  .quiet still fun a same => (pending.ne_done a same).elim

/-- A call that ends here without having added anything. -/
theorem Outcome.ended {a : α} (still : Quiet log moves) (silent : added? a = none)
    {later : List (Move W)} (leads : (Fiber.done a).Leads later p) :
    Outcome log added? sends (moves ++ later) p := by
  obtain ⟨rfl, rfl⟩ := leads.of_done
  rw [List.append_nil]
  exact .quiet still fun b same => by cases same; exact silent

/-- A call that has not moved has not added anything. -/
theorem Outcome.nothing {a : α} (outcome : Outcome log added? sends moves (.done a))
    (unmoved : moves = []) : added? a = none := by
  generalize same : Fiber.done a = p at outcome
  cases outcome with
  | quiet still silent => exact silent a same.symm
  | put => exact absurd unmoved (List.append_ne_nil_of_right_ne_nil _ (List.cons_ne_nil _ _))

/-- Moves before that leave the log as it is do not change what comes of a call. -/
theorem Outcome.after {before : List (Move W)} (still : Quiet log before)
    (sent : ∀ moves size payload, sends moves size payload →
      sends' (before ++ moves) size payload)
    (outcome : Outcome log added? sends moves p) :
    Outcome log added? sends' (before ++ moves) p := by
  cases outcome with
  | quiet later silent => exact .quiet (still.append later) silent
  | put later sending split pushed returned =>
      rw [← List.append_assoc]
      exact .put (still.append later) (sent _ _ _ sending) split pushed returned

end

section

variable {W : Type} {clock : Part W Clock} {log : Part W Memory} {moves : List (Move W)}

theorem push_set (now : Nat) (texts : List String) (w : W) :
    (log.get w).push now texts = (((log.get w).push now texts).1,
      log.get (log.set ((log.get w).push now texts).2 w)) := by
  rw [log.get_set]

/-- An append in any case puts its payload at the end in its only move. -/
theorem append_outcome {payload : Payload} {p : Fiber W (Except Error Appended)}
    (leads : (Memory.append clock log payload).Leads moves p) :
    Outcome log Except.toOption (Call.Sends (.append payload : Call W)) moves p := by
  rw [Memory.append] at leads
  cases split : split payload with
  | error e =>
      rw [split] at leads
      exact .ended quiet_nil rfl leads
  | ok texts =>
      rw [split] at leads
      cases leads with
      | stay => exact .pending quiet_nil trivial
      | @move _ _ _ b w w' later _ taken on =>
          obtain ⟨rfl, rfl⟩ := on.of_done
          have same := Option.some.inj taken
          have result : .ok ((log.get w).push (clock.get w).now texts).1 = b :=
            congrArg Prod.fst same
          have state : log.set ((log.get w).push (clock.get w).now texts).2 w = w' :=
            congrArg Prod.snd same
          subst result state
          exact .put quiet_nil ⟨rfl, rfl⟩ split (push_set (clock.get w).now texts w) rfl

variable {σ ε : Type} {ctx : Context} {attempt : Attempt W σ ε} {assumed : Version} {s s₁ : σ}
  {check produce : Move W} {payload : Payload}
  {p : Fiber W (Except (AppendFailure ε) (Option Appended) × σ)}

/-- After a vain push the attempt catches up, and the call goes on from there. -/
theorem late_outcome (apart : attempt.Apart log)
    {next : Except ε Version × σ → Fiber W (Except (AppendFailure ε) (Option Appended) × σ)}
    (failed : ∀ e s, next (.error e, s) = pure (.error (.attempt e), s))
    (again : ∀ v s moves p, (next (.ok v, s)).Leads moves p →
      Outcome log tried? (attempt.Sends v s) moves p)
    (produced : attempt.produce s produce.before = ((.ok (some payload), s₁), produce.after))
    {push : Move W} (still : Quiet log [check, produce, push])
    (leads : (attempt.resync s₁ >>= next).Leads moves p) :
    Outcome log tried? (attempt.Sends assumed s) ([check, produce, push] ++ moves) p := by
  have quiet {moves : List (Move W)} {q : Fiber W (Except ε Version × σ)}
      (within : (attempt.resync s₁).Leads moves q) : Quiet log moves :=
    ((apart.resync s₁).of_leads within fun _ _ => trivial).1
  rcases leads.of_bind with ⟨pending, q, within⟩ | ⟨⟨resynced, s₂⟩, before, after, led, on, rfl⟩
  · exact .pending (still.append (quiet within)) pending
  · cases resynced with
    | error e =>
        rw [failed] at on
        rw [← List.append_assoc]
        exact .ended (still.append (quiet led)) rfl on
    | ok v =>
        rw [← List.append_assoc]
        refine (again v s₂ after p on).after (still.append (quiet led)) ?_
        rintro moves size payload ⟨earlier, check', produce', v', s', s'', rfl, assumes, sent⟩
        exact ⟨_, check', produce', v', s', s'', (List.append_assoc _ _ _).symm,
          .again produced led assumes, sent⟩

/-- A push succeeds exactly behind as many entries as were expected. -/
theorem push_outcome {next : Option Appended →
      Fiber W (Except (AppendFailure ε) (Option Appended) × σ)} {act : W → Option Appended × W}
    {texts : List String} {expected : Nat}
    (pushes : ∀ w, act w = (((log.get w).pushIf expected (clock.get w).now texts).1,
      log.set ((log.get w).pushIf expected (clock.get w).now texts).2 w))
    (won : ∀ appended, next (some appended) = pure (.ok (some appended), s₁))
    (late : ∀ w moves p, (next none).Leads moves p →
      Outcome log tried? (attempt.Sends assumed s) ([check, produce, ⟨w, w⟩] ++ moves) p)
    (produced : attempt.produce s produce.before = ((.ok (some payload), s₁), produce.after))
    (split : split payload = .ok texts) (read : Memory.offsetOf assumed = .ok expected)
    (still : Quiet log [check, produce]) (leads : (Fiber.atomic act >>= next).Leads moves p) :
    Outcome log tried? (attempt.Sends assumed s) ([check, produce] ++ moves) p := by
  rcases leads.of_atomic with ⟨rfl, pending⟩ | ⟨w, later, rfl, on⟩
  · rw [List.append_nil]
    exact .pending still pending
  rw [pushes, Memory.pushIf] at on ⊢
  by_cases fits : (log.get w).size = expected
  · simp only [if_pos fits] at on ⊢
    rw [won] at on
    obtain ⟨rfl, rfl⟩ := on.of_done
    have offset : assumed.offset? = some (log.get w).size := by
      rw [Memory.offsetOf] at read
      split at read
      · rename_i n found
        cases read
        rw [found, fits]
      · cases read
    have sent : attempt.Sends assumed s [check, produce] (log.get w).size payload :=
      ⟨[], check, produce, assumed, s, s₁, rfl, .begun assumed s, produced, offset⟩
    exact .put still sent split (push_set (clock.get w).now texts w) rfl
  · simp only [if_neg fits, log.set_get] at on ⊢
    exact late w later p on

/-- A conditional append puts what it has produced behind the version it assumes, if at all. -/
theorem tryAppend_outcome (apart : attempt.Apart log) {rounds : Nat}
    (leads : (Memory.tryAppend clock log ctx attempt rounds assumed s).Leads moves p) :
    Outcome log tried? (attempt.Sends assumed s) moves p := by
  induction rounds generalizing assumed s moves p with
  | zero =>
      cases leads with
      | stay => exact .pending quiet_nil trivial
      | move taken => cases taken
  | succ rounds ih =>
      rw [Memory.tryAppend] at leads
      rcases leads.of_atomic with ⟨rfl, pending⟩ | ⟨w, moves, rfl, checking⟩
      · exact .pending quiet_nil pending
      clear leads
      have checked : Quiet log [⟨w, w⟩] := quiet_nil.cons rfl
      cases live : ctx.interruption? (clock.get w) with
      | some reason =>
          rw [live] at checking
          exact .ended checked rfl checking
      | none =>
          rw [live] at checking
          rcases checking.of_atomic with ⟨rfl, pending⟩ | ⟨w₁, moves, rfl, producing⟩
          · exact .pending checked pending
          clear checking
          have kept : log.get (attempt.produce s w₁).2 = log.get w₁ := apart.produce s w₁
          have still : Quiet log [⟨w, w⟩, ⟨w₁, (attempt.produce s w₁).2⟩] :=
            (quiet_nil.cons kept).cons rfl
          rcases made : attempt.produce s w₁ with ⟨⟨e | _ | payload, s₁⟩, w₁'⟩ <;>
            rw [made] at producing still
          · exact .ended still rfl producing
          · exact .ended still rfl producing
          dsimp only at producing
          cases split : split payload with
          | error e =>
              rw [split] at producing
              exact .ended still rfl producing
          | ok texts =>
              cases read : Memory.offsetOf assumed with
              | error e =>
                  rw [split, read] at producing
                  exact .ended still rfl producing
              | ok expected =>
                  rw [split, read] at producing
                  refine push_outcome (fun w => rfl) (fun appended => rfl) ?_ made split read still
                    producing
                  intro w₂ moves p later
                  exact late_outcome apart (fun e s => rfl) (fun v s moves p on => ih on) made
                    (still.append (quiet_nil.cons rfl)) later

/-- Whatever others do meanwhile, a call leaves the log as it is or puts its entries at the end
in its last move. -/
theorem Call.outcome_of_leads {c : Call W} (apart : c.Apart log) {q : Fiber W c.Result}
    (leads : (c.answer clock log).Leads moves q) : Outcome log c.added? c.Sends moves q := by
  cases c with
  | append payload => exact append_outcome leads
  | tryAppend rounds ctx assumed attempt s => exact tryAppend_outcome apart leads

end

end EventSourcing.Log
