import EventSourcing.Proofs.Context.Running
import EventSourcing.Proofs.Service.Resync

/-!
# Proofs.Service.Course -- how a transaction goes

A call of a transaction waits until it may write, runs its method on the draft, puts the
events at the end of the log if the draft has all entries of it, and otherwise takes in the
entries that it lacks and tries again.  In the end it keeps its draft or forgets it.
`Course` tells this from the moves of the call and its result; `safe_runTransaction` says
that every call goes like this, whatever others append meanwhile.
-/

namespace EventSourcing

set_option autoImplicit false
set_option linter.unusedSectionVars false

open EventSourcing.Store (Cell Snapshot)
open EventSourcing.Text (Glyph)
open Service (SyncError MethodError CallFailure Emitted Logic Produced)

/-- The failure to synchronize for which a call was refused. -/
def Service.CallFailure.sync? {L ε : Type} : CallFailure L ε → Option (SyncError ε)
  | refused (.sync e) => some e
  | _ => none

variable {ι : Type} [DecidableEq ι] {P E ε : ι → Type} {X L O : Type}
  (party : (i : ι) → Party (P i) (E i) (ε i)) (policy : Policy ι P X)

/-! ## What a transaction does -/

/-- Moves that leave the log and the stores alone. -/
def Idle (moves : List (Move (Commons ι P X))) : Prop :=
  ∀ mv ∈ moves, mv.after.log = mv.before.log ∧ mv.after.cell = mv.before.cell

/-- The move by which a transaction begins to write to a store in which `s₀` is committed
and that nobody else uses. -/
structure Taking (i : ι) (s₀ : Snapshot (P i)) (mv : Move (Commons ι P X)) : Prop where
  free : mv.before.cell i = ⟨s₀, 0, none⟩
  taken : mv.after = (Commons.cellPart i).modify Cell.beginWrite mv.before

/-- A run of a method on a draft `s`, and what the method gave. -/
structure Runs (i : ι) (ctx : Context) (logic : Logic (Commons ι P X) (P i) (E i) L O)
    (s : Snapshot (P i)) (output : O) (events : List (E i)) (mv : Move (Commons ι P X)) :
    Prop where
  draft : (mv.before.cell i).visible = s
  ran : logic ctx s.projection mv.before = (.ok (output, events), mv.after)

/-- The move by which entries are put at the end of a log that has `n` entries so far. -/
structure Pushes (n : Nat) (texts : List String) (mv : Move (Commons ι P X)) : Prop where
  size : mv.before.log.size = n
  pushed : mv.after =
    { mv.before with log := (mv.before.log.push mv.before.clock.now texts).2 }

/-- What comes of the last run of a transaction's method: without events the transaction is
done, and otherwise the next move puts the entries of all of them right behind those that
the method knew of. -/
inductive Concluded (i : ι) (s : Snapshot (P i)) (run : Move (Commons ι P X)) :
    Emitted O (E i) → List (Move (Commons ι P X)) → Prop where
  | silent {output : O} : Concluded i s run ⟨output, [], none⟩ [run]
  | appended {output : O} {events : List (E i)} {text : String} {texts : List String}
      {push : Move (Commons ι P X)} {n : Nat} (encoded : (party i).set.encode events = .ok text)
      (split : Log.split (Glyph.ofString text) = .ok texts) (position : s.position? = some n)
      (pushes : Pushes n texts push) :
      Concluded i s run ⟨output, events, some ⟨.ofNat n, .ofNat (n + texts.length)⟩⟩ [run, push]

/-- A transaction whose method was run on the draft `s` for the last time. -/
def Succeeded (i : ι) (ctx : Context) (logic : Logic (Commons ι P X) (P i) (E i) L O)
    (s₀ : Snapshot (P i)) (inside : List (Move (Commons ι P X))) (emitted : Emitted O (E i))
    (s : Snapshot (P i)) : Prop :=
  ∃ earlier run last, inside = earlier ++ last ∧ Drafting party i s₀ earlier s run.before ∧
    Runs i ctx logic s emitted.output emitted.events run ∧ Concluded party i s run emitted last

/-- How a call of a transaction goes, from its result and its moves. -/
inductive Course (i : ι) (ctx : Context) (logic : Logic (Commons ι P X) (P i) (E i) L O) :
    Except (CallFailure L (ε i)) (Emitted O (E i)) → List (Move (Commons ι P X)) → Prop where
  /-- It never began to write. -/
  | refused {failure : CallFailure L (ε i)} {moves : List (Move (Commons ι P X))}
      (idle : Idle moves) : Course i ctx logic (.error failure) moves
  /-- It kept the draft that its method was given last. -/
  | succeeded {emitted : Emitted O (E i)} {s₀ s : Snapshot (P i)}
      {before inside : List (Move (Commons ι P X))} {taking ending : Move (Commons ι P X)}
      (idle : Idle before) (took : Taking i s₀ taking)
      (succeeded : Succeeded party i ctx logic s₀ inside emitted s)
      (log : ending.after.log = ending.before.log)
      (committed : ending.after.cell i = ⟨s, 0, none⟩) :
      Course i ctx logic (.ok emitted) (before ++ taking :: (inside ++ [ending]))
  /-- It was interrupted, and kept what it had taken in by then. -/
  | interrupted {failure : CallFailure L (ε i)} {s₀ s : Snapshot (P i)}
      {before inside : List (Move (Commons ι P X))} {taking ending : Move (Commons ι P X)}
      (interrupted : failure.isInterrupted) (idle : Idle before) (took : Taking i s₀ taking)
      (quiet : Quiet inside) (log : ending.after.log = ending.before.log)
      (ahead : (party i).Ahead ending.after.log.records s₀ (entriesTaken i inside) s)
      (committed : ending.after.cell i = ⟨s, 0, none⟩) :
      Course i ctx logic (.error failure) (before ++ taking :: (inside ++ [ending]))
  /-- It failed in another way, and forgot what it had taken in. -/
  | failed {failure : CallFailure L (ε i)} {s₀ : Snapshot (P i)}
      {before inside : List (Move (Commons ι P X))} {taking ending : Move (Commons ι P X)}
      (uninterrupted : failure.isInterrupted = false) (idle : Idle before)
      (took : Taking i s₀ taking) (quiet : Quiet inside)
      (log : ending.after.log = ending.before.log)
      (restored : ending.after.cell i = ⟨s₀, 0, none⟩) :
      Course i ctx logic (.error failure) (before ++ taking :: (inside ++ [ending]))

theorem Taking.log {i : ι} {s₀ : Snapshot (P i)} {mv : Move (Commons ι P X)}
    (took : Taking i s₀ mv) : mv.after.log = mv.before.log := by
  rw [took.taken, Commons.log_modify]

/-- All moves of a call leave the log alone if those between its beginning to write and its
end do. -/
theorem quiet_of_inside {i : ι} {s₀ : Snapshot (P i)} {before inside : List (Move (Commons ι P X))}
    {taking ending : Move (Commons ι P X)} (idle : Idle before) (took : Taking i s₀ taking)
    (quiet : Quiet inside) (log : ending.after.log = ending.before.log) :
    Quiet (before ++ taking :: (inside ++ [ending])) := by
  intro mv member
  simp only [List.mem_append, List.mem_cons, List.not_mem_nil, or_false] at member
  rcases member with waiting | rfl | held | rfl
  · exact (idle mv waiting).1
  · exact took.log
  · exact quiet mv held
  · exact log

/-! ## What a policy asks of a method -/

/-- A method that leaves the log and the stores alone while it runs.  It may do to all else
what it likes, and come to another result each time. -/
def Aloof {i : ι} (logic : Logic (Commons ι P X) (P i) (E i) L O) : Prop :=
  ∀ ctx p w, (logic ctx p w).2.log = w.log ∧ (logic ctx p w).2.cell = w.cell

/-- A method that keeps to the terms and does what the policy allows. -/
structure Fair (i : ι) (logic : Logic (Commons ι P X) (P i) (E i) L O) : Prop where
  aloof : Aloof logic
  runs : ∀ ctx w, policy.known w →
    policy.runs i w (logic ctx (w.cell i).visible.projection w).2

/-- A method whose events may be appended if it has seen the whole log. -/
def Considerate (i : ι) (logic : Logic (Commons ι P X) (P i) (E i) L O) : Prop :=
  ∀ (ctx : Context) (earlier w : Commons ι P X) (s₀ s : Snapshot (P i)) (m : Nat) (output : O)
    (events : List (E i)) (text : String) (texts : List String),
    policy.known w → w.cell i = ⟨s₀, 0, some s⟩ → (party i).Ahead w.log.records s₀ m s →
      s.position? = some w.log.size →
        (logic ctx s.projection earlier).1 = .ok (output, events) →
          (party i).set.encode events = .ok text →
            Log.split (Glyph.ofString text) = .ok texts → policy.pushes w texts

/-! ## Running the method -/

/-- What a run of a transaction's method on a draft can come to. -/
inductive Outcome (i : ι) (ctx : Context) (logic : Logic (Commons ι P X) (P i) (E i) L O)
    (s : Snapshot (P i)) (run : Move (Commons ι P X)) :
    Except (CallFailure L (ε i)) (Option Log.Payload) × Produced O (E i) → Prop where
  | failed (failure : CallFailure L (ε i)) (memory : Produced O (E i))
      (ours : failure.sync? = none) (uninterrupted : failure.isInterrupted = false) :
      Outcome i ctx logic s run (.error failure, memory)
  | silent (output : O) (runs : Runs i ctx logic s output [] run) :
      Outcome i ctx logic s run (.ok none, some (output, []))
  | emitted (output : O) (events : List (E i)) (text : String)
      (runs : Runs i ctx logic s output events run)
      (encoded : (party i).set.encode events = .ok text) :
      Outcome i ctx logic s run (.ok (some (Glyph.ofString text)), some (output, events))

/-- How a failed transaction leaves its draft. -/
structure Faltered (i : ι) (s₀ : Snapshot (P i)) (inside : List (Move (Commons ι P X)))
    (failure : CallFailure L (ε i)) (w : Commons ι P X) : Prop where
  spoiled : Spoiled i s₀ inside w
  interrupted : failure.isInterrupted → ∃ s, Drafting party i s₀ inside s w
  founded : ∀ e, failure.sync? = some e → e.Founded party policy i

/-- How a transaction stands that is about to end, if it has made the moves `base` before. -/
def Ran (i : ι) (ctx : Context) (logic : Logic (Commons ι P X) (P i) (E i) L O)
    (s₀ : Snapshot (P i)) (base : List (Move (Commons ι P X)))
    (result : Except (CallFailure L (ε i)) (Emitted O (E i))) (h : Hold ι)
    (moves : List (Move (Commons ι P X))) (w : Commons ι P X) : Prop :=
  h = .writes i ∧ ∃ inside, moves = base ++ inside ∧
    match result with
    | .ok emitted => ∃ s, Succeeded party i ctx logic s₀ inside emitted s ∧
        w.cell i = ⟨s₀, 0, some s⟩ ∧ Clean party i w
    | .error failure => Faltered party policy i s₀ inside failure w

/-- What a conditional append means for the transaction that asked for it. -/
def settle {L O F ε : Type} :
    Except (Log.AppendFailure (CallFailure L ε)) (Option Log.Appended) × Produced O F →
      Except (CallFailure L ε) (Emitted O F)
  | (.error (.attempt e), _) => .error e
  | (.error (.log e), _) => .error (.refused (.log e))
  | (.error (.interrupted reason), _) => .error (.refused (.interrupted reason))
  | (.ok _, none) => .error (.refused .nothingProduced)
  | (.ok appended, some (output, events)) => .ok ⟨output, events, appended⟩

variable {party policy} {i : ι} {ctx : Context} {logic : Logic (Commons ι P X) (P i) (E i) L O}
  {m : Contract.Method} {s₀ s : Snapshot (P i)} {base inside moves : List (Move (Commons ι P X))}
  {w : Commons ι P X}

theorem outcome_produce (party : (i : ι) → Party (P i) (E i) (ε i)) (ctx : Context)
    (m : Contract.Method) (logic : Logic (Commons ι P X) (P i) (E i) L O)
    (memory : Produced O (E i)) (visible : (w.cell i).visible = s) :
    ((Request.service party i).produce ctx m logic memory w).2 = (logic ctx s.projection w).2 ∧
      Outcome party i ctx logic s ⟨w, (logic ctx s.projection w).2⟩
        ((Request.service party i).produce ctx m logic memory w).1 := by
  have given : (Request.service party i).store.projection w = s.projection :=
    congrArg Snapshot.projection visible
  simp only [Service.produce, given]
  rcases ran : logic ctx s.projection w with ⟨e | ⟨output, events⟩, w'⟩
  · exact ⟨rfl, .failed _ _ rfl rfl⟩
  · dsimp only
    cases m.undeclared? (Request.service party i).set (Request.service party i).contract.name
        events with
    | some u => exact ⟨rfl, .failed _ _ rfl rfl⟩
    | none =>
        cases events with
        | nil => exact ⟨rfl, .silent output ⟨visible, ran⟩⟩
        | cons event rest =>
            dsimp only [List.isEmpty_cons]
            cases encoded : (Request.service party i).set.encode (event :: rest) with
            | error e => exact ⟨rfl, .failed _ _ rfl rfl⟩
            | ok text => exact ⟨rfl, .emitted output _ text ⟨visible, ran⟩ encoded⟩

/-- A run of the method leaves the draft as it is. -/
theorem Drafting.produce (fair : Fair policy i logic) (memory : Produced O (E i))
    (drafting : Drafting party i s₀ inside s w) :
    (Fiber.atomic (((Request.service party i).attempt ctx m logic).produce memory)).Safe
      (terms party policy) (fun result h moves w' => h = .writes i ∧ ∃ run,
        moves = base ++ (inside ++ [run]) ∧ Drafting party i s₀ inside s run.before ∧
          Drafting party i s₀ (inside ++ [run]) s w' ∧ Outcome party i ctx logic s run result)
      (.writes i) (base ++ inside) w := by
  refine Fiber.safe_atomic fun w₁ meanwhile known => ?_
  have given := drafting.later meanwhile
  have visible : (w₁.cell i).visible = s := given.visible
  obtain ⟨after, outcome⟩ := outcome_produce party ctx m logic memory visible
  have runs := fair.runs ctx w₁ known
  rw [visible] at runs
  have act : ((Request.service party i).attempt ctx m logic).produce =
      (Request.service party i).produce ctx m logic := rfl
  rw [List.append_assoc, act, after]
  obtain ⟨log, cell⟩ := fair.aloof ctx s.projection w₁
  exact ⟨.writes i, .run i (.inr rfl) log cell given.clean runs, rfl, _, rfl, given,
    given.pause log cell, outcome⟩

/-- A failure that is not one of synchronizing. -/
theorem Drafting.faltered (drafting : Drafting party i s₀ inside s w)
    {failure : CallFailure L (ε i)} (ours : failure.sync? = none) :
    Faltered party policy i s₀ inside failure w where
  spoiled := drafting.spoiled
  interrupted := fun _ => ⟨s, drafting⟩
  founded := by
    intro e synced
    rw [ours] at synced
    cases synced

/-- The conditional append itself: either the draft has all entries of the log and the
texts are put behind them, or nothing happens. -/
theorem Drafting.push (drafting : Drafting party i s₀ inside s w) {n : Nat}
    {texts : List String} (position : s.position? = some n)
    (pushes : ∀ w₁, policy.known w₁ → Drafting party i s₀ inside s w₁ →
      s.position? = some w₁.log.size → policy.pushes w₁ texts) :
    (Fiber.atomic fun w : Commons ι P X =>
      (((Commons.logPart.get w).pushIf n (Commons.clockPart.get w).now texts).1,
        Commons.logPart.set
          ((Commons.logPart.get w).pushIf n (Commons.clockPart.get w).now texts).2 w)).Safe
      (terms party policy)
      (fun pushed h moves w' => h = .writes i ∧
        match pushed with
        | some appended => appended = ⟨.ofNat n, .ofNat (n + texts.length)⟩ ∧
            w'.cell i = ⟨s₀, 0, some s⟩ ∧ Clean party i w' ∧
              ∃ push, moves = base ++ (inside ++ [push]) ∧ Pushes n texts push
        | none => ∃ inside', moves = base ++ inside' ∧ Drafting party i s₀ inside' s w')
      (.writes i) (base ++ inside) w := by
  refine Fiber.safe_atomic fun w₁ meanwhile known => ?_
  have waiting := drafting.later meanwhile
  rw [List.append_assoc]
  by_cases complete : w₁.log.size = n
  · have put : (Commons.logPart.get w₁).pushIf n (Commons.clockPart.get w₁).now texts =
        (some ⟨.ofNat n, .ofNat (n + texts.length)⟩, (w₁.log.push w₁.clock.now texts).2) := by
      subst complete
      simp [Log.Memory.pushIf, Log.Memory.push, Log.Memory.tip, Log.Memory.size, Commons.logPart,
        Commons.clockPart]
    have clean : Clean party i { w₁ with log := (w₁.log.push w₁.clock.now texts).2 } := by
      obtain ⟨taken, ahead⟩ := waiting.clean
      exact ⟨taken, ahead.mono (List.prefix_append _ _)⟩
    simp only [put]
    exact ⟨.writes i, .push texts (pushes w₁ known waiting (complete ▸ position)), rfl, trivial,
      waiting.cell, clean, _, rfl, complete, rfl⟩
  · have kept : (Commons.logPart.get w₁).pushIf n (Commons.clockPart.get w₁).now texts =
        (none, w₁.log) := if_neg complete
    simp only [kept]
    exact ⟨.writes i, .tick w₁.clock, rfl, _, rfl, waiting.pause rfl rfl⟩

/-- Catching up between two runs of the method. -/
theorem Drafting.resync (memory : Produced O (E i)) (drafting : Drafting party i s₀ inside s w) :
    (((Request.service party i).attempt ctx m logic).resync memory).Safe (terms party policy)
      (fun result h moves w' => h = .writes i ∧ ∃ inside', moves = base ++ inside' ∧
        match result.1 with
        | .ok v => ∃ s', Drafting party i s₀ inside' s' w' ∧ v = s'.version.getD (.ofNat 0)
        | .error failure => Faltered party policy i s₀ inside' failure w')
      (.writes i) (base ++ inside) w := by
  refine Fiber.safe_bind (Fiber.safe_mono ?_ (safe_syncIn ctx drafting))
  rintro result h moves w' ⟨rfl, inside', rfl, resynced⟩
  cases result with
  | ok v => exact Fiber.safe_pure ⟨rfl, inside', rfl, resynced⟩
  | error e =>
      obtain ⟨spoiled, good, founded⟩ := resynced
      refine Fiber.safe_pure ⟨rfl, inside', rfl, spoiled, fun interrupted => ?_, ?_⟩
      · cases e with
        | interrupted reason => exact good rfl
        | _ => cases interrupted
      · rintro e' same
        cases same
        exact founded

/-- A transaction that may try so often assumes the version of its draft each time. -/
theorem safe_tryAppend (fair : Fair policy i logic)
    (considerate : Considerate party policy i logic) (rounds : Nat) {assumed : Version}
    {memory : Produced O (E i)} (drafting : Drafting party i s₀ inside s w)
    (recorded : assumed = s.version.getD (.ofNat 0)) :
    (Log.Memory.tryAppend Commons.clockPart Commons.logPart ctx
      ((Request.service party i).attempt ctx m logic) rounds assumed memory).Safe
      (terms party policy) (fun result => Ran party policy i ctx logic s₀ base (settle result))
      (.writes i) (base ++ inside) w := by
  -- Every round begins with a good draft whose version is the assumed one.
  induction rounds generalizing inside s w assumed memory with
  | zero => exact Fiber.safe_stuck
  | succ rounds ih =>
      refine Fiber.safe_bind (drafting.look fun w₁ _ _ looked => ?_)
      cases ctx.interruption? (Commons.clockPart.get w₁) with
      | some reason => exact Fiber.safe_pure ⟨rfl, _, rfl, looked.faltered rfl⟩
      | none =>
          refine Fiber.safe_bind (Fiber.safe_mono ?_ (looked.produce fair memory))
          rintro result h moves w₂ ⟨rfl, run, rfl, given, drafted, outcome⟩
          cases outcome with
          | failed failure memory ours => exact Fiber.safe_pure ⟨rfl, _, rfl, drafted.faltered ours⟩
          | silent output runs =>
              exact Fiber.safe_pure ⟨rfl, _, rfl, s, ⟨_, run, [run], rfl, given, runs, .silent⟩,
                drafted.cell, drafted.clean⟩
          | emitted output events text runs encoded =>
              dsimp only
              cases split : Log.split (Glyph.ofString text) with
              | error e => exact Fiber.safe_pure ⟨rfl, _, rfl, drafted.faltered rfl⟩
              | ok texts =>
                  cases position : Log.Memory.offsetOf assumed with
                  | error e => exact Fiber.safe_pure ⟨rfl, _, rfl, drafted.faltered rfl⟩
                  | ok n =>
                      have position' : s.position? = some n := by
                        rw [recorded, Log.Memory.offsetOf] at position
                        split at position
                        · cases position
                          assumption
                        · cases position
                      refine Fiber.safe_bind (Fiber.safe_mono ?_ (drafted.push position' ?_))
                      · rintro pushed h moves w₃ ⟨rfl, put⟩
                        cases pushed with
                        | some appended =>
                            obtain ⟨rfl, cell, clean, push, rfl, pushes⟩ := put
                            refine Fiber.safe_pure ⟨rfl, _, rfl, s, ⟨_, run, [run, push], ?_, given,
                              runs, .appended encoded split position' pushes⟩, cell, clean⟩
                            simp
                        | none =>
                            obtain ⟨inside', rfl, drafting'⟩ := put
                            refine Fiber.safe_bind (Fiber.safe_mono ?_ (drafting'.resync _))
                            rintro ⟨result, memory⟩ h moves w₄ ⟨rfl, inside'', rfl, resynced⟩
                            cases result with
                            | error failure => exact Fiber.safe_pure ⟨rfl, inside'', rfl, resynced⟩
                            | ok v =>
                                obtain ⟨s', drafting'', recorded'⟩ := resynced
                                exact ih drafting'' recorded'
                      -- The draft has all entries of the log when the new ones are put there.
                      · intro w₃ known waiting complete
                        exact considerate ctx run.before w₃ s₀ s _ output events text texts known
                          waiting.cell waiting.ahead complete (by rw [runs.ran]) encoded split

/-- What happens between taking the draft and ending the transaction. -/
theorem safe_transact (fair : Fair policy i logic)
    (considerate : Considerate party policy i logic) (drafting : Drafting party i s₀ inside s w) :
    ((Request.service party i).transact ctx m logic).Safe (terms party policy)
      (Ran party policy i ctx logic s₀ base) (.writes i) (base ++ inside) w := by
  refine Fiber.safe_bind (drafting.look fun w₁ _ _ looked => ?_)
  have version : (Request.service party i).store.version w₁ = .ok s.version :=
    congrArg (fun s : Snapshot (P i) => Except.ok s.version) looked.visible
  rw [version]
  dsimp only
  rw [versionOrOrigin_eq, pure_bind]
  refine Fiber.safe_bind (Fiber.safe_mono ?_
    (safe_tryAppend fair considerate (party i).rounds looked rfl))
  rintro ⟨result, memory⟩ h moves w₂ ran
  match result, memory, ran with
  | .error (.attempt e), _, ran => exact Fiber.safe_pure ran
  | .error (.log e), _, ran => exact Fiber.safe_pure ran
  | .error (.interrupted reason), _, ran => exact Fiber.safe_pure ran
  | .ok _, none, ran => exact Fiber.safe_pure ran
  | .ok appended, some (output, events), ran => exact Fiber.safe_pure ran

/-! ## Beginning and ending a transaction -/

theorem Idle.concat (idle : Idle moves) {mv : Move (Commons ι P X)}
    (log : mv.after.log = mv.before.log) (cell : mv.after.cell = mv.before.cell) :
    Idle (moves ++ [mv]) := by
  intro mv' member
  rcases List.mem_append.1 member with old | new
  · exact idle mv' old
  · rw [List.mem_singleton.1 new]
    exact ⟨log, cell⟩

/-- A call waits for its action, which it then takes, unless it is interrupted. -/
theorem safe_run {α : Type} {act : Commons ι P X → Option (α × Commons ι P X)}
    {post : Except Interruption α → Hold ι → List (Move (Commons ι P X)) → Commons ι P X → Prop}
    {h : Hold ι} (interrupted : ∀ reason moves w, Idle moves → post (.error reason) h moves w)
    (taken : ∀ moves w a w', Idle moves → policy.known w → act w = some (a, w') →
      ∃ h', Acts party policy h w w' h' ∧ post (.ok a) h' (moves ++ [⟨w, w'⟩]) w') :
    (ctx.run Commons.clockPart (Fiber.await act)).Safe (terms party policy) post h [] w := by
  have nothing : Idle ([] : List (Move (Commons ι P X))) := by
    intro mv member
    cases member
  refine Context.safe_run_await (fun moves _ => Idle moves) nothing
    (fun moves _ w₁ w₂ idle _ _ bides => ?_) interrupted
    fun moves _ w₁ a w₂ idle _ known acted => taken moves w₁ a w₂ idle known acted
  obtain ⟨clock, rfl⟩ := bides.set
  exact ⟨.tick clock, idle.concat rfl rfl⟩

/-- A store that nobody uses. -/
theorem cell_of_isFree {S : Type} {c : Cell S} (free : c.isFree) : c = ⟨c.committed, 0, none⟩ := by
  simp only [Cell.isFree, Cell.isWritten, Bool.and_eq_true, beq_iff_eq, Bool.not_eq_eq_eq_not,
    Bool.not_true, Option.isSome_eq_false_iff, Option.isNone_iff_eq_none] at free
  rw [← free.1, ← free.2]

/-- A call waits until it may write. -/
theorem safe_write
    {post : Except Interruption (Except (ε i) Unit) → Hold ι → List (Move (Commons ι P X)) →
      Commons ι P X → Prop}
    (interrupted : ∀ reason moves w, Idle moves → post (.error reason) .nothing moves w)
    (taken : ∀ before taking s₀ w, Idle before → Taking i s₀ taking →
      Drafting party i s₀ [] s₀ w → post (.ok (.ok ())) (.writes i) (before ++ [taking]) w) :
    (ctx.run Commons.clockPart (Fiber.await (Request.service party i).store.write)).Safe
      (terms party policy) post .nothing [] w := by
  refine safe_run interrupted fun before w₁ a w₂ idle _ acted => ?_
  change (if (w₁.cell i).isFree then _ else _) = _ at acted
  split at acted
  · rename_i free
    cases acted
    have cell := cell_of_isFree free
    refine ⟨.writes i, .beginWrite i (congrArg Cell.draft cell) (congrArg Cell.readers cell),
      taken _ _ _ _ idle ⟨cell, rfl⟩ ?_⟩
    refine ⟨?_, .refl, quiet_nil⟩
    rw [Commons.cell_modify_self, cell]
    rfl
  · cases acted

/-- A writer keeps its draft or forgets it. -/
theorem safe_finish {keep : Bool}
    {post : Unit → Hold ι → List (Move (Commons ι P X)) → Commons ι P X → Prop}
    (cell : w.cell i = ⟨s₀, 0, some s⟩)
    (commits : keep = true → ∀ w₁, policy.known w₁ → w.log.records <+: w₁.log.records →
      w₁.cell i = ⟨s₀, 0, some s⟩ → policy.commits i w₁)
    (ended : ∀ ending, ending.after.log = ending.before.log →
      w.log.records <+: ending.after.log.records →
        ending.after.cell i = ⟨if keep then s else s₀, 0, none⟩ →
          post () .nothing (moves ++ [ending]) ending.after) :
    ((Request.service party i).finish keep).Safe (terms party policy) post (.writes i) moves w := by
  refine Fiber.safe_atomic fun w₁ meanwhile known => ?_
  have waiting : w₁.cell i = ⟨s₀, 0, some s⟩ := meanwhile.2.trans cell
  have grown : w.log.records <+: w₁.log.records := meanwhile.1
  cases keep with
  | true =>
      have after := (Commons.cell_modify_self i Cell.commit w₁).trans
        (by rw [waiting]; rfl : _ = (⟨s, 0, none⟩ : Cell (P i)))
      exact ⟨.nothing, .commit i (commits rfl w₁ known grown waiting),
        ended ⟨w₁, _⟩ rfl grown after⟩
  | false =>
      have after := (Commons.cell_modify_self i Cell.rollback w₁).trans
        (by rw [waiting]; rfl : _ = (⟨s₀, 0, none⟩ : Cell (P i)))
      exact ⟨.nothing, .rollback i, ended ⟨w₁, _⟩ rfl grown after⟩

/-! ## Whole calls -/

/-- A policy that lets a transaction keep what it has folded in. -/
def Lenient (party : (i : ι) → Party (P i) (E i) (ε i)) (policy : Policy ι P X) : Prop :=
  ∀ i w, policy.known w → Clean party i w → policy.commits i w

/-- Every call of a transaction goes its course, and can only be refused for an entry that
could not be folded in if there is one. -/
theorem safe_runTransaction (lenient : Lenient party policy) (fair : Fair policy i logic)
    (considerate : Considerate party policy i logic) :
    ((Request.service party i).runTransaction ctx m logic).Safe (terms party policy)
      (fun result _ moves _ => Course party i ctx logic result moves ∧
        ∀ failure e, result = .error failure → failure.sync? = some e → e.Founded party policy i)
      .nothing [] w := by
  refine Fiber.safe_bind (safe_write ?_ ?_)
  · intro reason moves w₁ idle
    refine Fiber.safe_pure ⟨.refused idle, ?_⟩
    rintro failure e same synced
    cases same
    cases synced
  · intro before taking s₀ w₁ idle took drafting
    rw [← List.append_nil (before ++ [taking])]
    refine Fiber.safe_bind (Fiber.safe_mono ?_ (safe_transact fair considerate drafting))
    rintro result h moves w₂ ⟨rfl, inside, rfl, ran⟩
    have shape (ending : Move (Commons ι P X)) :
        before ++ [taking] ++ inside ++ [ending] = before ++ taking :: (inside ++ [ending]) := by
      simp only [List.append_assoc, List.cons_append, List.nil_append]
    refine Fiber.safe_bind ?_
    cases result with
    | ok emitted =>
        obtain ⟨s, succeeded, cell, clean⟩ := ran
        refine safe_finish cell (fun _ w₃ known grown same => ?_) fun ending log _ after => ?_
        · exact lenient i w₃ known (clean.later grown (same.trans cell.symm))
        · refine Fiber.safe_pure ⟨?_, by rintro failure e same; cases same⟩
          rw [shape]
          exact .succeeded idle took succeeded log after
    | error failure =>
        dsimp only
        cases interrupted : failure.isInterrupted with
        | true =>
            obtain ⟨s, drafting'⟩ := ran.interrupted interrupted
            refine safe_finish drafting'.cell (fun _ w₃ known grown same => ?_)
              fun ending log grown after => ?_
            · have clean := drafting'.clean.later grown (same.trans drafting'.cell.symm)
              exact lenient i w₃ known clean
            · refine Fiber.safe_pure ⟨?_, ?_⟩
              · rw [shape]
                exact .interrupted interrupted idle took drafting'.quiet log
                  (drafting'.ahead.mono grown) after
              · rintro failure e same
                cases same
                exact ran.founded e
        | false =>
            obtain ⟨s, cell⟩ := ran.spoiled.cell
            refine safe_finish cell (fun keep => by cases keep) fun ending log grown after => ?_
            refine Fiber.safe_pure ⟨?_, ?_⟩
            · rw [shape]
              exact .failed interrupted idle took ran.spoiled.quiet log after
            · rintro failure e same
              cases same
              exact ran.founded e

end EventSourcing
