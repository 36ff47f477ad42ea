import EventSourcing.Proofs.Service.Course

/-!
# Proofs.Service.Calls -- calls of every kind

Whatever a service is asked for, it keeps to the terms, as long as the policy admits the
request (`safe_answer`).  So everything that is known of the shared state at the beginning
and that no admitted move can break is known at any time, and every transaction that has
ended has gone its course (`Setting.sound`).
-/

namespace EventSourcing

set_option autoImplicit false
set_option linter.unusedSectionVars false

open EventSourcing.Store (Cell Snapshot)
open Service (SyncError MethodError CallFailure Emitted Logic)

variable {ι : Type} [DecidableEq ι] {P E ε : ι → Type} {X L O : Type}
  (party : (i : ι) → Party (P i) (E i) (ε i)) (policy : Policy ι P X)

/-! ## What may be asked for -/

/-- Whatever is put at the end of the log is all right. -/
def Policy.Open : Prop :=
  ∀ w texts, policy.known w → policy.pushes w texts

/-- A method that a service declares as one of a kind. -/
def Party.Declares {P E ε : Type} (q : Party P E ε) (name : String) (kind : Method.Kind) : Prop :=
  ∃ m, q.contract.method? name = some m ∧ m.kind = kind

def Policy.Admits : Request ι P E ε X → Prop
  | .raw _ => policy.Open
  | .sync _ _ => True
  | .syncWith i _ accepts =>
      ∀ e, accepts (.store e) = true → ∀ w, policy.known w → policy.commits i w
  | .version _ _ => True
  | .readonly i _ _ logic => Fair policy i logic
  | .append i _ _ logic => Fair policy i logic ∧ policy.Open
  | .transaction i _ _ logic => Fair policy i logic ∧ Considerate party policy i logic
  | .call i _ name logic => Fair policy i logic ∧
      ((party i).Declares name .transaction → Considerate party policy i logic) ∧
        ((party i).Declares name .append → policy.Open)

def Request.Methods
    (good : (i : ι) → {L O : Type} → Logic (Commons ι P X) (P i) (E i) L O → Prop) :
    Request ι P E ε X → Prop
  | .readonly i _ _ logic => good i logic
  | .append i _ _ logic => good i logic
  | .transaction i _ _ logic => good i logic
  | .call i _ _ logic => good i logic
  | _ => True

/-- Requests whose methods leave the log and the stores alone while they run. -/
def Request.Aloof : Request ι P E ε X → Prop :=
  Request.Methods fun _ => EventSourcing.Aloof

/-- Requests that never keep what a store has refused. -/
def Request.Strict : Request ι P E ε X → Prop
  | .syncWith _ _ accepts => ∀ e, accepts (.store e) = false
  | _ => True

/-- What can be said of a request that was answered, from the moves that it took. -/
def Request.Answered : (r : Request ι P E ε X) → r.Result → List (Move (Commons ι P X)) → Prop
  | .sync i _, result, _ => ∀ e, result = .error e → e.Founded party policy i
  | .syncWith i _ _, result, _ => ∀ e, result = .error e → e.Founded party policy i
  | .transaction i ctx _ logic, result, moves => Course party i ctx logic result moves ∧
      ∀ failure e, result = .error failure → failure.sync? = some e → e.Founded party policy i
  | .call i ctx name logic, result, moves =>
      ((party i).Declares name .transaction → Course party i ctx logic result moves) ∧
        ∀ failure e, result = .error failure → failure.sync? = some e → e.Founded party policy i
  | _, _, _ => True

variable {party policy} {i : ι} {ctx : Context} {logic : Logic (Commons ι P X) (P i) (E i) L O}
  {m : Contract.Method} {w : Commons ι P X}

theorem Request.Methods.mono
    {good good' : (i : ι) → {L O : Type} → Logic (Commons ι P X) (P i) (E i) L O → Prop}
    (weaker : ∀ i {L O : Type} (logic : Logic (Commons ι P X) (P i) (E i) L O),
      good i logic → good' i logic) {r : Request ι P E ε X} (methods : r.Methods good) :
    r.Methods good' := by
  cases r with
  | readonly i ctx name logic => exact weaker i logic methods
  | append i ctx name logic => exact weaker i logic methods
  | transaction i ctx name logic => exact weaker i logic methods
  | call i ctx name logic => exact weaker i logic methods
  | _ => trivial

/-- A policy under which anything may be appended admits all requests whose methods do what
it allows, if it lets all failures be kept that they accept. -/
theorem Policy.admits_of_open (everything : policy.Open) {r : Request ι P E ε X}
    (methods : r.Methods fun i => Fair policy i)
    (strict : r.Strict ∨ ∀ i w, policy.known w → policy.commits i w) :
    policy.Admits party r := by
  have considerate {i : ι} {L O : Type} {logic : Logic (Commons ι P X) (P i) (E i) L O} :
      Considerate party policy i logic :=
    fun _ _ w _ _ _ _ _ _ texts known _ _ _ _ _ _ => everything w texts known
  cases r with
  | raw payload => exact everything
  | sync i ctx => trivial
  | syncWith i ctx accepts =>
      intro e accepted
      rcases strict with strict | lenient
      · cases (strict e).symm.trans accepted
      · exact lenient i
  | version i ctx => trivial
  | readonly i ctx name logic => exact methods
  | append i ctx name logic => exact ⟨methods, everything⟩
  | transaction i ctx name logic => exact ⟨methods, considerate⟩
  | call i ctx name logic => exact ⟨methods, fun _ => considerate, fun _ => everything⟩

/-! ## Reading -/

/-- A transaction that reads sees what is committed. -/
def Reading (i : ι) (w : Commons ι P X) : Prop :=
  (w.cell i).visible = (w.cell i).committed

theorem Reading.later {w₁ : Commons ι P X} (reading : Reading i w)
    (meanwhile : (terms party policy).others (.reads i) w w₁) : Reading i w₁ := by
  obtain ⟨committed, visible⟩ := meanwhile.2
  exact visible.trans (reading.trans committed.symm)

theorem Reading.clean (reading : Reading i w) : Clean party i w :=
  ⟨0, reading⟩

/-- A call waits until it may read. -/
theorem safe_read
    {post : Except Interruption (Except (ε i) Unit) → Hold ι → List (Move (Commons ι P X)) →
      Commons ι P X → Prop}
    (interrupted : ∀ reason moves w, post (.error reason) .nothing moves w)
    (taken : ∀ moves w, Reading i w → post (.ok (.ok ())) (.reads i) moves w) :
    (ctx.run Commons.clockPart (Fiber.await (Request.service party i).store.read)).Safe
      (terms party policy) post .nothing [] w := by
  refine safe_run (fun reason moves w _ => interrupted reason moves w) ?_
  intro before w₁ a w₂ _ _ acted
  change (if (w₁.cell i).isWritten then _ else _) = _ at acted
  split at acted
  · cases acted
  · rename_i unwritten
    cases acted
    have empty : (w₁.cell i).draft = none := by
      simpa [Cell.isWritten] using unwritten
    refine ⟨.reads i, .beginRead i empty, taken _ _ ?_⟩
    simp [Reading, Cell.beginRead, Cell.visible, empty]

/-- A call that was not refused for a failure to synchronize. -/
def Unsynced {L F α : Type} : Except (CallFailure L F) α → Prop
  | .error failure => failure.sync? = none
  | .ok _ => True

/-- A method that is run on what is committed. -/
theorem safe_runReadonly (fair : Fair policy i logic) :
    ((Request.service party i).runReadonly ctx logic).Safe (terms party policy)
      (fun result h _ _ => Unsynced result ∧ h = .nothing) .nothing [] w := by
  refine Fiber.safe_bind (safe_read ?_ ?_)
  · exact fun reason moves w => Fiber.safe_pure ⟨rfl, rfl⟩
  · intro moves w₁ reading
    refine Fiber.safe_bind (Fiber.safe_atomic fun w₂ meanwhile known => ⟨.reads i, ?_, ?_⟩)
    · obtain ⟨log, cell⟩ := fair.aloof ctx ((Request.service party i).store.projection w₂) w₂
      exact .run i (.inl rfl) log cell (reading.later meanwhile).clean (fair.runs ctx w₂ known)
    · refine Fiber.safe_bind (Fiber.safe_atomic fun w₃ _ _ => ⟨.nothing, .endRead i, ?_⟩)
      rcases (logic ctx ((Request.service party i).store.projection w₂) w₂).1 with e | r
      · exact Fiber.safe_pure ⟨rfl, rfl⟩
      · exact Fiber.safe_pure ⟨trivial, rfl⟩

theorem safe_projectionVersion :
    ((Request.service party i).projectionVersion ctx).Safe (terms party policy)
      (fun _ _ _ _ => True) .nothing [] w := by
  refine Fiber.safe_bind (safe_read ?_ ?_)
  · exact fun reason moves w => Fiber.safe_pure trivial
  · intro moves w₁ _
    refine Fiber.safe_bind (safe_look fun w₂ _ _ => ?_)
    refine Fiber.safe_bind (Fiber.safe_atomic fun w₃ _ _ => ⟨.nothing, .endRead i, ?_⟩)
    have version : (Request.service party i).store.version w₂ =
        .ok (w₂.cell i).visible.version := rfl
    rw [version]
    dsimp only
    rw [versionOrOrigin_eq]
    exact Fiber.safe_pure trivial

/-! ## Appending -/

theorem safe_append (anything : policy.Open) (payload : Log.Payload) {h : Hold ι}
    {moves : List (Move (Commons ι P X))} :
    (Log.Memory.append Commons.clockPart Commons.logPart payload).Safe (terms party policy)
      (fun _ _ _ _ => True) h moves w := by
  unfold Log.Memory.append
  cases Log.split payload with
  | error e => exact Fiber.safe_pure trivial
  | ok texts =>
      exact Fiber.safe_atomic fun w₁ _ known => ⟨h, .push texts (anything w₁ texts known), trivial⟩

theorem safe_runAppend (fair : Fair policy i logic) (anything : policy.Open) :
    ((Request.service party i).runAppend ctx m logic).Safe (terms party policy)
      (fun result _ _ _ => Unsynced result) .nothing [] w := by
  refine Fiber.safe_bind (Fiber.safe_mono ?_ (safe_runReadonly fair))
  rintro result h moves w₁ ⟨unsynced, rfl⟩
  rcases result with failure | ⟨output, events⟩
  · exact Fiber.safe_pure unsynced
  · dsimp only
    cases m.undeclared? (Request.service party i).set (Request.service party i).contract.name
        events with
    | some u => exact Fiber.safe_pure rfl
    | none =>
        refine Fiber.safe_bind (safe_look fun w₂ _ _ => ?_)
        cases ctx.interruption? ((Request.service party i).clock.get w₂) with
        | some reason => exact Fiber.safe_pure rfl
        | none =>
            dsimp only
            split
            · exact Fiber.safe_pure trivial
            · cases (Request.service party i).set.encode events with
              | error e => exact Fiber.safe_pure rfl
              | ok text =>
                  refine Fiber.safe_bind (Fiber.safe_mono ?_ (safe_append anything _))
                  rintro (e | appended) h moves w₃ _
                  · exact Fiber.safe_pure rfl
                  · exact Fiber.safe_pure trivial

/-! ## Synchronizing -/

theorem safe_syncWith (lenient : Lenient party policy) {accepts : SyncError (ε i) → Bool}
    (allowed : ∀ e, accepts (.store e) = true → ∀ w, policy.known w → policy.commits i w) :
    ((Request.service party i).syncWith ctx accepts).Safe (terms party policy)
      (fun result _ _ _ => ∀ e, result = .error e → e.Founded party policy i) .nothing [] w := by
  refine Fiber.safe_bind (safe_write ?_ ?_)
  · intro reason moves w₁ _
    refine Fiber.safe_pure ?_
    rintro e same blocking
    cases same
    cases blocking
  · intro before taking s₀ w₁ _ _ drafting
    rw [← List.append_nil (before ++ [taking])]
    refine Fiber.safe_bind (Fiber.safe_mono ?_ (safe_syncIn ctx drafting))
    rintro result h moves w₂ ⟨rfl, inside, rfl, resynced⟩
    refine Fiber.safe_bind ?_
    cases result with
    | ok v =>
        obtain ⟨s, drafting', _⟩ := resynced
        refine safe_finish drafting'.cell (fun _ w₃ known grown same => ?_) fun _ _ _ _ => ?_
        · exact lenient i w₃ known (drafting'.clean.later grown (same.trans drafting'.cell.symm))
        · exact Fiber.safe_pure (by rintro e same; cases same)
    | error e =>
        obtain ⟨⟨⟨s, cell⟩, _⟩, good, founded⟩ := resynced
        refine safe_finish cell (fun kept w₃ known grown same => ?_) fun _ _ _ _ => ?_
        · cases e with
          | store e => exact allowed e kept w₃ known
          | _ =>
              obtain ⟨s', drafting'⟩ := good rfl
              exact lenient i w₃ known (drafting'.clean.later grown (same.trans cell.symm))
        · refine Fiber.safe_pure ?_
          rintro e' same
          cases same
          exact founded

/-! ## Calls of methods of any kind -/

theorem safe_call (lenient : Lenient party policy) (fair : Fair policy i logic) {name : String}
    (considerate : (party i).Declares name .transaction → Considerate party policy i logic)
    (anything : (party i).Declares name .append → policy.Open) :
    ((Request.service party i).call ctx name logic).Safe (terms party policy)
      (fun result _ moves _ =>
        ((party i).Declares name .transaction → Course party i ctx logic result moves) ∧
          ∀ failure e, result = .error failure → failure.sync? = some e →
            e.Founded party policy i) .nothing [] w := by
  have founded {α : Type} {result : Except (CallFailure L (ε i)) α} (unsynced : Unsynced result) :
      ∀ failure e, result = .error failure → failure.sync? = some e → e.Founded party policy i := by
    rintro failure e rfl synced
    cases unsynced.symm.trans synced
  unfold Service.call
  have contract : (Request.service (X := X) party i).contract = (party i).contract := rfl
  rw [contract]
  cases found : (party i).contract.method? name with
  | none =>
      refine Fiber.safe_pure ⟨?_, founded rfl⟩
      rintro ⟨m, declared, _⟩
      cases found.symm.trans declared
  | some m =>
      have other (kind : m.kind ≠ .transaction) : ¬ (party i).Declares name .transaction := by
        rintro ⟨m', declared, kind'⟩
        cases found.symm.trans declared
        exact kind kind'
      dsimp only
      cases kind : m.kind with
      | append =>
          exact Fiber.safe_mono (fun result h moves w unsynced =>
            ⟨fun declared => absurd declared (other (by simp [kind])), founded unsynced⟩)
            (safe_runAppend fair (anything ⟨m, found, kind⟩))
      | transaction =>
          exact Fiber.safe_mono (fun result h moves w course => ⟨fun _ => course.1, course.2⟩)
            (safe_runTransaction lenient fair (considerate ⟨m, found, kind⟩))
      | readonly =>
          have apart : ¬ (party i).Declares name .transaction := other (by simp [kind])
          refine Fiber.safe_bind (Fiber.safe_mono ?_ (safe_runReadonly fair))
          rintro result h moves w₁ ⟨unsynced, rfl⟩
          rcases result with failure | ⟨output, events⟩
          · exact Fiber.safe_pure ⟨fun declared => absurd declared apart, founded unsynced⟩
          · dsimp only
            split
            · exact Fiber.safe_pure ⟨fun declared => absurd declared apart, founded rfl⟩
            · exact Fiber.safe_pure ⟨fun declared => absurd declared apart, founded trivial⟩

theorem method_error {s : Service (Commons ι P X) (P i) (E i) (ε i)} {name : String}
    {kind : Method.Kind} {failure : CallFailure L (ε i)}
    (missed : s.method name kind = .error failure) : failure.sync? = none := by
  unfold Service.method at missed
  split at missed
  · cases missed
    rfl
  · split at missed
    · cases missed
    · cases missed
      rfl

/-- Every request that the policy admits is answered on its terms. -/
theorem safe_answer (lenient : Lenient party policy) (r : Request ι P E ε X)
    (admitted : policy.Admits party r) (w : Commons ι P X) :
    (Request.answer party r).Safe (terms party policy)
      (fun result _ moves _ => r.Answered party policy result moves) .nothing [] w := by
  cases r with
  | raw payload => exact safe_append admitted payload
  | sync i ctx => exact safe_syncWith lenient (by intro e accepted; cases accepted)
  | syncWith i ctx accepts => exact safe_syncWith lenient admitted
  | version i ctx => exact safe_projectionVersion
  | readonly i ctx name logic =>
      unfold Request.answer Service.readonly
      dsimp only
      split
      · exact Fiber.safe_pure trivial
      · exact Fiber.safe_mono (fun _ _ _ _ _ => trivial) (safe_runReadonly admitted)
  | append i ctx name logic =>
      unfold Request.answer Service.append
      dsimp only
      split
      · exact Fiber.safe_pure trivial
      · exact Fiber.safe_mono (fun _ _ _ _ _ => trivial) (safe_runAppend admitted.1 admitted.2)
  | transaction i ctx name logic =>
      unfold Request.answer Service.transaction
      dsimp only
      split
      · rename_i failure missed
        have nothing : Idle ([] : List (Move (Commons ι P X))) := by
          intro mv member
          cases member
        refine Fiber.safe_pure ⟨.refused nothing, ?_⟩
        rintro failure' e same synced
        cases same
        cases (method_error missed).symm.trans synced
      · exact safe_runTransaction lenient admitted.1 admitted.2
  | call i ctx name logic => exact safe_call lenient admitted.1 admitted.2.1 admitted.2.2

/-! ## Everything that can happen -/

/-- A call of a transaction that has ended, under its own name or as a method of whatever
kind it is declared to have. -/
def Transacted (party : (i : ι) → Party (P i) (E i) (ε i)) (pool : Request.Traffic ι P E ε X)
    (i : ι) (ctx : Context) (name : String) (logic : Logic (Commons ι P X) (P i) (E i) L O)
    (moves : List (Move (Commons ι P X)))
    (result : Except (CallFailure L (ε i)) (Emitted O (E i))) : Prop :=
  ⟨.transaction i ctx name logic, moves, .done result⟩ ∈ pool.tasks ∨
    (party i).Declares name .transaction ∧
      ⟨.call i ctx name logic, moves, .done result⟩ ∈ pool.tasks

/-- The task that such a call is. -/
theorem Transacted.task {pool : Request.Traffic ι P E ε X} {name : String}
    {moves : List (Move (Commons ι P X))} {result : Except (CallFailure L (ε i)) (Emitted O (E i))}
    (ended : Transacted party pool i ctx name logic moves result) :
    ∃ task ∈ pool.tasks, task.moves = moves ∧ (task.request.Aloof → Aloof logic) := by
  rcases ended with ended | ⟨_, ended⟩
  · exact ⟨_, ended, rfl, fun aloof => aloof⟩
  · exact ⟨_, ended, rfl, fun aloof => aloof⟩

/-- Circumstances under which a policy can be kept: what may be asked for, what happens
outside of the calls, and the state of affairs at the beginning. -/
structure Setting (party : (i : ι) → Party (P i) (E i) (ε i)) (policy : Policy ι P X)
    (allowed : Request ι P E ε X → Prop) (outside : Commons ι P X → Commons ι P X → Prop)
    (start : Commons ι P X) : Prop where
  lenient : Lenient party policy
  acts : ∀ {h w w' h'}, policy.known w → Acts party policy h w w' h' → policy.known w'
  outer : ∀ {w w'}, policy.known w → outside w w' → policy.known w' ∧ Outside w w'
  admitted : ∀ r, allowed r → policy.Admits party r
  known : policy.known start
  free : ∀ i, (start.cell i).readers = 0 ∧ (start.cell i).draft = none

namespace Setting

variable {allowed : Request ι P E ε X → Prop} {outside : Commons ι P X → Commons ι P X → Prop}
  {start : Commons ι P X} {pool pool' : Request.Traffic ι P E ε X}

theorem shares (setting : Setting party policy allowed outside start) : Shares start [] :=
  fun i => ⟨(setting.free i).1, by simp [(setting.free i).2], fun _ => (setting.free i).1⟩

/-- What is known of the shared state at the beginning is known at any time, and every
request that has been answered was answered as it should be. -/
theorem sound (setting : Setting party policy allowed outside start)
    (reachable : Pool.Reachable (Request.answer party) allowed outside start pool) :
    Pool.Sound (terms party policy) Shares
      (fun r result _ moves _ => r.Answered party policy result moves) pool :=
  Pool.sound_of_reachable (harmony_terms setting.acts setting.outer)
    (fun r may w => safe_answer setting.lenient r (setting.admitted r may) w) setting.known
    setting.shares reachable

/-- What can be said of a call of a transaction that has ended. -/
theorem transacted (setting : Setting party policy allowed outside start)
    (reachable : Pool.Reachable (Request.answer party) allowed outside start pool) {name : String}
    {moves : List (Move (Commons ι P X))} {result : Except (CallFailure L (ε i)) (Emitted O (E i))}
    (ended : Transacted party pool i ctx name logic moves result) :
    Course party i ctx logic result moves := by
  rcases ended with ended | ⟨declared, ended⟩
  · obtain ⟨_, _, _, answered⟩ := Pool.post_of_done (setting.sound reachable) ended
    exact answered.1
  · obtain ⟨_, _, _, answered⟩ := Pool.post_of_done (setting.sound reachable) ended
    exact answered.1 declared

/-- Whatever happens is a move that the policy allows to a call, or happens outside. -/
theorem change (setting : Setting party policy allowed outside start)
    (reachable : Pool.Reachable (Request.answer party) allowed outside start pool)
    (step : Pool.Step (Request.answer party) allowed outside pool pool') :
    Pool.Change (terms party policy) outside pool.state pool'.state :=
  (Pool.sound_step (harmony_terms setting.acts setting.outer)
    (fun r may w => safe_answer setting.lenient r (setting.admitted r may) w)
    (setting.sound reachable) step).2

/-- What was known when a move was made, and what has come of the log since: every entry
that was in it is still in it. -/
theorem since (setting : Setting party policy allowed outside start)
    (reachable : Pool.Reachable (Request.answer party) allowed outside start pool) :
    ∀ task ∈ pool.tasks, ∀ mv ∈ task.moves,
      policy.known mv.before ∧ mv.after.log.records <+: pool.state.log.records := by
  refine Pool.since_of_reachable (harmony_terms setting.acts setting.outer)
    (fun r may w => safe_answer setting.lenient r (setting.admitted r may) w) setting.known
    setting.shares (fun mv w => policy.known mv.before ∧ mv.after.log.records <+: w.log.records)
    (fun w w' known => ⟨known, List.prefix_rfl⟩) ?_ reachable
  rintro mv w w' known changed ⟨knew, grown⟩
  refine ⟨knew, grown.trans ?_⟩
  cases changed with
  | none same => exact same ▸ List.prefix_rfl
  | own acts => exact Acts.grows acts
  | outside happened => exact (setting.outer known happened).2.1 ▸ List.prefix_rfl

end Setting

end EventSourcing
