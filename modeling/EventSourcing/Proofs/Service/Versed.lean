import EventSourcing.Log.Memory
import EventSourcing.Proofs.Context.Running
import EventSourcing.Proofs.Event.Naming
import EventSourcing.Service.Call
import EventSourcing.Store.Memory

/-!
# Proofs.Service.Versed -- services that know the words of their log

Every entry of a log carries a name out of some vocabulary, and a service that is versed in
the vocabulary knows all of its names.  Then nothing that the service does fails for an event
that it does not know, whatever others append meanwhile, as long as they keep to the
vocabulary (`abides_syncWith`).  The service itself appends no other names than those that
the contract lets the method emit (`abides_runAppend`, `abides_runTransaction`).
-/

namespace EventSourcing

set_option autoImplicit false

open EventSourcing.Text (Glyph)
open Service (SyncError MethodError CallFailure Emitted Logic Produced)

variable {W P E ε L O : Type} (log : Part W Log.Memory)

/-! ## What is known of the log, and how it grows -/

/-- Every entry of the log carries a word of a vocabulary. -/
def Worded (words : String → Prop) (w : W) : Prop :=
  ∀ r ∈ (log.get w).records, Envelope.Says words r.payload

/-- Entries are put at the end of the log, if any, and they carry names of a kind. -/
def Adds (may : String → Prop) (w w' : W) : Prop :=
  ∃ records, (log.get w').records = (log.get w).records ++ records ∧
    ∀ r ∈ records, Envelope.Says may r.payload

/-- A payload whose entries carry names of a kind. -/
def Log.Spells (may : String → Prop) (payload : Log.Payload) : Prop :=
  ∀ texts, Log.split payload = .ok texts → ∀ text ∈ texts, Envelope.Says may text

variable {log} {words may : String → Prop} {w w' : W}

theorem adds_of_same (same : log.get w' = log.get w) : Adds log may w w' :=
  ⟨[], by rw [same, List.append_nil], fun r member => (List.not_mem_nil member).elim⟩

theorem Worded.adds (worded : Worded log words w) (adds : Adds log may w w')
    (among : ∀ name, may name → words name) : Worded log words w' := by
  obtain ⟨records, after, named⟩ := adds
  intro r member
  rw [after] at member
  rcases List.mem_append.1 member with old | new
  · exact worded r old
  · obtain ⟨name, allowed, carries⟩ := named r new
    exact ⟨name, among name allowed, carries⟩

theorem adds_push {payload : Log.Payload} (spells : Log.Spells may payload) {texts : List String}
    (split : Log.split payload = .ok texts) (now : Nat) (w : W) :
    Adds log may w (log.set ((log.get w).push now texts).2 w) := by
  refine ⟨texts.map (Log.Record.mk now), by rw [log.get_set]; rfl, ?_⟩
  intro r member
  obtain ⟨text, listed, rfl⟩ := List.mem_map.1 member
  exact spells texts split text listed

/-! ## What leaves the log alone -/

/-- A store none of whose operations touches the log. -/
structure Store.Apart (log : Part W Log.Memory) (store : Store W P E ε) : Prop where
  read : ∀ w r w', store.read w = some (r, w') → log.get w' = log.get w
  write : ∀ w r w', store.write w = some (r, w') → log.get w' = log.get w
  complete : ∀ w, log.get (store.complete w) = log.get w
  record : ∀ v w, log.get (store.record v w).2 = log.get w
  apply : ∀ v time event w, log.get (store.apply v time event w).2 = log.get w
  commit : ∀ w, log.get (store.commit w) = log.get w
  rollback : ∀ w, log.get (store.rollback w) = log.get w

/-- A store in a cell of its own. -/
theorem Store.Cell.apart_store (folding : Folding P E ε) {cell : Part W (Store.Cell P)}
    (disjoint : cell.Disjoint log) : (Store.Cell.store folding cell).Apart log where
  read w r w' begun := by
    change (if (cell.get w).isWritten then _ else _) = _ at begun
    split at begun
    · cases begun
    · cases begun
      exact disjoint.get_set_right _ w
  write w r w' begun := by
    change (if (cell.get w).isFree then _ else _) = _ at begun
    split at begun
    · cases begun
      exact disjoint.get_set_right _ w
    · cases begun
  complete w := disjoint.get_set_right _ w
  record _ w := disjoint.get_set_right _ w
  apply _ _ _ w := disjoint.get_set_right _ w
  commit w := disjoint.get_set_right _ w
  rollback w := disjoint.get_set_right _ w

/-- A method that leaves the log alone while it runs. -/
def Service.Logic.Apart (log : Part W Log.Memory) (logic : Logic W P E L O) : Prop :=
  ∀ ctx p w, log.get (logic ctx p w).2 = log.get w

/-! ## Failures -/

/-- Whether synchronizing failed for an event that the service does not know. -/
def Service.SyncError.isUnknown : SyncError ε → Bool
  | decode _ e => e.isUnknown
  | _ => false

/-- Whether a call was refused for an event that the service does not know. -/
def Service.CallFailure.isUnknown : CallFailure L ε → Bool
  | refused (.sync e) => e.isUnknown
  | _ => false

/-- A result that is not a failure of a kind. -/
def Spared {F α : Type} (kind : F → Bool) : Except F α → Prop
  | .error e => kind e = false
  | .ok _ => True

/-- A service around a log in memory that knows all words of a vocabulary. -/
structure Service.Versed (log : Part W Log.Memory) (words : String → Prop)
    (s : Service W P E ε) : Prop where
  clock : s.clock.Disjoint log
  memory : ∃ rounds, s.log = Log.Memory.eventLog s.clock log rounds
  store : s.store.Apart log
  knows : ∀ name, words name → s.set.Knows name

/-! ## Waiting and looking -/

theorem abides_look {α : Type} {f : W → α} (post : α → Prop)
    (found : ∀ w, Worded log words w → post (f w)) :
    (Fiber.atomic fun w => (f w, w)).Abides (Worded log words) (Adds log may) post :=
  Fiber.abides_atomic post fun w worded => ⟨adds_of_same rfl, found w worded⟩

theorem abides_check {clock : Part W Clock} (ctx : Context) :
    (ctx.check clock).Abides (Worded log words) (Adds log may) fun _ => True :=
  abides_look _ fun _ _ => trivial

/-- A call that waits for an action which leaves the log alone. -/
theorem abides_run {α : Type} {clock : Part W Clock} (apart : clock.Disjoint log) (ctx : Context)
    {act : W → Option (α × W)} (leaves : ∀ w a w', act w = some (a, w') → log.get w' = log.get w) :
    (ctx.run clock (Fiber.await act)).Abides (Worded log words) (Adds log may) fun _ => True := by
  intro moves w
  refine Context.safe_run_await (fun _ _ => True) trivial (fun _ _ w₁ w₂ _ _ _ bides => ?_)
    (fun _ _ _ _ => trivial) fun _ _ w₁ a w₂ _ _ _ taken => ?_
  · obtain ⟨c, rfl⟩ := bides.set
    exact ⟨adds_of_same (apart.get_set_right _ _), trivial⟩
  · exact ⟨(), adds_of_same (leaves w₁ a w₂ taken), trivial⟩

/-! ## Scanning and appending -/

theorem mem_entriesAt {offset : Nat} {rs : List Log.Record} :
    ∀ entry ∈ Log.Memory.entriesAt offset rs, ∃ r ∈ rs, entry.payload = r.payload := by
  induction rs generalizing offset with
  | nil => exact fun entry member => (List.not_mem_nil member).elim
  | cons r rest ih =>
      intro entry member
      rcases List.mem_cons.1 member with rfl | member
      · exact ⟨r, List.mem_cons_self, rfl⟩
      · obtain ⟨r', listed, same⟩ := ih entry member
        exact ⟨r', List.mem_cons_of_mem r listed, same⟩

/-- Every entry that a scan shows is one of the log. -/
theorem mem_entriesFrom {start : Version} {limit : Nat} {m : Log.Memory}
    {entries : List Log.Entry} (shown : m.entriesFrom start limit = .ok entries) :
    ∀ entry ∈ entries, ∃ r ∈ m.records, entry.payload = r.payload := by
  unfold Log.Memory.entriesFrom at shown
  split at shown
  · cases shown
  · split at shown
    · cases shown
    · cases shown
      intro entry member
      obtain ⟨r, listed, same⟩ := mem_entriesAt entry member
      refine ⟨r, ?_, same⟩
      split at listed
      · exact List.mem_of_mem_drop listed
      · exact List.mem_of_mem_drop (List.mem_of_mem_take listed)

section Memory

variable {clock : Part W Clock} {σ F : Type} {kind : F → Bool}

/-- A visitor that leaves the log alone and never refuses a worded entry for a reason of a
kind. -/
def Log.Visitor.Calm (log : Part W Log.Memory) (words : String → Prop) (kind : F → Bool)
    (visitor : Log.Visitor W σ F) : Prop :=
  ∀ entry state w, Envelope.Says words entry.payload →
    log.get (visitor entry state w).2 = log.get w ∧ Spared kind (visitor entry state w).1

/-- A scan that did not end early for a reason of a kind. -/
def Log.ScanFailure.Spared (kind : F → Bool) : Option (Log.ScanFailure F) × σ → Prop
  | (some (.visitor e), _) => kind e = false
  | _ => True

theorem abides_visit (ctx : Context) {visitor : Log.Visitor W σ F}
    (calm : visitor.Calm log words kind) {entries : List Log.Entry}
    (worded : ∀ entry ∈ entries, Envelope.Says words entry.payload)
    (state : σ) :
    (Log.Memory.visit clock ctx visitor entries state).Abides (Worded log words) (Adds log may)
      (Log.ScanFailure.Spared kind) := by
  induction entries generalizing state with
  | nil => exact Fiber.abides_pure trivial
  | cons entry rest ih =>
      obtain ⟨now, later⟩ := List.forall_mem_cons.1 worded
      refine Fiber.abides_bind (abides_check ctx) ?_
      rintro (_ | reason) _
      · refine Fiber.abides_bind (Fiber.abides_atomic (Spared kind) fun w _ => ?_) ?_
        · obtain ⟨same, spared⟩ := calm entry state w now
          exact ⟨adds_of_same same, spared⟩
        · rintro (error | state') spared
          · exact Fiber.abides_pure spared
          · exact ih later state'
      · exact Fiber.abides_pure trivial

theorem abides_scan (ctx : Context) (start : Version) (limit : Nat) {visitor : Log.Visitor W σ F}
    (calm : visitor.Calm log words kind) (state : σ) :
    (Log.Memory.scan clock log ctx start limit visitor state).Abides (Worded log words)
      (Adds log may) (Log.ScanFailure.Spared kind) := by
  -- What has been read does not change any more while it is shown.
  refine Fiber.abides_bind (abides_look (fun shown => ∀ entries, shown = .ok entries →
    ∀ entry ∈ entries, Envelope.Says words entry.payload) ?_) ?_
  · intro w worded entries shown entry member
    obtain ⟨r, listed, same⟩ := mem_entriesFrom shown entry member
    rw [same]
    exact worded r listed
  · rintro (error | entries) worded
    · exact Fiber.abides_pure trivial
    · exact abides_visit ctx calm (worded entries rfl) state

theorem abides_append {payload : Log.Payload} (spells : Log.Spells may payload) :
    (Log.Memory.append clock log payload).Abides (Worded log words) (Adds log may)
      fun _ => True := by
  unfold Log.Memory.append
  cases split : Log.split payload with
  | error e => exact Fiber.abides_pure trivial
  | ok texts => exact Fiber.abides_atomic _ fun w _ => ⟨adds_push spells split _ w, trivial⟩

theorem adds_pushIf {payload : Log.Payload} (spells : Log.Spells may payload)
    {texts : List String} (split : Log.split payload = .ok texts) (expected now : Nat) (w : W) :
    Adds log may w (log.set ((log.get w).pushIf expected now texts).2 w) := by
  unfold Log.Memory.pushIf
  split
  · exact adds_push spells split now w
  · exact adds_of_same (log.get_set _ w)

/-- What an attempt may have produced: it spells words that may be used, or it did not fail
for a reason of a kind. -/
def Log.Attempt.Fit (may : String → Prop) (kind : F → Bool) :
    Except F (Option Log.Payload) → Prop
  | .ok (some payload) => Log.Spells may payload
  | .ok none => True
  | .error e => kind e = false

/-- An attempt at a conditional append that never fails for a reason of a kind, neither when
it produces what to append nor when it catches up. -/
structure Log.Attempt.Calm (log : Part W Log.Memory) (words may : String → Prop) (kind : F → Bool)
    (attempt : Log.Attempt W σ F) : Prop where
  produces : ∀ memory w, log.get (attempt.produce memory w).2 = log.get w ∧
    Log.Attempt.Fit may kind (attempt.produce memory w).1.1
  resyncs : ∀ memory, (attempt.resync memory).Abides (Worded log words) (Adds log may)
    fun r => Spared kind r.1

/-- A conditional append that did not fail for a reason of a kind. -/
def Log.AppendFailure.Spared {α : Type} (kind : F → Bool) :
    Except (Log.AppendFailure F) α × σ → Prop
  | (.error (.attempt e), _) => kind e = false
  | _ => True

theorem abides_tryAppend (ctx : Context) {attempt : Log.Attempt W σ F}
    (calm : attempt.Calm log words may kind) (rounds : Nat) (assumed : Version) (memory : σ) :
    (Log.Memory.tryAppend clock log ctx attempt rounds assumed memory).Abides (Worded log words)
      (Adds log may) (Log.AppendFailure.Spared kind) := by
  -- A try that came too late leaves nothing behind that the next one relies on.
  induction rounds generalizing assumed memory with
  | zero => exact Fiber.abides_stuck
  | succ rounds ih =>
      refine Fiber.abides_bind (abides_check ctx) ?_
      rintro (_ | reason) _
      · refine Fiber.abides_bind (Fiber.abides_atomic (fun r => Log.Attempt.Fit may kind r.1)
          fun w _ => ?_) ?_
        · obtain ⟨same, fit⟩ := calm.produces memory w
          exact ⟨adds_of_same same, fit⟩
        · rintro ⟨error | _ | payload, memory'⟩ fit
          · exact Fiber.abides_pure fit
          · exact Fiber.abides_pure trivial
          · dsimp only
            cases split : Log.split payload with
            | error e => exact Fiber.abides_pure trivial
            | ok texts =>
                cases Log.Memory.offsetOf assumed with
                | error e => exact Fiber.abides_pure trivial
                | ok expected =>
                    refine Fiber.abides_bind (Fiber.abides_atomic (fun _ => True) fun w _ =>
                      ⟨adds_pushIf fit split expected _ w, trivial⟩) ?_
                    rintro (_ | appended) _
                    · refine Fiber.abides_bind (calm.resyncs memory') ?_
                      rintro ⟨error | next, memory''⟩ spared
                      · exact Fiber.abides_pure spared
                      · exact ih next memory''
                    · exact Fiber.abides_pure trivial
      · exact Fiber.abides_pure trivial

end Memory

/-! ## Synchronizing -/

namespace Service.Versed

variable {s : Service W P E ε}

theorem calm_takeIn (versed : s.Versed log words) :
    s.takeIn.Calm log words SyncError.isUnknown := by
  rintro entry reached w ⟨name, word, carries⟩
  unfold takeIn
  cases decoded : s.set.decodeText entry.payload with
  | error e => exact ⟨rfl, known_of_carries (versed.knows name word) carries decoded⟩
  | ok event =>
      have applied : log.get (if s.contract.subscribesTo (s.set.name event) then
          s.store.apply entry.next entry.timestamp event w else (.ok (), w)).2 = log.get w := by
        split
        · exact versed.store.apply _ _ _ w
        · rfl
      dsimp only
      split
      · rename_i e failed
        exact ⟨applied, rfl⟩
      · have recorded := (versed.store.record entry.next _).trans applied
        split
        · rename_i failed
          rw [failed] at recorded
          exact ⟨recorded, rfl⟩
        · rename_i done
          rw [done] at recorded
          exact ⟨recorded, trivial⟩

theorem abides_recorded :
    s.recorded.Abides (Worded log words) (Adds log may) fun _ => True :=
  abides_look _ fun _ _ => trivial

theorem abides_versionOrOrigin (versed : s.Versed log words) (ctx : Context)
    (recorded : Option Version) :
    (s.versionOrOrigin ctx recorded).Abides (Worded log words) (Adds log may)
      (Spared SyncError.isUnknown) := by
  obtain ⟨rounds, memory⟩ := versed.memory
  unfold versionOrOrigin
  rw [memory]
  cases recorded with
  | some v => exact Fiber.abides_pure trivial
  | none => exact Fiber.abides_pure trivial

theorem abides_syncIn (versed : s.Versed log words) (ctx : Context) :
    (s.syncIn ctx).Abides (Worded log words) (Adds log may) (Spared SyncError.isUnknown) := by
  refine Fiber.abides_bind abides_recorded ?_
  rintro (e | recorded) _
  · exact Fiber.abides_pure rfl
  refine Fiber.abides_bind (versed.abides_versionOrOrigin ctx recorded) ?_
  rintro (e | start) spared
  · exact Fiber.abides_pure spared
  obtain ⟨rounds, memory⟩ := versed.memory
  have scans : (s.log.scan ctx start 0 s.takeIn start).Abides (Worded log words) (Adds log may)
      (Log.ScanFailure.Spared SyncError.isUnknown) := by
    rw [memory]
    exact abides_scan ctx start 0 versed.calm_takeIn start
  refine Fiber.abides_bind scans ?_
  rintro ⟨_ | e | e | reason, reached⟩ spared
  · exact Fiber.abides_pure trivial
  · dsimp only
    split
    · exact Fiber.abides_pure trivial
    · exact Fiber.abides_pure rfl
  · exact Fiber.abides_pure spared
  · exact Fiber.abides_pure rfl

theorem abides_finish (versed : s.Versed log words) (keep : Bool) :
    (s.finish keep).Abides (Worded log words) (Adds log may) fun _ => True := by
  refine Fiber.abides_atomic _ fun w _ => ⟨adds_of_same ?_, trivial⟩
  cases keep with
  | true => exact versed.store.commit w
  | false => exact versed.store.rollback w

/-- Nothing that is in the log keeps a projection from being brought up to date for being
unknown. -/
theorem abides_syncWith (versed : s.Versed log words) (ctx : Context)
    (accepts : SyncError ε → Bool) :
    (s.syncWith ctx accepts).Abides (Worded log words) (Adds log may)
      (Spared SyncError.isUnknown) := by
  refine Fiber.abides_bind (abides_run versed.clock ctx versed.store.write) ?_
  rintro (reason | e | begun) _
  · exact Fiber.abides_pure rfl
  · exact Fiber.abides_pure rfl
  refine Fiber.abides_bind (versed.abides_syncIn ctx) fun result spared => ?_
  exact Fiber.abides_bind (versed.abides_finish _) fun _ _ => Fiber.abides_pure spared

theorem abides_complete (versed : s.Versed log words) :
    (Fiber.atomic fun w => ((), s.store.complete w)).Abides (Worded log words) (Adds log may)
      fun _ => True :=
  Fiber.abides_atomic _ fun w _ => ⟨adds_of_same (versed.store.complete w), trivial⟩

theorem abides_projectionVersion (versed : s.Versed log words) (ctx : Context) :
    (s.projectionVersion ctx).Abides (Worded log words) (Adds log may)
      (Spared SyncError.isUnknown) := by
  refine Fiber.abides_bind (abides_run versed.clock ctx versed.store.read) ?_
  rintro (reason | e | begun) _
  · exact Fiber.abides_pure rfl
  · exact Fiber.abides_pure rfl
  refine Fiber.abides_bind abides_recorded fun version _ => ?_
  refine Fiber.abides_bind versed.abides_complete fun _ _ => ?_
  cases version with
  | error e => exact Fiber.abides_pure rfl
  | ok recorded => exact versed.abides_versionOrOrigin ctx recorded

/-! ## Calling methods -/

variable {logic : Logic W P E L O} {m : Contract.Method}

theorem abides_runReadonly (versed : s.Versed log words) (apart : logic.Apart log)
    (ctx : Context) :
    (s.runReadonly ctx logic).Abides (Worded log words) (Adds log may)
      (Spared CallFailure.isUnknown) := by
  refine Fiber.abides_bind (abides_run versed.clock ctx versed.store.read) ?_
  rintro (reason | e | begun) _
  · exact Fiber.abides_pure rfl
  · exact Fiber.abides_pure rfl
  refine Fiber.abides_bind (Fiber.abides_atomic (fun _ => True) fun w _ =>
    ⟨adds_of_same (apart ctx _ w), trivial⟩) fun result _ => ?_
  refine Fiber.abides_bind versed.abides_complete fun _ _ => ?_
  cases result with
  | error e => exact Fiber.abides_pure rfl
  | ok r => exact Fiber.abides_pure trivial

/-- A batch in which nothing is undeclared spells names that the method may emit. -/
theorem spells_of_legal (legal : ∀ name ∈ m.emits, may name) {service : String}
    {events : List E} {text : String} (declared : m.undeclared? s.set service events = none)
    (encoded : s.set.encode events = .ok text) : Log.Spells may (Glyph.ofString text) := by
  intro texts split entry member
  obtain ⟨name, listed, carries⟩ := carries_of_split declared encoded split entry member
  exact ⟨name, legal name listed, carries⟩

/-- A method that appends adds entries with names that it may emit, and no others. -/
theorem abides_runAppend (versed : s.Versed log words) (apart : logic.Apart log)
    (legal : ∀ name ∈ m.emits, may name) (ctx : Context) :
    (s.runAppend ctx m logic).Abides (Worded log words) (Adds log may)
      (Spared CallFailure.isUnknown) := by
  refine Fiber.abides_bind (versed.abides_runReadonly apart ctx) ?_
  rintro (e | ⟨output, events⟩) spared
  · exact Fiber.abides_pure spared
  dsimp only
  cases declared : m.undeclared? s.set s.contract.name events with
  | some u => exact Fiber.abides_pure rfl
  | none =>
      refine Fiber.abides_bind (abides_check ctx) ?_
      rintro (_ | reason) _
      · dsimp only
        split
        · exact Fiber.abides_pure trivial
        · cases encoded : s.set.encode events with
          | error e => exact Fiber.abides_pure rfl
          | ok text =>
              obtain ⟨rounds, memory⟩ := versed.memory
              have appends : (s.log.append ctx (Glyph.ofString text)).Abides (Worded log words)
                  (Adds log may) fun _ => True := by
                rw [memory]
                exact abides_append (spells_of_legal legal declared encoded)
              refine Fiber.abides_bind appends ?_
              rintro (e | appended) _
              · exact Fiber.abides_pure rfl
              · exact Fiber.abides_pure trivial
      · exact Fiber.abides_pure rfl

theorem fit_produce (apart : logic.Apart log) (legal : ∀ name ∈ m.emits, may name)
    (ctx : Context) (before : Produced O E) (w : W) :
    log.get (s.produce ctx m logic before w).2 = log.get w ∧
      Log.Attempt.Fit may (CallFailure.isUnknown (L := L) (ε := ε))
        (s.produce ctx m logic before w).1.1 := by
  have same := apart ctx (s.store.projection w) w
  unfold produce
  rcases ran : logic ctx (s.store.projection w) w with ⟨e | ⟨output, events⟩, w'⟩ <;>
    rw [ran] at same
  · exact ⟨same, rfl⟩
  · dsimp only
    cases declared : m.undeclared? s.set s.contract.name events with
    | some u => exact ⟨same, rfl⟩
    | none =>
        dsimp only
        split
        · exact ⟨same, trivial⟩
        · cases encoded : s.set.encode events with
          | error e => exact ⟨same, rfl⟩
          | ok text => exact ⟨same, spells_of_legal legal declared encoded⟩

theorem calm_attempt (versed : s.Versed log words) (apart : logic.Apart log)
    (legal : ∀ name ∈ m.emits, may name) (ctx : Context) :
    (s.attempt ctx m logic).Calm log words may CallFailure.isUnknown where
  produces := fit_produce apart legal ctx
  resyncs := by
    intro memory
    refine Fiber.abides_bind (versed.abides_syncIn ctx) ?_
    rintro (e | v) spared
    · exact Fiber.abides_pure spared
    · exact Fiber.abides_pure trivial

theorem abides_transact (versed : s.Versed log words) (apart : logic.Apart log)
    (legal : ∀ name ∈ m.emits, may name) (ctx : Context) :
    (s.transact ctx m logic).Abides (Worded log words) (Adds log may)
      (Spared CallFailure.isUnknown) := by
  refine Fiber.abides_bind abides_recorded ?_
  rintro (e | recorded) _
  · exact Fiber.abides_pure rfl
  refine Fiber.abides_bind (versed.abides_versionOrOrigin ctx recorded) ?_
  rintro (e | assumed) spared
  · exact Fiber.abides_pure spared
  obtain ⟨rounds, memory⟩ := versed.memory
  have tries : (s.log.tryAppend ctx assumed (s.attempt ctx m logic) none).Abides
      (Worded log words) (Adds log may) (Log.AppendFailure.Spared CallFailure.isUnknown) := by
    rw [memory]
    exact abides_tryAppend ctx (versed.calm_attempt apart legal ctx) rounds assumed none
  refine Fiber.abides_bind tries ?_
  rintro ⟨(e | e | reason) | appended, produced⟩ spared
  · exact Fiber.abides_pure rfl
  · exact Fiber.abides_pure spared
  · exact Fiber.abides_pure rfl
  · rcases produced with _ | ⟨output, events⟩
    · exact Fiber.abides_pure rfl
    · exact Fiber.abides_pure trivial

/-- A transaction keeps to the words of the log, however often it has to catch up with it. -/
theorem abides_runTransaction (versed : s.Versed log words) (apart : logic.Apart log)
    (legal : ∀ name ∈ m.emits, may name) (ctx : Context) :
    (s.runTransaction ctx m logic).Abides (Worded log words) (Adds log may)
      (Spared CallFailure.isUnknown) := by
  refine Fiber.abides_bind (abides_run versed.clock ctx versed.store.write) ?_
  rintro (reason | e | begun) _
  · exact Fiber.abides_pure rfl
  · exact Fiber.abides_pure rfl
  refine Fiber.abides_bind (versed.abides_transact apart legal ctx) fun result spared => ?_
  exact Fiber.abides_bind (versed.abides_finish _) fun _ _ => Fiber.abides_pure spared

/-- A method that is looked up and called as one of a kind. -/
theorem abides_method {α : Type} {name : String} {called : Method.Kind}
    {next : Contract.Method → Fiber W (Except (CallFailure L ε) α)}
    (abides : ∀ m, s.contract.method? name = some m →
      (next m).Abides (Worded log words) (Adds log may) (Spared CallFailure.isUnknown)) :
    Fiber.Abides (Worded log words) (Adds log may) (Spared CallFailure.isUnknown)
      (match s.method name called with
        | .error e => pure (.error e)
        | .ok m => next m) := by
  unfold method
  cases found : s.contract.method? name with
  | none => exact Fiber.abides_pure rfl
  | some m =>
      dsimp only
      by_cases same : m.kind = called
      · rw [if_pos same]
        exact abides m found
      · rw [if_neg same]
        exact Fiber.abides_pure rfl

theorem abides_readonly (versed : s.Versed log words) (apart : logic.Apart log) (ctx : Context)
    (name : String) :
    (s.readonly ctx name logic).Abides (Worded log words) (Adds log may)
      (Spared CallFailure.isUnknown) :=
  abides_method fun _ _ => versed.abides_runReadonly apart ctx

theorem abides_append (versed : s.Versed log words) (apart : logic.Apart log) {name : String}
    (legal : ∀ m, s.contract.method? name = some m → ∀ event ∈ m.emits, may event)
    (ctx : Context) :
    (s.append ctx name logic).Abides (Worded log words) (Adds log may)
      (Spared CallFailure.isUnknown) :=
  abides_method fun m found => versed.abides_runAppend apart (legal m found) ctx

theorem abides_transaction (versed : s.Versed log words) (apart : logic.Apart log) {name : String}
    (legal : ∀ m, s.contract.method? name = some m → ∀ event ∈ m.emits, may event)
    (ctx : Context) :
    (s.transaction ctx name logic).Abides (Worded log words) (Adds log may)
      (Spared CallFailure.isUnknown) :=
  abides_method fun m found => versed.abides_runTransaction apart (legal m found) ctx

theorem abides_call (versed : s.Versed log words) (apart : logic.Apart log) {name : String}
    (legal : ∀ m, s.contract.method? name = some m → ∀ event ∈ m.emits, may event)
    (ctx : Context) :
    (s.call ctx name logic).Abides (Worded log words) (Adds log may)
      (Spared CallFailure.isUnknown) := by
  unfold call
  cases found : s.contract.method? name with
  | none => exact Fiber.abides_pure rfl
  | some m =>
      dsimp only
      cases m.kind with
      | append => exact versed.abides_runAppend apart (legal m found) ctx
      | transaction => exact versed.abides_runTransaction apart (legal m found) ctx
      | readonly =>
          refine Fiber.abides_bind (versed.abides_runReadonly apart ctx) ?_
          rintro (e | ⟨output, events⟩) spared
          · exact Fiber.abides_pure spared
          · dsimp only
            split
            · exact Fiber.abides_pure rfl
            · exact Fiber.abides_pure trivial

end Service.Versed

end EventSourcing
