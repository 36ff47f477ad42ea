import EventSourcing.Proofs.Fiber.History
import EventSourcing.Proofs.Service.Announced

/-!
# Proofs.Service.Retries -- a transaction ends when the others stop

A transaction that came too late takes in what was appended meanwhile and runs its method again.
Each vain attempt is owed to an append of somebody else since the log was looked at last, so
there are not many more attempts than such appends, whatever the method does (`tries_le`), and
no two of them are given the same version.
-/

namespace EventSourcing

set_option autoImplicit false
set_option linter.unusedSectionVars false

open EventSourcing.Store (Cell Snapshot)
open EventSourcing.Text (Glyph)
open Service (SyncError CallFailure Emitted Logic Produced)

variable {ι : Type} [DecidableEq ι] {P E ε : ι → Type} {X L O : Type}
  (party : (i : ι) → Party (P i) (E i) (ε i)) (i : ι) (ctx : Context)

/-! ## The moves of a transaction -/

/-- A run of a method on what a transaction sees, whatever comes of it. -/
def Invokes {i : ι} (ctx : Context) (logic : Logic (Commons ι P X) (P i) (E i) L O)
    (mv : Move (Commons ι P X)) : Prop :=
  mv.after = (logic ctx (mv.before.cell i).visible.projection mv.before).2

/-- The moves of a transaction that assumes a version, as far as it has come, and the runs of its
method among them. -/
inductive Tries (logic : Logic (Commons ι P X) (P i) (E i) L O) :
    Version → List (Move (Commons ι P X)) → List (Move (Commons ι P X)) → Prop where
  | begun (v : Version) : Tries logic v [] []
  /-- It looks whether it was interrupted. -/
  | looked (v : Version) (w : Commons ι P X) : Tries logic v [⟨w, w⟩] []
  /-- It runs its method. -/
  | ran (v : Version) (w : Commons ι P X) {run : Move (Commons ι P X)}
      (invokes : Invokes ctx logic run) : Tries logic v [⟨w, w⟩, run] [run]
  /-- It puts its entries at the end of a log that is as long as it assumed. -/
  | pushed {v : Version} {n : Nat} {texts : List String} (w : Commons ι P X)
      {run push : Move (Commons ι P X)} (invokes : Invokes ctx logic run)
      (position : v.offset? = some n) (pushes : Pushes n texts push) :
      Tries logic v [⟨w, w⟩, run, push] [run]
  /-- It came too late and is about to take in what it lacks, or has failed to. -/
  | late {v : Version} {n : Nat} (w : Commons ι P X) {w₁ : Commons ι P X}
      {run : Move (Commons ι P X)} {resync : List (Move (Commons ι P X))}
      {left : Fiber (Commons ι P X) (Except (SyncError (ε i)) Version)}
      (invokes : Invokes ctx logic run) (position : v.offset? = some n) (late : w₁.log.size ≠ n)
      (resyncs : ((Request.service party i).syncIn ctx).Leads resync left) :
      Tries logic v (⟨w, w⟩ :: run :: ⟨w₁, w₁⟩ :: resync) [run]
  /-- It came too late, has taken in what it lacked, and tries again. -/
  | again {v v' : Version} {n : Nat} (w : Commons ι P X) {w₁ : Commons ι P X}
      {run : Move (Commons ι P X)} {resync moves runs : List (Move (Commons ι P X))}
      (invokes : Invokes ctx logic run) (position : v.offset? = some n) (late : w₁.log.size ≠ n)
      (resyncs : ((Request.service party i).syncIn ctx).Leads resync (.done (.ok v')))
      (later : Tries logic v' moves runs) :
      Tries logic v (⟨w, w⟩ :: run :: ⟨w₁, w₁⟩ :: (resync ++ moves)) (run :: runs)

variable {party i ctx} {logic : Logic (Commons ι P X) (P i) (E i) L O} {m : Contract.Method}
  {moves : List (Move (Commons ι P X))}

theorem Fiber.Leads.ready_of_nil {W α β : Type} {act : W → α × W} {next : α → Fiber W β}
    {q : Fiber W β} (leads : (Fiber.atomic act >>= next).Leads [] q) : q.Ready := by
  cases leads with
  | stay => exact fun _ => rfl

theorem live_resync (memory : Produced O (E i)) :
    (((Request.service party i).attempt ctx m logic).resync memory).Live := by
  refine Fiber.live_bind live_syncIn ?_
  rintro (e | v) <;> exact Fiber.live_pure

/-- A transaction that came too late and catches up, and perhaps goes on to try again. -/
theorem tries_of_resync {α : Type} {rounds n : Nat} {assumed : Version} {memory : Produced O (E i)}
    {w w₁ : Commons ι P X} {run : Move (Commons ι P X)} {q : Fiber (Commons ι P X) α}
    {next : Except (CallFailure L (ε i)) Version × Produced O (E i) → Fiber (Commons ι P X) α}
    (invokes : Invokes ctx logic run) (position : assumed.offset? = some n)
    (late : w₁.log.size ≠ n)
    (leads : (((Request.service party i).attempt ctx m logic).resync memory >>= next).Leads moves q)
    (failed : ∀ failure memory, ∃ a, next (.error failure, memory) = pure a)
    (again : ∀ v memory moves, (next (.ok v, memory)).Leads moves q →
      ∃ runs, Tries party i ctx logic v moves runs ∧ (q.Ready ∨ runs.length = rounds)) :
    ∃ runs, Tries party i ctx logic assumed (⟨w, w⟩ :: run :: ⟨w₁, w₁⟩ :: moves) runs ∧
      (q.Ready ∨ runs.length = rounds + 1) := by
  rcases leads.split with ⟨p', pending, within, rfl⟩ | ⟨r, before, after, within, on, rfl⟩
  · have ready : p'.Ready := live_resync memory moves p' within
    refine ⟨[run], ?_, .inl (ready.bind pending next)⟩
    rcases Fiber.Leads.split within with ⟨_, _, resyncs, _⟩ | ⟨result, _, rest, resyncs, ended, rfl⟩
    · exact .late w invokes position late resyncs
    · rcases result with e | v <;> obtain ⟨rfl, _⟩ := ended.of_done <;> rw [List.append_nil] <;>
        exact .late w invokes position late resyncs
  · obtain ⟨result, before, rest, resyncs, ended, rfl⟩ := Fiber.Leads.parts within
    rcases result with e | v
    · obtain ⟨rfl, same⟩ := ended.of_done
      cases same
      obtain ⟨a, stops⟩ := failed (.refused (.sync e)) memory
      rw [stops] at on
      obtain ⟨rfl, rfl⟩ := on.of_done
      rw [List.append_nil, List.append_nil]
      exact ⟨[run], .late w invokes position late resyncs, .inl trivial⟩
    · obtain ⟨rfl, same⟩ := ended.of_done
      cases same
      obtain ⟨runs, tries, ready⟩ := again v memory after on
      rw [List.append_nil]
      refine ⟨run :: runs, .again w invokes position late resyncs tries, ?_⟩
      exact ready.imp id (congrArg Nat.succ)

/-- What a conditional append has done by the time that it catches up. -/
theorem tries_of_leads {rounds : Nat} {assumed : Version} {memory : Produced O (E i)}
    {q : Fiber (Commons ι P X)
      (Except (Log.AppendFailure (CallFailure L (ε i))) (Option Log.Appended) × Produced O (E i))}
    (leads : (Log.Memory.tryAppend Commons.clockPart Commons.logPart ctx
      ((Request.service party i).attempt ctx m logic) rounds assumed memory).Leads moves q) :
    ∃ runs, Tries party i ctx logic assumed moves runs ∧ (q.Ready ∨ runs.length = rounds) := by
  induction rounds generalizing assumed memory moves with
  | zero =>
      cases leads with
      | stay => exact ⟨[], .begun assumed, .inr rfl⟩
      | move taken => cases taken
  | succ rounds ih =>
      rcases leads.of_atomic with ⟨rfl, _⟩ | ⟨w, moves, rfl, live⟩
      · exact ⟨[], .begun assumed, .inl leads.ready_of_nil⟩
      cases interrupted : ctx.interruption? (Commons.clockPart.get w) with
      | some reason =>
          rw [interrupted] at live
          obtain ⟨rfl, rfl⟩ := live.of_done
          exact ⟨[], .looked assumed w, .inl trivial⟩
      | none =>
          rw [interrupted] at live
          rcases live.of_atomic with ⟨rfl, _⟩ | ⟨w₁, moves, rfl, produced⟩
          · exact ⟨[], .looked assumed w, .inl live.ready_of_nil⟩
          have invokes : Invokes ctx logic ⟨w₁, (((Request.service party i).attempt ctx m
              logic).produce memory w₁).2⟩ := produce_after memory w₁
          generalize (((Request.service party i).attempt ctx m logic).produce memory w₁).1 =
            outcome at produced
          rcases outcome with ⟨failure | _ | payload, memory'⟩
          · obtain ⟨rfl, rfl⟩ := produced.of_done
            exact ⟨[_], .ran assumed w invokes, .inl trivial⟩
          · obtain ⟨rfl, rfl⟩ := produced.of_done
            exact ⟨[_], .ran assumed w invokes, .inl trivial⟩
          dsimp only at produced
          cases split : Log.split payload with
          | error e =>
              rw [split] at produced
              obtain ⟨rfl, rfl⟩ := produced.of_done
              exact ⟨[_], .ran assumed w invokes, .inl trivial⟩
          | ok texts =>
              rw [split, Log.Memory.offsetOf] at produced
              cases position : assumed.offset? with
              | none =>
                  rw [position] at produced
                  obtain ⟨rfl, rfl⟩ := produced.of_done
                  exact ⟨[_], .ran assumed w invokes, .inl trivial⟩
              | some n =>
                  rw [position] at produced
                  dsimp only at produced
                  rcases produced.of_atomic with ⟨rfl, _⟩ | ⟨w₂, moves, rfl, put⟩
                  · exact ⟨[_], .ran assumed w invokes, .inl produced.ready_of_nil⟩
                  by_cases complete : w₂.log.size = n
                  · have pushed : (Commons.logPart.get w₂).pushIf n
                        (Commons.clockPart.get w₂).now texts =
                          ((some (w₂.log.push w₂.clock.now texts).1),
                            (w₂.log.push w₂.clock.now texts).2) := if_pos complete
                    rw [pushed] at put ⊢
                    obtain ⟨rfl, rfl⟩ := put.of_done
                    exact ⟨[_], .pushed w invokes position ⟨complete, rfl⟩, .inl trivial⟩
                  · have missed : (Commons.logPart.get w₂).pushIf n
                        (Commons.clockPart.get w₂).now texts = (none, w₂.log) := if_neg complete
                    rw [missed] at put ⊢
                    exact tries_of_resync invokes position complete put
                      (fun failure memory => ⟨_, rfl⟩) fun v memory moves => ih

/-! ## How many runs there are -/

def logSize (w : Commons ι P X) : Nat :=
  w.log.size

def lengthens (mv : Move (Commons ι P X)) : Bool :=
  logSize mv.before < logSize mv.after

def versionGiven (i : ι) (run : Move (Commons ι P X)) : Version :=
  (run.before.cell i).visible.version.getD (.ofNat 0)

/-- Runs each of which is given a later version than the one before. -/
def Ascending (i : ι) (runs : List (Move (Commons ι P X))) : Prop :=
  runs.IsChain fun run run' =>
    ∃ n n', (versionGiven i run).Denotes n ∧ (versionGiven i run').Denotes n' ∧ n < n'

theorem logSize_le {w w' : Commons ι P X} (grown : w.log.records <+: w'.log.records) :
    logSize w ≤ logSize w' :=
  grown.length_le

section Bound

variable {c s : Snapshot (P i)} {w w' : Commons ι P X} {h' : Hold ι} {v : Version} {n : Nat}
  {tail runs : List (Move (Commons ι P X))}

/-- A run of a civil method leaves the draft as it is. -/
theorem Writer.invoke {run : Move (Commons ι P X)} (polite : Civil logic)
    (writer : Writer party i c s w (run :: moves) h' w') (invokes : Invokes ctx logic run) :
    (run.before.cell i).visible = s ∧ logSize w ≤ logSize run.before ∧
      logSize run.before ≤ logSize run.after ∧ Writer party i c s run.after moves h' w' := by
  obtain ⟨found, grown, on⟩ := writer.next
  obtain ⟨longer, cell⟩ := polite ctx (run.before.cell i).visible.projection run.before
  rw [← invokes] at longer cell
  exact ⟨by rw [found]; rfl, logSize_le grown, logSize_le longer, on s (cell ▸ found)⟩

/-- How a transaction stands that has caught up: its version is that of the log as it was when
it looked, and if the log has grown since it can be told from a gap between its moves. -/
theorem caught_up {resync : List (Move (Commons ι P X))}
    (writer : Writer party i c s w (resync ++ tail) h' w') (position : s.position? = some n)
    (within : n ≤ logSize w)
    (resyncs : ((Request.service party i).syncIn ctx).Leads resync (.done (.ok v))) :
    ∃ k draft, v = draft.version.getD (.ofNat 0) ∧ v.Denotes k ∧ logSize w ≤ k ∧
      k ≤ logSize (stateAfter w resync) ∧
      (if k < logSize (stateAfter w resync) then 1 else 0) ≤ Pool.gaps logSize w resync ∧
        Writer party i c draft (stateAfter w resync) tail h' w' := by
  obtain ⟨read, scan, shown, rfl, grown, since, progresses⟩ := progress_of_syncIn writer resyncs
  have before : logSize w ≤ scan.before.log.size := logSize_le grown
  obtain ⟨draft, progress, quiet, after⟩ := progresses n position (within.trans before)
  refine ⟨scan.before.log.size, draft, ?_⟩
  generalize looks ctx shown = seen at progress
  cases progress with
  | complete _ _ reached =>
      refine ⟨rfl, reached, before, logSize_le since, ?_, after⟩
      have same : logSize scan.after = scan.before.log.size :=
        congrArg Log.Memory.size (quiet scan (by simp))
      have later : ∀ mv ∈ shown, logSize mv.after = logSize mv.before :=
        fun mv member => congrArg Log.Memory.size (quiet mv (by simp [member]))
      have counted := Pool.grown_le_gaps (w := scan.after) later
      rw [same] at counted
      rw [Pool.gaps, Pool.gaps]
      exact counted.trans (by omega)

theorem single_run {run : Move (Commons ι P X)} (given : (run.before.cell i).visible = s)
    (recorded : v = s.version.getD (.ofNat 0)) (more : Nat) :
    [run].length ≤ 1 + more + [run].countP lengthens ∧ Ascending i [run] ∧
      ∀ run' ∈ [run].head?, versionGiven i run' = v := by
  refine ⟨?_, .singleton _, fun run' first => ?_⟩
  · rw [List.length_singleton]
    omega
  · cases first
    rw [versionGiven, given, recorded]

/-- Each run but the first is owed to something that was appended since the log was looked at
before: by somebody else between two moves of the transaction, or in the course of a run. -/
theorem tries_le (polite : Civil logic) (tries : Tries party i ctx logic v moves runs)
    (writer : Writer party i c s w (moves ++ tail) h' w')
    (recorded : v = s.version.getD (.ofNat 0)) (denotes : v.Denotes n) (within : n ≤ logSize w) :
    runs.length ≤ 1 + ((if n < logSize w then 1 else 0) + Pool.gaps logSize w moves) +
        runs.countP lengthens ∧
      Ascending i runs ∧ ∀ run ∈ runs.head?, versionGiven i run = v := by
  induction tries generalizing s w n with
  | begun v => exact ⟨Nat.zero_le _, .nil, fun run member => by cases member⟩
  | looked v w => exact ⟨Nat.zero_le _, .nil, fun run member => by cases member⟩
  | ran v w₀ invokes => exact single_run (writer.look.2.invoke polite invokes).1 recorded _
  | pushed w₀ invokes => exact single_run (writer.look.2.invoke polite invokes).1 recorded _
  | late w₀ invokes => exact single_run (writer.look.2.invoke polite invokes).1 recorded _
  | @again v v' m w₀ w₁ run resync moves runs invokes position late resyncs later ih =>
      obtain rfl := denotes.eq_of_offset? position
      have offset : s.position? = some m := by
        rw [Snapshot.position?, ← recorded]
        exact position
      obtain ⟨grown₀, looked⟩ := writer.look
      obtain ⟨given, size₁, size₂, ran⟩ := looked.invoke polite invokes
      obtain ⟨grown₃, missed⟩ := ran.look
      have missed : Writer party i c s w₁ (resync ++ (moves ++ tail)) h' w' := by
        rw [← List.append_assoc]
        exact missed
      have size₀ := logSize_le grown₀
      have size₃ := logSize_le grown₃
      obtain ⟨k, draft, recorded', denotes', beyond, within', gap, caught⟩ :=
        caught_up missed offset (by omega) resyncs
      obtain ⟨bound, ascending, first⟩ := ih caught recorded' denotes' within'
      -- The attempt was vain because the log had become longer than it was assumed to be.
      have longer : m < logSize w₁ := Nat.lt_of_le_of_ne (by omega) (Ne.symm late)
      refine ⟨?_, ?_, ?_⟩
      · have owed : 1 ≤ (if m < logSize w then 1 else 0) +
            (if logSize w < logSize w₀ then 1 else 0) +
            (if logSize w₀ < logSize run.before then 1 else 0) +
            (if lengthens run then 1 else 0) + if logSize run.after < logSize w₁ then 1 else 0 := by
          have total := Pool.grown_le_add m (logSize w) (logSize w₁)
          have reading := Pool.grown_le_add (logSize w) (logSize w₀) (logSize w₁)
          have looking := Pool.grown_le_add (logSize w₀) (logSize run.before) (logSize w₁)
          have running := Pool.grown_le_add (logSize run.before) (logSize run.after) (logSize w₁)
          rw [if_pos longer] at total
          simp only [lengthens, decide_eq_true_eq]
          omega
        rw [Pool.gaps, Pool.gaps, Pool.gaps, Pool.gaps_append, List.countP_cons, List.length_cons]
        dsimp only
        omega
      · have now : versionGiven i run = v := by
          rw [versionGiven, given, recorded]
        cases runs with
        | nil => exact .singleton _
        | cons run' runs =>
            refine List.isChain_cons_cons.2 ⟨⟨m, k, now ▸ denotes, ?_, by omega⟩, ascending⟩
            rw [first run' rfl]
            exact denotes'
      · rintro run' same
        cases same
        rw [versionGiven, given, recorded]

end Bound

/-! ## Whole transactions -/

/-- What a transaction has done since it began to write: it reads the version of its draft, tries
to append, and ends. -/
theorem tries_of_transact {keep : Except (CallFailure L (ε i)) (Emitted O (E i)) → Bool}
    {inside : List (Move (Commons ι P X))}
    {q : Fiber (Commons ι P X) (Except (CallFailure L (ε i)) (Emitted O (E i)))}
    (leads : ((Request.service party i).transact ctx m logic >>= fun result =>
      (Request.service party i).finish (keep result) >>= fun _ => pure result).Leads inside q) :
    (inside = [] ∧ q.Pending ∧ q.Ready) ∨
      ∃ w tried ending runs, inside = ⟨w, w⟩ :: (tried ++ ending) ∧
      ending.length ≤ 1 ∧
        Tries party i ctx logic ((w.cell i).visible.version.getD (.ofNat 0)) tried runs ∧
          (q.Ready ∨ runs.length = (party i).rounds) := by
  rw [Service.transact, bind_assoc] at leads
  rcases leads.of_atomic with ⟨rfl, pending⟩ | ⟨w, moves, rfl, reading⟩
  · exact .inl ⟨rfl, pending, leads.ready_of_nil⟩
  have version : (Request.service party i).store.version w = .ok (w.cell i).visible.version := rfl
  rw [version] at reading
  dsimp only at reading
  rw [versionOrOrigin_eq, pure_bind, bind_assoc] at reading
  refine .inr ⟨w, ?_⟩
  rcases reading.split with ⟨p', pending, within, rfl⟩ | ⟨r, tried, ending, within, on, rfl⟩
  · obtain ⟨runs, tries, ready⟩ := tries_of_leads within
    refine ⟨moves, [], runs, by rw [List.append_nil], Nat.zero_le _, tries, ?_⟩
    exact ready.imp_left fun ready => ready.bind pending _
  · obtain ⟨runs, tries, -⟩ := tries_of_leads within
    obtain ⟨result, ended⟩ : ∃ result, ((Request.service party i).finish (keep result) >>= fun _ =>
        pure result).Leads ending q := by
      match r, on with
      | (.error (.attempt e), _), on => exact ⟨_, on⟩
      | (.error (.log e), _), on => exact ⟨_, on⟩
      | (.error (.interrupted reason), _), on => exact ⟨_, on⟩
      | (.ok _, none), on => exact ⟨_, on⟩
      | (.ok appended, some (output, events)), on => exact ⟨_, on⟩
    refine ⟨tried, ending, runs, rfl, ?_, tries, ?_⟩
    · rcases ended.of_atomic with ⟨rfl, _⟩ | ⟨_, later, rfl, last⟩
      · exact Nat.zero_le _
      · obtain ⟨rfl, _⟩ := last.of_done
        exact Nat.le_refl _
    · exact .inl (Fiber.live_bind Fiber.live_atomic (fun _ => Fiber.live_pure) _ _ ended)

/-- The runs of a transaction's method among the moves since it has read the version `v`; its
last move may be the one that ends it. -/
def Retried (party : (i : ι) → Party (P i) (E i) (ε i)) (i : ι) (ctx : Context)
    (logic : Logic (Commons ι P X) (P i) (E i) L O) (v : Version)
    (rest runs : List (Move (Commons ι P X))) : Prop :=
  ∃ tried ending, rest = tried ++ ending ∧ ending.length ≤ 1 ∧
    Tries party i ctx logic v tried runs

/-- A call of a transaction at its place among all calls, and what is left of it. -/
def Transacting (party : (i : ι) → Party (P i) (E i) (ε i)) (pool : Request.Traffic ι P E ε X)
    (k : Nat) (i : ι) (ctx : Context) (name : String)
    (logic : Logic (Commons ι P X) (P i) (E i) L O) (moves : List (Move (Commons ι P X)))
    (left : Fiber (Commons ι P X) (Except (CallFailure L (ε i)) (Emitted O (E i)))) : Prop :=
  pool.tasks[k]? = some ⟨.transaction i ctx name logic, moves, left⟩ ∨
    (party i).Declares name .transaction ∧
      pool.tasks[k]? = some ⟨.call i ctx name logic, moves, left⟩

/-- What limits a transaction, the `k`-th of all calls, that found `s₀` in its store when it began
to write, after the moves `led`.  The first of its moves `inside` reads the version.  By any time
after its last move it has run its method once, once more if the log was longer than that version
when it was read, and once more for each move since by which the log has become longer. -/
def Limited (party : (i : ι) → Party (P i) (E i) (ε i)) (made : List (Nat × Move (Commons ι P X)))
    (k : Nat) (i : ι) (ctx : Context) (logic : Logic (Commons ι P X) (P i) (E i) L O)
    (s₀ : Snapshot (P i)) (led inside : List (Move (Commons ι P X)))
    (left : Fiber (Commons ι P X) (Except (CallFailure L (ε i)) (Emitted O (E i)))) : Prop :=
  ∃ w rest earlier later, inside = ⟨w, w⟩ :: rest ∧ made = earlier ++ (k, ⟨w, w⟩) :: later ∧
    Pool.ownMoves k earlier = led ∧ Pool.ownMoves k later = rest ∧
    (∃ runs, Retried party i ctx logic (s₀.version.getD (.ofNat 0)) rest runs ∧
      (left.Ready ∨ runs.length = (party i).rounds)) ∧
    ∀ runs n, Retried party i ctx logic (s₀.version.getD (.ofNat 0)) rest runs →
      s₀.position? = some n → n ≤ logSize w →
        Ascending i runs ∧ ∀ window since, later = window ++ since → Pool.ownMoves k since = [] →
          runs.length ≤ 1 + (if n = logSize w then 0 else 1) +
            ((Pool.otherMoves k window).countP lengthens + runs.countP lengthens)

section Calls

variable {allowed : Request ι P E ε X → Prop} {outside : Commons ι P X → Commons ι P X → Prop}
  {start : Commons ι P X} {pool : Request.Traffic ι P E ε X} {k : Nat} {name : String}
  {left : Fiber (Commons ι P X) (Except (CallFailure L (ε i)) (Emitted O (E i)))}

/-- How such a call got where it is: it was refused at once, or it runs its method inside a
transaction. -/
theorem Transacting.leads (transacting : Transacting party pool k i ctx name logic moves left)
    (reachable : Pool.Reachable (Request.answer party) allowed outside start pool) :
    (moves = [] ∧ ∃ failure, left = .done (.error failure)) ∨
      ∃ m, ((Request.service party i).runTransaction ctx m logic).Leads moves left := by
  rcases transacting with found | ⟨⟨m, declared, kind⟩, found⟩
  · have leads := Pool.leads_of_reachable reachable _ (List.mem_of_getElem? found)
    change ((Request.service party i).transaction ctx name logic).Leads moves left at leads
    unfold Service.transaction at leads
    split at leads
    · obtain ⟨rfl, rfl⟩ := leads.of_done
      exact .inl ⟨rfl, _, rfl⟩
    · exact .inr ⟨_, leads⟩
  · have leads := Pool.leads_of_reachable reachable _ (List.mem_of_getElem? found)
    change ((Request.service party i).call ctx name logic).Leads moves left at leads
    have same : (Request.service (X := X) party i).contract.method? name = some m := declared
    unfold Service.call at leads
    rw [same] at leads
    dsimp only at leads
    rw [kind] at leads
    exact .inr ⟨m, leads⟩

/-- The task that such a call is. -/
theorem Transacting.task (transacting : Transacting party pool k i ctx name logic moves left) :
    ∃ task, pool.tasks[k]? = some task ∧ task.moves = moves ∧
      (task.request.Civil → Civil logic) := by
  rcases transacting with found | ⟨_, found⟩
  · exact ⟨_, found, rfl, fun polite => polite⟩
  · exact ⟨_, found, rfl, fun polite => polite⟩

/-- Between a state in which the log was looked at and any later time, all gaps between the moves
of a call are owed to others. -/
theorem gaps_le_of_history (polite : ∀ r, allowed r → r.Civil)
    (outer : ∀ w w', outside w w' → Outside w w')
    (free : ∀ i, (start.cell i).readers = 0 ∧ (start.cell i).draft = none)
    {earlier window since : List (Nat × Move (Commons ι P X))} {mv : Move (Commons ι P X)}
    (history : Pool.History (Request.answer party) allowed outside start
      (earlier ++ (k, mv) :: (window ++ since)) pool) :
    Pool.gaps logSize mv.after (Pool.ownMoves k window) ≤
      (Pool.otherMoves k window).countP lengthens := by
  have adjoins : (earlier ++ (k, mv) :: (window ++ since)).IsChain (Pool.Adjoins logSize) :=
    (history.adjoins fun w w' happened => congrArg Log.Memory.size (outer w w' happened).1).1
  have within : ((k, mv) :: window).IsChain (Pool.Adjoins logSize) := by
    have from_ := (List.isChain_append.1 adjoins).2.1
    rw [← List.cons_append] at from_
    exact (List.isChain_append.1 from_).1
  refine Pool.gaps_le_growths within fun e member => ?_
  obtain ⟨task, present, done⟩ := history.mem_moves e (by simp [member])
  obtain ⟨w, h, chain⟩ := chain_of_civil polite outer free history.reachable task present
  exact logSize_le (grown_of_chain chain e.2 done)

end Calls

/-- A transaction, whatever its method does and whether it has ended or not, has run its method
once, once more if its projection was not up to date when it read its version, and once more for
each move since then by which somebody else, or the method itself while it ran, has appended to
the log.  Each run is given a later version than the one before.  The call can always take its
next step, unless it has tried as often as it may. -/
theorem runs_bounded_by_appends {allowed : Request ι P E ε X → Prop}
    {outside : Commons ι P X → Commons ι P X → Prop} {start : Commons ι P X}
    {pool : Request.Traffic ι P E ε X} {made : List (Nat × Move (Commons ι P X))} {k : Nat}
    {i : ι} {ctx : Context} {name : String} {logic : Logic (Commons ι P X) (P i) (E i) L O}
    {moves : List (Move (Commons ι P X))}
    {left : Fiber (Commons ι P X) (Except (CallFailure L (ε i)) (Emitted O (E i)))}
    (polite : ∀ r, allowed r → r.Civil) (outer : ∀ w w', outside w w' → Outside w w')
    (free : ∀ i, (start.cell i).readers = 0 ∧ (start.cell i).draft = none)
    (history : Pool.History (Request.answer party) allowed outside start made pool)
    (transacting : Transacting party pool k i ctx name logic moves left) :
    (Idle moves ∧ ∀ emitted, left ≠ .done (.ok emitted)) ∨
      ∃ s₀ before taking inside, moves = before ++ taking :: inside ∧ Idle before ∧
        Taking i s₀ taking ∧ (inside = [] ∧ left.Pending ∧ left.Ready ∨
          Limited party made k i ctx logic s₀ (before ++ [taking]) inside left) := by
  have reachable := history.reachable
  rcases transacting.leads reachable with ⟨rfl, failure, rfl⟩ | ⟨m, leads⟩
  · exact .inl ⟨fun mv member => (List.not_mem_nil member).elim, fun emitted same => by cases same⟩
  obtain ⟨task, found, rfl, civil⟩ := transacting.task
  have member := List.mem_of_getElem? found
  have civil := civil (polite _ (reachable.allowed task member))
  obtain ⟨w₀, h, chain⟩ := chain_of_civil polite outer free reachable task member
  rcases began_of_leads leads with ⟨idle, pending⟩ | ⟨reason, before, after, same, idle, on⟩ |
    ⟨s₀, before, taking, inside, same, idle, took, on⟩
  · exact .inl ⟨idle, fun emitted => pending.ne_done _⟩
  · obtain ⟨rfl, rfl⟩ := on.of_done
    rw [same, List.append_nil]
    exact .inl ⟨idle, fun emitted same => by cases same⟩
  refine .inr ⟨s₀, before, taking, inside, same, idle, took, ?_⟩
  rw [same] at chain
  have writer := writer_of_chain outer took chain
  rcases tries_of_transact on with ⟨rfl, pending, ready⟩ |
    ⟨w, tried, ending, runs, rfl, last, tries, ready⟩
  · exact .inl ⟨rfl, pending, ready⟩
  have own := history.moves found
  rw [same, ← List.singleton_append, ← List.append_assoc] at own
  obtain ⟨earlier, later, rfl, led, rest⟩ := Pool.cut_at_move own
  obtain ⟨_, reading⟩ := writer.look
  have version : (w.cell i).visible.version = s₀.version := by
    rw [reading.cell]
    rfl
  rw [version] at tries
  have retried : Retried party i ctx logic (s₀.version.getD (.ofNat 0)) (tried ++ ending) runs :=
    ⟨tried, ending, rfl, last, tries⟩
  refine .inr ⟨w, _, earlier, later, rfl, rfl, led, rest, ⟨runs, retried, ready⟩, ?_⟩
  rintro runs n ⟨tried, ending, parts, -, tries⟩ position within
  rw [parts] at reading rest
  obtain ⟨bound, ascending, -⟩ := tries_le civil tries reading rfl (.inr position) within
  refine ⟨ascending, ?_⟩
  rintro window since rfl quiet
  have owed := gaps_le_of_history polite outer free history
  rw [Pool.ownMoves_append, quiet, List.append_nil] at rest
  rw [rest, Pool.gaps_append] at owed
  dsimp only at owed
  have stale : (if n < logSize w then 1 else 0) = if n = logSize w then 0 else 1 := by
    split <;> split <;> omega
  omega

/-- In a room with two gates, the overtaken gate has not decided more often than it had to. -/
theorem overtaken_runs_bounded : ∃ made k moves emitted s₀ before taking w rest earlier later runs,
    Pool.History (Request.answer Room.gate) Room.Wanted (fun _ _ => False) Room.empty made
        Room.crowded ∧
      Transacting Room.gate Room.crowded k true ⟨0, none⟩ "enter" (Room.entry true) moves
        (.done (.ok emitted)) ∧
      Taking true s₀ taking ∧ moves = before ++ taking :: ⟨w, w⟩ :: rest ∧
      made = earlier ++ (k, ⟨w, w⟩) :: later ∧
      Retried Room.gate true ⟨0, none⟩ (Room.entry true) (s₀.version.getD (.ofNat 0)) rest runs ∧
      ∀ n, s₀.position? = some n → n ≤ logSize w →
        Ascending true runs ∧ runs.length ≤ 1 + (if n = logSize w then 0 else 1) +
          ((Pool.otherMoves k later).countP lengthens + runs.countP lengthens) := by
  obtain ⟨made, history⟩ := Pool.exists_history Room.reachable_crowded
  obtain ⟨moves, output, events, appended, ended⟩ := Room.overtaken_enters
  obtain ⟨k, found⟩ := List.getElem?_of_mem ended
  have transacting : Transacting Room.gate Room.crowded k true ⟨0, none⟩ "enter" (Room.entry true)
    moves (.done (.ok ⟨output, events, some appended⟩)) := .inl found
  rcases runs_bounded_by_appends (fun _ wanted => (Room.aloof_of_wanted wanted).civil)
    (fun _ _ impossible => impossible.elim) (fun _ => ⟨rfl, rfl⟩) history transacting with
    ⟨_, unended⟩ | ⟨s₀, before, taking, inside, same, _, took, ⟨_, pending, _⟩ | settled⟩
  · exact absurd rfl (unended _)
  · exact absurd rfl (pending.ne_done _)
  · obtain ⟨w, rest, earlier, later, rfl, cut, _, _, ⟨runs, retried, _⟩, bounded⟩ := settled
    refine ⟨made, k, moves, _, s₀, before, taking, w, rest, earlier, later, runs, history,
      transacting, took, same, cut, retried, fun n position within => ?_⟩
    obtain ⟨ascending, bound⟩ := bounded runs n retried position within
    exact ⟨ascending, bound later [] (List.append_nil later).symm rfl⟩

end EventSourcing
