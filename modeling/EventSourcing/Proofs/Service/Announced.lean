import EventSourcing.Proofs.Log.Scanning
import EventSourcing.Proofs.Service.Exclusion
import EventSourcing.Proofs.Service.Uptake

/-!
# Proofs.Service.Announced -- a synchronization leaves what it announces

Where in the log a synchronization stops, and why, can be told from its result, and so can what
it leaves in its store: the entries before that place, all of them and no others, if they are
kept at all (`Party.Progress`, `Party.Announces`).  A synchronization that was stopped can be
taken up again any number of times and comes to the same end as one that was not
(`Party.Resumed.complete`).
-/

namespace EventSourcing

set_option autoImplicit false
set_option linter.unusedSectionVars false

open EventSourcing.Store (Cell Snapshot)
open Service (SyncError)

def Version.Denotes (v : Version) (n : Nat) : Prop :=
  v = .ofNat n ∨ v.offset? = some n

theorem Version.Denotes.eq_of_offset? {v : Version} {n k : Nat} (denotes : v.Denotes n)
    (read : v.offset? = some k) : k = n := by
  rcases denotes with rfl | same
  · exact eq_of_offset?_ofNat read
  · exact Option.some.inj (read.symm.trans same)

/-! ## How far a synchronization gets -/

namespace Party

variable {P E ε : Type} (q : Party P E ε)

/-- How far a synchronization gets that finds a snapshot at the offset `n` and is shown a log:
what it sees when it looks before each entry whether it was interrupted, its result, and what it
has made of the snapshot. -/
inductive Progress (records : List Log.Record) (n : Nat) (s₀ : Snapshot P) :
    List (Option Interruption) → Except (SyncError ε) Version → Snapshot P → Prop where
  /-- It takes in all entries that there are. -/
  | complete {m : Nat} {s : Snapshot P} (ahead : q.Ahead records s₀ m s)
      (all : n + m = records.length)
      (reached : (s.version.getD (.ofNat 0)).Denotes records.length) :
      Progress records n s₀ (List.replicate m none) (.ok (s.version.getD (.ofNat 0))) s
  /-- It is interrupted before an entry. -/
  | interrupted {m : Nat} {s : Snapshot P} {reason : Interruption}
      (ahead : q.Ahead records s₀ m s) (more : n + m < records.length) :
      Progress records n s₀ (List.replicate m none ++ [some reason])
        (.error (.interrupted reason)) s
  /-- It comes upon an entry that is no event. -/
  | undecodable {m : Nat} {s : Snapshot P} {r : Log.Record} {e : DecodeError}
      (ahead : q.Ahead records s₀ m s) (entry : records[n + m]? = some r)
      (undecodable : q.set.decodeText r.payload = .error e) :
      Progress records n s₀ (List.replicate (m + 1) none)
        (.error (.decode (.ofNat (n + m)) e)) s
  /-- It comes upon an entry whose event is refused. -/
  | refused {m : Nat} {s : Snapshot P} {r : Log.Record} {e : ε} {p : P}
      (ahead : q.Ahead records s₀ m s) (entry : records[n + m]? = some r)
      (refuses : q.Refuses (n + m) r s.projection e p) :
      Progress records n s₀ (List.replicate (m + 1) none) (.error (.store e)) ⟨p, s.version⟩

/-- Whether a synchronization keeps what it has taken in. -/
def keeps (accepts : SyncError ε → Bool) : Except (SyncError ε) Version → Bool
  | .ok _ => true
  | .error e => e.isInterrupted || accepts e

/-- What a synchronization leaves in the place of a snapshot at the offset `n`. -/
def Announces (accepts : SyncError ε → Bool) (records : List Log.Record) (n : Nat)
    (s₀ : Snapshot P) (looks : List (Option Interruption)) (result : Except (SyncError ε) Version)
    (s : Snapshot P) : Prop :=
  ∃ draft, q.Progress records n s₀ looks result draft ∧
    s = if keeps accepts result then draft else s₀

/-! ## Taking up what was left -/

/-- Synchronizations that were stopped, each of which went on from what the one before had left,
in a log that had at most grown.  None of them has kept what an event that was refused had made
of the projection. -/
inductive Resumed (s₀ : Snapshot P) : List Log.Record → Snapshot P → Prop where
  | begun (records : List Log.Record) : Resumed s₀ records s₀
  | again {records records' : List Log.Record} {s s' : Snapshot P} {n : Nat}
      {accepts : SyncError ε → Bool} {looks : List (Option Interruption)} {e : SyncError ε}
      (earlier : Resumed s₀ records s) (grown : records <+: records')
      (position : s.position? = some n)
      (stopped : q.Announces accepts records' n s looks (.error e) s')
      (strict : ∀ refusal, e = .store refusal → accepts e = false) : Resumed s₀ records' s'

variable {q} {records records' : List Log.Record} {s₀ s s' : Snapshot P} {n m m' : Nat}
  {accepts : SyncError ε → Bool} {seen : List (Option Interruption)} {v : Version}

theorem Ahead.replayed (ahead : q.Ahead records s₀ m s) (position : s₀.position? = some n) :
    q.replayFrom n ((records.drop n).take m) s₀.projection = some s.projection := by
  cases m with
  | zero =>
      cases ahead
      rfl
  | succ m =>
      obtain ⟨n', first, _, replayed, _⟩ := ahead
      cases position.symm.trans first
      exact replayed

/-- What has been taken in says how the snapshot is. -/
theorem Ahead.unique (ahead : q.Ahead records s₀ m s) (ahead' : q.Ahead records s₀ m s') :
    s = s' := by
  cases m with
  | zero => exact Eq.trans ahead (Eq.symm ahead')
  | succ m =>
      obtain ⟨n, position, _, replayed, version⟩ := ahead
      have replayed' := ahead'.replayed position
      obtain ⟨n', position', _, _, version'⟩ := ahead'
      cases position.symm.trans position'
      have projection := Option.some.inj (replayed.symm.trans replayed')
      cases s
      cases s'
      cases projection
      cases version
      cases version'
      rfl

/-- One may take in entries in as many goes as one likes. -/
theorem Ahead.trans (ahead : q.Ahead records s₀ m s) (ahead' : q.Ahead records s m' s') :
    q.Ahead records s₀ (m + m') s' := by
  cases m' with
  | zero =>
      cases ahead'
      exact ahead
  | succ m' =>
      obtain ⟨k, reached, within, replayed, version⟩ := ahead'
      obtain ⟨n, position, rfl⟩ := ahead.position reached
      rw [← Nat.add_assoc]
      refine ⟨n, position, by omega, ?_, by rw [version, Nat.add_assoc n]⟩
      have length : ((records.drop n).take m).length = m := by
        rw [List.length_take, List.length_drop]
        omega
      rw [Nat.add_assoc, List.take_add, replayFrom_append, ahead.replayed position, length,
        List.drop_drop]
      exact replayed

/-- What a synchronization leaves is ahead of what it found, unless it has kept what a refused
event had made of the projection. -/
theorem Announces.ahead {result : Except (SyncError ε) Version}
    (announces : q.Announces accepts records n s seen result s')
    (strict : ∀ refusal, result = .error (.store refusal) → accepts (.store refusal) = false) :
    ∃ m, q.Ahead records s m s' := by
  obtain ⟨draft, progress, rfl⟩ := announces
  cases kept : keeps accepts result with
  | false => exact ⟨0, .refl⟩
  | true =>
      rw [if_pos rfl]
      cases progress with
      | complete ahead => exact ⟨_, ahead⟩
      | interrupted ahead => exact ⟨_, ahead⟩
      | undecodable ahead => exact ⟨_, ahead⟩
      | refused => cases kept.symm.trans (strict _ rfl)

theorem Resumed.ahead (resumed : q.Resumed s₀ records s) : ∃ m, q.Ahead records s₀ m s := by
  induction resumed with
  | begun records => exact ⟨0, .refl⟩
  | again _ grown _ stopped strict ih =>
      obtain ⟨m, earlier⟩ := ih
      obtain ⟨m', later⟩ := stopped.ahead fun refusal same => by
        cases same
        exact strict refusal rfl
      exact ⟨m + m', (earlier.mono grown).trans later⟩

/-- A synchronization that has succeeded has taken in all entries. -/
theorem Announces.complete (announces : q.Announces accepts records n s₀ seen (.ok v) s) :
    ∃ m, q.Ahead records s₀ m s ∧ n + m = records.length ∧ v = s.version.getD (.ofNat 0) ∧
      v.Denotes records.length := by
  obtain ⟨draft, progress, rfl⟩ := announces
  cases progress with
  | complete ahead all reached => exact ⟨_, ahead, all, rfl, reached⟩

/-- All synchronizations that succeed after any number of others that were stopped leave the
same, and announce the same version. -/
theorem Announces.unique {seen' : List (Option Interruption)} {v' : Version}
    {accepts' : SyncError ε → Bool}
    (announces : q.Announces accepts records n s₀ seen (.ok v) s)
    (announces' : q.Announces accepts' records n s₀ seen' (.ok v') s') : v = v' ∧ s = s' := by
  obtain ⟨m, ahead, all, rfl, _⟩ := announces.complete
  obtain ⟨m', ahead', all', rfl, _⟩ := announces'.complete
  obtain rfl : m = m' := by omega
  obtain rfl := ahead.unique ahead'
  exact ⟨rfl, rfl⟩

/-- A synchronization that succeeds after any number of others that were stopped leaves what one
would have left that had gone through all entries at once. -/
theorem Resumed.complete (resumed : q.Resumed s₀ records s) (grown : records <+: records')
    (position : s.position? = some n)
    (announces : q.Announces accepts records' n s seen (.ok v) s') :
    ∃ n₀ m, s₀.position? = some n₀ ∧
      q.Announces accepts records' n₀ s₀ (List.replicate m none) (.ok v) s' := by
  obtain ⟨m, earlier⟩ := resumed.ahead
  obtain ⟨m', later, all, rfl, reached⟩ := announces.complete
  obtain ⟨n₀, first, rfl⟩ := earlier.position position
  have whole := (earlier.mono grown).trans later
  exact ⟨n₀, m + m', first, s', .complete whole (by omega) reached, rfl⟩

end Party

/-! ## Going through the entries -/

variable {ι : Type} [DecidableEq ι] {P E ε : ι → Type} {X : Type}
  {party : (i : ι) → Party (P i) (E i) (ε i)} {i : ι} {ctx : Context}

/-- What a call sees that looks whether it was interrupted before each of its other moves. -/
def looks (ctx : Context) : List (Move (Commons ι P X)) → List (Option Interruption)
  | [] => []
  | [look] => [ctx.interruption? look.before.clock]
  | look :: _ :: rest => ctx.interruption? look.before.clock :: looks ctx rest

/-- What a scan means for the synchronization that asked for it. -/
def Service.scanned {ε : Type} :
    Option (Log.ScanFailure (SyncError ε)) × Version → Except (SyncError ε) Version
  | (none, reached) => .ok reached
  | (some (.log e), reached) => if e.isOutOfBound then .ok reached else .error (.log e)
  | (some (.visitor e), _) => .error e
  | (some (.interrupted reason), _) => .error (.interrupted reason)

section Moves

variable {records rs : List Log.Record} {n m : Nat} {c s₀ s : Snapshot (P i)} {h' : Hold ι}
  {w w' : Commons ι P X} {moves tail : List (Move (Commons ι P X))} {reached : Version}

theorem looks_none (m : Nat) (seen : List (Option Interruption)) :
    List.replicate m none ++ none :: seen = List.replicate (m + 1) none ++ seen := by
  rw [List.replicate_succ', List.append_assoc]
  rfl

/-- The entries are shown in order, and the draft goes with them until one of them stops it. -/
theorem progress_of_visit {result : Option (Log.ScanFailure (SyncError (ε i))) × Version}
    (position : s₀.position? = some n) (ahead : (party i).Ahead records s₀ m s)
    (within : n + m ≤ records.length) (shown : records.drop (n + m) = rs)
    (recorded : reached = s.version.getD (.ofNat 0))
    (writer : Writer party i c s w (moves ++ tail) h' w')
    (leads : (Log.Memory.visit Commons.clockPart ctx (Request.service party i).takeIn
      (Log.Memory.entriesAt (n + m) rs) reached).Leads moves (.done result)) :
    ∃ draft, (party i).Progress records n s₀ (List.replicate m none ++ looks ctx moves)
        (Service.scanned result) draft ∧
      Quiet moves ∧ Writer party i c draft (stateAfter w moves) tail h' w' := by
  induction rs generalizing m s w moves reached with
  | nil =>
      obtain ⟨rfl, same⟩ := leads.of_done
      cases same
      have all : n + m = records.length := Nat.le_antisymm within (List.drop_eq_nil_iff.1 shown)
      refine ⟨s, ?_, quiet_nil, writer⟩
      rw [looks, List.append_nil, Service.scanned, recorded]
      refine .complete ahead all ?_
      cases m with
      | zero =>
          cases ahead
          exact .inr (all ▸ position)
      | succ m =>
          obtain ⟨n', first, _, _, version⟩ := ahead
          cases position.symm.trans first
          rw [version]
          exact .inl (congrArg Version.ofNat all)
  | cons r rest ih =>
      rw [Log.Memory.entriesAt, Log.Memory.visit] at leads
      obtain ⟨w₁, moves, rfl, live⟩ := leads.first
      obtain ⟨-, looked⟩ := writer.look
      have entry : records[n + m]? = some r := by
        rw [← List.head?_drop, shown]
        rfl
      have more : n + m < records.length := (List.getElem?_eq_some_iff.1 entry).1
      cases interrupted : ctx.interruption? (Commons.clockPart.get w₁) with
      | some reason =>
          have saw : looks ctx [(⟨w₁, w₁⟩ : Move (Commons ι P X))] = [some reason] :=
            congrArg (fun seen => [seen]) interrupted
          rw [interrupted] at live
          obtain ⟨rfl, same⟩ := live.of_done
          cases same
          refine ⟨s, ?_, quiet_nil.concat rfl, looked⟩
          rw [saw]
          exact .interrupted ahead more
      | none =>
          have saw (taking : Move (Commons ι P X)) (later : List (Move (Commons ι P X))) :
              List.replicate m none ++ looks ctx (⟨w₁, w₁⟩ :: taking :: later) =
                List.replicate (m + 1) none ++ looks ctx later := by
            have now : ctx.interruption? w₁.clock = none := interrupted
            rw [looks, now, looks_none]
          rw [interrupted] at live
          obtain ⟨w₂, moves, rfl, taking⟩ := live.first
          obtain ⟨found, -, on⟩ := looked.next
          have cell : w₂.cell i = ⟨c, 0, some s⟩ := found
          rcases takeIn_cases cell (n + m) r reached with
            ⟨p, taken, step⟩ | ⟨-, ⟨e, undecodable, step⟩ | ⟨e, p, refuses, step⟩⟩ <;>
            rw [step] at taking on ⊢
          · -- The entry is taken in, and the rest is shown.
            have next := ahead.next position entry taken
            have later : records.drop (n + m + 1) = rest := by
              rw [← List.tail_drop, shown]
              rfl
            obtain ⟨draft, progress, quiet, after⟩ :=
              ih next more later rfl (on _ (cell_redrafted cell _)) taking
            rw [saw]
            exact ⟨draft, progress, (quiet.cons rfl).cons rfl, after⟩
          · obtain ⟨rfl, same⟩ := taking.of_done
            cases same
            refine ⟨s, ?_, (quiet_nil.concat rfl).concat rfl, on s cell⟩
            rw [saw, looks, List.append_nil]
            exact .undecodable ahead entry undecodable
          · obtain ⟨rfl, same⟩ := taking.of_done
            cases same
            refine ⟨_, ?_, (quiet_nil.concat rfl).concat rfl, on _ (cell_redrafted cell _)⟩
            rw [saw, looks, List.append_nil]
            exact .refused ahead entry refuses

/-- A transaction that writes reads the version of its draft, looks which entries there are, and
then goes through those after the version. -/
theorem progress_of_syncIn {result : Except (SyncError (ε i)) Version}
    (writer : Writer party i c s w (moves ++ tail) h' w')
    (leads : ((Request.service party i).syncIn ctx).Leads moves (.done result)) :
    ∃ read scan shown, moves = read :: scan :: shown ∧
      w.log.records <+: scan.before.log.records ∧
      scan.before.log.records <+: (stateAfter w moves).log.records ∧
      ∀ n, s.position? = some n → n ≤ scan.before.log.size → ∃ draft,
        (party i).Progress scan.before.log.records n s (looks ctx shown) result draft ∧
          Quiet moves ∧ Writer party i c draft (stateAfter w moves) tail h' w' := by
  obtain ⟨w₁, moves, rfl, reading⟩ := leads.first
  obtain ⟨grown, looked⟩ := writer.look
  have version : (Request.service party i).store.version w₁ = .ok s.version :=
    congrArg (fun c : Cell (P i) => Except.ok c.visible.version) looked.cell
  rw [version] at reading
  dsimp only at reading
  rw [versionOrOrigin_eq, pure_bind] at reading
  obtain ⟨⟨failure, reached⟩, scanning, after, led, on, rfl⟩ := reading.parts
  have ended : after = [] ∧ result = Service.scanned (failure, reached) := by
    match failure, on with
    | none, on =>
        obtain ⟨rfl, same⟩ := on.of_done
        cases same
        exact ⟨rfl, rfl⟩
    | some (.visitor e), on =>
        obtain ⟨rfl, same⟩ := on.of_done
        cases same
        exact ⟨rfl, rfl⟩
    | some (.interrupted reason), on =>
        obtain ⟨rfl, same⟩ := on.of_done
        cases same
        exact ⟨rfl, rfl⟩
    | some (.log e), on =>
        dsimp only at on
        cases outside : e.isOutOfBound <;> rw [outside] at on <;>
          obtain ⟨rfl, same⟩ := on.of_done <;> cases same
        · exact ⟨rfl, (if_neg (by simp [outside])).symm⟩
        · exact ⟨rfl, (if_pos outside).symm⟩
  obtain ⟨rfl, rfl⟩ := ended
  obtain ⟨w₂, shown, rfl, going⟩ := led.first
  rw [List.append_nil] at looked ⊢
  obtain ⟨grown', scanned⟩ := looked.look
  have since : w₂.log.records <+: (stateAfter w₂ shown).log.records :=
    grown_stateAfter scanned.chain
  refine ⟨_, _, shown, rfl, grown.trans grown', since, fun n position within => ?_⟩
  have offset : (s.version.getD (.ofNat 0)).offset? = some n := position
  simp only [Log.Memory.entriesFrom, Log.Memory.offsetOf, offset] at going
  by_cases atEnd : (Commons.logPart.get w₂).size ≤ n
  · rw [if_pos atEnd] at going
    obtain ⟨rfl, same⟩ := going.of_done
    cases same
    have all : n + 0 = w₂.log.records.length := Nat.le_antisymm within atEnd
    refine ⟨s, .complete .refl all (.inr (all ▸ position)), ?_, scanned⟩
    exact (quiet_nil.concat rfl).concat rfl
  · rw [if_neg atEnd, if_pos trivial] at going
    obtain ⟨draft, progress, quiet, after⟩ :=
      progress_of_visit position .refl within rfl rfl scanned going
    exact ⟨draft, progress, (quiet.cons rfl).cons rfl, after⟩

end Moves

/-! ## Never waiting -/

theorem live_syncIn : ((Request.service (X := X) party i).syncIn ctx).Live := by
  refine Fiber.live_bind Fiber.live_atomic ?_
  rintro (e | recorded)
  · exact Fiber.live_pure
  dsimp only
  rw [versionOrOrigin_eq, pure_bind]
  refine Fiber.live_bind Log.live_scan ?_
  rintro ⟨_ | e | e | reason, reached⟩
  · exact Fiber.live_pure
  · dsimp only
    split <;> exact Fiber.live_pure
  · exact Fiber.live_pure
  · exact Fiber.live_pure

/-! ## Whole synchronizations -/

variable (party) in
/-- How a synchronization has ended that found `s₀` in its store when it began to write and that
has made the moves `inside` since: its store holds what the result announces, which is told from
the entries that there were when it looked, and the log is as it was. -/
def Settles (i : ι) (ctx : Context) (accepts : SyncError (ε i) → Bool) (s₀ : Snapshot (P i))
    (inside : List (Move (Commons ι P X))) (result : Except (SyncError (ε i)) Version) : Prop :=
  ∃ read scan shown ending, inside = read :: scan :: (shown ++ [ending]) ∧
    ∀ n, s₀.position? = some n → n ≤ scan.before.log.size → ∃ s,
      (party i).Announces accepts scan.before.log.records n s₀ (looks ctx shown) result s ∧
        Quiet inside ∧ ending.after.cell i = ⟨s, 0, none⟩

/-- A call that synchronizes a service, and what is left of it. -/
def Synchronizing (pool : Request.Traffic ι P E ε X) (i : ι) (ctx : Context)
    (accepts : SyncError (ε i) → Bool) (moves : List (Move (Commons ι P X)))
    (left : Fiber (Commons ι P X) (Except (SyncError (ε i)) Version)) : Prop :=
  ⟨.syncWith i ctx accepts, moves, left⟩ ∈ pool.tasks ∨
    (accepts = fun _ => false) ∧ ⟨.sync i ctx, moves, left⟩ ∈ pool.tasks

section Calls

variable {α : Type} {moves : List (Move (Commons ι P X))} {q : Fiber (Commons ι P X) α}

/-- A call that has begun to write did nothing before, and a call that has not has done nothing
at all. -/
theorem began_of_leads
    {next : Except Interruption (Except (ε i) Unit) → Fiber (Commons ι P X) α}
    (leads : (ctx.run Commons.clockPart (Fiber.await (Request.service (X := X) party i).store.write)
      >>= next).Leads moves q) :
    (Idle moves ∧ q.Pending) ∨
      (∃ reason before after, moves = before ++ after ∧ Idle before ∧
        (next (.error reason)).Leads after q) ∨
      ∃ s₀ before taking inside, moves = before ++ taking :: inside ∧ Idle before ∧
        Taking i s₀ taking ∧ (next (.ok (.ok ()))).Leads inside q := by
  have idle {moves : List (Move (Commons ι P X))}
      (still : ∀ mv ∈ moves, ∃ c, mv.after = Commons.clockPart.set c mv.before) : Idle moves := by
    intro mv member
    obtain ⟨c, same⟩ := still mv member
    rw [same]
    exact ⟨rfl, rfl⟩
  rcases leads.split with ⟨p', pending, within, rfl⟩ | ⟨began, before, after, within, on, rfl⟩
  · rcases Context.outcome_of_run within with ⟨still, _⟩ | ⟨_, _, _, _, _, _, rfl⟩
    · exact .inl ⟨idle still, pending.bind next⟩
    · exact pending.elim
  · rcases Context.outcome_of_run within with
      ⟨still, failed | ⟨reason, same⟩⟩ | ⟨before, taking, a, rfl, still, taken, same⟩
    · exact failed.elim
    · cases same
      exact .inr (.inl ⟨reason, before, after, rfl, idle still, on⟩)
    · cases same
      change (if (taking.before.cell i).isFree then _ else _) = _ at taken
      split at taken
      · rename_i free
        cases a with
        | error e => cases taken
        | ok done =>
            have took : Taking i (taking.before.cell i).committed taking :=
              ⟨cell_of_isFree free, (congrArg Prod.snd (Option.some.inj taken)).symm⟩
            refine .inr (.inr ⟨_, before, taking, after, ?_, idle still, took, on⟩)
            rw [List.append_assoc]
            rfl
      · cases taken

end Calls

section Writing

variable {s₀ : Snapshot (P i)} {accepts : SyncError (ε i) → Bool} {h' : Hold ι}
  {w w' : Commons ι P X} {moves inside : List (Move (Commons ι P X))}
  {result : Except (SyncError (ε i)) Version}
  {left : Fiber (Commons ι P X) (Except (SyncError (ε i)) Version)}

/-- A synchronization that may write, and that keeps or forgets what it has taken in. -/
theorem settles_of_leads (writer : Writer party i s₀ s₀ w inside h' w')
    (leads : ((Request.service party i).syncIn ctx >>= fun result =>
      (Request.service party i).finish (Party.keeps accepts result) >>= fun _ =>
        pure result).Leads inside (.done result)) :
    Settles party i ctx accepts s₀ inside result := by
  obtain ⟨result, moves, last, within, ending, rfl⟩ := leads.parts
  obtain ⟨w₁, last, rfl, ended⟩ := ending.first
  obtain ⟨rfl, same⟩ := ended.of_done
  cases same
  obtain ⟨read, scan, shown, rfl, -, -, settled⟩ := progress_of_syncIn writer within
  refine ⟨read, scan, shown, _, rfl, fun n position fits => ?_⟩
  obtain ⟨draft, progress, quiet, after⟩ := settled n position fits
  obtain ⟨found, -, -⟩ := after.next
  have cell : w₁.cell i = ⟨s₀, 0, some draft⟩ := found
  refine ⟨_, ⟨draft, progress, rfl⟩, ?_, ?_⟩
  · refine quiet.concat ?_
    dsimp only
    split <;> rfl
  · dsimp only
    cases Party.keeps accepts result with
    | true => exact (Commons.cell_modify_self i Cell.commit w₁).trans (by rw [cell]; rfl)
    | false => exact (Commons.cell_modify_self i Cell.rollback w₁).trans (by rw [cell]; rfl)

/-- How a synchronization stands at any time: it has done nothing, or it has begun to write, and
then it never waits again. -/
theorem stands_of_syncWith {outside : Commons ι P X → Commons ι P X → Prop}
    (outer : ∀ w w', outside w w' → Outside w w') {h : Hold ι}
    (chain : (civil party).Chain h w moves h' w')
    (leads : ((Request.service party i).syncWith ctx accepts).Leads moves left) :
    (Idle moves ∧ ∀ result, left = .done result →
        ∃ reason, result = .error (.interrupted reason)) ∨
      ∃ s₀ before taking inside, moves = before ++ taking :: inside ∧ Idle before ∧
        Taking i s₀ taking ∧ left.Ready ∧
          ∀ result, left = .done result → Settles party i ctx accepts s₀ inside result := by
  rcases began_of_leads leads with ⟨idle, pending⟩ | ⟨reason, before, after, rfl, idle, on⟩ |
    ⟨s₀, before, taking, inside, rfl, idle, took, on⟩
  · exact .inl ⟨idle, fun result ended => absurd ended (pending.ne_done result)⟩
  · obtain ⟨rfl, rfl⟩ := on.of_done
    rw [List.append_nil]
    refine .inl ⟨idle, fun result ended => ?_⟩
    cases ended
    exact ⟨reason, rfl⟩
  · have live : ((Request.service (X := X) party i).syncIn ctx >>= fun result =>
        (Request.service party i).finish (Party.keeps accepts result) >>= fun _ =>
          pure result).Live :=
      Fiber.live_bind live_syncIn fun _ => Fiber.live_bind Fiber.live_atomic fun _ =>
        Fiber.live_pure
    refine .inr ⟨s₀, before, taking, inside, rfl, idle, took, live inside left on, ?_⟩
    rintro result rfl
    exact settles_of_leads (writer_of_chain outer took chain) on

end Writing

/-- Once a synchronization has begun to write to its store it can always take its next step,
whatever others do to the log meanwhile, and in the end its store holds what the result
announces: all entries after those that it held before, or those before the first entry that
could not be processed, or what it held before.  Synchronizations that were stopped and taken up
again, any number of times, leave the same in the end as one that was not stopped. -/
theorem sync_leaves_announced {allowed : Request ι P E ε X → Prop}
    {outside : Commons ι P X → Commons ι P X → Prop} {start : Commons ι P X}
    {pool : Request.Traffic ι P E ε X} (polite : ∀ r, allowed r → r.Civil)
    (outer : ∀ w w', outside w w' → Outside w w')
    (free : ∀ i, (start.cell i).readers = 0 ∧ (start.cell i).draft = none)
    (reachable : Pool.Reachable (Request.answer party) allowed outside start pool) :
    (∀ i ctx accepts moves left, Synchronizing pool i ctx accepts moves left →
      (Idle moves ∧ ∀ result, left = .done result →
          ∃ reason, result = .error (.interrupted reason)) ∨
        ∃ s₀ before taking inside, moves = before ++ taking :: inside ∧ Idle before ∧
          Taking i s₀ taking ∧ left.Ready ∧
            ∀ result, left = .done result → Settles party i ctx accepts s₀ inside result) ∧
    ∀ i records records' s₀ s s' n accepts seen v, (party i).Resumed s₀ records s →
      records <+: records' → s.position? = some n →
        (party i).Announces accepts records' n s seen (.ok v) s' →
          ∃ n₀, s₀.position? = some n₀ ∧
            (∃ m, (party i).Announces accepts records' n₀ s₀ (List.replicate m none) (.ok v) s') ∧
            ∀ accepts₁ seen₁ v₁ s₁,
              (party i).Announces accepts₁ records' n₀ s₀ seen₁ (.ok v₁) s₁ → v₁ = v ∧ s₁ = s' := by
  constructor
  · rintro i ctx accepts moves left (asked | ⟨rfl, asked⟩)
    · obtain ⟨w, h, chain⟩ := chain_of_civil polite outer free reachable _ asked
      exact stands_of_syncWith outer chain (Pool.leads_of_reachable reachable _ asked)
    · obtain ⟨w, h, chain⟩ := chain_of_civil polite outer free reachable _ asked
      exact stands_of_syncWith outer chain (Pool.leads_of_reachable reachable _ asked)
  · intro i records records' s₀ s s' n accepts seen v resumed grown position announces
    obtain ⟨n₀, m, first, whole⟩ := resumed.complete grown position announces
    exact ⟨n₀, first, ⟨m, whole⟩, fun _ _ _ _ other => other.unique whole⟩

/-! ## An entry that stands in the way -/

namespace Room

/-- Someone writes into the log by hand that a person has entered, and then nonsense. -/
def scribble : Asked :=
  .raw (Text.Glyph.ofString "[[\"Entered\"],null]")

/-- A gate is brought up to date and keeps what it has taken in whatever stops it. -/
def catchingUp : Asked :=
  .syncWith true ⟨0, none⟩ fun _ => true

/-- All that anyone wants is to scribble and to be up to date. -/
def Scribbling (r : Asked) : Prop :=
  r = scribble ∨ r = catchingUp

theorem civil_of_scribbling {r : Asked} (scribbling : Scribbling r) : r.Civil := by
  rcases scribbling with rfl | rfl <;> exact trivial

def stumbling : List (Cue Asked) :=
  .start scribble :: .start catchingUp :: .turn 0 :: List.replicate 10 (.turn 1)

@[irreducible] def scribbled :
    Request.Traffic Bool (fun _ => Nat) (fun _ => Passage) (fun _ => Unit) Shown :=
  Pool.play (Request.answer gate) stumbling ⟨empty, []⟩

theorem reachable_scribbled :
    Pool.Reachable (Request.answer gate) Scribbling (fun _ _ => False) empty scribbled := by
  unfold scribbled
  refine Pool.reachable_play (fun r member => ?_) .refl
  simp only [stumbling, List.mem_cons, List.mem_replicate, Cue.start.injEq, reduceCtorEq,
    and_false, or_false] at member
  exact member

def stumbled : (r : Asked) → r.Result → Bool
  | .syncWith _ _ _, .error (.decode v _) => v == .ofNat 1
  | _, _ => false

/-- The gate is stopped by the nonsense, and has counted who came before. -/
theorem gate_stumbles : (scribbled.state.cell true).committed.projection = 1 ∧
    ∃ moves e, ⟨catchingUp, moves, .done (.error (.decode (.ofNat 1) e))⟩ ∈ scribbled.tasks := by
  unfold scribbled
  refine ⟨by decide +kernel, ?_⟩
  have ended : ((Pool.play (Request.answer gate) stumbling ⟨empty, []⟩).tasks[1]?).any
      (Task.endedWith stumbled) = true := by decide +kernel
  obtain ⟨moves, result, member, good⟩ := Pool.ended_play (r := catchingUp) rfl ended
  match result, good with
  | .error (.decode v e), good =>
      obtain rfl : v = .ofNat 1 := beq_iff_eq.1 good
      exact ⟨moves, e, member⟩

end Room

/-- The gate that was stopped by nonsense has kept what it had taken in before. -/
theorem stumbled_keeps_entered : (Room.scribbled.state.cell true).committed.projection = 1 ∧
    ∃ moves e s₀ before taking inside,
      ⟨Room.catchingUp, moves, .done (.error (.decode (.ofNat 1) e))⟩ ∈ Room.scribbled.tasks ∧
      moves = before ++ taking :: inside ∧ Taking true s₀ taking ∧
        Settles Room.gate true ⟨0, none⟩ (fun _ => true) s₀ inside
          (.error (.decode (.ofNat 1) e)) := by
  obtain ⟨counted, moves, e, ended⟩ := Room.gate_stumbles
  refine ⟨counted, ?_⟩
  have settled := (sync_leaves_announced (fun _ scribbling => Room.civil_of_scribbling scribbling)
    (fun _ _ impossible => impossible.elim) (fun _ => ⟨rfl, rfl⟩) Room.reachable_scribbled).1
      true ⟨0, none⟩ (fun _ => true) moves _ (.inl ended)
  rcases settled with ⟨_, interrupted⟩ | ⟨s₀, before, taking, inside, made, _, took, _, settles⟩
  · obtain ⟨reason, same⟩ := interrupted _ rfl
    cases same
  · exact ⟨moves, e, s₀, before, taking, inside, ended, made, took, settles _ rfl⟩

end EventSourcing
