import EventSourcing.Log.Interleaving
import EventSourcing.Log.Memory
import EventSourcing.Proofs.Context.Running
import EventSourcing.Service.Sync

/-!
# Proofs.Service.Uptake -- what a synchronization takes in

A successful synchronization reads the recorded version and the entries that there are after
it, and then takes in these and no others, one by one (`synced_of_leads`).  Nothing is assumed
of the store or of what others do meanwhile: what is told are the moves of the call itself,
each from the state in which the call found things.
-/

namespace EventSourcing

set_option autoImplicit false

variable {W P E ε : Type} {clock : Part W Clock} {log : Part W Log.Memory}

/-- A log that is read as one in memory, however it is appended to. -/
structure EventLog.ReadsFrom (l : EventLog W) (clock : Part W Clock) (log : Part W Log.Memory) :
    Prop where
  origin : ∀ ctx, l.origin ctx = pure (.ok (.ofNat 0))
  scan : ∀ {σ δ : Type} (ctx : Context) (start : Version) (visitor : Log.Visitor W σ δ) (s : σ),
    l.scan ctx start 0 visitor s = Log.Memory.scan clock log ctx start 0 visitor s

theorem Log.Memory.readsFrom_eventLog (rounds : Nat) :
    (eventLog clock log rounds).ReadsFrom clock log :=
  ⟨fun _ => rfl, fun _ _ _ _ => rfl⟩

namespace Service

/-! ## One after the other -/

/-- How one record is taken in: its event is applied if it is needed, with the version after its
entry, and that version is recorded in either case. -/
inductive TakesUp (s : Service W P E ε) (needs : String → Prop) (k : Nat) (r : Log.Record) :
    W → W → Prop where
  | applied {event : E} {w w₁ w₂ : W} (decoded : s.set.decodeText r.payload = .ok event)
      (needed : needs (s.set.name event))
      (applied : s.store.apply (.ofNat (k + 1)) r.timestamp event w = (.ok (), w₁))
      (recorded : s.store.record (.ofNat (k + 1)) w₁ = (.ok (), w₂)) : TakesUp s needs k r w w₂
  | passed {event : E} {w w₁ : W} (decoded : s.set.decodeText r.payload = .ok event)
      (unneeded : ¬ needs (s.set.name event))
      (recorded : s.store.record (.ofNat (k + 1)) w = (.ok (), w₁)) : TakesUp s needs k r w w₁

/-- Moves that take in records one after the other, the first of them at an offset.  Before
each record the call looks whether it is still live. -/
inductive TakesIn (s : Service W P E ε) (needs : String → Prop) :
    Nat → List Log.Record → List (Move W) → Prop where
  | nothing (k : Nat) : TakesIn s needs k [] []
  | next {k : Nat} {r : Log.Record} {rest : List Log.Record} {w w₁ w₂ : W} {moves : List (Move W)}
      (first : s.TakesUp needs k r w₁ w₂) (later : TakesIn s needs (k + 1) rest moves) :
      TakesIn s needs k (r :: rest) (⟨w, w⟩ :: ⟨w₁, w₂⟩ :: moves)

/-- The version that is reached with so many records after an offset. -/
def reachedBy (start : Version) (k : Nat) : List Log.Record → Version
  | [] => start
  | r :: rest => .ofNat (k + (r :: rest).length)

variable {s : Service W P E ε} {needs : String → Prop} {k : Nat} {rs : List Log.Record}
  {moves : List (Move W)} {ctx : Context} {start v : Version}

theorem reachedBy_next (r : Log.Record) :
    reachedBy (.ofNat (k + 1)) (k + 1) rs = reachedBy start k (r :: rs) := by
  cases rs with
  | nil => rfl
  | cons r' rest =>
      simp only [reachedBy, List.length_cons]
      congr 1
      omega

theorem TakesUp.congr {needs' : String → Prop} (same : ∀ event, needs event ↔ needs' event)
    {r : Log.Record} {w w' : W} (takes : s.TakesUp needs k r w w') : s.TakesUp needs' k r w w' := by
  cases takes with
  | applied decoded needed applied recorded =>
      exact .applied decoded ((same _).1 needed) applied recorded
  | passed decoded unneeded recorded => exact .passed decoded (mt (same _).2 unneeded) recorded

theorem TakesIn.congr {needs' : String → Prop} (same : ∀ event, needs event ↔ needs' event)
    (takes : s.TakesIn needs k rs moves) : s.TakesIn needs' k rs moves := by
  induction takes with
  | nothing k => exact .nothing k
  | next first _ ih => exact .next (first.congr same) ih

/-- The visitor of a synchronization takes in every entry that it does not refuse. -/
theorem takesUp_of_takeIn {r : Log.Record} {w w' : W}
    (took : s.takeIn ⟨.ofNat k, .ofNat (k + 1), r.timestamp, r.payload⟩ start w = (.ok v, w')) :
    v = .ofNat (k + 1) ∧ s.TakesUp (fun event => s.contract.subscribesTo event) k r w w' := by
  unfold takeIn at took
  cases decoded : s.set.decodeText r.payload with
  | error e =>
      rw [decoded] at took
      cases took
  | ok event =>
      rw [decoded] at took
      dsimp only at took
      by_cases subscribed : s.contract.subscribesTo (s.set.name event)
      · rw [if_pos subscribed] at took
        rcases applied : s.store.apply (.ofNat (k + 1)) r.timestamp event w with ⟨e | done, w₁⟩ <;>
          rw [applied] at took
        · cases took
        · dsimp only at took
          rcases recorded : s.store.record (.ofNat (k + 1)) w₁ with ⟨e | done, w₂⟩ <;>
            rw [recorded] at took <;> cases took
          exact ⟨rfl, .applied decoded subscribed applied recorded⟩
      · rw [if_neg subscribed] at took
        dsimp only at took
        rcases recorded : s.store.record (.ofNat (k + 1)) w with ⟨e | done, w₁⟩ <;>
          rw [recorded] at took <;> cases took
        exact ⟨rfl, .passed decoded subscribed recorded⟩

/-- Whether a scan came to the end of the log, or had nothing to show there. -/
def cameToEnd : Option (Log.ScanFailure (SyncError ε)) → Bool
  | none => true
  | some (.log e) => e.isOutOfBound
  | some _ => false

variable {failure : Option (Log.ScanFailure (SyncError ε))}

/-- A scan that comes to its end has shown every entry, and each of them was taken in. -/
theorem takesIn_of_visit (ended : cameToEnd failure)
    (leads : (Log.Memory.visit clock ctx s.takeIn (Log.Memory.entriesAt k rs) start).Leads moves
      (.done (failure, v))) :
    s.TakesIn (fun event => s.contract.subscribesTo event) k rs moves ∧
      v = reachedBy start k rs := by
  induction rs generalizing k start moves with
  | nil =>
      obtain ⟨rfl, same⟩ := leads.of_done
      cases same
      exact ⟨.nothing k, rfl⟩
  | cons r rest ih =>
      rw [Log.Memory.entriesAt, Log.Memory.visit] at leads
      obtain ⟨w, moves, rfl, live⟩ := leads.first
      cases interrupted : ctx.interruption? (clock.get w) with
      | some reason =>
          rw [interrupted] at live
          obtain ⟨_, same⟩ := live.of_done
          cases same
          cases ended
      | none =>
          rw [interrupted] at live
          obtain ⟨w₁, moves, rfl, shown⟩ := live.first
          rcases took : s.takeIn ⟨.ofNat k, .ofNat (k + 1), r.timestamp, r.payload⟩ start w₁ with
            ⟨e | v', w₂⟩ <;> rw [took] at shown
          · obtain ⟨_, same⟩ := shown.of_done
            cases same
            cases ended
          · obtain ⟨rfl, first⟩ := takesUp_of_takeIn took
            obtain ⟨later, reached⟩ := ih shown
            exact ⟨.next first later, reached.trans (reachedBy_next r)⟩

/-! ## All that there are -/

/-- A scan begins by looking which entries there are after a version. -/
theorem takesIn_of_scan (ended : cameToEnd failure)
    (leads : (Log.Memory.scan clock log ctx start 0 s.takeIn start).Leads moves
      (.done (failure, v))) :
    ∃ w n later, moves = ⟨w, w⟩ :: later ∧ start.offset? = some n ∧
      s.TakesIn (fun event => s.contract.subscribesTo event) n ((log.get w).records.drop n) later ∧
      v = reachedBy start n ((log.get w).records.drop n) := by
  obtain ⟨w, later, rfl, shown⟩ := leads.first
  simp only [Log.Memory.entriesFrom, Log.Memory.offsetOf] at shown
  cases position : start.offset? with
  | none =>
      rw [position] at shown
      obtain ⟨_, same⟩ := shown.of_done
      cases same
      cases ended
  | some n =>
      rw [position] at shown
      dsimp only at shown
      by_cases atEnd : (log.get w).size ≤ n
      · rw [if_pos atEnd] at shown
        obtain ⟨rfl, same⟩ := shown.of_done
        cases same
        have nothing : (log.get w).records.drop n = [] := List.drop_eq_nil_of_le atEnd
        refine ⟨w, n, [], rfl, rfl, ?_⟩
        rw [nothing]
        exact ⟨.nothing n, rfl⟩
      · rw [if_neg atEnd, if_pos trivial] at shown
        obtain ⟨takes, reached⟩ := takesIn_of_visit ended shown
        exact ⟨w, n, later, rfl, rfl, takes, reached⟩

/-- How a service catches up with its log: it reads the recorded version, looks which entries
there are after it, and takes these in. -/
inductive CatchesUp (s : Service W P E ε) (log : Part W Log.Memory) (needs : String → Prop) :
    List (Move W) → Version → Prop where
  | upTo {w w₁ : W} {recorded : Option Version} {n : Nat} {moves : List (Move W)}
      (read : s.store.version w = .ok recorded)
      (position : (recorded.getD (.ofNat 0)).offset? = some n)
      (takes : s.TakesIn needs n ((log.get w₁).records.drop n) moves) :
      CatchesUp s log needs (⟨w, w⟩ :: ⟨w₁, w₁⟩ :: moves)
        (reachedBy (recorded.getD (.ofNat 0)) n ((log.get w₁).records.drop n))

theorem CatchesUp.congr {needs' : String → Prop} (same : ∀ event, needs event ↔ needs' event)
    (catches : s.CatchesUp log needs moves v) : s.CatchesUp log needs' moves v := by
  obtain ⟨read, position, takes⟩ := catches
  exact .upTo read position (takes.congr same)

theorem versionOrOrigin_of_reads (reads : s.log.ReadsFrom clock log) (recorded : Option Version) :
    s.versionOrOrigin ctx recorded = pure (.ok (recorded.getD (.ofNat 0))) := by
  cases recorded with
  | none => rw [versionOrOrigin, reads.origin, pure_bind]; rfl
  | some v => rfl

theorem catchesUp_of_leads (reads : s.log.ReadsFrom clock log)
    (leads : (s.syncIn ctx).Leads moves (.done (.ok v))) :
    s.CatchesUp log (fun event => s.contract.subscribesTo event) moves v := by
  rw [syncIn] at leads
  obtain ⟨w, moves, rfl, reading⟩ := leads.first
  rcases read : s.store.version w with e | recorded <;> rw [read] at reading
  · obtain ⟨_, same⟩ := reading.of_done
    cases same
  dsimp only at reading
  rw [versionOrOrigin_of_reads reads, pure_bind] at reading
  dsimp only at reading
  rw [reads.scan] at reading
  obtain ⟨⟨failure, reached⟩, scanning, after, led, on, rfl⟩ := reading.parts
  have ended : cameToEnd failure ∧ after = [] ∧ v = reached := by
    match failure, on with
    | none, on =>
        obtain ⟨rfl, same⟩ := on.of_done
        cases same
        exact ⟨rfl, rfl, rfl⟩
    | some (.visitor e), on =>
        obtain ⟨_, same⟩ := on.of_done
        cases same
    | some (.interrupted reason), on =>
        obtain ⟨_, same⟩ := on.of_done
        cases same
    | some (.log e), on =>
        dsimp only at on
        cases outside : e.isOutOfBound <;> rw [outside] at on <;>
          obtain ⟨rfl, same⟩ := on.of_done <;> cases same
        exact ⟨outside, rfl, rfl⟩
  obtain ⟨ended, rfl, rfl⟩ := ended
  obtain ⟨w₁, n, later, rfl, position, takes, rfl⟩ := takesIn_of_scan ended led
  rw [List.append_nil]
  exact .upTo read position takes

/-! ## Whole synchronizations -/

/-- How a successful synchronization goes: it waits until it may write, catches up, and keeps
what it has taken in. -/
inductive Synced (s : Service W P E ε) (log : Part W Log.Memory) (needs : String → Prop) :
    List (Move W) → Version → Prop where
  | kept {before within : List (Move W)} {taking ending : Move W} {v : Version}
      (waited : ∀ mv ∈ before, ∃ c, mv.after = s.clock.set c mv.before)
      (took : s.store.write taking.before = some (.ok (), taking.after))
      (catches : s.CatchesUp log needs within v)
      (kept : ending.after = s.store.commit ending.before) :
      Synced s log needs (before ++ taking :: (within ++ [ending])) v

theorem Synced.congr {needs' : String → Prop} (same : ∀ event, needs event ↔ needs' event)
    (synced : s.Synced log needs moves v) : s.Synced log needs' moves v := by
  obtain ⟨waited, took, catches, kept⟩ := synced
  exact .kept waited took (catches.congr same) kept

/-- A successful synchronization takes in the entries that there are after the recorded
version, and no others.  `accepts` says of which failures the caller would keep what was taken
in before; nothing failed here. -/
theorem synced_of_leads (reads : s.log.ReadsFrom clock log) {accepts : SyncError ε → Bool}
    (leads : (s.syncWith ctx accepts).Leads moves (.done (.ok v))) :
    s.Synced log (fun event => s.contract.subscribesTo event) moves v := by
  rw [syncWith] at leads
  obtain ⟨began, waiting, after, waited, on, rfl⟩ := leads.parts
  match began, on with
  | .error reason, on =>
      obtain ⟨_, same⟩ := on.of_done
      cases same
  | .ok (.error e), on =>
      obtain ⟨_, same⟩ := on.of_done
      cases same
  | .ok (.ok ()), on =>
      dsimp only at on
      obtain ⟨before, taking, rfl, idle, took⟩ := Context.taken_of_run waited
      obtain ⟨result, within, ending, caught, ended, rfl⟩ := on.parts
      obtain ⟨w, last, rfl, returned⟩ := ended.first
      obtain ⟨rfl, same⟩ := returned.of_done
      cases same
      rw [List.append_assoc]
      exact .kept idle took (catchesUp_of_leads reads caught) rfl

end Service

end EventSourcing
