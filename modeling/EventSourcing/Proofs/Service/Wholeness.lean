import EventSourcing.Proofs.Service.Announced

/-!
# Proofs.Service.Wholeness -- what a refused event leaves behind

A folding may have changed its projection when it refuses an event.  A synchronization that is
stopped by the refusal forgets what was changed, unless its caller accepts the refusal: then the
change is kept, under the version before the event (`Party.Torn`), and the next synchronization
folds the event into it once more.  Main statement: this is the only way in which a store that
reflects a prefix of the log comes to reflect none (`sync_leaves_whole_unless_torn`).
-/

namespace EventSourcing

set_option autoImplicit false
set_option linter.unusedSectionVars false

open EventSourcing.Store (Cell Snapshot)
open Service (SyncError)

/-! ## Torn snapshots -/

namespace Party

variable {P E ε : Type} (q : Party P E ε)

/-- What a refused event has made of the snapshot before it: a projection that has changed, at a
version that has not.  The snapshot before it was made of one at the offset `n`. -/
inductive Torn (records : List Log.Record) (n : Nat) (s₀ : Snapshot P) : ε → Snapshot P → Prop where
  | refused {m : Nat} {s : Snapshot P} {r : Log.Record} {e : ε} {p : P}
      (ahead : q.Ahead records s₀ m s) (entry : records[n + m]? = some r)
      (refuses : q.Refuses (n + m) r s.projection e p) (changed : p ≠ s.projection) :
      Torn records n s₀ e ⟨p, s.version⟩

variable {q} {records : List Log.Record} {s₀ s : Snapshot P} {n : Nat} {p₀ : P} {e : ε}

/-- A snapshot that reflects a prefix of a log is told by its version. -/
theorem Reflects.projection_eq {s' : Snapshot P} {n' : Nat} (reflects : q.Reflects p₀ records s n)
    (reflects' : q.Reflects p₀ records s' n') (same : s.version = s'.version) :
    s.projection = s'.projection := by
  have version := reflects'.version
  rw [← same] at version
  have prefixes : n = n' := Version.ofNat_injective (reflects.version.symm.trans version)
  subst prefixes
  exact Option.some.inj (reflects.replayed.symm.trans reflects'.replayed)

theorem Torn.not_reflects (torn : q.Torn records n s₀ e s) (reflects : q.Reflects p₀ records s₀ n) :
    ¬ ∃ n', q.Reflects p₀ records s n' := by
  rintro ⟨n', whole⟩
  cases torn with
  | refused ahead _ _ changed =>
      have before := reflects.ahead ahead
      exact changed (whole.projection_eq before rfl)

/-- A synchronization leaves a snapshot that reflects a prefix of the log, unless it was stopped
by a refusal that its caller accepts and that has changed the projection. -/
theorem Announces.whole_iff {accepts : SyncError ε → Bool} {seen : List (Option Interruption)}
    {result : Except (SyncError ε) Version}
    (announces : q.Announces accepts records n s₀ seen result s)
    (reflects : q.Reflects p₀ records s₀ n) :
    (∃ n', q.Reflects p₀ records s n') ↔
      ¬ ∃ e, result = .error (.store e) ∧ accepts (.store e) = true ∧ q.Torn records n s₀ e s := by
  constructor
  · rintro whole ⟨e, _, _, torn⟩
    exact torn.not_reflects reflects whole
  · intro untorn
    obtain ⟨draft, progress, rfl⟩ := announces
    cases kept : keeps accepts result with
    | false => exact ⟨n, reflects⟩
    | true =>
        rw [kept, if_pos rfl] at untorn
        rw [if_pos rfl]
        cases progress with
        | complete ahead => exact ⟨_, reflects.ahead ahead⟩
        | interrupted ahead => exact ⟨_, reflects.ahead ahead⟩
        | undecodable ahead => exact ⟨_, reflects.ahead ahead⟩
        | @refused m s r e p ahead entry refuses =>
            have accepted : accepts (.store e) = true := kept
            have unchanged : p = s.projection := by
              by_contra changed
              exact untorn ⟨e, rfl, accepted, .refused ahead entry refuses changed⟩
            subst unchanged
            exact ⟨_, reflects.ahead ahead⟩

end Party

/-! ## Whole synchronizations -/

variable {ι : Type} [DecidableEq ι] {P E ε : ι → Type} {X : Type}
  {party : (i : ι) → Party (P i) (E i) (ε i)}

variable (party) in
/-- How a synchronization has ended that found `s₀` in its store when it began to write and that
has made the moves `inside` since: if `s₀` reflects a prefix of the log, then what is in the store
in the end does so as well, unless it is torn by a refusal that was accepted. -/
def KeepsWhole (i : ι) (accepts : SyncError (ε i) → Bool) (s₀ : Snapshot (P i))
    (inside : List (Move (Commons ι P X))) (result : Except (SyncError (ε i)) Version) : Prop :=
  ∃ read scan shown ending, inside = read :: scan :: (shown ++ [ending]) ∧
    ∀ p₀ n, (party i).Reflects p₀ scan.before.log.records s₀ n → s₀.position? = some n → ∃ s,
      ending.after.cell i = ⟨s, 0, none⟩ ∧
        ((∃ n', (party i).Reflects p₀ scan.before.log.records s n') ↔
          ¬ ∃ e, result = .error (.store e) ∧ accepts (.store e) = true ∧
            (party i).Torn scan.before.log.records n s₀ e s)

theorem Settles.keepsWhole {i : ι} {ctx : Context} {accepts : SyncError (ε i) → Bool}
    {s₀ : Snapshot (P i)} {inside : List (Move (Commons ι P X))}
    {result : Except (SyncError (ε i)) Version}
    (settles : Settles party i ctx accepts s₀ inside result) :
    KeepsWhole party i accepts s₀ inside result := by
  obtain ⟨read, scan, shown, ending, made, settled⟩ := settles
  refine ⟨read, scan, shown, ending, made, fun p₀ n reflects position => ?_⟩
  obtain ⟨s, announces, _, left⟩ := settled n position reflects.within
  exact ⟨s, left, announces.whole_iff reflects⟩

section Returned

variable {allowed : Request ι P E ε X → Prop}
  {outside : Commons ι P X → Commons ι P X → Prop} {start : Commons ι P X}
  {pool : Request.Traffic ι P E ε X}

/-- A synchronization that has returned was interrupted before it did anything, or it has left in
its store what its result announces. -/
theorem settles_of_returned (polite : ∀ r, allowed r → r.Civil)
    (outer : ∀ w w', outside w w' → Outside w w')
    (free : ∀ i, (start.cell i).readers = 0 ∧ (start.cell i).draft = none)
    (reachable : Pool.Reachable (Request.answer party) allowed outside start pool) {i : ι}
    {ctx : Context} {accepts : SyncError (ε i) → Bool} {moves : List (Move (Commons ι P X))}
    {result : Except (SyncError (ε i)) Version}
    (returned : Synchronizing pool i ctx accepts moves (.done result)) :
    (Idle moves ∧ ∃ reason, result = .error (.interrupted reason)) ∨
      ∃ s₀ before taking inside, moves = before ++ taking :: inside ∧ Idle before ∧
        Taking i s₀ taking ∧ Settles party i ctx accepts s₀ inside result := by
  obtain ⟨w, h, h', w', chain, leads⟩ : ∃ w h h' w', (civil party).Chain h w moves h' w' ∧
      ((Request.service party i).syncWith ctx accepts).Leads moves (.done result) := by
    rcases returned with asked | ⟨rfl, asked⟩
    · obtain ⟨w, h, chain⟩ := chain_of_civil polite outer free reachable _ asked
      exact ⟨_, _, _, _, chain, Pool.leads_of_reachable reachable _ asked⟩
    · obtain ⟨w, h, chain⟩ := chain_of_civil polite outer free reachable _ asked
      exact ⟨_, _, _, _, chain, Pool.leads_of_reachable reachable _ asked⟩
  rcases stands_of_syncWith outer chain leads with
    ⟨idle, interrupted⟩ | ⟨s₀, before, taking, inside, made, idle, took, _, settles⟩
  · exact .inl ⟨idle, interrupted result rfl⟩
  · exact .inr ⟨s₀, before, taking, inside, made, idle, took, settles result rfl⟩

/-- A store that reflects a prefix of the log when a synchronization begins to write to it
reflects one when the synchronization has returned, with nothing of an entry that was not taken
in as a whole.  The one exception is a refusal of an event by a folding that has changed the
projection all the same, if the caller accepts it: then the store holds that change, at the
version before the event.  This is so whatever others do meanwhile. -/
theorem sync_leaves_whole_unless_torn (polite : ∀ r, allowed r → r.Civil)
    (outer : ∀ w w', outside w w' → Outside w w')
    (free : ∀ i, (start.cell i).readers = 0 ∧ (start.cell i).draft = none)
    (reachable : Pool.Reachable (Request.answer party) allowed outside start pool) :
    ∀ i ctx accepts moves result, Synchronizing pool i ctx accepts moves (.done result) →
      (Idle moves ∧ ∃ reason, result = .error (.interrupted reason)) ∨
        ∃ s₀ before taking inside, moves = before ++ taking :: inside ∧ Idle before ∧
          Taking i s₀ taking ∧ KeepsWhole party i accepts s₀ inside result := by
  intro i ctx accepts moves result returned
  rcases settles_of_returned polite outer free reachable returned with
    interrupted | ⟨s₀, before, taking, inside, made, idle, took, settles⟩
  · exact .inl interrupted
  · exact .inr ⟨s₀, before, taking, inside, made, idle, took, settles.keepsWhole⟩

end Returned

/-! ## A hasty gate -/

namespace Room

/-- Who counts those who come before looking whether there is a place for them. -/
def hasty : Folding Nat Passage Unit where
  apply _ _ passage n :=
    match passage with
    | .entered => if n < 2 then (.ok (), n + 1) else (.error (), n + 1)
    | .left => (.ok (), n - 1)

def hastyGate (i : Bool) : Party Nat Passage Unit :=
  { gate i with folding := hasty }

/-- Someone writes into the log by hand that three people have entered. -/
def overfill : Asked :=
  .raw (Text.Glyph.ofString "[[\"Entered\"],[\"Entered\"],[\"Entered\"]]")

/-- All that anyone wants is to overfill the room and to be up to date. -/
def Overfilling (r : Asked) : Prop :=
  r = overfill ∨ r = catchingUp

theorem civil_of_overfilling {r : Asked} (overfilling : Overfilling r) : r.Civil := by
  rcases overfilling with rfl | rfl <;> exact trivial

/-- The gate catches up once, and then once more. -/
def overflowing : List (Cue Asked) :=
  .start overfill :: .start catchingUp :: .start catchingUp :: .turn 0 ::
    (List.replicate 12 (.turn 1) ++ List.replicate 12 (.turn 2))

@[irreducible] def overflown :
    Request.Traffic Bool (fun _ => Nat) (fun _ => Passage) (fun _ => Unit) Shown :=
  Pool.play (Request.answer hastyGate) overflowing ⟨empty, []⟩

theorem reachable_overflown :
    Pool.Reachable (Request.answer hastyGate) Overfilling (fun _ _ => False) empty overflown := by
  unfold overflown
  refine Pool.reachable_play (fun r member => ?_) .refl
  simp only [overflowing, List.mem_cons, List.mem_append, List.mem_replicate, Cue.start.injEq,
    reduceCtorEq, and_false, or_false] at member
  rcases member with rfl | rfl | rfl
  · exact .inl rfl
  · exact .inr rfl
  · exact .inr rfl

def refused : (r : Asked) → r.Result → Bool
  | .syncWith _ _ _, .error (.store _) => true
  | _, _ => false

/-- The gate was stopped by the third person. -/
theorem gate_refuses :
    ∃ moves, ⟨catchingUp, moves, .done (.error (.store ()))⟩ ∈ overflown.tasks := by
  unfold overflown
  have ended : ((Pool.play (Request.answer hastyGate) overflowing ⟨empty, []⟩).tasks[1]?).any
      (Task.endedWith refused) = true := by decide +kernel
  obtain ⟨moves, result, member, good⟩ := Pool.ended_play (r := catchingUp) rfl ended
  match result, good with
  | .error (.store ()), _ => exact ⟨moves, member⟩

/-- Two people have been taken in, and the third was counted each time that the gate caught up. -/
theorem committed_overflown :
    (overflown.state.cell true).committed.projection = 4 ∧
      (overflown.state.cell true).committed.version = some (.ofNat 2) ∧
      (hastyGate true).replayFrom 0 (overflown.state.log.records.take 2) 0 = some 2 := by
  unfold overflown
  decide +kernel

end Room

/-- What the hasty gate leaves when it is stopped is whole unless it is torn. -/
theorem overflown_whole_unless_torn : ∃ moves s₀ before taking inside,
    ⟨Room.catchingUp, moves, .done (.error (.store ()))⟩ ∈ Room.overflown.tasks ∧
      moves = before ++ taking :: inside ∧ Taking true s₀ taking ∧
        KeepsWhole Room.hastyGate true (fun _ => true) s₀ inside (.error (.store ())) := by
  obtain ⟨moves, ended⟩ := Room.gate_refuses
  have returned := sync_leaves_whole_unless_torn
    (fun _ overfilling => Room.civil_of_overfilling overfilling)
    (fun _ _ impossible => impossible.elim) (fun _ => ⟨rfl, rfl⟩) Room.reachable_overflown
    true ⟨0, none⟩ (fun _ => true) moves _ (.inl ended)
  rcases returned with ⟨_, reason, same⟩ | ⟨s₀, before, taking, inside, made, _, took, keeps⟩
  · cases same
  · exact ⟨moves, s₀, before, taking, inside, ended, made, took, keeps⟩

/-- The hasty gate, which accepts every failure, ends up with a count that is of no prefix of the
log: it has counted the third person twice and taken in two. -/
theorem overflown_reflects_nothing :
    Pool.Reachable (Request.answer Room.hastyGate) Room.Overfilling (fun _ _ => False) Room.empty
      Room.overflown ∧
    (∃ moves, ⟨Room.catchingUp, moves, .done (.error (.store ()))⟩ ∈ Room.overflown.tasks) ∧
    ¬ ∃ n, (Room.hastyGate true).Reflects 0 Room.overflown.state.log.records
      (Room.overflown.state.cell true).committed n := by
  refine ⟨Room.reachable_overflown, Room.gate_refuses, ?_⟩
  rintro ⟨n, reflects⟩
  obtain ⟨projection, version, two⟩ := Room.committed_overflown
  have position : n = 2 := by
    have same := reflects.version
    rw [version] at same
    exact (Version.ofNat_injective same).symm
  have replayed := reflects.replayed
  rw [position, two, projection] at replayed
  cases replayed

end EventSourcing
