import EventSourcing.Proofs.Event.Stored
import EventSourcing.Proofs.Service.Prefix

/-!
# Proofs.Service.Optimistic -- events go right behind what was seen

A transaction decides on the state of its draft, and others append meanwhile.  Its events
enter the log in a single move, and only if the log still ends where the draft ends.  So
what was decided on is the fold of exactly the entries before the new ones.
-/

namespace EventSourcing

set_option autoImplicit false
set_option linter.unusedSectionVars false

open EventSourcing.Store (Cell Snapshot)
open EventSourcing.Text (Glyph)
open Service (CallFailure Emitted Logic)

variable {ι : Type} [DecidableEq ι] {P E ε : ι → Type} {X L O : Type}

/-- How the events of a transaction came to stand behind the first `n` entries of a log: the
entries there are those of the events in order, they were put there by a single move, and no
other move of the call has changed the log.  The events were emitted by a run that was given
the fold of just the first `n` entries. -/
structure Landed (party : (i : ι) → Party (P i) (E i) (ε i)) (p₀ : (i : ι) → P i) (i : ι)
    (ctx : Context) (logic : Logic (Commons ι P X) (P i) (E i) L O) (records : List Log.Record)
    (moves : List (Move (Commons ι P X))) (output : O) (events : List (E i)) (n : Nat)
    (texts : List String) : Prop where
  stored : events.mapM (party i).set.stored? = some texts
  entries : ((records.drop n).take texts.length).map Log.Record.payload = texts
  steps : ∃ earlier run push ending s, moves = earlier ++ [run, push, ending] ∧
    Quiet (earlier ++ [run, ending]) ∧ Pushes n texts push ∧
      Runs i ctx logic s output events run ∧ (party i).Reflects (p₀ i) records s n

variable {party : (i : ι) → Party (P i) (E i) (ε i)} {p₀ : (i : ι) → P i}

/-- What a move has put at the end of the log can be found there. -/
theorem Pushes.entries {n : Nat} {texts : List String} {push : Move (Commons ι P X)}
    {records : List Log.Record} (pushes : Pushes n texts push)
    (grown : push.after.log.records <+: records) :
    ((records.drop n).take texts.length).map Log.Record.payload = texts := by
  obtain ⟨later, rfl⟩ := grown
  have size : push.before.log.records.length = n := pushes.size
  have records : push.after.log.records = push.before.log.records ++
      texts.map fun text => ⟨push.before.clock.now, text⟩ := by
    rw [pushes.pushed]
    rfl
  rw [records, List.append_assoc, List.drop_left' size, List.take_left' (List.length_map _),
    List.map_map]
  exact List.map_id _

/-- A draft that is ahead of a store that reflects the log. -/
theorem Drafting.reflects {i : ι} {s₀ s : Snapshot (P i)}
    {inside : List (Move (Commons ι P X))} {w : Commons ι P X}
    (drafting : Drafting party i s₀ inside s w) (faithful : Faithful party p₀ w) {n : Nat}
    (position : s.position? = some n) : (party i).Reflects (p₀ i) w.log.records s n := by
  obtain ⟨k, m, _, reflects⟩ := faithful.visible drafting.clean
  rw [drafting.visible] at reflects
  obtain rfl := reflects.position position
  exact reflects

/-- If a transaction has appended anything, its events stand in the log right behind the
entries that its method had seen folded in, and nothing else of it is in the log.  This
holds whatever other services and writers did before, meanwhile, and since. -/
theorem transaction_appends_behind_seen {allowed : Request ι P E ε X → Prop}
    {outside : Commons ι P X → Commons ι P X → Prop} {start : Commons ι P X}
    {pool : Request.Traffic ι P E ε X} {i : ι} {ctx : Context}
    {name : String} {logic : Logic (Commons ι P X) (P i) (E i) L O}
    {moves : List (Move (Commons ι P X))} {output : O} {events : List (E i)}
    {appended : Log.Appended} (methods : ∀ r, allowed r → r.Aloof ∧ r.Strict)
    (outer : ∀ w w', outside w w' → Outside w w') (new : ∀ i, start.cell i = Cell.new (p₀ i))
    (reachable : Pool.Reachable (Request.answer party) allowed outside start pool)
    (ended : Transacted party pool i ctx name logic moves (.ok ⟨output, events, some appended⟩)) :
    ∃ n texts, appended = ⟨.ofNat n, .ofNat (n + texts.length)⟩ ∧
      Landed party p₀ i ctx logic pool.state.log.records moves output events n texts := by
  -- No notes are needed to know that the stores are faithful.
  let journal : X → List (Note ι P) := fun _ => []
  have setting : Setting party (Policy.faithful journal party p₀) allowed outside start := by
    refine setting_faithful (fun r may => ⟨?_, (methods r may).2⟩)
      (fun w w' happened => ⟨outer w w' happened, fun note noted => noted⟩) new rfl
    exact (methods r may).1.mono fun i L O logic aloof =>
      ⟨aloof, fun ctx p w note noted => .inl noted⟩
  obtain ⟨task, member, made, aloof⟩ := ended.task
  have since := made ▸ setting.since reachable task member
  have aloof : Aloof logic := aloof (methods _ (reachable.allowed task member)).1
  cases setting.transacted reachable ended with
  | @succeeded _ _ s before _ taking ending idle took succeeded unchanged committed =>
      obtain ⟨earlier, run, last, rfl, drafting, runs, concluded⟩ := succeeded
      cases concluded with
      | @appended _ _ text texts push n encoded split position pushes =>
          obtain ⟨known, ran⟩ := since run (by simp)
          obtain ⟨_, pushed⟩ := since push (by simp)
          have log : run.after.log = run.before.log := by
            have kept := (aloof ctx s.projection run.before).1
            rwa [runs.ran] at kept
          refine ⟨n, texts, rfl, stored_of_split encoded split, pushes.entries pushed, ?_⟩
          refine ⟨before ++ taking :: earlier, run, push, ending, s, by simp, ?_, pushes, runs, ?_⟩
          · have quiet := quiet_of_inside idle took (drafting.quiet.concat log) unchanged
            simpa using quiet
          · rw [log] at ran
            exact (drafting.reflects known.1 position).mono ran

/-- In a room with two gates, what the overtaken gate appends stands behind what it counted. -/
theorem overtaken_appends_behind_seen : ∃ moves output events n texts,
    ⟨Room.entering true, moves,
      .done (.ok ⟨output, events, some ⟨.ofNat n, .ofNat (n + texts.length)⟩⟩)⟩ ∈
        Room.crowded.tasks ∧
      Landed Room.gate (fun _ => 0) true ⟨0, none⟩ (Room.entry true)
        Room.crowded.state.log.records moves output events n texts := by
  obtain ⟨moves, output, events, appended, ended⟩ := Room.overtaken_enters
  obtain ⟨n, texts, rfl, landed⟩ := transaction_appends_behind_seen
    (fun r wanted => ⟨Room.aloof_of_wanted wanted, Room.strict_of_wanted wanted⟩)
    (fun _ _ impossible => impossible.elim) Room.cell_empty Room.reachable_crowded (.inl ended)
  exact ⟨moves, output, events, n, texts, ended, landed⟩

end EventSourcing
