import EventSourcing.Proofs.Event.Stored
import EventSourcing.Proofs.Service.Prefix

/-!
# Proofs.Service.Acceptance -- a log that every service can take in

Services of one kind share a log that is empty at first, and entries enter it only through
transactions whose methods check their events against the projection that they are given.
Since a transaction appends only to the log that it has seen, every entry can be folded
into the projection of the entries before it, and no service is ever stopped by one
(`not_blocked`).
-/

namespace EventSourcing

set_option autoImplicit false
set_option linter.unusedSectionVars false

open EventSourcing.Store (Cell Snapshot)
open EventSourcing.Text (Glyph)
open Service (SyncError CallFailure Logic)

section Events

variable {P E ε : Type}

/-- The projection that an event yields; none if the event is refused. -/
def Folding.yield? (f : Folding P E ε) (version : Version) (timestamp : Nat) (event : E) (p : P) :
    Option P :=
  match f.apply version timestamp event p with
  | (.error _, _) => none
  | (.ok (), p) => some p

/-- Events are accepted or not, and yield the same, wherever and whenever they were
appended. -/
def Folding.Timeless (f : Folding P E ε) : Prop :=
  ∀ version version' timestamp timestamp' event p,
    f.yield? version timestamp event p = f.yield? version' timestamp' event p

/-- A set that rebuilds every event from its own payload, in which there are no floating
point numbers. -/
structure EventSet.Restores (set : EventSet E) : Prop where
  plain : ∀ event payload, set.toPayload event = .ok payload → Json.Plain payload
  rebuilt : ∀ event payload, set.toPayload event = .ok payload →
    set.fromPayload (set.name event) payload = .ok event

namespace Party

variable (q : Party P E ε)

/-- The projection after an event that may be one the service does not subscribe to. -/
def accept? (event : E) (p : P) : Option P :=
  if q.contract.subscribesTo (q.set.name event) then q.folding.yield? (.ofNat 0) 0 event p
  else some p

/-- The projection after a batch of events. -/
def acceptAll? : List E → P → Option P
  | [], p => some p
  | event :: rest, p => (q.accept? event p).bind (acceptAll? rest)

/-- Services that use the same events in the same way. -/
structure Alike (q q' : Party P E ε) : Prop where
  set : q.set = q'.set
  folding : q.folding = q'.folding
  subscriptions : q.contract.subscriptions = q'.contract.subscriptions

variable {q} {q' : Party P E ε} {event : E} {events : List E} {text : String}
  {texts : List String} {p : P}

theorem Alike.takeUp (alike : q.Alike q') (offset : Nat) (r : Log.Record) (p : P) :
    q.takeUp offset r p = q'.takeUp offset r p := by
  simp only [Party.takeUp, Contract.subscribesTo, alike.set, alike.folding, alike.subscriptions]
  rfl

theorem Alike.replayFrom (alike : q.Alike q') (offset : Nat) (rs : List Log.Record) (p : P) :
    q.replayFrom offset rs p = q'.replayFrom offset rs p := by
  induction rs generalizing offset p with
  | nil => rfl
  | cons r rest ih =>
      simp only [Party.replayFrom, alike.takeUp offset r p]
      cases q'.takeUp offset r p with
      | none => rfl
      | some p' => exact ih (offset + 1) p'

/-- An entry is folded in like the event that it was made of. -/
theorem takeUp_stored (timeless : q.folding.Timeless) (restores : q.set.Restores)
    (stored : q.set.stored? event = some text) (offset time : Nat) :
    q.takeUp offset ⟨time, text⟩ p = q.accept? event p := by
  cases written : q.set.toPayload event with
  | error e =>
      rw [EventSet.stored?, EventSet.envelope, written] at stored
      cases stored
  | ok payload =>
      have rebuilt : q.set.decodeText text = .ok event :=
        (decodeText_stored written (restores.plain event payload written) stored).trans
          (restores.rebuilt event payload written)
      have same := timeless (.ofNat (offset + 1)) (.ofNat 0) time 0 event p
      rw [takeUp, accept?, ← same]
      dsimp only
      rw [rebuilt]
      rfl

/-- A batch is folded in like its events. -/
theorem replayFrom_stored (timeless : q.folding.Timeless) (restores : q.set.Restores)
    (stored : events.mapM q.set.stored? = some texts) (offset time : Nat) :
    q.replayFrom offset (texts.map (Log.Record.mk time)) p = q.acceptAll? events p := by
  induction events generalizing texts offset p with
  | nil =>
      cases stored
      rfl
  | cons event rest ih =>
      obtain ⟨text, others, first, later, rfl⟩ := Json.mapM_cons_eq_some stored
      rw [List.map_cons, replayFrom, takeUp_stored timeless restores first, acceptAll?]
      cases q.accept? event p with
      | none => rfl
      | some p' => exact ih later (offset + 1)

end Party

end Events

variable {ι : Type} [DecidableEq ι] {P E ε X L O : Type} (party : ι → Party P E ε) (p₀ : P)

/-- A method that emits only events that can be folded into the projection that it was
given. -/
def Prudent {W : Type} (q : Party P E ε) (logic : Logic W P E L O) : Prop :=
  ∀ ctx p w output events, (logic ctx p w).1 = .ok (output, events) →
    (q.acceptAll? events p).isSome

/-- Requests by which entries enter the log only through transactions, and then only if
their methods are prudent. -/
def Request.Prudent : Request ι (fun _ => P) (fun _ => E) (fun _ => ε) X → Prop
  | .raw _ => False
  | .append _ _ _ _ => False
  | .transaction i _ _ logic => EventSourcing.Prudent (party i) logic
  | .call i _ name logic =>
      ((party i).Declares name .transaction → EventSourcing.Prudent (party i) logic) ∧
        ¬ (party i).Declares name .append
  | _ => True

/-- Every service can take in all of some entries. -/
def Acceptable (records : List Log.Record) : Prop :=
  ∀ i, ((party i).replayFrom 0 records p₀).isSome

/-- The stores are faithful, and what is in the log is acceptable. -/
def Policy.acceptable : Policy ι (fun _ => P) X where
  known w := Faithful party (fun _ => p₀) w ∧ Acceptable party p₀ w.log.records
  runs _ _ _ := True
  commits := Clean party
  pushes w texts := Acceptable party p₀ (w.log.push w.clock.now texts).2.records

variable {party p₀} {i : ι} {w w' : Commons ι (fun _ => P) X} {h h' : Hold ι}

/-- What can be folded in as a whole can be folded in as far as one likes. -/
theorem replayFrom_take {q : Party P E ε} {records : List Log.Record} {offset : Nat} {p : P}
    (whole : (q.replayFrom offset records p).isSome) (n : Nat) :
    (q.replayFrom offset (records.take n) p).isSome := by
  rw [← List.take_append_drop n records, Party.replayFrom_append] at whole
  exact Option.isSome_of_isSome_bind whole

/-- An acceptable log stops no service. -/
theorem not_blocked : ¬ Blocked party (Policy.acceptable (X := X) party p₀) i := by
  rintro ⟨w, m, n, r, s, ⟨faithful, acceptable⟩, ahead, position, entry, refused⟩
  obtain ⟨k, reflects⟩ := faithful i
  obtain rfl := reflects.position position
  have seen := (reflects.ahead ahead).replayed
  -- The entry has been folded in when the log was, and that went through what was seen here.
  have within : n + m ≤ w.log.records.length := (List.getElem?_eq_some_iff.1 entry).1.le
  have next := replayFrom_take (acceptable i) (n + m + 1)
  rw [List.take_add_one, entry, Option.toList_some, Party.replayFrom_concat, seen,
    List.length_take_of_le within, Nat.zero_add, Option.bind_some, refused] at next
  cases next

/-- A prudent method only has acceptable entries appended, since it has seen the whole log. -/
theorem considerate_of_prudent (alike : ∀ i j, (party i).Alike (party j))
    (timeless : ∀ i, (party i).folding.Timeless) (restores : ∀ i, (party i).set.Restores)
    {logic : Logic (Commons ι (fun _ => P) X) P E L O} (prudent : Prudent (party i) logic) :
    Considerate party (Policy.acceptable party p₀) i logic := by
  intro ctx earlier w s₀ s m output events text texts known cell ahead position ran encoded split j
  obtain ⟨faithful, acceptable⟩ := known
  obtain ⟨n, reflects⟩ := faithful i
  rw [cell] at reflects
  have seen := reflects.ahead ahead
  have whole : (party i).replayFrom 0 w.log.records p₀ = some s.projection := by
    have all := seen.replayed
    rwa [← seen.position position, Log.Memory.size, List.take_length] at all
  have stored := stored_of_split encoded split
  show ((party j).replayFrom 0
    (w.log.records ++ texts.map (Log.Record.mk w.clock.now)) p₀).isSome
  rw [(alike j i).replayFrom, Party.replayFrom_append, whole, Option.bind_some,
    Party.replayFrom_stored (timeless i) (restores i) stored]
  exact prudent ctx s.projection earlier output events ran

theorem Policy.acceptable_admits (alike : ∀ i j, (party i).Alike (party j))
    (timeless : ∀ i, (party i).folding.Timeless) (restores : ∀ i, (party i).set.Restores)
    {r : Request ι (fun _ => P) (fun _ => E) (fun _ => ε) X} (aloof : r.Aloof) (strict : r.Strict)
    (prudent : r.Prudent party) : (Policy.acceptable party p₀).Admits party r := by
  have fair : r.Methods fun i => Fair (E := fun _ => E) (Policy.acceptable party p₀) i := by
    refine Request.Methods.mono ?_ aloof
    exact fun i L O logic aloof => ⟨aloof, fun _ _ _ => trivial⟩
  cases r with
  | raw payload => cases prudent
  | sync i ctx => trivial
  | syncWith i ctx accepts =>
      intro e accepted
      cases (strict e).symm.trans accepted
  | version i ctx => trivial
  | readonly i ctx name logic => exact fair
  | append i ctx name logic => cases prudent
  | transaction i ctx name logic =>
      exact ⟨fair, considerate_of_prudent alike timeless restores prudent⟩
  | call i ctx name logic =>
      refine ⟨fair, fun declared => ?_, fun declared => absurd declared prudent.2⟩
      exact considerate_of_prudent alike timeless restores (prudent.1 declared)

/-- An acceptable log stays acceptable. -/
theorem Acts.acceptable (known : (Policy.acceptable party p₀).known w)
    (acts : Acts party (Policy.acceptable party p₀) h w w' h') :
    (Policy.acceptable party p₀).known w' := by
  refine ⟨acts.faithful (fun _ _ clean => clean) known.1, ?_⟩
  cases acts with
  | run i held log => exact log ▸ known.2
  | push texts pushes => exact pushes
  | _ => exact known.2

/-! ## In the long run -/

variable {allowed : Request ι (fun _ => P) (fun _ => E) (fun _ => ε) X → Prop}
  {outside : Commons ι (fun _ => P) X → Commons ι (fun _ => P) X → Prop}
  {start : Commons ι (fun _ => P) X}
  {pool : Request.Traffic ι (fun _ => P) (fun _ => E) (fun _ => ε) X}

/-- Services that use the same events in the same way and only let prudent transactions add
to their log can always take in all of it.  No entry ever stops one of them while it is
synchronized or while a transaction catches up, whatever is interrupted or tried again. -/
theorem entries_stay_acceptable (alike : ∀ i j, (party i).Alike (party j))
    (timeless : ∀ i, (party i).folding.Timeless) (restores : ∀ i, (party i).set.Restores)
    (methods : ∀ r, allowed r → r.Aloof ∧ r.Strict ∧ r.Prudent party)
    (outer : ∀ w w', outside w w' → Outside w w') (new : ∀ i, start.cell i = Cell.new p₀)
    (empty : start.log = Log.Memory.empty)
    (reachable : Pool.Reachable (Request.answer party) allowed outside start pool) :
    Acceptable party p₀ pool.state.log.records ∧
      (∀ i ctx moves e, ⟨.sync i ctx, moves, .done (.error e)⟩ ∈ pool.tasks →
        e.isBlocking = false) ∧
      (∀ i ctx accepts moves e,
        ⟨.syncWith i ctx accepts, moves, .done (.error e)⟩ ∈ pool.tasks → e.isBlocking = false) ∧
      (∀ i ctx name L O (logic : Logic (Commons ι (fun _ => P) X) P E L O) moves failure e,
        ⟨.transaction i ctx name logic, moves, .done (.error failure)⟩ ∈ pool.tasks →
          failure.sync? = some e → e.isBlocking = false) ∧
      ∀ i ctx name L O (logic : Logic (Commons ι (fun _ => P) X) P E L O) moves failure e,
        ⟨.call i ctx name logic, moves, .done (.error failure)⟩ ∈ pool.tasks →
          failure.sync? = some e → e.isBlocking = false := by
  have setting : Setting party (Policy.acceptable party p₀) allowed outside start := by
    refine ⟨fun _ _ _ clean => clean, fun known acts => acts.acceptable known, ?_, ?_, ?_, ?_⟩
    · rintro w w' ⟨faithful, acceptable⟩ happened
      obtain ⟨log, cell⟩ := outer w w' happened
      have grown : w.log.records <+: w'.log.records := log ▸ List.prefix_rfl
      exact ⟨⟨faithful.mono grown fun i => by rw [cell], log ▸ acceptable⟩, log, cell⟩
    · intro r may
      obtain ⟨aloof, strict, prudent⟩ := methods r may
      exact Policy.acceptable_admits alike timeless restores aloof strict prudent
    · refine ⟨faithful_of_new new, fun i => ?_⟩
      rw [empty]
      rfl
    · intro i
      rw [new i]
      exact ⟨rfl, rfl⟩
  have sound := setting.sound reachable
  have unblocked {i : ι} {e : SyncError ε}
      (founded : e.Founded party (Policy.acceptable (X := X) party p₀) i) :
      e.isBlocking = false := by
    cases blocking : e.isBlocking with
    | false => rfl
    | true => exact absurd (founded blocking) not_blocked
  refine ⟨sound.known.2, ?_, ?_, ?_, ?_⟩
  · intro i ctx moves e ended
    obtain ⟨_, _, _, answered⟩ := Pool.post_of_done sound ended
    exact unblocked (answered e rfl)
  · intro i ctx accepts moves e ended
    obtain ⟨_, _, _, answered⟩ := Pool.post_of_done sound ended
    exact unblocked (answered e rfl)
  · intro i ctx name L O logic moves failure e ended synced
    obtain ⟨_, _, _, answered⟩ := Pool.post_of_done sound ended
    exact unblocked (answered.2 failure e rfl synced)
  · intro i ctx name L O logic moves failure e ended synced
    obtain ⟨_, _, _, answered⟩ := Pool.post_of_done sound ended
    exact unblocked (answered.2 failure e rfl synced)

theorem Room.restores_passages : Room.passages.Restores where
  plain := by
    intro passage payload written
    cases written
    exact .null
  rebuilt := by
    intro passage payload written
    cases passage <;> rfl

theorem Room.prudent_of_wanted {r : Room.Asked} (wanted : Room.Wanted r) :
    r.Prudent Room.gate := by
  obtain ⟨i, rfl⟩ := wanted
  intro ctx n w output events entered
  by_cases place : n < 2
  · have entry : (Room.entry i ctx n w).1 = .ok (n, [.entered]) := if_pos place
    obtain ⟨rfl, rfl⟩ : n = output ∧ [.entered] = events := by
      rw [entry] at entered
      cases entered
      exact ⟨rfl, rfl⟩
    have subscribed : (Room.gate i).contract.subscribesTo
        ((Room.gate i).set.name .entered) = true := rfl
    have applied : (Room.gate i).folding.apply (.ofNat 0) 0 .entered n = (.ok (), n + 1) :=
      if_pos place
    rw [Party.acceptAll?, Party.accept?, if_pos subscribed, Folding.yield?, applied]
    rfl
  · have entry : (Room.entry i ctx n w).1 = .error () := if_neg place
    rw [entry] at entered
    cases entered

/-- No gate of a room is ever stopped by what another has appended. -/
theorem gates_stay_open : Acceptable Room.gate 0 Room.crowded.state.log.records :=
  (entries_stay_acceptable (fun _ _ => ⟨rfl, rfl, rfl⟩) (fun _ _ _ _ _ _ _ => rfl)
    (fun _ => Room.restores_passages)
    (fun _ wanted => ⟨Room.aloof_of_wanted wanted, Room.strict_of_wanted wanted,
      Room.prudent_of_wanted wanted⟩)
    (fun _ _ impossible => impossible.elim) Room.cell_empty rfl Room.reachable_crowded).1

end EventSourcing
