import EventSourcing.Proofs.Fiber.Schedule
import EventSourcing.Proofs.Service.Journal

/-!
# Proofs.Service.Prefix -- a projection reflects a prefix of the log

A store that begins without a version holds at any time the fold of the first entries of
the log, as many of them as its version says, whatever calls are made, fail, and are
interrupted on the way (`setting_faithful`).  Methods are only ever given such
projections.  From one state to the next the version of a store never goes back.
-/

namespace EventSourcing

set_option autoImplicit false
set_option linter.unusedSectionVars false

open EventSourcing.Store (Cell Snapshot)
open Service (CallFailure Emitted Logic)

variable {ι : Type} [DecidableEq ι] {P E ε : ι → Type} {X L O : Type}
  (party : (i : ι) → Party (P i) (E i) (ε i)) (p₀ : (i : ι) → P i)

/-- Every store reflects a prefix of the log. -/
def Faithful (w : Commons ι P X) : Prop :=
  ∀ i, ∃ n, (party i).Reflects (p₀ i) w.log.records (w.cell i).committed n

variable {party p₀} {policy : Policy ι P X} {w w' : Commons ι P X} {h h' : Hold ι}

theorem faithful_of_new (new : ∀ i, w.cell i = Cell.new (p₀ i)) : Faithful party p₀ w := by
  intro i
  rw [new i]
  exact ⟨0, .new⟩

theorem Faithful.mono (faithful : Faithful party p₀ w)
    (grown : w.log.records <+: w'.log.records)
    (committed : ∀ i, (w'.cell i).committed = (w.cell i).committed) : Faithful party p₀ w' := by
  intro i
  obtain ⟨n, reflects⟩ := faithful i
  rw [committed i]
  exact ⟨n, reflects.mono grown⟩

/-- Every draft that is as it should be reflects a prefix of the log. -/
theorem Faithful.visible (faithful : Faithful party p₀ w) {i : ι} (clean : Clean party i w) :
    ∃ n m, (party i).Reflects (p₀ i) w.log.records (w.cell i).committed n ∧
      (party i).Reflects (p₀ i) w.log.records (w.cell i).visible (n + m) := by
  obtain ⟨n, reflects⟩ := faithful i
  obtain ⟨m, ahead⟩ := clean
  exact ⟨n, m, reflects, reflects.ahead ahead⟩

/-- A change of one store that leaves its committed snapshot in place. -/
theorem committed_modify {i : ι} (f : Cell (P i) → Cell (P i))
    (same : ∀ c, (f c).committed = c.committed) (w : Commons ι P X) (j : ι) :
    (((Commons.cellPart i).modify f w).cell j).committed = (w.cell j).committed := by
  by_cases here : j = i
  · subst here
    rw [Commons.cell_modify_self, same]
  · rw [Commons.cell_modify_ne _ _ _ here]

/-- Only a commit changes what is committed, and only in its own store. -/
theorem Acts.committed (acts : Acts party policy h w w' h') (i : ι) :
    (w'.cell i).committed = (w.cell i).committed ∨
      policy.commits i w ∧ (w'.cell i).committed = (w.cell i).visible := by
  cases acts with
  | tick clock => exact .inl rfl
  | run j _ _ cell => exact .inl (by rw [cell])
  | push texts => exact .inl rfl
  | beginRead j => exact .inl (committed_modify Cell.beginRead (fun _ => rfl) w i)
  | endRead j => exact .inl (committed_modify Cell.endRead (fun _ => rfl) w i)
  | beginWrite j => exact .inl (committed_modify Cell.beginWrite (fun _ => rfl) w i)
  | redraft j s => exact .inl (committed_modify (Cell.modifyDraft fun _ => s) (fun _ => rfl) w i)
  | commit j commits =>
      by_cases here : i = j
      · subst here
        exact .inr ⟨commits, by rw [Commons.cell_modify_self]; rfl⟩
      · exact .inl (by rw [Commons.cell_modify_ne _ _ _ here])
  | rollback j => exact .inl (committed_modify Cell.rollback (fun _ => rfl) w i)

/-- A move of a call takes a store on by some entries, if it moves it at all. -/
theorem Acts.advances (careful : ∀ i w, policy.commits i w → Clean party i w)
    (faithful : Faithful party p₀ w) (acts : Acts party policy h w w' h') (i : ι) :
    ∃ n m, (party i).Reflects (p₀ i) w.log.records (w.cell i).committed n ∧
      (party i).Reflects (p₀ i) w'.log.records (w'.cell i).committed (n + m) := by
  have grown := acts.grows
  rcases acts.committed i with same | ⟨commits, visible⟩
  · obtain ⟨n, reflects⟩ := faithful i
    refine ⟨n, 0, reflects, ?_⟩
    rw [same]
    exact reflects.mono grown
  · obtain ⟨n, m, reflects, ahead⟩ := faithful.visible (careful i w commits)
    refine ⟨n, m, reflects, ?_⟩
    rw [visible]
    exact ahead.mono grown

theorem Acts.faithful (careful : ∀ i w, policy.commits i w → Clean party i w)
    (faithful : Faithful party p₀ w) (acts : Acts party policy h w w' h') :
    Faithful party p₀ w' := by
  intro i
  obtain ⟨n, m, _, reflects⟩ := acts.advances careful faithful i
  exact ⟨n + m, reflects⟩

/-! ## What methods are given -/

variable (journal : X → List (Note ι P))

/-- Every note is one of a projection that reflected the log. -/
def Truthful (party : (i : ι) → Party (P i) (E i) (ε i)) (p₀ : (i : ι) → P i)
    (w : Commons ι P X) : Prop :=
  ∀ note ∈ journal w.rest, ∃ n, (party note.1).Reflects (p₀ note.1) w.log.records note.2 n

/-- The stores are faithful and the notes are true; runs of methods note what they see. -/
def Policy.faithful (party : (i : ι) → Party (P i) (E i) (ε i)) (p₀ : (i : ι) → P i) :
    Policy ι P X where
  known w := Faithful party p₀ w ∧ Truthful journal party p₀ w
  runs i w w' := ∀ note ∈ journal w'.rest, note ∈ journal w.rest ∨ note = ⟨i, (w.cell i).visible⟩
  commits := Clean party
  pushes _ _ := True

variable {journal}

theorem Truthful.mono (truthful : Truthful journal party p₀ w)
    (grown : w.log.records <+: w'.log.records)
    (noted : ∀ note ∈ journal w'.rest, note ∈ journal w.rest) : Truthful journal party p₀ w' := by
  intro note member
  obtain ⟨n, reflects⟩ := truthful note (noted note member)
  exact ⟨n, reflects.mono grown⟩

theorem Acts.truthful (faithful : Faithful party p₀ w) (truthful : Truthful journal party p₀ w)
    (acts : Acts party (Policy.faithful journal party p₀) h w w' h') :
    Truthful journal party p₀ w' := by
  have grown := acts.grows
  cases acts with
  | run i held log cell clean runs =>
      intro note member
      rcases runs note member with old | rfl
      · obtain ⟨n, reflects⟩ := truthful note old
        exact ⟨n, reflects.mono grown⟩
      · obtain ⟨n, m, _, reflects⟩ := faithful.visible clean
        exact ⟨n + m, reflects.mono grown⟩
  | _ => exact truthful.mono grown fun note member => member

theorem Policy.faithful_admits {r : Request ι P E ε X} (noting : r.Noting journal)
    (strict : r.Strict) : (Policy.faithful journal party p₀).Admits party r := by
  refine Policy.admits_of_open (fun _ _ _ => trivial) ?_ (.inl strict)
  exact noting.mono fun i L O logic noting => ⟨noting.1, fun ctx w _ => noting.2 ctx _ w⟩

/-! ## In the long run -/

variable {allowed : Request ι P E ε X → Prop} {outside : Commons ι P X → Commons ι P X → Prop}
  {start : Commons ι P X} {pool : Request.Traffic ι P E ε X}

theorem setting_faithful (methods : ∀ r, allowed r → r.Noting journal ∧ r.Strict)
    (outer : ∀ w w', outside w w' →
      Outside w w' ∧ ∀ note ∈ journal w'.rest, note ∈ journal w.rest)
    (new : ∀ i, start.cell i = Cell.new (p₀ i)) (blank : journal start.rest = []) :
    Setting party (Policy.faithful journal party p₀) allowed outside start where
  lenient := fun _ _ _ clean => clean
  acts := fun known acts =>
    ⟨acts.faithful (fun _ _ clean => clean) known.1, acts.truthful known.1 known.2⟩
  outer := by
    rintro w w' ⟨faithful, truthful⟩ happened
    obtain ⟨⟨log, cell⟩, noted⟩ := outer w w' happened
    have grown : w.log.records <+: w'.log.records := log ▸ List.prefix_rfl
    exact ⟨⟨faithful.mono grown fun i => by rw [cell], truthful.mono grown noted⟩, log, cell⟩
  admitted := fun r may => Policy.faithful_admits (methods r may).1 (methods r may).2
  known := by
    refine ⟨faithful_of_new new, ?_⟩
    intro note member
    rw [blank] at member
    cases member
  free := fun i => by rw [new i]; exact ⟨rfl, rfl⟩

/-- At any time every store holds its first projection with the first entries of the log
folded in, each once and in order, and its version says how many these are; all of them are
events.  The same goes for whatever a method was given.  The version never goes back. -/
theorem projection_reflects_prefix (methods : ∀ r, allowed r → r.Noting journal ∧ r.Strict)
    (outer : ∀ w w', outside w w' →
      Outside w w' ∧ ∀ note ∈ journal w'.rest, note ∈ journal w.rest)
    (new : ∀ i, start.cell i = Cell.new (p₀ i)) (blank : journal start.rest = [])
    (reachable : Pool.Reachable (Request.answer party) allowed outside start pool) :
    (∀ i, ∃ n, (party i).Reflects (p₀ i) pool.state.log.records (pool.state.cell i).committed n ∧
      ∀ r ∈ pool.state.log.records.take n,
        ∃ event, (party i).set.decodeText r.payload = .ok event) ∧
    (∀ i s, ⟨i, s⟩ ∈ journal pool.state.rest →
      ∃ n, (party i).Reflects (p₀ i) pool.state.log.records s n) ∧
    ∀ pool', Pool.Step (Request.answer party) allowed outside pool pool' → ∀ i, ∃ n n', n ≤ n' ∧
      (party i).Reflects (p₀ i) pool.state.log.records (pool.state.cell i).committed n ∧
        (party i).Reflects (p₀ i) pool'.state.log.records (pool'.state.cell i).committed n' := by
  have setting : Setting party (Policy.faithful journal party p₀) allowed outside start :=
    setting_faithful methods outer new blank
  obtain ⟨faithful, truthful⟩ := (setting.sound reachable).known
  refine ⟨fun i => ?_, fun i s noted => truthful ⟨i, s⟩ noted, fun pool' step i => ?_⟩
  · obtain ⟨n, reflects⟩ := faithful i
    exact ⟨n, reflects, (party i).decodes_of_replayFrom reflects.replayed⟩
  · have change := setting.change reachable step
    cases change with
    | none same =>
        obtain ⟨n, reflects⟩ := faithful i
        exact ⟨n, n, le_rfl, reflects, by rw [same]; exact reflects⟩
    | own acts =>
        obtain ⟨n, m, before, after⟩ := Acts.advances (fun _ _ clean => clean) faithful acts i
        exact ⟨n, n + m, Nat.le_add_right n m, before, after⟩
    | outside happened =>
        obtain ⟨log, cell⟩ := (outer _ _ happened).1
        obtain ⟨n, reflects⟩ := faithful i
        exact ⟨n, n, le_rfl, reflects, by rw [log, cell]; exact reflects⟩

/-! ## A room with two gates

People enter a room for two through one of two gates.  The service at each gate keeps a count of
its own, and the gates share nothing but a log.  Two people come at the same time: the one at the
first gate is overtaken, and what the gate had decided has to be decided again
(`Room.overtaken_enters`). -/

namespace Room

inductive Passage where
  | entered
  | left
  deriving DecidableEq, Repr

def passages : EventSet Passage where
  names := ["Entered", "Left"]
  name
    | .entered => "Entered"
    | .left => "Left"
  toPayload _ := .ok .null
  fromPayload name _ :=
    if name = "Entered" then .ok .entered
    else if name = "Left" then .ok .left
    else .error (.unknownEvent name ["Entered", "Left"])

/-- How many people are in the room after a passage; there is no place for a third. -/
def counting : Folding Nat Passage Unit where
  apply _ _ passage n :=
    match passage with
    | .entered => if n < 2 then (.ok (), n + 1) else (.error (), n)
    | .left => if 0 < n then (.ok (), n - 1) else (.error (), n)

def gate (_ : Bool) : Party Nat Passage Unit where
  contract :=
    { name := "Room"
      events := ["Entered", "Left"]
      subscriptions := ["Entered", "Left"]
      methods := [⟨"enter", .transaction, ["Entered"]⟩] }
  set := passages
  folding := counting
  rounds := 3

abbrev World := Commons Bool (fun _ => Nat)

def enter : Logic (World Unit) Nat Passage Unit Nat := fun _ n w =>
  (if n < 2 then .ok (n, [.entered]) else .error (), w)

/-- What each gate was shown, the last first. -/
abbrev Shown := Unit × List (Note Bool fun _ => Nat)

/-- How it is done at a gate, where everything that is shown is noted. -/
def entry (i : Bool) : Logic (World Shown) Nat Passage Unit Nat :=
  noted (P := fun _ => Nat) (E := fun _ => Passage) i enter

abbrev Asked := Request Bool (fun _ => Nat) (fun _ => Passage) (fun _ => Unit) Shown

def entering (i : Bool) : Asked :=
  .transaction i ⟨0, none⟩ "enter" (entry i)

def Wanted (r : Asked) : Prop :=
  ∃ i, r = entering i

theorem noting_of_wanted {r : Asked} (wanted : Wanted r) : r.Noting Prod.snd := by
  obtain ⟨i, rfl⟩ := wanted
  exact ⟨aloof_noted fun ctx n w => ⟨rfl, rfl⟩, notes_noted⟩

theorem aloof_of_wanted {r : Asked} (wanted : Wanted r) : r.Aloof :=
  (noting_of_wanted wanted).mono fun _ _ _ _ noting => noting.1

theorem strict_of_wanted {r : Asked} (wanted : Wanted r) : r.Strict := by
  obtain ⟨i, rfl⟩ := wanted
  trivial

def empty : World Shown :=
  ⟨.start, .empty, fun _ => .new 0, ((), [])⟩

theorem cell_empty (i : Bool) : empty.cell i = Cell.new 0 :=
  rfl

/-- The second gate finishes while the first is about to append. -/
def overtaking : List (Cue Asked) :=
  .start (entering true) :: .start (entering false) ::
    (List.replicate 5 (.turn 0) ++ List.replicate 7 (.turn 1) ++ List.replicate 9 (.turn 0))

@[irreducible] def crowded :
    Request.Traffic Bool (fun _ => Nat) (fun _ => Passage) (fun _ => Unit) Shown :=
  Pool.play (Request.answer gate) overtaking ⟨empty, []⟩

theorem reachable_crowded :
    Pool.Reachable (Request.answer gate) Wanted (fun _ _ => False) empty crowded := by
  unfold crowded
  refine Pool.reachable_play (fun r member => ?_) .refl
  simp only [overtaking, List.mem_cons, List.mem_append, List.mem_replicate, Cue.start.injEq,
    reduceCtorEq, and_false, or_false] at member
  rcases member with rfl | rfl
  · exact ⟨true, rfl⟩
  · exact ⟨false, rfl⟩

def letIn : (r : Asked) → r.Result → Bool
  | .transaction _ _ _ _, .ok ⟨_, _, some _⟩ => true
  | _, _ => false

/-- Whoever was overtaken enters all the same. -/
theorem overtaken_enters : ∃ moves output events appended,
    ⟨entering true, moves, .done (.ok ⟨output, events, some appended⟩)⟩ ∈ crowded.tasks := by
  unfold crowded
  have ended : ((Pool.play (Request.answer gate) overtaking ⟨empty, []⟩).tasks[0]?).any
      (Task.endedWith letIn) = true := by decide +kernel
  obtain ⟨moves, result, member, good⟩ := Pool.ended_play (r := entering true) rfl ended
  match result, good with
  | .ok ⟨output, events, some appended⟩, _ => exact ⟨moves, output, events, appended, member⟩

end Room

/-- Each gate of a room counts just the people who entered before. -/
theorem gates_count_prefix :
    (∀ i, ∃ n, (Room.gate i).Reflects 0 Room.crowded.state.log.records
      (Room.crowded.state.cell i).committed n) ∧
    ∀ i s, ⟨i, s⟩ ∈ Room.crowded.state.rest.2 →
      ∃ n, (Room.gate i).Reflects 0 Room.crowded.state.log.records s n := by
  obtain ⟨committed, noted, _⟩ := projection_reflects_prefix
    (fun r wanted => ⟨Room.noting_of_wanted wanted, Room.strict_of_wanted wanted⟩)
    (fun _ _ impossible => impossible.elim) Room.cell_empty rfl Room.reachable_crowded
  refine ⟨fun i => ?_, noted⟩
  obtain ⟨n, reflects, _⟩ := committed i
  exact ⟨n, reflects⟩

end EventSourcing
