import EventSourcing.Proofs.Service.Dispatch
import EventSourcing.Proofs.Service.Optimistic
import EventSourcing.Proofs.Service.Timely

/-!
# Proofs.Service.Appending -- events appended whatever happened meanwhile

A call that appends runs its method once, on what is committed, and does not care which entries
that reflects.  What the method has given is settled afterwards, in a fixed order: an event that
the method may not emit comes before an interruption, and an interruption before events that
cannot be written (`Settled`).  Only the last move touches the log, so all events are appended at
one place or nothing is (`append_adds_all_or_nothing`).
-/

namespace EventSourcing

set_option autoImplicit false
set_option linter.unusedSectionVars false

open EventSourcing.Store (Cell Snapshot)
open EventSourcing.Text (Glyph)
open Service (CallFailure Emitted Logic)

variable {ι : Type} [DecidableEq ι] {P E ε : ι → Type} {X L O : Type}
  (party : (i : ι) → Party (P i) (E i) (ε i)) {i : ι} {ctx : Context}
  {logic : Logic (Commons ι P X) (P i) (E i) L O} {m : Contract.Method}

/-! ## Settling what was given -/

/-- What comes of what a method has given in its run, by the moves after the reading has ended.
In the end the log begins with `records`.  A context that was over when the method had run is over
when the call looks. -/
inductive Settled (i : ι) (ctx : Context) (m : Contract.Method) (records : List Log.Record)
    (run : Move (Commons ι P X)) : Except L (O × List (E i)) → List (Move (Commons ι P X)) →
      Except (CallFailure L (ε i)) (Emitted O (E i)) → Prop where
  | refused {e : L} : Settled i ctx m records run (.error e) [] (.error (.refused (.logic e)))
  | undeclared {output : O} {events : List (E i)} {u : Contract.Undeclared}
      (found : m.undeclared? (party i).set (party i).contract.name events = some u) :
      Settled i ctx m records run (.ok (output, events)) [] (.error (.aborted u))
  | interrupted {output : O} {events : List (E i)} {look : Commons ι P X} {reason : Interruption}
      (declared : m.undeclared? (party i).set (party i).contract.name events = none)
      (found : ctx.interruption? look.clock = some reason) :
      Settled i ctx m records run (.ok (output, events)) [⟨look, look⟩]
        (.error (.refused (.interrupted reason)))
  | nothing {output : O} {look : Commons ι P X} (ran : ctx.interruption? run.after.clock = none)
      (live : ctx.interruption? look.clock = none) :
      Settled i ctx m records run (.ok (output, [])) [⟨look, look⟩] (.ok ⟨output, [], none⟩)
  | unwritten {output : O} {events : List (E i)} {look : Commons ι P X} {e : EncodeError}
      (declared : m.undeclared? (party i).set (party i).contract.name events = none)
      (ran : ctx.interruption? run.after.clock = none) (live : ctx.interruption? look.clock = none)
      (nonempty : events ≠ []) (failed : (party i).set.encode events = .error e) :
      Settled i ctx m records run (.ok (output, events)) [⟨look, look⟩]
        (.error (.refused (.encode e)))
  | unsplit {output : O} {events : List (E i)} {look : Commons ι P X} {text : String}
      {e : Log.Error}
      (declared : m.undeclared? (party i).set (party i).contract.name events = none)
      (ran : ctx.interruption? run.after.clock = none) (live : ctx.interruption? look.clock = none)
      (nonempty : events ≠ []) (written : (party i).set.encode events = .ok text)
      (failed : Log.split (Glyph.ofString text) = .error e) :
      Settled i ctx m records run (.ok (output, events)) [⟨look, look⟩] (.error (.refused (.log e)))
  | appended {output : O} {events : List (E i)} {look : Commons ι P X} {n : Nat}
      {texts : List String} {push : Move (Commons ι P X)}
      (declared : m.undeclared? (party i).set (party i).contract.name events = none)
      (ran : ctx.interruption? run.after.clock = none) (live : ctx.interruption? look.clock = none)
      (nonempty : events ≠ []) (stored : events.mapM (party i).set.stored? = some texts)
      (pushes : Pushes n texts push)
      (entries : ((records.drop n).take texts.length).map Log.Record.payload = texts) :
      Settled i ctx m records run (.ok (output, events)) [⟨look, look⟩, push]
        (.ok ⟨output, events, some ⟨.ofNat n, .ofNat (n + texts.length)⟩⟩)

/-- A call that has run its method once, on what was committed, and has settled what the method
gave.  Beginning and ending to read, and whatever it did before, left the log alone. -/
structure RunOnce (i : ι) (ctx : Context) (m : Contract.Method)
    (logic : Logic (Commons ι P X) (P i) (E i) L O) (records : List Log.Record)
    (moves before : List (Move (Commons ι P X))) (begins run ends : Move (Commons ι P X))
    (later : List (Move (Commons ι P X)))
    (result : Except (CallFailure L (ε i)) (Emitted O (E i))) : Prop where
  moves : moves = before ++ begins :: run :: ends :: later
  quiet : Quiet (before ++ [begins, ends])
  ran : run.after = (logic ctx (run.before.cell i).committed.projection run.before).2
  settled : Settled party i ctx m records run
    (logic ctx (run.before.cell i).committed.projection run.before).1 later result

variable {party} {records : List Log.Record} {run : Move (Commons ι P X)}
  {later : List (Move (Commons ι P X))} {result : Except (CallFailure L (ε i)) (Emitted O (E i))}

/-- Whatever goes wrong after a method has run, nothing is appended. -/
theorem Settled.quiet_of_error {given : Except L (O × List (E i))} {failure : CallFailure L (ε i)}
    (settled : Settled party i ctx m records run given later (.error failure)) : Quiet later := by
  cases settled with
  | refused => exact fun mv member => (List.not_mem_nil member).elim
  | undeclared _ => exact fun mv member => (List.not_mem_nil member).elim
  | interrupted _ _ => exact List.forall_mem_singleton.2 rfl
  | unwritten _ _ _ _ _ => exact List.forall_mem_singleton.2 rfl
  | unsplit _ _ _ _ _ _ => exact List.forall_mem_singleton.2 rfl

/-- A context that is over when the method has run is noticed, unless the method has given events
that it may not. -/
theorem Settled.interrupted_of_over {output : O} {events : List (E i)}
    (settled : Settled party i ctx m records run (.ok (output, events)) later result)
    (declared : m.undeclared? (party i).set (party i).contract.name events = none)
    (expired : (ctx.interruption? run.after.clock).isSome) :
    ∃ reason, result = .error (.refused (.interrupted reason)) := by
  cases settled with
  | undeclared found => cases declared.symm.trans found
  | interrupted _ _ => exact ⟨_, rfl⟩
  | nothing ran _ => rw [ran] at expired; cases expired
  | unwritten _ ran _ _ _ => rw [ran] at expired; cases expired
  | unsplit _ ran _ _ _ _ => rw [ran] at expired; cases expired
  | appended _ ran _ _ _ _ _ => rw [ran] at expired; cases expired

/-- Without events nothing is appended. -/
theorem Settled.silent {given : Except L (O × List (E i))} {output : O}
    {appended : Option Log.Appended}
    (settled : Settled party i ctx m records run given later (.ok ⟨output, [], appended⟩)) :
    appended = none ∧ Quiet later := by
  cases settled with
  | nothing _ _ => exact ⟨rfl, List.forall_mem_singleton.2 rfl⟩
  | appended _ _ _ nonempty _ _ _ => exact absurd rfl nonempty

theorem pushes_of_push (w : Commons ι P X) (texts : List String) :
    Pushes w.log.size texts ⟨w, { w with log := (w.log.push w.clock.now texts).2 }⟩ :=
  ⟨rfl, rfl⟩

theorem appended_of_push (now : Nat) (texts : List String) (log : Log.Memory) :
    (log.push now texts).1 = ⟨.ofNat log.size, .ofNat (log.size + texts.length)⟩ := by
  rw [Log.Memory.push, Log.Memory.tip, Log.Memory.tip, Log.Memory.size, Log.Memory.size,
    List.length_append, List.length_map]

/-- What a call delivers in the end settles what its method has given. -/
theorem settled_of_delivers {output : O} {events : List (E i)}
    (delivers : (Request.service party i).Delivers Commons.logPart ctx m output events later
      (.done result))
    (expired : (ctx.interruption? run.after.clock).isSome →
      ∀ mv ∈ later, (ctx.interruption? mv.before.clock).isSome)
    (grown : ∀ mv ∈ later, mv.after.log.records <+: records) :
    Settled party i ctx m records run (.ok (output, events)) later result := by
  have alive {w : Commons ι P X} {rest : List (Move (Commons ι P X))}
      (looked : later = ⟨w, w⟩ :: rest) (live : ctx.interruption? w.clock = none) :
      ctx.interruption? run.after.clock = none := by
    refine Option.not_isSome_iff_eq_none.1 fun ended => ?_
    have found := expired ended ⟨w, w⟩ (looked ▸ List.mem_cons_self)
    rw [live] at found
    cases found
  generalize same : Fiber.done result = q at delivers
  cases delivers with
  | undeclared found =>
      cases same
      exact .undeclared found
  | declared _ pending => exact (pending.ne_done _ same.symm).elim
  | interrupted declared found =>
      cases same
      exact .interrupted declared found
  | nothing live =>
      cases same
      exact .nothing (alive rfl live) live
  | unwritten declared live nonempty failed =>
      cases same
      exact .unwritten declared (alive rfl live) live nonempty failed
  | unsplit declared live nonempty written failed =>
      cases same
      exact .unsplit declared (alive rfl live) live nonempty written failed
  | written _ _ pending => exact (pending.ne_done _ same.symm).elim
  | @appended _ w w₁ text texts declared live nonempty written split =>
      cases same
      have pushes := pushes_of_push w₁ texts
      have there := pushes.entries (grown _ (List.mem_cons_of_mem _ List.mem_cons_self))
      change Settled party i ctx m records run (.ok (output, events)) _
        (.ok ⟨output, events, some (w₁.log.push w₁.clock.now texts).1⟩)
      rw [appended_of_push]
      exact .appended declared (alive rfl live) live nonempty (stored_of_split written split)
        pushes there

/-! ## Reading what is committed -/

section Chains

variable {h h' : Hold ι} {w w' : Commons ι P X}

theorem readers_modify {j : ι} {f : Cell (P j) → Cell (P j)}
    (fewer : ∀ c, (f c).readers ≤ c.readers) :
    (((Commons.cellPart j).modify f w).cell i).readers ≤ (w.cell i).readers := by
  by_cases same : i = j
  · subst same
    rw [Commons.cell_modify_self]
    exact fewer _
  · rw [Commons.cell_modify_ne _ _ _ same]

/-- Whoever adds to those who read a store reads it. -/
theorem Conducts.reads (conducts : Conducts party h w w' h')
    (more : (w.cell i).readers < (w'.cell i).readers) : h' = .reads i := by
  obtain ⟨w₁, acts, cell, _⟩ := conducts
  rw [cell] at more
  have absurd (fewer : (w₁.cell i).readers ≤ (w.cell i).readers) : h' = .reads i :=
    absurd more (Nat.not_lt.2 fewer)
  cases acts with
  | tick clock => exact absurd (Nat.le_refl _)
  | run j _ _ cell => exact absurd (by rw [cell])
  | push texts => exact absurd (Nat.le_refl _)
  | beginRead j =>
      by_cases same : i = j
      · rw [same]
      · rw [Commons.cell_modify_ne _ _ _ same] at more
        exact (Nat.lt_irrefl _ more).elim
  | endRead j => exact absurd (readers_modify fun c => Nat.sub_le _ _)
  | beginWrite j => exact absurd (readers_modify fun c => Nat.le_refl _)
  | redraft j s => exact absurd (readers_modify fun c => Nat.le_refl _)
  | commit j => exact absurd (readers_modify fun c => Nat.le_refl _)
  | rollback j => exact absurd (readers_modify fun c => Nat.le_refl _)

/-- A call that begins to read when nobody writes finds what is committed in its next move. -/
theorem committed_of_chain {outside : Commons ι P X → Commons ι P X → Prop}
    (outer : ∀ w w', outside w w' → Outside w w') {before : List (Move (Commons ι P X))}
    {begins : Move (Commons ι P X)} (unwritten : (begins.before.cell i).draft = none)
    (began : begins.after = (Commons.cellPart i).modify Cell.beginRead begins.before)
    (chain : (civil party).Chain h w (before ++ begins :: run :: later) h' w') :
    (run.before.cell i).visible = (run.before.cell i).committed := by
  have cell : begins.after.cell i = (begins.before.cell i).beginRead := by
    rw [began, Commons.cell_modify_self]
  obtain ⟨_, _, _, since⟩ := chain.parts (harmony_civil outer)
  cases since with
  | move _ own on =>
      obtain rfl := Conducts.reads (i := i) own (by rw [cell]; exact Nat.lt_succ_self _)
      cases on with
      | move meanwhile _ _ =>
          obtain ⟨committed, visible⟩ := meanwhile.2
          rw [visible, committed, cell, Cell.visible, Cell.beginRead, unwritten]
          rfl

/-- Whatever a move of a chain leaves in the log stays there. -/
theorem grown_since {moves : List (Move (Commons ι P X))}
    (chain : (civil party).Chain h w moves h' w') :
    ∀ mv ∈ moves, mv.after.log.records <+: w'.log.records := by
  induction chain with
  | wait => exact fun mv member => (List.not_mem_nil member).elim
  | move _ own later ih =>
      refine List.forall_mem_cons.2 ⟨?_, ih⟩
      cases later with
      | wait meanwhile => exact meanwhile.1
      | move meanwhile own on =>
          exact meanwhile.1.trans ((Conducts.grows own).trans (ih _ List.mem_cons_self))

end Chains

/-! ## Whole calls -/

/-- A call of a method that is declared to append, by its name or as such, and what is left of
it. -/
def Appending (party : (i : ι) → Party (P i) (E i) (ε i)) (pool : Request.Traffic ι P E ε X)
    (i : ι) (ctx : Context) (name : String) (logic : Logic (Commons ι P X) (P i) (E i) L O)
    (moves : List (Move (Commons ι P X)))
    (left : Fiber (Commons ι P X) (Except (CallFailure L (ε i)) (Emitted O (E i)))) : Prop :=
  (party i).Declares name .append ∧
    (⟨.append i ctx name logic, moves, left⟩ ∈ pool.tasks ∨
      ⟨.call i ctx name logic, moves, left⟩ ∈ pool.tasks)

section Calls

variable {allowed : Request ι P E ε X → Prop} {outside : Commons ι P X → Commons ι P X → Prop}
  {start : Commons ι P X} {pool : Request.Traffic ι P E ε X} {name : String}
  {moves : List (Move (Commons ι P X))}
  {left : Fiber (Commons ι P X) (Except (CallFailure L (ε i)) (Emitted O (E i)))}

/-- The task that such a call is. -/
theorem Appending.task (appending : Appending party pool i ctx name logic moves left) :
    ∃ task ∈ pool.tasks, task.moves = moves := by
  obtain ⟨_, member | member⟩ := appending
  · exact ⟨_, member, rfl⟩
  · exact ⟨_, member, rfl⟩

/-- How such a call got where it is. -/
theorem Appending.leads (appending : Appending party pool i ctx name logic moves left)
    (reachable : Pool.Reachable (Request.answer party) allowed outside start pool) :
    ∃ m, (party i).contract.method? name = some m ∧
      ((Request.service party i).runAppend ctx m logic).Leads moves left := by
  obtain ⟨⟨m, declared, kind⟩, member⟩ := appending
  have same : (Request.service (X := X) party i).contract.method? name = some m := declared
  have entered : (Request.service party i).append ctx name logic =
      (Request.service party i).runAppend ctx m logic := by
    rw [Service.append, Service.method_of_declared same, if_pos kind]
  refine ⟨m, declared, ?_⟩
  rw [← entered]
  rcases member with member | member
  · exact Pool.leads_of_reachable reachable _ member
  · rw [← Service.call_eq_append same kind]
    exact Pool.leads_of_reachable reachable _ member

theorem idle_of_waits (waits : Service.Waits Commons.clockPart moves) : Idle moves := by
  intro mv member
  obtain ⟨clock, same⟩ := waits mv member
  rw [same]
  exact ⟨rfl, rfl⟩

end Calls

/-- A call that has run its method on what is committed. -/
theorem runOnce_of_consulted {h h' : Hold ι} {w w' : Commons ι P X}
    {outside : Commons ι P X → Commons ι P X → Prop}
    (outer : ∀ w w', outside w w' → Outside w w') {led before : List (Move (Commons ι P X))}
    {begins ends : Move (Commons ι P X)}
    (consulted : (Request.service party i).Consulted ctx logic led before begins run ends)
    (chain : (civil party).Chain h w (led ++ later) h' w')
    (settled : Settled party i ctx m records run
      ((Request.service party i).given ctx logic run.before) later result) :
    RunOnce party i ctx m logic records (led ++ later) before begins run ends later result := by
  obtain ⟨rfl, waits, began, ran, completed⟩ := consulted
  obtain ⟨unwritten, _, begun⟩ := Cell.read_eq_some began
  rw [List.append_assoc] at chain
  have committed := committed_of_chain outer unwritten begun chain
  have projected : (Request.service party i).store.projection run.before =
      (run.before.cell i).committed.projection := congrArg Snapshot.projection committed
  constructor
  case moves => simp
  case quiet =>
    refine List.forall_mem_append.2 ⟨fun mv member => (idle_of_waits waits mv member).1, ?_⟩
    refine List.forall_mem_cons.2 ⟨?_, List.forall_mem_singleton.2 ?_⟩
    · rw [begun]
      rfl
    · rw [completed]
      rfl
  case ran => rw [← projected]; exact ran
  case settled => rw [← projected]; exact settled

/-- A call that appends and has ended was interrupted while it waited, or has run its method. -/
theorem runOnce_of_leads {h h' : Hold ι} {w w' : Commons ι P X}
    {outside : Commons ι P X → Commons ι P X → Prop}
    (outer : ∀ w w', outside w w' → Outside w w') {moves : List (Move (Commons ι P X))}
    (leads : ((Request.service party i).runAppend ctx m logic).Leads moves (.done result))
    (chain : (civil party).Chain h w moves h' w')
    (expired : ∀ {before run later}, moves = before ++ run :: later →
      (ctx.interruption? run.after.clock).isSome →
        ∀ mv ∈ later, (ctx.interruption? mv.before.clock).isSome) :
    (Idle moves ∧ ∃ reason, result = .error (.refused (.interrupted reason))) ∨
      ∃ before begins run ends later,
        RunOnce party i ctx m logic w'.log.records moves before begins run ends later result := by
  rcases Service.parts_of_runAppend (fun _ _ => rfl) leads with ⟨_, _, _, pending⟩ |
    ⟨e, consults, same⟩ | ⟨output, events, led, later, rfl, consults, delivers⟩
  · exact pending.elim
  · cases same
    rcases consults.of_done with ⟨waits, reason, same⟩ | ⟨_, _, _, _, _, failed, _⟩ |
      ⟨before, begins, run, ends, consulted, told⟩
    · cases same
      exact .inl ⟨idle_of_waits waits, reason, rfl⟩
    · cases (Cell.read_eq_some failed).2.1
    · obtain ⟨e, given, rfl⟩ := Service.told_eq_error told.symm
      refine .inr ⟨before, begins, run, ends, [], ?_⟩
      rw [← List.append_nil moves] at chain ⊢
      refine runOnce_of_consulted outer consulted chain ?_
      rw [given]
      exact .refused
  · rcases consults.of_done with ⟨_, _, same⟩ | ⟨_, _, _, _, _, _, same⟩ |
      ⟨before, begins, run, ends, consulted, told⟩
    · cases same
    · cases same
    have parted : led ++ later = (before ++ [begins]) ++ run :: ends :: later := by
      rw [consulted.moves]
      simp
    refine .inr ⟨before, begins, run, ends, later, runOnce_of_consulted outer consulted chain ?_⟩
    rw [Service.told_eq_ok told.symm]
    refine settled_of_delivers delivers (fun ended mv next => ?_) fun mv last => ?_
    · exact expired parted ended mv (List.mem_cons_of_mem _ next)
    · exact grown_since chain mv (List.mem_append_right _ last)

/-- A call that appends was interrupted before it could read, or it has run its method once on
what was committed, whatever version that is of, and has settled what the method gave, in spite of
all that others append in the meantime.  If the call succeeds with events, then these and no
others were appended, at one place, which it returns and where they stay; if it succeeds without
events, or fails in any way, then none of its moves but the run itself has changed the log.  If
the context was over when the method had run, then this comes before everything but an event that
the method may not emit. -/
theorem append_adds_all_or_nothing {allowed : Request ι P E ε X → Prop}
    {outside : Commons ι P X → Commons ι P X → Prop} {start : Commons ι P X}
    {pool : Request.Traffic ι P E ε X} {i : ι} {ctx : Context} {name : String}
    {logic : Logic (Commons ι P X) (P i) (E i) L O} {moves : List (Move (Commons ι P X))}
    {result : Except (CallFailure L (ε i)) (Emitted O (E i))}
    (methods : ∀ r, allowed r → r.Civil ∧ r.Punctual)
    (outer : ∀ w w', outside w w' → Outside w w' ∧ w.Onward w')
    (free : ∀ i, (start.cell i).readers = 0 ∧ (start.cell i).draft = none)
    (reachable : Pool.Reachable (Request.answer party) allowed outside start pool)
    (appending : Appending party pool i ctx name logic moves (.done result)) :
    ∃ m, (party i).contract.method? name = some m ∧
      ((Idle moves ∧ ∃ reason, result = .error (.refused (.interrupted reason))) ∨
        ∃ before begins run ends later,
          RunOnce party i ctx m logic pool.state.log.records moves before begins run ends later
            result ∧
          (∀ failure, result = .error failure → Quiet later) ∧
          (∀ output appended, result = .ok ⟨output, [], appended⟩ →
            appended = none ∧ Quiet later) ∧
          ∀ output events,
            (logic ctx (run.before.cell i).committed.projection run.before).1 =
              .ok (output, events) →
            m.undeclared? (party i).set (party i).contract.name events = none →
              (ctx.interruption? run.after.clock).isSome →
                ∃ reason, result = .error (.refused (.interrupted reason))) := by
  obtain ⟨m, declared, leads⟩ := appending.leads reachable
  refine ⟨m, declared, ?_⟩
  obtain ⟨task, member, rfl⟩ := appending.task
  have civil (r) (may : allowed r) := (methods r may).1
  have outer' (w w' : Commons ι P X) (happened : outside w w') := (outer w w' happened).1
  obtain ⟨w₀, h, chain⟩ := chain_of_civil civil outer' free reachable task member
  have expired {before later : List (Move (Commons ι P X))} {run : Move (Commons ι P X)}
      (parted : task.moves = before ++ run :: later) :=
    over_of_reachable ctx (fun r may => (methods r may).2)
      (fun w w' happened => (outer w w' happened).2) reachable member parted
  rcases runOnce_of_leads outer' leads chain expired with waited |
    ⟨before, begins, run, ends, later, once⟩
  · exact .inl waited
  · refine .inr ⟨before, begins, run, ends, later, once, ?_, ?_, ?_⟩
    · rintro failure rfl
      exact once.settled.quiet_of_error
    · rintro output appended rfl
      exact once.settled.silent
    · intro output events given declared expired
      have settled := once.settled
      rw [given] at settled
      exact settled.interrupted_of_over declared expired

/-! ## A room with a turnstile -/

namespace Room

/-- A gate that lets everybody pass. -/
def turnstile (_ : Bool) : Party Nat Passage Unit where
  contract :=
    { name := "Room"
      events := ["Entered", "Left"]
      subscriptions := ["Entered", "Left"]
      methods := [⟨"pass", .append, ["Entered"]⟩] }
  set := passages
  folding := counting
  rounds := 3

abbrev Moving := Request Bool (fun _ => Nat) (fun _ => Passage) (fun _ => Unit) Unit

/-- Lets someone in, however many there are. -/
def pass : Logic (World Unit) Nat Passage Unit Nat :=
  fun _ n w => (.ok (n, [.entered]), w)

/-- Lets someone in who changes his mind. -/
def hesitate : Logic (World Unit) Nat Passage Unit Nat :=
  fun ctx n w => (.ok (n, [.entered]), { w with clock := w.clock.cancelFamily ctx.family })

def passing : Moving :=
  .append true ⟨0, none⟩ "pass" pass

def hesitating : Moving :=
  .call true ⟨1, some 5⟩ "pass" hesitate

def scribbling : Moving :=
  .raw (Glyph.ofString "[1,2]")

def Done (r : Moving) : Prop :=
  r = passing ∨ r = hesitating ∨ r = scribbling

def Passes (w w' : World Unit) : Prop :=
  ∃ time, w' = { w with clock := w.clock.advanceTo time }

theorem civil_of_done {r : Moving} (done : Done r) : r.Civil ∧ r.Punctual := by
  rcases done with rfl | rfl | rfl
  · exact ⟨fun _ _ _ => ⟨List.prefix_rfl, rfl⟩, fun _ _ _ => .refl _⟩
  · exact ⟨fun _ _ _ => ⟨List.prefix_rfl, rfl⟩, fun _ _ _ => Clock.onward_cancelFamily _ _⟩
  · exact ⟨trivial, trivial⟩

theorem outside_of_passes {w w' : World Unit} (passes : Passes w w') :
    Outside w w' ∧ w.Onward w' := by
  obtain ⟨time, rfl⟩ := passes
  exact ⟨⟨rfl, rfl⟩, (Clock.later_advanceTo time w.clock).toOnward⟩

def bare : World Unit :=
  ⟨.start, .empty, fun _ => .new 0, ()⟩

/-- Two entries are scribbled while someone passes, and someone hesitates afterwards. -/
def jostling : List (Cue Moving) :=
  .start passing :: .start scribbling :: .start hesitating ::
    (List.replicate 5 (.turn 0) ++ .turn 1 :: .turn 0 :: List.replicate 5 (.turn 2))

@[irreducible] def jostled :
    Request.Traffic Bool (fun _ => Nat) (fun _ => Passage) (fun _ => Unit) Unit :=
  Pool.play (Request.answer turnstile) jostling ⟨bare, []⟩

theorem reachable_jostled :
    Pool.Reachable (Request.answer turnstile) Done Passes bare jostled := by
  unfold jostled
  refine Pool.reachable_play (fun r member => ?_) .refl
  simp only [jostling, List.mem_cons, List.mem_append, List.mem_replicate, Cue.start.injEq,
    reduceCtorEq, and_false, or_false] at member
  rcases member with rfl | rfl | rfl
  · exact .inl rfl
  · exact .inr (.inr rfl)
  · exact .inr (.inl rfl)

/-- Whether someone was let in behind two entries. -/
def letInThird : (r : Moving) → r.Result → Bool
  | .append _ _ _ _, .ok ⟨_, _, some place⟩ => place.offset.text == "2"
  | _, _ => false

def keptOut : (r : Moving) → r.Result → Bool
  | .call _ _ _ _, .error _ => true
  | _, _ => false

theorem one_passes :
    (∃ moves result, ⟨passing, moves, .done result⟩ ∈ jostled.tasks ∧
      letInThird passing result) ∧
    ∃ moves result, ⟨hesitating, moves, .done result⟩ ∈ jostled.tasks ∧
      keptOut hesitating result := by
  unfold jostled
  have first : (Pool.requests jostling)[0]? = some passing := rfl
  have third : (Pool.requests jostling)[2]? = some hesitating := rfl
  exact ⟨Pool.ended_play first (by decide +kernel), Pool.ended_play third (by decide +kernel)⟩

end Room

/-- Whoever passes is let in once, behind what was scribbled meanwhile, and stays in.  Whoever
changes his mind when he is let in is told that he was interrupted. -/
theorem passing_appends_once :
    (∃ moves before begins run ends later output events place,
      place.offset.text = "2" ∧
      ⟨Room.passing, moves, .done (.ok ⟨output, events, some place⟩)⟩ ∈ Room.jostled.tasks ∧
        RunOnce Room.turnstile true ⟨0, none⟩ ⟨"pass", .append, ["Entered"]⟩ Room.pass
          Room.jostled.state.log.records moves before begins run ends later
          (.ok ⟨output, events, some place⟩)) ∧
    ∃ moves reason, ⟨Room.hesitating, moves, .done (.error (.refused (.interrupted reason)))⟩ ∈
      Room.jostled.tasks := by
  have declared : (Room.turnstile true).Declares "pass" .append := ⟨_, rfl, rfl⟩
  obtain ⟨⟨moves, passed, member, third⟩, moves', kept, member', _⟩ := Room.one_passes
  constructor
  · obtain ⟨m, found, settled⟩ := append_adds_all_or_nothing (fun _ => Room.civil_of_done)
      (fun _ _ => Room.outside_of_passes) (fun _ => ⟨rfl, rfl⟩) Room.reachable_jostled
      ⟨declared, .inl member⟩
    cases found
    match passed, third, member, settled with
    | .ok ⟨output, events, some place⟩, third, member, settled =>
        rcases settled with ⟨_, reason, same⟩ | ⟨before, begins, run, ends, later, once, _⟩
        · cases same
        · exact ⟨moves, before, begins, run, ends, later, output, events, place,
            of_decide_eq_true third, member, once⟩
  · obtain ⟨m, found, settled⟩ := append_adds_all_or_nothing (fun _ => Room.civil_of_done)
      (fun _ _ => Room.outside_of_passes) (fun _ => ⟨rfl, rfl⟩) Room.reachable_jostled
      ⟨declared, .inr member'⟩
    cases found
    rcases settled with ⟨_, reason, rfl⟩ | ⟨_, _, run, _, _, once, _, _, interrupted⟩
    · exact ⟨moves', reason, member'⟩
    · have expired : (Context.interruption? ⟨1, some 5⟩ run.after.clock).isSome := by
        rw [once.ran]
        simp [Room.hesitate, Context.interruption?, Clock.cancelFamily, Clock.raise, Clock.notify]
      obtain ⟨reason, rfl⟩ := interrupted _ _ rfl rfl expired
      exact ⟨moves', reason, member'⟩

end EventSourcing
