import EventSourcing.Log.Interleaving
import EventSourcing.Log.Memory
import EventSourcing.Proofs.Fiber.Trail

/-!
# Proofs.Log.Injecting -- what calls do to the queue of a second writer

A conditional append takes all batches out of the queue when it moves first.  It then has the
inner log append one after the other, and what comes after that is the inner log's conditional
append; if the inner log refuses a batch, the call ends with that refusal, and neither the batch
nor any behind it is appended (`stage_of_leads`).  All other calls are the inner log's, and leave
the queue alone.  Main statement: at any time a call has done what its request says
(`Request.course_of_leads`).
-/

namespace EventSourcing.Log

set_option autoImplicit false

variable {W : Type}

/-! ## Who leaves the queue alone -/

def Visitor.Keeps {σ ε : Type} (may : W → W → Prop) (visitor : Visitor W σ ε) : Prop :=
  ∀ entry s w, may w (visitor entry s w).2

structure Attempt.Keeps {σ ε : Type} (may : W → W → Prop) (attempt : Attempt W σ ε) : Prop where
  produce : ∀ s w, may w (attempt.produce s w).2
  resync : ∀ s, (attempt.resync s).Keeps may

namespace Queue

/-- A move that leaves the queue alone. -/
def Untouched (queue : Part W Queue) (w w' : W) : Prop :=
  queue.get w' = queue.get w

/-- A move by which one more batch waits, if it changes the queue at all. -/
def Polite (queue : Part W Queue) (w w' : W) : Prop :=
  Untouched queue w w' ∨ ∃ batch, queue.get w' =
    { queue.get w with pending := (queue.get w).pending ++ [batch] }

/-- A log that leaves a queue alone, but for what those do whom it calls. -/
structure Spared (queue : Part W Queue) (log : EventLog W) : Prop where
  origin : ∀ ctx, (log.origin ctx).Keeps (Untouched queue)
  scan : ∀ {may : W → W → Prop}, (∀ w w', Untouched queue w w' → may w w') →
    ∀ {σ ε : Type} (ctx : Context) (start : Version) (limit : Nat) (visitor : Visitor W σ ε)
      (s : σ), visitor.Keeps may → (log.scan ctx start limit visitor s).Keeps may
  append : ∀ ctx payload, (log.append ctx payload).Keeps (Untouched queue)
  tryAppend : ∀ {may : W → W → Prop}, (∀ w w', Untouched queue w w' → may w w') →
    ∀ {σ ε : Type} (ctx : Context) (assumed : Version) (attempt : Attempt W σ ε) (s : σ),
      attempt.Keeps may → (log.tryAppend ctx assumed attempt s).Keeps may

section Memory

variable {queue : Part W Queue} {clock : Part W Clock} {log : Part W Memory} {may : W → W → Prop}

theorem keeps_check (still : ∀ w w', Untouched queue w w' → may w w') (ctx : Context) :
    (ctx.check clock).Keeps may :=
  Fiber.abides_atomic _ fun w _ => ⟨still w w rfl, trivial⟩

theorem keeps_visit (still : ∀ w w', Untouched queue w w' → may w w') {σ ε : Type}
    {ctx : Context} {visitor : Visitor W σ ε} (keeps : visitor.Keeps may) (entries : List Entry)
    (s : σ) : (Memory.visit clock ctx visitor entries s).Keeps may := by
  induction entries generalizing s with
  | nil => exact Fiber.abides_pure trivial
  | cons entry rest ih =>
      refine Fiber.abides_bind (keeps_check still ctx) fun interrupted _ => ?_
      cases interrupted with
      | some reason => exact Fiber.abides_pure trivial
      | none =>
          refine Fiber.abides_bind (Fiber.abides_atomic (fun _ => True) fun w _ =>
            ⟨keeps entry s w, trivial⟩) fun visited _ => ?_
          cases visited with
          | error e => exact Fiber.abides_pure trivial
          | ok s => exact ih s

theorem keeps_append (apart : queue.Disjoint log) (payload : Payload) :
    (Memory.append clock log payload).Keeps (Untouched queue) := by
  rw [Memory.append]
  cases split payload with
  | error e => exact Fiber.abides_pure trivial
  | ok texts => exact Fiber.abides_atomic _ fun w _ => ⟨apart.get_set_left _ w, trivial⟩

theorem keeps_tryAppend (apart : queue.Disjoint log)
    (still : ∀ w w', Untouched queue w w' → may w w') {σ ε : Type} {ctx : Context}
    {attempt : Attempt W σ ε} (keeps : attempt.Keeps may) (rounds : Nat) (assumed : Version)
    (s : σ) :
    (Memory.tryAppend clock log ctx attempt rounds assumed s).Keeps may := by
  induction rounds generalizing assumed s with
  | zero => exact Fiber.abides_stuck
  | succ rounds ih =>
      refine Fiber.abides_bind (keeps_check still ctx) fun interrupted _ => ?_
      cases interrupted with
      | some reason => exact Fiber.abides_pure trivial
      | none =>
          refine Fiber.abides_bind (Fiber.abides_atomic (fun _ => True) fun w _ =>
            ⟨keeps.produce s w, trivial⟩) fun produced _ => ?_
          obtain ⟨e | _ | payload, s⟩ := produced
          · exact Fiber.abides_pure trivial
          · exact Fiber.abides_pure trivial
          dsimp only
          cases split payload with
          | error e => exact Fiber.abides_pure trivial
          | ok texts =>
              cases Memory.offsetOf assumed with
              | error e => exact Fiber.abides_pure trivial
              | ok expected =>
                  refine Fiber.abides_bind (Fiber.abides_atomic (fun _ => True) fun w _ =>
                    ⟨still _ _ (apart.get_set_left _ w), trivial⟩) fun pushed _ => ?_
                  cases pushed with
                  | some appended => exact Fiber.abides_pure trivial
                  | none =>
                      refine Fiber.abides_bind (keeps.resync s) fun resynced _ => ?_
                      obtain ⟨e | v, s⟩ := resynced
                      · exact Fiber.abides_pure trivial
                      · exact ih v s

/-- A log in memory leaves a queue alone that is kept elsewhere. -/
theorem spared_memory (apart : queue.Disjoint log) (rounds : Nat) :
    Spared queue (Memory.eventLog clock log rounds) where
  origin _ := Fiber.abides_pure trivial
  scan still _ _ ctx start limit visitor s keeps := by
    refine Fiber.abides_bind (Fiber.abides_atomic (fun _ => True) fun w _ =>
      ⟨still w w rfl, trivial⟩) fun found _ => ?_
    cases found with
    | error e => exact Fiber.abides_pure trivial
    | ok entries => exact keeps_visit still keeps entries s
  append _ payload := keeps_append apart payload
  tryAppend still _ _ _ assumed _ s keeps := keeps_tryAppend apart still keeps rounds assumed s

end Memory

/-! ## Requests -/

inductive Request (W : Type) : Type 1 where
  /-- Events are to wait as one batch. -/
  | inject {E : Type} (set : EventSet E) (events : List E)
  | origin (ctx : Context)
  | scan {σ ε : Type} (ctx : Context) (start : Version) (limit : Nat) (visitor : Visitor W σ ε)
      (s : σ)
  | append (ctx : Context) (payload : Payload)
  | tryAppend {σ ε : Type} (ctx : Context) (assumed : Version) (attempt : Attempt W σ ε) (s : σ)

namespace Request

def Result : Request W → Type
  | inject _ _ => Except EncodeError Unit
  | origin _ => Except Error Version
  | @scan _ σ ε _ _ _ _ _ => Option (ScanFailure ε) × σ
  | append _ _ => Except Error Appended
  | @tryAppend _ σ ε _ _ _ _ => Except (AppendFailure ε) (Option Appended) × σ

/-- Lets events wait in a shared queue. -/
def injecting (queue : Part W Queue) {E : Type} (set : EventSet E) (events : List E) (w : W) :
    Except EncodeError Unit × W :=
  match (queue.get w).inject set events with
  | .ok q => (.ok (), queue.set q w)
  | .error e => (.error e, w)

/-- A request is answered by a log, and events are put into a queue. -/
def answer (queue : Part W Queue) (log : EventLog W) : (r : Request W) → Fiber W r.Result
  | inject set events => Fiber.atomic (injecting queue set events)
  | origin ctx => log.origin ctx
  | scan ctx start limit visitor s => log.scan ctx start limit visitor s
  | append ctx payload => log.append ctx payload
  | tryAppend ctx assumed attempt s => log.tryAppend ctx assumed attempt s

def Keeps (may : W → W → Prop) : Request W → Prop
  | scan _ _ _ visitor _ => visitor.Keeps may
  | tryAppend _ _ attempt _ => attempt.Keeps may
  | _ => True

def Conditional : Request W → Prop
  | tryAppend .. => True
  | _ => False

instance : DecidablePred (Conditional (W := W))
  | tryAppend .. => .isTrue trivial
  | inject .. | origin .. | scan .. | append .. => .isFalse id

end Request

/-! ## What becomes of the batches -/

section

variable (queue : Part W Queue) (inner : EventLog W)

/-- The state once all batches have been taken out of the queue. -/
def emptied (w : W) : W :=
  queue.set { queue.get w with pending := [] } w

/-- The state once one more batch has been counted. -/
def counted (w : W) : W :=
  queue.modify (fun q => { q with injected := q.injected + 1 }) w

/-- Moves that append batches one after the other.  A batch is counted once the inner log has
appended it. -/
inductive Delivers (ctx : Context) : List Payload → List (Move W) → Prop where
  | nothing : Delivers ctx [] []
  | next {batch : Payload} {rest : List Payload} {run later : List (Move W)} {appended : Appended}
      {w : W} (had : (inner.append ctx batch).Leads run (.done (.ok appended)))
      (others : Delivers ctx rest later) :
      Delivers ctx (batch :: rest) (run ++ ⟨w, counted queue w⟩ :: later)

variable {σ ε : Type}

def Unmoved {α : Type} (moves : List (Move W)) (q : Fiber W α) : Prop :=
  moves = [] ∧ q.Pending ∧ q.Ready

/-- How far a conditional append has come that has begun: some of the batches that it has taken
have been appended, and the others are left. -/
inductive Stage (ctx : Context) (assumed : Version) (attempt : Attempt W σ ε) (s : σ) :
    List Payload → List Payload → List (Move W) →
      Fiber W (Except (AppendFailure ε) (Option Appended) × σ) → Prop where
  /-- The next batch is being appended, or has been and is still to be counted.  The call waits
  only while the inner log does. -/
  | underway {w : W} {done left : List Payload} {batch : Payload} {delivery run : List (Move W)}
      {p : Fiber W (Except Error Appended)}
      {q : Fiber W (Except (AppendFailure ε) (Option Appended) × σ)}
      (took : (queue.get w).pending = done ++ batch :: left)
      (delivers : Delivers queue inner ctx done delivery)
      (running : (inner.append ctx batch).Leads run p) (unrefused : ∀ e, p ≠ .done (.error e))
      (pending : q.Pending) (ready : p.Ready → q.Ready) :
      Stage ctx assumed attempt s done (batch :: left)
        (⟨w, emptied queue w⟩ :: (delivery ++ run)) q
  /-- The inner log has refused the next batch. -/
  | lost {w : W} {done left : List Payload} {batch : Payload} {delivery run : List (Move W)}
      {e : Error} (took : (queue.get w).pending = done ++ batch :: left)
      (delivers : Delivers queue inner ctx done delivery)
      (refused : (inner.append ctx batch).Leads run (.done (.error e))) :
      Stage ctx assumed attempt s done (batch :: left)
        (⟨w, emptied queue w⟩ :: (delivery ++ run)) (.done (.error (.log e), s))
  /-- All batches have been appended, and the inner log has taken over. -/
  | through {w : W} {done : List Payload} {delivery later : List (Move W)}
      {q : Fiber W (Except (AppendFailure ε) (Option Appended) × σ)}
      (took : (queue.get w).pending = done) (delivers : Delivers queue inner ctx done delivery)
      (on : (inner.tryAppend ctx assumed attempt s).Leads later q) :
      Stage ctx assumed attempt s done [] (⟨w, emptied queue w⟩ :: (delivery ++ later)) q

end

section

variable {queue : Part W Queue} {inner : EventLog W} {ctx : Context} {batches : List Payload}
  {β : Type} {next : Option Error → Fiber W β} {moves : List (Move W)} {q : Fiber W β}

theorem unmoved_or_first {α : Type} {act : W → α × W} {next : α → Fiber W β}
    (leads : (Fiber.atomic act >>= next).Leads moves q) :
    Unmoved moves q ∨
      ∃ w later, moves = ⟨w, (act w).2⟩ :: later ∧ (next (act w).1).Leads later q := by
  rcases leads.of_atomic with ⟨rfl, pending⟩ | first
  · cases leads
    exact .inl ⟨rfl, pending, fun _ => rfl⟩
  · exact .inr first

/-- Appending batches goes on, or stops at one that the inner log refuses, or comes to its end. -/
theorem parts_of_appendAll (leads : (appendAll queue inner ctx batches >>= next).Leads moves q) :
    (∃ done batch left delivery run p, batches = done ++ batch :: left ∧ moves = delivery ++ run ∧
      Delivers queue inner ctx done delivery ∧ (inner.append ctx batch).Leads run p ∧
      (∀ e, p ≠ .done (.error e)) ∧ q.Pending ∧ (p.Ready → q.Ready)) ∨
    (∃ done batch left delivery run later e, batches = done ++ batch :: left ∧
      moves = delivery ++ (run ++ later) ∧ Delivers queue inner ctx done delivery ∧
      (inner.append ctx batch).Leads run (.done (.error e)) ∧ (next (some e)).Leads later q) ∨
    ∃ delivery later, moves = delivery ++ later ∧ Delivers queue inner ctx batches delivery ∧
      (next none).Leads later q := by
  induction batches generalizing moves with
  | nil => exact .inr (.inr ⟨[], moves, rfl, .nothing, leads⟩)
  | cons batch rest ih =>
      rw [appendAll, bind_assoc] at leads
      rcases leads.split with ⟨p, pending, within, rfl⟩ | ⟨result, run, after, had, counting, rfl⟩
      · exact .inl ⟨[], batch, rest, [], moves, p, rfl, rfl, .nothing, within,
          fun e => pending.ne_done _, pending.bind _, fun ready => ready.bind pending _⟩
      clear leads
      cases result with
      | error e =>
          exact .inr (.inl ⟨[], batch, rest, [], run, after, e, rfl, rfl, .nothing, had, counting⟩)
      | ok appended =>
          dsimp only at counting
          rw [bind_assoc] at counting
          rcases unmoved_or_first counting with ⟨rfl, pending, ready⟩ | ⟨w, later, rfl, going⟩
          · rw [List.append_nil]
            exact .inl ⟨[], batch, rest, [], run, .done (.ok appended), rfl, rfl, .nothing, had,
              (fun _ same => nomatch same), pending, fun _ => ready⟩
          have behind (delivery tail : List (Move W)) :
              run ++ ⟨w, counted queue w⟩ :: (delivery ++ tail) =
                run ++ ⟨w, counted queue w⟩ :: delivery ++ tail :=
            (List.append_assoc run (⟨w, counted queue w⟩ :: delivery) tail).symm
          rcases ih going with
            ⟨done, batch', left, delivery, run', p, same, rfl, delivers, running⟩ |
            ⟨done, batch', left, delivery, run', later, e, same, rfl, delivers, refused, on⟩ |
            ⟨delivery, later, rfl, delivers, on⟩
          · exact .inl ⟨batch :: done, batch', left, _, run', p, congrArg (batch :: ·) same,
              behind delivery run', .next had delivers, running⟩
          · exact .inr (.inl ⟨batch :: done, batch', left, _, run', later, e,
              congrArg (batch :: ·) same, behind delivery (run' ++ later), .next had delivers,
              refused, on⟩)
          · exact .inr (.inr ⟨_, later, behind delivery later, .next had delivers, on⟩)

variable {σ ε : Type} {assumed : Version} {attempt : Attempt W σ ε} {s : σ}
  {p : Fiber W (Except (AppendFailure ε) (Option Appended) × σ)}

/-- A conditional append that has begun has come to some stage. -/
theorem stage_of_leads
    (leads : ((eventLog queue inner).tryAppend ctx assumed attempt s).Leads moves p) :
    Unmoved moves p ∨ ∃ done left, Stage queue inner ctx assumed attempt s done left moves p := by
  rcases unmoved_or_first leads with unmoved | ⟨w, moves, rfl, going⟩
  · exact .inl unmoved
  right
  rcases parts_of_appendAll going with
    ⟨done, batch, left, delivery, run, p, took, rfl, delivers, running, unrefused, pending, ready⟩ |
    ⟨done, batch, left, delivery, run, later, e, took, rfl, delivers, refused, on⟩ |
    ⟨delivery, later, rfl, delivers, on⟩
  · exact ⟨done, _, .underway took delivers running unrefused pending ready⟩
  · obtain ⟨rfl, rfl⟩ := on.of_done
    rw [List.append_nil]
    exact ⟨done, _, .lost took delivers refused⟩
  · exact ⟨_, [], .through rfl delivers on⟩

end

/-! ## The batches of a call, told from its moves -/

section

variable (queue : Part W Queue)

/-- The batches that a call found waiting when it moved first. -/
def taken : List (Move W) → List Payload
  | [] => []
  | first :: _ => (queue.get first.before).pending

def counts (mv : Move W) : Bool :=
  (queue.get mv.after).injected != (queue.get mv.before).injected

/-- The batches that a call has had appended. -/
def delivered (moves : List (Move W)) : List Payload :=
  (taken queue moves).take (moves.countP (counts queue))

/-- The batches that a call has taken and not had appended. -/
def left (moves : List (Move W)) : List Payload :=
  (taken queue moves).drop (moves.countP (counts queue))

end

section

variable {queue : Part W Queue} {inner : EventLog W} {ctx : Context} {batches : List Payload}
  {moves : List (Move W)} {w w' : W}

theorem get_emptied : queue.get (emptied queue w) = { queue.get w with pending := [] } :=
  queue.get_set _ _

theorem get_counted :
    queue.get (counted queue w) = { queue.get w with injected := (queue.get w).injected + 1 } :=
  queue.get_modify _ _

theorem delivered_append_left (moves : List (Move W)) :
    delivered queue moves ++ left queue moves = taken queue moves :=
  List.take_append_drop _ _

theorem counts_eq_false {mv : Move W}
    (same : (queue.get mv.after).injected = (queue.get mv.before).injected) :
    counts queue mv = false :=
  bne_eq_false_iff_eq.2 same

theorem counts_of_counted {mv : Move W} (counted : queue.get mv.after =
      { queue.get mv.before with injected := (queue.get mv.before).injected + 1 }) :
    counts queue mv = true := by
  rw [counts, counted]
  exact bne_iff_ne.2 (Nat.succ_ne_self _)

theorem countP_emptied :
    (⟨w, emptied queue w⟩ :: moves).countP (counts queue) = moves.countP (counts queue) := by
  refine List.countP_cons_of_neg (Bool.not_eq_true _ ▸ counts_eq_false ?_)
  rw [get_emptied]

theorem Polite.injected_eq (polite : Polite queue w w') :
    (queue.get w').injected = (queue.get w).injected := by
  rcases polite with untouched | ⟨batch, waits⟩
  · exact congrArg Queue.injected untouched
  · rw [waits]

theorem countP_of_polite (polite : ∀ mv ∈ moves, Polite queue mv.before mv.after) :
    moves.countP (counts queue) = 0 :=
  List.countP_eq_zero.2 fun mv member =>
    Bool.not_eq_true _ ▸ counts_eq_false (polite mv member).injected_eq

/-- The moves of an append by the inner log do not touch the queue. -/
theorem Spared.untouched (spared : Spared queue inner) {batch : Payload}
    {p : Fiber W (Except Error Appended)} (running : (inner.append ctx batch).Leads moves p) :
    ∀ mv ∈ moves, Untouched queue mv.before mv.after :=
  (spared.append ctx batch).moves running

theorem Delivers.countP (spared : Spared queue inner)
    (delivers : Delivers queue inner ctx batches moves) :
    moves.countP (counts queue) = batches.length := by
  induction delivers with
  | nothing => rfl
  | @next batch rest run later appended w had _ ih =>
      have still : run.countP (counts queue) = 0 :=
        countP_of_polite fun mv member => .inl (spared.untouched had mv member)
      rw [List.countP_append, still, List.countP_cons_of_pos (counts_of_counted get_counted), ih,
        Nat.zero_add, List.length_cons]

/-- What a conditional append does to the queue once it has taken its batches. -/
def Counting (queue : Part W Queue) (mv : Move W) : Prop :=
  Polite queue mv.before mv.after ∨ queue.get mv.after =
    { queue.get mv.before with injected := (queue.get mv.before).injected + 1 }

theorem Delivers.counting (spared : Spared queue inner)
    (delivers : Delivers queue inner ctx batches moves) : ∀ mv ∈ moves, Counting queue mv := by
  induction delivers with
  | nothing => exact fun mv member => (List.not_mem_nil member).elim
  | next had _ ih =>
      refine List.forall_mem_append.2 ⟨fun mv member => ?_, List.forall_mem_cons.2 ⟨?_, ih⟩⟩
      · exact .inl (.inl (spared.untouched had mv member))
      · exact .inr get_counted

variable {σ ε : Type} {assumed : Version} {attempt : Attempt W σ ε} {s : σ}
  {done rest : List Payload}
  {q : Fiber W (Except (AppendFailure ε) (Option Appended) × σ)}

/-- A call takes its batches when it moves first, and counts those that are appended. -/
theorem Stage.counting (spared : Spared queue inner) (keeps : attempt.Keeps (Polite queue))
    (stage : Stage queue inner ctx assumed attempt s done rest moves q) :
    ∃ w later, moves = ⟨w, emptied queue w⟩ :: later ∧ (queue.get w).pending = done ++ rest ∧
      (∀ mv ∈ later, Counting queue mv) ∧ later.countP (counts queue) = done.length := by
  have appending {delivery run : List (Move W)} (delivers : Delivers queue inner ctx done delivery)
      (polite : ∀ mv ∈ run, Polite queue mv.before mv.after) :
      (∀ mv ∈ delivery ++ run, Counting queue mv) ∧
        (delivery ++ run).countP (counts queue) = done.length := by
    refine ⟨List.forall_mem_append.2
      ⟨delivers.counting spared, fun mv member => .inl (polite mv member)⟩, ?_⟩
    rw [List.countP_append, delivers.countP spared, countP_of_polite polite, Nat.add_zero]
  cases stage with
  | underway took delivers running =>
      exact ⟨_, _, rfl, took,
        appending delivers fun mv member => .inl (spared.untouched running mv member)⟩
  | lost took delivers refused =>
      exact ⟨_, _, rfl, took,
        appending delivers fun mv member => .inl (spared.untouched refused mv member)⟩
  | through took delivers on =>
      have polite := spared.tryAppend (fun _ _ => .inl) ctx assumed attempt s keeps
      exact ⟨_, _, rfl, took.trans (List.append_nil done).symm,
        appending delivers (polite.moves on)⟩

/-- The stage of a call is told by its moves. -/
theorem Stage.told (spared : Spared queue inner) (keeps : attempt.Keeps (Polite queue))
    (stage : Stage queue inner ctx assumed attempt s done rest moves q) :
    done = delivered queue moves ∧ rest = left queue moves := by
  obtain ⟨w, later, rfl, took, _, confirmed⟩ := stage.counting spared keeps
  rw [delivered, left, countP_emptied, confirmed, taken, took]
  exact ⟨List.take_left.symm, List.drop_left.symm⟩

/-- A call whose first batch the inner log refuses ends with that. -/
theorem Stage.refused {batch : Payload} {more : List Payload} {e : Error}
    (refused : inner.append ctx batch = pure (.error e))
    (stage : Stage queue inner ctx assumed attempt s done rest moves q)
    (took : taken queue moves = batch :: more) : q = .done (.error (.log e), s) := by
  have nothing {done tail : List Payload} {moves : List (Move W)}
      (delivers : Delivers queue inner ctx done moves) (same : done ++ tail = batch :: more) :
      done = [] := by
    cases delivers with
    | nothing => rfl
    | next had _ =>
        obtain ⟨rfl, _⟩ := List.cons.inj same
        rw [refused] at had
        obtain ⟨_, impossible⟩ := had.of_done
        cases impossible
  cases stage with
  | underway found delivers running unrefused _ _ =>
      have same := found.symm.trans took
      cases nothing delivers same
      obtain ⟨rfl, _⟩ := List.cons.inj same
      rw [refused] at running
      exact (unrefused e running.of_done.2).elim
  | lost found delivers ended =>
      have same := found.symm.trans took
      cases nothing delivers same
      obtain ⟨rfl, _⟩ := List.cons.inj same
      rw [refused] at ended
      cases ended.of_done.2
      rfl
  | through found delivers _ =>
      have same := found.symm.trans took
      cases nothing delivers ((List.append_nil _).trans same)
      cases same

end

/-! ## What calls do -/

/-- What comes of letting events wait: nothing if there are none or if they cannot be encoded,
and otherwise they wait behind all others. -/
inductive Injected (queue : Part W Queue) {E : Type} (set : EventSet E) (events : List E) :
    W → W → Except EncodeError Unit → Prop where
  | nothing {w : W} (empty : events = []) : Injected queue set events w w (.ok ())
  | refused {w : W} {e : EncodeError} (filled : events ≠ [])
      (unwritten : set.encode events = .error e) : Injected queue set events w w (.error e)
  | waits {w : W} {text : String} (filled : events ≠ []) (written : set.encode events = .ok text) :
      Injected queue set events w (queue.set { queue.get w with
        pending := (queue.get w).pending ++ [Text.Glyph.ofString text] } w) (.ok ())

/-- What a call has done after some moves.  The moves of a call that is the inner log's leave the
queue alone, but for those of its visitor. -/
def Request.Course (queue : Part W Queue) (inner : EventLog W) :
    (r : Request W) → List (Move W) → Fiber W r.Result → Prop
  | .inject set events, moves, q => Unmoved moves q ∨
      ∃ w w' result, moves = [⟨w, w'⟩] ∧ q = .done result ∧ Injected queue set events w w' result
  | .tryAppend ctx assumed attempt s, moves, q => Unmoved moves q ∨
      Stage queue inner ctx assumed attempt s (delivered queue moves) (left queue moves) moves q
  | r, moves, q => (r.answer queue inner).Leads moves q ∧
      ∀ may : W → W → Prop, (∀ w w', Untouched queue w w' → may w w') → r.Keeps may →
        ∀ mv ∈ moves, may mv.before mv.after

section

variable {queue : Part W Queue} {inner : EventLog W} {moves : List (Move W)} {mv : Move W}

theorem injected_injecting {E : Type} (set : EventSet E) (events : List E) (w : W) :
    Injected queue set events w (Request.injecting queue set events w).2
      (Request.injecting queue set events w).1 := by
  rw [Request.injecting]
  cases events with
  | nil =>
      have same : (queue.get w).inject set [] = .ok (queue.get w) := rfl
      rw [same]
      dsimp only
      rw [queue.set_get]
      exact .nothing rfl
  | cons event more =>
      have filled : event :: more ≠ [] := List.cons_ne_nil _ _
      have waiting : (queue.get w).inject set (event :: more) =
          (set.encode (event :: more)).map fun text => { queue.get w with
            pending := (queue.get w).pending ++ [Text.Glyph.ofString text] } := rfl
      rw [waiting]
      cases written : set.encode (event :: more) with
      | error e => exact .refused filled written
      | ok text => exact .waits filled written

/-- At any time a call has done what its request says. -/
theorem Request.course_of_leads (spared : Spared queue inner) {r : Request W}
    (keeps : r.Keeps (Polite queue)) {q : Fiber W r.Result}
    (leads : (r.answer queue (eventLog queue inner)).Leads moves q) :
    r.Course queue inner moves q := by
  cases r with
  | inject set events =>
      have first : (Fiber.atomic (injecting queue set events) >>= Fiber.done).Leads moves q := leads
      rcases unmoved_or_first first with unmoved | ⟨w, later, rfl, on⟩
      · exact .inl unmoved
      · obtain ⟨rfl, rfl⟩ := on.of_done
        exact .inr ⟨w, _, _, rfl, rfl, injected_injecting set events w⟩
  | origin ctx =>
      exact ⟨leads, fun may still _ mv member =>
        still _ _ ((spared.origin ctx).moves leads mv member)⟩
  | scan ctx start limit visitor s =>
      exact ⟨leads, fun may still keeps =>
        (spared.scan still ctx start limit visitor s keeps).moves leads⟩
  | append ctx payload =>
      exact ⟨leads, fun may still _ mv member =>
        still _ _ ((spared.append ctx payload).moves leads mv member)⟩
  | tryAppend ctx assumed attempt s =>
      rcases stage_of_leads leads with unmoved | ⟨done, rest, stage⟩
      · exact .inl unmoved
      · obtain ⟨rfl, rfl⟩ := stage.told spared keeps
        exact .inr stage

/-- What a move of a call does to the queue, with the moves that the call has made before.  A
conditional append that finds no batches has nothing to take. -/
inductive Turn (queue : Part W Queue) (r : Request W) (moves : List (Move W)) (mv : Move W) :
    Prop where
  | takes (conditional : r.Conditional) (first : moves = [])
      (filled : (queue.get mv.before).pending ≠ [])
      (emptied : queue.get mv.after = { queue.get mv.before with pending := [] })
  | polite (begun : r.Conditional → moves = [] → (queue.get mv.before).pending = [])
      (polite : Polite queue mv.before mv.after)
  | counts {batch : Payload} {rest : List Payload} (conditional : r.Conditional)
      (begun : moves ≠ []) (next : left queue moves = batch :: rest)
      (counted : queue.get mv.after =
        { queue.get mv.before with injected := (queue.get mv.before).injected + 1 })

theorem Injected.polite {E : Type} {set : EventSet E} {events : List E} {w w' : W}
    {result : Except EncodeError Unit} (injected : Injected queue set events w w' result) :
    Polite queue w w' := by
  cases injected with
  | nothing => exact .inl rfl
  | refused => exact .inl rfl
  | waits => exact .inr ⟨_, queue.get_set _ _⟩

/-- A conditional append takes its batches first, and counts one only if it has one left. -/
theorem Stage.turn (spared : Spared queue inner) {ctx : Context} {assumed : Version} {σ ε : Type}
    {attempt : Attempt W σ ε} (keeps : attempt.Keeps (Polite queue)) {s : σ}
    {done rest : List Payload} {q : Fiber W (Except (AppendFailure ε) (Option Appended) × σ)}
    (stage : Stage queue inner ctx assumed attempt s done rest (moves ++ [mv]) q) :
    Turn queue (.tryAppend ctx assumed attempt s) moves mv := by
  obtain ⟨w, later, split, took, counting, number⟩ := stage.counting spared keeps
  cases moves with
  | nil =>
      obtain ⟨rfl, _⟩ := List.cons.inj split
      by_cases vacant : (queue.get w).pending = []
      · refine .polite (fun _ _ => vacant) (.inl (get_emptied.trans ?_))
        rw [← vacant]
      · exact .takes trivial rfl vacant get_emptied
  | cons first before =>
      have behind : before ++ [mv] = later := (List.cons.inj split).2
      obtain ⟨rfl, _⟩ := List.cons.inj split
      subst behind
      have begun : (⟨w, emptied queue w⟩ : Move W) :: before ≠ [] := List.cons_ne_nil _ _
      rcases counting mv (List.mem_append_right _ (List.mem_singleton_self mv)) with
        polite | counted
      · exact .polite (fun _ empty => (begun empty).elim) polite
      · cases next : left queue (⟨w, emptied queue w⟩ :: before) with
        | cons batch rest => exact .counts trivial begun next counted
        | nil =>
            -- With none left, this move would count more batches than were taken.
            have vacant := List.drop_eq_nil_iff.1 next
            rw [countP_emptied, taken, took, List.length_append, ← number, List.countP_append,
              List.countP_singleton, if_pos (counts_of_counted counted)] at vacant
            omega

/-- Each move of a call is of one of these kinds. -/
theorem turn_of_leads (spared : Spared queue inner) {r : Request W}
    (keeps : r.Keeps (Polite queue)) {q : Fiber W r.Result}
    (leads : (r.answer queue (eventLog queue inner)).Leads (moves ++ [mv]) q) :
    Turn queue r moves mv := by
  have course := Request.course_of_leads spared keeps leads
  have last : mv ∈ moves ++ [mv] := List.mem_append_right _ (List.mem_singleton_self mv)
  cases r with
  | inject set events =>
      rcases course with ⟨unmoved, _⟩ | ⟨w, w', result, only, _, injected⟩
      · exact absurd unmoved (List.append_ne_nil_of_right_ne_nil _ (List.cons_ne_nil _ _))
      · have same : mv = ⟨w, w'⟩ := List.mem_singleton.1 (only ▸ last)
        subst same
        exact .polite False.elim injected.polite
  | origin ctx => exact .polite False.elim (course.2 _ (fun _ _ => .inl) keeps mv last)
  | scan ctx start limit visitor s =>
      exact .polite False.elim (course.2 _ (fun _ _ => .inl) keeps mv last)
  | append ctx payload => exact .polite False.elim (course.2 _ (fun _ _ => .inl) keeps mv last)
  | tryAppend ctx assumed attempt s =>
      rcases course with ⟨unmoved, _⟩ | stage
      · exact absurd unmoved (List.append_ne_nil_of_right_ne_nil _ (List.cons_ne_nil _ _))
      exact stage.turn spared keeps

end

end Queue

end EventSourcing.Log
