import EventSourcing.Proofs.Fiber.Standing
import EventSourcing.Proofs.Schema.WellFormed
import EventSourcing.Proofs.Service.Consulting
import EventSourcing.Proofs.Service.Vocabulary

/-!
# Proofs.Service.Dispatch -- calling a method as what it is declared as

A method is called by its name, or by an entry point of a kind.  In a service of a compiled
schema a call by name is a call by the entry point of the declared kind, and the other entry
points refuse at once (`call_enters_as_declared`).  A method that is declared to only read can
never emit an event, because the compiler lets it declare none (`emits_of_readonly`).
-/

namespace EventSourcing

set_option autoImplicit false

open EventSourcing.Store (Cell)

variable {W P E ε L O : Type}

/-! ## Methods of compiled schemas -/

/-- The method of a contract is one of its service in the schema. -/
theorem Contract.method_of_method? {schema : Schema} {v : Schema.Service} {name : String}
    {m : Contract.Method} (found : (Contract.ofService schema v).method? name = some m) :
    m.name = name ∧ ∃ declared ∈ v.methods, m.kind = declared.kind ∧
      m.emits = schema.eventNames declared.emits := by
  change (v.methods.map fun m => (⟨m.name, m.kind, schema.eventNames m.emits⟩ :
    Contract.Method)).find? (·.name == name) = some m at found
  have named := List.find?_some found
  obtain ⟨declared, listed, rfl⟩ := List.mem_map.1 (List.mem_of_find?_eq_some found)
  exact ⟨beq_iff_eq.1 named, declared, listed, rfl, rfl⟩

/-- The contracts of a well-formed schema let no method emit that only reads. -/
theorem Schema.WellFormed.emits_of_readonly {schema : Schema} (form : schema.WellFormed)
    {v : Schema.Service} (declared : v ∈ schema.services) {name : String} {m : Contract.Method}
    (found : (Contract.ofService schema v).method? name = some m) (kind : m.kind = .readonly) :
    m.emits = [] := by
  obtain ⟨_, node, listed, same, emits⟩ := Contract.method_of_method? found
  have empty : node.emits = [] :=
    ((form.eachService v declared).each node listed).kind.1 (same.symm.trans kind)
  rw [emits, empty]
  rfl

namespace Service

/-! ## Results of methods that only read -/

/-- What a call by name makes of what a method has given that only reads: any event aborts the
call. -/
def withoutEvents (s : Service W P E ε) (name : String) :
    Except (CallFailure L ε) (O × List E) → Except (CallFailure L ε) (Emitted O E)
  | .error e => .error e
  | .ok (output, []) => .ok ⟨output, [], none⟩
  | .ok (_, event :: _) => .error (.aborted ⟨s.contract.name, name, s.set.name event, 0⟩)

variable {s : Service W P E ε} {ctx : Context} {name : String} {logic : Logic W P E L O}
  {m : Contract.Method}

/-- The first event is at fault if a method may emit none. -/
theorem undeclared?_of_emits_nil (silent : m.emits = []) (set : EventSet E) (service : String) :
    (events : List E) → m.undeclared? set service events =
      events.head?.map fun event => ⟨service, m.name, set.name event, 0⟩
  | [] => rfl
  | event :: rest => by
      rw [Contract.Method.undeclared?, Contract.Method.undeclaredFrom?, Contract.Method.mayEmit,
        silent]
      rfl

/-! ## Entry points -/

theorem method_of_declared (declared : s.contract.method? name = some m) (called : Method.Kind) :
    s.method name called = if m.kind = called then .ok m
      else .error (.refused (.kindMismatch name m.kind called) : CallFailure L ε) := by
  rw [method, declared]

theorem call_eq_append (declared : s.contract.method? name = some m) (kind : m.kind = .append) :
    s.call ctx name logic = s.append ctx name logic := by
  rw [call, append, method_of_declared declared, if_pos kind, declared]
  dsimp only
  rw [kind]

theorem call_eq_transaction (declared : s.contract.method? name = some m)
    (kind : m.kind = .transaction) : s.call ctx name logic = s.transaction ctx name logic := by
  rw [call, transaction, method_of_declared declared, if_pos kind, declared]
  dsimp only
  rw [kind]

theorem call_eq_readonly (declared : s.contract.method? name = some m) (named : m.name = name)
    (kind : m.kind = .readonly) (silent : m.emits = []) :
    s.call ctx name logic =
      (s.readonly ctx name logic >>= fun result => pure (s.withoutEvents name result)) := by
  rw [call, readonly, method_of_declared declared, if_pos kind, declared]
  dsimp only
  rw [kind]
  dsimp only
  congr 1
  funext result
  rcases result with e | ⟨output, _ | ⟨event, rest⟩⟩
  · rfl
  · rfl
  · dsimp only
    rw [undeclared?_of_emits_nil silent, named]
    rfl

/-! ## What calls leave alone -/

/-- Moves that follow each other from a state on, with nobody in between. -/
def Undisturbed : W → List (Move W) → Prop
  | _, [] => True
  | w, mv :: rest => mv.before = w ∧ Undisturbed mv.after rest

theorem undisturbed_append {w : W} {moves moves' : List (Move W)} :
    Undisturbed w (moves ++ moves') ↔
      Undisturbed w moves ∧ Undisturbed (stateAfter w moves) moves' := by
  induction moves generalizing w with
  | nil => simp [Undisturbed, stateAfter]
  | cons mv rest ih => simp [Undisturbed, stateAfter, ih, and_assoc]

theorem stateAfter_append (w : W) (moves moves' : List (Move W)) :
    stateAfter w (moves ++ moves') = stateAfter (stateAfter w moves) moves' := by
  induction moves generalizing w with
  | nil => rfl
  | cons mv rest ih => exact ih mv.after

variable {S α β : Type} {part : Part W S} {rests : S → S → Prop}

/-- What no move changes is the same at last, if nobody else moves. -/
theorem same_of_undisturbed {w : W} {moves : List (Move W)}
    (same : ∀ mv ∈ moves, part.get mv.after = part.get mv.before) (alone : Undisturbed w moves) :
    part.get (stateAfter w moves) = part.get w := by
  induction moves generalizing w with
  | nil => rfl
  | cons mv rest ih =>
      obtain ⟨first, later⟩ := List.forall_mem_cons.1 same
      obtain ⟨rfl, alone⟩ := alone
      exact (ih later alone).trans first

/-- A call that leaves a part of the state alone: whatever others do, the part rests in each of
its moves, but for the runs of its method; and a call that has ended without being disturbed, and
whose method leaves the part alone too, has left it as it was. -/
structure Spares (s : Service W P E ε) (ctx : Context) (logic : Logic W P E L O)
    (part : Part W S) (rests : S → S → Prop) (p : Fiber W α) : Prop where
  moves : ∀ moves q, p.Leads moves q → ∀ mv ∈ moves,
    s.Ran ctx logic mv ∨ rests (part.get mv.before) (part.get mv.after)
  ended : ∀ moves a, p.Leads moves (.done a) →
    (∀ mv ∈ moves, s.Ran ctx logic mv → part.get mv.after = part.get mv.before) →
      ∀ w, Undisturbed w moves → part.get (stateAfter w moves) = part.get w

theorem spares_pure {a : α} : s.Spares ctx logic part rests (pure a) where
  moves _ _ leads mv member := by
    obtain ⟨rfl, _⟩ := leads.of_done
    cases member
  ended _ _ leads _ _ _ := by
    obtain ⟨rfl, _⟩ := leads.of_done
    rfl

/-- What is made of the result changes nothing. -/
theorem Spares.map {p : Fiber W α} (spares : s.Spares ctx logic part rests p) (f : α → β) :
    s.Spares ctx logic part rests (p >>= fun a => pure (f a)) where
  moves moves q leads := by
    rcases leads.split with ⟨p', _, within, _⟩ | ⟨a, before, after, led, on, rfl⟩
    · exact spares.moves _ _ within
    · obtain ⟨rfl, _⟩ := on.of_done
      rw [List.append_nil]
      exact spares.moves _ _ led
  ended moves b leads := by
    obtain ⟨a, before, after, led, on, rfl⟩ := leads.parts
    obtain ⟨rfl, _⟩ := on.of_done
    rw [List.append_nil]
    exact spares.ended _ _ led

/-- A part that rests while the store is read, and that is afterwards what it was before. -/
structure Reads (s : Service W P E ε) (part : Part W S) (rests : S → S → Prop) : Prop where
  refl : ∀ x, rests x x
  clock : ∀ c w, part.get (s.clock.set c w) = part.get w
  begins : ∀ {r w w'}, s.store.read w = some (r, w') → rests (part.get w) (part.get w')
  ends : ∀ w, rests (part.get w) (part.get (s.store.complete w))
  fails : ∀ {e w w'}, s.store.read w = some (.error e, w') → part.get w' = part.get w
  whole : ∀ {w w₁ w₂}, s.store.read w = some (.ok (), w₁) → part.get w₂ = part.get w₁ →
    part.get (s.store.complete w₂) = part.get w

theorem Reads.waits {moves : List (Move W)} (reads : s.Reads part rests)
    (waits : Waits s.clock moves) : ∀ mv ∈ moves, part.get mv.after = part.get mv.before := by
  intro mv member
  obtain ⟨c, same⟩ := waits mv member
  rw [same, reads.clock]

/-- Each move of a call that runs a method on what is committed is the run, or lets the part
rest. -/
theorem Reads.rests_of_consults {moves : List (Move W)}
    {q : Fiber W (Except (CallFailure L ε) (O × List E))} (reads : s.Reads part rests)
    (consults : s.Consults ctx logic moves q) :
    ∀ mv ∈ moves, s.Ran ctx logic mv ∨ rests (part.get mv.before) (part.get mv.after) := by
  have idle {moves : List (Move W)} (waits : Waits s.clock moves) : ∀ mv ∈ moves,
      s.Ran ctx logic mv ∨ rests (part.get mv.before) (part.get mv.after) := by
    intro mv member
    rw [reads.waits waits mv member]
    exact .inr (reads.refl _)
  cases consults with
  | waits waits _ => exact idle waits
  | interrupted waits => exact idle waits
  | failed waits failed =>
      exact List.forall_mem_append.2 ⟨idle waits,
        List.forall_mem_singleton.2 (.inr (reads.begins failed))⟩
  | begun waits began _ =>
      exact List.forall_mem_append.2 ⟨idle waits,
        List.forall_mem_singleton.2 (.inr (reads.begins began))⟩
  | run waits began ran _ =>
      exact List.forall_mem_append.2 ⟨idle waits, List.forall_mem_cons.2
        ⟨.inr (reads.begins began), List.forall_mem_singleton.2 (.inl ran)⟩⟩
  | @ended _ begins run ends waits began ran completed =>
      have ended := reads.ends ends.before
      rw [← completed] at ended
      exact List.forall_mem_append.2 ⟨idle waits, List.forall_mem_cons.2
        ⟨.inr (reads.begins began), List.forall_mem_cons.2
          ⟨.inl ran, List.forall_mem_singleton.2 (.inr ended)⟩⟩⟩

/-- A call that has run a method on what is committed, and was not disturbed, has left the part as
it was, if the method has. -/
theorem Reads.same_of_consults {moves : List (Move W)}
    {result : Except (CallFailure L ε) (O × List E)} (reads : s.Reads part rests)
    (consults : s.Consults ctx logic moves (.done result))
    (method : ∀ mv ∈ moves, s.Ran ctx logic mv → part.get mv.after = part.get mv.before) {w : W}
    (alone : Undisturbed w moves) : part.get (stateAfter w moves) = part.get w := by
  rcases consults.of_done with ⟨waits, _⟩ | ⟨before, begins, e, rfl, waits, failed, _⟩ |
    ⟨before, begins, run, ends, ⟨rfl, waits, began, ran, completed⟩, _⟩
  · exact same_of_undisturbed (reads.waits waits) alone
  · refine same_of_undisturbed (List.forall_mem_append.2 ⟨reads.waits waits, ?_⟩) alone
    exact List.forall_mem_singleton.2 (reads.fails failed)
  · obtain ⟨_, there⟩ := List.forall_mem_append.1 method
    obtain ⟨_, there⟩ := List.forall_mem_cons.1 there
    obtain ⟨same, _⟩ := List.forall_mem_cons.1 there
    obtain ⟨alone, began', ran', ended', _⟩ := undisturbed_append.1 alone
    rw [stateAfter_append, ← same_of_undisturbed (reads.waits waits) alone, ← began']
    change part.get ends.after = _
    rw [completed]
    refine reads.whole began ?_
    rw [ended', same ran, ran']

theorem Reads.spares_runReadonly (reads : s.Reads part rests) :
    s.Spares ctx logic part rests (s.runReadonly ctx logic) where
  moves _ _ leads := reads.rests_of_consults (consults_of_leads leads)
  ended _ _ leads method _ alone := reads.same_of_consults (consults_of_leads leads) method alone

/-- Delivering events leaves alone whatever the log is no part of. -/
theorem same_of_delivers {log : Part W Log.Memory} (apart : log.Disjoint part) {output : O}
    {events : List E} {moves : List (Move W)}
    {q : Fiber W (Except (CallFailure L ε) (Emitted O E))}
    (delivers : s.Delivers log ctx m output events moves q) :
    ∀ mv ∈ moves, part.get mv.after = part.get mv.before := by
  cases delivers with
  | undeclared _ => exact fun mv member => (List.not_mem_nil member).elim
  | declared _ _ => exact fun mv member => (List.not_mem_nil member).elim
  | interrupted _ _ => exact List.forall_mem_singleton.2 rfl
  | nothing _ => exact List.forall_mem_singleton.2 rfl
  | unwritten _ _ _ _ => exact List.forall_mem_singleton.2 rfl
  | unsplit _ _ _ _ _ => exact List.forall_mem_singleton.2 rfl
  | written _ _ _ => exact List.forall_mem_singleton.2 rfl
  | appended _ _ _ _ _ =>
      exact List.forall_mem_cons.2 ⟨rfl, List.forall_mem_singleton.2 (apart.get_set_right _ _)⟩

/-- Appending leaves alone what reading leaves alone, if the log is no part of it. -/
theorem Reads.spares_runAppend {log : Part W Log.Memory} (reads : s.Reads part rests)
    (appends : ∀ ctx payload, s.log.append ctx payload =
      Log.Memory.append s.clock log payload) (apart : log.Disjoint part) :
    s.Spares ctx logic part rests (s.runAppend ctx m logic) where
  moves moves q leads := by
    rcases parts_of_runAppend appends leads with ⟨_, consults, _, _⟩ | ⟨_, consults, _⟩ |
      ⟨_, _, before, after, rfl, consults, delivers⟩
    · exact reads.rests_of_consults consults
    · exact reads.rests_of_consults consults
    · refine List.forall_mem_append.2 ⟨reads.rests_of_consults consults, fun mv member => ?_⟩
      rw [same_of_delivers apart delivers mv member]
      exact .inr (reads.refl _)
  ended moves a leads method w alone := by
    rcases parts_of_runAppend appends leads with ⟨_, _, _, pending⟩ | ⟨_, consults, _⟩ |
      ⟨_, _, before, after, rfl, consults, delivers⟩
    · exact pending.elim
    · exact reads.same_of_consults consults method alone
    · obtain ⟨first, second⟩ := undisturbed_append.1 alone
      rw [stateAfter_append, same_of_undisturbed (same_of_delivers apart delivers) second]
      exact reads.same_of_consults consults (List.forall_mem_append.1 method).1 first

end Service

/-! ## Stores and logs in memory -/

namespace Store.Cell

variable {c : Cell P}

/-- A store rests while nobody writes to it, whoever reads. -/
def Rests (c c' : Cell P) : Prop :=
  c'.committed = c.committed ∧ c'.draft = c.draft

theorem endRead_beginRead (c : Cell P) : c.beginRead.endRead = c :=
  rfl

/-- Nobody begins to read while somebody writes, and beginning to read never fails. -/
theorem read_eq_some {folding : Folding P E ε} {cell : Part W (Cell P)} {r : Except ε Unit}
    {w w' : W} (began : (store folding cell).read w = some (r, w')) :
    (cell.get w).draft = none ∧ r = .ok () ∧ w' = cell.modify beginRead w := by
  change (if (cell.get w).isWritten then none else _) = _ at began
  split at began
  · cases began
  · rename_i unwritten
    cases began
    exact ⟨by simpa [isWritten] using unwritten, rfl, rfl⟩

end Store.Cell

namespace Service

/-- A service whose log and store are in memory, in parts of the state that have nothing in
common. -/
structure InMemory (s : Service W P E ε) (log : Part W Log.Memory) (cell : Part W (Cell P)) :
    Prop where
  keeps : ∃ folding, s.store = Cell.store folding cell
  appends : ∀ ctx payload, s.log.append ctx payload = Log.Memory.append s.clock log payload
  clock_log : s.clock.Disjoint log
  clock_cell : s.clock.Disjoint cell
  log_cell : log.Disjoint cell

variable {s : Service W P E ε} {log : Part W Log.Memory} {cell : Part W (Cell P)}

/-- Reading changes how many read and nothing else. -/
theorem InMemory.reads_cell (inMemory : s.InMemory log cell) : s.Reads cell Cell.Rests := by
  obtain ⟨⟨folding, stored⟩, _, _, clock, _⟩ := inMemory
  have begins {r : Except ε Unit} {w w' : W} (began : s.store.read w = some (r, w')) :
      r = .ok () ∧ w' = cell.modify Cell.beginRead w := by
    rw [stored] at began
    exact (Cell.read_eq_some began).2
  have ends (w : W) : s.store.complete w = cell.modify Cell.endRead w := by
    rw [stored]
    rfl
  constructor
  case refl => exact fun _ => ⟨rfl, rfl⟩
  case clock => exact fun c w => clock.get_set_right c w
  case begins =>
    intro r w w' began
    obtain ⟨_, rfl⟩ := begins began
    rw [Part.get_modify]
    exact ⟨rfl, rfl⟩
  case ends =>
    intro w
    rw [ends, Part.get_modify]
    exact ⟨rfl, rfl⟩
  case fails =>
    intro e w w' failed
    cases (begins failed).1
  case whole =>
    intro w w₁ w₂ began same
    obtain ⟨_, rfl⟩ := begins began
    rw [ends, Part.get_modify, same, Part.get_modify]
    exact Cell.endRead_beginRead _

/-- Reading leaves the log alone. -/
theorem InMemory.reads_log (inMemory : s.InMemory log cell) : s.Reads log Eq := by
  obtain ⟨⟨folding, stored⟩, _, clock, _, apart⟩ := inMemory
  have begins {r : Except ε Unit} {w w' : W} (began : s.store.read w = some (r, w')) :
      log.get w' = log.get w := by
    rw [stored] at began
    obtain ⟨_, _, rfl⟩ := Cell.read_eq_some began
    exact apart.get_set_left _ _
  have ends (w : W) : log.get (s.store.complete w) = log.get w := by
    rw [stored]
    exact apart.get_set_left _ _
  constructor
  case refl => exact fun _ => rfl
  case clock => exact fun c w => clock.get_set_right c w
  case begins => exact fun began => (begins began).symm
  case ends => exact fun w => (ends w).symm
  case fails => exact begins
  case whole => exact fun began same => (ends _).trans (same.trans (begins began))

end Service

/-! ## Entering as declared -/

namespace Service

/-- How a method is called that is declared as what it is: by its name as by the entry point of its
kind, and not at all by the others. -/
structure EntersAs (s : Service W P E ε) (ctx : Context) (name : String)
    (logic : Logic W P E L O) (kind : Method.Kind) : Prop where
  append : kind = .append → s.call ctx name logic = s.append ctx name logic
  transaction : kind = .transaction → s.call ctx name logic = s.transaction ctx name logic
  readonly : kind = .readonly → s.call ctx name logic =
    (s.readonly ctx name logic >>= fun result => pure (s.withoutEvents name result))
  notAppend : kind ≠ .append → s.append ctx name logic =
    pure (.error (.refused (.kindMismatch name kind .append)))
  notTransaction : kind ≠ .transaction → s.transaction ctx name logic =
    pure (.error (.refused (.kindMismatch name kind .transaction)))
  notReadonly : kind ≠ .readonly → s.readonly ctx name logic =
    pure (.error (.refused (.kindMismatch name kind .readonly)))

/-- No entry point answers for a method that is not declared. -/
structure Undeclared (s : Service W P E ε) (ctx : Context) (name : String)
    (logic : Logic W P E L O) : Prop where
  call : s.call ctx name logic = pure (.error (.refused (.unknownMethod name)))
  append : s.append ctx name logic = pure (.error (.refused (.unknownMethod name)))
  transaction : s.transaction ctx name logic = pure (.error (.refused (.unknownMethod name)))
  readonly : s.readonly ctx name logic = pure (.error (.refused (.unknownMethod name)))

variable {s : Service W P E ε} {ctx : Context} {name : String} {logic : Logic W P E L O}
  {m : Contract.Method}

theorem undeclared_of_none (missing : s.contract.method? name = none) :
    s.Undeclared ctx name logic := by
  constructor
  · rw [call, missing]
  · rw [append, method, missing]
  · rw [transaction, method, missing]
  · rw [readonly, method, missing]

/-- A service that is made for a schema is under the contract of one of its services. -/
theorem contract_of_ofSchema {schema : Schema} {service : String} {set : EventSet E}
    {clock : Part W Clock} {l : EventLog W} {store : Store W P E ε}
    (made : ofSchema schema service set clock l store = .ok s) :
    ∃ v ∈ schema.services, s.contract = Contract.ofService schema v := by
  obtain ⟨v, served, _, rfl⟩ := ofSchema_eq_ok.1 made
  exact ⟨v, List.mem_of_find?_eq_some served, rfl⟩

theorem entersAs_of_declared (declared : s.contract.method? name = some m) (named : m.name = name)
    (silent : m.kind = .readonly → m.emits = []) : s.EntersAs ctx name logic m.kind where
  append := call_eq_append declared
  transaction := call_eq_transaction declared
  readonly kind := call_eq_readonly declared named kind (silent kind)
  notAppend other := by rw [append, method_of_declared declared, if_neg other]
  notTransaction other := by rw [transaction, method_of_declared declared, if_neg other]
  notReadonly other := by rw [readonly, method_of_declared declared, if_neg other]

variable {S : Type} {part : Part W S} {rests : S → S → Prop}

theorem Reads.spares_readonly (reads : s.Reads part rests) :
    s.Spares ctx logic part rests (s.readonly ctx name logic) := by
  unfold readonly
  split
  · exact spares_pure
  · exact reads.spares_runReadonly

theorem Reads.spares_append {log : Part W Log.Memory} (reads : s.Reads part rests)
    (appends : ∀ ctx payload, s.log.append ctx payload =
      Log.Memory.append s.clock log payload) (apart : log.Disjoint part) :
    s.Spares ctx logic part rests (s.append ctx name logic) := by
  unfold append
  split
  · exact spares_pure
  · exact reads.spares_runAppend appends apart

/-- In every service of a compiled schema a call by name is a call by the entry point of the
declared kind, in each of its steps; of a method that only reads it has no events to tell.  The
other entry points, and all of them for a method that is not declared, refuse at once, whether
the context is live or not.  If log and store are in memory, then no call of a method that only
reads or appends touches the store, but for counting those who read, and no call of one that only
reads touches the log; only the method itself might. -/
theorem call_enters_as_declared {d : Document} (keyed : d.Keyed) {c : Schema.Compiler}
    {raw : String} {schema : Schema} (compiled : c.compileDocument raw d = .ok schema)
    {service : String} {set : EventSet E} {clock : Part W Clock} {l : EventLog W}
    {store : Store W P E ε} {s : Service W P E ε}
    (made : ofSchema schema service set clock l store = .ok s)
    (ctx : Context) (name : String) (logic : Logic W P E L O) :
    (s.contract.method? name = none → s.Undeclared ctx name logic) ∧
    (∀ m, s.contract.method? name = some m → s.EntersAs ctx name logic m.kind) ∧
    ∀ log cell, s.InMemory log cell →
      s.Spares ctx logic cell Cell.Rests (s.readonly ctx name logic) ∧
      s.Spares ctx logic log Eq (s.readonly ctx name logic) ∧
      s.Spares ctx logic cell Cell.Rests (s.append ctx name logic) ∧
      ((∀ m, s.contract.method? name = some m → m.kind ≠ .transaction) →
        s.Spares ctx logic cell Cell.Rests (s.call ctx name logic)) ∧
      ((∀ m, s.contract.method? name = some m → m.kind = .readonly) →
        s.Spares ctx logic log Eq (s.call ctx name logic)) := by
  obtain ⟨v, served, contract⟩ := contract_of_ofSchema made
  have form := (Schema.compiled_reflects_document keyed compiled).1
  have enters (m : Contract.Method) (found : s.contract.method? name = some m) :
      s.EntersAs ctx name logic m.kind := by
    have declared := found
    rw [contract] at declared
    exact entersAs_of_declared found (Contract.method_of_method? declared).1
      (form.emits_of_readonly served declared)
  refine ⟨undeclared_of_none, enters, fun log cell inMemory => ?_⟩
  have reading := inMemory.reads_cell
  have looking := inMemory.reads_log
  have appending : s.Spares ctx logic cell Cell.Rests (s.append ctx name logic) :=
    reading.spares_append inMemory.appends inMemory.log_cell
  refine ⟨reading.spares_readonly, looking.spares_readonly, appending, fun apart => ?_,
    fun only => ?_⟩
  · cases found : s.contract.method? name with
    | none =>
        rw [(undeclared_of_none found).call]
        exact spares_pure
    | some m =>
        cases kind : m.kind with
        | readonly =>
            rw [(enters m found).readonly kind]
            exact reading.spares_readonly.map _
        | append =>
            rw [(enters m found).append kind]
            exact appending
        | transaction => exact (apart m found kind).elim
  · cases found : s.contract.method? name with
    | none =>
        rw [(undeclared_of_none found).call]
        exact spares_pure
    | some m =>
        rw [(enters m found).readonly (only m found)]
        exact looking.spares_readonly.map _

end Service

/-! ## A gate with methods of all kinds -/

namespace Gates

open Schema (gate gateSchema nameSource Compiler)
open Service (Logic)

/-- The gate is closed in a transaction, opened whatever happened meanwhile, and looked at. -/
def staffed : Document :=
  { gate ["Open -> Shut"] ["Closed"] with
    services := some [("Gates", ⟨["Gate"],
      some [("Close", some ⟨some "Name", none, none, ["Closed"]⟩),
        ("Open", some ⟨none, none, some "append", ["Opened"]⟩), ("Look", none)]⟩)] }

theorem keyed_staffed : staffed.Keyed := by
  constructor <;> simp [staffed, gate, Document.eventDecls, Document.projectionDecls,
    Document.serviceDecls, Document.Projection.propertyDecls, Document.Projection.transitionDecls,
    Document.Service.methodDecls, Document.names]

def staffedSchema : Schema :=
  { gateSchema with
    services := [⟨⟨0⟩, "Gates", [⟨0⟩], [⟨"Close", .transaction, some ⟨0⟩, none, [⟨1⟩]⟩,
      ⟨"Open", .append, none, none, [⟨0⟩]⟩, ⟨"Look", .readonly, none, none, []⟩], [⟨0⟩, ⟨1⟩]⟩]
    references :=
      { events := [[.createOn ⟨0⟩, .emit ⟨0⟩ "Open"], [.transition ⟨0⟩ 0, .emit ⟨0⟩ "Close"]]
        types := [[.eventProperty ⟨1⟩ "by", .input ⟨0⟩ "Close"]] } }

theorem compiled_staffed : Compiler.compileDocument ⟨⟨[⟨[], "Name", nameSource⟩]⟩, []⟩ ""
    staffed = .ok staffedSchema := by
  decide +kernel

def porter : Service World Nat (Member.Event (members true)) Unit :=
  { services true with
    contract :=
      { name := "Gates"
        events := ["Opened", "Closed"]
        subscriptions := ["Opened", "Closed"]
        methods := [⟨"Close", .transaction, ["Closed"]⟩, ⟨"Open", .append, ["Opened"]⟩,
          ⟨"Look", .readonly, []⟩] } }

theorem made_porter :
    Service.ofSchema staffedSchema "Gates" (Member.eventSet (members true)) Commons.clockPart
      (Log.Memory.eventLog Commons.clockPart Commons.logPart 3) (store true) = .ok porter := by
  refine Service.ofSchema_eq_ok.2 ⟨_, rfl, ?_, rfl⟩
  rintro name ⟨e, listed, rfl⟩
  revert e
  decide

theorem inMemory_porter : porter.InMemory Commons.logPart (Commons.cellPart true) where
  keeps := ⟨counting true, rfl⟩
  appends _ _ := rfl
  clock_log := Commons.disjoint_clock
  clock_cell := ⟨fun _ _ => rfl, fun _ _ => rfl, fun _ _ _ => rfl⟩
  log_cell := ⟨fun _ _ => rfl, fun _ _ => rfl, fun _ _ _ => rfl⟩

theorem closed_listed : 1 < (members true).length := by
  decide

def telling : Logic World Nat (Member.Event (members true)) Empty Nat :=
  fun _ n w => (.ok (n, [⟨⟨1, closed_listed⟩, ()⟩]), w)

def late : Context :=
  ⟨0, some 0⟩

end Gates

/-- Each method of the gate is entered as what it is declared as, even late; there is no other; and
looking at the gate leaves the log alone. -/
theorem porter_enters_as_declared :
    Gates.porter.EntersAs Gates.late "Close" Gates.telling .transaction ∧
    Gates.porter.EntersAs Gates.late "Open" Gates.telling .append ∧
    Gates.porter.EntersAs Gates.late "Look" Gates.telling .readonly ∧
    Gates.porter.Undeclared Gates.late "Paint" Gates.telling ∧
    Gates.porter.Spares Gates.late Gates.telling (Commons.cellPart true) Cell.Rests
      (Gates.porter.append Gates.late "Open" Gates.telling) ∧
    Gates.porter.Spares Gates.late Gates.telling Commons.logPart Eq
      (Gates.porter.call Gates.late "Look" Gates.telling) := by
  have enters (name : String) := Service.call_enters_as_declared Gates.keyed_staffed
    Gates.compiled_staffed Gates.made_porter Gates.late name Gates.telling
  refine ⟨(enters "Close").2.1 _ rfl, (enters "Open").2.1 _ rfl, (enters "Look").2.1 _ rfl,
    (enters "Paint").1 rfl, ?_, ?_⟩
  · obtain ⟨_, _, appending, _⟩ := (enters "Open").2.2 _ _ Gates.inMemory_porter
    exact appending
  · obtain ⟨_, _, _, _, looking⟩ := (enters "Look").2.2 _ _ Gates.inMemory_porter
    refine looking fun m found => ?_
    cases found
    rfl

end EventSourcing
