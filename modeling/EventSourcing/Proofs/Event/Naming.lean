import EventSourcing.Contract
import EventSourcing.Event.Member
import EventSourcing.Proofs.Event.Stored

/-!
# Proofs.Event.Naming -- the names of stored events

The entry that an event becomes carries the name of the event, so a batch that a method may
emit becomes entries with names that the method declares (`carries_of_split`).  Whoever reads
an entry finds that name in it or fails to read it at all (`Envelope.Carries.name_eq`).  So
a set of events knows every entry that carries the name of a member
(`known_of_carries`, `Member.knows`).
-/

namespace EventSourcing

set_option autoImplicit false

open EventSourcing.Text (Glyph)

/-- The text of an envelope with a name. -/
def Envelope.Carries (text name : String) : Prop :=
  ∃ payload, text = (sorted name payload).text

/-- The text of an envelope with a name of a kind. -/
def Envelope.Says (kind : String → Prop) (text : String) : Prop :=
  ∃ name, kind name ∧ Carries text name

/-- The name that is read is the one that is carried. -/
theorem Envelope.Carries.name_eq {text name : String} {e : Envelope} (carries : Carries text name)
    (read : read? (Glyph.ofString text) = some e) : e.name = name := by
  obtain ⟨payload, rfl⟩ := carries
  rw [read?_sorted] at read
  obtain ⟨again, _, rfl⟩ := Option.map_eq_some_iff.1 read
  rfl

/-! ## Storing -/

variable {E : Type} {set : EventSet E}

theorem carries_of_stored {event : E} {text : String} (stored : set.stored? event = some text) :
    Envelope.Carries text (set.name event) := by
  cases written : set.toPayload event with
  | error e =>
      rw [EventSet.stored?, EventSet.envelope, written] at stored
      cases stored
  | ok payload =>
      obtain ⟨again, _, same⟩ := stored_eq written stored
      exact ⟨again, same⟩

theorem exists_of_mapM {α β : Type} {f : α → Option β} {xs : List α} {ys : List β}
    (mapped : xs.mapM f = some ys) : ∀ y ∈ ys, ∃ x ∈ xs, f x = some y := by
  induction xs generalizing ys with
  | nil =>
      cases mapped
      exact fun y member => (List.not_mem_nil member).elim
  | cons x more ih =>
      obtain ⟨y, others, first, later, rfl⟩ := Json.mapM_cons_eq_some mapped
      intro z member
      rcases List.mem_cons.1 member with rfl | member
      · exact ⟨x, List.mem_cons_self, first⟩
      · obtain ⟨x', member', same⟩ := ih later z member
        exact ⟨x', List.mem_cons_of_mem x member', same⟩

/-- A batch in which nothing is undeclared has only events that the method may emit. -/
theorem Contract.Method.name_mem_emits {m : Contract.Method} {service : String} {events : List E}
    (legal : m.undeclared? set service events = none) :
    ∀ event ∈ events, set.name event ∈ m.emits := by
  have each : ∀ (index : Nat), m.undeclaredFrom? set service index events = none →
      ∀ event ∈ events, set.name event ∈ m.emits := by
    clear legal
    induction events with
    | nil => exact fun _ _ event member => (List.not_mem_nil member).elim
    | cons first rest ih =>
        intro index legal event member
        rw [undeclaredFrom?] at legal
        split at legal
        · rename_i may
          rcases List.mem_cons.1 member with rfl | member
          · exact List.contains_iff_mem.1 may
          · exact ih (index + 1) legal event member
        · cases legal
  exact each 0 legal

/-- The entries of a batch in which nothing is undeclared carry names that the method
declares. -/
theorem carries_of_split {m : Contract.Method} {service : String} {events : List E}
    {text : String} {texts : List String} (legal : m.undeclared? set service events = none)
    (encoded : set.encode events = .ok text)
    (split : Log.split (Glyph.ofString text) = .ok texts) :
    ∀ entry ∈ texts, Envelope.Says (· ∈ m.emits) entry := by
  intro entry member
  obtain ⟨event, emitted, stored⟩ := exists_of_mapM (stored_of_split encoded split) entry member
  exact ⟨_, Contract.Method.name_mem_emits legal event emitted, carries_of_stored stored⟩

/-! ## Rebuilding -/

/-- Whether an event was not rebuilt because no member has its name. -/
def DecodeError.isUnknown : DecodeError → Bool
  | unknownEvent _ _ => true
  | payload => false

/-- A set that knows a name: whatever has the name is rebuilt unless its payload does not
fit. -/
def EventSet.Knows (set : EventSet E) (name : String) : Prop :=
  ∀ payload e, set.fromPayload name payload = .error e → e.isUnknown = false

theorem known_of_carries {text name : String} {e : DecodeError} (knows : set.Knows name)
    (carries : Envelope.Carries text name) (refused : set.decodeText text = .error e) :
    e.isUnknown = false := by
  rw [EventSet.decodeText, EventSet.decode] at refused
  split at refused
  · rename_i envelope read
    rw [carries.name_eq read] at refused
    exact knows _ _ refused
  · cases refused
    rfl

/-- A set that is given by its members knows their names. -/
theorem Member.knows {members : List Member} {name : String}
    (member : name ∈ (eventSet members).names) : (eventSet members).Knows name := by
  intro payload e refused
  obtain ⟨m, listed, rfl⟩ := List.mem_map.1 member
  rw [eventSet] at refused
  dsimp only at refused
  cases found : members.findFinIdx? (·.name == m.name) with
  | none =>
      have missing := List.findFinIdx?_eq_none_iff.1 found m listed
      simp at missing
  | some i =>
      rw [found] at refused
      dsimp only at refused
      split at refused <;> cases refused
      rfl

end EventSourcing
