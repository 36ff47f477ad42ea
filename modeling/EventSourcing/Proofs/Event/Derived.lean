import EventSourcing.Derive.Code
import EventSourcing.Event.Member
import EventSourcing.Proofs.Document.Keyed

/-!
# Proofs.Event.Derived -- what the code of a derived set does

The code that is written for an enum goes through its variants case by case: once to name an
event, once to write its payload and once to rebuild it.  Main statement: the set that is
given by the members an enum declares does what these cases say (`follows_of_derived`).
-/

namespace EventSourcing

set_option autoImplicit false

/-- The event of a name is rebuilt as the member with that name. -/
theorem Member.fromPayload_name {members : List Member} (distinct : (members.map (·.name)).Nodup)
    (i : Fin members.length) (payload : Json) :
    (eventSet members).fromPayload (members.get i).name payload =
      ((members.get i).payload.decode payload).elim (.error .payload) fun value =>
        .ok ⟨i, value⟩ := by
  have first : members.findFinIdx? (·.name == (members.get i).name) = some i := by
    rw [List.findFinIdx?_eq_some_iff]
    refine ⟨beq_self_eq_true _, fun j before => ?_⟩
    rw [beq_iff_eq]
    intro same
    have again : members.get j = members.get i :=
      List.inj_on_of_nodup_map distinct (List.get_mem members j) (List.get_mem members i) same
    rw [List.nodup_iff_injective_get.1 (distinct.of_map _) again] at before
    exact Nat.lt_irrefl _ before
  rw [eventSet]
  dsimp only
  rw [first]
  dsimp only
  cases (members.get i).payload.decode payload <;> rfl

namespace Derive

open EventSourcing.Source

/-! ## Cases -/

def Pattern.variant : Pattern → String
  | unit v => v
  | carrying v _ => v

theorem nameCase_variant (m : Member) : m.nameCase.1.variant = m.variant := by
  rw [Member.nameCase]
  split <;> rfl

theorem nameCase_name (m : Member) : m.nameCase.2 = m.name := by
  rw [Member.nameCase]
  split <;> rfl

theorem payloadCase_variant (m : Member) : m.payloadCase.1.variant = m.variant := by
  rw [Member.payloadCase]
  split <;> rfl

theorem rebuildCase_name (m : Member) : id m.rebuildCase.1 = m.name := by
  rw [Member.rebuildCase]
  split <;> rfl

/-- What the first of some cases for a key says. -/
def firstCase {κ α : Type} (key : κ → String) (cases : List (κ × α)) (k : String) : Option α :=
  (cases.find? (key ·.1 == k)).map (·.2)

section

variable {κ α : Type} {key : κ → String} {f : Member → κ × α} {g : Member → String}
  {members : List Member}

/-- What is done for each member is done in the case for it. -/
theorem firstCase_map (own : ∀ m, key (f m).1 = g m) (distinct : (members.map g).Nodup)
    {m : Member} (declared : m ∈ members) :
    firstCase key (members.map f) (g m) = some (f m).2 := by
  have found := find?_key distinct declared
  rw [firstCase, List.find?_map, Function.comp_def]
  simp only [own]
  rw [found]
  rfl

theorem firstCase_eq_none (own : ∀ m, key (f m).1 = g m) {k : String} :
    firstCase key (members.map f) k = none ↔ ∀ m ∈ members, g m ≠ k := by
  simp [firstCase, own]

end

/-! ## Sets -/

variable (types : List Tree → PayloadType)

def Member.typed (m : Member) : EventSourcing.Member :=
  ⟨m.name, (m.payload.map types).getD .none⟩

abbrev Event (members : List Member) :=
  EventSourcing.Member.Event (members.map (Member.typed types))

def eventSet (members : List Member) : EventSet (Event types members) :=
  EventSourcing.Member.eventSet (members.map (Member.typed types))

variable {types} {members : List Member}

def memberAt (i : Fin (members.map (Member.typed types)).length) : Member :=
  members.get (i.cast (List.length_map _))

theorem get_typed (i : Fin (members.map (Member.typed types)).length) :
    (members.map (Member.typed types)).get i = (memberAt i).typed types := by
  simp [memberAt]

theorem memberAt_mem (i : Fin (members.map (Member.typed types)).length) :
    memberAt i ∈ members :=
  List.get_mem members _

/-- The payload of an event as its case says. -/
def Writing.Gives (e : Event types members) : Writing → Except EncodeError Json → Prop
  | emptyObject, r => r = .ok (.obj [])
  | carried, r => r = ((members.map (Member.typed types)).get e.member).payload.encode e.value

/-- The event that is rebuilt from a payload as a case says. -/
def Rebuilding.Gives (payload : Json) :
    Rebuilding → Except DecodeError (Event types members) → Prop
  | unit v, r => ∃ e, (memberAt e.member).variant = v ∧ r = .ok e
  | carrying v, r => ∃ i, (memberAt i).variant = v ∧
      r = (((members.map (Member.typed types)).get i).payload.decode payload).elim
        (.error .payload) fun value => .ok ⟨i, value⟩

/-- A set of events that does what the cases for some members say. -/
structure Follows (set : EventSet (Event types members)) : Prop where
  names : set.names = members.map (·.name)
  name : ∀ e, firstCase Pattern.variant (members.map Member.nameCase)
    (memberAt e.member).variant = some (set.name e)
  written : ∀ e, ∃ writing, firstCase Pattern.variant (members.map Member.payloadCase)
    (memberAt e.member).variant = some writing ∧ writing.Gives e (set.toPayload e)
  rebuilt : ∀ name payload rebuilding,
    firstCase id (members.map Member.rebuildCase) name = some rebuilding →
      rebuilding.Gives payload (set.fromPayload name payload)
  unknown : ∀ name payload, firstCase id (members.map Member.rebuildCase) name = none →
    set.fromPayload name payload = .error (.unknownEvent name set.names)

/-! ## Declared members -/

theorem nodup_of_duplicates {seen : List String} (empty : duplicates seen members = []) :
    (members.map (·.name)).Nodup ∧ ∀ m ∈ members, m.name ∉ seen := by
  induction members generalizing seen with
  | nil => simp
  | cons m rest ih =>
      rw [duplicates] at empty
      split at empty
      · cases empty
      · rename_i fresh
        obtain ⟨distinct, unseen⟩ := ih empty
        simp only [List.mem_cons, not_or] at unseen
        refine ⟨List.nodup_cons.2 ⟨?_, distinct⟩, List.forall_mem_cons.2 ⟨by simpa using fresh, ?_⟩⟩
        · intro again
          obtain ⟨m', declared, same⟩ := List.mem_map.1 again
          exact (unseen m' declared).1 same
        · exact fun m' declared => (unseen m' declared).2

variable {attributes : List Attribute} {variants : List Variant}

/-- The members that an enum declares have distinct names, and the variants that it has. -/
theorem derived_spec (derived : membersOf attributes variants = .ok members) :
    (members.map (·.name)).Nodup ∧ members = variants.filterMap member? := by
  unfold membersOf at derived
  dsimp only at derived
  split at derived
  · cases derived
  split at derived
  · cases derived
  split at derived
  · cases derived
  split at derived
  · rename_i distinct
    cases derived
    exact ⟨(nodup_of_duplicates (List.isEmpty_iff.1 distinct)).1, rfl⟩
  · cases derived

theorem variants_nodup (derived : membersOf attributes variants = .ok members)
    (distinct : (variants.map (·.name)).Nodup) : (members.map (·.variant)).Nodup := by
  rw [(derived_spec derived).2]
  have same (v : Variant) (m : Member) (declares : member? v = some m) : m.variant = v.name := by
    obtain ⟨payload, _, rfl⟩ := Option.map_eq_some_iff.1 declares
    rfl
  refine distinct.sublist ?_
  clear derived distinct
  induction variants with
  | nil => exact List.Sublist.slnil
  | cons v rest ih =>
      rw [List.filterMap_cons]
      split
      · exact ih.trans (List.sublist_cons_self _ _)
      · rename_i m declares
        rw [List.map_cons, List.map_cons, same v m declares]
        exact ih.cons_cons _

/-- Whatever a member carries, an event of it is written as its case says. -/
theorem payloadCase_gives (e : Event types members) :
    (memberAt e.member).payloadCase.2.Gives e
      ((eventSet types members).toPayload e) := by
  rw [Member.payloadCase]
  split
  · rfl
  · rename_i nothing
    have payload : ((members.map (Member.typed types)).get e.member).payload = .none := by
      rw [get_typed, Member.typed, nothing]
      rfl
    have empty (type : PayloadType) (same : type = .none) (value : type.Carrier) :
        type.encode value = .ok (.obj []) := by
      subst same
      rfl
    exact empty _ payload e.value

theorem rebuildCase_gives (i : Fin (members.map (Member.typed types)).length)
    (distinct : (members.map (·.name)).Nodup) (payload : Json) :
    (memberAt i).rebuildCase.2.Gives payload
      ((eventSet types members).fromPayload (memberAt i).name payload) := by
  have same : (memberAt i).name = ((members.map (Member.typed types)).get i).name := by
    rw [get_typed]
    rfl
  have names : ((members.map (Member.typed types)).map (·.name)).Nodup := by
    rwa [List.map_map]
  rw [same, eventSet, EventSourcing.Member.fromPayload_name names, Member.rebuildCase]
  split
  · exact ⟨i, rfl, rfl⟩
  · rename_i nothing
    have carried : ((members.map (Member.typed types)).get i).payload = .none := by
      rw [get_typed, Member.typed, nothing]
      rfl
    have any (type : PayloadType) (same : type = .none) :
        ∃ value, type.decode payload = some value := by
      subst same
      exact ⟨(), rfl⟩
    obtain ⟨value, decoded⟩ := any _ carried
    exact ⟨⟨i, value⟩, rfl, by rw [decoded]; rfl⟩

/-- The set of the members that an enum declares does what the generated cases say. -/
theorem follows_of_derived (derived : membersOf attributes variants = .ok members)
    (distinct : (variants.map (·.name)).Nodup) :
    Follows (eventSet types members) := by
  have names := (derived_spec derived).1
  have cases := variants_nodup derived distinct
  refine ⟨?_, fun e => ?_, fun e => ?_, ?_, ?_⟩
  · simp [eventSet, EventSourcing.Member.eventSet, Member.typed]
  · rw [firstCase_map nameCase_variant cases (memberAt_mem e.member), nameCase_name, eventSet,
      EventSourcing.Member.eventSet]
    dsimp only
    rw [get_typed]
    rfl
  · exact ⟨_, firstCase_map payloadCase_variant cases (memberAt_mem e.member),
      payloadCase_gives e⟩
  · intro name payload rebuilding found
    by_cases declared : ∃ m ∈ members, m.name = name
    · obtain ⟨m, member, rfl⟩ := declared
      rw [firstCase_map rebuildCase_name names member] at found
      cases found
      obtain ⟨k, inside, rfl⟩ := List.getElem_of_mem member
      exact rebuildCase_gives ⟨k, by rwa [List.length_map]⟩ names payload
    · have missed : ∀ m ∈ _, _ := fun m member same => declared ⟨m, member, same⟩
      rw [(firstCase_eq_none rebuildCase_name).2 missed] at found
      cases found
  · intro name payload missing
    have unknown := (firstCase_eq_none rebuildCase_name).1 missing
    have nowhere : (members.map (Member.typed types)).findFinIdx? (·.name == name) = none := by
      rw [List.findFinIdx?_eq_none_iff]
      intro m member
      obtain ⟨m', declared, rfl⟩ := List.mem_map.1 member
      rw [Bool.not_eq_true, beq_eq_false_iff_ne]
      exact unknown m' declared
    rw [eventSet, EventSourcing.Member.eventSet]
    dsimp only
    rw [nowhere]

end Derive

end EventSourcing
