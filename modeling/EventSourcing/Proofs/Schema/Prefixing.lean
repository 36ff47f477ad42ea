import EventSourcing.Proofs.Name.Reference
import EventSourcing.Proofs.Schema.FirstViolation

/-!
# Proofs.Schema.Prefixing -- places matched by what is shown of others

A place is shown with dots between its segments, and matched against the pieces between the dots
of a text.  So a place is matched as it is shown exactly if no segment has a dot of its own
(`NodePath.startsWith_self_iff`).  The walk of a document looks at what is below a key only once
the key is a name.  Hence in the places of its first violation a dot can stand in the last key
alone, when the violation is about this very key (`Rules.tidy_violations`).  Main statement: among
the places of errors and those above them, the ones without dots are matched exactly by the places
at or below them, and the others are keys that errors are about, which do not even match
themselves (`Schema.undotted_places_match_below`).
-/

namespace EventSourcing

set_option autoImplicit false

open EventSourcing.Name (Follows check_eq_ok_iff)
open EventSourcing.Text (Pieces pieces_iff)
open EventSourcing.TypeRef (undotted_of_follows)

/-! ## Places as they are shown -/

namespace NodePath

/-- None of the segments has a dot. -/
def Undotted (p : NodePath) : Prop :=
  ∀ s ∈ p.segments, '.' ∉ s.toList

/-- The pieces between the dots of a place as it is shown: those of each segment in turn. -/
def pieces (p : NodePath) : List String :=
  p.segments.flatMap fun s => (s.toList.splitOn '.').map String.ofList

variable {p q : NodePath} {key : String} {i : Nat}

@[simp] theorem undotted_root : root.Undotted :=
  fun _ member => (List.not_mem_nil member).elim

@[simp] theorem undotted_child : (p.child key).Undotted ↔ p.Undotted ∧ '.' ∉ key.toList := by
  simp only [Undotted, segments_child, List.forall_mem_append, List.forall_mem_singleton]

@[simp] theorem undotted_item : (p.item i).Undotted ↔ p.Undotted := by
  have digits : '.' ∉ (toString i).toList := by
    have decimal : (toString i).toList = Nat.toDigits 10 i := Nat.toList_repr
    rw [decimal]
    intro member
    exact absurd (Nat.isDigit_of_mem_toDigits (by decide) (by decide) member) (by decide)
  rw [item, undotted_child, and_iff_left digits]

theorem Undotted.of_above (undotted : p.Undotted) (above : q.segments <+: p.segments) :
    q.Undotted :=
  fun s member => undotted s (above.subset member)

theorem segments_ne_nil (inside : q.isRoot = false) : q.segments ≠ [] :=
  List.isEmpty_eq_false_iff.1 inside

theorem pieces_text (inside : q.isRoot = false) : Pieces q.text q.pieces := by
  have each : ∀ texts : List String, texts ≠ [] → Pieces (".".intercalate texts)
      (texts.flatMap fun s => (s.toList.splitOn '.').map String.ofList) := by
    intro texts filled
    induction texts with
    | nil => exact absurd rfl filled
    | cons first rest ih =>
        have alone : Pieces first ((first.toList.splitOn '.').map String.ofList) := pieces_iff.2 rfl
        cases rest with
        | nil => rwa [List.flatMap_singleton, String.intercalate_singleton]
        | cons next rest =>
            have others := ih (List.cons_ne_nil next rest)
            rw [List.flatMap_cons, String.intercalate_cons_of_ne_nil (List.cons_ne_nil next rest)]
            refine ⟨List.append_ne_nil_of_left_ne_nil alone.filled _, ?_, ?_⟩
            · exact List.forall_mem_append.2 ⟨alone.undotted, others.undotted⟩
            · rw [String.intercalate_append_of_ne_nil alone.filled others.filled, alone.joined,
                others.joined]
  rw [text, inside]
  exact each q.segments (segments_ne_nil inside)

/-- What is shown of a place is matched by the places that begin with its pieces. -/
theorem startsWith_text_iff (inside : q.isRoot = false) :
    p.startsWith q.text = true ↔ q.pieces <+: p.segments := by
  rw [startsWith, ← pieces_iff.1 (pieces_text inside), List.isPrefixOf_iff_prefix]

theorem pieces_of_undotted (undotted : q.Undotted) : q.pieces = q.segments := by
  have each : ∀ s ∈ q.segments, (s.toList.splitOn '.').map String.ofList = [s] := by
    intro s member
    exact (pieces_iff.1 ⟨List.cons_ne_nil s [], List.forall_mem_singleton.2 (undotted s member),
      String.intercalate_singleton⟩).symm
  rw [pieces, List.flatMap_congr each, List.flatMap_singleton']

/-- A place has no fewer pieces than segments. -/
theorem length_segments_le_pieces (q : NodePath) : q.segments.length ≤ q.pieces.length := by
  rw [pieces]
  induction q.segments with
  | nil => exact Nat.le_refl 0
  | cons s rest ih =>
      have filled : 0 < ((s.toList.splitOn '.').map String.ofList).length := by
        rw [List.length_map]
        exact List.length_pos_of_ne_nil (List.splitOn_ne_nil '.' s.toList)
      rw [List.flatMap_cons, List.length_cons, List.length_append]
      omega

theorem startsWith_undotted_iff (inside : q.isRoot = false) (undotted : q.Undotted) :
    p.startsWith q.text = true ↔ q.segments <+: p.segments := by
  rw [startsWith_text_iff inside, pieces_of_undotted undotted]

/-- A place is matched as it is shown exactly if its segments have no dots. -/
theorem startsWith_self_iff (inside : q.isRoot = false) :
    q.startsWith q.text = true ↔ q.Undotted := by
  constructor
  · intro matched
    have same : q.pieces = q.segments := ((startsWith_text_iff inside).1 matched).eq_of_length_le
      (length_segments_le_pieces q)
    intro s member
    exact (pieces_text inside).undotted s (same ▸ member)
  · intro undotted
    exact (startsWith_undotted_iff inside undotted).2 List.prefix_rfl

end NodePath

namespace Schema

open EventSourcing.Document (names)

/-! ## Places that errors carry -/

def Contradiction.paths : Contradiction → List NodePath
  | .createOnTransition _ createOn transition => [createOn, transition]
  | _ => []

/-- All places that an error carries: where it is, and those that it tells of. -/
def Error.paths : Error → List NodePath
  | .malformed place _ => [place]
  | .contradictory place what => place :: what.paths
  | .unreadable => []

/-- An error that is about the key at the end of its place: the key is no name, or no event. -/
inductive Error.AboutKey : Error → NodePath → String → Prop where
  | name (parent : NodePath) (what : Named) (key : String) (defect : Name.Defect) :
      AboutKey (.malformed (parent.child key) (.name what key defect)) parent key
  | event (parent : NodePath) (key : String) :
      AboutKey (.contradictory (parent.child key) (.undefinedEvent key)) parent key

/-- Dots stand nowhere in the places of an error but in a last key that the error is about. -/
def Error.Tidy (e : Error) : Prop :=
  (∀ path ∈ e.paths, path.Undotted) ∨ ∃ parent key, parent.Undotted ∧ e.AboutKey parent key

/-- A place within a document that an error of the document carries, or one above it. -/
def Carried (p : NodePath) : Prop :=
  p.isRoot = false ∧ ∃ (c : Compiler) (raw : String) (d : Document) (e : Error) (path : NodePath),
    d.Keyed ∧ c.compileDocument raw d = .error e ∧ path ∈ e.paths ∧ p.segments <+: path.segments

/-! ## The first of some violations -/

/-- The first of some violations, if there are any, has its places in order. -/
def TidyFirst (found : List Error) : Prop :=
  ∀ e ∈ found.head?, e.Tidy

namespace Rules

section First

variable {found later : List Error} {e : Error}

theorem tidyFirst_nil : TidyFirst [] :=
  fun _ member => by cases member

theorem tidyFirst_single (tidy : e.Tidy) : TidyFirst [e] := by
  rintro _ ⟨⟩
  exact tidy

theorem tidyFirst_append (first : TidyFirst found) (next : found = [] → TidyFirst later) :
    TidyFirst (found ++ later) := by
  cases found with
  | nil => exact next rfl
  | cons e rest => exact first

theorem tidyFirst_flatMap {ξ : Type} {rule : ξ → List Error} {xs : List ξ}
    (each : ∀ x ∈ xs, TidyFirst (rule x)) : TidyFirst (xs.flatMap rule) := by
  induction xs with
  | nil => exact tidyFirst_nil
  | cons x rest ih =>
      rw [List.flatMap_cons]
      exact tidyFirst_append (each x List.mem_cons_self) fun _ =>
        ih fun y member => each y (List.mem_cons_of_mem x member)

theorem tidyFirst_inTurn {ξ : Type} {rule : List ξ → ξ → List Error} {before xs : List ξ}
    (each : ∀ before x, TidyFirst (rule before x)) : TidyFirst (inTurn rule before xs) := by
  induction xs generalizing before with
  | nil => exact tidyFirst_nil
  | cons x rest ih => exact tidyFirst_append (each before x) fun _ => ih

theorem tidyFirst_demand {p : Prop} [Decidable p] (tidy : ¬ p → e.Tidy) :
    TidyFirst (demand p e) := by
  rw [demand]
  split
  · exact tidyFirst_nil
  · rename_i broken
    exact tidyFirst_single (tidy broken)

end First

variable {events projections : List String} {place : NodePath} {key text : String}

theorem tidy_malformed {what : Malformation} (undotted : place.Undotted) :
    (Error.malformed place what).Tidy :=
  .inl (List.forall_mem_singleton.2 undotted)

/-- An error at a place without dots that tells of no other place. -/
theorem tidy_contradictory {what : Contradiction} (alone : what.paths = [])
    (undotted : place.Undotted) : (Error.contradictory place what).Tidy := by
  refine .inl ?_
  rw [Error.paths, alone]
  exact List.forall_mem_singleton.2 undotted

/-! ## Rule by rule -/

theorem undotted_of_name {what : Schema.Named} {rule : Name.Rule}
    (found : name place what rule key = []) : '.' ∉ key.toList := by
  rw [name] at found
  split at found
  · rename_i passed
    exact undotted_of_follows (check_eq_ok_iff.1 passed)
  · cases found

/-- A name that stands at the end of its place is the one segment that may have dots. -/
theorem tidyFirst_key {what : Schema.Named} {rule : Name.Rule} (undotted : place.Undotted) :
    TidyFirst (name (place.child key) what rule key) := by
  rw [name]
  split
  · exact tidyFirst_nil
  · exact tidyFirst_single (.inr ⟨place, key, undotted, .name place what key _⟩)

theorem undotted_key {what : Schema.Named} {rule : Name.Rule} (undotted : place.Undotted)
    (found : name (place.child key) what rule key = []) : (place.child key).Undotted :=
  NodePath.undotted_child.2 ⟨undotted, undotted_of_name found⟩

theorem tidyFirst_reference (undotted : place.Undotted) : TidyFirst (reference place text) := by
  rw [reference]
  split
  · exact tidyFirst_nil
  · exact tidyFirst_single (tidy_malformed undotted)

theorem tidyFirst_defined (undotted : place.Undotted) : TidyFirst (defined events place key) :=
  tidyFirst_demand fun _ => tidy_contradictory rfl undotted

theorem tidyFirst_properties {decls : Document.Named Document.Property}
    (undotted : place.Undotted) : TidyFirst (properties place decls) :=
  tidyFirst_flatMap fun _ _ => tidyFirst_append (tidyFirst_key undotted) fun named =>
    tidyFirst_reference (undotted_key undotted named)

theorem tidyFirst_events
    {decls : Document.Named (Option (Document.Named Document.Property))} :
    TidyFirst (Rules.events decls) := by
  have undotted : (NodePath.root.child "events").Undotted :=
    NodePath.undotted_child.2 ⟨NodePath.undotted_root, by decide⟩
  refine tidyFirst_append (tidyFirst_demand fun _ => tidy_contradictory rfl undotted) fun _ =>
    tidyFirst_flatMap fun e _ => ?_
  exact tidyFirst_append (tidyFirst_key undotted) fun named =>
    tidyFirst_properties (undotted_key undotted named)

/-- Events that break no rule have names without dots. -/
theorem undotted_of_events {decls : Document.Named (Option (Document.Named Document.Property))}
    (found : Rules.events decls = []) : ∀ event ∈ names decls, '.' ∉ event.toList := by
  intro event declared
  obtain ⟨decl, member, rfl⟩ := List.mem_map.1 declared
  have each := List.flatMap_eq_nil_iff.1 (List.append_eq_nil_iff.1 found).2 decl member
  exact undotted_of_name (List.append_eq_nil_iff.1 each).1

theorem tidyFirst_states {texts : List String} (undotted : place.Undotted) :
    TidyFirst (states place texts) := by
  refine tidyFirst_append (tidyFirst_demand fun _ => tidy_contradictory rfl undotted) fun _ =>
    tidyFirst_inTurn fun before s => ?_
  have here : (place.item before.length).Undotted := NodePath.undotted_item.2 undotted
  refine tidyFirst_append ?_ fun _ => tidyFirst_demand fun _ => tidy_contradictory rfl here
  rw [name]
  split
  · exact tidyFirst_nil
  · exact tidyFirst_single (tidy_malformed here)

theorem tidyFirst_expression {declared before : List String} (undotted : place.Undotted) :
    TidyFirst (expression place declared before text) := by
  rw [expression]
  split
  · refine tidyFirst_append (tidyFirst_append ?_ fun _ => ?_) fun _ => ?_ <;>
      exact tidyFirst_demand fun _ => tidy_contradictory rfl undotted
  · exact tidyFirst_single (tidy_malformed (NodePath.undotted_item.2 undotted))

/-- The transitions on an event are looked at if there is the event, and hence no dot. -/
theorem tidyFirst_transitions {declared : List String}
    {decls : Document.Named (List String)} (undotted : place.Undotted)
    (named : ∀ event ∈ events, '.' ∉ event.toList) :
    TidyFirst (transitions place events declared decls) := by
  refine tidyFirst_flatMap fun t _ =>
    tidyFirst_append (tidyFirst_demand fun _ => ?_) fun known => ?_
  · exact .inr ⟨place, t.1, undotted, .event place t.1⟩
  · have here : (place.child t.1).Undotted :=
      NodePath.undotted_child.2 ⟨undotted, named t.1 (demand_eq_nil.1 known)⟩
    exact tidyFirst_inTurn fun _ _ => tidyFirst_expression here

theorem tidyFirst_projection {decl : Document.Projection} (undotted : place.Undotted)
    (named : ∀ event ∈ events, '.' ∉ event.toList) :
    TidyFirst (projection events (place.child key) key decl) := by
  unfold projection
  simp only [List.append_assoc]
  refine tidyFirst_append (tidyFirst_key undotted) fun follows => ?_
  have inside : (place.child key).Undotted := undotted_key undotted follows
  have under : ∀ k : String, '.' ∉ k.toList → ((place.child key).child k).Undotted :=
    fun k plain => NodePath.undotted_child.2 ⟨inside, plain⟩
  have transitions := under "transitions" (by decide)
  have createOn := under "createOn" (by decide)
  refine tidyFirst_append (tidyFirst_states (under "states" (by decide))) fun _ => ?_
  refine tidyFirst_append (tidyFirst_properties (under "properties" (by decide))) fun _ => ?_
  refine tidyFirst_append (tidyFirst_defined createOn) fun known => ?_
  refine tidyFirst_append (tidyFirst_transitions transitions named) fun _ => ?_
  refine tidyFirst_demand fun _ => .inl ?_
  have clash : (((place.child key).child "transitions").child decl.createOn).Undotted :=
    NodePath.undotted_child.2 ⟨transitions, named _ (demand_eq_nil.1 known)⟩
  exact List.forall_mem_cons.2
    ⟨clash, List.forall_mem_cons.2 ⟨createOn, List.forall_mem_singleton.2 clash⟩⟩

theorem tidyFirst_methodType {word : Option String} {emits : List String}
    (undotted : place.Undotted) : TidyFirst (methodType place word emits) := by
  unfold methodType
  split
  · exact tidyFirst_nil
  · split
    · exact tidyFirst_nil
    · split
      · exact tidyFirst_single (tidy_malformed undotted)
      · exact tidyFirst_demand fun _ => tidy_contradictory rfl undotted
      · exact tidyFirst_demand fun _ => tidy_contradictory rfl undotted

theorem tidyFirst_method {decl : Document.Method} (undotted : place.Undotted) :
    TidyFirst (method events (place.child key) key decl) := by
  unfold method
  simp only [List.append_assoc]
  refine tidyFirst_append (tidyFirst_key undotted) fun follows => ?_
  have inside : (place.child key).Undotted := undotted_key undotted follows
  have under : ∀ k : String, '.' ∉ k.toList → ((place.child key).child k).Undotted :=
    fun k plain => NodePath.undotted_child.2 ⟨inside, plain⟩
  refine tidyFirst_append (tidyFirst_flatMap fun _ _ =>
    tidyFirst_reference (under "in" (by decide))) fun _ => ?_
  refine tidyFirst_append (tidyFirst_flatMap fun _ _ =>
    tidyFirst_reference (under "out" (by decide))) fun _ => ?_
  refine tidyFirst_append (tidyFirst_inTurn fun before _ => ?_) fun _ =>
    tidyFirst_methodType (under "type" (by decide))
  have here : (((place.child key).child "emits").item before.length).Undotted :=
    NodePath.undotted_item.2 (under "emits" (by decide))
  exact tidyFirst_append (tidyFirst_defined here) fun _ =>
    tidyFirst_demand fun _ => tidy_contradictory rfl here

theorem tidyFirst_service {decl : Document.Service} (undotted : place.Undotted) :
    TidyFirst (service events projections (place.child key) key decl) := by
  unfold service
  simp only [List.append_assoc]
  refine tidyFirst_append (tidyFirst_key undotted) fun follows => ?_
  have inside : (place.child key).Undotted := undotted_key undotted follows
  have under : ∀ k : String, '.' ∉ k.toList → ((place.child key).child k).Undotted :=
    fun k plain => NodePath.undotted_child.2 ⟨inside, plain⟩
  have methods := under "methods" (by decide)
  refine tidyFirst_append (tidyFirst_inTurn fun before _ => ?_) fun _ => ?_
  · have here : (((place.child key).child "projections").item before.length).Undotted :=
      NodePath.undotted_item.2 (under "projections" (by decide))
    exact tidyFirst_append (tidyFirst_demand fun _ => tidy_contradictory rfl here) fun _ =>
      tidyFirst_demand fun _ => tidy_contradictory rfl here
  · exact tidyFirst_append (tidyFirst_demand fun _ => tidy_contradictory rfl methods) fun _ =>
      tidyFirst_flatMap fun _ _ => tidyFirst_method methods

/-- What is below a key is looked at only once the key is found to be in order. -/
theorem tidy_violations (d : Document) : TidyFirst d.violations := by
  have top : ∀ k : String, '.' ∉ k.toList → (NodePath.root.child k).Undotted :=
    fun k plain => NodePath.undotted_child.2 ⟨NodePath.undotted_root, plain⟩
  have services := top "services" (by decide)
  unfold Document.violations
  simp only [List.append_assoc]
  refine tidyFirst_append tidyFirst_events fun sound => ?_
  have named := undotted_of_events sound
  refine tidyFirst_append (tidyFirst_flatMap fun _ _ =>
    tidyFirst_projection (top "projections" (by decide)) named) fun _ => ?_
  refine tidyFirst_append (tidyFirst_append
    (tidyFirst_demand fun _ => tidy_contradictory rfl services) fun _ =>
      tidyFirst_flatMap fun _ _ => tidyFirst_service services) fun _ => ?_
  refine tidyFirst_flatMap fun e declared => tidyFirst_demand fun _ => tidy_contradictory rfl ?_
  exact NodePath.undotted_child.2 ⟨top "events" (by decide), named e declared⟩

end Rules

/-! ## Whole documents -/

variable {c : Compiler} {raw : String} {d : Document} {e : Error} {p q : NodePath}

/-- An error of a document has its places in order. -/
theorem tidy_of_refused (keyed : d.Keyed) (refused : c.compileDocument raw d = .error e) :
    e.Tidy := by
  cases broken : d.violations with
  | cons first rest =>
      rw [compileDocument_eq keyed, broken] at refused
      cases refused
      have tidy := Rules.tidy_violations d
      rw [broken] at tidy
      exact tidy e rfl
  | nil =>
      obtain ⟨what, ofSources, rfl⟩ := ofSources_of_sound keyed broken refused
      cases ofSources <;> exact Rules.tidy_contradictory rfl NodePath.undotted_root

/-- A place that an error carries, or that is above one, has no dots, or it is where an error is
about its last key, and nothing above it has dots. -/
theorem Carried.undotted_or (carried : Carried q) :
    q.Undotted ∨ ∃ (c : Compiler) (raw : String) (d : Document) (e : Error) (parent : NodePath)
      (key : String), d.Keyed ∧ c.compileDocument raw d = .error e ∧ e.AboutKey parent key ∧
        q = parent.child key ∧ parent.Undotted := by
  obtain ⟨_, c, raw, d, e, path, keyed, refused, member, above⟩ := carried
  rcases tidy_of_refused keyed refused with tidy | ⟨parent, key, undotted, about⟩
  · exact .inl ((tidy path member).of_above above)
  · have path_eq : path = parent.child key := by
      cases about <;> exact List.mem_singleton.1 member
    rw [path_eq, NodePath.segments_child, List.prefix_concat_iff] at above
    rcases above with whole | above
    · exact .inr ⟨c, raw, d, e, parent, key, keyed, refused, about, congrArg NodePath.mk whole,
        undotted⟩
    · exact .inl (undotted.of_above above)

/-- What is shown of a place that an error carries, or of one above it, is matched by the places
that begin with its pieces.  If the place has no dots these are the places at or below it; only
then is it matched by itself.  Otherwise an error is about its last key, which alone has dots. -/
theorem undotted_places_match_below (carried : Carried q) :
    (∀ p : NodePath, p.startsWith q.text = true ↔ q.pieces <+: p.segments) ∧
    (q.Undotted → ∀ p : NodePath, p.startsWith q.text = true ↔ q.segments <+: p.segments) ∧
    (q.startsWith q.text = true ↔ q.Undotted) ∧
    (q.Undotted ∨ ∃ (c : Compiler) (raw : String) (d : Document) (e : Error) (parent : NodePath)
      (key : String), d.Keyed ∧ c.compileDocument raw d = .error e ∧ e.AboutKey parent key ∧
        q = parent.child key ∧ parent.Undotted) :=
  ⟨fun _ => NodePath.startsWith_text_iff carried.1,
    fun undotted _ => NodePath.startsWith_undotted_iff carried.1 undotted,
    NodePath.startsWith_self_iff carried.1, carried.undotted_or⟩

/-! ### The gate, and an event with a dot -/

theorem refused_gate : Compiler.compileDocument ⟨.empty, []⟩ ""
    (gate ["Open -> Shut", "Shut -> Ajar"] ["Closed"]) =
      .error (.contradictory ⟨["projections", "Gate", "transitions", "Closed"]⟩
        (.undefinedState .target "Ajar")) := by decide +kernel

theorem carried_gate : Carried ⟨["projections", "Gate"]⟩ :=
  ⟨rfl, _, _, _, _, _, keyed_gate _ _, refused_gate, List.mem_cons_self, by decide⟩

/-- The projection without dots is matched by its transitions, and not by another projection whose
name begins with its own. -/
theorem gate_matched_below :
    Carried ⟨["projections", "Gate"]⟩ ∧
      NodePath.startsWith ⟨["projections", "Gate", "transitions", "Closed"]⟩ "projections.Gate" =
        true ∧
      NodePath.startsWith ⟨["projections", "Gates"]⟩ "projections.Gate" = false := by
  have undotted : NodePath.Undotted ⟨["projections", "Gate"]⟩ := by unfold NodePath.Undotted; decide
  have below := (undotted_places_match_below carried_gate).2.1 undotted
  refine ⟨carried_gate, (below _).2 (by decide), ?_⟩
  exact Bool.eq_false_iff.2 fun matched => absurd ((below _).1 matched) (by decide)

/-- A document with an event whose name has a dot. -/
def dotted : Document where
  events := some [("a.b", none)]
  projections := none
  services := none

theorem carried_dotted : Carried ⟨["events", "a.b"]⟩ := by
  have keyed : dotted.Keyed := by
    constructor <;> simp [dotted, Document.eventDecls, Document.projectionDecls,
      Document.serviceDecls, names]
  have refused : Compiler.compileDocument ⟨.empty, []⟩ "" dotted =
      .error (.malformed ⟨["events", "a.b"]⟩
        (.name .event "a.b" .mustBeginWithUpperLatin)) := by decide +kernel
  exact ⟨rfl, _, _, _, _, _, keyed, refused, List.mem_singleton_self _, List.prefix_rfl⟩

/-- The place of the event is not matched as it is shown itself. -/
theorem dotted_event_unmatched :
    ¬ ∀ p q : NodePath, Carried p → Carried q →
      (p.startsWith q.text = true ↔ q.segments <+: p.segments) := by
  intro law
  have matched := (law _ _ carried_dotted carried_dotted).2 List.prefix_rfl
  exact absurd matched (by decide)

end Schema

end EventSourcing
