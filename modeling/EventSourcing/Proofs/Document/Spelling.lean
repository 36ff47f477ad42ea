import EventSourcing.Proofs.Document.Keyed
import EventSourcing.Proofs.Text.Words

/-!
# Proofs.Document.Spelling -- documents that say the same

The same can be written in several ways: what is left out may be written as empty, a type alone
or with room for documentation, a text or its lines, and white space is free around the words of
a transition.  One such change anywhere in a document is a step (`Document.Respelled`).
-/

namespace EventSourcing.Document

set_option autoImplicit false

open EventSourcing.Text (AllBlank IsWord)

/-! ## Transitions -/

/-- The expression of a transition: two states around an arrow, set off by white space. -/
structure Spells (source target e : String) : Prop where
  fromState : IsWord source.toList
  toState : IsWord target.toList
  written : ∃ lead gap gap' trail : List Char, AllBlank lead ∧ (AllBlank gap ∧ gap ≠ []) ∧
    (AllBlank gap' ∧ gap' ≠ []) ∧ AllBlank trail ∧
      e.toList = lead ++ (source.toList ++ (gap ++ ("->".toList ++
        (gap' ++ (target.toList ++ trail)))))

/-- The words of an expression are its states and the arrow between them. -/
theorem spells_iff {source target e : String} :
    Spells source target e ↔ Text.words e = [source, "->", target] := by
  have arrow : IsWord "->".toList := by
    refine ⟨by simp, fun c member => ?_⟩
    have either : c = '-' ∨ c = '>' := by simpa using member
    rcases either with rfl | rfl <;> rfl
  have words : Text.words e = [source, "->", target] ↔
      Text.wordsFrom [] e.toList = [source.toList, "->".toList, target.toList] := by
    rw [Text.words]
    constructor
    · intro read
      have chars := congrArg (List.map String.toList) read
      simpa [Function.comp_def] using chars
    · intro read
      rw [read]
      simp
  rw [words]
  constructor
  · rintro ⟨isSource, isTarget, lead, gap, gap', trail, blank, ⟨between, filled⟩,
      ⟨between', filled'⟩, after, written⟩
    rw [written, Text.wordsFrom_blank blank,
      Text.wordsFrom_word isSource (between.parted_append filled), Text.wordsFrom_blank between,
      Text.wordsFrom_word arrow (between'.parted_append filled'), Text.wordsFrom_blank between',
      Text.wordsFrom_word isTarget after.parted, Text.wordsFrom_allBlank after]
  · intro read
    obtain ⟨lead, rest, written, blank, isSource, parted, read⟩ := Text.exists_first_word read
    obtain ⟨gap, rest', written', between, _, parted', read⟩ := Text.exists_first_word read
    obtain ⟨gap', trail, written'', between', isTarget, _, empty⟩ := Text.exists_first_word read
    subst written' written''
    exact ⟨isSource, isTarget, lead, gap, gap', trail, blank,
      ⟨between, Text.gap_ne_nil parted arrow⟩, ⟨between', Text.gap_ne_nil parted' isTarget⟩,
      Text.allBlank_of_wordsFrom empty, written⟩

/-! ## Steps -/

/-- One of some declarations is changed. -/
inductive OneOf {α : Type} (step : α → α → Prop) : Named α → Named α → Prop where
  | change (before after : Named α) (name : String) {a a' : α} (changed : step a a') :
      OneOf step (before ++ (name, a) :: after) (before ++ (name, a') :: after)

/-- What is left out is written as empty, or what is written is changed. -/
inductive Written {α : Type} (empty : α) (step : α → α → Prop) : Option α → Option α → Prop where
  | absent : Written empty step none (some empty)
  | change {a a' : α} (changed : step a a') : Written empty step (some a) (some a')

/-- A type alone gets room for documentation, or documentation is written line by line. -/
inductive Property.Respelled : Property → Property → Prop where
  | alone (reference : String) : Respelled (.type reference) (.documented reference none)
  | lines (reference text : String) :
      Respelled (.documented reference (some (.text text)))
        (.documented reference (some (.lines (Text.lines text))))

/-- White space in one of some expressions is changed. -/
inductive Spaced : List String → List String → Prop where
  | change (before after : List String) {source target e e' : String}
      (spells : Spells source target e) (spells' : Spells source target e') :
      Spaced (before ++ e :: after) (before ++ e' :: after)

/-- White space in a transition is changed, or one of the declared events is written without
transitions. -/
inductive TransitionsRespelled (events : List String) :
    Named (List String) → Named (List String) → Prop where
  | spaced {decls decls' : Named (List String)} (changed : OneOf Spaced decls decls') :
      TransitionsRespelled events decls decls'
  | idle (before after : Named (List String)) {event : String} (declared : event ∈ events) :
      TransitionsRespelled events (before ++ after) (before ++ (event, []) :: after)

inductive Projection.Respelled (events : List String) : Projection → Projection → Prop where
  | properties {p : Projection} {properties : Option (Named Property)}
      (changed : Written [] (OneOf Property.Respelled) p.properties properties) :
      Respelled events p { p with properties }
  | transitions {p : Projection} {transitions : Option (Named (List String))}
      (changed : Written [] (TransitionsRespelled events) p.transitions transitions) :
      Respelled events p { p with transitions }

/-- The kind that is left out is written as no word. -/
inductive Method.Respelled : Method → Method → Prop where
  | kind {m : Method} (absent : m.kind = none) : Respelled m { m with kind := some "" }

inductive Service.Respelled : Service → Service → Prop where
  | methods {s : Service} {methods : Option (Named (Option Method))}
      (changed : Written [] (OneOf (Written .empty Method.Respelled)) s.methods methods) :
      Respelled s { s with methods }

end EventSourcing.Document

namespace EventSourcing

open Document

/-- Something in a document is spelled differently. -/
inductive Document.Respelled : Document → Document → Prop where
  | events {d : Document} {events : Option (Named (Option (Named Property)))}
      (changed : Written [] (OneOf (Written [] (OneOf Property.Respelled))) d.events events) :
      Respelled d { d with events }
  | projections {d : Document} {projections : Option (Named Projection)}
      (changed : Written [] (OneOf (Projection.Respelled (names d.eventDecls))) d.projections
        projections) : Respelled d { d with projections }
  | services {d : Document} {services : Option (Named Service)}
      (changed : Written [] (OneOf Service.Respelled) d.services services) :
      Respelled d { d with services }

end EventSourcing
