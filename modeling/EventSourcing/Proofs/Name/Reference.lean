import EventSourcing.Proofs.Name.Alphabet
import EventSourcing.Proofs.Text.Pieces
import EventSourcing.TypeRef

/-!
# Proofs.Name.Reference -- references told by their grammar

A reference is the name of a type, behind any number of names of modules that each end in a dot
(`TypeRef.Written`).  Of the pieces of any other text there is a first one that breaks its rule
(`TypeRef.FirstBroken`).  Main statement: exactly the references are read, each as that which is
written like it, and any other text is refused for the first piece that breaks its rule
(`TypeRef.parse_inverts_text`).
-/

namespace EventSourcing.TypeRef

set_option autoImplicit false

open EventSourcing.Name (Rule Follows Breaks check_eq_ok_iff check_eq_error_iff)
open EventSourcing.Text (Pieces pieces_iff)

inductive Written : String → Prop where
  | type {name : String} (follows : Follows .type name) : Written name
  | within {moduleName rest : String} (follows : Follows .module moduleName)
      (written : Written rest) : Written (moduleName ++ "." ++ rest)

/-- What a piece of a reference names: the last one a type, the others modules. -/
def ruleAt (pieces : List String) (index : Nat) : Rule :=
  if index + 1 = pieces.length then .type else .module

/-- The first of some pieces that breaks its rule, and how it does. -/
structure FirstBroken (pieces : List String) (d : Defect) : Prop where
  piece : pieces[d.index]? = some d.segment
  breaks : Breaks (ruleAt pieces d.index) d.segment d.reason
  before : ∀ i p, i < d.index → pieces[i]? = some p → Follows (ruleAt pieces i) p

variable {pieces modules rest : List String} {name piece text : String} {index k : Nat}
  {reason : Name.Defect} {r : TypeRef} {d : Defect}

theorem not_follows_of_breaks {rule : Rule} (breaks : Breaks rule name reason) :
    ¬ Follows rule name := by
  intro follows
  have passed := check_eq_ok_iff.2 follows
  rw [breaks.check_eq] at passed
  cases passed

theorem exists_of_map_ok {ε α β : Type} {f : α → β} {x : Except ε α} {b : β}
    (done : x.map f = .ok b) : ∃ a, x = .ok a ∧ f a = b := by
  cases x with
  | error e => cases done
  | ok a => exact ⟨a, rfl, Except.ok.inj done⟩

theorem error_of_map_error {ε α β : Type} {f : α → β} {x : Except ε α} {e : ε}
    (failed : x.map f = .error e) : x = .error e := by
  cases x with
  | error e' => exact congrArg Except.error (Except.error.inj failed)
  | ok a => cases failed

/-! ## Piece by piece -/

theorem ruleAt_zero (more : rest ≠ []) : ruleAt (piece :: rest) 0 = .module := by
  have longer : 0 < rest.length := List.length_pos_of_ne_nil more
  rw [ruleAt, if_neg (by simp only [List.length_cons]; omega)]

theorem ruleAt_succ : ruleAt (piece :: rest) (index + 1) = ruleAt rest index := by
  simp only [ruleAt, List.length_cons, Nat.add_right_cancel_iff]

theorem firstBroken_single :
    FirstBroken [piece] ⟨k, text, reason⟩ ↔ k = 0 ∧ text = piece ∧ Breaks .type piece reason := by
  constructor
  · rintro ⟨found, breaks, _⟩
    cases k with
    | zero =>
        cases found
        exact ⟨rfl, rfl, breaks⟩
    | succ k => cases found
  · rintro ⟨rfl, rfl, breaks⟩
    exact ⟨rfl, breaks, fun i p earlier => absurd earlier (Nat.not_lt_zero i)⟩

theorem firstBroken_cons (more : rest ≠ []) :
    FirstBroken (piece :: rest) ⟨k, text, reason⟩ ↔
      (k = 0 ∧ text = piece ∧ Breaks .module piece reason) ∨
        Follows .module piece ∧ ∃ j, k = j + 1 ∧ FirstBroken rest ⟨j, text, reason⟩ := by
  constructor
  · rintro ⟨found, breaks, before⟩
    cases k with
    | zero =>
        cases found
        rw [ruleAt_zero more] at breaks
        exact .inl ⟨rfl, rfl, breaks⟩
    | succ j =>
        have first := before 0 piece (Nat.succ_pos j) rfl
        rw [ruleAt_zero more] at first
        rw [ruleAt_succ] at breaks
        refine .inr ⟨first, j, rfl, found, breaks, fun i p earlier here => ?_⟩
        have follows := before (i + 1) p (Nat.succ_lt_succ earlier) here
        rwa [ruleAt_succ] at follows
  · rintro (⟨rfl, rfl, breaks⟩ | ⟨first, j, rfl, found, breaks, before⟩)
    · refine ⟨rfl, ?_, fun i p earlier => absurd earlier (Nat.not_lt_zero i)⟩
      rwa [ruleAt_zero more]
    · refine ⟨found, ?_, fun i p earlier here => ?_⟩
      · rwa [ruleAt_succ]
      · cases i with
        | zero =>
            cases here
            rwa [ruleAt_zero more]
        | succ i =>
            rw [ruleAt_succ]
            exact before i p (Nat.lt_of_succ_lt_succ earlier) here

/-- Pieces that are accepted name modules and, at last, a type. -/
theorem follows_of_checkFrom (checked : checkFrom index pieces = .ok (modules, name)) :
    modules ++ [name] = pieces ∧ (∀ m ∈ modules, Follows .module m) ∧ Follows .type name := by
  induction pieces generalizing index modules with
  | nil => cases checked
  | cons piece rest ih =>
      cases rest with
      | nil =>
          rw [checkFrom] at checked
          split at checked
          · rename_i passed
            cases checked
            exact ⟨rfl, fun m member => (List.not_mem_nil member).elim, check_eq_ok_iff.1 passed⟩
          · cases checked
      | cons next rest =>
          unfold checkFrom at checked
          split at checked
          · rename_i passed
            obtain ⟨⟨modules', name'⟩, found, same⟩ := exists_of_map_ok checked
            cases same
            obtain ⟨same, follow, last⟩ := ih found
            exact ⟨congrArg (piece :: ·) same,
              List.forall_mem_cons.2 ⟨check_eq_ok_iff.1 passed, follow⟩, last⟩
          · cases checked

/-- Pieces that are refused are refused for the first that breaks its rule. -/
theorem firstBroken_of_checkFrom (filled : pieces ≠ [])
    (refused : checkFrom index pieces = .error d) :
    ∃ k, d.index = index + k ∧ FirstBroken pieces ⟨k, d.segment, d.reason⟩ := by
  induction pieces generalizing index with
  | nil => exact absurd rfl filled
  | cons piece rest ih =>
      cases rest with
      | nil =>
          rw [checkFrom] at refused
          split at refused
          · cases refused
          · rename_i broken
            cases refused
            exact ⟨0, rfl, firstBroken_single.2 ⟨rfl, rfl, check_eq_error_iff.1 broken⟩⟩
      | cons next rest =>
          have more : next :: rest ≠ [] := List.cons_ne_nil next rest
          unfold checkFrom at refused
          split at refused
          · rename_i passed
            obtain ⟨k, here, broken⟩ := ih more (error_of_map_error refused)
            refine ⟨k + 1, by omega, (firstBroken_cons more).2 (.inr ?_)⟩
            exact ⟨check_eq_ok_iff.1 passed, k, rfl, broken⟩
          · rename_i broken
            cases refused
            refine ⟨0, rfl, (firstBroken_cons more).2 (.inl ?_)⟩
            exact ⟨rfl, rfl, check_eq_error_iff.1 broken⟩

/-! ## Whole references -/

theorem undotted_of_follows {rule : Rule} (follows : Follows rule name) : '.' ∉ name.toList := by
  obtain ⟨c, rest, shape, begins, continues⟩ := follows
  have first : ¬ rule.Begins '.' := by cases rule <;> decide
  have next : ¬ rule.Continues '.' := by cases rule <;> decide
  rw [shape]
  intro member
  rcases List.mem_cons.1 member with rfl | later
  · exact first begins
  · exact next (continues _ later)

/-- A reference, in pieces. -/
theorem pieces_text (follow : ∀ m ∈ r.modules, Follows .module m) (last : Follows .type r.name) :
    Pieces r.text (r.modules ++ [r.name]) := by
  refine ⟨by simp, fun p member => ?_, rfl⟩
  rcases List.mem_append.1 member with inside | at_
  · exact undotted_of_follows (follow p inside)
  · rw [List.mem_singleton.1 at_]
    exact undotted_of_follows last

/-- What is read of a text has the pieces of the text for its names. -/
theorem follows_of_parse (parsed : parse text = .ok r) :
    Pieces text (r.modules ++ [r.name]) ∧ (∀ m ∈ r.modules, Follows .module m) ∧
      Follows .type r.name := by
  obtain ⟨⟨modules, name⟩, checked, rfl⟩ := exists_of_map_ok parsed
  obtain ⟨same, follow, last⟩ := follows_of_checkFrom checked
  exact ⟨pieces_iff.2 same, follow, last⟩

theorem firstBroken_of_parse (refused : parse text = .error d) : FirstBroken (segments text) d := by
  have filled : segments text ≠ [] := by simp [segments]
  obtain ⟨k, here, broken⟩ := firstBroken_of_checkFrom filled (error_of_map_error refused)
  rw [Nat.zero_add] at here
  subst here
  exact broken

/-- A reference that was read is written as it was. -/
theorem text_of_parse (parsed : parse text = .ok r) : r.text = text :=
  (follows_of_parse parsed).1.joined

theorem follows_ruleAt (follow : ∀ m ∈ modules, Follows .module m) (last : Follows .type name) :
    ∀ i p, (modules ++ [name])[i]? = some p → Follows (ruleAt (modules ++ [name]) i) p := by
  intro i p here
  rw [ruleAt, List.length_append, List.length_singleton]
  rcases Nat.lt_trichotomy i modules.length with inside | rfl | beyond
  · rw [if_neg (by omega)]
    rw [List.getElem?_append_left inside] at here
    exact follow p (List.mem_of_getElem? here)
  · rw [if_pos rfl]
    rw [List.getElem?_concat_length] at here
    cases here
    exact last
  · rw [List.getElem?_eq_none (by simp; omega)] at here
    cases here

theorem FirstBroken.unique {d' : Defect} (broken : FirstBroken pieces d)
    (broken' : FirstBroken pieces d') : d = d' := by
  obtain ⟨i, s, reason⟩ := d
  obtain ⟨j, t, reason'⟩ := d'
  have same : i = j := by
    rcases Nat.lt_trichotomy i j with earlier | same | later
    · exact absurd (broken'.before i s earlier broken.piece) (not_follows_of_breaks broken.breaks)
    · exact same
    · exact absurd (broken.before j t later broken'.piece) (not_follows_of_breaks broken'.breaks)
  subst same
  cases broken.piece.symm.trans broken'.piece
  cases broken.breaks.check_eq.symm.trans broken'.breaks.check_eq
  rfl

/-- Exactly what is written like a reference is read as it. -/
theorem parse_eq_ok_iff : parse text = .ok r ↔
    r.text = text ∧ (∀ m ∈ r.modules, Follows .module m) ∧ Follows .type r.name := by
  constructor
  · intro parsed
    exact ⟨text_of_parse parsed, (follows_of_parse parsed).2⟩
  · rintro ⟨rfl, follow, last⟩
    have pieces := pieces_iff.1 (pieces_text follow last)
    cases parsed : parse r.text with
    | error d =>
        have broken := firstBroken_of_parse parsed
        rw [segments, ← pieces] at broken
        exact absurd (follows_ruleAt follow last _ _ broken.piece)
          (not_follows_of_breaks broken.breaks)
    | ok r' =>
        obtain ⟨pieces', _⟩ := follows_of_parse parsed
        have names := (pieces_iff.1 pieces').trans pieces.symm
        obtain ⟨modules, name⟩ := List.append_inj' names rfl
        obtain ⟨modules', name'⟩ := r'
        cases modules
        cases name
        rfl

/-- What is written like a reference is the text of one, and the other way round. -/
theorem written_iff : Written text ↔
    ∃ r : TypeRef, r.text = text ∧ (∀ m ∈ r.modules, Follows .module m) ∧ Follows .type r.name := by
  constructor
  · intro written
    induction written with
    | @type name follows =>
        refine ⟨⟨[], name⟩, String.intercalate_singleton, fun m member => ?_, follows⟩
        exact (List.not_mem_nil member).elim
    | @within moduleName rest follows written ih =>
        obtain ⟨r, rfl, follow, last⟩ := ih
        refine ⟨⟨moduleName :: r.modules, r.name⟩, ?_, List.forall_mem_cons.2 ⟨follows, follow⟩,
          last⟩
        exact String.intercalate_cons_of_ne_nil (List.append_ne_nil_of_right_ne_nil _ (by simp))
  · rintro ⟨⟨modules, name⟩, rfl, follow, last⟩
    induction modules with
    | nil =>
        have alone : text ⟨[], name⟩ = name := String.intercalate_singleton
        rw [alone]
        exact .type last
    | cons m modules ih =>
        have behind : text ⟨m :: modules, name⟩ = m ++ "." ++ text ⟨modules, name⟩ :=
          String.intercalate_cons_of_ne_nil (List.append_ne_nil_of_right_ne_nil _ (by simp))
        obtain ⟨first, others⟩ := List.forall_mem_cons.1 follow
        rw [behind]
        exact .within first (ih others last)

/-- What is refused is refused for the first of its pieces that breaks its rule. -/
theorem parse_eq_error_iff :
    parse text = .error d ↔ ∃ pieces, Pieces text pieces ∧ FirstBroken pieces d := by
  constructor
  · intro refused
    exact ⟨segments text, pieces_iff.2 rfl, firstBroken_of_parse refused⟩
  · rintro ⟨pieces, split, broken⟩
    have same : pieces = segments text := pieces_iff.1 split
    subst same
    cases parsed : parse text with
    | ok r =>
        obtain ⟨split', follow, last⟩ := follows_of_parse parsed
        have same : r.modules ++ [r.name] = segments text := pieces_iff.1 split'
        rw [← same] at broken
        exact absurd (follows_ruleAt follow last _ _ broken.piece)
          (not_follows_of_breaks broken.breaks)
    | error d' => rw [(firstBroken_of_parse parsed).unique broken]

/-- Reading a reference accepts exactly what is written like one, and gives what is written as the
text was: so no two texts are read alike, and what is read has the pieces of the text for its
names.  Any other text is refused for the first of its pieces that breaks its rule, and for the
first way in which this one does. -/
theorem parse_inverts_text (s : String) :
    ((∃ r, parse s = .ok r) ↔ Written s) ∧
    (∀ r, parse s = .ok r ↔
      r.text = s ∧ (∀ m ∈ r.modules, Follows .module m) ∧ Follows .type r.name) ∧
    (∀ t r, parse s = .ok r → parse t = .ok r → s = t) ∧
    (∀ r, parse s = .ok r → Pieces s (r.modules ++ [r.name])) ∧
    ∀ d, parse s = .error d ↔ ∃ pieces, Pieces s pieces ∧ FirstBroken pieces d := by
  refine ⟨?_, fun r => parse_eq_ok_iff, ?_, fun r parsed => (follows_of_parse parsed).1,
    fun d => parse_eq_error_iff⟩
  · rw [written_iff]
    exact exists_congr fun r => parse_eq_ok_iff
  · intro t r parsed parsed'
    rw [← text_of_parse parsed, text_of_parse parsed']

/-- A reference through two modules, and a text whose second piece goes wrong at its second
character. -/
theorem parse_line_item :
    (parse "billing.line.Item" = .ok ⟨["billing", "line"], "Item"⟩ ∧
      Written "billing.line.Item" ∧
      (⟨["billing", "line"], "Item"⟩ : TypeRef).text = "billing.line.Item" ∧
      Pieces "billing.line.Item" ["billing", "line", "Item"] ∧
      ∀ t, parse t = .ok ⟨["billing", "line"], "Item"⟩ → "billing.line.Item" = t) ∧
    parse "billing.líne.Item" = .error ⟨1, "líne", .illegalCharacter 'í' 1⟩ ∧
      ∃ pieces, Pieces "billing.líne.Item" pieces ∧
        FirstBroken pieces ⟨1, "líne", .illegalCharacter 'í' 1⟩ := by
  have accepted : parse "billing.line.Item" = .ok ⟨["billing", "line"], "Item"⟩ := by rfl
  have refused : parse "billing.líne.Item" = .error ⟨1, "líne", .illegalCharacter 'í' 1⟩ := by rfl
  obtain ⟨written, text, alone, pieces, _⟩ := parse_inverts_text "billing.line.Item"
  obtain ⟨_, _, _, _, broken⟩ := parse_inverts_text "billing.líne.Item"
  exact ⟨⟨accepted, written.1 ⟨_, accepted⟩, ((text _).1 accepted).1, pieces _ accepted,
    fun t parsed => alone t _ accepted parsed⟩, refused, (broken _).1 refused⟩

end EventSourcing.TypeRef
