import EventSourcing.Proofs.Name.Alphabet

/-!
# Proofs.Name.Pointing -- where a check points

A check that fails behind the first character tells which character it has met and how many bytes
stand before it.  Here this number is the offset of a position of the text (`String.Pos`): the
character stands there, and what is cut off before it is a name (`Name.FirstStray`).  No alphabet
goes beyond the letter z, so a name has one byte for each character
(`Name.Follows.utf8ByteSize_eq_length`), and whoever counts characters instead of bytes comes to
the same place.  Main statement: exactly the names pass a check, and a check that fails tells that
there is nothing, that the first character is wrong, or where the first stray one stands
(`Name.check_points_at_first_stray`).
-/

namespace EventSourcing.Name

set_option autoImplicit false

/-- A character behind the first one is the first that its rule refuses: it stands at a position
of the text, a name ends there, and the name may not go on with it. -/
structure FirstStray (rule : Rule) (s : String) (c : Char) (p : s.Pos) : Prop where
  here : ∃ inside : p ≠ s.endPos, p.get inside = c
  name : Follows rule (s.sliceTo p).copy
  stray : ¬ rule.Continues c

variable {rule : Rule} {c : Char} {name s : String} {cs : List Char} {index : Nat}

/-! ## One byte for each character -/

theorem Rule.Begins.continues (begins : rule.Begins c) : rule.Continues c := by
  cases rule with
  | type => exact .inl begins
  | property => exact .inr (.inl begins)
  | module => exact .inl begins

/-- No alphabet goes beyond the letter z. -/
theorem Rule.Continues.le_z (continues : rule.Continues c) : c ≤ 'z' := by
  -- The alphabet of modules lies inside that of the other names.
  have word : Upper c ∨ Lower c ∨ Digit c ∨ c = '_' := by
    cases rule with
    | type => exact continues
    | property => exact continues
    | module => exact .inr continues
  rcases word with upper | lower | digit | rfl
  · exact Char.le_trans upper.2 (by decide)
  · exact lower.2
  · exact Char.le_trans digit.2 (by decide)
  · decide

theorem Rule.Continues.utf8Size_eq_one (continues : rule.Continues c) : c.utf8Size = 1 := by
  have bound : c.val ≤ 122 := continues.le_z
  rw [Char.utf8Size_eq_one_iff]
  exact UInt32.le_trans bound (by decide)

theorem utf8ByteSize_eq_length_of_continues (fine : ∀ d ∈ cs, rule.Continues d) :
    (String.ofList cs).utf8ByteSize = cs.length := by
  induction cs with
  | nil => rfl
  | cons c rest ih =>
      obtain ⟨continues, fine⟩ := List.forall_mem_cons.1 fine
      have split : (String.ofList (c :: rest)).utf8ByteSize =
          c.utf8Size + (String.ofList rest).utf8ByteSize := by simp
      rw [split, continues.utf8Size_eq_one, ih fine, List.length_cons, Nat.add_comm]

/-- A name has a byte for each of its characters. -/
theorem Follows.utf8ByteSize_eq_length (follows : Follows rule name) :
    name.utf8ByteSize = name.length := by
  obtain ⟨c, rest, shape, begins, fine⟩ := follows
  have all : ∀ d ∈ name.toList, rule.Continues d := by
    rw [shape]
    exact List.forall_mem_cons.2 ⟨begins.continues, fine⟩
  calc name.utf8ByteSize = (String.ofList name.toList).utf8ByteSize := by rw [String.ofList_toList]
    _ = name.toList.length := utf8ByteSize_eq_length_of_continues all
    _ = name.length := String.length_toList

/-! ## The ways to break a rule -/

theorem breaks_empty_iff : Breaks rule s .empty ↔ s = "" := by
  constructor
  · intro breaks
    cases breaks
    rfl
  · rintro rfl
    exact .empty rule

theorem breaks_upper_iff : Breaks rule s .mustBeginWithUpperLatin ↔
    rule = .type ∧ ∃ c, s.toList.head? = some c ∧ ¬ Upper c := by
  constructor
  · intro breaks
    cases breaks with
    | @notUpper _ c rest shape wrong => exact ⟨rfl, c, by rw [shape]; rfl, wrong⟩
  · rintro ⟨rfl, c, first, wrong⟩
    obtain ⟨rest, shape⟩ := List.head?_eq_some_iff.1 first
    exact .notUpper shape wrong

theorem breaks_lower_iff : Breaks rule s .mustBeginWithLowerLatin ↔
    rule ≠ .type ∧ ∃ c, s.toList.head? = some c ∧ ¬ Lower c := by
  constructor
  · intro breaks
    cases breaks with
    | @notLower _ _ c rest other shape wrong => exact ⟨other, c, by rw [shape]; rfl, wrong⟩
  · rintro ⟨other, c, first, wrong⟩
    obtain ⟨rest, shape⟩ := List.head?_eq_some_iff.1 first
    exact .notLower other shape wrong

theorem FirstStray.breaks {p : s.Pos} (first : FirstStray rule s c p) :
    Breaks rule s (.illegalCharacter c p.offset.byteIdx) := by
  obtain ⟨⟨inside, rfl⟩, name, stray⟩ := first
  -- The position cuts the text in two, and its character begins the second part.
  have cut := p.splits_next_right inside
  have offset : p.offset.byteIdx = (s.sliceTo p).copy.utf8ByteSize := by simp
  have shape : s.toList = (s.sliceTo p).copy.toList ++
      p.get inside :: (s.sliceFrom (p.next inside)).copy.toList := by
    have parts := congrArg String.toList cut.eq_append
    simpa using parts
  rw [offset]
  exact .illegal name shape stray

theorem exists_firstStray (breaks : Breaks rule s (.illegalCharacter c index)) :
    ∃ p : s.Pos, p.offset.byteIdx = index ∧ FirstStray rule s c p := by
  cases breaks with
  | @illegal _ _ start _ rest follows shape wrong =>
      have parts : s = start ++ (String.singleton c ++ String.ofList rest) := by
        rw [← String.toList_inj, shape]
        simp
      have cut := String.Pos.splits_ofEqAppend parts
      have inside := cut.ne_endPos_of_singleton
      refine ⟨.ofEqAppend parts, congrArg String.Pos.Raw.byteIdx cut.offset_eq_rawEndPos, ?_⟩
      refine ⟨⟨inside, cut.next.get_eq_of_singleton⟩, ?_, wrong⟩
      rw [cut.copy_sliceTo_eq]
      exact follows

theorem breaks_illegal_iff : Breaks rule s (.illegalCharacter c index) ↔
    ∃ p : s.Pos, p.offset.byteIdx = index ∧ FirstStray rule s c p := by
  constructor
  · exact exists_firstStray
  · rintro ⟨p, rfl, first⟩
    exact first.breaks

/-- What stands before the first stray character has as many characters as bytes. -/
theorem FirstStray.length_eq {p : s.Pos} (first : FirstStray rule s c p) :
    (s.sliceTo p).copy.length = p.offset.byteIdx := by
  have bytes : (s.sliceTo p).copy.utf8ByteSize = p.offset.byteIdx := by simp
  rw [← first.name.utf8ByteSize_eq_length, bytes]

/-- Exactly the names that follow a rule pass its check.  A check that fails tells that there is
nothing, that the first character is outside its alphabet, or else the first character that may
not follow, by its offset in bytes; and what stands before that offset passes the check and has as
many characters as bytes. -/
theorem check_points_at_first_stray (rule : Rule) (s : String) :
    (check rule s = .ok () ↔ Follows rule s) ∧
    (check rule s = .error .empty ↔ s = "") ∧
    (check rule s = .error .mustBeginWithUpperLatin ↔
      rule = .type ∧ ∃ c, s.toList.head? = some c ∧ ¬ Upper c) ∧
    (check rule s = .error .mustBeginWithLowerLatin ↔
      rule ≠ .type ∧ ∃ c, s.toList.head? = some c ∧ ¬ Lower c) ∧
    (∀ c index, check rule s = .error (.illegalCharacter c index) ↔
      ∃ p : s.Pos, p.offset.byteIdx = index ∧ FirstStray rule s c p) ∧
    ∀ c (p : s.Pos), FirstStray rule s c p →
      check rule (s.sliceTo p).copy = .ok () ∧
        (s.sliceTo p).copy.utf8ByteSize = p.offset.byteIdx ∧
        (s.sliceTo p).copy.length = p.offset.byteIdx := by
  refine ⟨check_eq_ok_iff, ?_, ?_, ?_, fun c index => ?_, fun c p first => ?_⟩
  · rw [check_eq_error_iff, breaks_empty_iff]
  · rw [check_eq_error_iff, breaks_upper_iff]
  · rw [check_eq_error_iff, breaks_lower_iff]
  · rw [check_eq_error_iff, breaks_illegal_iff]
  · exact ⟨check_eq_ok_iff.2 first.name, by simp, first.length_eq⟩

/-- A name that ends at a letter of two bytes, before a character that may not stand there either,
and a text whose first letter has an accent. -/
theorem cafe_points_at_accent :
    (check .type "Café-au-lait" = .error (.illegalCharacter 'é' 3) ∧
      ∃ p : "Café-au-lait".Pos, p.offset.byteIdx = 3 ∧ FirstStray .type "Café-au-lait" 'é' p ∧
        check .type ("Café-au-lait".sliceTo p).copy = .ok () ∧
        ("Café-au-lait".sliceTo p).copy.length = 3) ∧
    check .type "Éclair" = .error .mustBeginWithUpperLatin ∧
      ∃ c, "Éclair".toList.head? = some c ∧ ¬ Upper c := by
  have inside : check .type "Café-au-lait" = .error (.illegalCharacter 'é' 3) := by rfl
  have first : check .type "Éclair" = .error .mustBeginWithUpperLatin := by rfl
  obtain ⟨_, _, _, _, points, before⟩ := check_points_at_first_stray .type "Café-au-lait"
  obtain ⟨_, _, upper, _⟩ := check_points_at_first_stray .type "Éclair"
  obtain ⟨p, offset, stray⟩ := (points 'é' 3).1 inside
  obtain ⟨passes, _, length⟩ := before 'é' p stray
  exact ⟨⟨inside, p, offset, stray, passes, by rw [length, offset]⟩, first, (upper.1 first).2⟩

end EventSourcing.Name
