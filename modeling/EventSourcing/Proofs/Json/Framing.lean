import EventSourcing.Proofs.Json.Grammar

/-!
# Proofs.Json.Framing -- values within longer texts

What is read at the beginning of an input is read there too when more comes behind the input: of a
number this is so if something is left behind it, and of what ends with a bracket or a brace in any
case (`Reads.append`).  So a text that is an object (`Written`) is read in the same way as the one
item of an array (`read?_brackets`).
-/

namespace EventSourcing.Json

set_option autoImplicit false

open EventSourcing.Text (Glyph)

variable {input rest after : List Glyph} {more : List Glyph}

theorem skipBlanks_append {g : Glyph} (begins : skipBlanks input = g :: rest) :
    skipBlanks (input ++ more) = g :: (rest ++ more) := by
  fun_induction skipBlanks input with
  | case5 input space newline tab feed =>
      subst begins
      rw [List.cons_append]
      unfold skipBlanks
      split <;> simp_all
  | _ rest ih => exact ih begins

theorem skipBlanks_append_of_nil (blank : skipBlanks input = []) :
    skipBlanks (input ++ more) = skipBlanks more := by
  fun_induction skipBlanks input with
  | case5 input => rw [blank, List.nil_append]
  | _ rest ih => exact ih blank

theorem stringFrom_append {state : StringState} {cs : List Char}
    (read : stringFrom state input = some (cs, rest)) :
    stringFrom state (input ++ more) = some (cs, rest ++ more) := by
  fun_induction stringFrom state input generalizing cs with
  | case1 | case2 | case5 | case11 | case13 => cases read
  | case3 =>
      cases read
      rfl
  | case4 _ _ ih | case7 _ ih | case10 _ _ ih | case12 _ _ ih => exact ih read
  | case6 c others quote backslash visible ih =>
      obtain ⟨⟨cs', after⟩, read, same⟩ := Option.map_eq_some_iff.1 read
      cases same
      rw [List.cons_append, stringFrom_plain quote backslash visible, ih read]
      rfl
  | case8 c others unicode ih =>
      simp only [Option.bind_eq_bind, Option.bind_eq_some_iff] at read
      obtain ⟨e, short, ⟨cs', after⟩, read, same⟩ := read
      cases same
      simp only [List.cons_append, stringFrom, if_neg unicode, short, ih read, Option.bind_eq_bind,
        Option.bind_some]
      rfl
  | case9 left value high c others plain pair digits =>
      simp only [Option.bind_eq_bind, Option.bind_eq_some_iff] at read
      obtain ⟨digit, hexadecimal, read⟩ := read
      simp only [List.cons_append, stringFrom, hexadecimal, Option.bind_eq_bind, Option.bind_some]
      split at read
      · rename_i last
        obtain ⟨unit, complete, read⟩ := Option.bind_eq_some_iff.1 read
        rw [if_pos last, complete, Option.bind_some]
        cases unit with
        | inl e =>
            dsimp only at read ⊢
            obtain ⟨⟨cs', after⟩, before, same⟩ := Option.bind_eq_some_iff.1 read
            cases same
            rw [plain before]
            rfl
        | inr half => exact pair half read
      · rename_i last
        rw [if_neg last]
        exact digits digit read

theorem string_append {s : String} (read : string input = some (s, rest)) :
    string (input ++ more) = some (s, rest ++ more) := by
  unfold string at read
  split at read
  · obtain ⟨⟨cs, after⟩, read, same⟩ := Option.map_eq_some_iff.1 read
    cases same
    rw [List.cons_append, string, stringFrom_append read]
    rfl
  · cases read

theorem afterWord_append_more {word : List Char} (spelled : afterWord word input = some rest) :
    afterWord word (input ++ more) = some (rest ++ more) := by
  induction word generalizing input with
  | nil =>
      cases spelled
      rfl
  | cons c word ih =>
      cases input with
      | nil => cases spelled
      | cons g others =>
          have next (others : List Glyph) : afterWord (c :: word) (g :: others) =
              if Glyph.char c == g then afterWord word others else none := rfl
          rw [next] at spelled
          rw [List.cons_append, next]
          split at spelled
          · rename_i same
            rw [if_pos same]
            exact ih spelled
          · cases spelled

/-! ## Numbers -/

theorem takeDigits_append_more {ds : List Nat} (taken : takeDigits input = (ds, rest))
    (ends : rest ≠ []) : takeDigits (input ++ more) = (ds, rest ++ more) := by
  induction input generalizing ds with
  | nil =>
      cases taken
      exact absurd rfl ends
  | cons g others ih =>
      cases g with
      | stray byte =>
          cases taken
          rfl
      | char c =>
          unfold takeDigits at taken
          rw [List.cons_append, takeDigits]
          split at taken
          · rename_i digit
            cases taken
            rw [if_pos digit, @ih (takeDigits others).1 rfl]
          · rename_i other
            cases taken
            rw [if_neg other]
            rfl

theorem exponentSign_append (filled : (exponentSign input).2 ≠ []) :
    exponentSign (input ++ more) = ((exponentSign input).1, (exponentSign input).2 ++ more) := by
  match input with
  | [] => exact absurd rfl filled
  | .stray _ :: _ => rfl
  | .char c :: behind =>
      by_cases plus : c = '+'
      · subst plus
        rfl
      · by_cases minus : c = '-'
        · subst minus
          rfl
        · have neither (behind : List Glyph) :
              exponentSign (.char c :: behind) = (false, .char c :: behind) := by
            unfold exponentSign
            split <;> simp_all
          rw [List.cons_append, neither, neither]
          rfl

theorem unsignedExponent_append {negative : Bool} {e : Int}
    (read : unsignedExponent negative input = some (e, rest)) (ends : rest ≠ []) :
    unsignedExponent negative (input ++ more) = some (e, rest ++ more) := by
  unfold unsignedExponent at read ⊢
  split at read
  · cases read
  · rename_i ds after filled taken
    cases read
    rw [takeDigits_append_more taken ends]
    cases ds with
    | nil => exact (filled rfl).elim
    | cons d ds => rfl

theorem exponent_append {e : Int} (read : exponent? input = some (e, rest)) (ends : rest ≠ []) :
    exponent? (input ++ more) = some (e, rest ++ more) := by
  match input with
  | [] =>
      cases read
      exact absurd rfl ends
  | .stray _ :: _ =>
      cases read
      rfl
  | .char c :: behind =>
      by_cases mark : c = 'e' ∨ c = 'E'
      · rw [exponent_of_mark mark] at read
        have filled : (exponentSign behind).2 ≠ [] :=
          List.ne_nil_of_length_pos (Nat.zero_lt_of_lt (length_unsignedExponent read))
        rw [List.cons_append, exponent_of_mark mark, exponentSign_append filled]
        exact unsignedExponent_append read ends
      · rw [exponent_of_no_mark mark] at read
        cases read
        exact exponent_of_no_mark mark _

variable {negative : Bool} {significand dropped : Nat} {v : Json}

theorem wholeNumber_append
    (read : wholeNumber negative significand dropped input = some (v, rest)) :
    wholeNumber negative significand dropped (input ++ more) = some (v, rest ++ more) := by
  unfold wholeNumber at read ⊢
  split at read
  · rename_i positive
    cases read
    rw [if_pos positive]
  · rename_i positive
    split at read
    · rename_i fits
      cases read
      rw [if_neg positive, if_pos fits]
    · rename_i fits
      obtain ⟨f, scaled, same⟩ := Option.map_eq_some_iff.1 read
      cases same
      rw [if_neg positive, if_neg fits, scaled]
      rfl

/-- Before anything but a point an exponent may follow a whole number. -/
theorem afterWhole_of_no_point {c : Char} (point : c ≠ '.') (behind : List Glyph) :
    afterWhole negative significand dropped (.char c :: behind) =
      if c = 'e' ∨ c = 'E' then
        (exponent? (.char c :: behind)).bind fun read =>
          (scaled? negative significand (dropped + read.1)).bind fun f => some (.float f, read.2)
      else wholeNumber negative significand dropped (.char c :: behind) := by
  unfold afterWhole
  split
  · rename_i same
    cases same
    exact (point rfl).elim
  · rename_i same
    cases same
    rfl
  · rename_i char
    exact absurd rfl (char _ _)

theorem afterWhole_append (fits : significand < Word.size 64)
    (read : afterWhole negative significand dropped input = some (v, rest)) (ends : rest ≠ []) :
    afterWhole negative significand dropped (input ++ more) = some (v, rest ++ more) := by
  unfold afterWhole at read
  split at read
  · rename_i afterPoint
    split at read
    · cases read
    · rename_i ds behind shown taken
      simp only [Option.bind_eq_bind, Option.bind_eq_some_iff] at read
      obtain ⟨⟨e, after⟩, exponent, f, scaled, same⟩ := read
      cases same
      have filled : behind ≠ [] := by
        rintro rfl
        cases exponent
        exact ends rfl
      rw [List.cons_append, afterWhole, takeDigits_append_more taken filled]
      cases ds with
      | nil => exact (shown rfl).elim
      | cons d ds =>
          simp only [exponent_append exponent ends, scaled, Option.bind_eq_bind, Option.bind_some]
          rfl
  · rename_i c behind point
    rw [List.cons_append, afterWhole_of_no_point fun same => point (same ▸ rfl)]
    split at read
    · rename_i mark
      simp only [Option.bind_eq_bind, Option.bind_eq_some_iff] at read
      obtain ⟨⟨e, after⟩, exponent, f, scaled, same⟩ := read
      cases same
      have longer : exponent? (_ ++ more) = _ := exponent_append exponent ends
      rw [List.cons_append] at longer
      simp only [if_pos mark, longer, scaled, Option.bind_some]
    · rename_i mark
      rw [if_neg mark]
      exact wholeNumber_append read
  · rename_i point char
    rcases input with _ | ⟨c | _, behind⟩
    · exact absurd (wholeNumber_eq_some fits read).1 ends
    · exact absurd rfl (char c behind)
    · exact wholeNumber_append read

theorem unsignedNumber_append (read : unsignedNumber negative input = some (v, rest))
    (ends : rest ≠ []) : unsignedNumber negative (input ++ more) = some (v, rest ++ more) := by
  unfold unsignedNumber at read
  split at read
  · cases read
  · cases read
  · rename_i ds behind shown zero taken
    dsimp only at read
    have fits : (accumulate 0 ds).1 < Word.size 64 := accumulate_lt (Word.size_pos 64) ds
    have shorter := (skipAfterWhole_of_afterWhole fits read).2.1
    have filled : behind ≠ [] :=
      List.ne_nil_of_length_pos (Nat.lt_of_lt_of_le (List.length_pos_iff.2 ends) shorter)
    rw [unsignedNumber, takeDigits_append_more taken filled]
    split
    · rename_i same
      cases same
      exact (shown rfl).elim
    · rename_i same
      cases same
      exact (zero _ _ rfl).elim
    · rename_i same
      cases same
      exact afterWhole_append fits read ends

/-- A number is read in the same way if something else than the end of the input was behind it. -/
theorem number_append (read : number input = some (v, rest)) (ends : rest ≠ []) :
    number (input ++ more) = some (v, rest ++ more) := by
  obtain ⟨c, behind, rfl, _⟩ := head_of_number read
  unfold number at read
  split at read
  · rename_i same
    cases same
    exact unsignedNumber_append read ends
  · rename_i unsigned
    have longer : unsignedNumber false (_ ++ more) = _ := unsignedNumber_append read ends
    rw [List.cons_append] at longer ⊢
    unfold number
    split
    · rename_i same
      cases same
      exact absurd rfl (unsigned _)
    · exact longer

/-! ## Values -/

variable {depth depth' : Nat} {part : Part} {k : String}

theorem ne_nil_of_skipBlanks {g : Glyph} (begins : skipBlanks input = g :: rest) : input ≠ [] := by
  rintro rfl
  cases begins

/-- A part begins with some glyph. -/
theorem Reads.begins (reads : Reads depth input part rest) :
    ∃ g behind, skipBlanks input = g :: behind := by
  induction reads with
  | str text =>
      obtain ⟨inside, begins⟩ := begins_of_string text
      exact ⟨_, _, begins⟩
  | literal _ begins _ => exact ⟨_, _, begins⟩
  | number digits =>
      obtain ⟨c, behind, begins, _⟩ := head_of_number digits
      exact ⟨_, _, begins⟩
  | noItems _ begins _ => exact ⟨_, _, begins⟩
  | array _ begins _ _ _ => exact ⟨_, _, begins⟩
  | object _ ih => exact ih
  | noMembers _ begins _ => exact ⟨_, _, begins⟩
  | members _ begins _ _ _ => exact ⟨_, _, begins⟩
  | lastItem _ _ ih => exact ih
  | item _ _ _ ih _ => exact ih
  | lastField key _ _ _ _ =>
      obtain ⟨inside, begins⟩ := begins_of_string key
      exact ⟨_, _, begins⟩
  | field key _ _ _ _ _ _ =>
      obtain ⟨inside, begins⟩ := begins_of_string key
      exact ⟨_, _, begins⟩

/-- A part that does not begin with some glyph does not if more comes behind the input. -/
theorem Reads.not_begins_append (reads : Reads depth input part rest) {g : Glyph}
    (filled : ∀ after, skipBlanks input ≠ g :: after) :
    ∀ after, skipBlanks (input ++ more) ≠ g :: after := by
  obtain ⟨g', behind, begins⟩ := reads.begins
  intro after same
  rw [skipBlanks_append begins] at same
  cases same
  exact filled _ begins

theorem key_append (key : string (skipBlanks input) = some (k, rest)) :
    string (skipBlanks (input ++ more)) = some (k, rest ++ more) := by
  obtain ⟨inside, begins⟩ := begins_of_string key
  rw [skipBlanks_append begins, ← List.cons_append, ← begins]
  exact string_append key

/-- What is read at the beginning of an input is read there if more comes behind the input; behind
a value there has to be something. -/
theorem Reads.append (reads : Reads depth input part rest)
    (followed : ∀ v, part = .value v → rest ≠ []) :
    Reads depth (input ++ more) part (rest ++ more) := by
  induction reads with
  | str text => exact .str (key_append text)
  | literal known begins spelled =>
      exact .literal known (skipBlanks_append begins) (afterWord_append_more spelled)
  | number digits =>
      obtain ⟨c, behind, begins, _⟩ := head_of_number digits
      refine .number ?_
      rw [skipBlanks_append begins, ← List.cons_append, ← begins]
      exact number_append digits (followed _ rfl)
  | noItems deep begins ends =>
      exact .noItems deep (skipBlanks_append begins) (skipBlanks_append ends)
  | array deep begins filled items ih =>
      exact .array deep (skipBlanks_append begins) (items.not_begins_append filled)
        (ih fun _ other => by cases other)
  | object members ih => exact .object (ih fun _ other => by cases other)
  | noMembers deep begins ends =>
      exact .noMembers deep (skipBlanks_append begins) (skipBlanks_append ends)
  | members deep begins filled fields ih =>
      exact .members deep (skipBlanks_append begins) (fields.not_begins_append filled)
        (ih fun _ other => by cases other)
  | lastItem item ends ih =>
      exact .lastItem (ih fun _ _ => ne_nil_of_skipBlanks ends) (skipBlanks_append ends)
  | item item goes others ih later =>
      exact .item (ih fun _ _ => ne_nil_of_skipBlanks goes) (skipBlanks_append goes)
        (later fun _ other => by cases other)
  | lastField key marks field ends ih =>
      exact .lastField (key_append key) (skipBlanks_append marks)
        (ih fun _ _ => ne_nil_of_skipBlanks ends) (skipBlanks_append ends)
  | field key marks field goes others ih later =>
      exact .field (key_append key) (skipBlanks_append marks)
        (ih fun _ _ => ne_nil_of_skipBlanks goes) (skipBlanks_append goes)
        (later fun _ other => by cases other)

/-! ## Whole texts -/

variable {fs ordered : List (String × Json)}

/-- The input is an object that nests less than `depth` levels, with these fields as they are
written. -/
def Written (depth : Nat) (input : List Glyph) (fs : List (String × Json)) : Prop :=
  ∃ rest, Reads depth input (.members fs) rest ∧ skipBlanks rest = []

theorem read?_of_reads (reads : Reads depth input (.value v) rest) (deeper : depth ≤ depth')
    (blank : skipBlanks rest = []) : read? depth' input = some v := by
  have found : value (fuelFor input) depth' input = some (v, rest) :=
    reads.found deeper (by rw [fuelFor]; omega)
  rw [read?, found]
  show (if (skipBlanks rest).isEmpty then some v else none) = some v
  rw [blank]
  rfl

/-- A text that is an object is read as the one that its fields merge to. -/
theorem Written.read? (written : Written depth input fs) (deeper : depth ≤ depth') :
    read? depth' input = some (.obj (merged fs)) := by
  obtain ⟨rest, members, blank⟩ := written
  exact read?_of_reads (.object members) deeper blank

theorem members_of_obj {part : Part} (reads : Reads depth input part rest)
    (object : part = .value (.obj ordered)) :
    ∃ fs, Reads depth input (.members fs) rest ∧ merged fs = ordered := by
  cases reads with
  | object members =>
      rw [object_eq] at object
      cases object
      exact ⟨_, members, rfl⟩
  | literal known _ _ => cases known <;> cases object
  | number digits =>
      rcases (skipNumber_of_number digits).2.2 with ⟨n, _, rfl⟩ | ⟨d, rfl⟩ <;> cases object
  | _ => cases object

/-- A text that is read as an object has fields as they are written, which merge to its own. -/
theorem written_of_read? (read : read? depth input = some (.obj ordered)) :
    ∃ fs, Written depth input fs ∧ merged fs = ordered := by
  unfold read? at read
  simp only [Option.bind_eq_bind, Option.bind_eq_some_iff] at read
  obtain ⟨⟨v, rest⟩, found, read⟩ := read
  dsimp only at read
  split at read
  · rename_i blank
    cases read
    obtain ⟨fs, members, same⟩ := members_of_obj (reads_of_value found) rfl
    exact ⟨fs, ⟨rest, members, List.isEmpty_iff.1 blank⟩, same⟩
  · cases read

/-- The text of fields with plain values is that of an object with these fields, in any order. -/
theorem written_text (plain : ∀ f ∈ fs, Plain f.2) (shallow : (Json.obj fs).nesting < depth) :
    Written depth (Glyph.ofString (Json.obj fs).text) fs := by
  have text : Glyph.ofString (Json.obj fs).text =
      .char '\x7b' :: (glyphs (fieldChars fs) ++ [.char '\x7d']) := by
    have chars : (Json.obj fs).chars = '\x7b' :: fieldChars fs ++ ['\x7d'] := rfl
    rw [ofString_text, chars, List.cons_append, glyphs_cons, glyphs_append]
    rfl
  rw [nesting] at shallow
  have deep : 1 < depth := by omega
  refine ⟨[], ?_, rfl⟩
  rw [text]
  by_cases empty : fs = []
  · subst empty
    exact .noMembers deep rfl rfl
  · have inside : ∀ f ∈ fs, f.2.nesting < depth - 1 :=
      (deepestField_lt_iff (by omega)).1 (by omega)
    have each : ∀ f ∈ fs, rereadField (depth - 1) f =
        if f.2.nesting < depth - 1 then some f else Option.none := by
      intro f member
      rw [rereadField, reread_plain (plain f member) (by omega)]
      split <;> rfl
    have read : fields _ (depth - 1) (glyphs (fieldChars fs) ++ [.char '\x7d']) = _ :=
      fields_chars empty (fun f _ => steady f.2) (Nat.le_refl _) []
    rw [mapM_of_guard each, if_pos inside, List.map_id'] at read
    obtain ⟨cs, head⟩ := head_fieldChars empty [.char '\x7d']
    refine .members deep rfl ?_ ((readWith _).fields read)
    rw [head]
    intro after ends
    cases ends

/-- Between brackets, an object is the one item of an array. -/
theorem read?_brackets (written : Written depth input fs) (positive : 0 < depth) :
    read? (depth + 1) (.char '[' :: (input ++ [.char ']'])) = some (.arr [.obj (merged fs)]) := by
  obtain ⟨rest, members, blank⟩ := written
  have longer : Reads depth (input ++ [.char ']']) (.members fs) (rest ++ [.char ']']) :=
    members.append fun _ other => by cases other
  have items : Reads depth (input ++ [.char ']']) (.items [.obj (merged fs)]) [] :=
    .lastItem (.object longer) (skipBlanks_append_of_nil blank)
  have filled : ∀ after, skipBlanks (input ++ [.char ']']) ≠ .char ']' :: after := by
    intro after ends
    cases longer with
    | noMembers _ begins _ => exact absurd (begins.symm.trans ends) (by simp)
    | members _ begins _ _ => exact absurd (begins.symm.trans ends) (by simp)
  have array : Reads (depth + 1) (.char '[' :: (input ++ [.char ']']))
      (.value (.arr [.obj (merged fs)])) [] := .array (by omega) rfl filled items
  exact read?_of_reads array (Nat.le_refl _) rfl

end EventSourcing.Json
