import EventSourcing.Proofs.Json.Merging
import EventSourcing.Proofs.Json.Skipping

/-!
# Proofs.Json.Grammar -- values told by their grammar

What stands at the beginning of an input is told by a grammar that does without fuel (`Reads`).
Main statements: what the reader of values finds is so by the grammar (`reads_of_value`), and what
is so by the grammar is found with as much fuel as there are glyphs to read, and at any greater
depth (`Reads.found`), and is passed over by the reader that skips values (`Reads.skipped`).  A
value without floating point numbers that stands in a text is plain (`Reads.inOrder`).
-/

namespace EventSourcing.Json

set_option autoImplicit false

open EventSourcing.Text (Glyph)

/-! ## The grammar -/

/-- The words that stand for values, each as its first letter and the others. -/
inductive Literal : Char → List Char → Json → Prop where
  | null : Literal 'n' ['u', 'l', 'l'] .null
  | true : Literal 't' ['r', 'u', 'e'] (.bool true)
  | false : Literal 'f' ['a', 'l', 's', 'e'] (.bool false)

/-- A part of a text that is read: a value, the items of an array up to its closing bracket, the
fields of an object up to its closing brace, or a whole object with its fields as they are
written. -/
inductive Part where
  | value (v : Json)
  | items (vs : List Json)
  | fields (fs : List (String × Json))
  | members (fs : List (String × Json))

/-- A part stands at the beginning of an input and nests less than `depth` levels; what is left of
the input is the rest behind it. -/
inductive Reads : Nat → List Glyph → Part → List Glyph → Prop where
  | str {depth : Nat} {input rest : List Glyph} {s : String}
      (text : string (skipBlanks input) = some (s, rest)) :
      Reads depth input (.value (.str s)) rest
  | literal {depth : Nat} {input more rest : List Glyph} {c : Char} {word : List Char} {v : Json}
      (known : Literal c word v) (begins : skipBlanks input = .char c :: more)
      (spelled : afterWord word more = some rest) : Reads depth input (.value v) rest
  | number {depth : Nat} {input rest : List Glyph} {v : Json}
      (digits : number (skipBlanks input) = some (v, rest)) : Reads depth input (.value v) rest
  | noItems {depth : Nat} {input inside rest : List Glyph} (deep : 1 < depth)
      (begins : skipBlanks input = .char '[' :: inside)
      (ends : skipBlanks inside = .char ']' :: rest) : Reads depth input (.value (.arr [])) rest
  | array {depth : Nat} {input inside rest : List Glyph} {vs : List Json} (deep : 1 < depth)
      (begins : skipBlanks input = .char '[' :: inside)
      (filled : ∀ after, skipBlanks inside ≠ .char ']' :: after)
      (items : Reads (depth - 1) inside (.items vs) rest) :
      Reads depth input (.value (.arr vs)) rest
  | object {depth : Nat} {input rest : List Glyph} {fs : List (String × Json)}
      (members : Reads depth input (.members fs) rest) :
      Reads depth input (.value (object fs)) rest
  | noMembers {depth : Nat} {input inside rest : List Glyph} (deep : 1 < depth)
      (begins : skipBlanks input = .char '\x7b' :: inside)
      (ends : skipBlanks inside = .char '\x7d' :: rest) : Reads depth input (.members []) rest
  | members {depth : Nat} {input inside rest : List Glyph} {fs : List (String × Json)}
      (deep : 1 < depth) (begins : skipBlanks input = .char '\x7b' :: inside)
      (filled : ∀ after, skipBlanks inside ≠ .char '\x7d' :: after)
      (fields : Reads (depth - 1) inside (.fields fs) rest) : Reads depth input (.members fs) rest
  | lastItem {depth : Nat} {input after rest : List Glyph} {v : Json}
      (item : Reads depth input (.value v) after) (ends : skipBlanks after = .char ']' :: rest) :
      Reads depth input (.items [v]) rest
  | item {depth : Nat} {input after next rest : List Glyph} {v : Json} {vs : List Json}
      (item : Reads depth input (.value v) after) (goes : skipBlanks after = .char ',' :: next)
      (others : Reads depth next (.items vs) rest) : Reads depth input (.items (v :: vs)) rest
  | lastField {depth : Nat} {input colon inside after rest : List Glyph} {k : String} {v : Json}
      (key : string (skipBlanks input) = some (k, colon))
      (marks : skipBlanks colon = .char ':' :: inside)
      (field : Reads depth inside (.value v) after)
      (ends : skipBlanks after = .char '\x7d' :: rest) : Reads depth input (.fields [(k, v)]) rest
  | field {depth : Nat} {input colon inside after next rest : List Glyph} {k : String} {v : Json}
      {fs : List (String × Json)} (key : string (skipBlanks input) = some (k, colon))
      (marks : skipBlanks colon = .char ':' :: inside)
      (field : Reads depth inside (.value v) after)
      (goes : skipBlanks after = .char ',' :: next)
      (others : Reads depth next (.fields fs) rest) :
      Reads depth input (.fields ((k, v) :: fs)) rest

variable {fuel depth depth' : Nat} {input more inside after rest : List Glyph} {v : Json}
  {vs : List Json} {fs : List (String × Json)} {part : Part} {k : String}

/-! ## Readers behind blanks -/

theorem value_skipBlanks : value fuel depth (skipBlanks input) = value fuel depth input := by
  cases fuel with
  | zero => rfl
  | succ fuel => rw [value, value, skipBlanks_skipBlanks]

theorem items_skipBlanks : items fuel depth (skipBlanks input) = items fuel depth input := by
  cases fuel with
  | zero => rfl
  | succ fuel => rw [items, items, value_skipBlanks]

theorem fields_skipBlanks : fields fuel depth (skipBlanks input) = fields fuel depth input := by
  cases fuel with
  | zero => rfl
  | succ fuel => rw [fields, fields, skipBlanks_skipBlanks]

theorem skip_skipBlanks : skip fuel (skipBlanks input) = skip fuel input := by
  cases fuel with
  | zero => rfl
  | succ fuel => rw [skip, skip, skipBlanks_skipBlanks]

theorem skipItems_skipBlanks : skipItems fuel (skipBlanks input) = skipItems fuel input := by
  cases fuel with
  | zero => rfl
  | succ fuel => rw [skipItems, skipItems, skip_skipBlanks]

theorem skipFields_skipBlanks : skipFields fuel (skipBlanks input) = skipFields fuel input := by
  cases fuel with
  | zero => rfl
  | succ fuel => rw [skipFields, skipFields, skipBlanks_skipBlanks]

/-! ## What the reader finds -/

/-- What the reader finds with some fuel stands there by the grammar. -/
structure ReadWith (fuel : Nat) : Prop where
  value : ∀ {depth input v rest}, Json.value fuel depth input = some (v, rest) →
    Reads depth input (.value v) rest
  items : ∀ {depth input vs rest}, Json.items fuel depth input = some (vs, rest) →
    Reads depth input (.items vs) rest
  fields : ∀ {depth input fs rest}, Json.fields fuel depth input = some (fs, rest) →
    Reads depth input (.fields fs) rest

theorem reads_literal {c : Char} {word : List Char} {w : Json} (known : Literal c word w)
    (begins : skipBlanks input = .char c :: more)
    (read : (afterWord word more).map (w, ·) = some (v, rest)) :
    Reads depth input (.value v) rest := by
  obtain ⟨after, spelled, same⟩ := Option.map_eq_some_iff.1 read
  cases same
  exact .literal known begins spelled

namespace ReadWith

theorem value_succ (by_less : ReadWith fuel)
    (read : Json.value (fuel + 1) depth input = some (v, rest)) :
    Reads depth input (.value v) rest := by
  unfold Json.value at read
  split at read
  · rename_i more begins
    obtain ⟨⟨s, after⟩, text, same⟩ := Option.map_eq_some_iff.1 read
    cases same
    exact .str (begins ▸ text)
  · rename_i inside begins
    split at read
    · cases read
    · rename_i deep
      have deep : 1 < depth := Nat.lt_of_not_le deep
      split at read
      · rename_i ends
        cases read
        exact .noItems deep begins ends
      · rename_i filled
        obtain ⟨⟨vs, after⟩, listed, same⟩ := Option.map_eq_some_iff.1 read
        cases same
        exact .array deep begins filled (by_less.items (items_skipBlanks ▸ listed))
  · rename_i inside begins
    split at read
    · cases read
    · rename_i deep
      have deep : 1 < depth := Nat.lt_of_not_le deep
      split at read
      · rename_i ends
        cases read
        exact .object (.noMembers deep begins ends)
      · rename_i filled
        obtain ⟨⟨fs, after⟩, listed, same⟩ := Option.map_eq_some_iff.1 read
        cases same
        exact .object
          (.members deep begins filled (by_less.fields (fields_skipBlanks ▸ listed)))
  · rename_i more begins
    exact reads_literal .null begins read
  · rename_i more begins
    exact reads_literal .true begins read
  · rename_i more begins
    exact reads_literal .false begins read
  · exact .number read

theorem items_succ (by_less : ReadWith fuel)
    (read : Json.items (fuel + 1) depth input = some (vs, rest)) :
    Reads depth input (.items vs) rest := by
  unfold Json.items at read
  simp only [Option.bind_eq_bind, Option.bind_eq_some_iff] at read
  obtain ⟨⟨v, after⟩, item, read⟩ := read
  dsimp only at read
  split at read
  · rename_i next goes
    obtain ⟨⟨vs, after'⟩, others, same⟩ := Option.bind_eq_some_iff.1 read
    cases same
    exact .item (by_less.value item) goes (by_less.items others)
  · rename_i ends
    cases read
    exact .lastItem (by_less.value item) ends
  · cases read

theorem fields_succ (by_less : ReadWith fuel)
    (read : Json.fields (fuel + 1) depth input = some (fs, rest)) :
    Reads depth input (.fields fs) rest := by
  unfold Json.fields at read
  simp only [Option.bind_eq_bind, Option.bind_eq_some_iff] at read
  obtain ⟨⟨k, colon⟩, key, read⟩ := read
  dsimp only at read
  split at read
  · rename_i inside marks
    obtain ⟨⟨v, after⟩, field, read⟩ := Option.bind_eq_some_iff.1 read
    dsimp only at read
    split at read
    · rename_i next goes
      obtain ⟨⟨fs, after'⟩, others, same⟩ := Option.bind_eq_some_iff.1 read
      cases same
      exact .field key marks (by_less.value field) goes (by_less.fields others)
    · rename_i ends
      cases read
      exact .lastField key marks (by_less.value field) ends
    · cases read
  · cases read

end ReadWith

theorem readWith (fuel : Nat) : ReadWith fuel := by
  induction fuel with
  | zero => constructor <;> intros <;> contradiction
  | succ fuel by_less => exact ⟨by_less.value_succ, by_less.items_succ, by_less.fields_succ⟩

/-- What the reader finds stands there by the grammar. -/
theorem reads_of_value (read : value fuel depth input = some (v, rest)) :
    Reads depth input (.value v) rest :=
  (readWith fuel).value read

/-! ## Lengths -/

theorem length_afterWord_le {word : List Char} (spelled : afterWord word input = some rest) :
    rest.length ≤ input.length := by
  induction word generalizing input with
  | nil =>
      cases spelled
      exact Nat.le_refl _
  | cons c word ih =>
      cases input with
      | nil => cases spelled
      | cons g more =>
          have next : afterWord (c :: word) (g :: more) =
              if Glyph.char c == g then afterWord word more else none := rfl
          rw [next] at spelled
          split at spelled
          · exact Nat.le_succ_of_le (ih spelled)
          · cases spelled

theorem length_of_begins {g : Glyph} (begins : skipBlanks input = g :: more) :
    more.length < input.length := by
  have shorter := length_skipBlanks_le input
  rw [begins, List.length_cons] at shorter
  exact shorter

theorem length_of_string {s : String} (text : string (skipBlanks input) = some (s, rest)) :
    rest.length < input.length := by
  obtain ⟨_, _, _, shorter⟩ := skipStringFrom_of_string text
  exact Nat.lt_of_lt_of_le shorter (length_skipBlanks_le input)

/-- Every part has glyphs of its own. -/
theorem Reads.shorter (reads : Reads depth input part rest) : rest.length < input.length := by
  induction reads with
  | str text => exact length_of_string text
  | literal _ begins spelled =>
      exact Nat.lt_of_le_of_lt (length_afterWord_le spelled) (length_of_begins begins)
  | @number _ input _ _ digits =>
      exact Nat.lt_of_lt_of_le (skipNumber_of_number digits).2.1 (length_skipBlanks_le input)
  | noItems _ begins ends => exact Nat.lt_trans (length_of_begins ends) (length_of_begins begins)
  | array _ begins _ _ ih => exact Nat.lt_trans ih (length_of_begins begins)
  | object _ ih => exact ih
  | noMembers _ begins ends => exact Nat.lt_trans (length_of_begins ends) (length_of_begins begins)
  | members _ begins _ _ ih => exact Nat.lt_trans ih (length_of_begins begins)
  | lastItem _ ends ih => exact Nat.lt_trans (length_of_begins ends) ih
  | item _ goes _ ih later => exact Nat.lt_trans later (Nat.lt_trans (length_of_begins goes) ih)
  | lastField key marks _ ends ih =>
      have inside := Nat.lt_trans (length_of_begins marks) (length_of_string key)
      exact Nat.lt_trans (length_of_begins ends) (Nat.lt_trans ih inside)
  | field key marks _ goes _ ih later =>
      have inside := Nat.lt_trans (length_of_begins marks) (length_of_string key)
      exact Nat.lt_trans later (Nat.lt_trans (length_of_begins goes) (Nat.lt_trans ih inside))

/-! ## Reading it -/

/-- The reader finds a part at the beginning of an input. -/
def Found (fuel depth : Nat) (input : List Glyph) : Part → List Glyph → Prop
  | .value v, rest => value fuel depth input = some (v, rest)
  | .items vs, rest => items fuel depth input = some (vs, rest)
  | .fields fs, rest => fields fuel depth input = some (fs, rest)
  | .members fs, rest => value fuel depth input = some (object fs, rest)

/-- The reader that skips passes over a part at the beginning of an input. -/
def Skipped (fuel : Nat) (input : List Glyph) : Part → List Glyph → Prop
  | .value _, rest => skip fuel input = some rest
  | .items _, rest => skipItems fuel input = some rest
  | .fields _, rest => skipFields fuel input = some rest
  | .members _, rest => skip fuel input = some rest

theorem begins_of_string {s : String} (text : string input = some (s, rest)) :
    ∃ inside, input = .char '"' :: inside := by
  obtain ⟨inside, begins, _⟩ := skipStringFrom_of_string text
  exact ⟨inside, begins⟩

/-- What begins like a number is left to the reader of numbers. -/
theorem value_of_number (digits : number (skipBlanks input) = some (v, rest)) :
    value (fuel + 1) depth input = some (v, rest) := by
  obtain ⟨c, more, begins, head⟩ := head_of_number digits
  have numeral : c = '-' ∨ c = '.' ∨ c = 'e' ∨ c.isDigit = true :=
    head.imp_right fun digit => .inr (.inr digit)
  rw [← value_skipBlanks, begins, value_of_numeral numeral, ← begins, digits]

theorem skip_of_number (digits : number (skipBlanks input) = some (v, rest)) :
    skip (fuel + 1) input = some rest := by
  obtain ⟨c, more, begins, head⟩ := head_of_number digits
  have passed := (skipNumber_of_number digits).1
  rw [begins] at passed
  rw [skip, begins]
  split
  case h_7 => exact passed
  all_goals
    rename_i same
    injection same with glyph
    injection glyph with char
    subst char
    exact absurd head (by decide)

theorem value_of_literal {c : Char} {word : List Char} (known : Literal c word v)
    (begins : skipBlanks input = .char c :: more) (spelled : afterWord word more = some rest) :
    value (fuel + 1) depth input = some (v, rest) := by
  rw [value, begins]
  cases known <;> exact congrArg (Option.map _) spelled

theorem skip_of_literal {c : Char} {word : List Char} (known : Literal c word v)
    (begins : skipBlanks input = .char c :: more) (spelled : afterWord word more = some rest) :
    skip (fuel + 1) input = some rest := by
  rw [skip, begins]
  cases known <;> exact spelled

/-- Behind an opening bracket the items are read. -/
theorem value_of_items (deep : 1 < depth) (begins : skipBlanks input = .char '[' :: inside)
    (filled : ∀ after, skipBlanks inside ≠ .char ']' :: after)
    (listed : items fuel (depth - 1) inside = some (vs, rest)) :
    value (fuel + 1) depth input = some (.arr vs, rest) := by
  rw [← value_skipBlanks, begins, value_bracket, if_neg (Nat.not_le.2 deep)]
  split
  · rename_i ends
    exact absurd ends (filled _)
  · rw [items_skipBlanks, listed]
    rfl

theorem value_of_fields (deep : 1 < depth) (begins : skipBlanks input = .char '\x7b' :: inside)
    (filled : ∀ after, skipBlanks inside ≠ .char '\x7d' :: after)
    (listed : fields fuel (depth - 1) inside = some (fs, rest)) :
    value (fuel + 1) depth input = some (object fs, rest) := by
  rw [← value_skipBlanks, begins, value_brace, if_neg (Nat.not_le.2 deep)]
  split
  · rename_i ends
    exact absurd ends (filled _)
  · rw [fields_skipBlanks, listed]
    rfl

/-- Two steps for each glyph that is read are more than none. -/
theorem succ_of_enough (shorter : rest.length < input.length)
    (enough : 2 * (input.length - rest.length) ≤ fuel) : ∃ fuel', fuel = fuel' + 1 :=
  Nat.exists_eq_add_one_of_ne_zero (by omega)

/-- A part is found with as much fuel as there are glyphs to read, and at any greater depth. -/
theorem Reads.found (reads : Reads depth input part rest) (deeper : depth ≤ depth')
    (enough : 2 * (input.length - rest.length) ≤ fuel) : Found fuel depth' input part rest := by
  have shorter := reads.shorter
  induction reads generalizing fuel depth' with
  | str text =>
      obtain ⟨fuel, rfl⟩ := succ_of_enough shorter enough
      obtain ⟨inside, begins⟩ := begins_of_string text
      rw [begins] at text
      rw [Found, value, begins]
      exact congrArg (Option.map _) text
  | literal known begins spelled =>
      obtain ⟨fuel, rfl⟩ := succ_of_enough shorter enough
      exact value_of_literal known begins spelled
  | number digits =>
      obtain ⟨fuel, rfl⟩ := succ_of_enough shorter enough
      exact value_of_number digits
  | noItems deep begins ends =>
      obtain ⟨fuel, rfl⟩ := succ_of_enough shorter enough
      rw [Found, ← value_skipBlanks, begins, value_bracket, if_neg (by omega), ends]
      rfl
  | array deep begins filled items ih =>
      obtain ⟨fuel, rfl⟩ := succ_of_enough shorter enough
      have skipped := length_of_begins begins
      exact value_of_items (by omega) begins filled (ih (by omega) (by omega) items.shorter)
  | object members ih => exact ih deeper enough shorter
  | noMembers deep begins ends =>
      obtain ⟨fuel, rfl⟩ := succ_of_enough shorter enough
      rw [Found, ← value_skipBlanks, begins, value_brace, if_neg (by omega), ends]
      rfl
  | members deep begins filled fields ih =>
      obtain ⟨fuel, rfl⟩ := succ_of_enough shorter enough
      have skipped := length_of_begins begins
      exact value_of_fields (by omega) begins filled (ih (by omega) (by omega) fields.shorter)
  | lastItem item ends ih =>
      obtain ⟨fuel, rfl⟩ := succ_of_enough shorter enough
      have passed := length_of_begins ends
      have first : value fuel depth' _ = _ := ih deeper (by omega) item.shorter
      rw [Found, items, first]
      simp only [Option.bind_eq_bind, Option.bind_some, ends]
      rfl
  | item item goes others ih later =>
      obtain ⟨fuel, rfl⟩ := succ_of_enough shorter enough
      have passed := length_of_begins goes
      have first_shorter := item.shorter
      have others_shorter := others.shorter
      have first : value fuel depth' _ = _ := ih deeper (by omega) first_shorter
      have rest : Json.items fuel depth' _ = _ := later deeper (by omega) others_shorter
      rw [Found, items, first]
      simp only [Option.bind_eq_bind, Option.bind_some, goes, rest]
      rfl
  | lastField key marks field ends ih =>
      obtain ⟨fuel, rfl⟩ := succ_of_enough shorter enough
      have key_shorter := length_of_string key
      have colon := length_of_begins marks
      have passed := length_of_begins ends
      have first_shorter := field.shorter
      have first : value fuel depth' _ = _ := ih deeper (by omega) first_shorter
      rw [Found, fields, key]
      simp only [Option.bind_eq_bind, Option.bind_some, marks, first, ends]
      rfl
  | field key marks field goes others ih later =>
      obtain ⟨fuel, rfl⟩ := succ_of_enough shorter enough
      have key_shorter := length_of_string key
      have colon := length_of_begins marks
      have passed := length_of_begins goes
      have first_shorter := field.shorter
      have others_shorter := others.shorter
      have first : value fuel depth' _ = _ := ih deeper (by omega) first_shorter
      have rest : fields fuel depth' _ = _ := later deeper (by omega) others_shorter
      rw [Found, fields, key]
      simp only [Option.bind_eq_bind, Option.bind_some, marks, first, goes, rest]
      rfl

theorem skip_of_items (begins : skipBlanks input = .char '[' :: inside)
    (filled : ∀ after, skipBlanks inside ≠ .char ']' :: after)
    (listed : skipItems fuel inside = some rest) : skip (fuel + 1) input = some rest := by
  simp only [skip, begins]
  rw [skipItems_skipBlanks, listed]

theorem skip_of_fields (begins : skipBlanks input = .char '\x7b' :: inside)
    (filled : ∀ after, skipBlanks inside ≠ .char '\x7d' :: after)
    (listed : skipFields fuel inside = some rest) : skip (fuel + 1) input = some rest := by
  simp only [skip, begins]
  rw [skipFields_skipBlanks, listed]

/-- A part is passed over with as much fuel as there are glyphs to pass over. -/
theorem Reads.skipped (reads : Reads depth input part rest)
    (enough : 2 * (input.length - rest.length) ≤ fuel) : Skipped fuel input part rest := by
  have shorter := reads.shorter
  induction reads generalizing fuel with
  | str text =>
      obtain ⟨fuel, rfl⟩ := succ_of_enough shorter enough
      obtain ⟨inside, begins, passed, _⟩ := skipStringFrom_of_string text
      rw [Skipped, skip, begins]
      exact passed
  | literal known begins spelled =>
      obtain ⟨fuel, rfl⟩ := succ_of_enough shorter enough
      exact skip_of_literal known begins spelled
  | number digits =>
      obtain ⟨fuel, rfl⟩ := succ_of_enough shorter enough
      exact skip_of_number digits
  | noItems deep begins ends =>
      obtain ⟨fuel, rfl⟩ := succ_of_enough shorter enough
      rw [Skipped, skip, begins]
      simp only [ends]
  | array deep begins filled items ih =>
      obtain ⟨fuel, rfl⟩ := succ_of_enough shorter enough
      have skipped := length_of_begins begins
      exact skip_of_items begins filled (ih (by omega) items.shorter)
  | object members ih => exact ih enough shorter
  | noMembers deep begins ends =>
      obtain ⟨fuel, rfl⟩ := succ_of_enough shorter enough
      rw [Skipped, skip, begins]
      simp only [ends]
  | members deep begins filled fields ih =>
      obtain ⟨fuel, rfl⟩ := succ_of_enough shorter enough
      have skipped := length_of_begins begins
      exact skip_of_fields begins filled (ih (by omega) fields.shorter)
  | lastItem item ends ih =>
      obtain ⟨fuel, rfl⟩ := succ_of_enough shorter enough
      have passed := length_of_begins ends
      have first : skip fuel _ = _ := ih (by omega) item.shorter
      rw [Skipped, skipItems, first]
      simp only [Option.bind_eq_bind, Option.bind_some, ends]
  | item item goes others ih later =>
      obtain ⟨fuel, rfl⟩ := succ_of_enough shorter enough
      have passed := length_of_begins goes
      have first_shorter := item.shorter
      have others_shorter := others.shorter
      have first : skip fuel _ = _ := ih (by omega) first_shorter
      have rest : skipItems fuel _ = _ := later (by omega) others_shorter
      rw [Skipped, skipItems, first]
      simp only [Option.bind_eq_bind, Option.bind_some, goes, rest]
  | lastField key marks field ends ih =>
      obtain ⟨fuel, rfl⟩ := succ_of_enough shorter enough
      have key_shorter := length_of_string key
      have colon := length_of_begins marks
      have passed := length_of_begins ends
      have first_shorter := field.shorter
      have first : skip fuel _ = _ := ih (by omega) first_shorter
      obtain ⟨inside, begins, text, _⟩ := skipStringFrom_of_string key
      rw [Skipped, skipFields, begins]
      simp only [text, Option.bind_eq_bind, Option.bind_some, marks, first, ends]
  | field key marks field goes others ih later =>
      obtain ⟨fuel, rfl⟩ := succ_of_enough shorter enough
      have key_shorter := length_of_string key
      have colon := length_of_begins marks
      have passed := length_of_begins goes
      have first_shorter := field.shorter
      have others_shorter := others.shorter
      have first : skip fuel _ = _ := ih (by omega) first_shorter
      have rest : skipFields fuel _ = _ := later (by omega) others_shorter
      obtain ⟨inside, begins, text, _⟩ := skipStringFrom_of_string key
      rw [Skipped, skipFields, begins]
      simp only [text, Option.bind_eq_bind, Option.bind_some, marks, first, goes, rest]

/-! ## Values without floating point numbers -/

inductive Floatless : Json → Prop where
  | null : Floatless .null
  | bool (b : Bool) : Floatless (.bool b)
  | int (n : Int) : Floatless (.int n)
  | str (s : String) : Floatless (.str s)
  | arr (vs : List Json) (items : ∀ v ∈ vs, Floatless v) : Floatless (.arr vs)
  | obj (fs : List (String × Json)) (fields : ∀ f ∈ fs, Floatless f.2) : Floatless (.obj fs)

/-- The values of a part that was read at a depth are nested less deep, and are plain if there are
no floating point numbers in them. -/
def InOrder (depth : Nat) : Part → Prop
  | .value v => v.nesting < depth ∧ (Floatless v → Plain v)
  | .items vs => ∀ v ∈ vs, v.nesting < depth ∧ (Floatless v → Plain v)
  | .fields fs => ∀ f ∈ fs, f.2.nesting < depth ∧ (Floatless f.2 → Plain f.2)
  | .members fs => 1 < depth ∧ ∀ f ∈ fs, f.2.nesting < depth - 1 ∧ (Floatless f.2 → Plain f.2)

/-- The value of an object in order is. -/
theorem inOrder_object (ordered : InOrder depth (.members fs)) :
    InOrder depth (.value (object fs)) := by
  obtain ⟨deep, each⟩ := ordered
  refine ⟨?_, fun floatless => ?_⟩
  · have inside : deepestField (merged fs) < depth - 1 :=
      (deepestField_lt_iff (by omega)).2 fun f member => (each f (mem_of_mem_merged member)).1
    rw [object_eq, nesting]
    omega
  · rw [object_eq] at floatless ⊢
    cases floatless with
    | obj _ fields =>
        exact .obj _ (sorted_merged fs) fun f member =>
          (each f (mem_of_mem_merged member)).2 (fields f member)

theorem inOrder_array (deep : 1 < depth) (ordered : InOrder (depth - 1) (.items vs)) :
    InOrder depth (.value (.arr vs)) := by
  refine ⟨?_, fun floatless => ?_⟩
  · have inside : deepest vs < depth - 1 :=
      (deepest_lt_iff (by omega)).2 fun v member => (ordered v member).1
    rw [nesting]
    omega
  · cases floatless with
    | arr _ items => exact .arr vs fun v member => (ordered v member).2 (items v member)

/-- Whatever is read is in order. -/
theorem Reads.inOrder (reads : Reads depth input part rest) (positive : 0 < depth) :
    InOrder depth part := by
  induction reads with
  | str _ => exact ⟨positive, fun _ => .str _⟩
  | literal known _ _ =>
      cases known with
      | null => exact ⟨positive, fun _ => .null⟩
      | true => exact ⟨positive, fun _ => .bool _⟩
      | false => exact ⟨positive, fun _ => .bool _⟩
  | number digits =>
      rcases (skipNumber_of_number digits).2.2 with ⟨n, fits, rfl⟩ | ⟨d, rfl⟩
      · exact ⟨positive, fun _ => .int n fits⟩
      · exact ⟨positive, fun floatless => by cases floatless⟩
  | noItems deep _ _ => exact inOrder_array deep fun v member => (List.not_mem_nil member).elim
  | array deep _ _ _ ih => exact inOrder_array deep (ih (by omega))
  | object _ ih => exact inOrder_object (ih positive)
  | noMembers deep _ _ => exact ⟨deep, fun f member => (List.not_mem_nil member).elim⟩
  | members deep _ _ _ ih => exact ⟨deep, ih (by omega)⟩
  | lastItem _ _ ih => exact List.forall_mem_singleton.2 (ih positive)
  | item _ _ _ ih later => exact List.forall_mem_cons.2 ⟨ih positive, later positive⟩
  | lastField _ _ _ _ ih => exact List.forall_mem_singleton.2 (ih positive)
  | field _ _ _ _ _ ih later => exact List.forall_mem_cons.2 ⟨ih positive, later positive⟩

end EventSourcing.Json
