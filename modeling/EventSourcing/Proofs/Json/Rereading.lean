import EventSourcing.Proofs.Json.Numbers

/-!
# Proofs.Json.Rereading -- values read back from their text

What the reader makes of the text of a value does not depend on what stands around it, and
the parts of a value are read one by one (`value_chars`, `reread_arr`, `reread_obj`).  A
value without floating point numbers is read as itself if it is not nested too deep
(`eq_of_reread`).
-/

namespace EventSourcing.Json

set_option autoImplicit false

open EventSourcing.Text (Glyph)

/-- What becomes of a value that is written and read again, at a depth. -/
def reread (depth : Nat) (v : Json) : Option Json :=
  read? depth (glyphs v.chars)

/-- The value is read like this wherever its text stands. -/
def ReadAs (depth : Nat) (v : Json) (r : Option Json) : Prop :=
  ∀ fuel rest, 2 * v.chars.length + 1 ≤ fuel → EndsValue rest →
    value fuel depth (glyphs v.chars ++ rest) = r.map (·, rest)

variable {depth fuel : Nat} {rest : List Glyph}

theorem reread_eq {v : Json} {r : Option Json} (same : ReadAs depth v r) : reread depth v = r := by
  have alone := same (fuelFor (glyphs v.chars)) [] (by rw [fuelFor, length_glyphs]; omega) trivial
  rw [List.append_nil] at alone
  rw [reread, read?, alone]
  cases r <;> rfl

/-- The value is read in the same way wherever its text stands. -/
def Steady (v : Json) : Prop :=
  ∀ depth, ReadAs depth v (reread depth v)

theorem steady_of {v : Json} (read : ∀ depth, ∃ r, ReadAs depth v r) : Steady v := by
  intro depth
  obtain ⟨r, same⟩ := read depth
  rw [reread_eq same]
  exact same

/-! ## What values begin with -/

/-- What no value begins with, and what ends a list. -/
def Separates (c : Char) : Prop :=
  c = ' ' ∨ c = '\n' ∨ c = '\t' ∨ c = '\r' ∨ c = ']' ∨ c = '\x7d'

instance (c : Char) : Decidable (Separates c) :=
  inferInstanceAs (Decidable (_ ∨ _))

theorem not_separates_of_numeral {c : Char}
    (head : c = '-' ∨ c = '.' ∨ c = 'e' ∨ c.isDigit = true) : ¬ Separates c := by
  rintro (rfl | rfl | rfl | rfl | rfl | rfl) <;> revert head <;> decide

theorem int_ne_nil (n : Int) : (intNumeral n).chars ≠ [] := by
  have whole : (intNumeral n).whole ≠ [] := Nat.toDigits_ne_nil
  exact List.append_ne_nil_of_left_ne_nil (List.append_ne_nil_of_right_ne_nil _ whole) _

/-- Whatever a value is, its text begins with something. -/
theorem head_chars (v : Json) : ∃ c cs, v.chars = c :: cs ∧ ¬ Separates c := by
  cases v with
  | null => exact ⟨'n', _, rfl, by decide⟩
  | bool b => cases b <;> exact ⟨_, _, rfl, by decide⟩
  | int n =>
      obtain ⟨c, cs, shape, head⟩ := (intNumeral n).head_chars (int_ne_nil n)
      exact ⟨c, cs, (chars_int n).trans shape, not_separates_of_numeral head⟩
  | float d =>
      obtain ⟨n, same, shown⟩ := floatText_numeral floatLayout d
      obtain ⟨c, cs, shape, head⟩ :=
        n.head_chars (List.append_ne_nil_of_right_ne_nil _ shown)
      exact ⟨c, cs, same.trans shape, not_separates_of_numeral head⟩
  | str s => exact ⟨'"', _, rfl, by decide⟩
  | arr vs => exact ⟨'[', _, rfl, by decide⟩
  | obj fs => exact ⟨'\x7b', _, rfl, by decide⟩

theorem skipBlanks_of_not_separates {c : Char} (head : ¬ Separates c) (rest : List Glyph) :
    skipBlanks (.char c :: rest) = .char c :: rest := by
  unfold Separates at head
  unfold skipBlanks
  split <;> first | rfl | simp_all

/-! ## Values without parts -/

theorem afterWord_append (word : List Char) (rest : List Glyph) :
    afterWord word (glyphs word ++ rest) = some rest := by
  induction word with
  | nil => rfl
  | cons c cs ih =>
      have next : afterWord (c :: cs) (glyphs (c :: cs) ++ rest) =
          if Glyph.char c == Glyph.char c then afterWord cs (glyphs cs ++ rest) else none := rfl
      rw [next, if_pos (beq_self_eq_true _)]
      exact ih

theorem readAs_null : ReadAs depth .null (some .null) := by
  intro fuel rest enough _
  obtain ⟨fuel, rfl⟩ : ∃ k, fuel = k + 1 := ⟨fuel - 1, by omega⟩
  exact congrArg (Option.map (Json.null, ·)) (afterWord_append ['u', 'l', 'l'] rest)

theorem readAs_bool (b : Bool) : ReadAs depth (.bool b) (some (.bool b)) := by
  intro fuel rest enough _
  obtain ⟨fuel, rfl⟩ : ∃ k, fuel = k + 1 := ⟨fuel - 1, by omega⟩
  cases b with
  | true => exact congrArg (Option.map (Json.bool true, ·)) (afterWord_append ['r', 'u', 'e'] rest)
  | false =>
      exact congrArg (Option.map (Json.bool false, ·)) (afterWord_append ['a', 'l', 's', 'e'] rest)

theorem readAs_str (s : String) : ReadAs depth (.str s) (some (.str s)) := by
  intro fuel rest enough _
  obtain ⟨fuel, rfl⟩ : ∃ k, fuel = k + 1 := ⟨fuel - 1, by omega⟩
  exact congrArg (Option.map fun r => (Json.str r.1, r.2)) (string_stringText s rest)

/-- Whatever begins like a numeral is read as a number. -/
theorem value_of_numeral {c : Char} (head : c = '-' ∨ c = '.' ∨ c = 'e' ∨ c.isDigit = true)
    (rest : List Glyph) :
    value (fuel + 1) depth (.char c :: rest) = number (.char c :: rest) := by
  rw [value, skipBlanks_of_not_separates (not_separates_of_numeral head)]
  split
  case h_7 => rfl
  all_goals
    rename_i same
    injection same with glyph
    injection glyph with char
    subst char
    exact absurd head (by decide)

theorem readAs_of_number {v : Json} {c : Char} {cs : List Char} {r : Option Json}
    (shape : v.chars = c :: cs) (head : c = '-' ∨ c = '.' ∨ c = 'e' ∨ c.isDigit = true)
    (read : ∀ rest, EndsValue rest → number (glyphs v.chars ++ rest) = r.map (·, rest)) :
    ReadAs depth v r := by
  intro fuel rest enough ends
  obtain ⟨fuel, rfl⟩ : ∃ k, fuel = k + 1 := ⟨fuel - 1, by omega⟩
  rw [← read rest ends, shape]
  exact value_of_numeral head _

theorem readAs_int (n : Int) : ∃ r, ReadAs depth (.int n) r := by
  obtain ⟨c, cs, shape, head⟩ := (intNumeral n).head_chars (int_ne_nil n)
  obtain ⟨r, read⟩ := number_chars_int n
  exact ⟨r, readAs_of_number ((chars_int n).trans shape) head read⟩

theorem readAs_fits {n : Int} (fits : FitsWord n) : ReadAs depth (.int n) (some (.int n)) := by
  obtain ⟨c, cs, shape, head⟩ := (intNumeral n).head_chars (int_ne_nil n)
  exact readAs_of_number ((chars_int n).trans shape) head fun rest => number_chars_fits fits

theorem readAs_float (d : Double) : ∃ r, ReadAs depth (.float d) r := by
  obtain ⟨n, same, shown⟩ := floatText_numeral floatLayout d
  obtain ⟨c, cs, shape, head⟩ := n.head_chars (List.append_ne_nil_of_right_ne_nil _ shown)
  obtain ⟨r, read⟩ := number_chars_float d
  exact ⟨r, readAs_of_number (same.trans shape) head read⟩

/-! ## Arrays -/

theorem items_comma {input later : List Glyph} {v : Json}
    (read : value fuel depth input = some (v, .char ',' :: later)) :
    items (fuel + 1) depth input =
      (items fuel depth later).map fun (vs, after) => (v :: vs, after) := by
  rw [items, read]
  show (items fuel depth later).bind _ = _
  cases items fuel depth later <;> rfl

theorem items_bracket {input after : List Glyph} {v : Json}
    (read : value fuel depth input = some (v, .char ']' :: after)) :
    items (fuel + 1) depth input = some ([v], after) := by
  rw [items, read]
  rfl

theorem items_none {input : List Glyph} (read : value fuel depth input = none) :
    items (fuel + 1) depth input = none := by
  rw [items, read]
  rfl

/-- Items are read one by one. -/
theorem items_chars {vs : List Json} (present : vs ≠ []) (steady : ∀ v ∈ vs, Steady v)
    (enough : 2 * (itemChars vs).length + 2 ≤ fuel) (rest : List Glyph) :
    items fuel depth (glyphs (itemChars vs) ++ .char ']' :: rest) =
      (vs.mapM (reread depth)).map (·, rest) := by
  induction vs generalizing fuel with
  | nil => exact absurd rfl present
  | cons v others ih =>
      obtain ⟨fuel, rfl⟩ : ∃ k, fuel = k + 1 := ⟨fuel - 1, by omega⟩
      have first := steady v List.mem_cons_self depth
      cases others with
      | nil =>
          have read := first fuel (.char ']' :: rest) (by rw [itemChars] at enough; omega)
            (.inr (.inl rfl))
          rw [itemChars, List.mapM_cons, List.mapM_nil]
          cases again : reread depth v with
          | none => exact items_none (by rw [read, again]; rfl)
          | some w => exact items_bracket (by rw [read, again]; rfl)
      | cons v' more =>
          have shape : itemChars (v :: v' :: more) = v.chars ++ ',' :: itemChars (v' :: more) := rfl
          rw [shape, List.length_append, List.length_cons] at enough
          have read := first fuel
            (.char ',' :: (glyphs (itemChars (v' :: more)) ++ .char ']' :: rest)) (by omega)
            (.inl rfl)
          have later : items fuel depth _ = _ :=
            ih (List.cons_ne_nil _ _) (fun v member => steady v (.tail _ member)) (by omega)
          rw [shape, glyphs_append, List.append_assoc, glyphs_cons, List.cons_append,
            List.mapM_cons]
          cases again : reread depth v with
          | none => exact items_none (by rw [read, again]; rfl)
          | some w =>
              rw [items_comma (by rw [read, again]; rfl), later]
              cases List.mapM (reread depth) (v' :: more) <;> rfl

theorem value_bracket (rest : List Glyph) :
    value (fuel + 1) depth (.char '[' :: rest) =
      if depth ≤ 1 then none
      else match skipBlanks rest with
        | .char ']' :: after => some (.arr [], after)
        | rest => (items fuel (depth - 1) rest).map fun (vs, after) => (.arr vs, after) :=
  rfl

theorem head_itemChars {vs : List Json} (present : vs ≠ []) (rest : List Glyph) :
    ∃ c cs, glyphs (itemChars vs) ++ rest = .char c :: cs ∧ ¬ Separates c := by
  cases vs with
  | nil => exact absurd rfl present
  | cons v more =>
      obtain ⟨c, cs, shape, head⟩ := head_chars v
      cases more with
      | nil => exact ⟨c, _, by rw [itemChars, shape]; rfl, head⟩
      | cons v' more =>
          have first : itemChars (v :: v' :: more) = v.chars ++ ',' :: itemChars (v' :: more) := rfl
          exact ⟨c, _, by rw [first, shape]; rfl, head⟩

/-- An array is read item by item, one level further down. -/
theorem readAs_arr {vs : List Json} (steady : ∀ v ∈ vs, Steady v) :
    ReadAs depth (.arr vs)
      (if depth ≤ 1 then none else (vs.mapM (reread (depth - 1))).map .arr) := by
  intro fuel rest enough _
  obtain ⟨fuel, rfl⟩ : ∃ k, fuel = k + 1 := ⟨fuel - 1, by omega⟩
  have chars : (Json.arr vs).chars = '[' :: itemChars vs ++ [']'] := rfl
  have text : glyphs (Json.arr vs).chars ++ rest =
      .char '[' :: (glyphs (itemChars vs) ++ .char ']' :: rest) := by
    rw [chars, List.cons_append, glyphs_cons, glyphs_append, List.cons_append, List.append_assoc]
    rfl
  rw [chars, List.length_append, List.length_cons, List.length_singleton] at enough
  rw [text, value_bracket]
  by_cases deep : depth ≤ 1
  · rw [if_pos deep, if_pos deep]
    rfl
  · rw [if_neg deep, if_neg deep]
    by_cases present : vs = []
    · rw [present]
      rfl
    · have read : items fuel (depth - 1) _ = _ := items_chars present steady (by omega) rest
      obtain ⟨c, cs, shape, head⟩ := head_itemChars present (.char ']' :: rest)
      rw [shape] at read ⊢
      rw [skipBlanks_of_not_separates head]
      split
      · rename_i same
        injection same with glyph
        injection glyph with char
        subst char
        exact absurd (by decide) head
      · rw [read, Option.map_map, Option.map_map]
        rfl

theorem reread_arr {vs : List Json} (steady : ∀ v ∈ vs, Steady v) :
    reread depth (.arr vs) =
      if depth ≤ 1 then none else (vs.mapM (reread (depth - 1))).map .arr :=
  reread_eq (readAs_arr steady)

/-! ## Objects -/

def rereadField (depth : Nat) (f : String × Json) : Option (String × Json) :=
  (reread depth f.2).map (f.1, ·)

theorem skipBlanks_stringText (k : String) (rest : List Glyph) :
    skipBlanks (glyphs (stringText k) ++ rest) = glyphs (stringText k) ++ rest :=
  rfl

section Fields

variable {k : String} {v : Json} {input later after : List Glyph}

theorem fields_comma (read : value fuel depth input = some (v, .char ',' :: later)) :
    fields (fuel + 1) depth (glyphs (stringText k) ++ .char ':' :: input) =
      (fields fuel depth later).map fun (fs, after) => ((k, v) :: fs, after) := by
  rw [fields, skipBlanks_stringText, string_stringText]
  show (value fuel depth input).bind _ = _
  rw [read]
  show (fields fuel depth later).bind _ = _
  cases fields fuel depth later <;> rfl

theorem fields_brace (read : value fuel depth input = some (v, .char '\x7d' :: after)) :
    fields (fuel + 1) depth (glyphs (stringText k) ++ .char ':' :: input) =
      some ([(k, v)], after) := by
  rw [fields, skipBlanks_stringText, string_stringText]
  show (value fuel depth input).bind _ = _
  rw [read]
  rfl

theorem fields_none (read : value fuel depth input = none) :
    fields (fuel + 1) depth (glyphs (stringText k) ++ .char ':' :: input) = none := by
  rw [fields, skipBlanks_stringText, string_stringText]
  show (value fuel depth input).bind _ = _
  rw [read]
  rfl

end Fields

/-- Fields are read one by one. -/
theorem fields_chars {fs : List (String × Json)} (present : fs ≠ [])
    (steady : ∀ f ∈ fs, Steady f.2) (enough : 2 * (fieldChars fs).length + 2 ≤ fuel)
    (rest : List Glyph) :
    fields fuel depth (glyphs (fieldChars fs) ++ .char '\x7d' :: rest) =
      (fs.mapM (rereadField depth)).map (·, rest) := by
  induction fs generalizing fuel with
  | nil => exact absurd rfl present
  | cons f others ih =>
      obtain ⟨fuel, rfl⟩ : ∃ k, fuel = k + 1 := ⟨fuel - 1, by omega⟩
      obtain ⟨k, v⟩ := f
      have first := steady (k, v) List.mem_cons_self depth
      cases others with
      | nil =>
          have shape : fieldChars [(k, v)] = stringText k ++ ':' :: v.chars := rfl
          rw [shape, List.length_append, List.length_cons] at enough
          have read := first fuel (.char '\x7d' :: rest) (by dsimp only; omega) (.inr (.inr rfl))
          rw [shape, glyphs_append, List.append_assoc, glyphs_cons, List.cons_append,
            List.mapM_cons, List.mapM_nil, rereadField]
          cases again : reread depth v with
          | none => exact fields_none (by rw [read, again]; rfl)
          | some w => exact fields_brace (by rw [read, again]; rfl)
      | cons f' more =>
          have shape : fieldChars ((k, v) :: f' :: more) =
              stringText k ++ ':' :: (v.chars ++ ',' :: fieldChars (f' :: more)) :=
            List.append_assoc (stringText k) (':' :: v.chars) _
          rw [shape, List.length_append, List.length_cons, List.length_append, List.length_cons]
            at enough
          have read := first fuel
            (.char ',' :: (glyphs (fieldChars (f' :: more)) ++ .char '\x7d' :: rest))
            (by dsimp only; omega) (.inl rfl)
          have later : fields fuel depth _ = _ :=
            ih (List.cons_ne_nil _ _) (fun f member => steady f (.tail _ member)) (by omega)
          rw [shape, glyphs_append, List.append_assoc, glyphs_cons, List.cons_append, glyphs_append,
            List.append_assoc, glyphs_cons, List.cons_append, List.mapM_cons, rereadField]
          cases again : reread depth v with
          | none => exact fields_none (by rw [read, again]; rfl)
          | some w =>
              rw [fields_comma (by rw [read, again]; rfl), later]
              cases List.mapM (rereadField depth) (f' :: more) <;> rfl

theorem value_brace (rest : List Glyph) :
    value (fuel + 1) depth (.char '\x7b' :: rest) =
      if depth ≤ 1 then none
      else match skipBlanks rest with
        | .char '\x7d' :: after => some (.obj [], after)
        | rest => (fields fuel (depth - 1) rest).map fun (fs, after) => (object fs, after) :=
  rfl

theorem head_fieldChars {fs : List (String × Json)} (present : fs ≠ []) (rest : List Glyph) :
    ∃ cs, glyphs (fieldChars fs) ++ rest = .char '"' :: cs := by
  match fs with
  | [] => exact absurd rfl present
  | [(k, v)] => exact ⟨_, rfl⟩
  | (k, v) :: f :: more => exact ⟨_, rfl⟩

/-- An object is read field by field, one level further down, and its fields are put in
order. -/
theorem readAs_obj {fs : List (String × Json)} (steady : ∀ f ∈ fs, Steady f.2) :
    ReadAs depth (.obj fs)
      (if depth ≤ 1 then none else (fs.mapM (rereadField (depth - 1))).map object) := by
  intro fuel rest enough _
  obtain ⟨fuel, rfl⟩ : ∃ k, fuel = k + 1 := ⟨fuel - 1, by omega⟩
  have chars : (Json.obj fs).chars = '\x7b' :: fieldChars fs ++ ['\x7d'] := rfl
  have text : glyphs (Json.obj fs).chars ++ rest =
      .char '\x7b' :: (glyphs (fieldChars fs) ++ .char '\x7d' :: rest) := by
    rw [chars, List.cons_append, glyphs_cons, glyphs_append, List.cons_append, List.append_assoc]
    rfl
  rw [chars, List.length_append, List.length_cons, List.length_singleton] at enough
  rw [text, value_brace]
  by_cases deep : depth ≤ 1
  · rw [if_pos deep, if_pos deep]
    rfl
  · rw [if_neg deep, if_neg deep]
    by_cases present : fs = []
    · rw [present]
      rfl
    · have read : fields fuel (depth - 1) _ = _ := fields_chars present steady (by omega) rest
      obtain ⟨cs, shape⟩ := head_fieldChars present (.char '\x7d' :: rest)
      rw [shape] at read ⊢
      show (fields fuel (depth - 1) (.char '"' :: cs)).map _ = _
      rw [read, Option.map_map, Option.map_map]
      rfl

theorem reread_obj {fs : List (String × Json)} (steady : ∀ f ∈ fs, Steady f.2) :
    reread depth (.obj fs) =
      if depth ≤ 1 then none else (fs.mapM (rereadField (depth - 1))).map object :=
  reread_eq (readAs_obj steady)

/-! ## All values -/

/-- The text of a value is read in the same way wherever it stands. -/
theorem steady : (v : Json) → Steady v
  | .null => steady_of fun _ => ⟨some .null, readAs_null⟩
  | .bool b => steady_of fun _ => ⟨some (.bool b), readAs_bool b⟩
  | .int n => steady_of fun _ => readAs_int n
  | .float d => steady_of fun _ => readAs_float d
  | .str s => steady_of fun _ => ⟨some (.str s), readAs_str s⟩
  | .arr vs => steady_of fun _ => ⟨_, readAs_arr fun v _ => steady v⟩
  | .obj fs => steady_of fun _ => ⟨_, readAs_obj fun f _ => steady f.2⟩
termination_by v => sizeOf v
decreasing_by
  · rename_i member
    have := List.sizeOf_lt_of_mem member
    simp only [Json.arr.sizeOf_spec]
    omega
  · rename_i member
    have := List.sizeOf_lt_of_mem member
    obtain ⟨k, v⟩ := f
    simp only [Prod.mk.sizeOf_spec] at this
    simp only [Json.obj.sizeOf_spec]
    omega

/-- The text of a value is read in the same way whatever comes after it. -/
theorem value_chars (v : Json) (enough : 2 * v.chars.length + 1 ≤ fuel) (ends : EndsValue rest) :
    value fuel depth (glyphs v.chars ++ rest) = (reread depth v).map (·, rest) :=
  steady v depth fuel rest enough ends

end EventSourcing.Json
