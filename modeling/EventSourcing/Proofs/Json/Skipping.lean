import EventSourcing.Proofs.Json.Numbers

/-!
# Proofs.Json.Skipping -- what is passed over as it is read

A reader that only passes over a string or a number stops where the one stops that makes a value
of it (`skipStringFrom_of_string`, `skipNumber_of_number`).  The value of a number is an integer
of 64 bits or a floating point number.
-/

namespace EventSourcing.Json

set_option autoImplicit false

open EventSourcing.Text (Glyph)

variable {input rest : List Glyph}

/-! ## Blanks -/

theorem length_skipBlanks_le (input : List Glyph) : (skipBlanks input).length ≤ input.length := by
  fun_induction skipBlanks input with
  | case5 => exact Nat.le_refl _
  | _ => rw [List.length_cons]; omega

theorem skipBlanks_skipBlanks (input : List Glyph) :
    skipBlanks (skipBlanks input) = skipBlanks input := by
  fun_induction skipBlanks input with
  | case5 input space newline tab feed =>
      unfold skipBlanks
      split <;> simp_all
  | _ => assumption

/-! ## Strings -/

/-- How many hexadecimal digits are due to a reader of strings. -/
def StringState.due : StringState → Nat
  | .hex left _ _ => left
  | _ => 0

/-- Whether the character that a reader of strings comes to is escaped. -/
def StringState.escaped : StringState → Bool
  | .escape => true
  | .pairMark _ => true
  | _ => false

/-- A state in which digits are due if it is one for digits. -/
def StringState.Running : StringState → Prop
  | .hex left _ _ => 0 < left
  | _ => True

/-- A reader of strings goes on behind a character, in a state in which the characters behind it
are passed over as they are from this one. -/
def StringState.GoesOn (state : StringState) (c : Char) (more rest : List Glyph) : Prop :=
  ∃ (state' : StringState) (cs : List Char), state'.Running ∧
    stringFrom state' more = some (cs, rest) ∧
    skipStringFrom state.due state.escaped (.char c :: more) =
      skipStringFrom state'.due state'.escaped more

section Steps

variable {c : Char} {more : List Glyph} {cs : List Char} {high : Nat}

theorem goesOn_plain (read : stringFrom .plain (.char c :: more) = some (cs, rest)) :
    c = '"' ∧ rest = more ∨ StringState.plain.GoesOn c more rest := by
  have passed : skipStringFrom 0 false (.char c :: more) =
      if c = '"' then some more
      else if c = '\\' then skipStringFrom 0 true more
      else if c.toNat < 0x20 then none else skipStringFrom 0 false more := rfl
  unfold stringFrom at read
  split at read
  · rename_i quote
    cases read
    exact .inl ⟨quote, rfl⟩
  · rename_i quote
    rw [if_neg quote] at passed
    split at read
    · rename_i backslash
      rw [if_pos backslash] at passed
      exact .inr ⟨.escape, cs, trivial, read, passed⟩
    · rename_i backslash
      rw [if_neg backslash] at passed
      split at read
      · cases read
      · rename_i visible
        rw [if_neg visible] at passed
        obtain ⟨⟨cs', after⟩, read, same⟩ := Option.map_eq_some_iff.1 read
        cases same
        exact .inr ⟨.plain, cs', trivial, read, passed⟩

theorem goesOn_escape (read : stringFrom .escape (.char c :: more) = some (cs, rest)) :
    StringState.escape.GoesOn c more rest := by
  have passed : skipStringFrom 0 true (.char c :: more) =
      if c = 'u' then skipStringFrom 4 false more
      else if (shortEscape? c).isSome then skipStringFrom 0 false more else none := rfl
  unfold stringFrom at read
  split at read
  · rename_i unicode
    rw [if_pos unicode] at passed
    exact ⟨.hex 4 0 none, cs, Nat.succ_pos 3, read, passed⟩
  · rename_i unicode
    simp only [Option.bind_eq_bind, Option.bind_eq_some_iff] at read
    obtain ⟨e, short, ⟨cs', after⟩, read, same⟩ := read
    cases same
    rw [if_neg unicode, short, Option.isSome_some, if_pos rfl] at passed
    exact ⟨.plain, cs', trivial, read, passed⟩

theorem goesOn_hex {left value : Nat} {high : Option Nat} (due : 0 < left)
    (read : stringFrom (.hex left value high) (.char c :: more) = some (cs, rest)) :
    (StringState.hex left value high).GoesOn c more rest := by
  have passed : skipStringFrom left false (.char c :: more) =
      if (hexDigit? c).isSome then skipStringFrom (left - 1) false more else none := by
    rw [skipStringFrom, if_pos due]
  unfold stringFrom at read
  simp only [Option.bind_eq_bind, Option.bind_eq_some_iff] at read
  obtain ⟨digit, hexadecimal, read⟩ := read
  rw [hexadecimal, Option.isSome_some, if_pos rfl] at passed
  split at read
  · -- the last digit completes a character or the first half of a pair
    rename_i last
    have none_due : left - 1 = 0 := by omega
    rw [none_due] at passed
    obtain ⟨unit, _, read⟩ := Option.bind_eq_some_iff.1 read
    cases unit with
    | inl e =>
        dsimp only at read
        obtain ⟨⟨cs', after⟩, plain, same⟩ := Option.bind_eq_some_iff.1 read
        cases same
        exact ⟨.plain, cs', trivial, plain, passed⟩
    | inr half => exact ⟨.pairBackslash half, cs, trivial, read, passed⟩
  · rename_i last
    have still : 0 < left - 1 := by omega
    exact ⟨.hex (left - 1) _ high, cs, still, read, passed⟩

theorem goesOn_pairBackslash
    (read : stringFrom (.pairBackslash high) (.char c :: more) = some (cs, rest)) :
    (StringState.pairBackslash high).GoesOn c more rest := by
  unfold stringFrom at read
  split at read
  · rename_i backslash
    subst backslash
    exact ⟨.pairMark high, cs, trivial, read, rfl⟩
  · cases read

theorem goesOn_pairMark
    (read : stringFrom (.pairMark high) (.char c :: more) = some (cs, rest)) :
    (StringState.pairMark high).GoesOn c more rest := by
  unfold stringFrom at read
  split at read
  · rename_i unicode
    subst unicode
    exact ⟨.hex 4 0 (some high), cs, Nat.succ_pos 3, read, rfl⟩
  · cases read

end Steps

/-- Whatever is read of a string is passed over. -/
theorem skipStringFrom_of_stringFrom {state : StringState} {cs : List Char}
    (running : state.Running) (read : stringFrom state input = some (cs, rest)) :
    skipStringFrom state.due state.escaped input = some rest ∧ rest.length < input.length := by
  induction input generalizing state cs with
  | nil => cases state <;> cases read
  | cons g more ih =>
      cases g with
      | stray byte => cases state <;> cases read
      | char c =>
          have step : state.due = 0 ∧ state.escaped = false ∧ c = '"' ∧ rest = more ∨
              state.GoesOn c more rest := by
            cases state with
            | plain => exact (goesOn_plain read).imp_left fun ends => ⟨rfl, rfl, ends⟩
            | escape => exact .inr (goesOn_escape read)
            | hex left value high => exact .inr (goesOn_hex running read)
            | pairBackslash high => exact .inr (goesOn_pairBackslash read)
            | pairMark high => exact .inr (goesOn_pairMark read)
          rcases step with ⟨due, escaped, rfl, rfl⟩ | ⟨state', cs', running, read, passed⟩
          · rw [due, escaped]
            exact ⟨rfl, Nat.lt_succ_self _⟩
          · obtain ⟨later, shorter⟩ := ih running read
            exact ⟨passed.trans later, Nat.lt_succ_of_lt shorter⟩

/-- A string begins with a quote, and is passed over behind it as it is read. -/
theorem skipStringFrom_of_string {s : String} (read : string input = some (s, rest)) :
    ∃ inside, input = .char '"' :: inside ∧ skipStringFrom 0 false inside = some rest ∧
      rest.length < input.length := by
  unfold string at read
  split at read
  · rename_i inside
    obtain ⟨⟨cs, after⟩, read, same⟩ := Option.map_eq_some_iff.1 read
    cases same
    obtain ⟨passed, shorter⟩ := @skipStringFrom_of_stringFrom _ _ .plain _ trivial read
    exact ⟨inside, rfl, passed, Nat.lt_succ_of_lt shorter⟩
  · cases read

/-! ## Numbers -/

theorem length_takeDigits {ds : List Nat} (taken : takeDigits input = (ds, rest)) :
    ds.length + rest.length = input.length := by
  induction input generalizing ds with
  | nil =>
      cases taken
      rfl
  | cons g more ih =>
      cases g with
      | stray byte =>
          cases taken
          exact Nat.zero_add _
      | char c =>
          unfold takeDigits at taken
          split at taken
          · cases taken
            have others := @ih (takeDigits more).1 rfl
            simp only [List.length_cons] at others ⊢
            omega
          · cases taken
            exact Nat.zero_add _

def exponentSign : List Glyph → Bool × List Glyph
  | .char '+' :: r => (false, r)
  | .char '-' :: r => (true, r)
  | r => (false, r)

def unsignedExponent (negative : Bool) (input : List Glyph) : Option (Int × List Glyph) :=
  match takeDigits input with
  | ([], _) => none
  | (ds, after) =>
      let n : Nat := ds.foldl (fun acc d => acc * 10 + d) 0
      some (if negative then -n else n, after)

theorem exponent_of_mark {c : Char} (mark : c = 'e' ∨ c = 'E') (behind : List Glyph) :
    exponent? (.char c :: behind) =
      unsignedExponent (exponentSign behind).1 (exponentSign behind).2 := by
  unfold exponent?
  dsimp only
  rw [if_pos mark]
  rfl

theorem exponent_of_no_mark {c : Char} (mark : ¬ (c = 'e' ∨ c = 'E')) (behind : List Glyph) :
    exponent? (.char c :: behind) = some (0, .char c :: behind) := by
  unfold exponent?
  dsimp only
  rw [if_neg mark]

theorem length_exponentSign_le (input : List Glyph) :
    (exponentSign input).2.length ≤ input.length := by
  unfold exponentSign
  split <;> simp

theorem length_unsignedExponent {negative : Bool} {e : Int}
    (read : unsignedExponent negative input = some (e, rest)) : rest.length < input.length := by
  unfold unsignedExponent at read
  split at read
  · cases read
  · rename_i ds after filled taken
    cases read
    have count := length_takeDigits taken
    cases ds with
    | nil => exact (filled rfl).elim
    | cons d ds =>
        rw [List.length_cons] at count
        omega

theorem length_exponent_le {e : Int} (read : exponent? input = some (e, rest)) :
    rest.length ≤ input.length := by
  match input with
  | [] =>
      cases read
      exact Nat.le_refl _
  | .stray _ :: _ =>
      cases read
      exact Nat.le_refl _
  | .char c :: behind =>
      by_cases mark : c = 'e' ∨ c = 'E'
      · rw [exponent_of_mark mark] at read
        have digits := length_unsignedExponent read
        have sign := length_exponentSign_le behind
        rw [List.length_cons]
        omega
      · rw [exponent_of_no_mark mark] at read
        cases read
        exact Nat.le_refl _

/-- Digits that are taken into a significand leave it below the size of a word. -/
theorem accumulate_lt {s : Nat} (fits : s < Word.size 64) (ds : List Nat) :
    (accumulate s ds).1 < Word.size 64 := by
  induction ds generalizing s with
  | nil => exact fits
  | cons d more ih =>
      unfold accumulate
      dsimp only
      split
      · rename_i next
        exact ih next
      · exact fits

/-- What the value of a number may be. -/
def IsNumber (v : Json) : Prop :=
  (∃ n, FitsWord n ∧ v = .int n) ∨ ∃ d, v = .float d

variable {negative : Bool} {significand dropped : Nat} {v : Json}

theorem wholeNumber_eq_some (fits : significand < Word.size 64)
    (read : wholeNumber negative significand dropped input = some (v, rest)) :
    rest = input ∧ IsNumber v := by
  have double : Word.size 64 = Word.size 63 * 2 := Word.size_succ 63
  have positive := Word.size_pos 63
  unfold wholeNumber at read
  split at read
  · cases read
    exact ⟨rfl, .inl ⟨_, ⟨by omega, by omega⟩, rfl⟩⟩
  · split at read
    · rename_i small
      cases read
      exact ⟨rfl, .inl ⟨_, ⟨by omega, by omega⟩, rfl⟩⟩
    · obtain ⟨f, _, same⟩ := Option.map_eq_some_iff.1 read
      cases same
      exact ⟨rfl, .inr ⟨f, rfl⟩⟩

/-- What stands behind the whole digits of a number, passed over. -/
def skipAfterWhole : List Glyph → Option (List Glyph)
  | .char '.' :: afterPoint =>
      match takeDigits afterPoint with
      | ([], _) => none
      | (_, rest) => (exponent? rest).map (·.2)
  | rest => (exponent? rest).map (·.2)

theorem skipAfterWhole_of_no_point (point : ∀ afterPoint, input ≠ .char '.' :: afterPoint) :
    skipAfterWhole input = (exponent? input).map (·.2) := by
  unfold skipAfterWhole
  split
  · exact absurd rfl (point _)
  · rfl

theorem skipAfterWhole_of_afterWhole (fits : significand < Word.size 64)
    (read : afterWhole negative significand dropped input = some (v, rest)) :
    skipAfterWhole input = some rest ∧ rest.length ≤ input.length ∧ IsNumber v := by
  unfold afterWhole at read
  split at read
  · rename_i afterPoint
    split at read
    · cases read
    · rename_i ds behind shown taken
      simp only [Option.bind_eq_bind, Option.bind_eq_some_iff] at read
      obtain ⟨⟨e, after⟩, exponent, f, _, same⟩ := read
      cases same
      have digits := length_takeDigits taken
      have shorter := length_exponent_le exponent
      refine ⟨?_, by rw [List.length_cons]; dsimp only; omega, .inr ⟨f, rfl⟩⟩
      rw [skipAfterWhole, taken]
      cases ds with
      | nil => exact (shown rfl).elim
      | cons d ds => exact congrArg (Option.map (·.2)) exponent
  · rename_i c behind point
    rw [skipAfterWhole_of_no_point fun afterPoint same => by cases same; exact point rfl]
    split at read
    · simp only [Option.bind_eq_bind, Option.bind_eq_some_iff] at read
      obtain ⟨⟨e, after⟩, exponent, f, _, same⟩ := read
      cases same
      rw [exponent]
      exact ⟨rfl, length_exponent_le exponent, .inr ⟨f, rfl⟩⟩
    · rename_i mark
      obtain ⟨rfl, number⟩ := wholeNumber_eq_some fits read
      refine ⟨?_, Nat.le_refl _, number⟩
      rw [exponent_of_no_mark mark]
      rfl
  · rename_i point char
    obtain ⟨rfl, number⟩ := wholeNumber_eq_some fits read
    refine ⟨?_, Nat.le_refl _, number⟩
    match rest with
    | [] => rfl
    | .stray _ :: _ => rfl
    | .char c :: behind => exact absurd rfl (char c behind)

def skipUnsigned (input : List Glyph) : Option (List Glyph) :=
  match takeDigits input with
  | ([], _) => none
  | (0 :: _ :: _, _) => none
  | (_, .char '.' :: afterPoint) =>
      match takeDigits afterPoint with
      | ([], _) => none
      | (_, rest) => (exponent? rest).map (·.2)
  | (_, rest) => (exponent? rest).map (·.2)

theorem skipUnsigned_of_unsignedNumber
    (read : unsignedNumber negative input = some (v, rest)) :
    skipUnsigned input = some rest ∧ rest.length < input.length ∧ IsNumber v := by
  unfold unsignedNumber at read
  split at read
  · cases read
  · cases read
  · rename_i ds behind shown zero taken
    have fits : (accumulate 0 ds).1 < Word.size 64 := accumulate_lt (Word.size_pos 64) ds
    obtain ⟨passed, shorter, number⟩ := skipAfterWhole_of_afterWhole fits read
    have digits := length_takeDigits taken
    have filled : 0 < ds.length := by
      cases ds with
      | nil => exact (shown rfl).elim
      | cons d ds => exact Nat.succ_pos _
    refine ⟨?_, by omega, number⟩
    unfold skipUnsigned
    rw [taken]
    split
    · rename_i same
      cases same
      exact (shown rfl).elim
    · rename_i same
      cases same
      exact (zero _ _ rfl).elim
    · rename_i same
      cases same
      exact passed
    · rename_i point same
      cases same
      rw [← passed, skipAfterWhole_of_no_point point]

theorem skipNumber_unsigned (unsigned : ∀ more, input ≠ .char '-' :: more) :
    skipNumber input = skipUnsigned input := by
  unfold skipNumber skipUnsigned
  split
  · exact absurd rfl (unsigned _)
  · rfl

/-- A number is passed over as it is read. -/
theorem skipNumber_of_number (read : number input = some (v, rest)) :
    skipNumber input = some rest ∧ rest.length < input.length ∧ IsNumber v := by
  unfold number at read
  split at read
  · obtain ⟨passed, shorter, number⟩ := skipUnsigned_of_unsignedNumber read
    exact ⟨passed, Nat.lt_succ_of_lt shorter, number⟩
  · rename_i unsigned
    rw [skipNumber_unsigned unsigned]
    exact skipUnsigned_of_unsignedNumber read

/-- What a number may begin with. -/
theorem head_of_number (read : number input = some (v, rest)) :
    ∃ c more, input = .char c :: more ∧ (c = '-' ∨ c.isDigit = true) := by
  unfold number at read
  split at read
  · exact ⟨_, _, rfl, .inl rfl⟩
  · unfold unsignedNumber at read
    match input with
    | [] => cases read
    | .stray _ :: _ => cases read
    | .char c :: more =>
        by_cases digit : c.isDigit = true
        · exact ⟨c, more, rfl, .inr digit⟩
        · rw [takeDigits, if_neg digit] at read
          cases read

end EventSourcing.Json
