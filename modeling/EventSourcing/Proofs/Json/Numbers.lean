import EventSourcing.Proofs.Json.Strings

/-!
# Proofs.Json.Numbers -- numbers read the same wherever they stand

The text of a number is a numeral: digits, perhaps with a sign, a fraction and an
exponent.  What the reader makes of a numeral does not depend on what comes after it, as
long as that is the end of a value (`number_chars_int`, `number_chars_float`).  An integer
of 64 bits is read as itself (`number_chars_fits`).
-/

namespace EventSourcing.Json

set_option autoImplicit false

open EventSourcing.Text (Glyph)

/-- What may come right after a value in a text without blanks. -/
def EndsValue : List Glyph → Prop
  | [] => True
  | .char c :: _ => c = ',' ∨ c = ']' ∨ c = '\x7d'
  | .stray _ :: _ => False

variable {rest : List Glyph}

/-- A reader that takes exactly these characters or fails, whatever comes after them. -/
def ReadsAlone {α : Type} (read : List Glyph → Option (α × List Glyph)) (cs : List Char) : Prop :=
  ∃ r : Option α, ∀ rest, EndsValue rest → read (glyphs cs ++ rest) = r.map (·, rest)

/-! ## Digits -/

def Decimal (ds : List Char) : Prop :=
  ∀ c ∈ ds, c.isDigit = true

theorem decimal_zeros (n : Nat) : Decimal (List.replicate n '0') := by
  intro c member
  rw [(List.mem_replicate.1 member).2]
  rfl

theorem Decimal.append {ds ds' : List Char} (left : Decimal ds) (right : Decimal ds') :
    Decimal (ds ++ ds') := by
  intro c member
  rcases List.mem_append.1 member with first | second
  · exact left c first
  · exact right c second

theorem Decimal.of_subset {ds ds' : List Char} (digits : Decimal ds) (part : ds' ⊆ ds) :
    Decimal ds' :=
  fun c member => digits c (part member)

theorem decimal_toDigits (n : Nat) : Decimal (Nat.toDigits 10 n) :=
  fun _ member => Nat.isDigit_of_mem_toDigits (by decide) (by decide) member

def digitValues (ds : List Char) : List Nat :=
  ds.map fun c => c.toNat - '0'.toNat

theorem takeDigits_ends (ends : EndsValue rest) : takeDigits rest = ([], rest) := by
  match rest with
  | [] => rfl
  | .char c :: rest =>
      rcases ends with rfl | rfl | rfl <;> rfl

theorem takeDigits_append {ds : List Char} (digits : Decimal ds)
    (after : takeDigits rest = ([], rest)) :
    takeDigits (glyphs ds ++ rest) = (digitValues ds, rest) := by
  induction ds with
  | nil => exact after
  | cons c later ih =>
      have first : c.isDigit = true := digits c List.mem_cons_self
      have others := ih fun c member => digits c (List.mem_cons_of_mem _ member)
      simp only [glyphs_cons, List.cons_append, takeDigits, first, if_true, others, digitValues,
        List.map_cons]

/-! ## Exponents -/

structure ExponentText where
  mark : Char
  digits : List Char
  signed : mark = '+' ∨ mark = '-'
  decimal : Decimal digits

def exponentChars : Option ExponentText → List Char
  | none => []
  | some e => 'e' :: e.mark :: e.digits

theorem exponent_ends (ends : EndsValue rest) : exponent? rest = some (0, rest) := by
  match rest with
  | [] => rfl
  | .char c :: rest =>
      rcases ends with rfl | rfl | rfl <;> rfl

theorem exponent_readsAlone (e : Option ExponentText) : ReadsAlone exponent? (exponentChars e) := by
  cases e with
  | none => exact ⟨some 0, fun rest ends => exponent_ends ends⟩
  | some e =>
      obtain ⟨mark, digits, signed, decimal⟩ := e
      have taken (rest : List Glyph) (ends : EndsValue rest) :=
        takeDigits_append decimal (takeDigits_ends ends)
      rcases shape : digitValues digits with _ | ⟨d, more⟩
      · refine ⟨none, fun rest ends => ?_⟩
        rcases signed with rfl | rfl <;>
          simp [exponentChars, exponent?, taken rest ends, shape]
      · rcases signed with rfl | rfl
        · exact ⟨some _, fun rest ends => by
            simp [exponentChars, exponent?, taken rest ends, shape]; rfl⟩
        · exact ⟨some _, fun rest ends => by
            simp [exponentChars, exponent?, taken rest ends, shape]; rfl⟩

/-- An exponent is no digit. -/
theorem takeDigits_exponent (e : Option ExponentText) (ends : EndsValue rest) :
    takeDigits (glyphs (exponentChars e) ++ rest) = ([], glyphs (exponentChars e) ++ rest) := by
  cases e with
  | none => exact takeDigits_ends ends
  | some e => rfl

/-! ## Numerals -/

structure Numeral where
  negative : Bool
  whole : List Char
  fraction : Option (List Char)
  exponent : Option ExponentText
  whole_decimal : Decimal whole
  fraction_decimal : ∀ ds ∈ fraction, Decimal ds

namespace Numeral

def fractionChars : Option (List Char) → List Char
  | none => []
  | some ds => '.' :: ds

/-- What follows the whole digits. -/
def tail (n : Numeral) : List Char :=
  fractionChars n.fraction ++ exponentChars n.exponent

def chars (n : Numeral) : List Char :=
  (if n.negative then ['-'] else []) ++ n.whole ++ n.tail

variable (n : Numeral)

theorem takeDigits_tail (ends : EndsValue rest) :
    takeDigits (glyphs n.tail ++ rest) = ([], glyphs n.tail ++ rest) := by
  unfold tail
  cases n.fraction with
  | none => exact takeDigits_exponent n.exponent ends
  | some ds => rfl

theorem wholeNumber_readsAlone (negative : Bool) (significand dropped : Nat) :
    ReadsAlone (wholeNumber negative significand dropped) [] := by
  unfold ReadsAlone wholeNumber
  by_cases positive : dropped = 0 ∧ !negative
  · exact ⟨some (.int significand), fun rest _ => by rw [if_pos positive]; rfl⟩
  · by_cases fits : dropped = 0 ∧ 0 < significand ∧ significand ≤ Word.size 63
    · refine ⟨some (.int (-significand)), fun rest _ => ?_⟩
      rw [if_neg positive, if_pos fits]
      rfl
    · refine ⟨(scaled? negative significand dropped).map .float, fun rest _ => ?_⟩
      rw [if_neg positive, if_neg fits, Option.map_map]
      rfl

theorem afterWhole_ends (negative : Bool) (significand dropped : Nat) (ends : EndsValue rest) :
    afterWhole negative significand dropped rest =
      wholeNumber negative significand dropped rest := by
  match rest with
  | [] => rfl
  | .char c :: rest => rcases ends with rfl | rfl | rfl <;> rfl

theorem float_bind (f : Option Double) (rest : List Glyph) :
    (f.bind fun f => some (Json.float f, rest)) = (f.map Json.float).map (·, rest) := by
  cases f <;> rfl

theorem tail_readsAlone (negative : Bool) (significand dropped : Nat) :
    ReadsAlone (afterWhole negative significand dropped) n.tail := by
  obtain ⟨e, exponent⟩ := exponent_readsAlone n.exponent
  unfold tail
  cases fraction : n.fraction with
  | some ds =>
      have taken (rest : List Glyph) (ends : EndsValue rest) :=
        takeDigits_append (n.fraction_decimal ds fraction) (takeDigits_exponent n.exponent ends)
      rcases shape : digitValues ds with _ | ⟨d, more⟩
      · refine ⟨none, fun rest ends => ?_⟩
        simp [fractionChars, afterWhole, taken rest ends, shape]
      · refine ⟨e.bind fun e => (scaled? negative (accumulate significand (d :: more)).1
          ((dropped : Int) - (accumulate significand (d :: more)).2.1 + e)).map .float, ?_⟩
        intro rest ends
        have read := taken rest ends
        rw [shape] at read
        simp only [fractionChars, List.cons_append, glyphs_cons, glyphs_append, List.append_assoc,
          afterWhole, read, exponent rest ends]
        cases e with
        | none => rfl
        | some e => exact float_bind _ rest
  | none =>
      cases shape : n.exponent with
      | none =>
          obtain ⟨r, whole⟩ := wholeNumber_readsAlone negative significand dropped
          exact ⟨r, fun rest ends => (afterWhole_ends _ _ _ ends).trans (whole rest ends)⟩
      | some x =>
          rw [shape] at exponent
          refine ⟨e.bind fun e => (scaled? negative significand (dropped + e)).map .float, ?_⟩
          intro rest ends
          have read := exponent rest ends
          have marked : afterWhole negative significand dropped
              (glyphs (fractionChars none ++ exponentChars (some x)) ++ rest) =
                (exponent? (glyphs (exponentChars (some x)) ++ rest)).bind fun r =>
                  (scaled? negative significand (dropped + r.1)).bind fun f =>
                    some (.float f, r.2) := rfl
          rw [marked, read]
          cases e with
          | none => rfl
          | some e => exact float_bind _ rest

/-- Whole digits that make no number. -/
def Malformed (ds : List Nat) : Prop :=
  ds = [] ∨ ∃ d more, ds = 0 :: d :: more

theorem unsignedNumber_eq (negative : Bool) (ends : EndsValue rest)
    (wellFormed : ¬ Malformed (digitValues n.whole)) :
    unsignedNumber negative (glyphs (n.whole ++ n.tail) ++ rest) =
      afterWhole negative (accumulate 0 (digitValues n.whole)).1
        (accumulate 0 (digitValues n.whole)).2.2 (glyphs n.tail ++ rest) := by
  rw [glyphs_append, List.append_assoc, unsignedNumber,
    takeDigits_append n.whole_decimal (n.takeDigits_tail ends)]
  split
  · rename_i same
    injection same with none
    exact absurd (.inl none) wellFormed
  · rename_i same
    injection same with zero
    exact absurd (.inr ⟨_, _, zero⟩) wellFormed
  · rename_i same
    injection same with digits others
    subst digits others
    rfl

theorem unsigned_readsAlone (negative : Bool) :
    ReadsAlone (unsignedNumber negative) (n.whole ++ n.tail) := by
  by_cases malformed : Malformed (digitValues n.whole)
  · refine ⟨none, fun rest ends => ?_⟩
    rw [glyphs_append, List.append_assoc, unsignedNumber,
      takeDigits_append n.whole_decimal (n.takeDigits_tail ends)]
    rcases malformed with shape | ⟨d, more, shape⟩ <;> rw [shape] <;> rfl
  · obtain ⟨r, after⟩ := n.tail_readsAlone negative (accumulate 0 (digitValues n.whole)).1
      (accumulate 0 (digitValues n.whole)).2.2
    exact ⟨r, fun rest ends =>
      (n.unsignedNumber_eq negative ends malformed).trans (after rest ends)⟩

/-- What a numeral can begin with. -/
theorem head_chars (written : n.chars ≠ []) :
    ∃ c cs, n.chars = c :: cs ∧ (c = '-' ∨ c = '.' ∨ c = 'e' ∨ c.isDigit = true) := by
  obtain ⟨c, cs, shape⟩ := List.exists_cons_of_ne_nil written
  refine ⟨c, cs, shape, ?_⟩
  unfold chars at shape
  cases sign : n.negative with
  | true =>
      rw [sign] at shape
      exact .inl (List.cons.inj shape).1.symm
  | false =>
      rw [sign] at shape
      change n.whole ++ n.tail = c :: cs at shape
      cases whole : n.whole with
      | cons d more =>
          have digit := n.whole_decimal d (by rw [whole]; exact List.mem_cons_self)
          rw [whole] at shape
          rw [← (List.cons.inj shape).1]
          exact .inr (.inr (.inr digit))
      | nil =>
          rw [whole, List.nil_append, tail] at shape
          cases fraction : n.fraction with
          | some ds =>
              rw [fraction] at shape
              exact .inr (.inl (List.cons.inj shape).1.symm)
          | none =>
              cases exponent : n.exponent with
              | some e =>
                  rw [fraction, exponent] at shape
                  exact .inr (.inr (.inl (List.cons.inj shape).1.symm))
              | none =>
                  rw [fraction, exponent] at shape
                  cases shape

/-- Nothing but a sign looks like one. -/
theorem unsigned_head (ends : EndsValue rest) (after : List Glyph) :
    glyphs (n.whole ++ n.tail) ++ rest ≠ .char '-' :: after := by
  intro same
  rcases shape : n.whole with _ | ⟨c, more⟩
  · rw [shape, List.nil_append, tail] at same
    cases fraction : n.fraction with
    | some ds =>
        rw [fraction] at same
        exact absurd (List.cons.inj same).1 (by decide)
    | none =>
        cases exponent : n.exponent with
        | some e =>
            rw [fraction, exponent] at same
            exact absurd (List.cons.inj same).1 (by decide)
        | none =>
            rw [fraction, exponent] at same
            change rest = .char '-' :: after at same
            rw [same] at ends
            rcases ends with minus | minus | minus <;> exact absurd minus (by decide)
  · have digit : c.isDigit = true := n.whole_decimal c (by rw [shape]; exact List.mem_cons_self)
    rw [shape] at same
    have minus : c = '-' := Glyph.char.inj (List.cons.inj same).1
    rw [minus] at digit
    exact absurd digit (by decide)

theorem number_chars (ends : EndsValue rest) : number (glyphs n.chars ++ rest) =
    unsignedNumber n.negative (glyphs (n.whole ++ n.tail) ++ rest) := by
  rw [chars, List.append_assoc]
  cases n.negative with
  | true => rfl
  | false =>
      simp only [Bool.false_eq_true, if_false, List.nil_append]
      unfold number
      split
      · rename_i after same
        exact absurd same (n.unsigned_head ends after)
      · rfl

theorem chars_readsAlone : ReadsAlone number n.chars := by
  obtain ⟨r, unsigned⟩ := n.unsigned_readsAlone n.negative
  exact ⟨r, fun rest ends => (n.number_chars ends).trans (unsigned rest ends)⟩

end Numeral

/-! ## Integers -/

def intNumeral (n : Int) : Numeral where
  negative := decide (n < 0)
  whole := Nat.toDigits 10 n.natAbs
  fraction := none
  exponent := none
  whole_decimal := decimal_toDigits n.natAbs
  fraction_decimal := by simp

theorem chars_int (n : Int) : (Json.int n).chars = (intNumeral n).chars := by
  unfold Numeral.chars Json.chars
  cases n with
  | ofNat m =>
      have unsigned : decide (Int.ofNat m < 0) = false :=
        decide_eq_false (Int.not_lt.2 (Int.natCast_nonneg m))
      have digits : (toString (Int.ofNat m)).toList = Nat.toDigits 10 m := Nat.toList_repr
      rw [digits, intNumeral, unsigned]
      exact (List.append_nil _).symm
  | negSucc m =>
      have signed : decide (Int.negSucc m < 0) = true := decide_eq_true (Int.negSucc_lt_zero m)
      have digits : (toString (Int.negSucc m)).toList = '-' :: Nat.toDigits 10 (m + 1) := by
        show ("-" ++ (m + 1).repr).toList = _
        rw [String.toList_append, Nat.toList_repr]
        rfl
      rw [digits, intNumeral, signed]
      exact (List.append_nil _).symm

theorem number_chars_int (n : Int) : ReadsAlone number (Json.int n).chars := by
  rw [chars_int]
  exact (intNumeral n).chars_readsAlone

/-- No number but zero begins with a zero. -/
theorem head_toDigits {m : Nat} (positive : 0 < m) : (Nat.toDigits 10 m).head? ≠ some '0' := by
  induction m using Nat.strongRecOn with
  | ind m ih =>
      by_cases small : m < 10
      · have digit : ∀ d : Fin 10, 0 < d.val → [Nat.digitChar d].head? ≠ some '0' := by decide
        rw [Nat.toDigits_of_lt_base small]
        exact digit ⟨m, small⟩ positive
      · rw [Nat.toDigits_of_base_le (by decide) (by omega)]
        have others := ih (m / 10) (by omega) (by omega)
        cases shape : Nat.toDigits 10 (m / 10) with
        | nil => exact absurd shape Nat.toDigits_ne_nil
        | cons c more =>
            rw [shape] at others
            exact others

theorem le_ofDigitChars (ds : List Char) (s : Nat) : s ≤ Nat.ofDigitChars 10 ds s := by
  induction ds generalizing s with
  | nil => exact Nat.le_refl s
  | cons c more ih =>
      rw [Nat.ofDigitChars_cons]
      exact Nat.le_trans (by omega) (ih _)

/-- Digits of a number that 64 bits hold are all taken into the significand. -/
theorem accumulate_eq {ds : List Char} {s : Nat} (fits : Nat.ofDigitChars 10 ds s < Word.size 64) :
    accumulate s (digitValues ds) = (Nat.ofDigitChars 10 ds s, ds.length, 0) := by
  induction ds generalizing s with
  | nil => rfl
  | cons c more ih =>
      rw [Nat.ofDigitChars_cons, Nat.mul_comm] at fits
      have first := Nat.lt_of_le_of_lt (le_ofDigitChars more _) fits
      simp only [digitValues, List.map_cons, accumulate]
      rw [if_pos first, Nat.ofDigitChars_cons, Nat.mul_comm 10 s]
      have others := ih fits
      simp only [digitValues] at others
      rw [others, List.length_cons]

/-- An integer that a text can hold as such. -/
def FitsWord (n : Int) : Prop :=
  -(Word.size 63 : Int) ≤ n ∧ n < Word.size 64

theorem wellFormed_toDigits (m : Nat) :
    ¬ Numeral.Malformed (digitValues (Nat.toDigits 10 m)) := by
  rintro (empty | ⟨d, more, zero⟩)
  · exact Nat.toDigits_ne_nil (List.map_eq_nil_iff.1 empty)
  · rcases Nat.eq_zero_or_pos m with rfl | positive
    · cases zero
    · have head := head_toDigits positive
      cases shape : Nat.toDigits 10 m with
      | nil => exact absurd shape Nat.toDigits_ne_nil
      | cons c others =>
          have digit : c.isDigit = true := by
            refine decimal_toDigits m c ?_
            rw [shape]
            exact List.mem_cons_self
          rw [shape] at head zero
          have least : c.toNat - '0'.toNat = 0 := (List.cons.inj zero).1
          have : '0'.toNat ≤ c.toNat := (Char.isDigit_iff_toNat.1 digit).1
          exact head (congrArg some (Char.toNat_inj.1 (by omega)))

/-- It is read as itself. -/
theorem number_chars_fits {n : Int} (fits : FitsWord n) {rest : List Glyph}
    (ends : EndsValue rest) : number (glyphs (Json.int n).chars ++ rest) = some (.int n, rest) := by
  have double : Word.size 64 = Word.size 63 * 2 := Word.size_succ 63
  have positive := Word.size_pos 63
  obtain ⟨least, greatest⟩ := fits
  have value : Nat.ofDigitChars 10 (Nat.toDigits 10 n.natAbs) 0 = n.natAbs :=
    Nat.ofDigitChars_ten_toDigits
  have whole : (intNumeral n).whole = Nat.toDigits 10 n.natAbs := rfl
  have taken : accumulate 0 (digitValues (Nat.toDigits 10 n.natAbs)) = _ :=
    accumulate_eq (by omega)
  rw [chars_int, Numeral.number_chars _ ends, Numeral.unsignedNumber_eq _ _ ends, whole, taken,
    value]
  · show afterWhole (decide (n < 0)) n.natAbs 0 rest = _
    rw [Numeral.afterWhole_ends _ _ _ ends, wholeNumber]
    by_cases negative : n < 0
    · have size : 0 < n.natAbs ∧ n.natAbs ≤ Word.size 63 := by omega
      have same : -(n.natAbs : Int) = n := by omega
      rw [if_neg (by simp [negative]), if_pos ⟨rfl, size⟩, same]
    · have same : (n.natAbs : Int) = n := by omega
      rw [if_pos (by simp [negative]), same]
  · exact wellFormed_toDigits n.natAbs

/-! ## Floating point numbers -/

theorem decimal_significant (x : Double.Decimal) : Decimal x.significant.1 := by
  refine (decimal_toDigits x.digits).of_subset fun c member => ?_
  exact List.mem_reverse.1 ((List.dropWhile_suffix _).subset (List.mem_reverse.1 member))

/-- However a number is laid out, its text is a numeral, and one that shows a point or an
exponent. -/
theorem floatText_numeral (layout : FloatLayout) (d : Double) :
    ∃ n : Numeral, floatText layout d = n.chars ∧ n.tail ≠ [] := by
  have zero : Decimal ['0'] := decimal_zeros 1
  unfold floatText
  dsimp only
  split
  · refine ⟨⟨d.negative, ['0'], some ['0'], none, zero, fun ds same => by cases same; exact zero⟩,
      ?_, List.cons_ne_nil _ _⟩
    simp only [Numeral.chars, Numeral.tail, Numeral.fractionChars, exponentChars,
      List.append_assoc, List.cons_append, List.nil_append, List.append_nil]
  · have digits : Decimal d.shortest.significant.1 := decimal_significant d.shortest
    generalize d.shortest.significant.1 = ds at digits ⊢
    generalize d.shortest.significant.2 = point
    by_cases whole : (ds.length : Int) ≤ point ∧ point ≤ layout.greatestPoint
    · rw [if_pos whole]
      refine ⟨⟨d.negative, ds ++ List.replicate (point - ds.length).toNat '0', some ['0'], none,
        digits.append (decimal_zeros _), fun ds same => by cases same; exact zero⟩, ?_,
        List.cons_ne_nil _ _⟩
      simp only [Numeral.chars, Numeral.tail, Numeral.fractionChars, exponentChars,
        List.append_assoc, List.append_nil]
    rw [if_neg whole]
    by_cases mixed : 0 < point ∧ point ≤ layout.greatestPoint
    · rw [if_pos mixed]
      refine ⟨⟨d.negative, ds.take point.toNat, some (ds.drop point.toNat), none,
        digits.of_subset (List.take_subset _ _), fun ds same => ?_⟩, ?_, List.cons_ne_nil _ _⟩
      · cases same
        exact digits.of_subset (List.drop_subset _ _)
      · simp only [Numeral.chars, Numeral.tail, Numeral.fractionChars, exponentChars,
          List.append_assoc, List.append_nil]
    rw [if_neg mixed]
    by_cases small : layout.leastPoint < point ∧ point ≤ 0
    · rw [if_pos small]
      refine ⟨⟨d.negative, ['0'], some (List.replicate (-point).toNat '0' ++ ds), none, zero,
        fun ds same => ?_⟩, ?_, List.cons_ne_nil _ _⟩
      · cases same
        exact (decimal_zeros _).append digits
      · simp only [Numeral.chars, Numeral.tail, Numeral.fractionChars, exponentChars,
          List.append_assoc, List.append_nil, List.cons_append, List.nil_append]
    rw [if_neg small]
    obtain ⟨fraction, rest, shown⟩ : ∃ fraction, (∀ ds ∈ fraction, Decimal ds) ∧
        Numeral.fractionChars fraction = if ds.length ≤ 1 then [] else '.' :: ds.drop 1 := by
      by_cases single : ds.length ≤ 1
      · exact ⟨none, by simp, by rw [if_pos single]; rfl⟩
      · refine ⟨some (ds.drop 1), fun ds same => ?_, by rw [if_neg single]; rfl⟩
        cases same
        exact digits.of_subset (List.drop_subset _ _)
    refine ⟨⟨d.negative, ds.take 1, fraction, some ⟨if point - 1 < 0 then '-' else '+',
      Nat.toDigits 10 (point - 1).natAbs, ?_, decimal_toDigits _⟩,
      digits.of_subset (List.take_subset _ _), rest⟩, ?_,
      List.append_ne_nil_of_right_ne_nil _ (List.cons_ne_nil _ _)⟩
    · split
      · exact .inr rfl
      · exact .inl rfl
    · simp only [Numeral.chars, Numeral.tail, exponentChars, List.append_assoc, shown]

theorem number_chars_float (d : Double) : ReadsAlone number (Json.float d).chars := by
  obtain ⟨n, same, _⟩ := floatText_numeral floatLayout d
  rw [Json.chars, same]
  exact n.chars_readsAlone

end EventSourcing.Json
