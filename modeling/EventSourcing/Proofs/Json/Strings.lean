import EventSourcing.Json.Printer
import EventSourcing.Json.Reader

/-!
# Proofs.Json.Strings -- strings read back

Whatever characters a string has, the reader makes the same string of its text and goes on
right behind the closing quote (`string_stringText`).
-/

namespace EventSourcing.Json

set_option autoImplicit false

open EventSourcing.Text (Glyph)

def glyphs (cs : List Char) : List Glyph :=
  cs.map .char

@[simp] theorem glyphs_nil : glyphs [] = [] := rfl

@[simp] theorem glyphs_cons (c : Char) (cs : List Char) :
    glyphs (c :: cs) = .char c :: glyphs cs := rfl

@[simp] theorem glyphs_append (cs cs' : List Char) :
    glyphs (cs ++ cs') = glyphs cs ++ glyphs cs' :=
  List.map_append

@[simp] theorem length_glyphs (cs : List Char) : (glyphs cs).length = cs.length :=
  List.length_map _

theorem ofString_ofList (cs : List Char) : Glyph.ofString (String.ofList cs) = glyphs cs := by
  rw [Glyph.ofString, String.toList_ofList, glyphs]

theorem ofString_text (v : Json) : Glyph.ofString v.text = glyphs v.chars :=
  ofString_ofList v.chars

/-- The escape of a control character: two zeros and two hexadecimal digits, which stand for
its code point. -/
theorem control_escape : ∀ n : Fin 32,
    ∃ h l, List.replicate (4 - (Text.hex n).length) '0' ++ Text.hex n = ['0', '0', h, l] ∧
      hexDigit? h = some (n / 16 : Nat) ∧ hexDigit? l = some (n % 16 : Nat) := by
  intro n
  refine ⟨Nat.digitChar (n / 16), Nat.digitChar (n % 16), ?_⟩
  revert n
  decide

/-- The rest of a string after a character of it. -/
def afterChar (c : Char) (r : Option (List Char × List Glyph)) :
    Option (List Char × List Glyph) :=
  r.map fun (cs, after) => (c :: cs, after)

theorem stringFrom_plain {c : Char} (quote : c ≠ '"') (backslash : c ≠ '\\')
    (visible : ¬ c.toNat < 0x20) (rest : List Glyph) :
    stringFrom .plain (.char c :: rest) = afterChar c (stringFrom .plain rest) := by
  simp only [stringFrom, quote, backslash, visible, if_false, afterChar]

theorem stringFrom_short {mark c : Char} (unicode : mark ≠ 'u') (short : shortEscape? mark = some c)
    (rest : List Glyph) :
    stringFrom .plain (.char '\\' :: .char mark :: rest) =
      afterChar c (stringFrom .plain rest) := by
  have escape : ('\\' : Char) ≠ '"' := by decide
  simp only [stringFrom, escape, unicode, if_false, if_true, short, afterChar]
  cases stringFrom .plain rest <;> rfl

/-- A control character is read from the two last digits of its escape. -/
theorem stringFrom_control {c : Char} (control : c.toNat < 0x20) (rest : List Glyph) :
    stringFrom .plain (glyphs (['\\', 'u'] ++
        List.replicate (4 - (Text.hex c.toNat).length) '0' ++ Text.hex c.toNat) ++ rest) =
      afterChar c (stringFrom .plain rest) := by
  obtain ⟨h, l, digits, high, low⟩ := control_escape ⟨c.toNat, control⟩
  dsimp only at digits high low
  have escape : ('\\' : Char) ≠ '"' := by decide
  have zero : hexDigit? '0' = some 0 := by decide
  have code : c.toNat / 16 * 16 + c.toNat % 16 = c.toNat := by omega
  have unit : unitOrHalf c.toNat none = some (.inl c) := by
    unfold unitOrHalf
    dsimp only
    rw [if_neg (by omega), if_neg (by omega), Char.ofNat_toNat]
  rw [List.append_assoc ['\\', 'u'], digits]
  simp only [glyphs_cons, glyphs_nil, List.cons_append, List.nil_append, stringFrom, escape, zero,
    high, low, if_true, if_false, Option.bind_eq_bind, Option.bind_some, Nat.zero_mul,
    Nat.add_zero, Nat.zero_add, code, unit, afterChar]
  cases stringFrom .plain rest <;> rfl

/-- The reader takes one character at a time, escaped or not. -/
theorem stringFrom_escapeChar (c : Char) (rest : List Glyph) :
    stringFrom .plain (glyphs (escapeChar c) ++ rest) = afterChar c (stringFrom .plain rest) := by
  unfold escapeChar
  split
  case h_8 quote backslash _ _ _ _ _ =>
    by_cases control : c.toNat < 0x20
    · rw [if_pos control]
      exact stringFrom_control control rest
    · rw [if_neg control]
      exact stringFrom_plain quote backslash control rest
  all_goals exact stringFrom_short (by decide) rfl rest

theorem stringFrom_flatMap (cs : List Char) (rest : List Glyph) :
    stringFrom .plain (glyphs (cs.flatMap escapeChar) ++ .char '"' :: rest) = some (cs, rest) := by
  induction cs with
  | nil => rfl
  | cons c later ih =>
      rw [List.flatMap_cons, glyphs_append, List.append_assoc, stringFrom_escapeChar, ih]
      rfl

/-- A string is read from its text, whatever comes after it. -/
theorem string_stringText (s : String) (rest : List Glyph) :
    string (glyphs (stringText s) ++ rest) = some (s, rest) := by
  have inside := stringFrom_flatMap s.toList rest
  simp only [stringText, List.cons_append, glyphs_cons, glyphs_append, List.append_assoc,
    glyphs_nil, List.nil_append, string]
  rw [inside, Option.map_some, String.ofList_toList]

end EventSourcing.Json
