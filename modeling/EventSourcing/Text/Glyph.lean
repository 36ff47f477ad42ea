/-!
# Text.Glyph -- text that may hold stray bytes

Text that arrives as bytes is read as a list of glyphs: characters in UTF-8, and the
bytes that belong to none.  Readers refuse a stray byte wherever they keep what they
read.  Main statement: a text is the text of its glyphs (`toText?_ofString`).
-/

namespace EventSourcing.Text

set_option autoImplicit false

/-- A character, or a byte that is part of none. -/
inductive Glyph where
  | char (c : Char)
  | stray (byte : UInt8)
  deriving DecidableEq, Repr

namespace Glyph

def ofString (s : String) : List Glyph :=
  s.toList.map .char

/-- The low six bits of a byte that continues a character. -/
def continuation? (b : UInt8) : Option Nat :=
  if 0x80 ≤ b && b < 0xC0 then some (b.toNat - 0x80) else none

/-- The character with a code point, if it has the size its encoding claims and is a
scalar value. -/
def scalar? (least n : Nat) : Option Char :=
  if h : n.isValidChar then if least ≤ n then some (Char.ofNatAux n h) else none else none

/-- The character that the first bytes spell, and how many bytes it takes. -/
def first? : List UInt8 → Option (Char × Nat)
  | [] => none
  | b :: rest =>
      let n := b.toNat
      if n < 0x80 then (scalar? 0 n).map (·, 1)
      else if 0xC0 ≤ n && n < 0xE0 then
        match rest with
        | b1 :: _ => do
            let c1 ← continuation? b1
            return (← scalar? 0x80 ((n - 0xC0) * 64 + c1), 2)
        | _ => none
      else if 0xE0 ≤ n && n < 0xF0 then
        match rest with
        | b1 :: b2 :: _ => do
            let c1 ← continuation? b1
            let c2 ← continuation? b2
            return (← scalar? 0x800 (((n - 0xE0) * 64 + c1) * 64 + c2), 3)
        | _ => none
      else if 0xF0 ≤ n && n < 0xF8 then
        match rest with
        | b1 :: b2 :: b3 :: _ => do
            let c1 ← continuation? b1
            let c2 ← continuation? b2
            let c3 ← continuation? b3
            return (← scalar? 0x10000 ((((n - 0xF0) * 64 + c1) * 64 + c2) * 64 + c3), 4)
        | _ => none
      else none

/-- Skips `skip` bytes, which belong to the character before them, then reads on. -/
def ofBytesFrom : Nat → List UInt8 → List Glyph
  | _, [] => []
  | skip + 1, _ :: rest => ofBytesFrom skip rest
  | 0, b :: rest =>
      match first? (b :: rest) with
      | some (c, size) => .char c :: ofBytesFrom (size - 1) rest
      | none => .stray b :: ofBytesFrom 0 rest

def ofBytes (bytes : List UInt8) : List Glyph :=
  ofBytesFrom 0 bytes

/-- The character a glyph is, unless it is stray. -/
def char? : Glyph → Option Char
  | .char c => some c
  | .stray _ => none

/-- The text of glyphs, if none is stray. -/
def toText? (gs : List Glyph) : Option String :=
  (gs.mapM char?).map String.ofList

theorem toText?_ofString (s : String) : toText? (ofString s) = some s := by
  have chars : ∀ cs : List Char, (cs.map Glyph.char).mapM char? = some cs := by
    intro cs
    induction cs with
    | nil => rfl
    | cons c rest ih => simp [char?, ih]
  simp [toText?, ofString, chars, String.ofList_toList]

end Glyph

end EventSourcing.Text
