import EventSourcing.Word

/-!
# Version -- positions in a log

A version is a text that only the log that issued it can interpret.  Logs in this
library number their entries: the version of a log is the number of its entries in
decimal.  Main statements: the version of a number of 64 bits is read as that number
(`offset?_ofNat`), and different numbers have different versions (`ofNat_injective`).
-/

namespace EventSourcing

set_option autoImplicit false

/-- A position in a log. -/
structure Version where
  text : String
  deriving DecidableEq, Repr

namespace Version

/-- The version of a log with `n` entries. -/
def ofNat (n : Nat) : Version :=
  ⟨String.ofList (Nat.toDigits 10 n)⟩

/-- The number of entries that a version stands for: decimal digits, at least one,
perhaps after a plus sign, and a number that 64 bits hold. -/
def offset? (v : Version) : Option Nat :=
  let digits := match v.text.toList with
    | '+' :: rest => rest
    | cs => cs
  if digits.isEmpty || !digits.all Char.isDigit then none
  else
    let n := Nat.ofDigitChars 10 digits 0
    if n < Word.size 64 then some n else none

theorem offset?_ofNat_eq (n : Nat) :
    (ofNat n).offset? = if n < Word.size 64 then some n else none := by
  have digits : ∀ c ∈ Nat.toDigits 10 n, c.isDigit = true :=
    fun c member => Nat.isDigit_of_mem_toDigits (by decide) (by decide) member
  have unsigned : (match Nat.toDigits 10 n with
      | '+' :: rest => rest
      | cs => cs) = Nat.toDigits 10 n := by
    split
    · rename_i rest shape
      exact absurd (digits '+' (by simp [shape])) (by decide)
    · rfl
  have wellFormed :
      ((Nat.toDigits 10 n).isEmpty || !(Nat.toDigits 10 n).all Char.isDigit) = false := by
    rw [List.all_eq_true.2 digits, Bool.not_true, Bool.or_false]
    exact List.isEmpty_eq_false_iff.2 Nat.toDigits_ne_nil
  simp only [offset?, ofNat, String.toList_ofList, unsigned, wellFormed, Bool.false_eq_true,
    if_false, Nat.ofDigitChars_toDigits (by decide : 1 < 10) (by decide : 10 ≤ 10)]

theorem offset?_ofNat {n : Nat} (fits : n < Word.size 64) : (ofNat n).offset? = some n := by
  rw [offset?_ofNat_eq, if_pos fits]

theorem eq_of_offset?_ofNat {n k : Nat} (read : (ofNat n).offset? = some k) : k = n := by
  rw [offset?_ofNat_eq] at read
  split at read
  · exact (Option.some.inj read).symm
  · cases read

theorem ofNat_injective {n m : Nat} (same : ofNat n = ofNat m) : n = m := by
  have digits : Nat.toDigits 10 n = Nat.toDigits 10 m := by
    simpa only [ofNat, mk.injEq, String.toList_ofList] using
      congrArg (fun v => v.text.toList) same
  rw [← Nat.ofDigitChars_ten_toDigits (n := n), digits, Nat.ofDigitChars_ten_toDigits]

end Version

end EventSourcing
