import EventSourcing.Name

/-!
# Proofs.Name.Alphabet -- names told by their alphabets

A name is a character of one alphabet and then any number of characters of another
(`Name.Follows`).  A text that is no name breaks its rule in one of three ways, of which the
first counts (`Name.Breaks`).  Main statements: exactly the names pass a check
(`Name.check_eq_ok_iff`), and a check that fails tells the way in which the rule is broken
(`Name.check_eq_error_iff`).
-/

namespace EventSourcing.Name

set_option autoImplicit false

/-! ## Alphabets -/

def Upper (c : Char) : Prop := 'A' ≤ c ∧ c ≤ 'Z'

def Lower (c : Char) : Prop := 'a' ≤ c ∧ c ≤ 'z'

def Digit (c : Char) : Prop := '0' ≤ c ∧ c ≤ '9'

def Rule.Begins : Rule → Char → Prop
  | .type, c => Upper c
  | .property, c => Lower c
  | .module, c => Lower c

def Rule.Continues : Rule → Char → Prop
  | .type, c => Upper c ∨ Lower c ∨ Digit c ∨ c = '_'
  | .property, c => Upper c ∨ Lower c ∨ Digit c ∨ c = '_'
  | .module, c => Lower c ∨ Digit c ∨ c = '_'

instance (c : Char) : Decidable (Upper c) := inferInstanceAs (Decidable ('A' ≤ c ∧ c ≤ 'Z'))

instance (c : Char) : Decidable (Lower c) := inferInstanceAs (Decidable ('a' ≤ c ∧ c ≤ 'z'))

instance (c : Char) : Decidable (Digit c) := inferInstanceAs (Decidable ('0' ≤ c ∧ c ≤ '9'))

instance (rule : Rule) (c : Char) : Decidable (rule.Begins c) :=
  match rule with
  | .type => inferInstanceAs (Decidable (Upper c))
  | .property => inferInstanceAs (Decidable (Lower c))
  | .module => inferInstanceAs (Decidable (Lower c))

instance (rule : Rule) (c : Char) : Decidable (rule.Continues c) :=
  match rule with
  | .type => inferInstanceAs (Decidable (Upper c ∨ Lower c ∨ Digit c ∨ c = '_'))
  | .property => inferInstanceAs (Decidable (Upper c ∨ Lower c ∨ Digit c ∨ c = '_'))
  | .module => inferInstanceAs (Decidable (Lower c ∨ Digit c ∨ c = '_'))

/-- A character of the first alphabet and then characters of the second. -/
def Follows (rule : Rule) (name : String) : Prop :=
  ∃ c rest, name.toList = c :: rest ∧ rule.Begins c ∧ ∀ d ∈ rest, rule.Continues d

/-- How a text breaks a rule: there is nothing, it begins with a character of another alphabet, or
a name stands before the first character that may not follow it. -/
inductive Breaks : Rule → String → Defect → Prop where
  | empty (rule : Rule) : Breaks rule "" .empty
  | notUpper {text : String} {c : Char} {rest : List Char} (shape : text.toList = c :: rest)
      (wrong : ¬ Upper c) : Breaks .type text .mustBeginWithUpperLatin
  | notLower {rule : Rule} {text : String} {c : Char} {rest : List Char} (other : rule ≠ .type)
      (shape : text.toList = c :: rest) (wrong : ¬ Lower c) :
      Breaks rule text .mustBeginWithLowerLatin
  | illegal {rule : Rule} {text start : String} {c : Char} {rest : List Char}
      (follows : Follows rule start) (shape : text.toList = start.toList ++ c :: rest)
      (wrong : ¬ rule.Continues c) :
      Breaks rule text (.illegalCharacter c start.utf8ByteSize)

variable {rule : Rule} {c : Char} {name text : String} {cs : List Char} {defect : Defect}

theorem isUpper_iff : c.isUpper = true ↔ Upper c :=
  decide_eq_true_iff

theorem isLower_iff : c.isLower = true ↔ Lower c :=
  (Bool.and_eq_true_iff).trans (and_congr decide_eq_true_iff decide_eq_true_iff)

theorem isDigit_iff : c.isDigit = true ↔ Digit c := by
  simp [Char.isDigit, Digit, Char.le_def]

theorem isWordChar_iff : isWordChar c = true ↔ Upper c ∨ Lower c ∨ Digit c ∨ c = '_' := by
  have letter : c.isAlpha = (c.isUpper || c.isLower) := rfl
  simp [isWordChar, Char.isAlphanum, letter, isUpper_iff, isLower_iff, isDigit_iff, or_assoc]

theorem isFirst_iff : rule.isFirst c = true ↔ rule.Begins c := by
  cases rule with
  | type => exact isUpper_iff
  | property => exact isLower_iff
  | module => exact isLower_iff

theorem isNext_iff : rule.isNext c = true ↔ rule.Continues c := by
  cases rule with
  | type => exact isWordChar_iff
  | property => exact isWordChar_iff
  | module =>
      simp [Rule.isNext, Rule.Continues, isLowerWordChar, isLower_iff, isDigit_iff, or_assoc]

/-! ## Checking -/

theorem checkRest_eq_ok_iff {index : Nat} :
    checkRest rule index cs = .ok () ↔ ∀ d ∈ cs, rule.Continues d := by
  induction cs generalizing index with
  | nil => simp [checkRest]
  | cons c rest ih =>
      rw [checkRest, List.forall_mem_cons, ← isNext_iff]
      cases rule.isNext c with
      | true => simp [ih]
      | false => simp

/-- What is refused begins with characters that may follow, and then comes the one that it is
refused for. -/
theorem checkRest_eq_error_iff {index : Nat} :
    checkRest rule index cs = .error defect ↔
      ∃ before c rest, cs = before ++ c :: rest ∧ (∀ d ∈ before, rule.Continues d) ∧
        ¬ rule.Continues c ∧
        defect = .illegalCharacter c (index + (String.ofList before).utf8ByteSize) := by
  induction cs generalizing index with
  | nil => simp [checkRest]
  | cons c rest ih =>
      rw [checkRest]
      cases next : rule.isNext c with
      | true =>
          rw [if_pos rfl, ih]
          have continues : rule.Continues c := isNext_iff.1 next
          constructor
          · rintro ⟨before, d, after, rfl, fine, wrong, rfl⟩
            exact ⟨c :: before, d, after, rfl, List.forall_mem_cons.2 ⟨continues, fine⟩, wrong,
              by simp [Nat.add_assoc]⟩
          · rintro ⟨before, d, after, shape, fine, wrong, rfl⟩
            cases before with
            | nil =>
                cases shape
                exact absurd continues wrong
            | cons first before =>
                cases shape
                exact ⟨before, d, after, rfl, (List.forall_mem_cons.1 fine).2, wrong,
                  by simp [Nat.add_assoc]⟩
      | false =>
          rw [if_neg Bool.false_ne_true]
          have wrong : ¬ rule.Continues c := fun fine => by simp [isNext_iff.2 fine] at next
          constructor
          · intro refused
            cases refused
            exact ⟨[], c, rest, rfl, fun d member => (List.not_mem_nil member).elim, wrong, by simp⟩
          · rintro ⟨before, d, after, shape, fine, _, rfl⟩
            cases before with
            | nil =>
                cases shape
                simp
            | cons first before =>
                cases shape
                exact absurd (fine c List.mem_cons_self) wrong

theorem check_cons {rest : List Char} (shape : text.toList = c :: rest) :
    check rule text =
      if rule.isFirst c then checkRest rule c.utf8Size rest else .error rule.firstDefect := by
  rw [check, shape]

theorem follows_cons {rest : List Char} (shape : text.toList = c :: rest) :
    Follows rule text ↔ rule.Begins c ∧ ∀ d ∈ rest, rule.Continues d := by
  constructor
  · rintro ⟨c', rest', shape', begins, fine⟩
    cases shape.symm.trans shape'
    exact ⟨begins, fine⟩
  · exact fun ⟨begins, fine⟩ => ⟨c, rest, shape, begins, fine⟩

/-- Exactly the names that follow a rule pass its check. -/
theorem check_eq_ok_iff : check rule name = .ok () ↔ Follows rule name := by
  cases shape : name.toList with
  | nil => simp [check, Follows, shape]
  | cons c rest =>
      rw [check_cons shape, follows_cons shape, ← isFirst_iff]
      cases rule.isFirst c with
      | true => simp [checkRest_eq_ok_iff]
      | false => simp

theorem Breaks.of_first {rest : List Char} (shape : text.toList = c :: rest)
    (wrong : ¬ rule.Begins c) : Breaks rule text rule.firstDefect := by
  cases rule with
  | type => exact .notUpper shape wrong
  | property => exact .notLower (by decide) shape wrong
  | module => exact .notLower (by decide) shape wrong

/-- A text that is refused breaks the rule in the way that the check tells. -/
theorem breaks_of_check (refused : check rule text = .error defect) : Breaks rule text defect := by
  cases shape : text.toList with
  | nil =>
      have nothing : text = "" := String.toList_eq_nil_iff.1 shape
      subst nothing
      cases refused
      exact .empty rule
  | cons c rest =>
      rw [check_cons shape] at refused
      cases first : rule.isFirst c with
      | false =>
          rw [first, if_neg Bool.false_ne_true] at refused
          cases refused
          exact .of_first shape fun begins => by simp [isFirst_iff.2 begins] at first
      | true =>
          rw [first, if_pos rfl, checkRest_eq_error_iff] at refused
          obtain ⟨before, d, after, rfl, fine, wrong, rfl⟩ := refused
          have follows : Follows rule (String.ofList (c :: before)) :=
            ⟨c, before, String.toList_ofList, isFirst_iff.1 first, fine⟩
          have size : (String.ofList (c :: before)).utf8ByteSize =
              c.utf8Size + (String.ofList before).utf8ByteSize := by simp
          rw [← size]
          have shape' : text.toList = (String.ofList (c :: before)).toList ++ d :: after := by
            rw [shape, String.toList_ofList, List.cons_append]
          exact .illegal follows shape' wrong

/-- A text that breaks a rule is refused for it. -/
theorem Breaks.check_eq (breaks : Breaks rule text defect) : check rule text = .error defect := by
  have first (rule : Rule) {c : Char} {rest : List Char} (shape : text.toList = c :: rest)
      (wrong : ¬ rule.Begins c) : check rule text = .error rule.firstDefect := by
    rw [check_cons shape, if_neg fun begins => wrong (isFirst_iff.1 begins)]
  cases breaks with
  | empty rule => rfl
  | notUpper shape wrong => exact first .type shape wrong
  | notLower other shape wrong =>
      cases rule with
      | type => exact absurd rfl other
      | property => exact first .property shape wrong
      | module => exact first .module shape wrong
  | @illegal _ _ start c rest follows shape wrong =>
      obtain ⟨first, before, startShape, begins, fine⟩ := follows
      rw [startShape, List.cons_append] at shape
      rw [check_cons shape, if_pos (isFirst_iff.2 begins), checkRest_eq_error_iff]
      have same : start = String.ofList (first :: before) := by
        rw [← startShape, String.ofList_toList]
      exact ⟨before, c, rest, rfl, fine, wrong, by simp [same]⟩

/-- A check that fails tells the first way in which its rule is broken. -/
theorem check_eq_error_iff : check rule text = .error defect ↔ Breaks rule text defect :=
  ⟨breaks_of_check, Breaks.check_eq⟩

end EventSourcing.Name
