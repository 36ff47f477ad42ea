import EventSourcing.Text.Blank

/-!
# Proofs.Text.Words -- texts that are made of words

The words of a text tell it up to its white space.  A text begins with its first word, after
white space if there is any, and what follows the word begins with white space
(`exists_first_word`).  Conversely words that are set off by white space are the words of their
text (`wordsFrom_word`).
-/

namespace EventSourcing.Text

set_option autoImplicit false

def AllBlank (cs : List Char) : Prop :=
  ∀ c ∈ cs, isBlank c = true

def IsWord (cs : List Char) : Prop :=
  cs ≠ [] ∧ ∀ c ∈ cs, isBlank c = false

/-- What may follow a word: nothing, or something that begins with white space. -/
def Parted : List Char → Prop
  | [] => True
  | c :: _ => isBlank c = true

variable {c : Char} {cs rest word w gap : List Char} {ws : List (List Char)}

/-! ## Character by character -/

theorem wordsFrom_skip (blank : isBlank c = true) :
    wordsFrom [] (c :: cs) = wordsFrom [] cs := by
  rw [wordsFrom, if_pos blank, List.isEmpty_nil, if_pos rfl]

theorem wordsFrom_go (solid : isBlank c = false) :
    wordsFrom word (c :: cs) = wordsFrom (c :: word) cs := by
  rw [wordsFrom, if_neg (by simp [solid])]

/-- A run ends where white space begins. -/
theorem wordsFrom_parted (filled : word ≠ []) (parted : Parted cs) :
    wordsFrom word cs = word.reverse :: wordsFrom [] cs := by
  have nonempty : ¬ word.isEmpty = true := by simpa using filled
  cases cs with
  | nil => rw [wordsFrom, if_neg nonempty, wordsFrom, List.isEmpty_nil, if_pos rfl]
  | cons c cs =>
      have blank : isBlank c = true := parted
      rw [wordsFrom_skip blank, wordsFrom, if_pos blank, if_neg nonempty]

theorem wordsFrom_ne_nil (filled : word ≠ []) : wordsFrom word cs ≠ [] := by
  induction cs generalizing word with
  | nil =>
      rw [wordsFrom_parted filled (by trivial)]
      exact List.cons_ne_nil _ _
  | cons c cs ih =>
      cases blank : isBlank c with
      | true =>
          rw [wordsFrom_parted filled (by exact blank)]
          exact List.cons_ne_nil _ _
      | false =>
          rw [wordsFrom_go blank]
          exact ih (List.cons_ne_nil c word)

/-! ## From the words to the text -/

theorem wordsFrom_blank (blank : AllBlank gap) : wordsFrom [] (gap ++ cs) = wordsFrom [] cs := by
  induction gap with
  | nil => rfl
  | cons c gap ih =>
      obtain ⟨first, later⟩ := List.forall_mem_cons.1 blank
      rw [List.cons_append, wordsFrom_skip first, ih later]

theorem wordsFrom_allBlank (blank : AllBlank cs) : wordsFrom [] cs = [] := by
  rw [← List.append_nil cs, wordsFrom_blank blank]
  rfl

theorem wordsFrom_solid (solid : ∀ c ∈ w, isBlank c = false) :
    wordsFrom word (w ++ rest) = wordsFrom (w.reverse ++ word) rest := by
  induction w generalizing word with
  | nil => rfl
  | cons c w ih =>
      obtain ⟨first, later⟩ := List.forall_mem_cons.1 solid
      rw [List.cons_append, wordsFrom_go first, ih later, List.reverse_cons, List.append_assoc,
        List.singleton_append]

/-- A word at the beginning of a text is its first. -/
theorem wordsFrom_word (isWord : IsWord w) (parted : Parted rest) :
    wordsFrom [] (w ++ rest) = w :: wordsFrom [] rest := by
  obtain ⟨filled, solid⟩ := isWord
  have read : w.reverse ≠ [] := mt List.reverse_eq_nil_iff.1 filled
  rw [wordsFrom_solid solid, List.append_nil, wordsFrom_parted read parted, List.reverse_reverse]

theorem AllBlank.parted (blank : AllBlank cs) : Parted cs := by
  cases cs with
  | nil => trivial
  | cons c rest => exact blank c List.mem_cons_self

theorem AllBlank.parted_append (blank : AllBlank gap) (filled : gap ≠ []) :
    Parted (gap ++ rest) := by
  cases gap with
  | nil => exact absurd rfl filled
  | cons c gap => exact blank c List.mem_cons_self

/-! ## From the text to its words -/

/-- What the first word of a text leaves of it, if a run has begun already. -/
def Begins (word cs w : List Char) (ws : List (List Char)) : Prop :=
  ∃ more rest, cs = more ++ rest ∧ w = word.reverse ++ more ∧ IsWord w ∧ Parted rest ∧
    wordsFrom [] rest = ws

theorem begins_of_parted (isWord : IsWord word.reverse) (parted : Parted cs)
    (read : wordsFrom word cs = w :: ws) : Begins word cs w ws := by
  have filled : word ≠ [] := mt List.reverse_eq_nil_iff.2 isWord.1
  rw [wordsFrom_parted filled parted] at read
  cases read
  exact ⟨[], cs, rfl, (List.append_nil _).symm, isWord, parted, rfl⟩

theorem begins_of_run (isWord : IsWord word.reverse) (read : wordsFrom word cs = w :: ws) :
    Begins word cs w ws := by
  induction cs generalizing word with
  | nil => exact begins_of_parted isWord trivial read
  | cons c cs ih =>
      cases blank : isBlank c with
      | true => exact begins_of_parted isWord blank read
      | false =>
          rw [wordsFrom_go blank] at read
          have longer : IsWord (c :: word).reverse := by
            refine ⟨by simp, fun d member => ?_⟩
            rcases List.mem_cons.1 (List.mem_reverse.1 member) with rfl | later
            · exact blank
            · exact isWord.2 d (List.mem_reverse.2 later)
          obtain ⟨more, rest, rfl, rfl, whole, parted, later⟩ := ih longer read
          exact ⟨c :: more, rest, rfl, by simp, whole, parted, later⟩

/-- A text begins with its first word, up to white space. -/
theorem exists_first_word (read : wordsFrom [] cs = w :: ws) :
    ∃ gap rest, cs = gap ++ (w ++ rest) ∧ AllBlank gap ∧ IsWord w ∧ Parted rest ∧
      wordsFrom [] rest = ws := by
  induction cs with
  | nil => cases read
  | cons c cs ih =>
      cases blank : isBlank c with
      | true =>
          rw [wordsFrom_skip blank] at read
          obtain ⟨gap, rest, rfl, blanks, isWord, parted, later⟩ := ih read
          exact ⟨c :: gap, rest, rfl, List.forall_mem_cons.2 ⟨blank, blanks⟩, isWord, parted, later⟩
      | false =>
          rw [wordsFrom_go blank] at read
          have begun : IsWord [c].reverse := ⟨by simp, by simp [blank]⟩
          obtain ⟨more, rest, rfl, rfl, isWord, parted, later⟩ := begins_of_run begun read
          exact ⟨[], rest, rfl, fun d member => (List.not_mem_nil member).elim, isWord, parted,
            later⟩

/-- A text without words is white space. -/
theorem allBlank_of_wordsFrom (empty : wordsFrom [] cs = []) : AllBlank cs := by
  induction cs with
  | nil => exact fun c member => (List.not_mem_nil member).elim
  | cons c cs ih =>
      cases blank : isBlank c with
      | true =>
          rw [wordsFrom_skip blank] at empty
          exact List.forall_mem_cons.2 ⟨blank, ih empty⟩
      | false =>
          rw [wordsFrom_go blank] at empty
          exact absurd empty (wordsFrom_ne_nil (List.cons_ne_nil c []))

/-- White space that sets a word off from what stands before it. -/
theorem gap_ne_nil (parted : Parted (gap ++ (w ++ rest))) (isWord : IsWord w) : gap ≠ [] := by
  rintro rfl
  obtain ⟨filled, solid⟩ := isWord
  cases w with
  | nil => exact filled rfl
  | cons c w =>
      have blank : isBlank c = true := parted
      rw [solid c List.mem_cons_self] at blank
      cases blank

end EventSourcing.Text
