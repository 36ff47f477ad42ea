import EventSourcing.Source.Lexer
import Mathlib.Data.List.DropRight

/-!
# Proofs.Source.Commenting -- lines of documentation in a text

What the lexer comes to is told step by step (`Comes`): from one point of a text it passes over
space or takes a lexeme, until it stands at another point.  Whatever it has taken by then are the
first lexemes of all it takes (`lexemesFrom_of_comes`).  Over a line of documentation it takes the
attribute that the line stands for, and it comes to the line behind (`comes_line`).  Main
statement: the trees ahead of the lexer, where it stands at lines of documentation, begin with an
attribute for each of them, blank ones too (`trees_ahead_of_lines`).
-/

namespace EventSourcing.Source

set_option autoImplicit false

/-! ## What the lexer comes to -/

/-- The lexer comes from a place, with a text ahead of it, to another place and what is left of
the text, and takes some lexemes on the way. -/
inductive Comes : Position → List Char → List Lexeme → Position → List Char → Prop where
  | here {place : Position} {text : List Char} : Comes place text [] place text
  | across {place place' : Position} {text rest : List Char} {taken : List Lexeme} {n : Nat}
      (skips : skipLength text = n + 1)
      (onward : Comes (place.after (text.take (n + 1))) (text.drop (n + 1)) taken place' rest) :
      Comes place text taken place' rest
  | past {place place' : Position} {text rest : List Char} {first taken : List Lexeme} {n : Nat}
      (stands : skipLength text = 0) (takes : lexeme? place text = some (first, n))
      (onward : Comes (place.after (text.take n)) (text.drop n) taken place' rest) :
      Comes place text (first ++ taken) place' rest

section Comes

variable {place place' place'' : Position} {text text' rest : List Char}
  {taken taken' all : List Lexeme}

theorem Comes.trans (first : Comes place text taken place' text')
    (second : Comes place' text' taken' place'' rest) :
    Comes place text (taken ++ taken') place'' rest := by
  induction first with
  | here => exact second
  | across skips _ ih => exact .across skips (ih second)
  | past stands takes _ ih =>
      rw [List.append_assoc]
      exact .past stands takes (ih second)

/-- What the lexer takes on the way to a point are the first of its lexemes, and the others are
those it takes from there. -/
theorem lexemesFrom_of_comes (comes : Comes place text taken place' rest) {fuel : Nat}
    (lexed : lexemesFrom fuel place text = some all) :
    ∃ fuel' more, lexemesFrom fuel' place' rest = some more ∧ all = taken ++ more := by
  induction comes generalizing fuel all with
  | here => exact ⟨fuel, all, lexed, rfl⟩
  | @across place place' text rest taken n skips _ ih =>
      match fuel, text with
      | 0, _ => cases lexed
      | _ + 1, [] => cases skips
      | fuel + 1, c :: cs =>
          rw [lexemesFrom, skips] at lexed
          · exact ih lexed
          · exact List.cons_ne_nil c cs
  | @past place place' text rest first taken n stands takes _ ih =>
      match fuel, text with
      | 0, _ => cases lexed
      | _ + 1, [] => cases takes
      | fuel + 1, c :: cs =>
          rw [lexemesFrom, stands] at lexed
          · simp only [takes, Option.bind_eq_bind, Option.bind_some, Option.bind_eq_some_iff,
              Option.pure_def, Option.some.injEq] at lexed
            obtain ⟨later, lexed_later, rfl⟩ := lexed
            obtain ⟨fuel', more, lexed_more, rfl⟩ := ih lexed_later
            exact ⟨fuel', more, lexed_more, (List.append_assoc ..).symm⟩
          · exact List.cons_ne_nil c cs

end Comes

theorem Position.after_append (place : Position) (xs ys : List Char) :
    place.after (xs ++ ys) = (place.after xs).after ys :=
  List.foldl_append

/-- Space is passed over. -/
theorem comes_space {space : List Char} (blank : ∀ c ∈ space, isSpace c = true) (place : Position)
    (rest : List Char) : Comes place (space ++ rest) [] (place.after space) rest := by
  induction space generalizing place with
  | nil => exact .here
  | cons c space ih =>
      obtain ⟨first, later⟩ := List.forall_mem_cons.1 blank
      refine .across (n := 0) ?_ (ih later _)
      have mark : c ≠ '/' := by
        rintro rfl
        exact absurd first (by decide)
      rw [List.cons_append, skipLength.eq_def]
      simp [mark, first]

/-! ## Lines of documentation -/

def carriageReturn (returns : Bool) : List Char :=
  if returns then ['\r'] else []

section Plain

variable {text : List Char} (plain : ∀ c ∈ text, c ≠ '\n' ∧ c ≠ '\r')
include plain

theorem lineText_of_plain (returns : Bool) (rest : List Char) :
    lineText (text ++ carriageReturn returns ++ '\n' :: rest) =
      (text, (text ++ carriageReturn returns).length) := by
  rw [List.append_assoc]
  induction text with
  | nil => cases returns <;> rfl
  | cons c text ih =>
      obtain ⟨⟨_, back⟩, later⟩ := List.forall_mem_cons.1 plain
      rw [List.cons_append, lineText.eq_def]
      simp [back, ih later]

theorem hasPlainReturns_of_plain : hasPlainReturns text = true := by
  induction text with
  | nil => rfl
  | cons c text ih =>
      obtain ⟨⟨_, back⟩, later⟩ := List.forall_mem_cons.1 plain
      rw [hasPlainReturns.eq_def]
      simp [back, ih later]

end Plain

/-- A line of documentation: the space before its mark, the text behind the mark, and whether a
carriage return stands before the end of the line.  The mark is three strokes and no more. -/
structure CommentLine where
  indent : List Char
  text : List Char
  returns : Bool
  spaced : ∀ c ∈ indent, isSpace c = true
  plain : ∀ c ∈ text, c ≠ '\n' ∧ c ≠ '\r'
  marked : text.head? ≠ some '/'

namespace CommentLine

variable (l : CommentLine) (place : Position) (rest : List Char)

/-- A line from its mark on, without its end. -/
def body : List Char :=
  '/' :: '/' :: '/' :: (l.text ++ carriageReturn l.returns)

def chars : List Char :=
  l.indent ++ (l.body ++ ['\n'])

/-- The comment that is read at the mark of a line. -/
def comment : DocComment :=
  ⟨l.text, false, l.body.length⟩

/-- The trees of the attribute that a line stands for, if the line begins at a place. -/
def trees : List Tree :=
  [.punct '#' false, .group .bracket [.word (place.after l.indent) "doc", .punct '=' false,
    .ofText (String.ofList l.text)]]

/-- No fourth stroke follows the mark, at the end of the line neither. -/
theorem fourth_ne_stroke (more : List Char) :
    l.text ++ carriageReturn l.returns ++ '\n' :: rest ≠ '/' :: more := by
  have marked := l.marked
  cases text : l.text with
  | nil => cases l.returns <;> simp [carriageReturn]
  | cons c text' =>
      rw [text, List.head?_cons, Ne, Option.some_inj] at marked
      exact fun same => marked (List.cons.inj same).1

theorem docComment?_body : docComment? (l.body ++ '\n' :: rest) = some l.comment := by
  have shape : docCommentShape? (l.body ++ '\n' :: rest) = some l.comment := by
    have fourth := l.fourth_ne_stroke rest
    have text := lineText_of_plain l.plain l.returns rest
    rw [comment, body, List.cons_append, List.cons_append, List.cons_append]
    generalize l.text ++ carriageReturn l.returns ++ '\n' :: rest = behind at fourth text ⊢
    rw [docCommentShape?.eq_def]
    simp [text]
  rw [docComment?, shape, Option.filter_some, comment, hasPlainReturns_of_plain l.plain, if_pos rfl]

theorem skipLength_body : skipLength (l.body ++ '\n' :: rest) = 0 := by
  have fourth := l.fourth_ne_stroke rest
  rw [body, List.cons_append, List.cons_append, List.cons_append]
  generalize l.text ++ carriageReturn l.returns ++ '\n' :: rest = behind at fourth ⊢
  have doc : skipLength.isDoc ('/' :: '/' :: '/' :: behind) = true := by
    rw [skipLength.isDoc.eq_def]
    simp
  exact if_pos doc

/-- Over a line of documentation the lexer takes the attribute that the line stands for. -/
theorem comes_line :
    Comes place (l.chars ++ rest) ((l.trees place).map .tree) (place.after l.chars) rest := by
  have mark : lexeme? (place.after l.indent) (l.body ++ '\n' :: rest) =
      some ((l.trees place).map .tree, l.body.length) := by
    rw [lexeme?.eq_def, docComment?_body]
    rfl
  have behind : Comes ((place.after l.indent).after ((l.body ++ '\n' :: rest).take l.body.length))
      ((l.body ++ '\n' :: rest).drop l.body.length) [] (place.after l.chars) rest := by
    rw [List.take_left, List.drop_left, chars, Position.after_append, Position.after_append]
    exact comes_space (List.forall_mem_singleton.2 rfl) _ rest
  have line := Comes.past (l.skipLength_body rest) mark behind
  rw [List.append_nil] at line
  rw [chars, List.append_assoc, List.append_assoc]
  exact (comes_space l.spaced place _).trans line

end CommentLine

def commentChars (lines : List CommentLine) : List Char :=
  lines.flatMap CommentLine.chars

def commentTrees (place : Position) : List CommentLine → List Tree
  | [] => []
  | l :: lines => l.trees place ++ commentTrees (place.after l.chars) lines

theorem comes_lines (lines : List CommentLine) (place : Position) (rest : List Char) :
    Comes place (commentChars lines ++ rest) ((commentTrees place lines).map .tree)
      (place.after (commentChars lines)) rest := by
  induction lines generalizing place with
  | nil => exact .here
  | cons l lines ih =>
      rw [commentChars, List.flatMap_cons, List.append_assoc, commentTrees, List.map_append,
        Position.after_append]
      exact (l.comes_line place _).trans (ih _)

/-! ## The trees ahead -/

theorem nest_map_tree (trees done : List Tree) (outer : List (Delimiter × List Tree))
    (more : List Lexeme) :
    nest done outer (trees.map .tree ++ more) = nest (trees.reverse ++ done) outer more := by
  induction trees generalizing done with
  | nil => rfl
  | cons t trees ih =>
      rw [List.map_cons, List.cons_append, nest, ih, List.reverse_cons, List.append_assoc]
      rfl

/-- The trees read so far that stand in no group. -/
def outermost (done : List Tree) : List (Delimiter × List Tree) → List Tree
  | [] => done.reverse
  | (_, before) :: outer => outermost before outer

theorem outermost_cons (t : Tree) (done : List Tree) (outer : List (Delimiter × List Tree)) :
    outermost done outer <+: outermost (t :: done) outer := by
  cases outer with
  | nil =>
      rw [outermost, outermost, List.reverse_cons]
      exact List.prefix_append _ _
  | cons _ _ => exact List.prefix_rfl

/-- What stands in no group when some lexemes are read stays at the front. -/
theorem outermost_prefix_nest {done : List Tree} {outer : List (Delimiter × List Tree)}
    {lexemes : List Lexeme} {trees : List Tree} (nests : nest done outer lexemes = some trees) :
    outermost done outer <+: trees := by
  fun_induction nest done outer lexemes with
  | case1 done =>
      cases nests
      exact List.prefix_rfl
  | case2 => cases nests
  | case3 done outer t rest ih => exact (outermost_cons t done outer).trans (ih nests)
  | case4 done outer d rest ih => exact ih nests
  | case5 => cases nests
  | case6 done before outer d rest ih =>
      exact (outermost_cons (.group d done.reverse) before outer).trans (ih nests)
  | case7 => cases nests

/-- The trees ahead in the innermost group that is open before some lexemes: those up to its end,
which is a closing bracket or the end of the text. -/
inductive TreesAhead : List Lexeme → List Tree → Prop where
  | upTo {inside rest : List Lexeme} {trees : List Tree} (nests : nest [] [] inside = some trees)
      (ends : ∀ l ∈ rest.head?, ∃ d, l = .closing d) : TreesAhead (inside ++ rest) trees

/-- Trees that are read one by one are the first of the trees ahead. -/
theorem TreesAhead.begins_with {read : List Tree} {more : List Lexeme} {trees : List Tree}
    (ahead : TreesAhead (read.map .tree ++ more) trees) : read <+: trees := by
  generalize all : read.map Lexeme.tree ++ more = lexemes at ahead
  cases ahead with
  | @upTo inside rest _ nests ends =>
      have within : read.map Lexeme.tree <+: inside := by
        rcases List.append_eq_append_iff.1 all with ⟨between, same, _⟩ | ⟨between, same, behind⟩
        · exact ⟨between, same.symm⟩
        · cases between with
          | nil => exact ⟨[], by simpa using same⟩
          | cons l _ =>
              obtain ⟨d, rfl⟩ := ends l (by rw [behind]; rfl)
              have read : Lexeme.closing d ∈ read.map Lexeme.tree := by simp [same]
              simp at read
      obtain ⟨later, rfl⟩ := within
      rw [nest_map_tree, List.append_nil] at nests
      simpa [outermost] using outermost_prefix_nest nests

/-- Where the lexer stands at lines of documentation, the trees ahead begin with an attribute for
each line. -/
theorem trees_ahead_of_lines {lines : List CommentLine} {place place' : Position}
    {text rest : List Char} {taken all : List Lexeme} {trees : List Tree} {fuel : Nat}
    (comes : Comes place text taken place' (commentChars lines ++ rest))
    (lexed : lexemesFrom fuel place text = some all)
    (ahead : TreesAhead (all.drop taken.length) trees) :
    ∃ behind, trees = commentTrees place' lines ++ behind := by
  obtain ⟨_, more, _, rfl⟩ :=
    lexemesFrom_of_comes (comes.trans (comes_lines lines place' rest)) lexed
  rw [List.append_assoc, List.drop_left] at ahead
  obtain ⟨behind, rfl⟩ := ahead.begins_with
  exact ⟨behind, rfl⟩

end EventSourcing.Source
