import EventSourcing.Proofs.Schema.Resolution
import EventSourcing.Proofs.Source.Commenting
import EventSourcing.Proofs.Source.Finding
import EventSourcing.Proofs.Source.Taking

/-!
# Proofs.Source.Documented -- types behind lines of documentation

The items of a file are read one after the other, and those of a module one level below, so the
trees at which the item of a site begins are told step by step (`Phrase.Turn`, `Item.Begins`):
there are such trees for every site, and what stands there is what is read from them
(`Item.exists_begins`, `Item.Begins.reads`).  A line of documentation is
read as an attribute that holds its text (`attributesTo_commentTrees`), and of an attribute without
any text no line is left (`CommentLine.docLines_doc`).  Main statement: the documentation of a type
has one line for each line of documentation with some text, and has all of them exactly if none is
without text (`lines_with_text_kept`).
-/

namespace EventSourcing.Source

set_option autoImplicit false

open Phrase

/-! ## Where items begin -/

/-- The turns of a phrase that is repeated: each begins where the one before it ends. -/
inductive Phrase.Turn {α : Type} (p : Phrase α) : List Tree → Nat → List Tree → Prop where
  | first {trees : List Tree} : Turn p trees 0 trees
  | later {trees between input : List Tree} {a : α} {i : Nat} (reads : p trees = some (a, between))
      (onward : Turn p between i input) : Turn p trees (i + 1) input

/-- The item at a site begins at some trees, and is read with so many levels.  Inside of a module,
which ends with a group in braces, its own attributes come first. -/
inductive Item.Begins : Nat → List Tree → List Nat → Nat → List Tree → Prop where
  | here {levels i : Nat} {trees input : List Tree}
      (turn : Turn (Grammar.upTo levels).item trees i input) :
      Begins levels trees [i] levels input
  | inside {levels levels' i : Nat} {trees front inner rest first input : List Tree}
      {name : String} {items : List Item} {site : List Nat}
      (turn : Turn (Grammar.upTo (levels + 1)).item trees i (front ++ .group .brace inner :: rest))
      (reads : (Grammar.upTo (levels + 1)).item (front ++ .group .brace inner :: rest) =
        some (.module name items, rest))
      (opened : (Grammar.upTo levels).innerAttributes inner = some ((), first))
      (within : Begins levels first site levels' input) :
      Begins (levels + 1) trees (i :: site) levels' input

/-- What is given up to the end begins with the first turn, unless nothing is given. -/
theorem Phrase.toEndFrom_cons {α : Type} {p : Phrase α} {turns : Nat} {trees rest : List Tree}
    {a : α} {later : List α} (read : toEndFrom p turns trees = some (a :: later, rest)) :
    ∃ turns between, p trees = some (a, between) ∧
      toEndFrom p turns between = some (later, rest) := by
  cases turns with
  | zero => cases read
  | succ turns =>
      obtain ⟨ended, _, sees_end, read⟩ := bind_eq_some.1 read
      cases sees_end
      split at read
      · cases read
      · obtain ⟨_, between, first, read⟩ := bind_eq_some.1 read
        obtain ⟨_, _, onward, given⟩ := bind_eq_some.1 read
        cases given
        exact ⟨turns, between, first, onward⟩

/-- What is listed at a number is what is read at that turn. -/
theorem Phrase.Turn.reads {α : Type} {p : Phrase α} {trees input rest : List Tree} {i : Nat}
    {as : List α} {a : α} (turn : Turn p trees i input) (read : toEnd p trees = some (as, rest))
    (listed : as[i]? = some a) : ∃ behind, p input = some (a, behind) := by
  rw [toEnd] at read
  generalize trees.length + 1 = turns at read
  induction turn generalizing turns as with
  | first =>
      cases as with
      | nil => cases listed
      | cons _ _ =>
          cases listed
          obtain ⟨_, behind, reads, _⟩ := toEndFrom_cons read
          exact ⟨behind, reads⟩
  | later first _ ih =>
      cases as with
      | nil => cases listed
      | cons _ _ =>
          obtain ⟨_, _, reads, onward⟩ := toEndFrom_cons read
          cases first.symm.trans reads
          exact ih listed _ onward

/-- For what is listed at a number there is a turn. -/
theorem Phrase.exists_turn {α : Type} {p : Phrase α} {trees rest : List Tree} {i : Nat}
    {as : List α} {a : α} (read : toEnd p trees = some (as, rest)) (listed : as[i]? = some a) :
    ∃ input behind, Turn p trees i input ∧ p input = some (a, behind) := by
  rw [toEnd] at read
  generalize trees.length + 1 = turns at read
  induction i generalizing turns trees as with
  | zero =>
      cases as with
      | nil => cases listed
      | cons _ _ =>
          cases listed
          obtain ⟨_, behind, reads, _⟩ := toEndFrom_cons read
          exact ⟨trees, behind, .first, reads⟩
  | succ i ih =>
      cases as with
      | nil => cases listed
      | cons _ _ =>
          obtain ⟨_, _, reads, onward⟩ := toEndFrom_cons read
          obtain ⟨input, behind, turn, given⟩ := ih listed _ onward
          exact ⟨input, behind, .later reads turn, given⟩

/-- Items in some trees come after the attributes of what they stand in. -/
theorem whole_items {g : Grammar} {trees first : List Tree} {items : List Item}
    (opened : g.innerAttributes trees = some ((), first)) :
    whole (do g.innerAttributes; toEnd g.item) trees = some items ↔
      toEnd g.item first = some (items, []) := by
  rw [whole_eq_some, bind_eq_some]
  constructor
  · rintro ⟨_, _, opened', read⟩
    cases opened.symm.trans opened'
    exact read
  · exact fun read => ⟨_, _, opened, read⟩

namespace Item

variable {levels : Nat} {input rest : List Tree}

/-- An item is read behind its attributes, one level below. -/
theorem read_attributes {item : Item}
    (read : (Grammar.upTo (levels + 1)).item input = some (item, rest)) :
    ∃ attributes between,
      (Grammar.upTo levels).outerAttributes input = some (attributes, between) ∧
      From (Grammar.upTo levels) attributes between item rest := by
  obtain ⟨attributes, between, outer, read⟩ := bind_eq_some.1 read
  exact ⟨attributes, between, outer, itemRest_from read⟩

/-- The items of a module are those in the group with which it ends. -/
theorem read_module {front inner : List Tree} {name : String} {items : List Item}
    (read : (Grammar.upTo (levels + 1)).item (front ++ .group .brace inner :: rest) =
      some (.module name items, rest)) :
    whole (do (Grammar.upTo levels).innerAttributes; toEnd (Grammar.upTo levels).item) inner =
      some items := by
  obtain ⟨attributes, between, outer, behind⟩ := read_attributes read
  obtain ⟨before, same⟩ := (AttributesTo.of_outerAttributes outer).1.suffix
  cases behind with
  | plain plain => exact plain.elim
  | @module front' inner' _ _ _ within =>
      rw [← List.append_assoc] at same
      obtain ⟨_, same⟩ := List.append_inj' same rfl
      cases same
      exact within

/-- The item that stands at a site is read where it begins. -/
theorem Begins.reads {levels' : Nat} {first : List Tree} {items : List Item} {site : List Nat}
    {modules : List String} {item : Item} (begins : Begins levels first site levels' input)
    (read : toEnd (Grammar.upTo levels).item first = some (items, []))
    (stands : Stands items site modules item) :
    ∃ rest, (Grammar.upTo levels').item input = some (item, rest) := by
  induction begins generalizing items modules with
  | here turn =>
      cases stands with
      | here listed => exact turn.reads read listed
      | inside _ within => cases within
  | inside turn reads opened begins ih =>
      cases stands with
      | here => cases begins
      | inside listed within =>
          obtain ⟨_, again⟩ := turn.reads read listed
          cases reads.symm.trans again
          exact ih ((whole_items opened).1 (read_module reads)) within

/-- Every item begins somewhere, at whatever site it stands. -/
theorem exists_begins {first : List Tree} {items : List Item} {site : List Nat}
    {modules : List String} {item : Item}
    (read : toEnd (Grammar.upTo levels).item first = some (items, []))
    (stands : Stands items site modules item) :
    ∃ levels' input, Begins levels first site (levels' + 1) input := by
  induction stands generalizing levels first with
  | here listed =>
      obtain ⟨input, _, turn, given⟩ := exists_turn read listed
      cases levels with
      | zero => cases given
      | succ levels => exact ⟨levels, input, .here turn⟩
  | inside listed _ ih =>
      obtain ⟨input, rest, turn, given⟩ := exists_turn read listed
      cases levels with
      | zero => cases given
      | succ levels =>
          obtain ⟨_, between, outer, behind⟩ := read_attributes given
          obtain ⟨before, rfl⟩ := (AttributesTo.of_outerAttributes outer).1.suffix
          cases behind with
          | plain plain => exact plain.elim
          | module within =>
              obtain ⟨_, first, opened, _⟩ := bind_eq_some.1 (whole_eq_some.1 within)
              obtain ⟨levels', input, begins⟩ := ih ((whole_items opened).1 within)
              rw [← List.append_assoc] at turn given
              exact ⟨levels', input, .inside turn given opened begins⟩

end Item

/-! ## Lines of documentation as attributes -/

theorem linesFrom_of_plain {text : List Char} (plain : ∀ c ∈ text, c ≠ '\n') (line : List Char) :
    Text.linesFrom line text =
      if line = [] ∧ text = [] then [] else [line.reverse ++ text] := by
  induction text generalizing line with
  | nil => cases line <;> simp [Text.linesFrom]
  | cons c text ih =>
      obtain ⟨feed, later⟩ := List.forall_mem_cons.1 plain
      rw [Text.linesFrom.eq_def]
      simp [ih later]

namespace CommentLine

variable (l : CommentLine)

def doc : Attribute :=
  ⟨false, ["doc"], .value [.ofText (String.ofList l.text)]⟩

theorem outerAttribute_trees (g : Grammar) (place : Position) (behind : List Tree) :
    g.outerAttribute (l.trees place ++ behind) = some (l.doc, behind) := by
  have body : whole g.attributeBody [.word (place.after l.indent) "doc", .punct '=' false,
      .ofText (String.ofList l.text)] = some l.doc := rfl
  have mark : punct "#" (l.trees place ++ behind) =
      some ((), (l.trees place ++ behind).drop 1) := rfl
  exact bind_eq_some.2 ⟨(), _, mark, inside_eq_some.2 ⟨_, rfl, body⟩⟩

/-- The text of a line without one space at its beginning and without white space at its end. -/
def shown : String :=
  String.ofList
    ((if l.text.head? = some ' ' then l.text.tail else l.text).rdropWhile Text.isBlank)

theorem docLine_text : docLine (String.ofList l.text) = l.shown := by
  rw [docLine, shown, String.toList_ofList, Text.trimEnd, List.rdropWhile]
  cases l.text with
  | nil => rfl
  | cons c text =>
      by_cases space : c = ' '
      · subst space
        rfl
      · simp [space]

/-- A line without any text is lost. -/
theorem docLines_doc : l.doc.docLines = if l.text = [] then [] else [l.shown] := by
  have lines : Text.lines (String.ofList l.text) =
      if l.text = [] then [] else [String.ofList l.text] := by
    rw [Text.lines, String.toList_ofList, linesFrom_of_plain fun c listed => (l.plain c listed).1]
    by_cases empty : l.text = [] <;> simp [empty]
  have doc : l.doc.docLines = (Text.lines (String.ofList l.text)).map docLine := rfl
  rw [doc, lines]
  split
  · rfl
  · rw [List.map_singleton, docLine_text]

end CommentLine

theorem attributesTo_commentTrees (g : Grammar) (lines : List CommentLine) (place : Position)
    (behind : List Tree) :
    AttributesTo g (commentTrees place lines ++ behind) (lines.map CommentLine.doc) behind := by
  induction lines generalizing place with
  | nil => exact .none
  | cons l lines ih =>
      rw [commentTrees, List.append_assoc]
      exact .next (l.outerAttribute_trees g place _) (ih _)

/-! ## Documented items -/

def Attribute.Documents (a : Attribute) : Prop :=
  a.isNamed "doc" = true ∧ ∃ value text, a.form = .value [.literal (.text value) text]

theorem Attribute.docLines_eq_nil {a : Attribute} (silent : ¬ a.Documents) : a.docLines = [] := by
  rw [docLines]
  split
  · rename_i named
    split
    · rename_i value text form
      exact (silent ⟨named, value, text, form⟩).elim
    · rfl
  · rfl

def fileText (content : String) : List Char :=
  withoutMark (withoutInterpreter (withoutMark content.toList))

/-- The place at which the text of a file begins: a second byte order mark is counted. -/
def fileStart (content : String) : Position :=
  let text := withoutInterpreter (withoutMark content.toList)
  if withoutMark text = text then .start else Position.start.next ' '

def fileLexemes? (content : String) : Option (List Lexeme) :=
  lexemesFrom ((withoutInterpreter (withoutMark content.toList)).length + 1) (fileStart content)
    (fileText content)

theorem items_of_lexemes {content : String} {items : List Item} {lexemes : List Lexeme}
    {trees : List Tree} (read : fileItems? content = some items)
    (lexed : fileLexemes? content = some lexemes) (nested : nest [] [] lexemes = some trees) :
    items? trees = some items := by
  have trees_read : trees? (withoutInterpreter (withoutMark content.toList)) = some trees := by
    rw [trees?]
    exact Option.bind_eq_some_iff.2 ⟨lexemes, lexed, nested⟩
  rw [fileItems?, trees_read] at read
  exact read

/-- The item at a site of a file is documented by lines that follow each other.  The lexer comes to
them, and so they are no part of a text or of another comment.  Where the item begins, perhaps
behind some other attributes, the attributes that stand at the trees ahead of the lexer are read,
one for each line, and none of the others holds documentation.  The attribute of a line keeps its
place, so these are the trees of no other point of the file. -/
inductive Documented (content : String) (site : List Nat) (lines : List CommentLine) : Prop where
  | behind {lexemes taken : List Lexeme} {trees first input ahead rest : List Tree}
      {place : Position} {after : List Char} {levels : Nat} {before own later : List Attribute}
      (lexed : fileLexemes? content = some lexemes) (nested : nest [] [] lexemes = some trees)
      (comes : Comes (fileStart content) (fileText content) taken place
        (commentChars lines ++ after))
      (stands : TreesAhead (lexemes.drop taken.length) ahead)
      (opened : (Grammar.upTo (levelsFor trees)).innerAttributes trees = some ((), first))
      (begins : Item.Begins (levelsFor trees) first site (levels + 1) input)
      (read : (Grammar.upTo levels).outerAttributes input = some (before ++ own ++ later, rest))
      (reaches : AttributesTo (Grammar.upTo levels) input before ahead)
      (each : own.length = lines.length) (alone : ∀ a ∈ before ++ later, ¬ a.Documents)

/-- The documentation that some attributes hold. -/
theorem flatMap_docLines_of_lines (lines : List CommentLine) :
    (lines.map CommentLine.doc).flatMap Attribute.docLines =
      (lines.filter fun l => l.text ≠ []).map CommentLine.shown := by
  induction lines with
  | nil => rfl
  | cons l lines ih =>
      rw [List.map_cons, List.flatMap_cons, ih, CommentLine.docLines_doc, List.filter_cons]
      by_cases empty : l.text = [] <;> simp [empty]

/-- Attributes that hold no documentation add none. -/
theorem flatMap_docLines_of_silent {attributes : List Attribute}
    (silent : ∀ a ∈ attributes, ¬ a.Documents) : attributes.flatMap Attribute.docLines = [] :=
  List.flatMap_eq_nil_iff.2 fun a listed => Attribute.docLines_eq_nil (silent a listed)

/-- A documented type is read behind attributes that hold the texts of its lines, except for lines
without any text. -/
theorem Documented.docLines {content : String} {items : List Item} {site : List Nat}
    {modules : List String} {lines : List CommentLine} {kind : DeclarationKind} {name : String}
    {place : Position} {attributes : List Attribute} (read : fileItems? content = some items)
    (stands : Item.Stands items site modules (.type kind name place attributes))
    (documented : Documented content site lines) :
    attributes.flatMap Attribute.docLines =
      (lines.filter fun l => l.text ≠ []).map CommentLine.shown := by
  obtain @⟨_, _, _, _, _, _, _, _, _, _, before, own, later, lexed, nested, comes, ahead, opened,
    begins, outer, reaches, each, alone⟩ := documented
  obtain ⟨behind, rfl⟩ := trees_ahead_of_lines comes lexed ahead
  have items := (whole_items opened).1 (items_of_lexemes read lexed nested)
  obtain ⟨_, item⟩ := begins.reads items stands
  obtain ⟨_, _, outer', rests⟩ := Item.read_attributes item
  cases outer.symm.trans outer'
  cases rests with
  | plain same =>
      -- The attributes read from the lines on are the first of those that are counted there.
      obtain ⟨all, ends⟩ := AttributesTo.of_outerAttributes outer
      obtain ⟨others, split, _⟩ :=
        all.split ends (reaches.append (attributesTo_commentTrees _ lines _ behind))
      rw [List.append_assoc, List.append_assoc, List.append_cancel_left_eq] at split
      obtain ⟨rfl, rfl⟩ := List.append_inj split (by rw [each, List.length_map])
      obtain ⟨silent_before, silent_later⟩ := List.forall_mem_append.1 alone
      rw [same, List.flatMap_append, List.flatMap_append, flatMap_docLines_of_silent silent_before,
        flatMap_docLines_of_silent silent_later, flatMap_docLines_of_lines, List.append_nil,
        List.nil_append]

/-! ## Declarations and types -/

variable {index index' : Index} {file path content : String} {items : List Item} {site : List Nat}
  {e : Entry} {lines : List CommentLine}

/-- Documentation is kept line by line, except for lines without any text.  Take a type at any site
of a file, documented by any number of lines that follow each other, whatever other attributes it
has.  The file adds it to an index, and its documentation has one line for each of them that has
some text, in their order: the text without one space at its beginning and without white space at
its end, so that a line of nothing but spaces is an empty one.  Exactly if all lines have some text,
it has as many as there are, each for its own.  Any type of a compiled schema whose reference leads
to it, among all that the compiler knows, has its declaration and so the same documentation. -/
theorem lines_with_text_kept (read : fileItems? content = some items)
    (added : index.addFile? file path content = some index')
    (declares : Item.Declares file (fileModules path) items site e)
    (documented : Documented content site lines) :
    e ∈ index'.entries ∧
      e.declaration.doc = (lines.filter fun l => l.text ≠ []).map CommentLine.shown ∧
      (e.declaration.doc = lines.map CommentLine.shown ↔ ∀ l ∈ lines, l.text ≠ []) ∧
      ∀ (c : Schema.Compiler) (raw : String) (document : Document) (s : Schema),
        e ∈ c.sources.entries ++ c.roots.flatMap Root.declared →
        c.compileDocument raw document = .ok s →
        ∀ t ∈ s.types, t.reference = ⟨e.modules, e.name⟩ → t.declaration = e.declaration := by
  have doc : e.declaration.doc = (lines.filter fun l => l.text ≠ []).map CommentLine.shown := by
    cases declares with
    | type stands => exact documented.docLines read stands
  refine ⟨?_, doc, ?_, ?_⟩
  · rw [Index.addFile?, read] at added
    cases added
    exact List.mem_append_right _ (Item.mem_entriesOf.2 ⟨site, declares⟩)
  · rw [doc]
    constructor
    · intro same l listed
      have all : (lines.filter fun l => l.text ≠ []).length = lines.length := by
        simpa only [List.length_map] using congrArg List.length same
      simpa using List.length_filter_eq_length_iff.1 all l listed
    · intro filled
      rw [List.filter_eq_self.2 fun l listed => decide_eq_true (filled l listed)]
  · intro c raw document s known compiled t listed leads
    have found := Schema.find_of_compiled compiled listed
    have member : e.declaration ∈
        (Index.mk (c.sources.entries ++ c.roots.flatMap Root.declared)).find t.reference := by
      rw [leads, Index.find]
      exact List.mem_map.2 ⟨e, List.mem_filter.2 ⟨known, by simp⟩, rfl⟩
    rw [found, List.mem_singleton] at member
    exact member.symm

/-! ### A lock and a latch -/

/-- A source with a lock in a module, documented by two lines. -/
def lockSource : String :=
  "mod doors \x7b\n  /// Opens.\n  ///   - Slowly. \n  #[derive(Debug)]\n  pub struct Lock;\n\x7d"

def lockLines : List CommentLine :=
  [⟨['\n', ' ', ' '], " Opens.".toList, false, List.all_eq_true.1 rfl, by simp, by decide⟩,
    ⟨[' ', ' '], "   - Slowly. ".toList, false, List.all_eq_true.1 rfl, by simp, by decide⟩]

def lockTrees : List Tree :=
  commentTrees ⟨1, 12⟩ lockLines ++ [.punct '#' false, .group .bracket [.word ⟨4, 5⟩ "derive",
    .group .parenthesis [.word ⟨4, 12⟩ "Debug"]], .word ⟨5, 3⟩ "pub", .word ⟨5, 7⟩ "struct",
    .word ⟨5, 14⟩ "Lock", .punct ';' false]

def doorTrees : List Tree :=
  [.word ⟨1, 1⟩ "mod", .word ⟨1, 5⟩ "doors"] ++ [.group .brace lockTrees]

def doorLexemes : List Lexeme :=
  [.tree (.word ⟨1, 1⟩ "mod"), .tree (.word ⟨1, 5⟩ "doors"), .opening .brace]

def lockLexemes : List Lexeme :=
  (commentTrees ⟨1, 12⟩ lockLines).map .tree ++ [.tree (.punct '#' false), .opening .bracket,
    .tree (.word ⟨4, 5⟩ "derive"), .opening .parenthesis, .tree (.word ⟨4, 12⟩ "Debug"),
    .closing .parenthesis, .closing .bracket, .tree (.word ⟨5, 3⟩ "pub"),
    .tree (.word ⟨5, 7⟩ "struct"), .tree (.word ⟨5, 14⟩ "Lock"), .tree (.punct ';' false)]

/-- Behind the opening brace the lexer stands at the lines. -/
theorem comes_lockLines :
    Comes (fileStart lockSource) (fileText lockSource) doorLexemes ⟨1, 12⟩
      (commentChars lockLines ++ "  #[derive(Debug)]\n  pub struct Lock;\n\x7d".toList) := by
  have start : fileStart lockSource = .start := by decide +kernel
  have text : fileText lockSource = "mod doors \x7b".toList ++
      (commentChars lockLines ++ "  #[derive(Debug)]\n  pub struct Lock;\n\x7d".toList) := by
    decide +kernel
  rw [start, text]
  generalize
    commentChars lockLines ++ "  #[derive(Debug)]\n  pub struct Lock;\n\x7d".toList = behind
  refine @Comes.past _ _ _ _ [.tree (.word ⟨1, 1⟩ "mod")] _ 3 rfl rfl (.across (n := 0) rfl ?_)
  refine @Comes.past _ _ _ _ [.tree (.word ⟨1, 5⟩ "doors")] _ 5 rfl rfl (.across (n := 0) rfl ?_)
  exact @Comes.past _ _ _ _ [.opening .brace] _ 1 rfl rfl .here

def isModuleAlone : Option (Item × List Tree) → Bool
  | some (.module _ _, []) => true
  | _ => false

theorem doorTrees_read : ∃ name items,
    (Grammar.upTo (levelsFor doorTrees)).item doorTrees = some (.module name items, []) := by
  have alone : isModuleAlone ((Grammar.upTo (levelsFor doorTrees)).item doorTrees) = true := by
    decide +kernel
  rw [isModuleAlone.eq_def] at alone
  split at alone
  · rename_i name items read
    exact ⟨name, items, read⟩
  · cases alone

theorem lock_documented : Documented lockSource [0, 0] lockLines := by
  have lexed : fileLexemes? lockSource =
      some (doorLexemes ++ (lockLexemes ++ [.closing .brace])) := by rfl
  have ahead : TreesAhead (lockLexemes ++ [.closing .brace]) lockTrees :=
    .upTo rfl (by rintro _ ⟨⟩; exact ⟨_, rfl⟩)
  obtain ⟨name, items, read⟩ := doorTrees_read
  have begins : Item.Begins (levelsFor doorTrees) doorTrees [0, 0] (levelsFor doorTrees - 1)
      lockTrees :=
    .inside .first read rfl (.here .first)
  have attributes (g : Grammar) : g.outerAttributes lockTrees =
      some ([] ++ lockLines.map CommentLine.doc ++ [⟨false, ["derive"],
        .arguments .parenthesis [.word ⟨4, 12⟩ "Debug"]⟩], lockTrees.drop 6) := rfl
  exact .behind lexed rfl comes_lockLines ahead rfl begins (attributes _) .none rfl
    (by simp [Attribute.Documents, Attribute.isNamed])

def lockEntry : Entry :=
  ⟨["doors"], "Lock", ⟨.struct, "lib.rs", ⟨5, 14⟩, ["Opens.", "  - Slowly."]⟩⟩

/-- The lock keeps both of its lines, in the sources and in a schema that refers to it. -/
theorem lock_keeps_its_lines : ∃ items index s t,
    fileItems? lockSource = some items ∧
    Index.empty.addFile? "lib.rs" "lib.rs" lockSource = some index ∧
    Item.Declares "lib.rs" (fileModules "lib.rs") items [0, 0] lockEntry ∧
    Documented lockSource [0, 0] lockLines ∧
    lockEntry.declaration.doc = lockLines.map CommentLine.shown ∧
    ((Schema.locksmith [] [2] []).addSources index).compileDocument "" Schema.lockedGate = .ok s ∧
    t ∈ s.types ∧ t.reference = ⟨["doors"], "Lock"⟩ ∧
    t.declaration = lockEntry.declaration := by
  obtain ⟨items, read⟩ := Option.isSome_iff_exists.1
    (show (fileItems? lockSource).isSome = true by decide +kernel)
  have listed : (fileItems? lockSource).map (fun items => decide
      (([0, 0], lockEntry) ∈ Item.sitedFrom "lib.rs" (fileModules "lib.rs") 0 items)) =
        some true := by
    decide +kernel
  rw [read, Option.map_some, Option.some_inj, decide_eq_true_iff] at listed
  have declares := Item.mem_sited.1 listed
  have compiles : ((Index.empty.addFile? "lib.rs" "lib.rs" lockSource).bind fun index =>
      (((Schema.locksmith [] [2] []).addSources index).compileDocument ""
        Schema.lockedGate).toOption.map fun s =>
          s.types.any (·.reference = ⟨["doors"], "Lock"⟩)) = some true := by
    decide +kernel
  have added : Index.empty.addFile? "lib.rs" "lib.rs" lockSource =
      some (Index.empty.merge ⟨Item.entriesOf "lib.rs" (fileModules "lib.rs") items⟩) := by
    rw [Index.addFile?, read]
    rfl
  obtain ⟨known, _, kept, typed⟩ := lines_with_text_kept read added declares lock_documented
  rw [added, Option.bind_some] at compiles
  generalize Index.empty.merge ⟨Item.entriesOf "lib.rs" (fileModules "lib.rs") items⟩ = index
    at added known compiles
  cases compiled : ((Schema.locksmith [] [2] []).addSources index).compileDocument ""
      Schema.lockedGate with
  | error _ =>
      rw [compiled] at compiles
      cases compiles
  | ok s =>
      rw [compiled, Except.toOption, Option.map_some, Option.some_inj, List.any_eq_true] at compiles
      obtain ⟨t, of_schema, leads⟩ := compiles
      have leads := of_decide_eq_true leads
      refine ⟨items, index, s, t, read, added, declares, lock_documented, kept.2 (by decide),
        compiled, of_schema, leads, ?_⟩
      exact typed _ _ _ s (List.mem_append_left _ (List.mem_append_right _ known)) compiled t
        of_schema leads

/-- A source with a latch, documented by three lines of which the second is blank. -/
def latchSource : String :=
  "/// One.\n///\n/// Two.\npub struct Latch;"

def latchLines : List CommentLine :=
  [⟨[], " One.".toList, false, by simp, by simp, by decide⟩,
    ⟨[], [], false, by simp, by simp, by decide⟩,
    ⟨[], " Two.".toList, false, by simp, by simp, by decide⟩]

def latchTrees : List Tree :=
  commentTrees .start latchLines ++
    [.word ⟨4, 1⟩ "pub", .word ⟨4, 5⟩ "struct", .word ⟨4, 12⟩ "Latch", .punct ';' false]

theorem latch_documented : Documented latchSource [0] latchLines := by
  have start : fileStart latchSource = .start := by decide +kernel
  have text : fileText latchSource = commentChars latchLines ++ "pub struct Latch;".toList := by
    decide +kernel
  have lexed : fileLexemes? latchSource = some (latchTrees.map .tree) := by rfl
  have comes : Comes (fileStart latchSource) (fileText latchSource) [] .start
      (commentChars latchLines ++ "pub struct Latch;".toList) := by
    rw [start, text]
    exact .here
  have ahead : TreesAhead (latchTrees.map .tree ++ []) latchTrees := .upTo rfl (by simp)
  rw [List.append_nil] at ahead
  have begins : Item.Begins (levelsFor latchTrees) latchTrees [0] (levelsFor latchTrees)
      latchTrees :=
    .here .first
  have attributes (g : Grammar) : g.outerAttributes latchTrees =
      some ([] ++ latchLines.map CommentLine.doc ++ [], latchTrees.drop 6) := rfl
  exact .behind lexed rfl comes ahead rfl begins (attributes _) .none rfl (by simp)

/-- The blank line of the latch is lost, so that its paragraphs run together. -/
theorem blank_line_lost : ∃ items e,
    fileItems? latchSource = some items ∧
    Item.Declares "lib.rs" (fileModules "lib.rs") items [0] e ∧
    Documented latchSource [0] latchLines ∧
    e.declaration.doc = ["One.", "Two."] ∧
    latchLines.map CommentLine.shown = ["One.", "", "Two."] := by
  obtain ⟨items, read⟩ := Option.isSome_iff_exists.1
    (show (fileItems? latchSource).isSome = true by decide +kernel)
  have listed : (fileItems? latchSource).map (fun items => decide
      (([0], Entry.mk [] "Latch" ⟨.struct, "lib.rs", ⟨4, 12⟩, ["One.", "Two."]⟩) ∈
        Item.sitedFrom "lib.rs" (fileModules "lib.rs") 0 items)) = some true := by
    decide +kernel
  rw [read, Option.map_some, Option.some_inj, decide_eq_true_iff] at listed
  exact ⟨items, _, read, Item.mem_sited.1 listed, latch_documented, rfl, by decide +kernel⟩

end EventSourcing.Source
