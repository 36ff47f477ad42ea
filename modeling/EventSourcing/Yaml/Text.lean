import EventSourcing.Yaml.Token

/-!
# Yaml.Text -- the texts of scalars

Five ways to write a text: plain, between single or double quotes, and as a literal or
folded block.  Each function reads one of them from a cursor and returns the text and
the cursor after it, or nothing if the text is malformed.  Line breaks inside plain,
quoted and folded texts are folded: one break becomes a space, and each further one
stays (`Blanks.text`).
-/

namespace EventSourcing.Yaml

set_option autoImplicit false

/-- Blanks and line breaks between two parts of a text.  Blanks count only as long as
no line has ended. -/
structure Blanks where
  spaces : List Char
  /-- Whether a line has ended. -/
  broken : Bool
  /-- The first line break, if it is to be folded. -/
  first : List Char
  /-- The line breaks after it. -/
  more : List Char

namespace Blanks

def none : Blanks := ⟨[], false, [], []⟩

/-- After a line break that was escaped. -/
def escapedBreak : Blanks := ⟨[], true, [], []⟩

def text (b : Blanks) : List Char :=
  if b.broken then
    if b.first.head? = some '\n' then (if b.more.isEmpty then [' '] else b.more)
    else b.first ++ b.more
  else b.spaces

end Blanks

/-- Reads blanks and line breaks.  A tab at the beginning of a line, left of the column
`least`, is refused.  The fuel is the number of characters that are left. -/
def readBlanks (least : Int) : Nat → Cursor → Blanks → Option (Cursor × Blanks)
  | 0, c, b => some (c, b)
  | fuel + 1, c, b =>
      match c.rest with
      | [] => some (c, b)
      | x :: _ =>
          if isBlank x then
            if b.broken && (c.column : Int) < least && x == '\t' then Option.none
            else
              readBlanks least fuel c.next
                (if b.broken then b else { b with spaces := b.spaces ++ [x] })
          else if isBreak x then
            readBlanks least fuel c.nextLine
              (if b.broken then { b with more := b.more ++ [breakChar x] }
               else ⟨[], true, [breakChar x], []⟩)
          else some (c, b)

/-! ## Plain texts -/

/-- Characters that end a plain text inside a flow collection. -/
def isFlowIndicator (c : Char) : Bool :=
  c == ',' || c == '[' || c == ']' || c == '\x7b' || c == '\x7d'

/-- The characters of a plain text up to the next blank or the end of the text.  Inside
a flow collection a colon right before an indicator is refused. -/
def plainRun (inFlow : Bool) : List Char → Option (List Char)
  | [] => some []
  | c :: rest =>
      if isBlank c || isBreak c then some []
      else
        let next := rest.head?
        if inFlow && c == ':' && next.any (fun x => isFlowIndicator x || x == '?') then none
        else if (c == ':' && endsWord next) || (inFlow && isFlowIndicator c) then some []
        else (plainRun inFlow rest).map (c :: ·)

/-- A plain text: its characters, the cursor after it, and whether a line ended since
its last character. -/
def plainFrom (inFlow : Bool) (indent : Int) :
    Nat → Cursor → List Char → Blanks → Option (List Char × Cursor × Bool)
  | 0, c, text, b => some (text, c, b.broken)
  | fuel + 1, c, text, b =>
      if c.isAtMark '-' || c.isAtMark '.' || c.peek 0 = some '#' then some (text, c, b.broken)
      else do
        let run ← plainRun inFlow c.rest
        if run.isEmpty then some (text, c, b.broken)
        else
          let text := text ++ b.text ++ run
          let c := c.advance run.length
          if (c.peek 0).any (fun x => isBlank x || isBreak x) then do
            let (c, b) ← readBlanks indent c.rest.length c .none
            if !inFlow && (c.column : Int) < indent then some (text, c, b.broken)
            else plainFrom inFlow indent fuel c text b
          else some (text, c, false)

/-- A plain text, which ends where the indentation falls below `indent`. -/
def plainText (inFlow : Bool) (indent : Int) (c : Cursor) :
    Option (List Char × Cursor × Bool) :=
  plainFrom inFlow indent (c.rest.length + 1) c [] .none

/-! ## Quoted texts -/

def hexDigit? (c : Char) : Option Nat :=
  if '0' ≤ c ∧ c ≤ '9' then some (c.toNat - '0'.toNat)
  else if 'a' ≤ c ∧ c ≤ 'f' then some (c.toNat - 'a'.toNat + 10)
  else if 'A' ≤ c ∧ c ≤ 'F' then some (c.toNat - 'A'.toNat + 10)
  else none

def hexNumber? (digits : List Char) : Option Nat :=
  digits.foldlM (fun acc c => (hexDigit? c).map (acc * 16 + ·)) 0

def charOfCode? (n : Nat) : Option Char :=
  if h : n.isValidChar then some (Char.ofNatAux n h) else none

def shortEscape? : Char → Option Char
  | '0' => some '\x00'
  | 'a' => some '\x07'
  | 'b' => some '\x08'
  | 't' => some '\t'
  | '\t' => some '\t'
  | 'n' => some '\n'
  | 'v' => some '\x0b'
  | 'f' => some '\x0c'
  | 'r' => some '\r'
  | 'e' => some '\x1b'
  | ' ' => some ' '
  | '"' => some '"'
  | '/' => some '/'
  | '\\' => some '\\'
  | 'N' => some '\x85'
  | '_' => some '\xa0'
  | 'L' => some '\u2028'
  | 'P' => some '\u2029'
  | _ => none

/-- How many hexadecimal digits follow an escape. -/
def escapeDigits? : Char → Option Nat
  | 'x' => some 2
  | 'u' => some 4
  | 'U' => some 8
  | _ => none

/-- The character of an escape, whose backslash is at the cursor, and the length of the
escape. -/
def readEscape (rest : List Char) : Option (Char × Nat) :=
  match rest with
  | '\\' :: e :: digits =>
      match escapeDigits? e with
      | some n =>
          let ds := digits.take n
          if ds.length < n then none
          else do
            let code ← hexNumber? ds
            return (← charOfCode? code, 2 + n)
      | none => (shortEscape? e).map (·, 2)
  | _ => none

/-- How a run of characters inside quotes ended. -/
inductive RunEnd where
  /-- At a blank, a line break or the closing quote. -/
  | stopped
  /-- After an escaped line break. -/
  | escapedBreak
  deriving DecidableEq

/-- The characters inside quotes up to the next blank, line break or closing quote. -/
def quotedRun (single : Bool) : Nat → Cursor → List Char → Option (List Char × Cursor × RunEnd)
  | 0, _, _ => none
  | fuel + 1, c, text =>
      match c.rest with
      | [] => some (text, c, .stopped)
      | x :: after =>
          if isBlank x || isBreak x then some (text, c, .stopped)
          else if single && x == '\'' then
            if after.head? = some '\'' then quotedRun single fuel (c.advance 2) (text ++ ['\''])
            else some (text, c, .stopped)
          else if !single && x == '"' then some (text, c, .stopped)
          else if !single && x == '\\' then
            if after.head?.any isBreak then some (text, c.next.nextLine, .escapedBreak)
            else do
              let (e, size) ← readEscape c.rest
              quotedRun single fuel (c.advance size) (text ++ [e])
          else quotedRun single fuel c.next (text ++ [x])

/-- The rest of a quoted text after its opening quote. -/
def quotedFrom (single : Bool) : Nat → Cursor → List Char → Option (List Char × Cursor)
  | 0, _, _ => none
  | fuel + 1, c, text =>
      if c.isAtMark '-' || c.isAtMark '.' || c.rest.isEmpty then none
      else do
        let (text, c, ended) ← quotedRun single (c.rest.length + 1) c text
        if c.peek 0 = some (if single then '\'' else '"') then some (text, c.next)
        else do
          let b := match ended with
            | .stopped => Blanks.none
            | .escapedBreak => Blanks.escapedBreak
          let (c, b) ← readBlanks (-1) c.rest.length c b
          quotedFrom single fuel c (text ++ b.text)

/-- A quoted text, with its opening quote at the cursor. -/
def quotedText (single : Bool) (c : Cursor) : Option (List Char × Cursor) :=
  quotedFrom single (c.rest.length + 1) c.next []

/-! ## Block texts -/

/-- What happens to the line breaks at the end of a block. -/
inductive Chomping where
  /-- One is kept. -/
  | clip
  /-- None is kept. -/
  | strip
  /-- All are kept. -/
  | keep
  deriving DecidableEq

/-- The chomping mark and the indentation mark after a block's indicator, in either
order. -/
def blockHeader (c : Cursor) : Option (Chomping × Nat × Cursor) :=
  let chomping? : Option Char → Option Chomping
    | some '+' => some .keep
    | some '-' => some .strip
    | _ => none
  let digit? : Option Char → Option Nat := fun x =>
    x.bind fun d => if d.isDigit then some (d.toNat - '0'.toNat) else none
  match chomping? (c.peek 0) with
  | some chomping =>
      let c := c.next
      match digit? (c.peek 0) with
      | some 0 => none
      | some n => some (chomping, n, c.next)
      | none => some (chomping, 0, c)
  | none =>
      match digit? (c.peek 0) with
      | some 0 => none
      | some n =>
          let c := c.next
          match chomping? (c.peek 0) with
          | some chomping => some (chomping, n, c.next)
          | none => some (.clip, n, c)
      | none => some (.clip, 0, c)

/-- The line breaks of empty lines before the next line of a block, and the cursor at
that line's text.  With `indent = 0` the indentation is not known yet and `widest` is
the widest one seen. -/
def blockBreaks (indent : Nat) :
    Nat → Cursor → Nat → List Char → Option (List Char × Nat × Cursor)
  | 0, c, widest, breaks => some (breaks, widest, c)
  | fuel + 1, c, widest, breaks =>
      let inside (column : Nat) : Bool := indent == 0 || column < indent
      let spaces := (c.rest.takeWhile (· == ' ')).length
      let spaces := if indent == 0 then spaces else min spaces (indent - c.column)
      let c := c.advance spaces
      let widest := max widest c.column
      match c.rest with
      | x :: _ =>
          if inside c.column && x == '\t' then none
          else if isBreak x then
            blockBreaks indent fuel c.nextLine widest (breaks ++ [breakChar x])
          else some (breaks, widest, c)
      | [] => some (breaks, widest, c)

/-- The lines of a block.  `ended` is the break of the line before, `breaks` are those
of the empty lines after it, and `blank` tells whether that line began with a blank,
in which case its break is not folded. -/
def blockLines (literal : Bool) (indent : Nat) :
    Nat → Cursor → List Char → List Char → List Char → Bool →
    Option (List Char × List Char × List Char × Cursor)
  | 0, _, _, _, _, _ => none
  | fuel + 1, c, text, ended, breaks, blank =>
      if c.column == indent && !c.rest.isEmpty then
        let blankNow := (c.peek 0).any isBlank
        let joint :=
          if !literal && ended.head? = some '\n' && !blank && !blankNow then
            (if breaks.isEmpty then [' '] else [])
          else ended
        let (line, c) := c.takeWhile (!isBreak ·)
        let (ended, c) :=
          match c.rest with
          | x :: _ => ([breakChar x], c.nextLine)
          | [] => ([], c)
        let text := text ++ joint ++ breaks ++ line
        match blockBreaks indent (c.rest.length + 1) c 0 [] with
        | none => none
        | some (breaks, _, c) => blockLines literal indent fuel c text ended breaks blankNow
      else some (text, ended, breaks, c)

/-- A block, with its indicator at the cursor, inside a collection indented by
`outer`. -/
def blockText (literal : Bool) (outer : Int) (c : Cursor) : Option (List Char × Cursor) := do
  let (chomping, increment, c) ← blockHeader c.next
  let c := c.skipBlanks.skipComment
  if !(c.rest.isEmpty || (c.peek 0).any isBreak) then none
  else
    let c := c.skipBreak
    let given : Nat := if increment = 0 then 0 else (max outer 0).toNat + increment
    let (breaks, widest, c) ← blockBreaks given (c.rest.length + 1) c 0 []
    let indent := if given = 0 then max (max widest (outer + 1).toNat) 1 else given
    let (text, ended, breaks, c) ←
      blockLines literal indent (c.rest.length + 1) c [] [] breaks false
    let tail :=
      match chomping with
      | .strip => []
      | .clip => ended
      | .keep => ended ++ breaks
    return (text ++ tail, c)

end EventSourcing.Yaml
