import EventSourcing.Yaml.Text

/-!
# Yaml.Lexer -- from text to tokens

The lexer keeps three pieces of memory.  The indentation stack turns layout into start
and end tokens.  For every open flow collection, and for the block around them, it
remembers where a key may have begun: only the colon after it tells, and then the key
is announced at the remembered place.  And it knows whether a key may begin here.
-/

namespace EventSourcing.Yaml

set_option autoImplicit false

/-- A place where a key may have begun. -/
structure KeyCandidate where
  /-- In a block, a text at the current indentation has to be a key. -/
  required : Bool
  /-- How many tokens precede it. -/
  position : Nat
  index : Nat
  line : Nat
  column : Nat

structure Lexer where
  cursor : Cursor
  tokens : Array Token
  /-- The column of the innermost block collection, -1 outside all. -/
  indent : Int
  /-- The columns of the collections around it. -/
  outer : List Int
  /-- The candidate of the innermost level. -/
  candidate : Option KeyCandidate
  /-- The candidates of the levels around it; there are as many as open flow
  collections. -/
  candidates : List (Option KeyCandidate)
  /-- Whether a key may begin here. -/
  keyAllowed : Bool

namespace Lexer

def start (text : List Char) : Lexer :=
  ⟨Cursor.start text, #[], -1, [], none, [], true⟩

def inFlow (l : Lexer) : Bool := !l.candidates.isEmpty

def emit (l : Lexer) (t : Token) : Lexer := { l with tokens := l.tokens.push t }

def emitAt (l : Lexer) (t : Token) (c : Cursor) : Lexer :=
  { l with tokens := l.tokens.push t, cursor := c }

/-- Opens a block collection at a column that is deeper than the current one; its start
token goes to a place among the tokens. -/
def openBlock (l : Lexer) (column position : Nat) (t : Token) : Lexer :=
  if !l.inFlow && l.indent < column then
    { l with
      indent := column, outer := l.indent :: l.outer,
      tokens := l.tokens.insertIdxIfInBounds position t }
  else l

/-- Closes the block collections that are deeper than a column. -/
def closeBlocks (column : Int) : List Int → Int → Array Token → List Int × Int × Array Token
  | [], indent, tokens => ([], indent, tokens)
  | o :: outer, indent, tokens =>
      if column < indent then closeBlocks column outer o (tokens.push .blockEnd)
      else (o :: outer, indent, tokens)

/-- Closes the block collections that the current column ends. -/
def dedent (l : Lexer) (column : Int) : Lexer :=
  if l.inFlow then l
  else
    let (outer, indent, tokens) := closeBlocks column l.outer l.indent l.tokens
    { l with outer := outer, indent := indent, tokens := tokens }

/-- Gives up the candidate of this level; one that had to be a key is an error. -/
def dropCandidate (l : Lexer) : Option Lexer :=
  if l.candidate.any (·.required) then none else some { l with candidate := none }

/-- Remembers the current place as a candidate, if a key may begin here. -/
def markCandidate (l : Lexer) : Option Lexer :=
  if l.keyAllowed then do
    let l ← l.dropCandidate
    let c := l.cursor
    return { l with
      candidate := some ⟨!l.inFlow && l.indent == c.column, l.tokens.size, c.index, c.line,
        c.column⟩ }
  else some l

/-- Whether a candidate is too far back: a key stays on one line and within 1024
characters. -/
def isStale (c : Cursor) (k : KeyCandidate) : Bool :=
  k.line < c.line || k.index + 1024 < c.index

/-- Drops a candidate that is too far back, unless it had to be a key. -/
def refreshed (c : Cursor) : Option KeyCandidate → Option (Option KeyCandidate)
  | none => some none
  | some k => if isStale c k then (if k.required then none else some none) else some (some k)

/-- Drops the candidates of all levels that are too far back. -/
def dropStale (l : Lexer) : Option Lexer := do
  let candidate ← refreshed l.cursor l.candidate
  let candidates ← l.candidates.mapM (refreshed l.cursor)
  return { l with candidate := candidate, candidates := candidates }

/-- Passes over white space, comments and line breaks to the next token.  Tabs separate
only where no key may begin. -/
def toNextToken : Nat → Lexer → Lexer
  | 0, l => l
  | fuel + 1, l =>
      let c := l.cursor
      let c := if c.column == 0 && c.peek 0 = some '\ufeff' then c.next else c
      let tabs := l.inFlow || !l.keyAllowed
      let c := (c.takeWhile fun x => x == ' ' || (tabs && x == '\t')).2.skipComment
      match c.rest with
      | x :: _ =>
          if isBreak x then
            toNextToken fuel
              { l with cursor := c.nextLine, keyAllowed := l.keyAllowed || !l.inFlow }
          else { l with cursor := c }
      | [] => { l with cursor := c }

/-! ## Tokens one by one -/

/-- The characters of a tag or a prefix, with `%` escapes for bytes of UTF-8 decoded. -/
def uriChar (verbatim : Bool) (c : Char) : Bool :=
  isNameChar c || ";/?:@&=+$.!~*'()%".toList.contains c ||
    (verbatim && (c == ',' || c == '[' || c == ']'))

/-- The byte of a `%` escape. -/
def escapedByte? : List Char → Option (Nat × List Char)
  | '%' :: a :: b :: rest => do return ((← hexDigit? a) * 16 + (← hexDigit? b), rest)
  | _ => none

/-- The character whose UTF-8 bytes are escaped at the start of the input. -/
def escapedChar? (input : List Char) : Option (Char × List Char) := do
  let (b, rest) ← escapedByte? input
  let continuation (rest : List Char) : Option (Nat × List Char) := do
    let (c, rest) ← escapedByte? rest
    if 0x80 ≤ c && c < 0xC0 then some (c - 0x80, rest) else none
  if b < 0x80 then return (← charOfCode? b, rest)
  else if 0xC0 ≤ b && b < 0xE0 then
    let (c1, rest) ← continuation rest
    return (← charOfCode? ((b - 0xC0) * 64 + c1), rest)
  else if 0xE0 ≤ b && b < 0xF0 then
    let (c1, rest) ← continuation rest
    let (c2, rest) ← continuation rest
    return (← charOfCode? (((b - 0xE0) * 64 + c1) * 64 + c2), rest)
  else if 0xF0 ≤ b && b < 0xF8 then
    let (c1, rest) ← continuation rest
    let (c2, rest) ← continuation rest
    let (c3, rest) ← continuation rest
    return (← charOfCode? ((((b - 0xF0) * 64 + c1) * 64 + c2) * 64 + c3), rest)
  else none

def decodeUri : Nat → List Char → Option (List Char)
  | 0, _ => some []
  | _, [] => some []
  | fuel + 1, '%' :: rest => do
      let (c, after) ← escapedChar? ('%' :: rest)
      return c :: (← decodeUri fuel after)
  | fuel + 1, c :: rest => do return c :: (← decodeUri fuel rest)

/-- The characters of a tag at the cursor. -/
def readUri (verbatim : Bool) (c : Cursor) : Option (List Char × Cursor) := do
  let (run, c) := c.takeWhile (uriChar verbatim)
  return (← decodeUri (run.length + 1) run, c)

/-- A handle: `!`, `!!` or `!name!`; without the last mark it may still be the start of a
tag. -/
def readHandle (c : Cursor) : Option (List Char × Cursor) :=
  if c.peek 0 = some '!' then
    let (name, c) := c.next.takeWhile isNameChar
    if c.peek 0 = some '!' then some ('!' :: name ++ ['!'], c.next) else some ('!' :: name, c)
  else none

/-- A tag: `!<verbatim>`, `!handle!suffix`, `!suffix`, or `!` alone, which stands for
itself. -/
def readTag (c : Cursor) : Option (Token × Cursor) :=
  if c.peek 1 = some '<' then do
    let (suffix, c) ← readUri true (c.advance 2)
    if suffix.isEmpty || c.peek 0 != some '>' then none
    else some (.tag "" (String.ofList suffix), c.next)
  else do
    let (handle, afterHandle) ← readHandle c
    if 2 ≤ handle.length && handle.getLast? = some '!' then
      let (suffix, c) ← readUri false afterHandle
      if suffix.isEmpty then none
      else some (.tag (String.ofList handle) (String.ofList suffix), c)
    else
      let (more, c) ← readUri false afterHandle
      let suffix := handle.drop 1 ++ more
      if suffix.isEmpty then some (.tag "" "!", c)
      else some (.tag "!" (String.ofList suffix), c)

/-- An anchor or alias name, with its indicator at the cursor. -/
def readName (c : Cursor) : Option (String × Cursor) :=
  let (name, c) := c.next.takeWhile isNameChar
  let ended :=
    match c.peek 0 with
    | none => true
    | some x => endsWord (some x) || "?:,]\x7d%@`".toList.contains x
  if name.isEmpty || !ended then none else some (String.ofList name, c)

/-- A number of at most nine digits. -/
def readNumber (c : Cursor) : Option (Nat × Cursor) :=
  let (ds, c) := c.takeWhile Char.isDigit
  if ds.isEmpty || 9 < ds.length then none
  else some (ds.foldl (fun acc d => acc * 10 + (d.toNat - '0'.toNat)) 0, c)

/-- A directive, with its `%` at the cursor, up to the end of its line. -/
def readDirective (c : Cursor) : Option (Token × Cursor) := do
  let (name, c) := c.next.takeWhile isNameChar
  if name.isEmpty || !endsWord (c.peek 0) then none
  else
    let (t, c) ←
      if name = ['Y', 'A', 'M', 'L'] then do
        let (major, c) ← readNumber c.skipBlanks
        if c.peek 0 != some '.' then none
        else
          let (minor, c) ← readNumber c.next
          some (Token.versionDirective major minor, c)
      else if name = ['T', 'A', 'G'] then do
        let (handle, c) ← readHandle c.skipBlanks
        if !(handle = ['!'] || (2 ≤ handle.length && handle.getLast? = some '!')) then none
        else if !((c.peek 0).any isBlank) then none
        else
          let (meaning, c) ← readUri true c.skipBlanks
          if meaning.isEmpty || !endsWord (c.peek 0) then none
          else some (Token.tagDirective (String.ofList handle) (String.ofList meaning), c)
      else none
    let c := c.skipBlanks.skipComment
    if c.rest.isEmpty || (c.peek 0).any isBreak then some (t, c.skipBreak) else none

/-- The token of a directive or document mark, outside all collections. -/
def outsideBlocks (l : Lexer) : Option Lexer := do
  let l ← (l.dedent (-1)).dropCandidate
  return { l with keyAllowed := false }

/-- The colon after a key.  If a candidate is open, the key began there; otherwise the
key was announced by `?` or is empty. -/
def readValue (l : Lexer) : Option Lexer :=
  match l.candidate with
  | some k =>
      let l := { l with tokens := l.tokens.insertIdxIfInBounds k.position .key }
      let l := l.openBlock k.column k.position .blockMappingStart
      some ({ l with candidate := none, keyAllowed := false }.emitAt .value l.cursor.next)
  | none =>
      if l.inFlow then some ({ l with keyAllowed := false }.emitAt .value l.cursor.next)
      else if !l.keyAllowed then none
      else
        let l := l.openBlock l.cursor.column l.tokens.size .blockMappingStart
        some ({ l with keyAllowed := true }.emitAt .value l.cursor.next)

def beginsPlain (inFlow : Bool) (x : Char) (next : Option Char) : Bool :=
  !("-?:,[]\x7b\x7d#&*!|>'\"%@`".toList.contains x || isBlank x || isBreak x) ||
    (x == '-' && !next.any isBlank) ||
    (!inFlow && (x == '?' || x == ':') && !endsWord next)

/-- The next token, which begins with `x` at the cursor, followed by `next`. -/
def readToken (l : Lexer) (x : Char) (next : Option Char) : Option Lexer :=
  let c := l.cursor
  if c.column == 0 && x == '%' then do
    let l ← l.outsideBlocks
    let (t, c) ← readDirective c
    return l.emitAt t c
  else if c.isAtMark '-' then do return (← l.outsideBlocks).emitAt .documentStart (c.advance 3)
  else if c.isAtMark '.' then do return (← l.outsideBlocks).emitAt .documentEnd (c.advance 3)
  else if x == '[' || x == '\x7b' then do
    let l ← l.markCandidate
    let t := if x == '[' then Token.flowSequenceStart else Token.flowMappingStart
    return { l with
      candidate := none, candidates := l.candidate :: l.candidates, keyAllowed := true }.emitAt t
        c.next
  else if x == ']' || x == '\x7d' then do
    let l ← l.dropCandidate
    let t := if x == ']' then Token.flowSequenceEnd else Token.flowMappingEnd
    let l :=
      match l.candidates with
      | k :: rest => { l with candidate := k, candidates := rest }
      | [] => l
    return { l with keyAllowed := false }.emitAt t c.next
  else if x == ',' then do
    return { ← l.dropCandidate with keyAllowed := true }.emitAt .flowEntry c.next
  else if x == '-' && endsWord next then
    if !l.inFlow && !l.keyAllowed then none
    else do
      let l := l.openBlock c.column l.tokens.size .blockSequenceStart
      return { ← l.dropCandidate with keyAllowed := true }.emitAt .blockEntry c.next
  else if x == '?' && (l.inFlow || endsWord next) then
    if !l.inFlow && !l.keyAllowed then none
    else do
      let l := l.openBlock c.column l.tokens.size .blockMappingStart
      return { ← l.dropCandidate with keyAllowed := !l.inFlow }.emitAt .key c.next
  else if x == ':' && (l.inFlow || endsWord next) then l.readValue
  else if x == '*' || x == '&' then do
    let l ← l.markCandidate
    let (name, c) ← readName c
    return { l with keyAllowed := false }.emitAt (if x == '*' then .alias name else .anchor name) c
  else if x == '!' then do
    let l ← l.markCandidate
    let (t, c) ← readTag c
    if endsWord (c.peek 0) || (l.inFlow && c.peek 0 = some ',') then
      return { l with keyAllowed := false }.emitAt t c
    else none
  else if !l.inFlow && (x == '|' || x == '>') then do
    let l ← l.dropCandidate
    let (text, c) ← blockText (x == '|') l.indent c
    return { l with keyAllowed := true }.emitAt (.scalar (String.ofList text) false) c
  else if x == '\'' || x == '"' then do
    let l ← l.markCandidate
    let (text, c) ← quotedText (x == '\'') c
    return { l with keyAllowed := false }.emitAt (.scalar (String.ofList text) false) c
  else if beginsPlain l.inFlow x next then do
    let l ← l.markCandidate
    let (text, c, broken) ← plainText l.inFlow (l.indent + 1) c
    return { l with keyAllowed := broken }.emitAt (.scalar (String.ofList text) true) c
  else none

/-- Reads tokens up to the end of the stream.  Every step but the last passes over at
least one character, so fuel for the length of the text is fuel for its line breaks. -/
def readAll : Nat → Lexer → Option (Array Token)
  | 0, _ => none
  | fuel + 1, l => do
      let l ← (toNextToken (fuel + 1) l).dropStale
      let l := l.dedent l.cursor.column
      match l.cursor.rest with
      | [] => do return ((← (l.dedent (-1)).dropCandidate).emit .streamEnd).tokens
      | x :: rest => readAll fuel (← l.readToken x rest.head?)

end Lexer

/-- The tokens of a text; none if it is malformed. -/
def tokens? (text : List Char) : Option (List Token) :=
  if text.all isAllowed then
    (Lexer.readAll (text.length + 1) (Lexer.start text)).map Array.toList
  else none

end EventSourcing.Yaml
