import EventSourcing.Yaml.Lexer

/-!
# Yaml.Node -- documents as trees

The grammar of YAML over tokens.  Each function below is one rule of it: it takes the
tokens that are left and returns the tree it recognised and the tokens after it.
Missing contents are empty plain scalars.  Aliases stay in the tree; `Yaml.Value`
follows them.
-/

namespace EventSourcing.Yaml

set_option autoImplicit false

/-- What may stand before the content of a node, with anchors named by `α`. -/
structure Properties (α : Type) where
  anchor : Option α
  tag : Option String
  deriving DecidableEq, Repr

namespace Properties

variable {α : Type}

def none : Properties α := ⟨.none, .none⟩

def isNone (p : Properties α) : Bool := p.anchor.isNone && p.tag.isNone

end Properties

/-- A node of a document, with anchors named by `α`. -/
inductive Node (α : Type) where
  | scalar (props : Properties α) (text : String) (plain : Bool)
  | sequence (props : Properties α) (items : List (Node α))
  | mapping (props : Properties α) (entries : List (Node α × Node α))
  | alias (name : α)
  deriving Repr

/-- The node that stands for a missing content. -/
def Node.empty {α : Type} : Node α := .scalar .none "" true

/-- The handles a document knows: a handle and what it stands for. -/
abbrev Handles := List (String × String)

/-- The handles known to every document. -/
def standardHandles : Handles := [("!", "!"), ("!!", "tag:yaml.org,2002:")]

/-- What kinds of content a rule admits. -/
structure Allowed where
  /-- Block collections. -/
  block : Bool
  /-- Sequences that are not indented below the key before them. -/
  indentless : Bool

namespace Allowed

def flow : Allowed := ⟨false, false⟩
def inBlock : Allowed := ⟨true, false⟩
def atKey : Allowed := ⟨true, true⟩

end Allowed

def resolveTag (handles : Handles) (handle suffix : String) : Option String :=
  if handle = "" then some suffix else (handles.lookup handle).map (· ++ suffix)

/-- An anchor and a tag, in either order. -/
def readProperties (handles : Handles) : List Token → Option (Properties String × List Token)
  | .anchor a :: .tag h s :: rest =>
      (resolveTag handles h s).map fun t => (⟨some a, some t⟩, rest)
  | .tag h s :: .anchor a :: rest =>
      (resolveTag handles h s).map fun t => (⟨some a, some t⟩, rest)
  | .anchor a :: rest => some (⟨some a, none⟩, rest)
  | .tag h s :: rest => (resolveTag handles h s).map fun t => (⟨none, some t⟩, rest)
  | rest => some (.none, rest)

/-- A scalar's tag `!` only says that the text is no tag of its own. -/
def scalarNode (props : Properties String) (text : String) (plain : Bool) : Node String :=
  if props.tag = some "!" then .scalar { props with tag := none } text plain
  else .scalar props text plain

mutual

/-- A node.  The fuel bounds the number of nested calls. -/
def node (handles : Handles) : Nat → Allowed → List Token → Option (Node String × List Token)
  | 0, _, _ => none
  | fuel + 1, allowed, tokens =>
      match tokens with
      | .alias name :: rest => some (.alias name, rest)
      | _ => do
          let (props, rest) ← readProperties handles tokens
          match rest with
          | .scalar text plain :: rest => some (scalarNode props text plain, rest)
          | .flowSequenceStart :: rest => do
              let (items, rest) ← flowItems handles fuel true rest
              return (.sequence props items, rest)
          | .flowMappingStart :: rest => do
              let (entries, rest) ← flowEntries handles fuel true rest
              return (.mapping props entries, rest)
          | .blockEntry :: _ =>
              if allowed.indentless then do
                let (items, rest) ← indentlessItems handles fuel rest
                return (.sequence props items, rest)
              else missing props rest
          | .blockSequenceStart :: after =>
              if allowed.block then do
                let (items, rest) ← blockItems handles fuel after
                return (.sequence props items, rest)
              else missing props rest
          | .blockMappingStart :: after =>
              if allowed.block then do
                let (entries, rest) ← blockEntries handles fuel after
                return (.mapping props entries, rest)
              else missing props rest
          | _ => missing props rest
where
  /-- Properties may stand alone; nothing at all is an error. -/
  missing (props : Properties String) (rest : List Token) : Option (Node String × List Token) :=
    if props.isNone then none else some (scalarNode props "" true, rest)

def blockItems (handles : Handles) : Nat → List Token → Option (List (Node String) × List Token)
  | 0, _ => none
  | _ + 1, .blockEnd :: rest => some ([], rest)
  | fuel + 1, .blockEntry :: rest => do
      let (item, rest) ←
        match rest with
        | .blockEntry :: _ => some (Node.empty, rest)
        | .blockEnd :: _ => some (Node.empty, rest)
        | _ => node handles fuel .inBlock rest
      let (items, rest) ← blockItems handles fuel rest
      return (item :: items, rest)
  | _ + 1, _ => none

/-- The items of a sequence at the indentation of the key before it. -/
def indentlessItems (handles : Handles) :
    Nat → List Token → Option (List (Node String) × List Token)
  | 0, _ => none
  | fuel + 1, .blockEntry :: rest => do
      let (item, rest) ←
        match rest with
        | .blockEntry :: _ => some (Node.empty, rest)
        | .blockEnd :: _ => some (Node.empty, rest)
        | .key :: _ => some (Node.empty, rest)
        | .value :: _ => some (Node.empty, rest)
        | _ => node handles fuel .inBlock rest
      let (items, rest) ← indentlessItems handles fuel rest
      return (item :: items, rest)
  | _ + 1, rest => some ([], rest)

def blockEntries (handles : Handles) :
    Nat → List Token → Option (List (Node String × Node String) × List Token)
  | 0, _ => none
  | _ + 1, .blockEnd :: rest => some ([], rest)
  | fuel + 1, .key :: rest => do
      let (k, rest) ← blockPart handles fuel rest
      let (v, rest) ←
        match rest with
        | .value :: rest => blockPart handles fuel rest
        | _ => some (Node.empty, rest)
      let (entries, rest) ← blockEntries handles fuel rest
      return ((k, v) :: entries, rest)
  | _ + 1, _ => none

/-- The key or the value of an entry of a block mapping, which may be missing. -/
def blockPart (handles : Handles) : Nat → List Token → Option (Node String × List Token)
  | 0, _ => none
  | fuel + 1, rest =>
      match rest with
      | .key :: _ => some (Node.empty, rest)
      | .value :: _ => some (Node.empty, rest)
      | .blockEnd :: _ => some (Node.empty, rest)
      | _ => node handles fuel .atKey rest

/-- The items of a flow sequence, up to its closing bracket.  An item with a key is a
mapping of one entry. -/
def flowItems (handles : Handles) :
    Nat → Bool → List Token → Option (List (Node String) × List Token)
  | 0, _, _ => none
  | fuel + 1, first, tokens =>
      match tokens with
      | .flowSequenceEnd :: rest => some ([], rest)
      | _ => do
          let rest ←
            if first then some tokens
            else
              match tokens with
              | .flowEntry :: rest => some rest
              | _ => none
          match rest with
          | .flowSequenceEnd :: rest => some ([], rest)
          | .key :: rest => do
              let (item, rest) ← flowPair handles fuel rest
              let (items, rest) ← flowItems handles fuel false rest
              return (item :: items, rest)
          | _ => do
              let (item, rest) ← node handles fuel .flow rest
              let (items, rest) ← flowItems handles fuel false rest
              return (item :: items, rest)

/-- A mapping of one entry inside a flow sequence, after its key token.  The token after
a missing key belongs to it. -/
def flowPair (handles : Handles) : Nat → List Token → Option (Node String × List Token)
  | 0, _ => none
  | fuel + 1, tokens => do
      let (k, rest) ←
        match tokens with
        | .value :: rest => some (Node.empty, rest)
        | .flowEntry :: rest => some (Node.empty, rest)
        | .flowSequenceEnd :: rest => some (Node.empty, rest)
        | _ => node handles fuel .flow tokens
      let (v, rest) ←
        match rest with
        | .value :: rest =>
            match rest with
            | .flowEntry :: _ => some (Node.empty, rest)
            | .flowSequenceEnd :: _ => some (Node.empty, rest)
            | _ => node handles fuel .flow rest
        | _ => some (Node.empty, rest)
      return (.mapping .none [(k, v)], rest)

def flowEntries (handles : Handles) :
    Nat → Bool → List Token → Option (List (Node String × Node String) × List Token)
  | 0, _, _ => none
  | fuel + 1, first, tokens =>
      match tokens with
      | .flowMappingEnd :: rest => some ([], rest)
      | _ => do
          let rest ←
            if first then some tokens
            else
              match tokens with
              | .flowEntry :: rest => some rest
              | _ => none
          match rest with
          | .flowMappingEnd :: rest => some ([], rest)
          | .key :: rest => do
              let (k, rest) ←
                match rest with
                | .value :: _ => some (Node.empty, rest)
                | .flowEntry :: _ => some (Node.empty, rest)
                | .flowMappingEnd :: _ => some (Node.empty, rest)
                | _ => node handles fuel .flow rest
              let (v, rest) ←
                match rest with
                | .value :: rest =>
                    match rest with
                    | .flowEntry :: _ => some (Node.empty, rest)
                    | .flowMappingEnd :: _ => some (Node.empty, rest)
                    | _ => node handles fuel .flow rest
                | _ => some (Node.empty, rest)
              let (entries, rest) ← flowEntries handles fuel false rest
              return ((k, v) :: entries, rest)
          | _ => do
              let (k, rest) ← node handles fuel .flow rest
              let (entries, rest) ← flowEntries handles fuel false rest
              return ((k, Node.empty) :: entries, rest)

end

/-! ## Documents -/

/-- The directives before a document: its handles and the tokens after them.  A handle
may be set once, and so may the version. -/
def readDirectives : Bool → Handles → List Token → Option (Handles × List Token)
  | seen, handles, .versionDirective major minor :: rest =>
      if seen || major != 1 || !(minor == 1 || minor == 2) then none
      else readDirectives true handles rest
  | seen, handles, .tagDirective handle meaning :: rest =>
      if (handles.lookup handle).isSome then none
      else readDirectives seen ((handle, meaning) :: handles) rest
  | _, handles, rest => some (handles, rest)

/-- The content of a document after its mark. -/
def documentContent (handles : Handles) (fuel : Nat) (tokens : List Token) :
    Option (Node String × List Token) :=
  match tokens with
  | .versionDirective _ _ :: _ => some (Node.empty, tokens)
  | .tagDirective _ _ :: _ => some (Node.empty, tokens)
  | .documentStart :: _ => some (Node.empty, tokens)
  | .documentEnd :: _ => some (Node.empty, tokens)
  | .streamEnd :: _ => some (Node.empty, tokens)
  | _ => node handles fuel .inBlock tokens

/-- The marks at the end of documents. -/
def skipEnds : List Token → List Token
  | .documentEnd :: rest => skipEnds rest
  | rest => rest

/-- A document with a mark of its own, after its directives. -/
def markedDocument (fuel : Nat) (tokens : List Token) : Option (Node String × List Token) := do
  let (handles, rest) ← readDirectives false [] tokens
  match rest with
  | .documentStart :: rest => documentContent (handles ++ standardHandles) fuel rest
  | _ => none

def moreDocuments : Nat → List Token → Option (List (Node String))
  | 0, _ => none
  | fuel + 1, tokens =>
      match skipEnds tokens with
      | [.streamEnd] => some []
      | rest => do
          let (d, rest) ← markedDocument fuel rest
          return d :: (← moreDocuments fuel rest)

/-- The documents of a stream.  Only the first may do without a mark. -/
def documents (fuel : Nat) (tokens : List Token) : Option (List (Node String)) :=
  match tokens with
  | [.streamEnd] => some []
  | .versionDirective _ _ :: _ => moreDocuments fuel tokens
  | .tagDirective _ _ :: _ => moreDocuments fuel tokens
  | .documentStart :: _ => moreDocuments fuel tokens
  | _ => do
      let (d, rest) ← node standardHandles fuel .inBlock tokens
      return d :: (← moreDocuments fuel rest)

/-- The documents of a text; none if it is malformed. -/
def documents? (text : String) : Option (List (Node String)) := do
  let tokens ← tokens? text.toList
  documents (4 * tokens.length + 4) tokens

end EventSourcing.Yaml
