import EventSourcing.Yaml.Node

/-!
# Yaml.Value -- what a document says once its aliases are followed

Anchors are numbered in the order in which they are given, and an alias takes the
number that its name has at that point.  A name that is given again takes the number
of names so far, which the next new name takes too; of two nodes with one number the
later one counts, for all aliases.  Nesting is bounded, so an alias inside the node it
leads to is an error, and so is a document that follows aliases too often.
-/

namespace EventSourcing.Yaml

set_option autoImplicit false

/-- A node without anchors and aliases. -/
inductive Value where
  | scalar (tag : Option String) (text : String) (plain : Bool)
  | sequence (tag : Option String) (items : List Value)
  | mapping (tag : Option String) (entries : List (Value × Value))
  deriving Repr

/-- How deeply a document may nest. -/
def nestingLimit : Nat := 128

/-- How often aliases may be followed for each part of the document. -/
def jumpsPerPart : Nat := 100

namespace Node

/-! ## Numbering anchors -/

/-- The numbers of the names given so far. -/
abbrev Numbering := List (String × Nat)

/-- Gives the anchor of some properties its number. -/
def numberProps (names : Numbering) (props : Properties String) : Properties Nat × Numbering :=
  match props.anchor with
  | none => (⟨none, props.tag⟩, names)
  | some name =>
      (⟨some names.length, props.tag⟩, (name, names.length) :: names.filter (·.1 != name))

mutual

/-- Numbers the anchors of a node.  None if an alias has no anchor before it. -/
def number (names : Numbering) : Node String → Option (Node Nat × Numbering)
  | .alias name => (names.lookup name).map fun n => (.alias n, names)
  | .scalar props text plain =>
      let (props, names) := numberProps names props
      some (.scalar props text plain, names)
  | .sequence props items => do
      let (props, names) := numberProps names props
      let (items, names) ← numberItems names items
      return (.sequence props items, names)
  | .mapping props entries => do
      let (props, names) := numberProps names props
      let (entries, names) ← numberEntries names entries
      return (.mapping props entries, names)

/-- Numbers the anchors of the items of a sequence, in order. -/
def numberItems (names : Numbering) : List (Node String) → Option (List (Node Nat) × Numbering)
  | [] => some ([], names)
  | item :: rest => do
      let (item, names) ← number names item
      let (rest, names) ← numberItems names rest
      return (item :: rest, names)

/-- Numbers the anchors of the entries of a mapping, in order, keys first. -/
def numberEntries (names : Numbering) :
    List (Node String × Node String) → Option (List (Node Nat × Node Nat) × Numbering)
  | [] => some ([], names)
  | (k, v) :: rest => do
      let (k, names) ← number names k
      let (v, names) ← number names v
      let (rest, names) ← numberEntries names rest
      return ((k, v) :: rest, names)

end

/-! ## Following aliases -/

variable {α : Type}

/-- The anchor of some properties with the node it stands at. -/
def ownAnchor (props : Properties α) (node : Node α) : List (α × Node α) :=
  props.anchor.toList.map (·, node)

mutual

/-- The nodes with an anchor, a node before the nodes below it. -/
def anchored : Node α → List (α × Node α)
  | .alias _ => []
  | .scalar props text plain => ownAnchor props (.scalar props text plain)
  | .sequence props items => ownAnchor props (.sequence props items) ++ anchoredItems items
  | .mapping props entries => ownAnchor props (.mapping props entries) ++ anchoredEntries entries

def anchoredItems : List (Node α) → List (α × Node α)
  | [] => []
  | item :: rest => anchored item ++ anchoredItems rest

def anchoredEntries : List (Node α × Node α) → List (α × Node α)
  | [] => []
  | (k, v) :: rest => anchored k ++ anchored v ++ anchoredEntries rest

end

mutual

/-- The number of parts of a node: a scalar and an alias are one, a collection has a
beginning and an end. -/
def parts : Node α → Nat
  | .alias _ => 1
  | .scalar _ _ _ => 1
  | .sequence _ items => partsOfItems items + 2
  | .mapping _ entries => partsOfEntries entries + 2

def partsOfItems : List (Node α) → Nat
  | [] => 0
  | item :: rest => parts item + partsOfItems rest

def partsOfEntries : List (Node α × Node α) → Nat
  | [] => 0
  | (k, v) :: rest => parts k + parts v + partsOfEntries rest

end

/-- Follows an alias: the node it leads to and the jumps that are left. -/
def jump (targets : List (Nat × Node Nat)) (jumps : Nat) : Node Nat → Option (Node Nat × Nat)
  | .alias n =>
      match jumps with
      | 0 => none
      | jumps + 1 => (targets.lookup n).map (·, jumps)
  | node => some (node, jumps)

/-- Applies `f` to each item of a list, handing on the jumps that are left. -/
def forEach {β γ : Type} (f : Nat → β → Option (γ × Nat)) (jumps : Nat) :
    List β → Option (List γ × Nat)
  | [] => some ([], jumps)
  | item :: rest => do
      let (item, jumps) ← f jumps item
      let (rest, jumps) ← forEach f jumps rest
      return (item :: rest, jumps)

/-- The value of a node that nests less than `depth` levels, and the jumps that are left
of `jumps`. -/
def follow (targets : List (Nat × Node Nat)) : Nat → Nat → Node Nat → Option (Value × Nat)
  | 0, _, _ => none
  | depth + 1, jumps, node => do
      match ← jump targets jumps node with
      | (.alias _, _) => none
      | (.scalar props text plain, jumps) => some (.scalar props.tag text plain, jumps)
      | (.sequence props items, jumps) => do
          let (items, jumps) ← forEach (follow targets depth) jumps items
          return (.sequence props.tag items, jumps)
      | (.mapping props entries, jumps) => do
          let entry (jumps : Nat) (e : Node Nat × Node Nat) : Option ((Value × Value) × Nat) := do
            let (k, jumps) ← follow targets depth jumps e.1
            let (v, jumps) ← follow targets depth jumps e.2
            return ((k, v), jumps)
          let (entries, jumps) ← forEach entry jumps entries
          return (.mapping props.tag entries, jumps)

def value? (root : Node String) : Option Value := do
  let (numbered, _) ← number [] root
  let targets := (anchored numbered).reverse
  let (value, _) ← follow targets (nestingLimit + 1) (jumpsPerPart * parts numbered) numbered
  return value

end Node

end EventSourcing.Yaml
