import EventSourcing.NodePath
import EventSourcing.Proofs.Document.Keyed

/-!
# Proofs.Document.Tracing -- what stands at a place of a text

From the root of a text, keys of mappings and positions of lists lead to its nodes
(`Yaml.Value.at?`).  What a document says was read at such a node: each declaration under its
name, each text of a list at its position, each field under its key (`Document.Found`,
`Document.Section`, `Document.Listing`).
-/

namespace EventSourcing

set_option autoImplicit false

open EventSourcing.Yaml (Value)
open EventSourcing.Document.Reader

/-! ## Nodes -/

namespace Yaml.Value

/-- What stands under a key of a mapping, or at a position of a list.  Of several entries with one
key the last one counts. -/
def child? (v : Value) (segment : String) : Option Value :=
  match v with
  | .scalar _ _ _ => none
  | .sequence _ items => (items.zipIdx.find? (toString ·.2 == segment)).map Prod.fst
  | .mapping _ entries => (entries.reverse.find? (text? ·.1 == some segment)).map Prod.snd

/-- What stands where some keys and positions lead to. -/
def at? (v : Value) : List String → Option Value
  | [] => some v
  | segment :: rest => (v.child? segment).bind (·.at? rest)

/-- Nothing is said: the node is null or empty. -/
inductive Vacant : Value → Prop where
  | null {tag : Option String} {text : String} (word : text = "" ∨ isNullWord text.toList = true) :
      Vacant (.scalar tag text true)
  | sequence (tag : Option String) : Vacant (.sequence tag [])
  | mapping (tag : Option String) : Vacant (.mapping tag [])

theorem Vacant.child? {v : Value} (vacant : v.Vacant) (segment : String) :
    v.child? segment = none := by
  cases vacant <;> rfl

theorem at?_concat (v : Value) (path : List String) (segment : String) :
    v.at? (path ++ [segment]) = (v.at? path).bind (·.child? segment) := by
  induction path generalizing v with
  | nil => cases found : v.child? segment <;> simp [at?, found]
  | cons first rest ih =>
      rw [List.cons_append, at?, at?]
      cases v.child? first with
      | none => rfl
      | some node => exact ih node

end Yaml.Value

namespace Document

/-! ## Readers, step by step -/

theorem toString_inj {i j : Nat} : toString i = toString j ↔ i = j := by
  refine ⟨fun same => ?_, congrArg _⟩
  have digits : Nat.toDigits 10 i = Nat.toDigits 10 j := by
    rw [← Nat.toList_repr, ← Nat.toList_repr]
    exact congrArg String.toList same
  calc
    i = Nat.ofDigitChars 10 (Nat.toDigits 10 i) 0 := Nat.ofDigitChars_ten_toDigits.symm
    _ = Nat.ofDigitChars 10 (Nat.toDigits 10 j) 0 := by rw [digits]
    _ = j := Nat.ofDigitChars_ten_toDigits

theorem child?_sequence {tag : Option String} {items : List Value} {i : Nat} {node : Value}
    (here : items[i]? = some node) :
    (Value.sequence tag items).child? (toString i) = some node := by
  have member : (node, i) ∈ items.zipIdx := List.mk_mem_zipIdx_iff_getElem?.2 here
  have distinct : (items.zipIdx.map fun x => toString x.2).Nodup := by
    have positions : (items.zipIdx.map fun x => toString x.2) =
        (items.zipIdx.map Prod.snd).map toString := by rw [List.map_map]; rfl
    rw [positions, List.zipIdx_map_snd]
    exact (List.nodup_range' 1).map fun i j same => toString_inj.1 same
  have found := @find?_key _ (fun x : Value × Nat => toString x.2) _ _ distinct member
  rw [Value.child?, found]
  rfl

section Readers

variable {α : Type} {read : Value → Option α} {v : Value}

theorem exists_of_mapM {ξ : Type} {f : ξ → Option α} {xs : List ξ} {ys : List α}
    (done : xs.mapM f = some ys) {i : Nat} {y : α} (here : ys[i]? = some y) :
    ∃ x, xs[i]? = some x ∧ f x = some y := by
  induction xs generalizing ys i with
  | nil =>
      cases done
      cases here
  | cons x rest ih =>
      simp only [List.mapM_cons, Option.bind_eq_bind, Option.bind_eq_some_iff] at done
      obtain ⟨y', first, ys', later, same⟩ := done
      cases same
      cases i with
      | zero =>
          cases here
          exact ⟨x, rfl, first⟩
      | succ i => exact ih later here

theorem eq_nil_of_mapM {ξ : Type} {f : ξ → Option α} {xs : List ξ} (done : xs.mapM f = some []) :
    xs = [] := by
  cases xs with
  | nil => rfl
  | cons x rest =>
      simp only [List.mapM_cons, Option.bind_eq_bind, Option.bind_eq_some_iff] at done
      obtain ⟨y, _, ys, _, same⟩ := done
      cases same

/-- The texts of a list are read from its items. -/
theorem child?_of_texts? {texts : List String} (done : texts? v = some texts) {i : Nat}
    {text : String} (here : texts[i]? = some text) :
    ∃ node, v.child? (toString i) = some node ∧ text? node = some text := by
  simp only [texts?, Option.bind_eq_bind, Option.bind_eq_some_iff] at done
  obtain ⟨items, listed, done⟩ := done
  obtain ⟨node, there, read⟩ := exists_of_mapM done here
  unfold items? at listed
  split at listed
  · cases listed
    exact ⟨node, child?_sequence there, read⟩
  · cases listed
    cases there
  · cases listed

theorem vacant_of_texts? (done : texts? v = some []) : v.Vacant := by
  simp only [texts?, Option.bind_eq_bind, Option.bind_eq_some_iff] at done
  obtain ⟨items, listed, done⟩ := done
  have empty : items = [] := eq_nil_of_mapM done
  unfold items? at listed
  split at listed
  · cases listed
    subst empty
    exact .sequence _
  · exact .null (.inl rfl)
  · cases listed

theorem optional?_some {a : α} (done : optional? read v = some (some a)) : read v = some a := by
  unfold optional? at done
  split at done
  · dsimp only at done
    split at done
    · cases done
    · cases done
    · simpa using done
  · simpa using done

/-- What is left out is null where it stands. -/
theorem vacant_of_optional? (done : optional? read v = some none) : v.Vacant := by
  unfold optional? at done
  split at done
  · rename_i tag text
    dsimp only at done
    split at done
    · cases done
    · rename_i absent
      refine .null ?_
      cases tag with
      | none => simpa using absent
      | some tag =>
          dsimp only at absent
          split at absent
          · split at absent
            · rename_i word
              exact .inr word
            · cases absent
          · cases absent
    · simp at done
  · simp at done

/-! ## Mappings -/

theorem mem_put_nodup {name : String} {value : α} {decls : Named α}
    (distinct : (names decls).Nodup) {x : String × α} (member : x ∈ put name value decls) :
    x = (name, value) ∨ x.1 ≠ name ∧ x ∈ decls := by
  induction decls with
  | nil => exact .inl (List.mem_singleton.1 member)
  | cons decl rest ih =>
      obtain ⟨fresh, distinct⟩ := List.nodup_cons.1 distinct
      rw [put] at member
      split at member
      · rename_i same
        rcases List.mem_cons.1 member with rfl | later
        · exact .inl (Prod.ext same rfl)
        · refine .inr ⟨fun equal => fresh ?_, List.mem_cons_of_mem _ later⟩
          rw [same, ← equal]
          exact List.mem_map_of_mem later
      · rename_i other
        rcases List.mem_cons.1 member with rfl | later
        · exact .inr ⟨other, List.mem_cons_self⟩
        · exact (ih distinct later).imp_right (And.imp_right (List.mem_cons_of_mem _))

def binding? (read : Value → Option α) (e : Value × Value) : Option (String × α) := do
  return (← text? e.1, ← read e.2)

theorem binding?_eq_some {e : Value × Value} {decl : String × α} :
    binding? read e = some decl ↔ text? e.1 = some decl.1 ∧ read e.2 = some decl.2 := by
  obtain ⟨name, a⟩ := decl
  simp only [binding?, Option.bind_eq_bind, Option.bind_eq_some_iff]
  constructor
  · rintro ⟨name', key, a', value, same⟩
    cases same
    exact ⟨key, value⟩
  · rintro ⟨key, value⟩
    exact ⟨name, key, a, value, rfl⟩

/-- A declaration was read from the last entry under its name. -/
theorem last_of_named {entries : List (Value × Value)} {pairs : List (String × α)}
    (done : entries.mapM (binding? read) = some pairs) {name : String} {a : α}
    (member : (name, a) ∈ named pairs) :
    ∃ e, entries.reverse.find? (text? ·.1 == some name) = some e ∧ read e.2 = some a := by
  induction entries using List.reverseRecOn generalizing pairs with
  | nil =>
      cases done
      cases member
  | append_singleton before e ih =>
      simp only [List.mapM_append, List.mapM_cons, List.mapM_nil, Option.bind_eq_bind,
        Option.bind_eq_some_iff] at done
      obtain ⟨pairs', earlier, last, ⟨decl, here, rest, nil, lastIs⟩, same⟩ := done
      cases nil
      cases lastIs
      cases same
      obtain ⟨key, value⟩ := binding?_eq_some.1 here
      rw [named_concat] at member
      rw [List.reverse_concat, List.find?_cons, key]
      rcases mem_put_nodup (named_spec pairs').1 member with same | ⟨other, member⟩
      · cases same
        rw [beq_self_eq_true]
        exact ⟨e, rfl, value⟩
      · have unequal : (some decl.1 == some name) = false := by simpa using Ne.symm other
        rw [unequal]
        exact ih earlier member

/-- The fields of a structure are those that its keys lead to. -/
theorem find?_fields {entries : List (Value × Value)} {fields : List (String × Value)}
    (done : entries.mapM (binding? some) = some fields) (distinct : (fields.map Prod.fst).Nodup)
    (name : String) :
    (entries.reverse.find? (text? ·.1 == some name)).map Prod.snd = fields.lookup name := by
  induction entries using List.reverseRecOn generalizing fields with
  | nil =>
      cases done
      rfl
  | append_singleton before e ih =>
      simp only [List.mapM_append, List.mapM_cons, List.mapM_nil, Option.bind_eq_bind,
        Option.bind_eq_some_iff] at done
      obtain ⟨fields', earlier, last, ⟨⟨key, child⟩, here, rest, nil, lastIs⟩, same⟩ := done
      cases nil
      cases lastIs
      cases same
      obtain ⟨written, value⟩ : text? e.1 = some key ∧ some e.2 = some child :=
        binding?_eq_some.1 here
      rw [List.map_append, List.map_singleton] at distinct
      rw [List.reverse_concat, List.find?_cons, written, List.lookup_append]
      by_cases same : key = name
      · have fresh : fields'.lookup name = none := by
          refine List.lookup_eq_none_iff.2 fun pair member => ?_
          have apart := (List.nodup_append.1 distinct).2.2 pair.1 (List.mem_map_of_mem member)
            key (List.mem_singleton_self _)
          simpa [← same] using Ne.symm apart
        rw [fresh, same, beq_self_eq_true]
        simp [Option.some.inj value]
      · have unequal : (some key == some name) = false := by simpa using same
        have unequal' : (name == key) = false := by simpa using Ne.symm same
        rw [unequal, ih earlier (List.nodup_append.1 distinct).1, List.lookup_cons, unequal']
        simp

theorem child?_of_fields? {known : List String} {fields : List (String × Value)}
    (done : fields? known v = some fields) (name : String) :
    v.child? name = fields.lookup name := by
  simp only [fields?, Option.bind_eq_bind, Option.bind_eq_some_iff] at done
  obtain ⟨entries, listed, fields', read, checked⟩ := done
  split at checked
  · rename_i sound
    cases checked
    have distinct : (fields.map Prod.fst).Nodup := by
      simpa using (Bool.and_eq_true_iff.1 sound).2
    have found := find?_fields read distinct name
    unfold entries? at listed
    split at listed
    · cases listed
      exact found
    · cases listed
      cases read
      rfl
    · cases listed
  · cases checked

end Readers

/-! ## Places -/

/-- Something was read from the node at a place. -/
def Found {α : Type} (root : Value) (place : NodePath) (read : Value → Option α) (a : α) : Prop :=
  ∃ node, root.at? place.segments = some node ∧ read node = some a

/-- There is a node, but nothing is said under a key of it. -/
def Lacking (root : Value) (parent : NodePath) (key : String) : Prop :=
  (∃ node, root.at? parent.segments = some node) ∧
    ∀ node, root.at? (parent.child key).segments = some node → node.Vacant

/-- Declarations stand under their names in a section. -/
structure Section {α : Type} (root : Value) (parent : NodePath) (key : String)
    (read : Value → Option α) (decls : Named α) : Prop where
  each : ∀ decl ∈ decls, Found root ((parent.child key).child decl.1) read decl.2
  lacking : decls = [] → Lacking root parent key

/-- Texts stand at their positions in a list. -/
structure Listing (root : Value) (parent : NodePath) (key : String) (texts : List String) :
    Prop where
  each : ∀ i text, texts[i]? = some text → Found root ((parent.child key).item i) text? text
  listed : texts ≠ [] → Found root (parent.child key) texts? texts
  lacking : texts = [] → Lacking root parent key

section Places

variable {α : Type} {read : Value → Option α} {root : Value} {place : NodePath} {key : String}

theorem at?_child {node : Value} (here : root.at? place.segments = some node) (key : String) :
    root.at? (place.child key).segments = node.child? key := by
  rw [NodePath.segments_child, Value.at?_concat, here]
  rfl

/-- Where nothing is said, nothing is said under any key. -/
theorem lacking_of_node {node : Value} (here : root.at? place.segments = some node)
    (vacant : node.Vacant) (key : String) : Lacking root place key := by
  refine ⟨⟨node, here⟩, fun v there => ?_⟩
  rw [at?_child here, vacant.child?] at there
  cases there

theorem Found.given {a : α} (found : Found root place (optional? read) (some a)) :
    Found root place read a := by
  obtain ⟨node, here, done⟩ := found
  exact ⟨node, here, optional?_some done⟩

theorem Found.item {texts : List String} (found : Found root place texts? texts) {i : Nat}
    {text : String} (there : texts[i]? = some text) : Found root (place.item i) text? text := by
  obtain ⟨node, here, done⟩ := found
  obtain ⟨item, child, read⟩ := child?_of_texts? done there
  exact ⟨item, (at?_child here _).trans child, read⟩

theorem Found.declaration {decls : Named α} (found : Found root place (named? read) decls)
    {decl : String × α} (member : decl ∈ decls) : Found root (place.child decl.1) read decl.2 := by
  obtain ⟨node, here, done⟩ := found
  simp only [named?, Option.bind_eq_bind, Option.bind_eq_some_iff] at done
  obtain ⟨entries, listed, pairs, done, same⟩ := done
  cases same
  obtain ⟨e, last, value⟩ := last_of_named done member
  refine ⟨e.2, (at?_child here _).trans ?_, value⟩
  unfold entries? at listed
  split at listed
  · cases listed
    rw [Value.child?, last]
    rfl
  · cases listed
    cases last
  · cases listed

theorem put_ne_nil (name : String) (a : α) (decls : Named α) : put name a decls ≠ [] := by
  cases decls with
  | nil => exact List.cons_ne_nil _ _
  | cons decl rest =>
      rw [put]
      split <;> exact List.cons_ne_nil _ _

theorem eq_nil_of_named {pairs : List (String × α)} (empty : named pairs = []) : pairs = [] := by
  rcases List.eq_nil_or_concat pairs with rfl | ⟨before, last, rfl⟩
  · rfl
  · rw [List.concat_eq_append, named_concat] at empty
    exact absurd empty (put_ne_nil last.1 last.2 _)

theorem vacant_of_named? {v : Value} (done : named? read v = some []) : v.Vacant := by
  simp only [named?, Option.bind_eq_bind, Option.bind_eq_some_iff] at done
  obtain ⟨entries, listed, pairs, done, same⟩ := done
  have empty : pairs = [] := eq_nil_of_named (Option.some.inj same)
  subst empty
  have empty : entries = [] := eq_nil_of_mapM done
  unfold entries? at listed
  split at listed
  · cases listed
    subst empty
    exact .mapping _
  · exact .null (.inl rfl)
  · cases listed

/-- What is read of a field that has a default. -/
theorem field?_cases {fields : List (String × Value)} {default a : α}
    (done : field? fields key default read = some a) :
    (fields.lookup key = none ∧ a = default) ∨
      ∃ v, fields.lookup key = some v ∧ read v = some a := by
  unfold field? at done
  split at done
  · rename_i absent
    exact .inl ⟨absent, (Option.some.inj done).symm⟩
  · rename_i v present
    exact .inr ⟨v, present, done⟩

section Fields

variable {known : List String} {fields : List (String × Value)} {node : Value}

theorem lacking_of_lookup (here : root.at? place.segments = some node)
    (struct : fields? known node = some fields) (absent : fields.lookup key = none) :
    Lacking root place key := by
  refine ⟨⟨node, here⟩, fun v there => ?_⟩
  rw [at?_child here, child?_of_fields? struct, absent] at there
  cases there

theorem lacking_of_vacant (here : root.at? place.segments = some node)
    (struct : fields? known node = some fields) {v : Value} (present : fields.lookup key = some v)
    (vacant : v.Vacant) : Lacking root place key := by
  refine ⟨⟨node, here⟩, fun v' there => ?_⟩
  rw [at?_child here, child?_of_fields? struct, present] at there
  cases there
  exact vacant

theorem found_of_lookup (here : root.at? place.segments = some node)
    (struct : fields? known node = some fields) {v : Value} (present : fields.lookup key = some v)
    {a : α} (done : read v = some a) : Found root (place.child key) read a := by
  refine ⟨v, ?_, done⟩
  rw [at?_child here, child?_of_fields? struct, present]

/-- The declarations of a section that may be left out. -/
theorem section_of_field? (here : root.at? place.segments = some node)
    (struct : fields? known node = some fields) {decls : Option (Named α)}
    (done : field? fields key none (optional? (named? read)) = some decls) :
    Section root place key read (decls.getD []) := by
  rcases field?_cases done with ⟨absent, rfl⟩ | ⟨v, present, done⟩
  · exact ⟨fun _ member => (List.not_mem_nil member).elim,
      fun _ => lacking_of_lookup here struct absent⟩
  · cases decls with
    | none =>
        exact ⟨fun _ member => (List.not_mem_nil member).elim,
          fun _ => lacking_of_vacant here struct present (vacant_of_optional? done)⟩
    | some decls =>
        have done := optional?_some done
        have found := found_of_lookup here struct present done
        refine ⟨fun decl member => found.declaration member, fun empty => ?_⟩
        have empty : decls = [] := empty
        subst empty
        exact lacking_of_vacant here struct present (vacant_of_named? done)

/-- The texts of a list that may be left out. -/
theorem listing_of_field? (here : root.at? place.segments = some node)
    (struct : fields? known node = some fields) {texts : List String}
    (done : field? fields key [] texts? = some texts) : Listing root place key texts := by
  rcases field?_cases done with ⟨absent, rfl⟩ | ⟨v, present, done⟩
  · exact ⟨fun i text member => (by cases member), fun filled => absurd rfl filled,
      fun _ => lacking_of_lookup here struct absent⟩
  · have found := found_of_lookup here struct present done
    refine ⟨fun i text there => found.item there, fun _ => found, fun empty => ?_⟩
    subst empty
    exact lacking_of_vacant here struct present (vacant_of_texts? done)

/-- The text of a field that may be left out. -/
theorem found_of_field? (here : root.at? place.segments = some node)
    (struct : fields? known node = some fields) {a : α}
    (done : field? fields key none (optional? read) = some (some a)) :
    Found root (place.child key) read a := by
  rcases field?_cases done with ⟨_, nothing⟩ | ⟨v, present, done⟩
  · cases nothing
  · exact found_of_lookup here struct present (optional?_some done)

end Fields

end Places

/-! ## Documents -/

structure Projection.At (root : Value) (place : NodePath) (p : Projection) : Prop where
  states : Listing root place "states" p.states
  properties : Section root place "properties" property? p.propertyDecls
  createOn : Found root (place.child "createOn") text? p.createOn
  transitions : Section root place "transitions" texts? p.transitionDecls

structure Method.At (root : Value) (place : NodePath) (m : Method) : Prop where
  input : ∀ reference, m.input = some reference → Found root (place.child "in") text? reference
  output : ∀ reference, m.output = some reference → Found root (place.child "out") text? reference
  kind : ∀ word, m.kind = some word → Found root (place.child "type") text? word
  emits : Listing root place "emits" m.emits

structure Service.At (root : Value) (place : NodePath) (s : Service) : Prop where
  projections : Listing root place "projections" s.projections
  methods : Section root place "methods" (optional? method?) (s.methods.getD [])

structure At (root : Value) (d : Document) : Prop where
  events : Section root .root "events" (optional? (named? property?)) d.eventDecls
  projections : Section root .root "projections" projection? d.projectionDecls
  services : Section root .root "services" service? d.serviceDecls

/-- A text holds a document. -/
def HeldBy (root : Value) (d : Document) : Prop :=
  (optional? document? root).map (·.getD .empty) = some d

variable {root : Value} {place : NodePath}

theorem Found.projection {p : Projection} (found : Found root place projection? p) :
    p.At root place := by
  obtain ⟨node, here, done⟩ := found
  simp only [projection?, Option.bind_eq_bind, Option.bind_eq_some_iff] at done
  obtain ⟨fields, struct, states, readStates, props, readProps, createOnValue, present, createOn,
    readCreateOn, ts, readTs, same⟩ := done
  cases same
  exact {
    states := listing_of_field? here struct readStates
    properties := section_of_field? here struct readProps
    createOn := found_of_lookup here struct present readCreateOn
    transitions := section_of_field? here struct readTs }

theorem Found.method {m : Method} (found : Found root place method? m) : m.At root place := by
  obtain ⟨node, here, done⟩ := found
  simp only [method?, Option.bind_eq_bind, Option.bind_eq_some_iff] at done
  obtain ⟨fields, struct, input, readInput, output, readOutput, kind, readKind, emits, readEmits,
    same⟩ := done
  cases same
  exact {
    input := fun reference given => found_of_field? here struct (given ▸ readInput)
    output := fun reference given => found_of_field? here struct (given ▸ readOutput)
    kind := fun word given => found_of_field? here struct (given ▸ readKind)
    emits := listing_of_field? here struct readEmits }

theorem Found.service {s : Service} (found : Found root place service? s) : s.At root place := by
  obtain ⟨node, here, done⟩ := found
  simp only [service?, Option.bind_eq_bind, Option.bind_eq_some_iff] at done
  obtain ⟨fields, struct, projections, readProjections, methods, readMethods, same⟩ := done
  cases same
  exact {
    projections := listing_of_field? here struct readProjections
    methods := section_of_field? here struct readMethods }

/-- In every text that holds a document, what the document says stands at its places. -/
theorem at_of_heldBy {d : Document} (held : HeldBy root d) : d.At root := by
  obtain ⟨o, done, same⟩ := Option.map_eq_some_iff.1 held
  have here : root.at? NodePath.root.segments = some root := rfl
  cases o with
  | none =>
      cases same
      have vacant := vacant_of_optional? done
      have lacking {α : Type} (read : Value → Option α) (key : String) :
          Section root .root key read [] :=
        ⟨fun _ member => (List.not_mem_nil member).elim, fun _ => lacking_of_node here vacant key⟩
      exact ⟨lacking _ "events", lacking _ "projections", lacking _ "services"⟩
  | some d' =>
      cases same
      have done := optional?_some done
      simp only [document?, Option.bind_eq_bind, Option.bind_eq_some_iff] at done
      obtain ⟨fields, struct, events, readEvents, projections, readProjections, services,
        readServices, same⟩ := done
      cases same
      exact {
        events := section_of_field? here struct readEvents
        projections := section_of_field? here struct readProjections
        services := section_of_field? here struct readServices }

end Document

end EventSourcing
