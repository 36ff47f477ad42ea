import EventSourcing.Proofs.Event.Derived
import Mathlib.Data.List.Induction

/-!
# Proofs.Event.Coherent -- derived sets are coherent

An enum with fitting variants derives a set unless two variants have one name, and then every
variant whose name was there before is told (`ofDeclaration_eq`).  The cases of the code are
written separately, for the names, the payloads, what is rebuilt and the conversions.  Whatever
does what they say is coherent (`coherent_of_follows`): every variant has a name of its own, by
which its events are rebuilt and nothing else is, and payloads are converted where there is
one variant to convert them to (`mem_conversions`).  Main statement: `derived_set_coherent`.
-/

namespace EventSourcing

set_option autoImplicit false

namespace Derive

open EventSourcing.Source

/-! ## Attributes -/

def givenItems (attributes : List Attribute) : List NestedItem :=
  (eventAttributes attributes).flatMap fun a => (itemsOf? a).getD []

def givenName? (attributes : List Attribute) : Option String :=
  match givenItems attributes with
  | [.item ["name"] form] => itemText? form
  | _ => none

/-- Event attributes of a variant as they should be: lists of items that give nothing, or a name
and nothing else. -/
structure WellFormed (attributes : List Attribute) : Prop where
  lists : ∀ a ∈ eventAttributes attributes, (itemsOf? a).isSome
  items : givenItems attributes = [] ∨
    ∃ form name, givenItems attributes = [.item ["name"] form] ∧ itemText? form = some name

variable {attributes : List Attribute}

/-- Reading attributes is reading their items one after the other. -/
theorem readAttributes_eq (lists : ∀ a ∈ eventAttributes attributes, (itemsOf? a).isSome) :
    readAttributes attributes = (givenItems attributes).foldl Reading.item ⟨false, none, []⟩ := by
  have each (as : List Attribute) (lists : ∀ a ∈ as, (itemsOf? a).isSome) (r : Reading) :
      as.foldl Reading.attribute r =
        (as.flatMap fun a => (itemsOf? a).getD []).foldl Reading.item r := by
    induction as generalizing r with
    | nil => rfl
    | cons a rest ih =>
        obtain ⟨first, later⟩ := List.forall_mem_cons.1 lists
        obtain ⟨items, listed⟩ := Option.isSome_iff_exists.1 first
        rw [List.foldl_cons, List.flatMap_cons, List.foldl_append, ih later, Reading.attribute,
          listed]
        rfl
  exact each _ lists _

theorem readAttributes_of_wellFormed (well : WellFormed attributes) :
    (readAttributes attributes).name = givenName? attributes ∧
      (readAttributes attributes).problems = [] := by
  rw [readAttributes_eq well.lists, givenName?]
  rcases well.items with nothing | ⟨form, name, items, text⟩
  · rw [nothing]
    exact ⟨rfl, rfl⟩
  · have read : Reading.item ⟨false, none, []⟩ (.item ["name"] form) = ⟨true, some name, []⟩ := by
      rw [Reading.item, text]
      rfl
    rw [items, List.foldl_cons, read]
    exact ⟨text.symm, rfl⟩

/-! ## Variants -/

/-- The name of an event: the one that is given, or else that of the variant. -/
def effectiveName (v : Variant) : String :=
  (givenName? v.attributes).getD v.name

def carried (v : Variant) : Option (List Tree) :=
  match v.fields with
  | .tuple [type] => some type
  | _ => none

/-- A variant that carries nothing or one payload, with attributes as they should be. -/
structure Fits (v : Variant) : Prop where
  attributes : WellFormed v.attributes
  fields : v.fields = .unit ∨ ∃ type, v.fields = .tuple [type]

def memberOf (v : Variant) : Member :=
  ⟨v.name, effectiveName v, carried v⟩

variable {v : Variant}

theorem payload?_of_fits (fits : Fits v) : payload? v = some (carried v) := by
  rcases fits.fields with unit | ⟨type, tuple⟩
  · rw [payload?, carried, unit]
  · rw [payload?, carried, tuple]

theorem member?_of_fits (fits : Fits v) : member? v = some (memberOf v) := by
  rw [member?, payload?_of_fits fits, (readAttributes_of_wellFormed fits.attributes).1]
  rfl

/-- A variant carries a payload exactly if that is its only field. -/
theorem carried_eq_some {type : List Tree} : carried v = some type ↔ v.fields = .tuple [type] := by
  unfold carried
  split
  · rename_i type' tuple
    rw [tuple, Option.some_inj, Fields.tuple.injEq, List.cons_eq_cons, and_iff_left rfl]
  · rename_i other
    exact ⟨fun empty => (Option.some_ne_none _ empty.symm).elim, fun tuple => (other _ tuple).elim⟩

/-! ## Repeated names -/

/-- The names that occurred before, in the order of their later occurrences. -/
def repeats (names : List String) : List String :=
  (names.zipIdx.filter fun (name, i) => name ∈ names.take i).map (·.1)

theorem repeats_concat (names : List String) (last : String) :
    repeats (names ++ [last]) = repeats names ++ if last ∈ names then [last] else [] := by
  have before : ∀ x ∈ names.zipIdx,
      decide (x.1 ∈ (names ++ [last]).take x.2) = decide (x.1 ∈ names.take x.2) := by
    rintro ⟨name, i⟩ listed
    rw [List.take_append_of_le_length (Nat.le_of_lt (List.snd_lt_of_mem_zipIdx listed))]
  rw [repeats, List.zipIdx_append, List.filter_append, List.map_append, repeats,
    List.filter_congr before]
  congr 1
  by_cases again : last ∈ names <;> simp [again]

theorem duplicates_concat (seen : List String) (members : List Member) (last : Member) :
    duplicates seen (members ++ [last]) = duplicates seen members ++
      if last.name ∈ seen ++ members.map (·.name) then [.duplicateName last.name] else [] := by
  induction members generalizing seen with
  | nil =>
      rw [List.nil_append, List.map_nil, List.append_nil, duplicates]
      by_cases again : last.name ∈ seen <;> simp [again, duplicates]
  | cons m rest ih =>
      rw [List.cons_append, duplicates, duplicates]
      by_cases again : m.name ∈ seen
      · rw [if_pos (List.contains_iff_mem.2 again), if_pos (List.contains_iff_mem.2 again), ih]
        refine congrArg (_ :: duplicates seen rest ++ ·) (if_congr ?_ rfl rfl)
        grind
      · rw [if_neg (again ∘ List.contains_iff_mem.1), if_neg (again ∘ List.contains_iff_mem.1), ih]
        refine congrArg (duplicates (m.name :: seen) rest ++ ·) (if_congr ?_ rfl rfl)
        grind

/-- Every member whose name was there before is told, in order. -/
theorem duplicates_eq (members : List Member) :
    duplicates [] members = (repeats (members.map (·.name))).map .duplicateName := by
  induction members using List.reverseRecOn with
  | nil => rfl
  | append_singleton members last ih =>
      rw [duplicates_concat, ih, List.map_append, List.map_singleton, repeats_concat,
        List.map_append]
      congr 1
      by_cases again : last.name ∈ members.map (·.name) <;> simp [again]

/-! ## What is derived -/

variable {variants : List Variant}

theorem enumProblems_of_plain (plain : ∀ a ∈ eventAttributes attributes, itemsOf? a = some []) :
    enumProblems attributes = [] := by
  rw [enumProblems, List.flatMap_eq_nil_iff]
  intro a event
  rw [plain a event]
  rfl

/-- What the variants of an enum declare, or what is wrong with them. -/
theorem membersOf_eq (plain : ∀ a ∈ eventAttributes attributes, itemsOf? a = some [])
    (fit : ∀ v ∈ variants, Fits v) :
    membersOf attributes variants =
      if variants = [] then .error [.noVariants]
      else if repeats (variants.map effectiveName) = [] then .ok (variants.map memberOf)
      else .error ((repeats (variants.map effectiveName)).map .duplicateName) := by
  have shapes : shapeProblems variants = [] := by
    rw [shapeProblems, List.map_eq_nil_iff, List.filter_eq_nil_iff]
    intro v listed
    rw [payload?_of_fits (fit v listed)]
    exact Bool.false_ne_true
  have given : (variants.flatMap fun v => (readAttributes v.attributes).problems) = [] :=
    List.flatMap_eq_nil_iff.2 fun v listed =>
      (readAttributes_of_wellFormed (fit v listed).attributes).2
  have members : variants.filterMap member? = variants.map memberOf := by
    rw [← List.filterMap_eq_map]
    exact List.filterMap_congr fun v listed => member?_of_fits (fit v listed)
  have repeated : duplicates [] (variants.map memberOf) =
      (repeats (variants.map effectiveName)).map .duplicateName := by
    rw [duplicates_eq, List.map_map]
    rfl
  rw [membersOf, enumProblems_of_plain plain, shapes, given, members]
  dsimp only
  rw [repeated]
  simp only [List.append_nil, List.isEmpty_nil, Bool.not_true, Bool.false_eq_true, if_false,
    List.isEmpty_map, List.isEmpty_iff]

/-! ## Sets that do what the cases say -/

section

variable {types : List Tree → PayloadType}

abbrev EventOf (types : List Tree → PayloadType) (variants : List Variant) :=
  Event types (variants.map memberOf)

def EventOf.variant (e : EventOf types variants) : Variant :=
  variants.get (e.member.cast (by rw [List.length_map, List.length_map]))

def EventOf.payload (e : EventOf types variants) : PayloadType :=
  (((variants.map memberOf).map (Member.typed types)).get e.member).payload

theorem memberAt_variant (e : EventOf types variants) :
    memberAt e.member = memberOf e.variant := by
  simp [memberAt, EventOf.variant]

/-- A set of events in which every variant has its name and its payload, and nothing else is an
event. -/
structure Coherent (set : EventSet (EventOf types variants)) : Prop where
  names : set.names = variants.map effectiveName
  distinct : set.names.Nodup
  name : ∀ e, set.name e = effectiveName e.variant
  apart : ∀ e e', e.member ≠ e'.member → set.name e ≠ set.name e'
  written : ∀ e, set.toPayload e = e.payload.encode e.value
  /-- An event is rebuilt as the payload of its variant is. -/
  rebuilt : ∀ e payload, set.fromPayload (set.name e) payload =
    (e.payload.decode payload).elim (.error .payload) fun value => .ok ⟨e.member, value⟩
  /-- An event that carries nothing is rebuilt from anything. -/
  unit : ∀ e, e.variant.fields = .unit → ∀ payload, set.fromPayload (set.name e) payload = .ok e
  unknown : ∀ name payload, name ∉ set.names →
    set.fromPayload name payload = .error (.unknownEvent name set.names)
  known : ∀ name payload, name ∈ set.names → ∀ other expected,
    set.fromPayload name payload ≠ .error (.unknownEvent other expected)

variable {set : EventSet (EventOf types variants)}

theorem members_names : (variants.map memberOf).map (·.name) = variants.map effectiveName :=
  List.map_map

theorem members_variants : (variants.map memberOf).map (·.variant) = variants.map (·.name) :=
  List.map_map

/-- Events of one variant are of one member. -/
theorem member_eq (cases : (variants.map (·.name)).Nodup)
    {i j : Fin ((variants.map memberOf).map (Member.typed types)).length}
    (same : (memberAt i).variant = (memberAt j).variant) : i = j := by
  rw [← members_variants] at cases
  have again : memberAt i = memberAt j :=
    List.inj_on_of_nodup_map cases (memberAt_mem i) (memberAt_mem j) same
  have place := List.nodup_iff_injective_get.1 (cases.of_map _) again
  exact Fin.ext (by simpa using congrArg Fin.val place)

theorem name_of_follows (follows : Follows set) (cases : (variants.map (·.name)).Nodup)
    (e : EventOf types variants) : set.name e = (memberAt e.member).name := by
  rw [← members_variants] at cases
  have first := firstCase_map nameCase_variant cases (memberAt_mem e.member)
  rw [nameCase_name, follows.name, Option.some_inj] at first
  exact first

/-- A payload type that carries nothing reads anything as the one value that there is. -/
theorem decode_none {type : PayloadType} (nothing : type = .none) (value : type.Carrier)
    (payload : Json) : type.decode payload = some value := by
  subst nothing
  rfl

theorem payload_none {i : Fin ((variants.map memberOf).map (Member.typed types)).length}
    (nothing : (memberAt i).payload = none) :
    (((variants.map memberOf).map (Member.typed types)).get i).payload = .none := by
  rw [get_typed, Member.typed, nothing]
  rfl

theorem written_of_follows (follows : Follows set) (cases : (variants.map (·.name)).Nodup)
    (e : EventOf types variants) : set.toPayload e = e.payload.encode e.value := by
  rw [← members_variants] at cases
  obtain ⟨writing, found, gives⟩ := follows.written e
  rw [firstCase_map payloadCase_variant cases (memberAt_mem e.member), Option.some_inj] at found
  subst found
  rw [Member.payloadCase] at gives
  split at gives
  · exact gives
  · rename_i nothing
    have empty (type : PayloadType) (nothing : type = .none) (value : type.Carrier) :
        type.encode value = .ok (.obj []) := by
      subst nothing
      rfl
    exact gives.trans (empty _ (payload_none nothing) e.value).symm

/-- The name of a member and a payload give an event of it, or the payload does not fit. -/
theorem rebuilt_of_follows (follows : Follows set) (cases : (variants.map (·.name)).Nodup)
    (names : (variants.map effectiveName).Nodup)
    (i : Fin ((variants.map memberOf).map (Member.typed types)).length) (payload : Json) :
    set.fromPayload (memberAt i).name payload =
      ((((variants.map memberOf).map (Member.typed types)).get i).payload.decode payload).elim
        (.error .payload) fun value => .ok ⟨i, value⟩ := by
  rw [← members_names] at names
  have gives := follows.rebuilt _ payload _
    (firstCase_map rebuildCase_name names (memberAt_mem i))
  rw [Member.rebuildCase] at gives
  split at gives
  · obtain ⟨j, same, gives⟩ := gives
    cases member_eq cases same
    exact gives
  · rename_i nothing
    obtain ⟨⟨j, value⟩, same, gives⟩ := gives
    cases member_eq cases same
    rw [gives, decode_none (payload_none nothing) value payload]
    rfl

/-- Whatever does what the generated cases say is coherent. -/
theorem coherent_of_follows (follows : Follows set) (cases : (variants.map (·.name)).Nodup)
    (names : (variants.map effectiveName).Nodup) : Coherent set := by
  have name := name_of_follows follows cases
  have rebuilt := rebuilt_of_follows follows cases names
  constructor
  case names => exact follows.names.trans members_names
  case distinct => rwa [follows.names, members_names]
  case name =>
    intro e
    rw [name, memberAt_variant]
    rfl
  case apart =>
    intro e e' other same
    rw [name, name] at same
    rw [← members_names] at names
    have again : memberAt e.member = memberAt e'.member :=
      List.inj_on_of_nodup_map names (memberAt_mem _) (memberAt_mem _) same
    exact other (member_eq cases (congrArg Member.variant again))
  case written => exact written_of_follows follows cases
  case rebuilt =>
    intro e payload
    rw [name]
    exact rebuilt e.member payload
  case unit =>
    intro e unit payload
    have nothing : (memberAt e.member).payload = none := by
      rw [memberAt_variant, memberOf, carried, unit]
    rw [name, rebuilt, decode_none (payload_none nothing) e.value payload]
    rfl
  case unknown =>
    intro name payload missing
    refine follows.unknown name payload ((firstCase_eq_none rebuildCase_name).2 ?_)
    intro m declared same
    rw [follows.names, ← same] at missing
    exact missing (List.mem_map_of_mem declared)
  case known =>
    intro name payload listed other expected unknown
    rw [follows.names] at listed
    obtain ⟨m, declared, rfl⟩ := List.mem_map.1 listed
    obtain ⟨k, inside, rfl⟩ := List.getElem_of_mem declared
    have inside_typed : k < ((variants.map memberOf).map (Member.typed types)).length := by
      rwa [List.length_map]
    have read := rebuilt ⟨k, inside_typed⟩ payload
    rw [show (memberAt ⟨k, inside_typed⟩).name = (variants.map memberOf)[k].name from rfl,
      unknown] at read
    generalize PayloadType.decode _ payload = decoded at read
    cases decoded <;> cases read

end

/-! ## Conversions -/

/-- What holds once in a list holds at one place only. -/
theorem countP_eq_one {α : Type} {p : α → Bool} {xs : List α} {i : Nat} {x : α}
    (here : xs[i]? = some x) (holds : p x = true) :
    xs.countP p = 1 ↔ ∀ j y, xs[j]? = some y → p y = true → j = i := by
  induction xs generalizing i with
  | nil => cases here
  | cons first rest ih =>
      cases i with
      | zero =>
          rw [List.getElem?_cons_zero, Option.some_inj] at here
          subst here
          rw [List.countP_cons_of_pos holds, Nat.add_eq_right, List.countP_eq_zero]
          constructor
          · intro nowhere j y there again
            cases j with
            | zero => rfl
            | succ j => exact (nowhere y (List.mem_of_getElem? there) again).elim
          · intro only y later again
            obtain ⟨j, there⟩ := List.mem_iff_getElem?.1 later
            cases only (j + 1) y there again
      | succ i =>
          rw [List.getElem?_cons_succ] at here
          by_cases again : p first = true
          · have later : 0 < rest.countP p :=
              List.countP_pos_iff.2 ⟨x, List.mem_of_getElem? here, holds⟩
            rw [List.countP_cons_of_pos again]
            refine ⟨fun once => by omega, fun only => ?_⟩
            cases only 0 first rfl again
          · rw [List.countP_cons_of_neg again, ih here]
            constructor
            · intro only j y there again'
              cases j with
              | zero =>
                  cases there
                  exact (again again').elim
              | succ j => rw [only j y there again']
            · exact fun only j y there again' => Nat.succ.inj (only (j + 1) y there again')

/-- A payload is converted to the events of a variant exactly if the tokens of its type occur in
that variant only. -/
theorem mem_conversions {type : List Tree} {variant : String} :
    ⟨type, variant⟩ ∈ conversions (variants.map memberOf) ↔
      ∃ (i : Nat) (v : Variant), variants[i]? = some v ∧ v.name = variant ∧
        v.fields = .tuple [type] ∧
        ∀ (j : Nat) (v' : Variant) (type' : List Tree), variants[j]? = some v' →
          v'.fields = .tuple [type'] → Tree.tokensOf type' = Tree.tokensOf type → j = i := by
  have count (ts : List String) :
      ((variants.map memberOf).filterMap fun m => m.payload.map Tree.tokensOf).count ts =
        variants.countP fun v => (carried v).map Tree.tokensOf == some ts := by
    rw [List.filterMap_map, List.count_filterMap]
    rfl
  have once {i : Nat} {v : Variant} (here : variants[i]? = some v) (own : carried v = some type) :
      (variants.countP fun v => (carried v).map Tree.tokensOf == some (Tree.tokensOf type)) = 1 ↔
        ∀ (j : Nat) (v' : Variant) (type' : List Tree), variants[j]? = some v' →
          v'.fields = .tuple [type'] → Tree.tokensOf type' = Tree.tokensOf type → j = i := by
    rw [countP_eq_one here (by rw [own]; exact beq_self_eq_true _)]
    simp only [beq_iff_eq, Option.map_eq_some_iff, carried_eq_some]
    exact ⟨fun only j v' type' there tuple same => only j v' there ⟨type', tuple, same⟩,
      fun only j v' there ⟨type', tuple, same⟩ => only j v' type' there tuple same⟩
  rw [conversions]
  simp only [List.mem_filterMap, List.mem_map, count]
  constructor
  · rintro ⟨_, ⟨v, listed, rfl⟩, found⟩
    obtain ⟨type', own, found⟩ := Option.bind_eq_some_iff.1 found
    split at found
    · rename_i single
      cases found
      obtain ⟨i, here⟩ := List.mem_iff_getElem?.1 listed
      exact ⟨i, v, here, rfl, carried_eq_some.1 own, (once here own).1 single⟩
    · cases found
  · rintro ⟨i, v, here, rfl, tuple, only⟩
    have own := carried_eq_some.2 tuple
    refine ⟨memberOf v, ⟨v, List.mem_of_getElem? here, rfl⟩,
      Option.bind_eq_some_iff.2 ⟨type, own, ?_⟩⟩
    rw [if_pos ((once here own).2 only)]
    rfl

theorem conversions_apart (cases : (variants.map (·.name)).Nodup) :
    (conversions (variants.map memberOf)).Pairwise (·.variant ≠ ·.variant) := by
  rw [← members_variants, List.Nodup, List.pairwise_map] at cases
  refine cases.filterMap _ fun m m' other c from_m c' from_m' => ?_
  have variant {m : Member} {c : Conversion} {once : List Tree → Prop} [DecidablePred once]
      (found : (m.payload.bind fun type =>
        if once type then some ⟨type, m.variant⟩ else none) = some c) : c.variant = m.variant := by
    obtain ⟨type, _, found⟩ := Option.bind_eq_some_iff.1 found
    split at found
    · cases found
      rfl
    · cases found
  rw [variant from_m, variant from_m']
  exact other

/-- What an enum derives is coherent.  Take an enum whose variants carry nothing or one payload and
whose attributes are as they should be.  Without variants there is one error.  Otherwise there is
an error for each variant whose name was there before, in order, and code exactly if there is
none.  The code is coherent: whatever does what its cases say lists the names of the variants in
order, gives every variant its own name, rebuilds an event by its name as the payload is rebuilt,
an event that carries nothing from anything, and knows no other names.  There is a conversion from
each payload type that occurs in one variant only, to that variant. -/
theorem derived_set_coherent {d : TypeDeclaration} (body : d.body = .enum variants)
    (plain : ∀ a ∈ eventAttributes d.attributes, itemsOf? a = some [])
    (fit : ∀ v ∈ variants, Fits v) :
    (variants = [] → ofDeclaration d = .error [.noVariants]) ∧
      (variants ≠ [] →
        (repeats (variants.map effectiveName) ≠ [] → ofDeclaration d =
          .error ((repeats (variants.map effectiveName)).map .duplicateName)) ∧
        (repeats (variants.map effectiveName) = [] →
          ofDeclaration d = .ok ⟨d.name, d.generics, variants.map memberOf⟩)) ∧
      ∀ derived, ofDeclaration d = .ok derived → (variants.map (·.name)).Nodup →
        derived = ⟨d.name, d.generics, variants.map memberOf⟩ ∧
        (∀ types (set : EventSet (EventOf types variants)), Follows set → Coherent set) ∧
        (∀ types, Follows (eventSet types (variants.map memberOf))) ∧
        (conversions derived.members).Pairwise (·.variant ≠ ·.variant) ∧
        ∀ type variant, ⟨type, variant⟩ ∈ conversions derived.members ↔
          ∃ (i : Nat) (v : Variant), variants[i]? = some v ∧ v.name = variant ∧
            v.fields = .tuple [type] ∧
            ∀ (j : Nat) (v' : Variant) (type' : List Tree), variants[j]? = some v' →
              v'.fields = .tuple [type'] → Tree.tokensOf type' = Tree.tokensOf type → j = i := by
  have eq := membersOf_eq plain fit
  have declared : ofDeclaration d =
      (membersOf d.attributes variants).map fun members => ⟨d.name, d.generics, members⟩ := by
    rw [ofDeclaration, body]
  refine ⟨fun empty => ?_, fun filled => ⟨fun repeated => ?_, fun apart => ?_⟩, ?_⟩
  · rw [declared, eq, if_pos empty]
    rfl
  · rw [declared, eq, if_neg filled, if_neg repeated]
    rfl
  · rw [declared, eq, if_neg filled, if_pos apart]
    rfl
  · intro derived accepted cases
    rw [declared] at accepted
    obtain ⟨found, rfl⟩ : membersOf d.attributes variants = .ok (variants.map memberOf) ∧
        derived = ⟨d.name, d.generics, variants.map memberOf⟩ := by
      rw [eq] at accepted ⊢
      split at accepted
      · cases accepted
      · rename_i filled
        split at accepted
        · rename_i apart
          cases accepted
          exact ⟨by rw [if_neg filled, if_pos apart], rfl⟩
        · cases accepted
    have names := (derived_spec found).1
    rw [members_names] at names
    exact ⟨rfl, fun types set follows => coherent_of_follows follows cases names,
      fun types => follows_of_derived found cases, conversions_apart cases,
      fun type variant => mem_conversions⟩

/-! ### A set of orders -/

def named (name : String) : Attribute :=
  ⟨false, ["event"], .arguments .parenthesis
    [.word .start "name", .punct '=' false, Tree.ofText name]⟩

def word (type : String) : List Tree :=
  [.word .start type]

/-- Variants for orders: two carry a label, one has a name of its own, one carries nothing. -/
def orderVariants (moved : String) : List Variant :=
  [⟨[], "Created", .tuple [word "Order"]⟩, ⟨[], "Renamed", .tuple [word "Label"]⟩,
    ⟨[named moved], "Moved", .tuple [word "Label"]⟩, ⟨[], "Canceled", .unit⟩]

def orders (variants : List Variant) : TypeDeclaration :=
  ⟨[], "Orders", ⟨[], none⟩, .enum variants⟩

theorem givenItems_named (name : String) :
    givenItems [named name] = [.item ["name"] (.value [Tree.ofText name])] := rfl

theorem wellFormed_named (name : String) : WellFormed [named name] where
  lists := List.forall_mem_singleton.2 rfl
  items := .inr ⟨_, name, givenItems_named name, rfl⟩

theorem wellFormed_nil : WellFormed [] where
  lists _ none := (List.not_mem_nil none).elim
  items := .inl rfl

theorem fits_orders (moved : String) : ∀ v ∈ orderVariants moved, Fits v := by
  refine List.forall_mem_cons.2 ⟨⟨wellFormed_nil, .inr ⟨_, rfl⟩⟩, ?_⟩
  refine List.forall_mem_cons.2 ⟨⟨wellFormed_nil, .inr ⟨_, rfl⟩⟩, ?_⟩
  refine List.forall_mem_cons.2 ⟨⟨wellFormed_named moved, .inr ⟨_, rfl⟩⟩, ?_⟩
  exact List.forall_mem_singleton.2 ⟨wellFormed_nil, .inl rfl⟩

/-- Orders that are moved under a name of their own derive a coherent set, in which orders are
converted and labels are not.  A name that was there before is told, and so is an enum without
variants. -/
theorem orders_coherent :
    ofDeclaration (orders []) = .error [.noVariants] ∧
    ofDeclaration (orders (orderVariants "Created")) = .error [.duplicateName "Created"] ∧
    Coherent (eventSet (fun _ => .none) ((orderVariants "Shipped").map memberOf)) ∧
    ⟨word "Order", "Created"⟩ ∈ conversions ((orderVariants "Shipped").map memberOf) ∧
    ⟨word "Label", "Moved"⟩ ∉ conversions ((orderVariants "Shipped").map memberOf) := by
  have plain : ∀ a ∈ eventAttributes [], itemsOf? a = some [] := fun _ member =>
    (List.not_mem_nil member).elim
  obtain ⟨empty, _⟩ := derived_set_coherent (d := orders []) rfl plain
    fun _ member => (List.not_mem_nil member).elim
  obtain ⟨_, repeated, _⟩ := derived_set_coherent (d := orders (orderVariants "Created")) rfl plain
    (fits_orders "Created")
  obtain ⟨_, accepted, coherent⟩ := derived_set_coherent (d := orders (orderVariants "Shipped")) rfl
    plain (fits_orders "Shipped")
  have derived := (accepted (List.cons_ne_nil _ _)).2 (by decide +kernel)
  obtain ⟨_, follows, set, _, converted⟩ := coherent _ derived (by decide +kernel)
  refine ⟨empty rfl, ?_, follows _ _ (set _), ?_, ?_⟩
  · exact (repeated (List.cons_ne_nil _ _)).1 (by decide +kernel)
  · refine (converted _ _).2 ⟨0, _, rfl, rfl, rfl, fun j v type here tuple same => ?_⟩
    -- The other three variants carry labels or nothing.
    rcases j with _ | _ | _ | _ | j
    · rfl
    · cases here
      cases tuple
      exact absurd same (by decide)
    · cases here
      cases tuple
      exact absurd same (by decide)
    · cases here
      cases tuple
    · cases here
  · intro moved
    obtain ⟨i, v, here, _, _, only⟩ := (converted _ _).1 moved
    have first := only 1 _ _ rfl rfl rfl
    have second := only 2 _ _ rfl rfl rfl
    omega

end Derive

end EventSourcing
