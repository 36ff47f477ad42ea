import EventSourcing.Source.Root
import Mathlib.Data.String.Basic

/-!
# Proofs.Source.Listing -- the sources in a directory

A tree of files without links has a list of sources: the files with the right extension that
stand below no directory that is passed over (`mem_sourcesIn`).  Directories list what they hold
in any order; if at each level what they list is sorted, then the whole list is in the order of
the paths (`sourcesIn_sorted`).
-/

namespace EventSourcing.Files

set_option autoImplicit false

/-! ## What has names -/

section

variable {α β : Type} {listed : List (String × α)}

theorem byName_perm (listed : List (String × α)) : (byName listed).Perm listed :=
  List.mergeSort_perm listed _

theorem mem_byName {e : String × α} : e ∈ byName listed ↔ e ∈ listed :=
  (byName_perm listed).mem_iff

/-- What is made of things with names is sorted as they are. -/
theorem byName_map (f : String → α → β) (listed : List (String × α)) :
    byName (listed.map fun e => (e.1, f e.1 e.2)) =
      (byName listed).map fun e => (e.1, f e.1 e.2) := by
  rw [byName, byName, List.map_mergeSort]
  exact fun _ _ _ _ => rfl

/-- If no name is repeated, each of the sorted names is less than all that follow it. -/
theorem byName_sorted (distinct : (listed.map (·.1)).Nodup) :
    (byName listed).Pairwise fun e f => e.1 < f.1 := by
  have ordered : (byName listed).Pairwise fun e f => e.1 ≤ f.1 := by
    refine (List.pairwise_mergeSort ?_ ?_ listed).imp of_decide_eq_true
    · exact fun _ _ _ first second =>
        decide_eq_true (String.le_trans (of_decide_eq_true first) (of_decide_eq_true second))
    · intro e f
      simpa using String.le_total e.1 f.1
  have apart : (byName listed).Pairwise fun e f => e.1 ≠ f.1 :=
    List.pairwise_map.1 (((byName_perm listed).map _).nodup_iff.2 distinct)
  exact ordered.imp₂ (fun _ _ => lt_of_le_of_ne) apart

/-- If no name is repeated, everything is found under its name. -/
theorem lookup_eq_some (distinct : (listed.map (·.1)).Nodup) {name : String} {x : α} :
    listed.lookup name = some x ↔ (name, x) ∈ listed := by
  induction listed with
  | nil => simp
  | cons e rest ih =>
      obtain ⟨n, first⟩ := e
      rw [List.map_cons, List.nodup_cons] at distinct
      obtain ⟨fresh, later⟩ := distinct
      rw [List.lookup_cons, List.mem_cons, Prod.mk.injEq]
      by_cases same : name = n
      · subst same
        have once : (name, x) ∉ rest := fun again => fresh (List.mem_map.2 ⟨_, again, rfl⟩)
        simp [once, eq_comm]
      · have other : (name == n) = false := beq_eq_false_iff_ne.2 same
        simp [other, same, ih later]

end

structure IsName (name : String) : Prop where
  filled : name.toList ≠ []
  single : '/' ∉ name.toList
  notHere : name.toList ≠ ['.']
  notUp : name.toList ≠ ['.', '.']

instance (name : String) : Decidable (IsName name) :=
  decidable_of_iff
    (name.toList ≠ [] ∧ '/' ∉ name.toList ∧ name.toList ≠ ['.'] ∧ name.toList ≠ ['.', '.'])
    ⟨fun ⟨filled, single, notHere, notUp⟩ => ⟨filled, single, notHere, notUp⟩,
      fun valid => ⟨valid.filled, valid.single, valid.notHere, valid.notUp⟩⟩

/-- A name by itself is a path of one part. -/
theorem components_name {name : String} (valid : IsName name) : components name = [.name name] := by
  have whole : name.toList.splitOn '/' = [name.toList] := by
    refine List.splitOnP_eq_singleton fun c member => ?_
    rw [beq_eq_false_iff_ne]
    rintro rfl
    exact valid.single member
  have part : component? true name.toList = some (.name name) := by
    rw [component?, if_neg (by simpa using valid.filled), if_neg valid.notHere, if_neg valid.notUp,
      String.ofList_toList]
  have filled : name.toList.isEmpty = false := by simpa using valid.filled
  rw [components, whole]
  dsimp only
  rw [filled, part]
  rfl

/-- The text that a file holds. -/
def textOf? (bytes : List UInt8) : Option String :=
  Text.Glyph.toText? (Text.Glyph.ofBytes bytes)

namespace Entries

variable {entries inner : Entries} {directory : List String}

@[simp] theorem node?_single (name : String) : entries.node? [name] = entries.lookup name := by
  rw [node?.eq_def]
  dsimp only
  cases entries.lookup name with
  | none => rfl
  | some node => cases node <;> rfl

theorem node?_directory {name : String} {path : List String} (further : path ≠ [])
    (found : entries.lookup name = some (.directory inner)) :
    entries.node? (name :: path) = inner.node? path := by
  obtain ⟨next, rest, rfl⟩ := List.exists_cons_of_ne_nil further
  rw [node?.eq_def]
  dsimp only
  rw [found]

/-- A path leads through directories. -/
theorem node?_cons_eq_some {name : String} {path : List String} {node : Node}
    (further : path ≠ []) :
    entries.node? (name :: path) = some node ↔
      ∃ inner : Entries, entries.lookup name = some (.directory inner) ∧
        inner.node? path = some node := by
  obtain ⟨next, rest, rfl⟩ := List.exists_cons_of_ne_nil further
  rw [node?.eq_def]
  dsimp only
  cases entries.lookup name with
  | none => simp
  | some found => cases found <;> simp

/-- What has a name in a directory stands at the end of the path to it. -/
theorem node?_append (name : String)
    (here : entries.node? directory = some (.directory inner)) :
    entries.node? (directory ++ [name]) = inner.lookup name := by
  induction directory generalizing entries with
  | nil =>
      cases here
      exact node?_single name
  | cons first rest ih =>
      cases rest with
      | nil =>
          rw [node?_single] at here
          rw [List.cons_append, List.nil_append, node?_directory (List.cons_ne_nil _ _) here]
          exact node?_single name
      | cons next rest =>
          obtain ⟨below, found, here⟩ := (node?_cons_eq_some (List.cons_ne_nil _ _)).1 here
          have further : next :: rest ++ [name] ≠ [] := List.concat_ne_nil _ _
          rw [List.cons_append, node?_directory further found]
          exact ih here

theorem text?_file {name : String} {bytes : List UInt8} (valid : IsName name)
    (here : entries.node? (directory ++ [name]) = some (.file bytes)) :
    entries.text? directory name = textOf? bytes := by
  have reached : entries.follow 4096 linkLimit directory [.name name] = some (.file bytes) := by
    rw [follow, here]
    rfl
  rw [text?, bytes?, components_name valid, reached]
  rfl

end Entries

end EventSourcing.Files

namespace EventSourcing.Source

set_option autoImplicit false

open EventSourcing.Files (Entries Node IsName textOf?)

/-! ## Trees -/

/-- What stands under a name if there are no links and the sources are texts: a directory holds
each name once, and lists them in any order. -/
inductive Tidy : String → Node → Prop where
  | file {name : String} {bytes : List UInt8}
      (text : Files.extension? name = some sourceExtension → (textOf? bytes).isSome) :
      Tidy name (.file bytes)
  | directory {name : String} {entries : Entries} (distinct : (entries.map (·.1)).Nodup)
      (named : ∀ e ∈ entries, IsName e.1) (inner : ∀ e ∈ entries, Tidy e.1 e.2) :
      Tidy name (.directory entries)

/-- A source of a tree: a file with the right extension below no directory that is passed
over, with what it holds. -/
def IsSource (entries : Entries) (names : List String) (content : String) : Prop :=
  ∃ directory name bytes, names = directory ++ [name] ∧
    entries.node? names = some (.file bytes) ∧ textOf? bytes = some content ∧
    Files.extension? name = some sourceExtension ∧ ∀ d ∈ directory, isPassedOver d = false

/-- Sources with the paths to them from further up. -/
def below (directory : List String) (files : List (List String × String)) :
    List (List String × String) :=
  files.map fun f => (directory ++ f.1, f.2)

theorem below_below (outer inner : List String) (files : List (List String × String)) :
    below outer (below inner files) = below (outer ++ inner) files := by
  simp only [below, List.map_map, Function.comp_def, List.append_assoc]

theorem below_nil (files : List (List String × String)) : below [] files = files :=
  List.map_id files

mutual

/-- The sources in what stands under a name, with the paths to them. -/
def sourcesOf (name : String) : Node → List (List String × String)
  | .file bytes =>
      if Files.extension? name = some sourceExtension then
        (textOf? bytes).toList.map fun content => ([name], content)
      else []
  | .link _ => []
  | .directory entries =>
      if isPassedOver name then []
      else below [name] ((Files.byName (sourcesUnder entries)).flatMap (·.2))

/-- The sources under each name in a directory, as it lists them. -/
def sourcesUnder : List (String × Node) → List (String × List (List String × String))
  | [] => []
  | (name, node) :: rest => (name, sourcesOf name node) :: sourcesUnder rest

end

/-- The sources in a directory, with the paths to them, in the order of the names in it. -/
def sourcesIn (entries : Entries) : List (List String × String) :=
  (Files.byName (sourcesUnder entries)).flatMap (·.2)

theorem sourcesUnder_eq_map (entries : Entries) :
    sourcesUnder entries = entries.map fun e => (e.1, sourcesOf e.1 e.2) := by
  induction entries with
  | nil => rfl
  | cons e rest ih => rw [sourcesUnder, ih, List.map_cons]

theorem sourcesIn_eq (entries : Entries) :
    sourcesIn entries = (Files.byName entries).flatMap fun e => sourcesOf e.1 e.2 := by
  rw [sourcesIn, sourcesUnder_eq_map, Files.byName_map, List.flatMap_map]

theorem exists_mem_sourcesIn {entries : Entries} {f : List String × String} :
    f ∈ sourcesIn entries ↔ ∃ e ∈ entries, f ∈ sourcesOf e.1 e.2 := by
  simp only [sourcesIn_eq, List.mem_flatMap, Files.mem_byName]

/-- All paths to the sources under a name begin with it. -/
theorem head_of_mem_sourcesOf {name : String} {node : Node} {f : List String × String}
    (member : f ∈ sourcesOf name node) : ∃ rest, f.1 = name :: rest := by
  cases node with
  | file bytes =>
      rw [sourcesOf] at member
      split at member
      · obtain ⟨content, _, rfl⟩ := List.mem_map.1 member
        exact ⟨[], rfl⟩
      · cases member
  | link target => cases member
  | directory entries =>
      rw [sourcesOf] at member
      split at member
      · cases member
      · obtain ⟨f', _, rfl⟩ := List.mem_map.1 member
        exact ⟨f'.1, rfl⟩

/-- What stands under several names is listed in the order of the paths if what stands under each
of them is. -/
theorem pairwise_sourcesIn {entries : Entries} (distinct : (entries.map (·.1)).Nodup)
    (each : ∀ e ∈ entries, (sourcesOf e.1 e.2).Pairwise fun f g => f.1 < g.1) :
    (sourcesIn entries).Pairwise fun f g => f.1 < g.1 := by
  rw [sourcesIn_eq, List.pairwise_flatMap]
  refine ⟨fun e member => each e (Files.mem_byName.1 member), ?_⟩
  refine (Files.byName_sorted distinct).imp fun before f first g second => ?_
  obtain ⟨fs, f_eq⟩ := head_of_mem_sourcesOf first
  obtain ⟨gs, g_eq⟩ := head_of_mem_sourcesOf second
  rw [f_eq, g_eq, List.cons_lt_cons_iff]
  exact .inl before

theorem sourcesOf_sorted {name : String} {node : Node} (tidy : Tidy name node) :
    (sourcesOf name node).Pairwise fun f g => f.1 < g.1 := by
  induction tidy with
  | @file name bytes text =>
      rw [sourcesOf]
      split
      · cases textOf? bytes with
        | none => exact .nil
        | some content => exact List.pairwise_singleton _ _
      · exact .nil
  | @directory name entries distinct named inner ih =>
      rw [sourcesOf]
      split
      · exact .nil
      · rw [below, List.pairwise_map]
        exact (pairwise_sourcesIn distinct ih).imp fun less =>
          List.cons_lt_cons_iff.2 (.inr ⟨rfl, less⟩)

/-- Sources are listed in the order of their paths. -/
theorem sourcesIn_sorted {root : String} {entries : Entries}
    (tidy : Tidy root (.directory entries)) :
    (sourcesIn entries).Pairwise fun f g => f.1 < g.1 := by
  cases tidy with
  | directory distinct _ inner =>
      exact pairwise_sourcesIn distinct fun e member => sourcesOf_sorted (inner e member)

/-- In the order of the paths there is only one list of the same sources. -/
theorem eq_of_paths_sorted {xs ys : List (List String × String)}
    (first : xs.Pairwise fun f g => f.1 < g.1) (second : ys.Pairwise fun f g => f.1 < g.1)
    (same : ∀ f, f ∈ xs ↔ f ∈ ys) : xs = ys := by
  have once {zs : List (List String × String)} (sorted : zs.Pairwise fun f g => f.1 < g.1) :
      zs.Nodup := by
    refine sorted.imp fun less again => ?_
    rw [again] at less
    exact lt_irrefl _ less
  have perm : xs.Perm ys := (List.perm_ext_iff_of_nodup (once first) (once second)).2 same
  exact perm.eq_of_pairwise (fun f g _ _ less more => (lt_asymm less more).elim) first second

theorem mem_sourcesOf_file {name : String} {bytes : List UInt8} {names : List String}
    {content : String} : (names, content) ∈ sourcesOf name (.file bytes) ↔
      names = [name] ∧ textOf? bytes = some content ∧
        Files.extension? name = some sourceExtension := by
  rw [sourcesOf]
  split
  · rename_i source
    rw [List.mem_map]
    constructor
    · rintro ⟨text, given, same⟩
      cases same
      exact ⟨rfl, Option.mem_toList.1 given, source⟩
    · rintro ⟨rfl, text, _⟩
      exact ⟨content, Option.mem_toList.2 text, rfl⟩
  · rename_i other
    simp [other]

theorem mem_sourcesOf_directory {name : String} {entries : Entries} {names : List String}
    {content : String} : (names, content) ∈ sourcesOf name (.directory entries) ↔
      isPassedOver name = false ∧
        ∃ inside, names = name :: inside ∧ (inside, content) ∈ sourcesIn entries := by
  rw [sourcesOf]
  split
  · rename_i passed
    simp [passed]
  · rename_i read
    rw [below, List.mem_map]
    constructor
    · rintro ⟨⟨inside, _⟩, listed, same⟩
      cases same
      exact ⟨Bool.not_eq_true _ ▸ read, inside, rfl, listed⟩
    · rintro ⟨_, inside, rfl, listed⟩
      exact ⟨_, listed, rfl⟩

theorem mem_sourcesIn_of_eq {root : String} {node : Node} (tidy : Tidy root node) :
    ∀ entries, node = .directory entries → ∀ names content,
      (names, content) ∈ sourcesIn entries ↔ IsSource entries names content := by
  induction tidy with
  | file => intro entries same; cases same
  | @directory root entries distinct named inner ih =>
      intro entries' same names content
      cases same
      rw [exists_mem_sourcesIn]
      constructor
      · rintro ⟨⟨name, node⟩, member, listed⟩
        have found := (Files.lookup_eq_some distinct).2 member
        cases node with
        | file bytes =>
            obtain ⟨rfl, text, source⟩ := mem_sourcesOf_file.1 listed
            exact ⟨[], name, bytes, rfl, (Entries.node?_single name).trans found, text, source,
              fun d member => (List.not_mem_nil member).elim⟩
        | link target => cases listed
        | directory below =>
            obtain ⟨read, names, rfl, inside⟩ := mem_sourcesOf_directory.1 listed
            obtain ⟨directory, last, bytes, rfl, here, text, source, passed⟩ :=
              (ih _ member below rfl names content).1 inside
            have reached : entries.node? (name :: (directory ++ [last])) = some (.file bytes) :=
              (Entries.node?_directory (List.concat_ne_nil _ _) found).trans here
            exact ⟨name :: directory, last, bytes, rfl, reached, text, source,
              List.forall_mem_cons.2 ⟨read, passed⟩⟩
      · rintro ⟨directory, name, bytes, rfl, here, text, source, passed⟩
        cases directory with
        | nil =>
            have found : entries.lookup name = some (.file bytes) :=
              (Entries.node?_single name).symm.trans here
            exact ⟨_, (Files.lookup_eq_some distinct).1 found,
              mem_sourcesOf_file.2 ⟨rfl, text, source⟩⟩
        | cons first rest =>
            obtain ⟨read, passed⟩ := List.forall_mem_cons.1 passed
            obtain ⟨below, found, here⟩ :=
              (Entries.node?_cons_eq_some (List.concat_ne_nil _ _)).1 here
            have member := (Files.lookup_eq_some distinct).1 found
            refine ⟨_, member, mem_sourcesOf_directory.2 ⟨read, _, rfl, ?_⟩⟩
            rw [ih _ member below rfl]
            exact ⟨rest, name, bytes, rfl, here, text, source, passed⟩

/-- The listed sources are the sources of the tree. -/
theorem mem_sourcesIn {root : String} {entries : Entries}
    (tidy : Tidy root (.directory entries)) {names : List String} {content : String} :
    (names, content) ∈ sourcesIn entries ↔ IsSource entries names content :=
  mem_sourcesIn_of_eq tidy entries rfl names content

end EventSourcing.Source
