import EventSourcing.Proofs.Source.Listing
import Mathlib.Data.List.Forall2

/-!
# Proofs.Source.Loading -- loading a directory adds its files

Walking a directory reads its sources one after the other, in the order of their paths, however
the directories list them (`Root.load_eq`).  What a source declares depends on its path below
the directory only, so loading a directory finds what is found when its files are added by hand
(`load_adds_sources`).
-/

namespace EventSourcing.Source

set_option autoImplicit false

open EventSourcing.Files (Entries Node IsName textOf?)

/-! ## One source after the other -/

def relative (names : List String) : String :=
  "/".intercalate names

/-- Goes on reading unless something has failed. -/
def andThen (loaded : Loaded) (next : Index → Loaded) : Loaded :=
  match loaded.2 with
  | some _ => loaded
  | none => next loaded.1

theorem andThen_done (loaded : Loaded) : andThen loaded (fun index => (index, none)) = loaded := by
  obtain ⟨index, failure⟩ := loaded
  cases failure <;> rfl

theorem andThen_assoc (loaded : Loaded) (f g : Index → Loaded) :
    andThen (andThen loaded f) g = andThen loaded fun index => andThen (f index) g := by
  obtain ⟨index, failure⟩ := loaded
  cases failure <;> rfl

namespace Root

variable (root : Root) {entries : Entries} {directory : List String} {index : Index}

def readOne (f : List String × String) (index : Index) : Loaded :=
  match index.addFile? (root.path f.1) (relative f.1) f.2 with
  | some index => (index, none)
  | none => (index, some (.malformed (root.path f.1)))

/-- Reads sources one after the other, up to the first failure. -/
def readAll : List (List String × String) → Index → Loaded
  | [], index => (index, none)
  | f :: rest, index => andThen (root.readOne f index) (readAll rest)

theorem readAll_append (xs ys : List (List String × String)) :
    root.readAll (xs ++ ys) index = andThen (root.readAll xs index) (root.readAll ys) := by
  induction xs generalizing index with
  | nil => rfl
  | cons f rest ih =>
      rw [List.cons_append, readAll, readAll, andThen_assoc]
      exact congrArg (andThen _) (funext fun index => ih)

theorem inTurn_cons (read : Index → Loaded) (rest : List (Index → Loaded)) :
    inTurn (read :: rest) index = andThen (read index) (inTurn rest) := by
  rw [inTurn]
  generalize read index = loaded
  obtain ⟨index, failure⟩ := loaded
  cases failure <;> rfl

/-- Readings of some sources each, one after the other, read all of these sources. -/
theorem inTurn_map {α : Type} {xs : List α} {read : α → Index → Loaded}
    {sources : α → List (List String × String)}
    (each : ∀ x ∈ xs, ∀ index, read x index = root.readAll (sources x) index) :
    inTurn (xs.map read) index = root.readAll (xs.flatMap sources) index := by
  induction xs generalizing index with
  | nil => rfl
  | cons x rest ih =>
      obtain ⟨first, later⟩ := List.forall_mem_cons.1 each
      rw [List.map_cons, inTurn_cons, first, List.flatMap_cons, readAll_append]
      exact congrArg (andThen _) (funext fun index => ih later)

theorem visits_eq_map (listed : List (String × Node)) :
    root.visits entries directory listed =
      listed.map fun e => (e.1, root.visit entries directory e.1 e.2) := by
  induction listed with
  | nil => rfl
  | cons e rest ih => rw [visits, ih, List.map_cons]

/-- A walk visits what the directory lists in the order of the names. -/
theorem walk_eq_inTurn (listed : List (String × Node)) :
    root.walk entries directory listed =
      inTurn ((Files.byName listed).map fun e => root.visit entries directory e.1 e.2) := by
  rw [walk, visits_eq_map, Files.byName_map, List.map_map]
  rfl

theorem visit_directory (name : String) (inner : Entries) :
    root.visit entries directory name (.directory inner) =
      if isPassedOver name then (·, none) else root.walk entries (directory ++ [name]) inner := by
  rw [visit, walk]

/-- A file is read if it is a source. -/
theorem visit_file {name : String} {bytes : List UInt8} (valid : IsName name)
    (text : Files.extension? name = some sourceExtension → (textOf? bytes).isSome)
    (here : entries.node? (directory ++ [name]) = some (.file bytes)) :
    root.visit entries directory name (.file bytes) index =
      root.readAll (below directory (sourcesOf name (.file bytes))) index := by
  rw [visit, sourcesOf]
  · split
    · rename_i source
      obtain ⟨content, holds⟩ := Option.isSome_iff_exists.1 (text source)
      rw [loadFile, Entries.text?_file valid here, holds]
      exact (andThen_done _).symm
    · rfl
  · exact fun inner same => by cases same

/-- Walking a directory is reading the sources in it one after the other, if so is visiting each
entry. -/
theorem walk_eq_of_each {listed : Entries}
    (each : ∀ e ∈ listed, ∀ index, root.visit entries directory e.1 e.2 index =
      root.readAll (below directory (sourcesOf e.1 e.2)) index) :
    root.walk entries directory listed index =
      root.readAll (below directory (sourcesIn listed)) index := by
  rw [walk_eq_inTurn, root.inTurn_map fun e member => each e (Files.mem_byName.1 member),
    sourcesIn_eq, below, List.map_flatMap]
  rfl

/-- Visiting what stands under a name is reading the sources in it one after the other. -/
theorem visit_eq {name : String} {node : Node} (tidy : Tidy name node) (valid : IsName name)
    (here : entries.node? (directory ++ [name]) = some node) :
    root.visit entries directory name node index =
      root.readAll (below directory (sourcesOf name node)) index := by
  induction tidy generalizing directory index with
  | file text => exact root.visit_file valid text here
  | @directory name inner distinct named nodes ih =>
      rw [visit_directory, sourcesOf]
      split
      · rfl
      · rw [below_below]
        refine root.walk_eq_of_each fun e member index => ih e member (named e member) ?_
        exact (Entries.node?_append e.1 here).trans ((Files.lookup_eq_some distinct).2 member)

/-- Loading a root is reading its sources one after the other. -/
theorem load_eq (place : root.directory = some entries)
    (tidy : Tidy root.name (.directory entries)) :
    root.load index = root.readAll (sourcesIn entries) index := by
  rw [load, place]
  cases tidy with
  | directory distinct named nodes =>
      refine (root.walk_eq_of_each fun e member index => ?_).trans (by rw [below_nil])
      refine root.visit_eq (nodes e member) (named e member) ?_
      exact (Entries.node?_append e.1 rfl).trans ((Files.lookup_eq_some distinct).2 member)

end Root

/-! ## What is declared -/

def Parses (content : String) : Prop :=
  (fileItems? content).isSome

instance (content : String) : Decidable (Parses content) :=
  inferInstanceAs (Decidable ((fileItems? content).isSome = true))

def declarationsOf (file : List String → String) (f : List String × String) : List Entry :=
  Item.entriesOf (file f.1) (fileModules (relative f.1)) ((fileItems? f.2).getD [])

variable {index : Index} {file : List String → String} {f : List String × String}
  {files : List (List String × String)}

theorem merge_merge (xs ys : List Entry) : (index.merge ⟨xs⟩).merge ⟨ys⟩ = index.merge ⟨xs ++ ys⟩ :=
  congrArg Index.mk (List.append_assoc _ _ _)

theorem merge_nil : index.merge ⟨[]⟩ = index :=
  congrArg Index.mk (List.append_nil _)

theorem addFile?_of_parses (parses : Parses f.2) :
    index.addFile? (file f.1) (relative f.1) f.2 = some (index.merge ⟨declarationsOf file f⟩) := by
  obtain ⟨items, read⟩ := Option.isSome_iff_exists.1 parses
  rw [Index.addFile?, declarationsOf, read]
  rfl

theorem addFile?_of_not_parses (malformed : ¬ Parses f.2) :
    index.addFile? (file f.1) (relative f.1) f.2 = none := by
  have read : fileItems? f.2 = none := Option.not_isSome_iff_eq_none.1 malformed
  rw [Index.addFile?, read]
  rfl

/-- Sources that can all be read add what they declare. -/
theorem Root.readAll_of_parses (root : Root) (parse : ∀ f ∈ files, Parses f.2) :
    root.readAll files index =
      (index.merge ⟨files.flatMap (declarationsOf root.path)⟩, none) := by
  induction files generalizing index with
  | nil => rw [readAll, List.flatMap_nil, merge_nil]
  | cons f rest ih =>
      obtain ⟨first, rest_parse⟩ := List.forall_mem_cons.1 parse
      have read : root.readOne f index = (index.merge ⟨declarationsOf root.path f⟩, none) := by
        rw [readOne, addFile?_of_parses first]
      rw [readAll, read, andThen, ih rest_parse, merge_merge, List.flatMap_cons]

/-- The first source that cannot be read ends the reading. -/
theorem Root.readAll_of_malformed (root : Root) {after : List (List String × String)}
    (parse : ∀ f ∈ files, Parses f.2) (malformed : ¬ Parses f.2) :
    root.readAll (files ++ f :: after) index =
      (index.merge ⟨files.flatMap (declarationsOf root.path)⟩,
        some (.malformed (root.path f.1))) := by
  have stops (index : Index) :
      root.readOne f index = (index, some (.malformed (root.path f.1))) := by
    rw [readOne, addFile?_of_not_parses malformed]
  rw [readAll_append, root.readAll_of_parses parse, andThen, readAll, stops, andThen]

/-- Adds sources by hand, each by its path and what it holds. -/
def addAll (index : Index) (files : List (List String × String)) : Except LoadError Index :=
  files.foldlM (fun index f => index.add (relative f.1) f.2) index

theorem addAll_of_parses (parse : ∀ f ∈ files, Parses f.2) :
    addAll index files = .ok (index.merge ⟨files.flatMap (declarationsOf relative)⟩) := by
  induction files generalizing index with
  | nil =>
      rw [List.flatMap_nil, merge_nil]
      rfl
  | cons f rest ih =>
      obtain ⟨first, rest_parse⟩ := List.forall_mem_cons.1 parse
      have added : index.add (relative f.1) f.2 =
          .ok (index.merge ⟨declarationsOf relative f⟩) := by
        rw [Index.add, addFile?_of_parses first]
      rw [addAll, List.foldlM_cons, added]
      exact (ih rest_parse).trans (by rw [merge_merge, List.flatMap_cons])

/-- Either all sources can be read, or there is a first that cannot. -/
theorem parses_or_first_malformed (files : List (List String × String)) :
    (∀ f ∈ files, Parses f.2) ∨ ∃ before f after, files = before ++ f :: after ∧
      (∀ g ∈ before, Parses g.2) ∧ ¬ Parses f.2 := by
  induction files with
  | nil => exact .inl fun f member => (List.not_mem_nil member).elim
  | cons f rest ih =>
      by_cases first : Parses f.2
      · rcases ih with all | ⟨before, g, after, rfl, parse, malformed⟩
        · exact .inl (List.forall_mem_cons.2 ⟨first, all⟩)
        · exact .inr ⟨f :: before, g, after, rfl, List.forall_mem_cons.2 ⟨first, parse⟩, malformed⟩
      · exact .inr ⟨[], f, rest, rfl, fun g member => (List.not_mem_nil member).elim, first⟩

/-! ## What is found -/

/-- One declaration, in a file that is called one way or the other. -/
structure Declaration.Moved (files : List (List String × String)) (root : Root)
    (d d' : Declaration) : Prop where
  kind : d'.kind = d.kind
  place : d'.place = d.place
  doc : d'.doc = d.doc
  file : ∃ f ∈ files, d.file = relative f.1 ∧ d'.file = root.path f.1

/-- What a reference leads to once sources have been added by hand, and once they have been read
from a root, where it led somewhere else before. -/
inductive Resolution.Alike (files : List (List String × String)) (root : Root)
    (before : Resolution) :
    Resolution → Resolution → Prop where
  | missing : Alike files root before .missing .missing
  | ambiguous (count : Nat) : Alike files root before (.ambiguous count) (.ambiguous count)
  /-- The declaration was there before. -/
  | kept {d : Declaration} (known : before = .found d) :
      Alike files root before (.found d) (.found d)
  /-- The declaration has been added. -/
  | added {d d' : Declaration} (unknown : before = .missing) (moved : d.Moved files root d') :
      Alike files root before (.found d) (.found d')

variable {root : Root}

/-- Entries that differ in what their files are called. -/
structure Entry.Moved (files : List (List String × String)) (root : Root) (e e' : Entry) :
    Prop where
  modules : e'.modules = e.modules
  name : e'.name = e.name
  declaration : e.declaration.Moved files root e'.declaration

mutual

theorem moved_entries (listed : f ∈ files) (modules : List String) :
    (item : Item) → List.Forall₂ (Entry.Moved files root)
      (Item.entries (relative f.1) modules item) (Item.entries (root.path f.1) modules item)
  | .type kind name place attributes => by
      rw [Item.entries, Item.entries]
      exact .cons ⟨rfl, rfl, rfl, rfl, rfl, f, listed, rfl, rfl⟩ .nil
  | .module name items => by
      rw [Item.entries, Item.entries]
      exact moved_entriesOf listed (modules ++ [name]) items
  | .other => by
      rw [Item.entries, Item.entries]
      exact .nil

theorem moved_entriesOf (listed : f ∈ files) (modules : List String) :
    (items : List Item) → List.Forall₂ (Entry.Moved files root)
      (Item.entriesOf (relative f.1) modules items) (Item.entriesOf (root.path f.1) modules items)
  | [] => by
      rw [Item.entriesOf, Item.entriesOf]
      exact .nil
  | item :: rest => by
      rw [Item.entriesOf, Item.entriesOf]
      exact List.rel_append (moved_entries listed modules item)
        (moved_entriesOf listed modules rest)

end

theorem moved_flatMap {chosen : List (List String × String)} (listed : chosen ⊆ files) :
    List.Forall₂ (Entry.Moved files root) (chosen.flatMap (declarationsOf relative))
      (chosen.flatMap (declarationsOf root.path)) := by
  induction chosen with
  | nil => exact .nil
  | cons f rest ih =>
      obtain ⟨first, later⟩ := List.cons_subset.1 listed
      rw [List.flatMap_cons, List.flatMap_cons]
      exact List.rel_append (moved_entriesOf first _ _) (ih later)

/-- The declarations that a reference may mean are the same but for their files. -/
theorem moved_find {xs ys : List Entry} (moved : List.Forall₂ (Entry.Moved files root) xs ys)
    (r : TypeRef) :
    List.Forall₂ (Declaration.Moved files root) (Index.find ⟨xs⟩ r) (Index.find ⟨ys⟩ r) := by
  induction moved with
  | nil => exact .nil
  | @cons e e' _ _ first _ ih =>
      rw [Index.find, Index.find, List.filter_cons, List.filter_cons, first.modules, first.name]
      split
      · exact .cons first.declaration ih
      · exact ih

theorem find_merge (index : Index) (xs : List Entry) (r : TypeRef) :
    (index.merge ⟨xs⟩).find r = index.find r ++ Index.find ⟨xs⟩ r := by
  rw [Index.find, Index.merge, List.filter_append, List.map_append]
  rfl

theorem resolve_of_many {r : TypeRef} (many : 2 ≤ (index.find r).length) :
    index.resolve r = .ambiguous (index.find r).length := by
  rw [Index.resolve]
  split
  · rename_i empty
    rw [empty] at many
    cases many
  · rename_i d one
    rw [one] at many
    cases many
    contradiction
  · rfl

/-- What a reference leads to is the same but for what the files are called. -/
theorem alike_of_moved {xs ys : List Entry} (moved : List.Forall₂ (Entry.Moved files root) xs ys)
    (r : TypeRef) : Resolution.Alike files root (index.resolve r)
      ((index.merge ⟨xs⟩).resolve r) ((index.merge ⟨ys⟩).resolve r) := by
  have found := moved_find moved r
  have by_hand := find_merge index xs r
  have read := find_merge index ys r
  have lengths : ((index.merge ⟨ys⟩).find r).length = ((index.merge ⟨xs⟩).find r).length := by
    rw [by_hand, read, List.length_append, List.length_append, found.length_eq]
  by_cases many : 2 ≤ ((index.merge ⟨xs⟩).find r).length
  · have both : 2 ≤ ((index.merge ⟨ys⟩).find r).length := by
      rw [lengths]
      exact many
    rw [resolve_of_many many, resolve_of_many both, lengths]
    exact .ambiguous _
  · rw [by_hand, List.length_append] at many
    simp only [Index.resolve, by_hand, read]
    generalize Index.find ⟨xs⟩ r = ds at found many
    generalize Index.find ⟨ys⟩ r = ds' at found
    match index.find r, found, many with
    | [], .nil, _ => exact .missing
    | [], .cons first .nil, _ => exact .added rfl first
    | [d], .nil, _ => exact .kept rfl
    | [], .cons _ (.cons _ rest), many =>
        simp only [List.length_cons] at many
        omega
    | [d], .cons first rest, many =>
        simp only [List.length_cons] at many
        omega
    | d :: d₂ :: more, found, many =>
        simp only [List.length_cons] at many
        omega

/-- Loading a directory is adding its files by hand.  Take a tree of files without links, where
directories list what they hold in any order.  Its sources have a list in the order of their
paths.  Loading the tree succeeds exactly if all of them can be read, and then every reference
leads to what it leads to when they are added one after the other by their paths, but that their
files are called by their full paths.  If some cannot be read, the error names the first of them,
and what was found is what the sources before it declare. -/
theorem load_adds_sources {root : Root} {entries : Entries} (place : root.directory = some entries)
    (tidy : Tidy root.name (.directory entries)) :
    ∃ files : List (List String × String),
      files.Pairwise (fun f g => f.1 < g.1) ∧
      (∀ names content, (names, content) ∈ files ↔ IsSource entries names content) ∧
      ∀ index : Index,
        ((root.load index).2 = none ↔ ∀ f ∈ files, Parses f.2) ∧
        ((∀ f ∈ files, Parses f.2) → ∃ added, addAll index files = .ok added ∧
          ∀ r, Resolution.Alike files root (index.resolve r) (added.resolve r)
            ((root.load index).1.resolve r)) ∧
        (∀ before f after, files = before ++ f :: after → (∀ g ∈ before, Parses g.2) →
          ¬ Parses f.2 → root.load index =
            (index.merge ⟨before.flatMap (declarationsOf root.path)⟩,
              some (.malformed (root.path f.1)))) := by
  refine ⟨sourcesIn entries, sourcesIn_sorted tidy, fun names content => mem_sourcesIn tidy,
    fun index => ?_⟩
  rw [root.load_eq place tidy]
  have stops : ∀ before f after, sourcesIn entries = before ++ f :: after →
      (∀ g ∈ before, Parses g.2) → ¬ Parses f.2 → root.readAll (sourcesIn entries) index =
        (index.merge ⟨before.flatMap (declarationsOf root.path)⟩,
          some (.malformed (root.path f.1))) := by
    intro before f after split parse malformed
    rw [split]
    exact root.readAll_of_malformed parse malformed
  refine ⟨⟨fun succeeded => ?_, fun parse => ?_⟩, fun parse => ?_, stops⟩
  · rcases parses_or_first_malformed (sourcesIn entries) with
      all | ⟨before, f, after, split, parse, malformed⟩
    · exact all
    · rw [stops before f after split parse malformed] at succeeded
      cases succeeded
  · rw [root.readAll_of_parses parse]
  · refine ⟨_, addAll_of_parses parse, fun r => ?_⟩
    rw [root.readAll_of_parses parse]
    exact alike_of_moved (moved_flatMap (List.Subset.refl _)) r

/-! ### A yard -/

/-- A yard with a shed and two posts, none of them listed in the order of their names, and with
results that are passed over.  What the hinge of the posts looks like is left open. -/
def yardEntries (hinge : String) : Entries :=
  [("shed.rs", .file "struct Shed;".toUTF8.toList),
    ("target", .directory [("old.rs", .file "struct Old;".toUTF8.toList)]),
    ("posts", .directory
      [("hinge.rs", .file hinge.toUTF8.toList), ("gate.rs", .file "struct Gate;".toUTF8.toList)])]

def yard (hinge : String) : Root :=
  ⟨"yard/", some (yardEntries hinge)⟩

def yardSources (hinge : String) : List (List String × String) :=
  [(["posts", "gate.rs"], "struct Gate;"), (["posts", "hinge.rs"], hinge),
    (["shed.rs"], "struct Shed;")]

section

variable {hinge : String} (text : textOf? hinge.toUTF8.toList = some hinge)

include text

theorem yard_tidy : Tidy (yard hinge).name (.directory (yardEntries hinge)) := by
  have shed : Tidy "shed.rs" (.file "struct Shed;".toUTF8.toList) :=
    .file fun _ => by decide +kernel
  have old : Tidy "old.rs" (.file "struct Old;".toUTF8.toList) := .file fun _ => by decide +kernel
  have gate : Tidy "gate.rs" (.file "struct Gate;".toUTF8.toList) :=
    .file fun _ => by decide +kernel
  have hung : Tidy "hinge.rs" (.file hinge.toUTF8.toList) := .file fun _ => by rw [text]; rfl
  have target : Tidy "target" (.directory [("old.rs", .file "struct Old;".toUTF8.toList)]) :=
    .directory (by decide) (by decide) (List.forall_mem_singleton.2 old)
  have hinge_named : IsName "hinge.rs" := by decide
  have posts_named : IsName "posts" := by decide
  have posts : Tidy "posts" (.directory [("hinge.rs", .file hinge.toUTF8.toList),
      ("gate.rs", .file "struct Gate;".toUTF8.toList)]) := by
    refine .directory ?_ ?_ ?_
    · show ["hinge.rs", "gate.rs"].Nodup
      decide
    · exact List.forall_mem_cons.2 ⟨hinge_named, by decide⟩
    · exact List.forall_mem_cons.2 ⟨hung, List.forall_mem_singleton.2 gate⟩
  refine .directory ?_ ?_ ?_
  · show ["shed.rs", "target", "posts"].Nodup
    decide
  · exact List.forall_mem_cons.2 ⟨by decide, List.forall_mem_cons.2
      ⟨by decide, List.forall_mem_singleton.2 posts_named⟩⟩
  · exact List.forall_mem_cons.2 ⟨shed, List.forall_mem_cons.2
      ⟨target, List.forall_mem_singleton.2 posts⟩⟩

theorem mem_yardSources (f : List String × String) :
    f ∈ yardSources hinge ↔ IsSource (yardEntries hinge) f.1 f.2 := by
  have shed : textOf? "struct Shed;".toUTF8.toList = some "struct Shed;" := by decide +kernel
  have gate : textOf? "struct Gate;".toUTF8.toList = some "struct Gate;" := by decide +kernel
  have sources : ∀ name ∈ ["shed.rs", "hinge.rs", "gate.rs"],
      Files.extension? name = some sourceExtension := by decide
  have passed : isPassedOver "target" = true ∧ isPassedOver "posts" = false := by decide
  obtain ⟨names, content⟩ := f
  rw [← mem_sourcesIn (yard_tidy text), exists_mem_sourcesIn]
  simp only [yardEntries, yardSources, List.mem_cons, List.not_mem_nil, or_false,
    exists_eq_or_imp, exists_eq_left, mem_sourcesOf_file, mem_sourcesOf_directory,
    exists_mem_sourcesIn, shed, gate, text, sources _ List.mem_cons_self,
    sources _ (.tail _ List.mem_cons_self), sources _ (.tail _ (.tail _ List.mem_cons_self)),
    passed]
  aesop

end

/-- With a hinge that is no source, the yard is read as far as the gate, whatever comes first in
the listing; with another one, everything is found as if it had been added by hand. -/
theorem yard_read_up_to_hinge :
    (yard "struct").load .empty =
      (⟨[⟨["posts", "gate"], "Gate", ⟨.struct, "yard/posts/gate.rs", ⟨1, 8⟩, []⟩⟩]⟩,
        some (.malformed "yard/posts/hinge.rs")) ∧
    ((yard "enum Hinge \x7b\x7d").load .empty).2 = none ∧
    ∃ added, addAll .empty (yardSources "enum Hinge \x7b\x7d") = .ok added ∧
      ∀ r, Resolution.Alike (yardSources "enum Hinge \x7b\x7d") (yard "enum Hinge \x7b\x7d")
        .missing (added.resolve r) (((yard "enum Hinge \x7b\x7d").load .empty).1.resolve r) := by
  have sorted (hinge : String) : (yardSources hinge).Pairwise fun f g => f.1 < g.1 :=
    (List.pairwise_map (f := Prod.fst)).1 (by
      show [["posts", "gate.rs"], ["posts", "hinge.rs"], ["shed.rs"]].Pairwise (· < ·)
      decide)
  constructor
  · have text : textOf? "struct".toUTF8.toList = some "struct" := by decide +kernel
    obtain ⟨files, inOrder, listed, loads⟩ :=
      @load_adds_sources (yard "struct") _ rfl (yard_tidy text)
    obtain rfl := eq_of_paths_sorted inOrder (sorted "struct") fun f =>
      (listed f.1 f.2).trans (mem_yardSources text f).symm
    have stops := (loads .empty).2.2 [(["posts", "gate.rs"], "struct Gate;")]
      (["posts", "hinge.rs"], "struct") _ rfl (by decide +kernel) (by decide +kernel)
    rw [stops]
    decide +kernel
  · have text : textOf? "enum Hinge \x7b\x7d".toUTF8.toList = some "enum Hinge \x7b\x7d" := by
      decide +kernel
    obtain ⟨files, inOrder, listed, loads⟩ :=
      @load_adds_sources (yard "enum Hinge \x7b\x7d") _ rfl (yard_tidy text)
    obtain rfl := eq_of_paths_sorted inOrder (sorted "enum Hinge \x7b\x7d") fun f =>
      (listed f.1 f.2).trans (mem_yardSources text f).symm
    have parse : ∀ f ∈ yardSources "enum Hinge \x7b\x7d", Parses f.2 := by decide +kernel
    exact ⟨(loads .empty).1.2 parse, (loads .empty).2.1 parse⟩

end EventSourcing.Source
