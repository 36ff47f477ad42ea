import EventSourcing.Proofs.Source.Loading
import EventSourcing.Schema.Compiler
import Mathlib.Data.List.Perm.Basic

/-!
# Proofs.Schema.Grouping -- the order and grouping of sources

Sources are put together file by file, in indices that are merged and handed to a compiler.
What comes of it is, up to the order of its entries, what the files declare
(`Assembly.build_of_parses`, `entries_known`).  A reference leads where it leads whatever that
order is (`resolve_perm`), and what roots add does not depend on what was there
(`Root.adds_loadAll`).  So only the files matter to a compiler (`sources_in_any_order`).
-/

namespace EventSourcing

set_option autoImplicit false

namespace Source

/-! ## The order of entries -/

/-- How many declarations a reference leads to. -/
def Resolution.count : Resolution → Nat
  | .missing => 0
  | .found _ => 1
  | .ambiguous count => count

variable {a b : Index}

theorem count_resolve (index : Index) (r : TypeRef) :
    (index.resolve r).count = (index.find r).length := by
  unfold Index.resolve
  split
  · rename_i empty
    rw [empty]
    rfl
  · rename_i one
    rw [one]
    rfl
  · rfl

theorem find_perm (same : a.entries.Perm b.entries) (r : TypeRef) :
    (a.find r).Perm (b.find r) :=
  (same.filter _).map _

/-- Where at most one declaration is meant, there is no order to tell. -/
theorem find_eq (same : a.entries.Perm b.entries) {r : TypeRef}
    (few : (a.find r).length ≤ 1) : a.find r = b.find r := by
  have perm := find_perm same r
  match found : a.find r, few, perm with
  | [], _, perm => exact perm.nil_eq
  | [d], _, perm => exact perm.singleton_eq

theorem resolve_perm (same : a.entries.Perm b.entries) (r : TypeRef) :
    a.resolve r = b.resolve r := by
  by_cases few : (a.find r).length ≤ 1
  · simp only [Index.resolve, find_eq same few]
  · have lengths := (find_perm same r).length_eq
    rw [resolve_of_many (by omega), resolve_of_many (by omega), lengths]

/-! ## What roots add -/

/-- Reading that finds the same, and fails alike, whatever was there before. -/
def Adds (read : Index → Loaded) : Prop :=
  ∃ found failure, ∀ index : Index, read index = (index.merge ⟨found⟩, failure)

theorem adds_nothing (failure : Option LoadError) : Adds (·, failure) :=
  ⟨[], failure, fun index => by rw [merge_nil]⟩

theorem adds_file (file path content : String) (e : LoadError) :
    Adds fun index =>
      match index.addFile? file path content with
      | some index => (index, none)
      | none => (index, some e) := by
  unfold Index.addFile?
  cases fileItems? content with
  | none => exact adds_nothing _
  | some items => exact ⟨_, none, fun _ => rfl⟩

/-- What is read after something else is added to it. -/
theorem adds_andThen {both read next : Index → Loaded} (first : Adds read) (later : Adds next)
    (eq : ∀ index, both index = andThen (read index) next) : Adds both := by
  obtain ⟨xs, failure, read_eq⟩ := first
  obtain ⟨ys, failure', next_eq⟩ := later
  cases failure with
  | none =>
      refine ⟨xs ++ ys, failure', fun index => ?_⟩
      rw [eq, read_eq, andThen]
      dsimp only
      rw [next_eq, merge_merge]
  | some e =>
      refine ⟨xs, some e, fun index => ?_⟩
      rw [eq, read_eq, andThen]

namespace Root

variable (root : Root) (entries : Files.Entries)

theorem adds_loadFile (directory : List String) (name : String) :
    Adds (root.loadFile entries directory name) := by
  unfold loadFile
  cases entries.text? directory name with
  | none => exact adds_nothing _
  | some content => exact adds_file _ _ _ _

theorem adds_inTurn {reads : List (Index → Loaded)} (each : ∀ read ∈ reads, Adds read) :
    Adds (inTurn reads) := by
  induction reads with
  | nil => exact adds_nothing none
  | cons read rest ih =>
      obtain ⟨first, later⟩ := List.forall_mem_cons.1 each
      exact adds_andThen first (ih later) fun _ => inTurn_cons read rest

/-- Sorting what a directory lists adds nothing else. -/
theorem adds_byName {visits : List (String × (Index → Loaded))} (each : ∀ v ∈ visits, Adds v.2) :
    Adds (inTurn ((Files.byName visits).map (·.2))) := by
  refine adds_inTurn fun read member => ?_
  obtain ⟨v, listed, rfl⟩ := List.mem_map.1 member
  exact each v (Files.mem_byName.1 listed)

mutual

theorem adds_visit (directory : List String) (name : String) :
    (node : Files.Node) → Adds (root.visit entries directory name node)
  | .directory inner => by
      rw [visit]
      split
      · exact adds_nothing none
      · exact adds_byName (adds_visits (directory ++ [name]) inner)
  | .file _ | .link _ => by
      unfold visit
      split
      · exact root.adds_loadFile entries directory name
      · exact adds_nothing none

theorem adds_visits (directory : List String) :
    (listed : List (String × Files.Node)) →
      ∀ v ∈ root.visits entries directory listed, Adds v.2
  | [] => fun _ member => (List.not_mem_nil member).elim
  | (name, node) :: rest =>
      List.forall_mem_cons.2
        ⟨adds_visit directory name node, adds_visits directory rest⟩

end

theorem adds_load : Adds root.load := by
  unfold load
  cases root.directory with
  | none => exact adds_nothing _
  | some entries => exact adds_byName (root.adds_visits entries [] entries)

theorem adds_loadAll (roots : List Root) : Adds (loadAll roots) := by
  induction roots with
  | nil => exact adds_nothing none
  | cons root rest ih =>
      refine adds_andThen root.adds_load ih fun index => ?_
      rw [loadAll]
      generalize root.load index = loaded
      obtain ⟨index, failure⟩ := loaded
      cases failure <;> rfl

end Root

/-! ## Putting sources together -/

/-- A way to put sources together: files are added by their paths and contents, and what has
been put together is merged. -/
inductive Assembly where
  | empty
  | add (sources : Assembly) (path content : String)
  | merge (a b : Assembly)

namespace Assembly

def files : Assembly → List (String × String)
  | .empty => []
  | .add sources path content => sources.files ++ [(path, content)]
  | .merge a b => a.files ++ b.files

def build : Assembly → Except LoadError Index
  | .empty => .ok .empty
  | .add sources path content => do (← sources.build).add path content
  | .merge a b => return (← a.build).merge (← b.build)

end Assembly

def declared (f : String × String) : List Entry :=
  Item.entriesOf f.1 (fileModules f.1) ((fileItems? f.2).getD [])

theorem add_of_parses (index : Index) (path : String) {content : String}
    (parses : Parses content) :
    index.add path content = .ok (index.merge ⟨declared (path, content)⟩) := by
  obtain ⟨items, read⟩ := Option.isSome_iff_exists.1 parses
  rw [Index.add, Index.addFile?, declared, read]
  rfl

/-- What is put together is what the files declare. -/
theorem Assembly.build_of_parses {sources : Assembly} (parse : ∀ f ∈ sources.files, Parses f.2) :
    sources.build = .ok ⟨sources.files.flatMap declared⟩ := by
  induction sources with
  | empty => rfl
  | add sources path content ih =>
      rw [files, List.forall_mem_append] at parse
      obtain ⟨before, last⟩ := parse
      have added := add_of_parses ⟨sources.files.flatMap declared⟩ path
        (last _ (List.mem_singleton_self _))
      rw [build, ih before, files, List.flatMap_append, List.flatMap_singleton]
      exact added
  | merge a b first second =>
      rw [files, List.forall_mem_append] at parse
      rw [build, first parse.1, second parse.2, files, List.flatMap_append]
      rfl

theorem mapM_build_of_parses {parts : List Assembly}
    (parse : ∀ f ∈ parts.flatMap Assembly.files, Parses f.2) :
    parts.mapM Assembly.build = .ok (parts.map fun a => ⟨a.files.flatMap declared⟩) := by
  induction parts with
  | nil => rfl
  | cons a rest ih =>
      rw [List.flatMap_cons, List.forall_mem_append] at parse
      rw [List.mapM_cons, Assembly.build_of_parses parse.1, ih parse.2]
      rfl

end Source

/-! ## Compiling -/

namespace Schema

open Source (Index Assembly Parses declared)

variable {a b : Index}

theorem undefinedTypes_perm (same : a.entries.Perm b.entries) (types : List TypeRef) :
    undefinedTypes a types = undefinedTypes b types := by
  have alike (r : TypeRef) : a.find r = [] ↔ b.find r = [] := by
    have lengths := (Source.find_perm same r).length_eq
    rw [← List.length_eq_zero_iff, ← List.length_eq_zero_iff, lengths]
  simp only [undefinedTypes, alike]

theorem ambiguousTypes_perm (same : a.entries.Perm b.entries) (types : List TypeRef) :
    ambiguousTypes a types = ambiguousTypes b types := by
  simp only [ambiguousTypes, (Source.find_perm same _).length_eq]

/-- A type that is not ambiguous has at most one declaration. -/
theorem few_of_ambiguousTypes {types : List TypeRef} (empty : ambiguousTypes a types = [])
    {r : TypeRef} (listed : r ∈ types) : (a.find r).length ≤ 1 := by
  have few := List.filter_eq_nil_iff.1 empty r listed
  rw [decide_eq_true_iff] at few
  exact Nat.le_of_not_lt few

theorem resolve_draft_perm (same : a.entries.Perm b.entries) (d : Draft) (raw : String) :
    d.resolve raw a = d.resolve raw b := by
  rw [Draft.resolve, Draft.resolve, undefinedTypes_perm same, ← ambiguousTypes_perm same]
  split
  · rename_i unambiguous
    congr 2
    refine List.flatMap_congr fun (r, i) listed => ?_
    have few := few_of_ambiguousTypes unambiguous (List.fst_mem_of_mem_zipIdx listed)
    exact congrArg (List.map _) (Source.find_eq same few)
  · rfl
  · rfl

namespace Compiler

/-- A compiler that has the same entries to look at, in whatever order. -/
structure Alike (c c' : Compiler) : Prop where
  entries : c.sources.entries.Perm c'.sources.entries
  roots : c.roots = c'.roots

theorem compileDocument_alike {c c' : Compiler} (alike : c.Alike c') (raw : String)
    (document : Document) : c.compileDocument raw document = c'.compileDocument raw document := by
  obtain ⟨found, failure, load⟩ := Source.Root.adds_loadAll c'.roots
  unfold compileDocument
  rw [alike.roots, load, load]
  cases failure with
  | some e => rfl
  | none =>
      have same : (c.sources.merge ⟨found⟩).entries.Perm (c'.sources.merge ⟨found⟩).entries :=
        alike.entries.append_right found
      simp only [resolve_draft_perm same]

def addAll (c : Compiler) (parts : List Index) : Compiler :=
  parts.foldl addSources c

theorem entries_addAll (c : Compiler) (parts : List Index) :
    (c.addAll parts).sources.entries = c.sources.entries ++ parts.flatMap Index.entries := by
  induction parts generalizing c with
  | nil => exact (List.append_nil _).symm
  | cons part rest ih =>
      rw [addAll, List.foldl_cons, List.flatMap_cons, ← List.append_assoc]
      exact ih (c.addSources part)

theorem roots_addAll (c : Compiler) (parts : List Index) : (c.addAll parts).roots = c.roots := by
  induction parts generalizing c with
  | nil => rfl
  | cons part rest ih => exact ih (c.addSources part)

/-- What a compiler knows once it has been handed sources put together from files that can be
read. -/
theorem entries_known (c : Compiler) (parts : List Assembly) :
    (c.addAll (parts.map fun a => ⟨a.files.flatMap declared⟩)).sources.entries =
      c.sources.entries ++ (parts.flatMap Assembly.files).flatMap declared := by
  rw [entries_addAll, List.flatMap_map, List.flatMap_assoc]

/-- The order and the grouping of sources do not matter.  Take files that can all be read and put
them together in any two ways: file by file, in indices that are merged, in parts that a compiler
is handed one after the other.  Both compilers know the same: references lead to the same, there
are as many declarations, and every document compiles to the same schema or fails with the same
error.  If there are more files in the second way, no reference leads to fewer declarations. -/
theorem sources_in_any_order (c : Compiler) {parts parts' : List Assembly}
    {more : List (String × String)}
    (same : (parts.flatMap Assembly.files ++ more).Perm (parts'.flatMap Assembly.files))
    (parse : ∀ f ∈ parts'.flatMap Assembly.files, Parses f.2) :
    ∃ known known', parts.mapM Assembly.build = .ok known ∧
      parts'.mapM Assembly.build = .ok known' ∧
      (∀ r, ((c.addAll known).sources.resolve r).count ≤
        ((c.addAll known').sources.resolve r).count) ∧
      (more = [] →
        (∀ r, (c.addAll known).sources.resolve r = (c.addAll known').sources.resolve r) ∧
        (c.addAll known).sources.size = (c.addAll known').sources.size ∧
        ∀ raw document, (c.addAll known).compileDocument raw document =
          (c.addAll known').compileDocument raw document) := by
  have parse_all : ∀ f ∈ parts.flatMap Assembly.files ++ more, Parses f.2 :=
    fun f listed => parse f (same.mem_iff.1 listed)
  have perm : ((c.addAll (parts.map fun a => ⟨a.files.flatMap declared⟩)).sources.merge
        ⟨more.flatMap declared⟩).entries.Perm
      (c.addAll (parts'.map fun a => ⟨a.files.flatMap declared⟩)).sources.entries := by
    rw [Index.merge, entries_known, entries_known, List.append_assoc, ← List.flatMap_append]
    exact (same.flatMap_right declared).append_left _
  refine ⟨_, _, Source.mapM_build_of_parses (List.forall_mem_append.1 parse_all).1,
    Source.mapM_build_of_parses parse, fun r => ?_, fun nothing => ?_⟩
  · rw [Source.count_resolve, Source.count_resolve, ← (Source.find_perm perm r).length_eq,
      Source.find_merge, List.length_append]
    exact Nat.le_add_right _ _
  · rw [nothing, List.flatMap_nil, Source.merge_nil] at perm
    have roots (known known' : List Index) : (c.addAll known).roots = (c.addAll known').roots := by
      rw [roots_addAll, roots_addAll]
    exact ⟨Source.resolve_perm perm, perm.length_eq,
      compileDocument_alike ⟨perm, roots _ _⟩⟩

/-! ### Gates in two files -/

/-- Sources with a gate in each of two files that lead to the same module. -/
def gates : Assembly :=
  .add (.add .empty "posts.rs" "struct Gate;") "posts/mod.rs" "enum Gate { } struct Post;"

/-- The same files the other way round, as sources of their own that are merged, with one more
file behind. -/
def gatesApart (more : Assembly) : List Assembly :=
  [.merge (.add .empty "posts/mod.rs" "enum Gate { } struct Post;")
    (.add .empty "posts.rs" "struct Gate;"), more]

theorem gates_in_any_order :
    (∀ raw document, ∃ known known', [gates].mapM Assembly.build = .ok known ∧
      (gatesApart .empty).mapM Assembly.build = .ok known' ∧
      (new.addAll known).compileDocument raw document =
        (new.addAll known').compileDocument raw document) ∧
    ∃ known known', [gates].mapM Assembly.build = .ok known ∧
      (gatesApart (.add .empty "lib.rs" "mod posts { struct Gate; }")).mapM Assembly.build =
        .ok known' ∧
      ∀ r, ((new.addAll known).sources.resolve r).count ≤
        ((new.addAll known').sources.resolve r).count := by
  have apart : ([gates].flatMap Assembly.files ++ []).Perm
      ((gatesApart .empty).flatMap Assembly.files) := by decide
  have more : ([gates].flatMap Assembly.files ++ [("lib.rs", "mod posts { struct Gate; }")]).Perm
      ((gatesApart (.add .empty "lib.rs" "mod posts { struct Gate; }")).flatMap
        Assembly.files) := by decide
  refine ⟨fun raw document => ?_, ?_⟩
  · obtain ⟨known, known', built, built', -, alike⟩ :=
      sources_in_any_order new apart (by decide +kernel)
    exact ⟨known, known', built, built', (alike rfl).2.2 raw document⟩
  · obtain ⟨known, known', built, built', fewer, -⟩ :=
      sources_in_any_order new more (by decide +kernel)
    exact ⟨known, known', built, built', fewer⟩

end Compiler

end Schema

end EventSourcing
