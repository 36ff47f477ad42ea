import EventSourcing.Proofs.Schema.Grouping
import Mathlib.Data.Set.Card
import Mathlib.Data.List.Nodup

/-!
# Proofs.Source.Finding -- what a reference finds among sources

A declaration stands in a file at a site: the file's number, and from there the numbers of
the items on the way to it, each but the last a module (`Item.Stands`, `Declares`).  The same
modules may be reached through several files, so a reference is answered by counting sites.
The entries of an index are listed with their sites, and every site is listed once
(`mem_sited`, `nodup_sited`).  Main statement: a reference finds the declarations at exactly the
sites whose file and modules lead to it (`declarations_found_in_their_module`).
-/

namespace EventSourcing.Source

set_option autoImplicit false

/-! ## Where items stand -/

/-- The item that stands at a site, with the names of the modules around it from the outermost
inwards.  Nothing stands inside of an item other than a module. -/
inductive Item.Stands : List Item → List Nat → List String → Item → Prop where
  | here {items : List Item} {i : Nat} {item : Item} (listed : items[i]? = some item) :
      Stands items [i] [] item
  | inside {items inner : List Item} {i : Nat} {name : String} {site : List Nat}
      {modules : List String} {item : Item} (listed : items[i]? = some (.module name inner))
      (within : Stands inner site modules item) :
      Stands items (i :: site) (name :: modules) item

/-- What items declare at a site, if they stand in a file and in some modules: a type, in those
modules and the ones around it, with the place of its name and the documentation that its
attributes hold. -/
inductive Item.Declares (file : String) (modules : List String) (items : List Item) :
    List Nat → Entry → Prop where
  | type {site : List Nat} {inner : List String} {kind : DeclarationKind} {name : String}
      {place : Position} {attributes : List Attribute}
      (stands : Item.Stands items site inner (.type kind name place attributes)) :
      Declares file modules items site
        ⟨modules ++ inner, name, ⟨kind, file, place, attributes.flatMap Attribute.docLines⟩⟩

/-- What files declare at a site, which begins with the number of the file. -/
inductive Declares (files : List (String × String)) : List Nat → Entry → Prop where
  | inFile {i : Nat} {path content : String} {items : List Item} {site : List Nat} {e : Entry}
      (file : files[i]? = some (path, content)) (read : fileItems? content = some items)
      (declares : Item.Declares path (fileModules path) items site e) :
      Declares files (i :: site) e

/-! ## Listing parts by their numbers -/

section Numbered

variable {α β : Type} {f : α → List (List Nat × β)} {start : Nat} {xs : List α}

/-- What is listed in each part, with the number of the part put in front of its site. -/
def numbered (f : α → List (List Nat × β)) (start : Nat) : List α → List (List Nat × β)
  | [] => []
  | x :: rest => (f x).map (Prod.map (start :: ·) id) ++ numbered f (start + 1) rest

theorem mem_numbered {site : List Nat} {b : β} :
    (site, b) ∈ numbered f start xs ↔
      ∃ i x inner, xs[i]? = some x ∧ (inner, b) ∈ f x ∧ site = (start + i) :: inner := by
  induction xs generalizing start with
  | nil => simp [numbered]
  | cons x rest ih =>
      rw [numbered, List.mem_append, ih]
      constructor
      · rintro (first | ⟨i, y, inner, listed, member, rfl⟩)
        · obtain ⟨⟨inner, b'⟩, member, same⟩ := List.mem_map.1 first
          cases same
          exact ⟨0, x, inner, rfl, member, rfl⟩
        · exact ⟨i + 1, y, inner, listed, member, by rw [Nat.add_right_comm, Nat.add_assoc]⟩
      · rintro ⟨i, y, inner, listed, member, rfl⟩
        cases i with
        | zero =>
            cases listed
            exact .inl (List.mem_map.2 ⟨(inner, b), member, rfl⟩)
        | succ i =>
            exact .inr ⟨i, y, inner, listed, member, by rw [Nat.add_right_comm, Nat.add_assoc]⟩

theorem map_snd_numbered :
    (numbered f start xs).map Prod.snd = xs.flatMap fun x => (f x).map Prod.snd := by
  induction xs generalizing start with
  | nil => rfl
  | cons x rest ih =>
      rw [numbered, List.map_append, ih, List.map_map, List.flatMap_cons]
      rfl

/-- Different parts have different numbers, so no site is listed twice if none is in a part. -/
theorem nodup_numbered (each : ∀ x ∈ xs, ((f x).map Prod.fst).Nodup) :
    ((numbered f start xs).map Prod.fst).Nodup := by
  induction xs generalizing start with
  | nil => exact List.nodup_nil
  | cons x rest ih =>
      obtain ⟨first, later⟩ := List.forall_mem_cons.1 each
      have heads : ((f x).map (Prod.map (start :: ·) id)).map Prod.fst =
          ((f x).map Prod.fst).map (start :: ·) := by
        rw [List.map_map, List.map_map]
        rfl
      rw [numbered, List.map_append, heads, List.nodup_append]
      refine ⟨first.map List.cons_injective, ih later, ?_⟩
      intro site inFirst other inLater same
      subst same
      obtain ⟨inner, _, rfl⟩ := List.mem_map.1 inFirst
      obtain ⟨⟨_, b⟩, member, rfl⟩ := List.mem_map.1 inLater
      obtain ⟨i, y, inner', _, _, clash⟩ := mem_numbered.1 member
      have numbers : start = start + 1 + i := (List.cons.inj clash).1
      omega

end Numbered

/-! ## The sites of items -/

mutual

/-- The declarations of an item, each with the way to it from there. -/
def Item.sited (file : String) (modules : List String) : Item → List (List Nat × Entry)
  | .type kind name place attributes =>
      [([], ⟨modules, name, ⟨kind, file, place, attributes.flatMap Attribute.docLines⟩⟩)]
  | .module name items => Item.sitedFrom file (modules ++ [name]) 0 items
  | .other => []

/-- The declarations of some items, which are numbered from `start` on. -/
def Item.sitedFrom (file : String) (modules : List String) (start : Nat) :
    List Item → List (List Nat × Entry)
  | [] => []
  | item :: rest =>
      (Item.sited file modules item).map (Prod.map (start :: ·) id) ++
        Item.sitedFrom file modules (start + 1) rest

end

namespace Item

variable {file : String} {modules : List String}

theorem sitedFrom_eq (start : Nat) (items : List Item) :
    sitedFrom file modules start items = numbered (sited file modules) start items := by
  induction items generalizing start with
  | nil => rw [sitedFrom, numbered]
  | cons item rest ih => rw [sitedFrom, numbered, ih]

theorem entriesOf_eq (items : List Item) :
    entriesOf file modules items = items.flatMap (entries file modules) := by
  induction items with
  | nil => rw [entriesOf, List.flatMap_nil]
  | cons item rest ih => rw [entriesOf, List.flatMap_cons, ih]

variable {P : Item → Prop}

mutual

/-- What holds of an item holds because of what stands in it. -/
@[elab_as_elim]
theorem induct (type : ∀ kind name place attributes, P (.type kind name place attributes))
    (module : ∀ name items, (∀ item ∈ items, P item) → P (.module name items))
    (other : P .other) : (item : Item) → P item
  | .type kind name place attributes => type kind name place attributes
  | .module name items => module name items (induct_each type module other items)
  | .other => other

theorem induct_each (type : ∀ kind name place attributes, P (.type kind name place attributes))
    (module : ∀ name items, (∀ item ∈ items, P item) → P (.module name items))
    (other : P .other) : (items : List Item) → ∀ item ∈ items, P item
  | [] => fun _ member => (List.not_mem_nil member).elim
  | item :: rest =>
      List.forall_mem_cons.2 ⟨induct type module other item, induct_each type module other rest⟩

end

theorem map_snd_sited (item : Item) :
    (sited file modules item).map Prod.snd = entries file modules item := by
  induction item using induct generalizing modules with
  | type kind name place attributes =>
      rw [sited, entries]
      rfl
  | module name items ih =>
      rw [sited, entries, sitedFrom_eq, entriesOf_eq, map_snd_numbered]
      exact List.flatMap_congr fun item listed => ih item listed
  | other =>
      rw [sited, entries]
      rfl

theorem nodup_sited (item : Item) : ((sited file modules item).map Prod.fst).Nodup := by
  induction item using induct generalizing modules with
  | type kind name place attributes =>
      rw [sited]
      exact List.nodup_singleton _
  | module name items ih =>
      rw [sited, sitedFrom_eq]
      exact nodup_numbered fun item listed => ih item listed
  | other =>
      rw [sited]
      exact List.nodup_nil

/-- What items declare in a module, seen from where the module stands. -/
theorem Declares.inside {items inner : List Item} {i : Nat} {name : String} {site : List Nat}
    {e : Entry} (listed : items[i]? = some (.module name inner))
    (declares : Declares file (modules ++ [name]) inner site e) :
    Declares file modules items (i :: site) e := by
  cases declares with
  | type stands =>
      rw [List.append_assoc]
      exact .type (.inside listed stands)

/-- An item is listed with what it declares where it stands. -/
theorem declares_of_mem_sited {item : Item} {items : List Item} {i : Nat} {site : List Nat}
    {e : Entry} (listed : items[i]? = some item) (member : (site, e) ∈ sited file modules item) :
    Declares file modules items (i :: site) e := by
  induction item using induct generalizing modules items i site with
  | type kind name place attributes =>
      rw [sited, List.mem_singleton] at member
      cases member
      have declares : Declares file modules items [i] ⟨modules ++ [], name, ⟨kind, file, place,
          attributes.flatMap Attribute.docLines⟩⟩ := .type (.here listed)
      rwa [List.append_nil] at declares
  | module name inner ih =>
      rw [sited, sitedFrom_eq] at member
      obtain ⟨k, item, below, listed_item, within, rfl⟩ := mem_numbered.1 member
      rw [Nat.zero_add]
      exact .inside listed (ih item (List.mem_of_getElem? listed_item) listed_item within)
  | other =>
      rw [sited] at member
      cases member

theorem mem_sitedFrom_of_stands {items : List Item} {site : List Nat} {inner : List String}
    {kind : DeclarationKind} {name : String} {place : Position} {attributes : List Attribute}
    (stands : Stands items site inner (.type kind name place attributes)) :
    (site, ⟨modules ++ inner, name, ⟨kind, file, place, attributes.flatMap Attribute.docLines⟩⟩) ∈
      sitedFrom file modules 0 items := by
  generalize same : Item.type kind name place attributes = item at stands
  induction stands generalizing modules with
  | @here items i item listed =>
      subst same
      rw [sitedFrom_eq, mem_numbered]
      refine ⟨i, _, [], listed, ?_, by rw [Nat.zero_add]⟩
      rw [sited, List.append_nil]
      exact List.mem_singleton_self _
  | @inside items inner i module_name site modules' item listed within ih =>
      have member := @ih (modules ++ [module_name]) same
      rw [List.append_assoc] at member
      rw [sitedFrom_eq, mem_numbered]
      refine ⟨i, _, site, listed, ?_, by rw [Nat.zero_add]⟩
      rw [sited]
      exact member

/-- The declarations of items are listed by the sites at which they stand. -/
theorem mem_sited {items : List Item} {site : List Nat} {e : Entry} :
    (site, e) ∈ sitedFrom file modules 0 items ↔ Declares file modules items site e := by
  constructor
  · intro member
    rw [sitedFrom_eq] at member
    obtain ⟨i, item, below, listed, within, rfl⟩ := mem_numbered.1 member
    rw [Nat.zero_add]
    exact declares_of_mem_sited listed within
  · rintro ⟨stands⟩
    exact mem_sitedFrom_of_stands stands

/-- The declarations of items are those at their sites. -/
theorem mem_entriesOf {items : List Item} {e : Entry} :
    e ∈ entriesOf file modules items ↔ ∃ site, Declares file modules items site e := by
  have listed : entriesOf file modules items = (sitedFrom file modules 0 items).map Prod.snd := by
    rw [entriesOf_eq, sitedFrom_eq, map_snd_numbered]
    exact List.flatMap_congr fun item _ => (map_snd_sited item).symm
  rw [listed, List.mem_map]
  constructor
  · rintro ⟨⟨site, e⟩, member, rfl⟩
    exact ⟨site, mem_sited.1 member⟩
  · rintro ⟨site, declares⟩
    exact ⟨(site, e), mem_sited.2 declares, rfl⟩

end Item

/-! ## The sites of files -/

variable {files : List (String × String)}

/-- The declarations of a file, each with the way to it in the file. -/
def sitedIn (f : String × String) : List (List Nat × Entry) :=
  Item.sitedFrom f.1 (fileModules f.1) 0 ((fileItems? f.2).getD [])

def sites (files : List (String × String)) : List (List Nat × Entry) :=
  numbered sitedIn 0 files

theorem mem_sites (parse : ∀ f ∈ files, Parses f.2) {site : List Nat} {e : Entry} :
    (site, e) ∈ sites files ↔ Declares files site e := by
  rw [sites, mem_numbered]
  constructor
  · rintro ⟨i, ⟨path, content⟩, inner, file, member, rfl⟩
    obtain ⟨items, read⟩ := Option.isSome_iff_exists.1 (parse _ (List.mem_of_getElem? file))
    rw [sitedIn, read] at member
    rw [Nat.zero_add]
    exact .inFile file read (Item.mem_sited.1 member)
  · rintro ⟨file, read, declares⟩
    refine ⟨_, _, _, file, ?_, by rw [Nat.zero_add]⟩
    rw [sitedIn, read]
    exact Item.mem_sited.2 declares

theorem map_snd_sites : (sites files).map Prod.snd = files.flatMap declared := by
  rw [sites, map_snd_numbered]
  refine List.flatMap_congr fun f _ => ?_
  rw [sitedIn, Item.sitedFrom_eq, map_snd_numbered, declared, Item.entriesOf_eq]
  exact List.flatMap_congr fun item _ => Item.map_snd_sited item

theorem nodup_sites : ((sites files).map Prod.fst).Nodup := by
  refine nodup_numbered fun f _ => ?_
  rw [sitedIn, Item.sitedFrom_eq]
  exact nodup_numbered fun item _ => Item.nodup_sited item

/-- There are as many sites with a property as entries that have it. -/
theorem encard_sites (parse : ∀ f ∈ files, Parses f.2) (p : Entry → Bool) :
    {site | ∃ e, Declares files site e ∧ p e}.encard =
      (((files.flatMap declared).filter p).length : ℕ∞) := by
  have keys : (((sites files).filter (p ∘ Prod.snd)).map Prod.fst).Nodup :=
    nodup_sites.sublist (List.filter_sublist.map _)
  have listed : {site | ∃ e, Declares files site e ∧ p e} =
      ((((sites files).filter (p ∘ Prod.snd)).map Prod.fst).toFinset : Set (List Nat)) := by
    ext site
    simp [← mem_sites parse]
  rw [listed, Set.encard_coe_eq_coe_finsetCard, List.toFinset_card_of_nodup keys, List.length_map,
    ← map_snd_sites, List.filter_map, List.length_map]

/-! ## What references find -/

namespace Index

variable {index : Index} {r : TypeRef} {d : Declaration} {n : Nat}

theorem resolve_eq_missing_iff : index.resolve r = .missing ↔ index.find r = [] := by
  rw [resolve]
  split <;> simp_all

theorem resolve_eq_found_iff : index.resolve r = .found d ↔ index.find r = [d] := by
  rw [resolve]
  split <;> simp_all

theorem resolve_eq_ambiguous_iff :
    index.resolve r = .ambiguous n ↔ 2 ≤ n ∧ (index.find r).length = n := by
  have count := count_resolve index r
  constructor
  · intro several
    rw [several, Resolution.count] at count
    refine ⟨?_, count.symm⟩
    rw [resolve] at several
    split at several
    · cases several
    · cases several
    · rename_i empty one
      have not_none : (index.find r).length ≠ 0 := fun len => empty (List.length_eq_zero_iff.1 len)
      have not_one : (index.find r).length ≠ 1 := by
        intro len
        obtain ⟨d, found⟩ := List.length_eq_one_iff.1 len
        exact one d found
      omega
  · rintro ⟨many, rfl⟩
    exact resolve_of_many many

end Index

def addFiles (files : List (String × String)) (index : Index) : Except LoadError Index :=
  files.foldlM (fun index f => index.add f.1 f.2) index

theorem addFiles_of_parses (parse : ∀ f ∈ files, Parses f.2) (index : Index) :
    addFiles files index = .ok (index.merge ⟨files.flatMap declared⟩) := by
  induction files generalizing index with
  | nil =>
      rw [List.flatMap_nil, merge_nil]
      rfl
  | cons f rest ih =>
      obtain ⟨first, later⟩ := List.forall_mem_cons.1 parse
      have added := add_of_parses index f.1 first
      have rest_added := ih later (index.merge ⟨declared f⟩)
      rw [merge_merge] at rest_added
      rw [addFiles, List.foldlM_cons, added, List.flatMap_cons]
      exact rest_added

/-- The sites that a reference means: what stands there has the reference's name, and the
reference's modules lead to it. -/
def sitesFor (files : List (String × String)) (r : TypeRef) : Set (List Nat) :=
  {site | ∃ d, Declares files site ⟨r.modules, r.name, d⟩}

theorem encard_sitesFor (parse : ∀ f ∈ files, Parses f.2) (r : TypeRef) :
    (sitesFor files r).encard = (((Index.mk (files.flatMap declared)).find r).length : ℕ∞) := by
  have same : sitesFor files r = {site | ∃ e, Declares files site e ∧
      decide (e.modules = r.modules ∧ e.name = r.name)} := by
    ext site
    constructor
    · rintro ⟨d, declares⟩
      exact ⟨_, declares, by simp⟩
    · rintro ⟨⟨modules, name, d⟩, declares, leads⟩
      obtain ⟨rfl, rfl⟩ := of_decide_eq_true leads
      exact ⟨d, declares⟩
  rw [same, encard_sites parse, Index.find, List.length_map]

theorem mem_find (parse : ∀ f ∈ files, Parses f.2) {r : TypeRef} {d : Declaration} :
    d ∈ (Index.mk (files.flatMap declared)).find r ↔
      ∃ site, Declares files site ⟨r.modules, r.name, d⟩ := by
  rw [Index.find, ← map_snd_sites]
  simp only [List.mem_map, List.mem_filter, Prod.exists, exists_eq_right]
  constructor
  · rintro ⟨⟨modules, name, d⟩, ⟨⟨site, listed⟩, leads⟩, rfl⟩
    obtain ⟨rfl, rfl⟩ := of_decide_eq_true leads
    exact ⟨site, (mem_sites parse).1 listed⟩
  · rintro ⟨site, declares⟩
    exact ⟨_, ⟨⟨site, (mem_sites parse).2 declares⟩, by simp⟩, rfl⟩

/-- Declarations are found in exactly their module.  Take files that can all be read.  Added one
after the other, they make up an index that holds one declaration for each site at which a type
stands in one of them, at any depth of modules.  A reference finds as many as there are sites
with its name to which its modules lead: those of the file, then those around it in the file.  If
there is no such site, it is missing; if there is one, what stands there is found; and if there
are more, it is ambiguous, with their number. -/
theorem declarations_found_in_their_module (parse : ∀ f ∈ files, Parses f.2) :
    ∃ index, addFiles files .empty = .ok index ∧
      {site | ∃ e, Declares files site e}.encard = index.size ∧
      ∀ r : TypeRef,
        (sitesFor files r).encard = (index.find r).length ∧
        (index.resolve r = .missing ↔ sitesFor files r = ∅) ∧
        (∀ d, index.resolve r = .found d ↔
          ∃ site, sitesFor files r = {site} ∧ Declares files site ⟨r.modules, r.name, d⟩) ∧
        (∀ n : Nat, index.resolve r = .ambiguous n ↔ 2 ≤ n ∧ (sitesFor files r).encard = n) := by
  refine ⟨⟨files.flatMap declared⟩, addFiles_of_parses parse _, ?_, fun r => ?_⟩
  · have all := encard_sites parse fun _ => true
    simp only [and_true] at all
    rw [all, List.filter_true]
    rfl
  · have count := encard_sitesFor parse r
    refine ⟨count, ?_, fun d => ?_, fun n => ?_⟩
    · rw [Index.resolve_eq_missing_iff, ← Set.encard_eq_zero, count, Nat.cast_eq_zero,
        List.length_eq_zero_iff]
    · rw [Index.resolve_eq_found_iff]
      constructor
      · intro found
        obtain ⟨site, declares⟩ := (mem_find parse).1 (found ▸ List.mem_singleton_self d)
        rw [found, List.length_singleton, Nat.cast_one, Set.encard_eq_one] at count
        obtain ⟨only, one⟩ := count
        have here : site ∈ sitesFor files r := ⟨d, declares⟩
        rw [one, Set.mem_singleton_iff] at here
        exact ⟨site, here ▸ one, declares⟩
      · rintro ⟨site, one, declares⟩
        rw [one, Set.encard_singleton] at count
        obtain ⟨d', found⟩ := List.length_eq_one_iff.1 (Nat.cast_eq_one.1 count.symm)
        have member := (mem_find parse).2 ⟨site, declares⟩
        rw [found, List.mem_singleton] at member
        rw [found, member]
    · rw [Index.resolve_eq_ambiguous_iff, count, Nat.cast_inj]

/-! ### Two gates -/

/-- Two files for the same modules: one type that both declare, one that only the second does,
and one that stands in a function. -/
def twoGates : List (String × String) :=
  [("posts.rs", "mod gate { struct Bar; }"),
    ("posts/mod.rs", "mod gate { enum Bar {} union Hinge { a: u8 } }
      mod shut; fn open() { struct Bar; }")]

theorem twoGates_found :
    (sitesFor twoGates ⟨["posts", "gate"], "Bar"⟩).encard = 2 ∧
      (sitesFor twoGates ⟨["posts", "gate"], "Hinge"⟩).encard = 1 ∧
      sitesFor twoGates ⟨["posts"], "Bar"⟩ = ∅ ∧
      {site | ∃ e, Declares twoGates site e}.encard = 3 := by
  have parse : ∀ f ∈ twoGates, Parses f.2 := by decide +kernel
  obtain ⟨index, added, size, finds⟩ := declarations_found_in_their_module parse
  have counts : (addFiles twoGates .empty).toOption.map (fun index =>
      ((index.find ⟨["posts", "gate"], "Bar"⟩).length,
        (index.find ⟨["posts", "gate"], "Hinge"⟩).length,
        index.resolve ⟨["posts"], "Bar"⟩, index.size)) = some (2, 1, .missing, 3) := by
    decide +kernel
  rw [added] at counts
  obtain ⟨bars, hinges, missing, all⟩ : (index.find ⟨["posts", "gate"], "Bar"⟩).length = 2 ∧
      (index.find ⟨["posts", "gate"], "Hinge"⟩).length = 1 ∧
      index.resolve ⟨["posts"], "Bar"⟩ = .missing ∧ index.size = 3 := by
    simpa [Except.toOption] using counts
  refine ⟨?_, ?_, (finds _).2.1.1 missing, ?_⟩
  · rw [(finds _).1, bars]
    rfl
  · rw [(finds _).1, hinges]
    rfl
  · rw [size, all]
    rfl

end EventSourcing.Source
