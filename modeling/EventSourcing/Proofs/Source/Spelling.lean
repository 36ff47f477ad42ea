import EventSourcing.Proofs.Name.Reference
import EventSourcing.Proofs.Source.Finding

/-!
# Proofs.Source.Spelling -- one file under many paths

Of the pieces of a path between its slashes, empty ones and dots need not be there; the others are
the names that the path leads through (`Files.Spells`).  The names tell the modules of the file,
however many needless pieces stand between and behind them.  Only a dot or a slash at the very
beginning counts: it is put in front of the modules (`Files.lead`), where no reference leads.  Main
statement: `Source.modules_follow_names_behind_lead`.
-/

namespace EventSourcing

set_option autoImplicit false

namespace Files

/-! ## Names between needless pieces -/

/-- A piece of a path that need not be there. -/
def Needless (piece : List Char) : Prop :=
  piece = [] ∨ piece = ['.']

instance (piece : List Char) : Decidable (Needless piece) :=
  inferInstanceAs (Decidable (piece = [] ∨ piece = ['.']))

/-- A path leads through names: they are its pieces, but for those that need not be there. -/
def Spells (path : String) (names : List String) : Prop :=
  (path.toList.splitOn '/').filter (fun piece => ¬ Needless piece) = names.map String.toList

instance (path : String) (names : List String) : Decidable (Spells path names) :=
  inferInstanceAs (Decidable (_ = _))

/-- What a path begins with if it does not begin with a name. -/
def lead (path : String) : List Component :=
  match path.toList.splitOn '/' with
  | [] => []
  | first :: _ => if first = [] then [.root] else if first = ['.'] then [.here] else []

variable {path name : String} {names : List String} {pieces : List (List Char)}

theorem IsName.not_needless (valid : IsName name) : ¬ Needless name.toList := by
  rintro (empty | dot)
  · exact valid.filled empty
  · exact valid.notHere dot

theorem component_name (first : Bool) (valid : IsName name) :
    component? first name.toList = some (.name name) := by
  rw [component?, if_neg (by simpa using valid.filled), if_neg valid.notHere, if_neg valid.notUp,
    String.ofList_toList]

theorem component_needless {piece : List Char} (needless : Needless piece) :
    component? false piece = none := by
  rcases needless with rfl | rfl <;> rfl

/-- Behind the first piece, exactly the names are parts of a path. -/
theorem filterMap_component (ordinary : ∀ n ∈ names, IsName n)
    (left : pieces.filter (fun piece => ¬ Needless piece) = names.map String.toList) :
    pieces.filterMap (component? false) = names.map .name := by
  induction pieces generalizing names with
  | nil =>
      have empty : names = [] := List.map_eq_nil_iff.1 left.symm
      rw [empty]
      rfl
  | cons piece rest ih =>
      by_cases needless : Needless piece
      · rw [List.filter_cons_of_neg (by simpa using needless)] at left
        rw [List.filterMap_cons_none (component_needless needless), ih ordinary left]
      · rw [List.filter_cons_of_pos (by simpa using needless)] at left
        obtain ⟨name, others, rfl, rfl, later⟩ := List.map_eq_cons_iff.1 left.symm
        obtain ⟨first, later_ordinary⟩ := List.forall_mem_cons.1 ordinary
        rw [List.filterMap_cons_some (component_name false first), ih later_ordinary later.symm,
          List.map_cons]

/-- The parts of a path are the names that it leads through, behind what it begins with. -/
theorem components_of_spells (ordinary : ∀ n ∈ names, IsName n) (nonempty : names ≠ [])
    (spelled : Spells path names) : components path = lead path ++ names.map .name := by
  obtain ⟨first, rest, split⟩ :=
    List.exists_cons_of_ne_nil (List.splitOn_ne_nil '/' path.toList)
  rw [Spells, split] at spelled
  rw [components, lead, split]
  by_cases needless : Needless first
  · rw [List.filter_cons_of_neg (by simpa using needless)] at spelled
    have parts := filterMap_component ordinary spelled
    rcases needless with rfl | rfl
    · have more : rest ≠ [] := by
        rintro rfl
        exact nonempty (List.map_eq_nil_iff.1 spelled.symm)
      have present : rest.isEmpty = false := by simpa using more
      dsimp only
      rw [present, parts]
      rfl
    · exact congrArg (Component.here :: ·) parts
  · rw [List.filter_cons_of_pos (by simpa using needless)] at spelled
    obtain ⟨name, others, rfl, rfl, later⟩ := List.map_eq_cons_iff.1 spelled.symm
    obtain ⟨valid, later_ordinary⟩ := List.forall_mem_cons.1 ordinary
    have filled : name.toList.isEmpty = false := by simpa using valid.filled
    dsimp only
    rw [if_neg valid.filled, if_neg valid.notHere, filled, component_name true valid,
      filterMap_component later_ordinary later.symm]
    rfl

/-- A path through no names has at most one part, and that is no name. -/
theorem components_of_spells_nil (spelled : Spells path []) :
    components path = [] ∨ components path = [.root] ∨ components path = [.here] := by
  obtain ⟨first, rest, split⟩ :=
    List.exists_cons_of_ne_nil (List.splitOn_ne_nil '/' path.toList)
  rw [Spells, split] at spelled
  rw [components, split]
  have needless : Needless first := by
    by_contra counts
    rw [List.filter_cons_of_pos (by simpa using counts)] at spelled
    cases spelled
  rw [List.filter_cons_of_neg (by simpa using needless)] at spelled
  have parts := filterMap_component (fun n member => (List.not_mem_nil member).elim) spelled
  dsimp only
  rw [parts]
  rcases needless with rfl | rfl
  · cases rest with
    | nil => exact .inl rfl
    | cons next more => exact .inr (.inl rfl)
  · exact .inr (.inr rfl)

end Files

namespace Source

open EventSourcing.Files (IsName Spells lead Component)

/-! ## The modules of a file -/

/-- The modules that the names on the way to a file tell: those of its directories, and its own
name without its extension unless it stands for its directory. -/
def modulesAlong (names : List String) : List String :=
  match names.getLast? with
  | none => []
  | some file =>
      let stem := (Files.splitName file).1
      names.dropLast ++ if directoryNames.contains stem then [] else [stem]

variable {path file : String} {names modules : List String}

theorem fileModules_of_spells (ordinary : ∀ n ∈ names, IsName n) (spelled : Spells path names) :
    fileModules path =
      if names = [] then [] else (lead path).map Component.text ++ modulesAlong names := by
  by_cases empty : names = []
  · subst empty
    rw [if_pos rfl, fileModules, Files.parent, Files.stem?, Files.fileName?]
    rcases Files.components_of_spells_nil spelled with parts | parts | parts <;> rw [parts] <;> rfl
  · obtain ⟨directories, name, rfl⟩ := (List.eq_nil_or_concat names).resolve_left empty
    have parts := Files.components_of_spells ordinary empty spelled
    rw [List.concat_eq_append, List.map_append, List.map_singleton, ← List.append_assoc] at parts
    have named : Component.text ∘ Component.name = id := rfl
    rw [if_neg empty, List.concat_eq_append, modulesAlong, fileModules, Files.parent, Files.stem?,
      Files.fileName?, parts, List.getLast?_concat, List.getLast?_concat]
    dsimp only
    rw [List.dropLast_concat, List.dropLast_concat, List.map_append, List.map_map, named,
      List.map_id]
    dsimp only [Option.map_some]
    split
    · rw [List.append_nil]
    · rw [List.append_assoc]

/-- What is declared in a file is in its modules or in modules that stand in the file. -/
theorem prefix_of_mem_entriesOf {items : List Item} {e : Entry}
    (member : e ∈ Item.entriesOf file modules items) : modules <+: e.modules := by
  obtain ⟨_, ⟨_⟩⟩ := Item.mem_entriesOf.1 member
  exact List.prefix_append modules _

theorem not_follows_lead {part : Component} (leads : part ∈ lead path) :
    ¬ Name.Follows .module part.text := by
  rintro ⟨c, rest, shape, begins, -⟩
  unfold lead at leads
  split at leads
  · cases leads
  · split at leads
    · rw [List.mem_singleton.1 leads] at shape
      cases shape
      exact absurd begins (by decide)
    · split at leads
      · rw [List.mem_singleton.1 leads] at shape
        cases shape
        exact absurd begins (by decide)
      · cases leads

/-- No reference leads into the modules of a file whose path does not begin with a name. -/
theorem find_behind_lead (led : lead path ≠ []) {text : String} {r : TypeRef}
    (parsed : TypeRef.parse text = .ok r) (items : List Item) :
    Index.find ⟨Item.entriesOf file ((lead path).map Component.text ++ modules) items⟩ r = [] := by
  rw [Index.find, List.map_eq_nil_iff, List.filter_eq_nil_iff]
  intro e member leads
  obtain ⟨same, -⟩ := of_decide_eq_true leads
  have before := (List.prefix_append _ modules).trans (prefix_of_mem_entriesOf member)
  obtain ⟨part, more, shape⟩ := List.exists_cons_of_ne_nil led
  have leads : part ∈ lead path := shape ▸ List.mem_cons_self
  have known : part.text ∈ r.modules := same ▸ before.subset (List.mem_map_of_mem leads)
  exact not_follows_lead leads ((TypeRef.follows_of_parse parsed).2.1 _ known)

theorem splitOn_relative (ordinary : ∀ n ∈ names, IsName n) (filled : names ≠ []) :
    (relative names).toList.splitOn '/' = names.map String.toList := by
  have apart : ∀ piece ∈ names.map String.toList, '/' ∉ piece := by
    simpa only [List.forall_mem_map] using fun n member => (ordinary n member).single
  have slash : "/".toList = ['/'] := rfl
  rw [relative, String.toList_intercalate, slash,
    List.splitOn_intercalate '/' apart (mt List.map_eq_nil_iff.1 filled)]

/-- Names with single slashes between them are a path that leads through them. -/
theorem spells_relative (ordinary : ∀ n ∈ names, IsName n) : Spells (relative names) names := by
  by_cases empty : names = []
  · rw [empty]
    rfl
  · rw [Spells, splitOn_relative ordinary empty, List.filter_eq_self]
    simpa using fun n member => (ordinary n member).not_needless

theorem lead_relative (ordinary : ∀ n ∈ names, IsName n) (nonempty : names ≠ []) :
    lead (relative names) = [] := by
  obtain ⟨name, others, rfl⟩ := List.exists_cons_of_ne_nil nonempty
  have valid : IsName name := ordinary name List.mem_cons_self
  rw [lead, splitOn_relative ordinary nonempty, List.map_cons]
  dsimp only
  rw [if_neg valid.filled, if_neg valid.notHere]

/-- The names that a path leads through tell the modules of its file, however the path is spelled:
those of the directories, and the file's own name without its extension unless it stands for its
directory.  Needless slashes and dots between and behind the names change nothing.  But a path that
does not begin with a name puts the dot or the slash with which it begins in front of the modules,
and then no reference finds what the file declares. -/
theorem modules_follow_names_behind_lead (ordinary : ∀ n ∈ names, IsName n)
    (spelled : Spells path names) :
    fileModules (relative names) = modulesAlong names ∧
    fileModules path =
      (if names = [] then [] else (lead path).map Component.text ++ modulesAlong names) ∧
    ∀ (index : Index) (content : String),
      (fileItems? content = none → index.add path content = .error (.malformed path)) ∧
      ∀ items, fileItems? content = some items → ∃ added, index.add path content = .ok added ∧
        added = index.merge ⟨Item.entriesOf path (fileModules path) items⟩ ∧
        (names ≠ [] → lead path ≠ [] → ∀ text r, TypeRef.parse text = .ok r →
          added.find r = index.find r) := by
  have told := fileModules_of_spells ordinary spelled
  refine ⟨?_, told, fun index content => ⟨fun malformed => ?_, fun items read => ?_⟩⟩
  · rw [fileModules_of_spells ordinary (spells_relative ordinary)]
    split
    · rename_i empty
      rw [empty]
      rfl
    · rename_i nonempty
      rw [lead_relative ordinary nonempty]
      rfl
  · rw [Index.add, Index.addFile?, malformed]
    rfl
  · refine ⟨_, ?_, rfl, fun filled led text r parsed => ?_⟩
    · rw [Index.add, Index.addFile?, read]
      rfl
    · rw [if_neg filled] at told
      rw [find_merge, told, find_behind_lead led parsed, List.append_nil]

/-! ### Bills -/

/-- A path with all kinds of needless pieces. -/
theorem billing_behind_dot :
    (∀ n ∈ ["billing", "bill.rs"], IsName n) ∧
      Spells ".//billing/./bill.rs/" ["billing", "bill.rs"] ∧
      fileModules "billing/bill.rs" = ["billing", "bill"] ∧
      fileModules ".//billing/./bill.rs/" = [".", "billing", "bill"] ∧
      ∃ added, Index.empty.add ".//billing/./bill.rs/" "struct Bill;" = .ok added ∧
        added.size = 1 ∧ added.find ⟨["billing", "bill"], "Bill"⟩ = [] := by
  have ordinary : ∀ n ∈ ["billing", "bill.rs"], IsName n :=
    List.forall_mem_cons.2 ⟨⟨by decide, by decide, by decide, by decide⟩,
      List.forall_mem_singleton.2 ⟨by decide, by decide, by decide, by decide⟩⟩
  have spelled : Spells ".//billing/./bill.rs/" ["billing", "bill.rs"] := by decide +kernel
  obtain ⟨plain, led, adds⟩ := modules_follow_names_behind_lead ordinary spelled
  obtain ⟨items, read⟩ : ∃ items, fileItems? "struct Bill;" = some items :=
    Option.isSome_iff_exists.1 (by decide +kernel)
  obtain ⟨added, done, _, hidden⟩ := (adds .empty "struct Bill;").2 items read
  have parsed : TypeRef.parse "billing.bill.Bill" = .ok ⟨["billing", "bill"], "Bill"⟩ := rfl
  refine ⟨ordinary, spelled, plain.trans (by decide +kernel), led.trans (by decide +kernel), added,
    done, ?_, hidden (by decide) (by decide +kernel) _ _ parsed⟩
  have size : (Index.empty.add ".//billing/./bill.rs/" "struct Bill;").toOption.map Index.size =
      some 1 := by decide +kernel
  rw [done] at size
  exact Option.some.inj size

/-- One file by two paths through the same name: one of them hides what it declares. -/
theorem bill_lost_behind_dot :
    IsName "bill.rs" ∧ Spells "bill.rs" ["bill.rs"] ∧ Spells "./bill.rs" ["bill.rs"] ∧
      fileModules "./bill.rs" ≠ fileModules "bill.rs" ∧
      (Index.empty.add "bill.rs" "struct Bill;").toOption.map (·.resolve ⟨["bill"], "Bill"⟩) =
        some (.found ⟨.struct, "bill.rs", ⟨1, 8⟩, []⟩) ∧
      (Index.empty.add "./bill.rs" "struct Bill;").toOption.map (·.resolve ⟨["bill"], "Bill"⟩) =
        some .missing := by
  refine ⟨⟨by decide, by decide, by decide, by decide⟩, ?_⟩
  decide +kernel

end Source

end EventSourcing
