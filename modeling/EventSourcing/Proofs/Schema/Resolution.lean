import EventSourcing.Proofs.Schema.Grouping
import EventSourcing.Proofs.Schema.Places

/-!
# Proofs.Schema.Resolution -- where the types of a document come from

The roots of a compiler are read one after the other, and each adds what it declares
(`Root.loadAll_of_failure`, `Root.loadAll_of_readable`).  A reference, as it is written, means the
declarations that its segments lead to (`Entry.MeantBy`).  Main statement: a document without
violations compiles exactly if all roots can be read and each of its references means exactly one
declaration, and otherwise the error lists all references at fault (`types_resolve_together`).
-/

namespace EventSourcing

set_option autoImplicit false

namespace Source

/-! ## Reading roots -/

namespace Root

def declared (root : Root) : List Entry :=
  (root.load .empty).1.entries

def failure? (root : Root) : Option LoadError :=
  (root.load .empty).2

/-- A root adds what it declares, and fails in the same way, whatever was there before. -/
theorem load_eq_merge (root : Root) (index : Index) :
    root.load index = (index.merge ⟨root.declared⟩, root.failure?) := by
  obtain ⟨found, failure, adds⟩ := root.adds_load
  rw [declared, failure?, adds, adds]
  rfl

/-- The first root that cannot be read ends the reading. -/
theorem loadAll_of_failure {roots : List Root} {e : LoadError} (index : Index)
    (failed : roots.findSome? failure? = some e) : (loadAll roots index).2 = some e := by
  induction roots generalizing index with
  | nil => cases failed
  | cons root rest ih =>
      rw [loadAll, load_eq_merge]
      rw [List.findSome?_cons] at failed
      cases first : root.failure? with
      | none =>
          rw [first] at failed
          exact ih _ failed
      | some e' =>
          rw [first] at failed
          exact failed

/-- Roots that can all be read add what each of them declares. -/
theorem loadAll_of_readable {roots : List Root} (index : Index)
    (readable : ∀ root ∈ roots, root.failure? = none) :
    loadAll roots index = (index.merge ⟨roots.flatMap declared⟩, none) := by
  induction roots generalizing index with
  | nil => rw [loadAll, List.flatMap_nil, merge_nil]
  | cons root rest ih =>
      obtain ⟨first, later⟩ := List.forall_mem_cons.1 readable
      rw [loadAll, load_eq_merge, first]
      dsimp only
      rw [ih _ later, merge_merge, List.flatMap_cons]

end Root

/-! ## What references mean -/

/-- A declaration that a text means: its segments are the modules that lead to the declaration,
and then its name. -/
def Entry.MeantBy (text : String) (e : Entry) : Prop :=
  e.modules ++ [e.name] = TypeRef.segments text

instance (text : String) (e : Entry) : Decidable (e.MeantBy text) :=
  inferInstanceAs (Decidable (e.modules ++ [e.name] = TypeRef.segments text))

/-- The declarations among some that a text means. -/
def meant (entries : List Entry) (text : String) : List Declaration :=
  (entries.filter (Entry.MeantBy text ·)).map (·.declaration)

/-- What is found for a reference is what its text means. -/
theorem find_of_parse {text : String} {r : TypeRef} (parsed : TypeRef.parse text = .ok r)
    (index : Index) : index.find r = meant index.entries text := by
  have segments : r.modules ++ [r.name] = TypeRef.segments text :=
    Text.pieces_iff.1 (TypeRef.follows_of_parse parsed).1
  have same (e : Entry) : (e.modules = r.modules ∧ e.name = r.name) ↔ e.MeantBy text := by
    rw [Entry.MeantBy, ← segments]
    constructor
    · rintro ⟨modules, name⟩
      rw [modules, name]
    · intro equal
      obtain ⟨modules, name⟩ := List.append_inj' equal rfl
      exact ⟨modules, List.singleton_inj.1 name⟩
  rw [Index.find, meant]
  congr 2
  funext e
  exact decide_eq_decide.2 (same e)

end Source

namespace Schema

variable {d : Document} {raw : String} {sources : Source.Index}

/-- The references of a sound document are read from the texts that it has for them. -/
theorem parse_text_types (sound : d.Sound) : ∀ r ∈ d.types, TypeRef.parse r.text = .ok r := by
  intro r member
  rw [types_eq, List.mem_eraseDups] at member
  obtain ⟨typing, listed, rfl⟩ := List.mem_map.1 member
  exact (readTyping_spec (typings_refer sound)).2 typing listed

/-- What holds of what is found for references holds of what their texts mean. -/
theorem texts_filter (sound : d.Sound) (p : List Source.Declaration → Bool) :
    (d.types.filter fun r => p (sources.find r)).map TypeRef.text =
      d.typeTexts.filter fun text => p (Source.meant sources.entries text) := by
  rw [← texts_types sound, List.filter_map]
  congr 1
  refine List.filter_congr fun r member => ?_
  rw [Source.find_of_parse (parse_text_types sound r member)]
  rfl

/-! ## What comes of references -/

/-- The references of a document that mean none of some declarations, as they are written. -/
def missingTexts (d : Document) (entries : List Source.Entry) : List String :=
  d.typeTexts.filter fun text => Source.meant entries text = []

/-- The references of a document that mean more than one of some declarations. -/
def sharedTexts (d : Document) (entries : List Source.Entry) : List String :=
  d.typeTexts.filter fun text => 1 < (Source.meant entries text).length

theorem undefinedTypes_texts (sound : d.Sound) :
    (undefinedTypes sources d.types).map TypeRef.text = missingTexts d sources.entries :=
  texts_filter sound fun found => found = []

theorem ambiguousTypes_texts (sound : d.Sound) :
    (ambiguousTypes sources d.types).map TypeRef.text = sharedTexts d sources.entries :=
  texts_filter sound fun found => 1 < found.length

/-- A declared type is a reference with the only declaration that its text means. -/
theorem declaredTypes_meant {types : List TypeRef}
    (parsed : ∀ r ∈ types, TypeRef.parse r.text = .ok r)
    (once : ∀ r ∈ types, ∃ decl, Source.meant sources.entries r.text = [decl]) (n : Nat) :
    List.Forall₂ (fun r (t : DeclaredType) => t.reference.text = r.text ∧
        Source.meant sources.entries r.text = [t.declaration])
      types ((types.zipIdx n).flatMap fun (r, i) =>
        (sources.find r).map fun decl => (⟨⟨i⟩, r, decl⟩ : DeclaredType)) := by
  induction types generalizing n with
  | nil => exact .nil
  | cons r rest ih =>
      obtain ⟨parses, parsed⟩ := List.forall_mem_cons.1 parsed
      obtain ⟨⟨decl, means⟩, once⟩ := List.forall_mem_cons.1 once
      have found : sources.find r = [decl] := (Source.find_of_parse parses sources).trans means
      simp only [List.zipIdx_cons, List.flatMap_cons, found, List.map_cons, List.map_nil,
        List.singleton_append]
      exact .cons ⟨rfl, means⟩ (ih parsed once (n + 1))

/-- Nothing is missing or shared exactly if every reference means one declaration. -/
theorem texts_eq_nil_iff (entries : List Source.Entry) :
    (missingTexts d entries = [] ∧ sharedTexts d entries = []) ↔
      ∀ text ∈ d.typeTexts, ∃ decl, Source.meant entries text = [decl] := by
  have one (found : List Source.Declaration) :
      (¬ found = [] ∧ ¬ 1 < found.length) ↔ ∃ decl, found = [decl] := by
    rw [← List.length_eq_one_iff, ← List.length_eq_zero_iff]
    omega
  simp only [missingTexts, sharedTexts, List.filter_eq_nil_iff, decide_eq_true_eq,
    ← forall₂_and, one]

/-- References that mean nothing are listed, whatever the others mean. -/
theorem resolve_of_missing (sound : d.Sound) (filled : missingTexts d sources.entries ≠ []) :
    d.outline.resolve raw sources =
      .error (.contradictory .root (.undefinedTypes (missingTexts d sources.entries))) := by
  rw [← undefinedTypes_texts sound] at filled ⊢
  unfold Draft.resolve
  split
  · rename_i empty _
    exact (filled (List.map_eq_nil_iff.2 empty)).elim
  · rename_i empty _
    exact (filled (List.map_eq_nil_iff.2 empty)).elim
  · rfl

/-- References that mean several declarations are listed if none means nothing. -/
theorem resolve_of_shared (sound : d.Sound) (empty : missingTexts d sources.entries = [])
    (filled : sharedTexts d sources.entries ≠ []) :
    d.outline.resolve raw sources =
      .error (.contradictory .root (.ambiguousTypes (sharedTexts d sources.entries))) := by
  rw [← undefinedTypes_texts sound, List.map_eq_nil_iff] at empty
  rw [← ambiguousTypes_texts sound] at filled ⊢
  have empty : undefinedTypes sources d.outline.types = [] := empty
  unfold Draft.resolve
  rw [empty]
  split
  · rename_i unambiguous
    exact (filled (List.map_eq_nil_iff.2 unambiguous)).elim
  · rfl
  · rename_i other _
    exact (other rfl).elim

/-- References that each mean one declaration are resolved to it. -/
theorem resolve_of_meant (sound : d.Sound)
    (once : ∀ text ∈ d.typeTexts, ∃ decl, Source.meant sources.entries text = [decl]) :
    ∃ s, d.outline.resolve raw sources = .ok s ∧
      List.Forall₂ (fun text (t : DeclaredType) => t.reference.text = text ∧
        Source.meant sources.entries text = [t.declaration]) d.typeTexts s.types := by
  obtain ⟨empty, unambiguous⟩ := (texts_eq_nil_iff sources.entries).2 once
  rw [← undefinedTypes_texts sound, List.map_eq_nil_iff] at empty
  rw [← ambiguousTypes_texts sound, List.map_eq_nil_iff] at unambiguous
  have empty : undefinedTypes sources d.outline.types = [] := empty
  have unambiguous : ambiguousTypes sources d.outline.types = [] := unambiguous
  rw [← texts_types sound, List.forall_mem_map] at once
  rw [Draft.resolve, empty, unambiguous]
  refine ⟨_, rfl, ?_⟩
  rw [← texts_types sound, List.forall₂_map_left_iff]
  exact declaredTypes_meant (parse_text_types sound) once 0

/-- In what has been resolved, every reference means one declaration. -/
theorem meant_of_resolved (sound : d.Sound) {s : Schema}
    (resolved : d.outline.resolve raw sources = .ok s) :
    ∀ text ∈ d.typeTexts, ∃ decl, Source.meant sources.entries text = [decl] := by
  refine (texts_eq_nil_iff sources.entries).1 (Classical.byContradiction fun faulty => ?_)
  by_cases empty : missingTexts d sources.entries = []
  · have filled : sharedTexts d sources.entries ≠ [] :=
      fun unambiguous => faulty ⟨empty, unambiguous⟩
    cases resolved.symm.trans (resolve_of_shared sound empty filled)
  · cases resolved.symm.trans (resolve_of_missing sound empty)

/-- A type that has been resolved has the only declaration of its reference. -/
theorem find_of_resolved {outline : Draft} {s : Schema}
    (resolved : outline.resolve raw sources = .ok s) {t : DeclaredType} (listed : t ∈ s.types) :
    sources.find t.reference = [t.declaration] := by
  unfold Draft.resolve at resolved
  split at resolved
  · rename_i empty unambiguous
    cases resolved
    obtain ⟨⟨r, i⟩, numbered, found⟩ := List.mem_flatMap.1 listed
    obtain ⟨decl, member, rfl⟩ := List.mem_map.1 found
    obtain ⟨only, one⟩ := declared_once empty unambiguous r
      ((List.mem_zipIdx' numbered).2 ▸ List.getElem_mem _)
    change decl ∈ sources.find r at member
    rw [one, List.mem_singleton] at member
    rw [one, member]
  · cases resolved
  · cases resolved

/-- A type that has been compiled has the only declaration of its reference, among all that the
compiler knows. -/
theorem find_of_compiled {c : Compiler} {s : Schema} (compiled : c.compileDocument raw d = .ok s)
    {t : DeclaredType} (listed : t ∈ s.types) :
    (Source.Index.mk (c.sources.entries ++ c.roots.flatMap Source.Root.declared)).find t.reference =
      [t.declaration] := by
  rw [Compiler.compileDocument] at compiled
  cases drafted : draft d with
  | error e =>
      rw [drafted] at compiled
      cases compiled
  | ok outline =>
      rw [drafted] at compiled
      cases readable : c.roots.findSome? Source.Root.failure? with
      | some e =>
          have stopped := Source.Root.loadAll_of_failure c.sources readable
          cases loaded : Source.Root.loadAll c.roots c.sources with
          | mk sources failure =>
              rw [loaded] at stopped compiled
              cases stopped
              cases compiled
      | none =>
          rw [Source.Root.loadAll_of_readable c.sources (List.findSome?_eq_none_iff.1 readable)]
            at compiled
          exact find_of_resolved compiled listed

/-- The types of a document are resolved together.  Take a document that passes validation, and
any sources and roots.  If some roots cannot be read, the error is that of the first of them,
whatever the references are.  Otherwise the document compiles exactly if each of its references
means exactly one of all the declarations, and then its types, in the order in which they are
mentioned first, have these declarations, each with its kind, place and documentation.  If some
references mean none, the error lists these, as they are written and each once, in the order of
their first mention, whatever the others mean; if all mean some and several mean more than one, it
lists those. -/
theorem types_resolve_together (keyed : d.Keyed) {outline : Draft}
    (valid : draft d = .ok outline) (c : Compiler) (raw : String) :
    let entries := c.sources.entries ++ c.roots.flatMap Source.Root.declared
    d.typeTexts.Nodup ∧
    (∀ e, c.roots.findSome? Source.Root.failure? = some e →
      c.compileDocument raw d = .error (.contradictory .root (.source e))) ∧
    (c.roots.findSome? Source.Root.failure? = none →
      ((∃ s, c.compileDocument raw d = .ok s) ↔
        ∀ text ∈ d.typeTexts, ∃ decl, Source.meant entries text = [decl]) ∧
      (∀ s, c.compileDocument raw d = .ok s →
        List.Forall₂ (fun text (t : DeclaredType) => t.reference.text = text ∧
          Source.meant entries text = [t.declaration]) d.typeTexts s.types) ∧
      (missingTexts d entries ≠ [] → c.compileDocument raw d =
        .error (.contradictory .root (.undefinedTypes (missingTexts d entries)))) ∧
      (missingTexts d entries = [] → sharedTexts d entries ≠ [] → c.compileDocument raw d =
        .error (.contradictory .root (.ambiguousTypes (sharedTexts d entries))))) := by
  have sound : d.violations = [] := by
    rw [draft_eq keyed] at valid
    cases broken : d.violations with
    | nil => rfl
    | cons e rest =>
        rw [broken] at valid
        cases valid
  have compiles := compileDocument_eq keyed c raw
  rw [sound] at compiles
  dsimp only at compiles
  have sound := Document.sound_of_no_violations sound
  intro entries
  refine ⟨nodup_eraseDups _, fun e failed => ?_, fun readable => ?_⟩
  · have stopped := Source.Root.loadAll_of_failure c.sources failed
    rw [compiles]
    split
    · rename_i read
      rw [read] at stopped
      cases stopped
    · rename_i read
      rw [read] at stopped
      cases stopped
      rfl
  · rw [Source.Root.loadAll_of_readable c.sources (List.findSome?_eq_none_iff.1 readable)]
      at compiles
    have compiles : c.compileDocument raw d = d.outline.resolve raw ⟨entries⟩ := compiles
    rw [compiles]
    refine ⟨⟨?_, fun once => ?_⟩, fun s resolved => ?_, resolve_of_missing sound,
      resolve_of_shared sound⟩
    · rintro ⟨s, resolved⟩
      exact meant_of_resolved sound resolved
    · obtain ⟨s, resolved, _⟩ := resolve_of_meant sound once
      exact ⟨s, resolved⟩
    · obtain ⟨s', resolved', meant⟩ := resolve_of_meant sound (meant_of_resolved sound resolved)
      cases resolved.symm.trans resolved'
      exact meant

/-! ### A gate with three types -/

/-- A gate whose events refer to three types. -/
def lockedGate : Document :=
  { gate ["Open -> Shut"] ["Closed"] with
    events := some [("Opened", some [("at", .type "Time"), ("lock", .type "doors.Lock")]),
      ("Closed", some [("by", .type "Name"), ("at", .type "Time")])] }

theorem keyed_lockedGate : lockedGate.Keyed := by
  constructor <;> simp [lockedGate, gate, Document.eventDecls, Document.projectionDecls,
    Document.serviceDecls, Document.Projection.propertyDecls, Document.Projection.transitionDecls,
    Document.Service.methodDecls, Document.names]

theorem draft_lockedGate : draft lockedGate = .ok lockedGate.outline := by
  rw [draft_eq keyed_lockedGate, show lockedGate.violations = [] by decide +kernel]
  rfl

def structAt (modules : List String) (name : String) (line : Nat) : Source.Entry :=
  ⟨modules, name, ⟨.struct, "gate.rs", ⟨line, 1⟩, []⟩⟩

/-- Structs for the types of the gate, with so many locks and times. -/
def locksmith (locks times : List Nat) (roots : List Source.Root) : Compiler :=
  ⟨⟨structAt [] "Name" 1 :: locks.map (structAt ["doors"] "Lock") ++
    times.map (structAt [] "Time")⟩, roots⟩

/-- The gate is refused for a root that is not there, for a time that is not declared although
there are two locks, and for the two locks; with one of each it compiles. -/
theorem lockedGate_resolves_together :
    (locksmith [2, 3] [] [⟨"doors", none⟩]).compileDocument "" lockedGate =
      .error (.contradictory .root (.source (.notADirectory "doors"))) ∧
    (locksmith [2, 3] [] []).compileDocument "" lockedGate =
      .error (.contradictory .root (.undefinedTypes ["Time"])) ∧
    (locksmith [2, 3] [4] []).compileDocument "" lockedGate =
      .error (.contradictory .root (.ambiguousTypes ["doors.Lock"])) ∧
    ∃ s, (locksmith [2] [4] []).compileDocument "" lockedGate = .ok s := by
  have resolves (c : Compiler) := types_resolve_together keyed_lockedGate draft_lockedGate c ""
  refine ⟨(resolves _).2.1 _ rfl, ?_, ?_, ?_⟩
  · obtain ⟨_, _, undefined, _⟩ := (resolves (locksmith [2, 3] [] [])).2.2 rfl
    refine (undefined (by decide +kernel)).trans ?_
    decide +kernel
  · obtain ⟨_, _, _, ambiguous⟩ := (resolves (locksmith [2, 3] [4] [])).2.2 rfl
    refine (ambiguous (by decide +kernel) (by decide +kernel)).trans ?_
    decide +kernel
  · obtain ⟨compiles, _⟩ := (resolves (locksmith [2] [4] [])).2.2 rfl
    refine compiles.2 ((texts_eq_nil_iff _).1 ?_)
    decide +kernel

end Schema

end EventSourcing
