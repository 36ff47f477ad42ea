import EventSourcing.Proofs.Name.Reference
import EventSourcing.Proofs.Schema.Sound
import Mathlib.Data.List.Induction

/-!
# Proofs.Schema.Compiled -- what a compiled schema consists of

A document that compiles breaks no rule, and the schema consists of the parts of its
outline (`compiled_of_ok`).  Its types are those that it mentions, in the order of their
first mention.
-/

namespace EventSourcing

set_option autoImplicit false

open EventSourcing.Document (names)

/-! ## Items at their first place -/

section FirstPlace

variable {α β : Type} [DecidableEq α] [DecidableEq β]

theorem eraseDups_concat (xs : List α) (x : α) :
    (xs ++ [x]).eraseDups = if x ∈ xs then xs.eraseDups else xs.eraseDups ++ [x] := by
  rw [List.eraseDups_append]
  by_cases known : x ∈ xs <;> simp [known, List.removeAll, List.eraseDups_cons]

theorem nodup_eraseDups (xs : List α) : xs.eraseDups.Nodup := by
  induction xs using List.reverseRecOn with
  | nil => exact List.nodup_nil
  | append_singleton before x ih =>
      rw [eraseDups_concat]
      split
      · exact ih
      · rename_i fresh
        rw [← List.concat_eq_append]
        exact ih.concat (mt List.mem_eraseDups.1 fresh)

theorem eraseDups_map {f : α → β} {xs : List α}
    (distinct : ∀ x ∈ xs, ∀ y ∈ xs, f x = f y → x = y) :
    (xs.map f).eraseDups = xs.eraseDups.map f := by
  induction xs using List.reverseRecOn with
  | nil => rfl
  | append_singleton before x ih =>
      have known : f x ∈ before.map f ↔ x ∈ before := by
        constructor
        · intro member
          obtain ⟨y, member, same⟩ := List.mem_map.1 member
          exact distinct y (by simp [member]) x (by simp) same ▸ member
        · exact List.mem_map_of_mem
      rw [List.map_append, List.map_singleton, eraseDups_concat, eraseDups_concat,
        ih fun x inside y inside' => distinct x (by simp [inside]) y (by simp [inside'])]
      simp only [known]
      split
      · rfl
      · rw [List.map_append, List.map_singleton]

theorem firstSeen_eq (xs : List α) : Schema.Compile.firstSeen xs = xs.eraseDups := by
  induction xs using List.reverseRecOn with
  | nil => rfl
  | append_singleton before x ih =>
      have last : Schema.Compile.firstSeen (before ++ [x]) =
          if (Schema.Compile.firstSeen before).contains x then Schema.Compile.firstSeen before
          else Schema.Compile.firstSeen before ++ [x] := by
        rw [Schema.Compile.firstSeen, List.foldl_append]
        rfl
      rw [last, ih, eraseDups_concat]
      simp only [List.contains_iff_mem, List.mem_eraseDups]

end FirstPlace

/-- Lists that belong to different keys have nothing in common. -/
theorem nodup_flatMap_of_owner {ξ η κ : Type} {f : ξ → List η} (key : ξ → κ) (owner : η → κ)
    {xs : List ξ} (distinct : (xs.map key).Nodup) (each : ∀ x ∈ xs, (f x).Nodup)
    (owned : ∀ x ∈ xs, ∀ y ∈ f x, owner y = key x) : (xs.flatMap f).Nodup := by
  refine List.nodup_flatMap.2 ⟨each, ?_⟩
  refine (List.pairwise_map.1 distinct).imp_of_mem fun {x x'} member member' other => ?_
  intro y inside inside'
  exact other ((owned x member y inside).symm.trans (owned x' member' y inside'))

namespace Schema

/-- The types that mentions leave behind in an empty draft are those that they mention. -/
def Mention.reference? : Mention → Option TypeRef
  | .event _ _ => none
  | .type r _ => some r

theorem types_mentioned_empty (ms : List Mention) :
    (Draft.empty.mentioned ms).types = (ms.filterMap Mention.reference?).eraseDups := by
  induction ms using List.reverseRecOn with
  | nil => rfl
  | append_singleton before m ih =>
      rw [mentioned_append, List.filterMap_append]
      cases m with
      | event id place =>
          rw [List.filterMap_cons_none rfl, List.filterMap_nil, List.append_nil]
          exact ih
      | type r place =>
          have last : ((Draft.empty.mentioned before).mentioned [.type r place]).types =
              if r ∈ (Draft.empty.mentioned before).types
                then (Draft.empty.mentioned before).types
                else (Draft.empty.mentioned before).types ++ [r] := rfl
          rw [last, ih]
          simp only [Mention.reference?, List.filterMap_cons, List.filterMap_nil,
            eraseDups_concat, List.mem_eraseDups]

/-! ## Compiled schemas -/

/-- A schema consists of the parts of the outline of a document without violations, and of
declarations for its types. -/
structure Compiled (d : Document) (raw : String) (s : Schema) : Prop where
  sound : d.Sound
  raw : s.raw = raw
  events : s.events = d.eventNodes
  projections : s.projections = d.projectionNodes
  services : s.services = d.serviceNodes
  references : s.references = (Draft.empty.mentioned d.mentions).references
  types : s.types.map (·.reference) = d.types
  typeIds : s.types.map (·.id) = (List.range d.types.length).map TypeId.mk

/-- Types that are declared exactly once keep their order. -/
theorem declaredTypes_eq {types : List TypeRef} {sources : Source.Index}
    (once : ∀ r ∈ types, ∃ decl, sources.find r = [decl]) (n : Nat) :
    let declared := (types.zipIdx n).flatMap fun (r, i) =>
      (sources.find r).map fun decl => (⟨⟨i⟩, r, decl⟩ : DeclaredType)
    declared.map (·.reference) = types ∧
      declared.map (·.id) = (List.range' n types.length).map TypeId.mk := by
  induction types generalizing n with
  | nil => exact ⟨rfl, rfl⟩
  | cons r rest ih =>
      obtain ⟨decl, found⟩ := once r List.mem_cons_self
      obtain ⟨references, ids⟩ :=
        ih (fun r member => once r (List.mem_cons_of_mem _ member)) (n + 1)
      simp only [List.zipIdx_cons, List.flatMap_cons, found, List.map_cons, List.map_nil,
        List.cons_append, List.nil_append, List.length_cons, List.range'_succ]
      exact ⟨congrArg (r :: ·) references, congrArg (TypeId.mk n :: ·) ids⟩

/-- References that are neither undefined nor ambiguous are each declared once. -/
theorem declared_once {types : List TypeRef} {sources : Source.Index}
    (defined : undefinedTypes sources types = [])
    (unambiguous : ambiguousTypes sources types = []) :
    ∀ r ∈ types, ∃ decl, sources.find r = [decl] := by
  intro r member
  have found : sources.find r ≠ [] := by
    simpa using List.filter_eq_nil_iff.1 defined r member
  have single : ¬ 1 < (sources.find r).length := by
    simpa using List.filter_eq_nil_iff.1 unambiguous r member
  have positive := List.length_pos_of_ne_nil found
  exact List.length_eq_one_iff.1 (by omega)

theorem resolve_ok {d : Draft} {raw : String} {sources : Source.Index} {s : Schema}
    (resolved : d.resolve raw sources = .ok s) :
    s.raw = raw ∧ s.events = d.events ∧ s.projections = d.projections ∧
      s.services = d.services ∧ s.references = d.references ∧
      s.types.map (·.reference) = d.types ∧
      s.types.map (·.id) = (List.range d.types.length).map TypeId.mk := by
  unfold Draft.resolve at resolved
  split at resolved
  · rename_i defined unambiguous
    cases resolved
    have types := declaredTypes_eq (declared_once defined unambiguous) 0
    rw [← List.range_eq_range'] at types
    exact ⟨rfl, rfl, rfl, rfl, rfl, types⟩
  · cases resolved
  · cases resolved

theorem compiled_of_ok {d : Document} (keyed : d.Keyed) {c : Compiler} {raw : String} {s : Schema}
    (compiled : c.compileDocument raw d = .ok s) : Compiled d raw s := by
  rw [compileDocument_eq keyed] at compiled
  split at compiled
  · cases compiled
  · rename_i sound
    split at compiled
    · obtain ⟨raw, events, projections, services, references, types, typeIds⟩ := resolve_ok compiled
      exact {
        sound := Document.sound_of_no_violations sound
        raw
        events := events.trans (events_outline d)
        projections := projections.trans (projections_outline d)
        services := services.trans (services_outline d)
        references
        types
        typeIds }
    · cases compiled

end Schema

end EventSourcing
