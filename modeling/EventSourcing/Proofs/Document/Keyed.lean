import EventSourcing.Document.Reader
import Mathlib.Data.List.Induction
import Mathlib.Data.List.Nodup

/-!
# Proofs.Document.Keyed -- names that stand once

Declarations in a document stand under their names, each of which stands once
(`Document.Keyed`).  A text holds no other documents (`keyed_of_read?`).
-/

namespace EventSourcing

set_option autoImplicit false

/-- What has a key that nothing else has is found by it. -/
theorem find?_key {α : Type} {key : α → String} {xs : List α} {x : α}
    (distinct : (xs.map key).Nodup) (member : x ∈ xs) : xs.find? (key · == key x) = some x := by
  induction xs with
  | nil => cases member
  | cons first rest ih =>
      obtain ⟨fresh, distinct⟩ := List.nodup_cons.1 distinct
      rw [List.find?_cons]
      rcases List.mem_cons.1 member with rfl | later
      · rw [beq_self_eq_true]
      · have other : (key first == key x) = false := by
          rw [beq_eq_false_iff_ne]
          exact fun same => fresh (List.mem_map.2 ⟨x, later, same.symm⟩)
        rw [other]
        exact ih distinct later

namespace Document

/-! ## Sections -/

def eventDecls (d : Document) : Named (Option (Named Property)) :=
  d.events.getD []

def projectionDecls (d : Document) : Named Projection :=
  d.projections.getD []

def serviceDecls (d : Document) : Named Service :=
  d.services.getD []

def Projection.propertyDecls (p : Projection) : Named Property :=
  p.properties.getD []

def Projection.transitionDecls (p : Projection) : Named (List String) :=
  p.transitions.getD []

/-- The methods of a service; one about which nothing is said is the empty one. -/
def Service.methodDecls (s : Service) : Named Method :=
  (s.methods.getD []).map fun (name, m) => (name, m.getD .empty)

def names {α : Type} (decls : Named α) : List String :=
  decls.map Prod.fst

theorem names_methodDecls (s : Service) : names s.methodDecls = names (s.methods.getD []) := by
  rw [names, Service.methodDecls, List.map_map]
  rfl

/-- A document in which no two declarations of a kind have the same name. -/
structure Keyed (d : Document) : Prop where
  events : (names d.eventDecls).Nodup
  eventProperties : ∀ e ∈ d.eventDecls, (names (e.2.getD [])).Nodup
  projections : (names d.projectionDecls).Nodup
  projectionProperties : ∀ p ∈ d.projectionDecls, (names p.2.propertyDecls).Nodup
  transitions : ∀ p ∈ d.projectionDecls, (names p.2.transitionDecls).Nodup
  services : (names d.serviceDecls).Nodup
  methods : ∀ s ∈ d.serviceDecls, (names s.2.methodDecls).Nodup

/-! ## Reading -/

theorem names_put {α : Type} (name : String) (value : α) (decls : Named α) :
    names (put name value decls) =
      if name ∈ names decls then names decls else names decls ++ [name] := by
  induction decls with
  | nil => rfl
  | cons decl rest ih =>
      by_cases same : decl.1 = name
      · simp [put, same, names]
      · have other : name ≠ decl.1 := Ne.symm same
        have kept :
            names (put name value (decl :: rest)) = decl.1 :: names (put name value rest) := by
          rw [put, if_neg same]
          rfl
        have first : names (decl :: rest) = decl.1 :: names rest := rfl
        rw [kept, ih, first]
        by_cases present : name ∈ names rest
        · rw [if_pos present, if_pos (List.mem_cons_of_mem _ present)]
        · rw [if_neg present, if_neg (List.not_mem_cons_of_ne_of_not_mem other present)]
          rfl

theorem mem_put {α : Type} {name : String} {value : α} {decls : Named α} {x : String × α}
    (member : x ∈ put name value decls) : x = (name, value) ∨ x ∈ decls := by
  induction decls with
  | nil => exact .inl (List.mem_singleton.1 member)
  | cons decl rest ih =>
      rw [put] at member
      split at member
      · rename_i same
        rcases List.mem_cons.1 member with rfl | member
        · exact .inl (Prod.ext same rfl)
        · exact .inr (List.mem_cons_of_mem _ member)
      · rcases List.mem_cons.1 member with rfl | member
        · exact .inr List.mem_cons_self
        · exact (ih member).imp_right (List.mem_cons_of_mem _)

theorem named_concat {α : Type} (entries : List (String × α)) (entry : String × α) :
    named (entries ++ [entry]) = put entry.1 entry.2 (named entries) := by
  rw [named, List.foldl_append]
  rfl

/-- Each name of a list stands once among its declarations, which are all in the list. -/
theorem named_spec {α : Type} (entries : List (String × α)) :
    (names (named entries)).Nodup ∧ ∀ x ∈ named entries, x ∈ entries := by
  induction entries using List.reverseRecOn with
  | nil => exact ⟨List.nodup_nil, fun _ member => member⟩
  | append_singleton before entry ih =>
      obtain ⟨distinct, known⟩ := ih
      rw [named_concat]
      constructor
      · rw [names_put]
        split
        · exact distinct
        · rename_i fresh
          exact List.concat_eq_append ▸ distinct.concat fresh
      · intro x member
        rcases mem_put member with rfl | member
        · exact List.mem_append_right _ List.mem_cons_self
        · exact List.mem_append_left _ (known x member)

namespace Reader

open EventSourcing.Yaml (Value)

/-- A reader gives nothing but values with a property. -/
def Yields {ξ α : Type} (read : ξ → Option α) (p : α → Prop) : Prop :=
  ∀ v a, read v = some a → p a

variable {α : Type} {read : Value → Option α} {p : α → Prop}

theorem Yields.mapM {ξ : Type} {read : ξ → Option α} (yields : Yields read p) :
    Yields (fun vs : List ξ => vs.mapM read) fun as => ∀ a ∈ as, p a := by
  intro vs
  induction vs with
  | nil =>
      intro as nothing
      cases nothing
      exact fun _ member => absurd member List.not_mem_nil
  | cons v rest ih =>
      intro as done
      simp only [List.mapM_cons, Option.bind_eq_bind, Option.bind_eq_some_iff] at done
      obtain ⟨a, first, as', later, same⟩ := done
      cases same
      exact List.forall_mem_cons.2 ⟨yields v a first, ih as' later⟩

theorem Yields.optional (yields : Yields read p) :
    Yields (optional? read) fun a => ∀ a' ∈ a, p a' := by
  have present : ∀ v a, (read v).map some = some a → ∀ a' ∈ a, p a' := by
    intro v a done a' inside
    obtain ⟨a'', read, rfl⟩ := Option.map_eq_some_iff.1 done
    cases inside
    exact yields v a' read
  intro v a done
  unfold optional? at done
  split at done
  · dsimp only at done
    split at done
    · cases done
    · cases done
      exact fun _ nothing => by cases nothing
    · exact present _ a done
  · exact present _ a done

theorem Yields.named (yields : Yields read p) :
    Yields (named? read) fun decls => (names decls).Nodup ∧ ∀ decl ∈ decls, p decl.2 := by
  intro v decls done
  simp only [named?, Option.bind_eq_bind, Option.bind_eq_some_iff] at done
  obtain ⟨raw, _, entries, done, same⟩ := done
  cases same
  obtain ⟨distinct, known⟩ := named_spec entries
  have entry : Yields (fun e : Value × Value => do return (← text? e.1, ← read e.2))
      fun decl : String × α => p decl.2 := by
    rintro ⟨k, v⟩ decl done
    simp only [Option.bind_eq_bind, Option.bind_eq_some_iff] at done
    obtain ⟨name, _, a, value, same⟩ := done
    cases same
    exact yields v a value
  exact ⟨distinct, fun decl member => entry.mapM raw entries done decl (known decl member)⟩

theorem Yields.field (yields : Yields read p) {fields : List (String × Value)} {name : String}
    {default a : α} (base : p default) (done : field? fields name default read = some a) : p a := by
  rw [field?] at done
  split at done
  · cases done
    exact base
  · exact yields _ a done

/-- What is read of a section that may be left out. -/
theorem Yields.section (yields : Yields read p) {fields : List (String × Value)} {name : String}
    {section_ : Option (Named α)}
    (done : field? fields name none (optional? (named? read)) = some section_) :
    (names (section_.getD [])).Nodup ∧ ∀ decl ∈ section_.getD [], p decl.2 := by
  have all := yields.named.optional.field (fun _ nothing => by cases nothing) done
  cases section_ with
  | none => exact ⟨List.nodup_nil, fun _ member => absurd member List.not_mem_nil⟩
  | some decls => exact all decls rfl

theorem yields_any : Yields read fun _ => True :=
  fun _ _ _ => trivial

theorem yields_projection : Yields projection? fun p =>
    (names p.propertyDecls).Nodup ∧ (names p.transitionDecls).Nodup := by
  intro v p done
  simp only [projection?, Option.bind_eq_bind, Option.bind_eq_some_iff] at done
  obtain ⟨fields, _, states, _, props, readProps, createOnValue, _, createOn, _, ts, readTs,
    same⟩ := done
  cases same
  exact ⟨(yields_any.section readProps).1, (yields_any.section readTs).1⟩

theorem yields_service : Yields service? fun s => (names s.methodDecls).Nodup := by
  intro v s done
  simp only [service?, Option.bind_eq_bind, Option.bind_eq_some_iff] at done
  obtain ⟨fields, _, projections, _, methods, readMethods, same⟩ := done
  cases same
  rw [names_methodDecls]
  exact (yields_any.section readMethods).1

theorem yields_eventProperties : Yields (optional? (named? property?)) fun props =>
    (names (props.getD [])).Nodup := by
  intro v props done
  have all := yields_any.named.optional v props done
  cases props with
  | none => exact List.nodup_nil
  | some decls => exact (all decls rfl).1

theorem yields_document : Yields document? Keyed := by
  intro v d done
  simp only [document?, Option.bind_eq_bind, Option.bind_eq_some_iff] at done
  obtain ⟨fields, _, events, readEvents, projections, readProjections, services, readServices,
    same⟩ := done
  cases same
  obtain ⟨distinctEvents, eachEvent⟩ := yields_eventProperties.section readEvents
  obtain ⟨distinctProjections, eachProjection⟩ := yields_projection.section readProjections
  obtain ⟨distinctServices, eachService⟩ := yields_service.section readServices
  exact {
    events := distinctEvents
    eventProperties := eachEvent
    projections := distinctProjections
    projectionProperties := fun p member => (eachProjection p member).1
    transitions := fun p member => (eachProjection p member).2
    services := distinctServices
    methods := eachService }

end Reader

theorem keyed_empty : Keyed .empty := by
  constructor <;> simp [empty, eventDecls, projectionDecls, serviceDecls, names]

/-- In a document that a text holds, no two declarations of a kind have the same name. -/
theorem keyed_of_read? {raw : String} {d : Document} (read : read? raw = some d) : d.Keyed := by
  unfold read? at read
  split at read
  · cases read
    exact keyed_empty
  · split at read
    · cases read
      exact keyed_empty
    · simp only [Option.bind_eq_bind, Option.bind_eq_some_iff] at read
      obtain ⟨v, _, found, done, same⟩ := read
      cases same
      have all := Reader.yields_document.optional v found done
      cases found with
      | none => exact keyed_empty
      | some d => exact all d rfl
    · cases read

end Document

end EventSourcing
