import EventSourcing.Proofs.Schema.Outline
import Mathlib.Data.List.Infix

/-!
# Proofs.Schema.Mentions -- what mentions leave behind

Mentions only add to the types of a draft, behind those that are there.  What is recorded
under a number is what mentions name it, one after the other (`eventPlaces_mentioned`,
`typePlaces_mentioned`).
-/

namespace EventSourcing.Schema

set_option autoImplicit false

variable {d : Draft} {types : List TypeRef} {ms ms' : List Mention}

theorem types_mention (m : Mention) : d.types <+: (d.mention m).types := by
  cases m with
  | event id place => exact List.prefix_rfl
  | type r place =>
      rw [Draft.mention]
      dsimp only
      split
      · exact List.prefix_rfl
      · exact List.prefix_append _ _

theorem mem_types_mention (r : TypeRef) (place : Place) :
    r ∈ (d.mention (.type r place)).types := by
  rw [Draft.mention]
  dsimp only
  split
  · assumption
  · exact List.mem_append_right _ (List.mem_singleton_self r)

theorem mentioned_append (ms ms' : List Mention) :
    d.mentioned (ms ++ ms') = (d.mentioned ms).mentioned ms' :=
  List.foldl_append

theorem types_mentioned (ms : List Mention) : d.types <+: (d.mentioned ms).types := by
  induction ms generalizing d with
  | nil => exact List.prefix_rfl
  | cons m rest ih => exact (types_mention m).trans ih

theorem events_mentioned (ms : List Mention) : (d.mentioned ms).events = d.events := by
  induction ms generalizing d with
  | nil => rfl
  | cons m rest ih => cases m <;> exact ih

theorem projections_mentioned (ms : List Mention) :
    (d.mentioned ms).projections = d.projections := by
  induction ms generalizing d with
  | nil => rfl
  | cons m rest ih => cases m <;> exact ih

theorem services_mentioned (ms : List Mention) : (d.mentioned ms).services = d.services := by
  induction ms generalizing d with
  | nil => rfl
  | cons m rest ih => cases m <;> exact ih

theorem typeNumber_of_parse {types : List TypeRef} {text : String} {r : TypeRef}
    (parsed : TypeRef.parse text = .ok r) : typeNumber types text = ⟨types.idxOf r⟩ := by
  have same : (fun x => decide ((Except.ok r : Except TypeRef.Defect TypeRef).toOption = some x)) =
      (· == r) := by
    funext x
    by_cases equal : x = r
    · simp [Except.toOption, equal]
    · simp [Except.toOption, equal, Ne.symm equal]
  rw [typeNumber, parsed, same]
  rfl

/-- After some mentions there are no more types than among some others. -/
def Within (types : List TypeRef) (d : Draft) (ms : List Mention) : Prop :=
  (d.mentioned ms).types <+: types

theorem Within.left (within : Within types d (ms ++ ms')) : Within types d ms := by
  rw [Within, mentioned_append] at within
  exact (types_mentioned ms').trans within

theorem Within.right (within : Within types d (ms ++ ms')) : Within types (d.mentioned ms) ms' := by
  rw [Within, mentioned_append] at within
  exact within

/-! ## What has been recorded -/

/-- What a mention records under the number of an event. -/
def Mention.ofEvent? (id : EventId) : Mention → Option Place
  | .event id' place => if id' = id then some place else none
  | .type _ _ => none

theorem getD_recordAt (slots : List (List Place)) (i j : Nat) (place : Place) :
    ((recordAt slots i place)[j]?).getD [] =
      (slots[j]?).getD [] ++ if i = j then [place] else [] := by
  have padded : (slots ++ List.replicate (i + 1 - slots.length) [])[j]?.getD [] =
      (slots[j]?).getD [] := by
    rw [List.getElem?_append]
    split
    · rfl
    · rename_i beyond
      rw [List.getElem?_eq_none (Nat.le_of_not_lt beyond), List.getElem?_replicate]
      split <;> rfl
  rw [recordAt, List.getElem?_modify]
  by_cases same : i = j
  · subst same
    rw [← padded, if_pos rfl]
    have inside : i < (slots ++ List.replicate (i + 1 - slots.length) []).length := by
      simp; omega
    rw [List.getElem?_eq_getElem inside]
    simp
  · simp only [same, if_false, List.append_nil]
    simpa using padded

theorem eventPlaces_mentioned (d : Draft) (ms : List Mention) (id : EventId) :
    (d.mentioned ms).references.eventPlaces id =
      d.references.eventPlaces id ++ ms.filterMap (Mention.ofEvent? id) := by
  induction ms generalizing d with
  | nil => exact (List.append_nil _).symm
  | cons m rest ih =>
      refine (ih (d.mention m)).trans ?_
      cases m with
      | type r place => rfl
      | event id' place =>
          have recorded : (d.mention (.event id' place)).references.eventPlaces id =
              d.references.eventPlaces id ++ if id'.index = id.index then [place] else [] :=
            getD_recordAt _ _ _ _
          rw [recorded, List.append_assoc]
          obtain ⟨i⟩ := id
          obtain ⟨j⟩ := id'
          by_cases same : j = i <;> simp [Mention.ofEvent?, same]

/-- What a mention records under the number of a type. -/
def Mention.ofType? (types : List TypeRef) (id : TypeId) : Mention → Option Place
  | .event _ _ => none
  | .type r place => if ⟨types.idxOf r⟩ = id then some place else none

theorem typePlaces_mentioned (within : Within types d ms) (id : TypeId) :
    (d.mentioned ms).references.typePlaces id =
      d.references.typePlaces id ++ ms.filterMap (Mention.ofType? types id) := by
  induction ms generalizing d with
  | nil => exact (List.append_nil _).symm
  | cons m rest ih =>
      refine (ih (d := d.mention m) within).trans ?_
      cases m with
      | event id' place => rfl
      | type r place =>
          have number : (d.mention (.type r place)).types.idxOf r = types.idxOf r :=
            List.IsPrefix.idxOf_eq_of_mem ((types_mentioned rest).trans within)
              (mem_types_mention r place)
          have recorded : (d.mention (.type r place)).references.typePlaces id =
              d.references.typePlaces id ++
                if (d.mention (.type r place)).types.idxOf r = id.index then [place] else [] :=
            getD_recordAt _ _ _ _
          rw [recorded, List.append_assoc, number]
          obtain ⟨i⟩ := id
          by_cases same : types.idxOf r = i <;> simp [Mention.ofType?, same]

/-! ## How far records go -/

theorem length_recordAt (slots : List (List Place)) (i : Nat) (place : Place) :
    (recordAt slots i place).length = max slots.length (i + 1) := by
  rw [recordAt, List.length_modify, List.length_append, List.length_replicate]
  omega

/-- Nothing is recorded behind the last event that is mentioned. -/
theorem length_events_mentioned {n : Nat} (before : d.references.events.length ≤ n)
    (known : ∀ id place, .event id place ∈ ms → id.index < n) :
    (d.mentioned ms).references.events.length ≤ n := by
  induction ms generalizing d with
  | nil => exact before
  | cons m rest ih =>
      refine ih ?_ fun id place member => known id place (List.mem_cons_of_mem m member)
      cases m with
      | type r place => exact before
      | event id place =>
          have inside := known id place List.mem_cons_self
          refine (length_recordAt d.references.events id.index place).trans_le ?_
          omega

/-- Nothing is recorded behind the last type. -/
theorem length_types_mentioned (before : d.references.types.length ≤ d.types.length) :
    (d.mentioned ms).references.types.length ≤ (d.mentioned ms).types.length := by
  induction ms generalizing d with
  | nil => exact before
  | cons m rest ih =>
      refine ih ?_
      cases m with
      | event id place => exact before
      | type r place =>
          have longer := (types_mention (d := d) (.type r place)).length_le
          have inside := List.idxOf_lt_length_iff.2 (mem_types_mention (d := d) r place)
          refine (length_recordAt d.references.types _ place).trans_le ?_
          exact Nat.max_le.2 ⟨before.trans longer, inside⟩

end EventSourcing.Schema
