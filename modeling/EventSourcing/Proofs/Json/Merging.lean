import EventSourcing.Proofs.Json.Nesting
import Mathlib.Data.List.Induction

/-!
# Proofs.Json.Merging -- fields that share a name

The reader of values makes an object of fields by merging them: they come in the order of their
names, and of those that share a name the last one is left (`sorted_merged`, `lookup_merged`).
-/

namespace EventSourcing.Json

set_option autoImplicit false

variable {k : String} {v : Json} {fs : List (String × Json)}

/-- The values that fields give to a name, in their order. -/
def given (name : String) (fs : List (String × Json)) : List Json :=
  (fs.filter fun f => f.1 = name).map (·.2)

theorem given_cons (name : String) (f : String × Json) (fs : List (String × Json)) :
    given name (f :: fs) = if f.1 = name then f.2 :: given name fs else given name fs := by
  by_cases same : f.1 = name <;> simp [given, same]

/-- What is left of fields if the last of each name wins, in the order of the names. -/
def merged (fs : List (String × Json)) : List (String × Json) :=
  fs.foldl (fun acc f => insert f.1 f.2 acc) []

theorem object_eq (fs : List (String × Json)) : object fs = .obj (merged fs) := rfl

/-! ## Putting one field in its place -/

theorem mem_insert {f : String × Json} (member : f ∈ insert k v fs) : f = (k, v) ∨ f ∈ fs := by
  induction fs with
  | nil => exact .inl (List.mem_singleton.1 member)
  | cons g more ih =>
      rw [insert] at member
      split at member
      · exact List.mem_cons.1 member
      · split at member
        · exact (List.mem_cons.1 member).imp_right (List.mem_cons_of_mem g)
        · rcases List.mem_cons.1 member with rfl | later
          · exact .inr List.mem_cons_self
          · exact (ih later).imp_right (List.mem_cons_of_mem g)

theorem sorted_insert (sorted : fs.Pairwise fun f g => f.1 < g.1) :
    (insert k v fs).Pairwise fun f g => f.1 < g.1 := by
  induction fs with
  | nil => exact List.pairwise_singleton _ _
  | cons g more ih =>
      obtain ⟨above, later⟩ := List.pairwise_cons.1 sorted
      rw [insert]
      split
      · rename_i below
        refine List.pairwise_cons.2 ⟨fun f member => ?_, sorted⟩
        rcases List.mem_cons.1 member with rfl | member
        · exact below
        · exact String.lt_trans below (above f member)
      · rename_i not_below
        split
        · rename_i same
          subst same
          exact List.pairwise_cons.2 ⟨above, later⟩
        · rename_i other
          refine List.pairwise_cons.2 ⟨fun f member => ?_, ih later⟩
          rcases mem_insert member with rfl | member
          · exact Std.lt_of_le_of_ne (String.not_lt.1 not_below) (Ne.symm other)
          · exact above f member

theorem lookup_field (name : String) (f : String × Json) (fs : List (String × Json)) :
    (f :: fs).lookup name = if f.1 = name then some f.2 else fs.lookup name := by
  rw [List.lookup_cons]
  by_cases same : f.1 = name
  · rw [if_pos same, beq_iff_eq.2 same.symm]
  · rw [if_neg same, beq_eq_false_iff_ne.2 (Ne.symm same)]

theorem lookup_insert (name : String) :
    (insert k v fs).lookup name = if k = name then some v else fs.lookup name := by
  induction fs with
  | nil => exact lookup_field name (k, v) []
  | cons g more ih =>
      rw [insert]
      split
      · exact lookup_field name (k, v) _
      · split
        · rename_i same
          rw [lookup_field, lookup_field, same]
          split <;> rfl
        · rename_i other
          rw [lookup_field, ih, lookup_field]
          split
          · rename_i here
            rw [if_neg (here ▸ other)]
          · rfl

/-! ## Putting all fields in their places -/

theorem merged_concat (fs : List (String × Json)) (f : String × Json) :
    merged (fs ++ [f]) = insert f.1 f.2 (merged fs) := by
  rw [merged, List.foldl_append]
  rfl

theorem mem_of_mem_merged {f : String × Json} (member : f ∈ merged fs) : f ∈ fs := by
  induction fs using List.reverseRecOn with
  | nil => cases member
  | append_singleton fs g ih =>
      rw [merged_concat] at member
      rcases mem_insert member with rfl | earlier
      · exact List.mem_append_right fs List.mem_cons_self
      · exact List.mem_append_left [g] (ih earlier)

theorem sorted_merged (fs : List (String × Json)) :
    (merged fs).Pairwise fun f g => f.1 < g.1 := by
  induction fs using List.reverseRecOn with
  | nil => exact .nil
  | append_singleton fs f ih =>
      rw [merged_concat]
      exact sorted_insert ih

theorem given_concat (name : String) (fs : List (String × Json)) (f : String × Json) :
    given name (fs ++ [f]) = given name fs ++ if f.1 = name then [f.2] else [] := by
  rw [given, List.filter_append, List.map_append]
  exact congrArg (given name fs ++ ·) (given_cons name f [])

/-- Merging keeps of each name the value that is given last. -/
theorem lookup_merged (name : String) (fs : List (String × Json)) :
    (merged fs).lookup name = (given name fs).getLast? := by
  induction fs using List.reverseRecOn with
  | nil => rfl
  | append_singleton fs f ih =>
      rw [merged_concat, lookup_insert, given_concat, ih]
      split
      · rw [List.getLast?_concat]
      · rw [List.append_nil]

/-- In the order of their names, fields give to each name at most the one value found for it. -/
theorem given_of_sorted (name : String) (sorted : fs.Pairwise fun f g => f.1 < g.1) :
    given name fs = (fs.lookup name).toList := by
  induction fs with
  | nil => rfl
  | cons f more ih =>
      obtain ⟨above, later⟩ := List.pairwise_cons.1 sorted
      rw [given_cons, lookup_field, ih later]
      split
      · rename_i same
        have missing : more.lookup name = none := by
          rw [List.lookup_eq_none_iff]
          intro g member
          rw [bne_iff_ne, ← same]
          rintro here
          exact String.lt_irrefl _ (here ▸ above g member)
        rw [missing]
        rfl
      · rfl

theorem given_merged (name : String) (fs : List (String × Json)) :
    given name (merged fs) = (given name fs).getLast?.toList := by
  rw [given_of_sorted name (sorted_merged fs), lookup_merged]

end EventSourcing.Json
