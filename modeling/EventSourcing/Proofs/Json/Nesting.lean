import EventSourcing.Proofs.Json.Rereading

/-!
# Proofs.Json.Nesting -- values that are read as themselves

A value without floating point numbers is read back as itself exactly if it is nested less
deep than the reader goes (`reread_plain`).
-/

namespace EventSourcing.Json

set_option autoImplicit false

variable {depth : Nat}

/-! ## Nesting -/

mutual

/-- How many arrays and objects stand in one another. -/
def nesting : Json → Nat
  | .arr items => deepest items + 1
  | .obj fields => deepestField fields + 1
  | _ => 0

def deepest : List Json → Nat
  | [] => 0
  | v :: rest => max v.nesting (deepest rest)

def deepestField : List (String × Json) → Nat
  | [] => 0
  | (_, v) :: rest => max v.nesting (deepestField rest)

end

theorem deepest_lt_iff {vs : List Json} {n : Nat} (positive : 0 < n) :
    deepest vs < n ↔ ∀ v ∈ vs, v.nesting < n := by
  induction vs with
  | nil => simpa [deepest] using positive
  | cons v rest ih => rw [deepest, Nat.max_lt, ih, List.forall_mem_cons]

theorem deepestField_lt_iff {fs : List (String × Json)} {n : Nat} (positive : 0 < n) :
    deepestField fs < n ↔ ∀ f ∈ fs, f.2.nesting < n := by
  induction fs with
  | nil => simpa [deepestField] using positive
  | cons f rest ih => rw [deepestField, Nat.max_lt, ih, List.forall_mem_cons]

/-! ## Plain values -/

/-- A value without floating point numbers, as the format has it: its integers have 64 bits,
and the fields of its objects are in order. -/
inductive Plain : Json → Prop where
  | null : Plain .null
  | bool (b : Bool) : Plain (.bool b)
  | int (n : Int) (fits : FitsWord n) : Plain (.int n)
  | str (s : String) : Plain (.str s)
  | arr (vs : List Json) (items : ∀ v ∈ vs, Plain v) : Plain (.arr vs)
  | obj (fs : List (String × Json)) (sorted : fs.Pairwise fun f g => f.1 < g.1)
      (fields : ∀ f ∈ fs, Plain f.2) : Plain (.obj fs)

theorem insert_last {k : String} {v : Json} {fs : List (String × Json)}
    (last : ∀ f ∈ fs, f.1 < k) : insert k v fs = fs ++ [(k, v)] := by
  induction fs with
  | nil => rfl
  | cons f more ih =>
      obtain ⟨k', v'⟩ := f
      have before : k' < k := last (k', v') List.mem_cons_self
      have other : k ≠ k' := by
        rintro rfl
        exact String.lt_irrefl k before
      rw [insert, if_neg (String.lt_asymm before), if_neg other,
        ih fun f member => last f (.tail _ member)]
      rfl

/-- Fields that are in order stay as they are. -/
theorem object_sorted {fs : List (String × Json)} (sorted : fs.Pairwise fun f g => f.1 < g.1) :
    object fs = .obj fs := by
  have steps (before after : List (String × Json))
      (sorted : (before ++ after).Pairwise fun f g => f.1 < g.1) :
      after.foldl (fun acc f => insert f.1 f.2 acc) before = before ++ after := by
    induction after generalizing before with
    | nil => exact (List.append_nil before).symm
    | cons f more ih =>
        obtain ⟨k, v⟩ := f
        have last : ∀ f ∈ before, f.1 < k := fun f member =>
          (List.pairwise_append.1 sorted).2.2 f member (k, v) List.mem_cons_self
        rw [List.foldl_cons, insert_last last, ih _ (by simpa using sorted), List.append_assoc]
        rfl
  exact congrArg Json.obj (steps [] fs sorted)

theorem mapM_cons_eq_some {α β : Type} {f : α → Option β} {x : α} {xs : List α} {zs : List β}
    (mapped : (x :: xs).mapM f = some zs) :
    ∃ y ys, f x = some y ∧ xs.mapM f = some ys ∧ zs = y :: ys := by
  rw [List.mapM_cons, Option.bind_eq_bind, Option.bind_eq_some_iff] at mapped
  obtain ⟨y, first, mapped⟩ := mapped
  rw [Option.bind_eq_bind, Option.bind_eq_some_iff] at mapped
  obtain ⟨ys, later, last⟩ := mapped
  cases last
  exact ⟨y, ys, first, later, rfl⟩

/-- What is done to every item of a list is done to the list if it is possible for each. -/
theorem mapM_of_guard {α β : Type} {f : α → Option β} {g : α → β} {fits : α → Prop}
    [DecidablePred fits] {xs : List α}
    (each : ∀ x ∈ xs, f x = if fits x then some (g x) else none) :
    xs.mapM f = if ∀ x ∈ xs, fits x then some (xs.map g) else none := by
  induction xs with
  | nil => rfl
  | cons x rest ih =>
      rw [List.mapM_cons, each x List.mem_cons_self, ih fun y member => each y (.tail _ member)]
      by_cases first : fits x
      · by_cases later : ∀ y ∈ rest, fits y
        · rw [if_pos first, if_pos later, if_pos (List.forall_mem_cons.2 ⟨first, later⟩)]
          rfl
        · rw [if_pos first, if_neg later, if_neg fun all => later (List.forall_mem_cons.1 all).2]
          rfl
      · rw [if_neg first, if_neg fun all => first (List.forall_mem_cons.1 all).1]
        rfl

/-- A plain value is read as itself if the reader goes deeper than it is nested, and not at
all otherwise. -/
theorem reread_plain {v : Json} (plain : Plain v) (positive : 0 < depth) :
    reread depth v = if v.nesting < depth then some v else none := by
  induction plain generalizing depth with
  | null => simp [reread_eq readAs_null, nesting, positive]
  | bool b => simp [reread_eq (readAs_bool b), nesting, positive]
  | int n fits => simp [reread_eq (readAs_fits fits), nesting, positive]
  | str s => simp [reread_eq (readAs_str s), nesting, positive]
  | arr vs items ih =>
      rw [reread_arr fun v _ => steady v, nesting]
      by_cases shallow : depth ≤ 1
      · rw [if_pos shallow, if_neg (by omega)]
      · have inner : 0 < depth - 1 := by omega
        have all : (∀ v ∈ vs, v.nesting < depth - 1) ↔ deepest vs + 1 < depth :=
          (deepest_lt_iff inner).symm.trans Nat.lt_sub_iff_add_lt
        rw [if_neg shallow, mapM_of_guard fun v member => ih v member inner, List.map_id']
        simp only [all]
        split <;> rfl
  | obj fs sorted fields ih =>
      rw [reread_obj fun f _ => steady f.2, nesting]
      by_cases shallow : depth ≤ 1
      · rw [if_pos shallow, if_neg (by omega)]
      · have inner : 0 < depth - 1 := by omega
        have each : ∀ f ∈ fs, rereadField (depth - 1) f =
            if f.2.nesting < depth - 1 then some f else none := by
          intro f member
          rw [rereadField, ih f member inner]
          split <;> rfl
        have all : (∀ f ∈ fs, f.2.nesting < depth - 1) ↔ deepestField fs + 1 < depth :=
          (deepestField_lt_iff inner).symm.trans Nat.lt_sub_iff_add_lt
        rw [if_neg shallow, mapM_of_guard each, List.map_id']
        simp only [all]
        split
        · exact congrArg some (object_sorted sorted)
        · rfl

end EventSourcing.Json
