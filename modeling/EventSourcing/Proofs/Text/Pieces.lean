import Mathlib.Data.List.Basic

/-!
# Proofs.Text.Pieces -- texts in pieces

The pieces of a text are what stands between its dots.  They are told by the text: they have no
dots themselves and give the text when they are put together with dots (`pieces_iff`).
-/

namespace EventSourcing.Text

set_option autoImplicit false

/-- What stands between the dots of a text, which may be nothing. -/
structure Pieces (text : String) (pieces : List String) : Prop where
  filled : pieces ≠ []
  undotted : ∀ p ∈ pieces, '.' ∉ p.toList
  joined : ".".intercalate pieces = text

theorem not_mem_of_mem_splitOn {c : Char} {cs piece : List Char} (member : piece ∈ cs.splitOn c) :
    c ∉ piece := by
  induction cs generalizing piece with
  | nil =>
      rw [List.splitOn_nil, List.mem_singleton] at member
      rw [member]
      exact List.not_mem_nil
  | cons first rest ih =>
      rw [List.splitOn_cons_eq_if_modifyHead] at member
      split at member
      · rcases List.mem_cons.1 member with rfl | later
        · exact List.not_mem_nil
        · exact ih later
      · rename_i other
        obtain ⟨piece', pieces, split⟩ := List.exists_cons_of_ne_nil (List.splitOn_ne_nil c rest)
        rw [split, List.modifyHead_cons] at member
        rw [split] at ih
        rcases List.mem_cons.1 member with rfl | later
        · intro inside
          rcases List.mem_cons.1 inside with same | inside
          · exact other (beq_iff_eq.2 same.symm)
          · exact ih List.mem_cons_self inside
        · exact ih (List.mem_cons_of_mem _ later)

/-- The pieces of a text are those that it is split into at its dots. -/
theorem pieces_iff {text : String} {pieces : List String} :
    Pieces text pieces ↔ pieces = (text.toList.splitOn '.').map String.ofList := by
  constructor
  · rintro ⟨filled, undotted, rfl⟩
    have apart : ∀ piece ∈ pieces.map String.toList, '.' ∉ piece := by
      simpa only [List.forall_mem_map] using undotted
    have dot : ".".toList = ['.'] := rfl
    rw [String.toList_intercalate, dot,
      List.splitOn_intercalate '.' apart (mt List.map_eq_nil_iff.1 filled), List.map_map]
    simp [Function.comp_def]
  · rintro rfl
    refine ⟨by simp, ?_, ?_⟩
    · intro p member
      obtain ⟨piece, split, rfl⟩ := List.mem_map.1 member
      rw [String.toList_ofList]
      exact not_mem_of_mem_splitOn split
    · rw [← String.toList_inj, String.toList_intercalate, List.map_map]
      simp only [Function.comp_def, String.toList_ofList, List.map_id']
      exact List.intercalate_splitOn '.'

end EventSourcing.Text
