import EventSourcing.Proofs.Service.Calls

/-!
# Proofs.Service.Journal -- what methods are given

A run of a method leaves no trace of what it was given, so methods may keep a journal.  Any
method can be made to note what it is given (`noted`), and still leaves alone what it left
alone before.
-/

namespace EventSourcing

set_option autoImplicit false
set_option linter.unusedSectionVars false

open EventSourcing.Store (Snapshot)
open Service (Logic)

variable {ι : Type} [DecidableEq ι] {P E ε : ι → Type} {X L O : Type}

/-- A note of what a method of a service was given. -/
abbrev Note (ι : Type) (P : ι → Type) := (i : ι) × Snapshot (P i)

variable (journal : X → List (Note ι P))

/-- A method of a service that, if it notes anything, notes what it is given. -/
def Notes (i : ι) (logic : Logic (Commons ι P X) (P i) (E i) L O) : Prop :=
  ∀ ctx p w, ∀ note ∈ journal (logic ctx p w).2.rest,
    note ∈ journal w.rest ∨ note = ⟨i, p, (w.cell i).visible.version⟩

/-- Requests whose methods leave the log and the stores alone while they run and only note
what they are given. -/
def Request.Noting : Request ι P E ε X → Prop :=
  Request.Methods fun i {_ _} logic => EventSourcing.Aloof logic ∧ Notes journal i logic

/-- The method with a journal in which every run of it is noted. -/
def noted (i : ι) (logic : Logic (Commons ι P X) (P i) (E i) L O) :
    Logic (Commons ι P (X × List (Note ι P))) (P i) (E i) L O := fun ctx p w =>
  let (result, after) := logic ctx p { w with rest := w.rest.1 }
  (result, { after with rest := (after.rest, ⟨i, p, (w.cell i).visible.version⟩ :: w.rest.2) })

theorem aloof_noted {i : ι} {logic : Logic (Commons ι P X) (P i) (E i) L O} (aloof : Aloof logic) :
    Aloof (noted i logic) :=
  fun ctx p w => aloof ctx p { w with rest := w.rest.1 }

theorem notes_noted {i : ι} {logic : Logic (Commons ι P X) (P i) (E i) L O} :
    Notes Prod.snd i (noted i logic) := by
  intro ctx p w note member
  rcases List.mem_cons.1 member with new | old
  · exact .inr new
  · exact .inl old

end EventSourcing
