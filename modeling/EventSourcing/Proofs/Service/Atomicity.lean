import EventSourcing.Proofs.Service.Prefix

/-!
# Proofs.Service.Atomicity -- a transaction is all or nothing

Whatever else goes on around a log, a call of a transaction that fails has left nothing in
the log, and its store is as it was when the call began to write.  Only a call that was
interrupted keeps what it had taken in, and a call that succeeds keeps what its method was
given last.
-/

namespace EventSourcing

set_option autoImplicit false
set_option linter.unusedSectionVars false

open EventSourcing.Store (Cell Snapshot)
open Service (CallFailure Emitted Logic)

variable {ι : Type} [DecidableEq ι] {P E ε : ι → Type} {X L O : Type}
  {party : (i : ι) → Party (P i) (E i) (ε i)}

/-- Nothing is known, and everything is allowed. -/
def Policy.free : Policy ι P X where
  known _ := True
  runs _ _ _ := True
  commits _ _ := True
  pushes _ _ := True

theorem Policy.free_admits {r : Request ι P E ε X} (aloof : r.Aloof) :
    Policy.free.Admits party r := by
  refine Policy.admits_of_open (fun _ _ _ => trivial) ?_ (.inr fun _ _ _ => trivial)
  exact aloof.mono fun i L O logic aloof => ⟨aloof, fun _ _ _ => trivial⟩

/-- Where a call of a transaction leaves its store in which `s₀` was committed: the moves
`inside` are those after it had begun to write, and `ending` is the last one. -/
def Leaves (party : (i : ι) → Party (P i) (E i) (ε i)) (i : ι) (ctx : Context)
    (logic : Logic (Commons ι P X) (P i) (E i) L O) (s₀ : Snapshot (P i))
    (inside : List (Move (Commons ι P X))) (ending : Move (Commons ι P X)) (s : Snapshot (P i)) :
    Except (CallFailure L (ε i)) (Emitted O (E i)) → Prop
  | .ok emitted => Succeeded party i ctx logic s₀ inside emitted s
  | .error failure =>
      if failure.isInterrupted then
        (party i).Ahead ending.after.log.records s₀ (entriesTaken i inside) s
      else s = s₀

/-- Once a call of a transaction has ended, whatever others did meanwhile: if it failed, none
of its moves has changed the log.  Either it never began to write and has left its store
alone, or it has put a snapshot in the place of the one that it found: the same one if it
failed, the one with the entries that it had taken in if it was interrupted, and the one
that its method was given last, without its own events, if it succeeded. -/
theorem transaction_all_or_nothing {allowed : Request ι P E ε X → Prop}
    {outside : Commons ι P X → Commons ι P X → Prop} {start : Commons ι P X}
    {pool : Request.Traffic ι P E ε X} {i : ι} {ctx : Context} {name : String}
    {logic : Logic (Commons ι P X) (P i) (E i) L O} {moves : List (Move (Commons ι P X))}
    {result : Except (CallFailure L (ε i)) (Emitted O (E i))}
    (aloof : ∀ r, allowed r → r.Aloof) (outer : ∀ w w', outside w w' → Outside w w')
    (free : ∀ i, (start.cell i).readers = 0 ∧ (start.cell i).draft = none)
    (reachable : Pool.Reachable (Request.answer party) allowed outside start pool)
    (ended : Transacted party pool i ctx name logic moves result) :
    (∀ failure, result = .error failure → Quiet moves) ∧
      (Idle moves ∧ (∃ failure, result = .error failure) ∨
        ∃ s₀ before taking inside ending s, moves = before ++ taking :: (inside ++ [ending]) ∧
          Idle before ∧ Taking i s₀ taking ∧ ending.after.cell i = ⟨s, 0, none⟩ ∧
            Leaves party i ctx logic s₀ inside ending s result) := by
  have setting : Setting party Policy.free allowed outside start :=
    ⟨fun _ _ _ _ => trivial, fun _ _ => trivial, fun _ happened => ⟨trivial, outer _ _ happened⟩,
      fun r may => Policy.free_admits (aloof r may), trivial, free⟩
  cases setting.transacted reachable ended with
  | refused idle => exact ⟨fun _ _ mv member => (idle mv member).1, .inl ⟨idle, _, rfl⟩⟩
  | succeeded idle took succeeded log committed =>
      refine ⟨fun failure failed => (by cases failed), .inr ?_⟩
      exact ⟨_, _, _, _, _, _, rfl, idle, took, committed, succeeded⟩
  | interrupted interrupted idle took quiet log ahead committed =>
      refine ⟨fun _ _ => quiet_of_inside idle took quiet log, .inr ?_⟩
      refine ⟨_, _, _, _, _, _, rfl, idle, took, committed, ?_⟩
      rw [Leaves, if_pos interrupted]
      exact ahead
  | failed uninterrupted idle took quiet log restored =>
      refine ⟨fun _ _ => quiet_of_inside idle took quiet log, .inr ?_⟩
      refine ⟨_, _, _, _, _, _, rfl, idle, took, restored, ?_⟩
      rw [Leaves, if_neg (by simp [uninterrupted])]

/-! ## Someone comes too late -/

namespace Room

/-- Two people enter at the second gate while the first gate is about to append. -/
def crowdingOut : List (Cue Asked) :=
  .start (entering true) :: .start (entering false) :: .start (entering false) ::
    (List.replicate 5 (.turn 0) ++ List.replicate 7 (.turn 1) ++ List.replicate 14 (.turn 2) ++
      List.replicate 10 (.turn 0))

@[irreducible] def full :
    Request.Traffic Bool (fun _ => Nat) (fun _ => Passage) (fun _ => Unit) Shown :=
  Pool.play (Request.answer gate) crowdingOut ⟨empty, []⟩

theorem reachable_full :
    Pool.Reachable (Request.answer gate) Wanted (fun _ _ => False) empty full := by
  unfold full
  refine Pool.reachable_play (fun r member => ?_) .refl
  simp only [crowdingOut, List.mem_cons, List.mem_append, List.mem_replicate, Cue.start.injEq,
    reduceCtorEq, and_false, or_false] at member
  rcases member with rfl | rfl | rfl
  · exact ⟨true, rfl⟩
  · exact ⟨false, rfl⟩
  · exact ⟨false, rfl⟩

def turnedAway : (r : Asked) → r.Result → Bool
  | .transaction _ _ _ _, .error (.refused (.logic _)) => true
  | _, _ => false

/-- Whether a gate has counted the second person. -/
def countsSecond (mv : Move (World Shown)) : Bool :=
  (mv.before.cell true).visible.projection == 1 && (mv.after.cell true).visible.projection == 2

/-- The first gate has counted both people before it turns away the third. -/
theorem third_turned_away :
    ∃ moves, ⟨entering true, moves, .done (.error (.refused (.logic ())))⟩ ∈ full.tasks ∧
      ∃ mv ∈ moves, countsSecond mv := by
  unfold full
  have ended : ((Pool.play (Request.answer gate) crowdingOut ⟨empty, []⟩).tasks[0]?).any
      (Task.endedWith turnedAway) = true := by decide +kernel
  have counted : ((Pool.play (Request.answer gate) crowdingOut ⟨empty, []⟩).tasks[0]?).any
      (fun t => t.moves.any countsSecond) = true := by decide +kernel
  obtain ⟨moves, result, found, good⟩ := Pool.ended_request (r := entering true) rfl ended
  match result, good with
  | .error (.refused (.logic ())), _ =>
      rw [found] at counted
      exact ⟨moves, List.mem_of_getElem? found, List.any_eq_true.1 counted⟩

end Room

/-- In a room with two gates, the overtaken gate keeps the count that it decided on last.  If it
has to turn away whom it was about to let in, it forgets whom it has counted meanwhile, and the
log says nothing of it. -/
theorem overtaken_keeps_count :
    (∃ emitted s₀ before taking inside ending s,
      ⟨Room.entering true, before ++ taking :: (inside ++ [ending]), .done (.ok emitted)⟩ ∈
          Room.crowded.tasks ∧
        Taking true s₀ taking ∧ ending.after.cell true = ⟨s, 0, none⟩ ∧
          Succeeded Room.gate true ⟨0, none⟩ (Room.entry true) s₀ inside emitted s) ∧
    ∃ moves, ⟨Room.entering true, moves, .done (.error (.refused (.logic ())))⟩ ∈
        Room.full.tasks ∧
      (∃ mv ∈ moves, Room.countsSecond mv) ∧ Quiet moves ∧
      ∃ s₀ before taking inside ending, moves = before ++ taking :: (inside ++ [ending]) ∧
        Taking true s₀ taking ∧ ending.after.cell true = ⟨s₀, 0, none⟩ := by
  constructor
  · obtain ⟨moves, output, events, appended, ended⟩ := Room.overtaken_enters
    obtain ⟨_, ⟨_, failure, failed⟩ | settled⟩ := transaction_all_or_nothing
      (fun r wanted => Room.aloof_of_wanted wanted) (fun _ _ impossible => impossible.elim)
      (fun _ => ⟨rfl, rfl⟩) Room.reachable_crowded (.inl ended)
    · cases failed
    · obtain ⟨s₀, before, taking, inside, ending, s, rfl, _, took, committed, succeeded⟩ := settled
      exact ⟨_, s₀, before, taking, inside, ending, s, ended, took, committed, succeeded⟩
  · obtain ⟨moves, ended, mv, member, second⟩ := Room.third_turned_away
    obtain ⟨quiet, ⟨idle, _⟩ | settled⟩ := transaction_all_or_nothing
      (fun r wanted => Room.aloof_of_wanted wanted) (fun _ _ impossible => impossible.elim)
      (fun _ => ⟨rfl, rfl⟩) Room.reachable_full (.inl ended)
    · have counted : ((mv.before.cell true).visible.projection == 1 &&
          (mv.after.cell true).visible.projection == 2) = true := second
      rw [(idle mv member).2, Bool.and_eq_true, beq_iff_eq, beq_iff_eq] at counted
      exact absurd (counted.1.symm.trans counted.2) (by decide)
    · obtain ⟨s₀, before, taking, inside, ending, s, made, _, took, committed, same⟩ := settled
      obtain rfl : s = s₀ := same
      exact ⟨moves, ended, ⟨mv, member, second⟩, quiet _ rfl, s, before, taking, inside, ending,
        made, took, committed⟩

end EventSourcing
