import EventSourcing.Proofs.Fiber.Abiding
import EventSourcing.Proofs.Service.Exclusion

/-!
# Proofs.Service.Timely -- time goes on

Services read the clock and set alarms, and that is all they do to it.  So if methods, and
whatever happens outside, only let time pass and cancel contexts, then a context that has once
come to its end is at its end in all later moves of a call (`over_of_reachable`).
-/

namespace EventSourcing

set_option autoImplicit false
set_option linter.unusedSectionVars false

/-! ## What never goes back -/

section Steady

variable {W α : Type} {goes : W → W → Prop}

/-- Terms on which everyone keeps to the same moves. -/
def Terms.steady (goes : W → W → Prop) : Terms W Unit where
  known _ := True
  others _ := goes
  own _ w w' _ := goes w w'

theorem Fiber.Abides.steady {p : Fiber W α}
    (abides : p.Abides (fun _ => True) goes fun _ => True) :
    ∀ moves w, p.Safe (Terms.steady goes) (fun _ _ _ _ => True) () moves w := by
  induction p with
  | done a => exact fun _ _ => trivial
  | step act rest ih =>
      intro moves w w₁ _ _ b w₂ taken
      obtain ⟨own, after⟩ := abides.step trivial taken
      exact ⟨(), own, ih b after _ _⟩

variable (refl : ∀ w, goes w w) (trans : ∀ {w w₁ w₂}, goes w w₁ → goes w₁ w₂ → goes w w₂)

include refl trans

theorem harmony_steady {outside : W → W → Prop} (outer : ∀ w w', outside w w' → goes w w') :
    (Terms.steady goes).Harmony () (fun _ _ => True) outside where
  refl _ := refl
  trans := trans
  start _ := trivial
  turn _ _ _ own := ⟨trivial, trivial, fun _ _ _ _ => own⟩
  outside _ _ happened := ⟨trivial, trivial, fun _ => outer _ _ happened⟩

theorem Terms.Chain.since {w w' : W} {h h' : Unit} {moves : List (Move W)}
    (chain : (steady goes).Chain h w moves h' w') : ∀ mv ∈ moves, goes w mv.before := by
  induction chain with
  | wait => exact fun mv member => (List.not_mem_nil member).elim
  | move meanwhile own _ ih =>
      exact List.forall_mem_cons.2 ⟨meanwhile, fun mv member =>
        trans meanwhile (trans own (ih mv member))⟩

/-- Where everyone keeps to moves that never go back, what a task finds in a move has gone on
from what it left in any move before. -/
theorem Pool.gone_on_of_reachable {R : Type 1} {Result : R → Type}
    {answer : (r : R) → Fiber W (Result r)} {allowed : R → Prop} {outside : W → W → Prop}
    {start : W} {pool : Pool W Result} (outer : ∀ w w', outside w w' → goes w w')
    (answers : ∀ r, allowed r → (answer r).Abides (fun _ => True) goes fun _ => True)
    (reachable : Reachable answer allowed outside start pool) {task : Task W Result}
    (member : task ∈ pool.tasks) {before later : List (Move W)} {mv : Move W}
    (moves : task.moves = before ++ mv :: later) : ∀ mv' ∈ later, goes mv.after mv'.before := by
  have harmony := harmony_steady refl trans outer
  have safe (r : R) (may : allowed r) (w : W) :
      (answer r).Safe (Terms.steady goes) (fun _ _ _ _ => True) () [] w :=
    (answers r may).steady [] w
  obtain ⟨w, h, chain⟩ := Pool.chain_of_reachable harmony safe trivial trivial reachable task member
  rw [moves] at chain
  obtain ⟨_, _, _, on⟩ := chain.parts harmony
  cases on with
  | move _ _ rest => exact rest.since refl trans

end Steady

/-! ## What services do to the clock -/

open EventSourcing.Store (Cell)
open Service (SyncError CallFailure Emitted Logic Produced)

variable {ι : Type} {P E ε : ι → Type} {X L O : Type}

/-- A change by which time has passed, if anything, and nobody has come back. -/
def Commons.Onward (w w' : Commons ι P X) : Prop :=
  w.clock.Onward w'.clock

/-- A method that lets time pass and cancels contexts at most. -/
def Punctual {i : ι} (logic : Logic (Commons ι P X) (P i) (E i) L O) : Prop :=
  ∀ ctx p w, Commons.Onward w (logic ctx p w).2

def Request.Punctual : Request ι P E ε X → Prop :=
  Request.Methods fun _ => EventSourcing.Punctual

/-- A fiber in whose moves time goes on. -/
def Fiber.Timely {α : Type} (p : Fiber (Commons ι P X) α) : Prop :=
  p.Abides (fun _ => True) Commons.Onward fun _ => True

section Rules

variable {α β : Type}

theorem timely_pure {a : α} : (pure a : Fiber (Commons ι P X) α).Timely :=
  Fiber.abides_pure trivial

theorem timely_bind {p : Fiber (Commons ι P X) α} {next : α → Fiber (Commons ι P X) β}
    (first : p.Timely) (later : ∀ a, (next a).Timely) : (p >>= next).Timely :=
  Fiber.abides_bind first fun a _ => later a

theorem timely_atomic {act : Commons ι P X → α × Commons ι P X}
    (onward : ∀ w, Commons.Onward w (act w).2) : (Fiber.atomic act).Timely :=
  Fiber.abides_atomic _ fun w _ => ⟨onward w, trivial⟩

/-- An action that leaves the clock alone. -/
theorem timely_still {act : Commons ι P X → α × Commons ι P X}
    (same : ∀ w, (act w).2.clock = w.clock) : (Fiber.atomic act).Timely :=
  timely_atomic fun w => show w.clock.Onward (act w).2.clock from same w ▸ .refl _

theorem timely_look {f : Commons ι P X → α} : (Fiber.atomic fun w => (f w, w)).Timely :=
  timely_still fun _ => rfl

theorem timely_run {ctx : Context} {act : Commons ι P X → Option (α × Commons ι P X)}
    (same : ∀ w a w', act w = some (a, w') → w'.clock = w.clock) :
    (ctx.run Commons.clockPart (Fiber.await act)).Timely := by
  intro moves w
  refine Context.safe_run_await (fun _ _ => True) trivial (fun _ _ w₁ w₂ _ _ _ bides => ?_)
    (fun _ _ _ _ => trivial) fun _ _ w₁ a w₂ _ _ _ taken => ?_
  · rcases bides with rfl | ⟨time, rfl⟩
    · exact ⟨Clock.Onward.refl _, trivial⟩
    · exact ⟨(Clock.later_setAlarm _ _).toOnward, trivial⟩
  · exact ⟨(), show w₁.clock.Onward w₂.clock from same w₁ a w₂ taken ▸ .refl _, trivial⟩

end Rules

variable [DecidableEq ι] {party : (i : ι) → Party (P i) (E i) (ε i)} {i : ι} {ctx : Context}
  {logic : Logic (Commons ι P X) (P i) (E i) L O} {m : Contract.Method}

theorem timely_read :
    (ctx.run Commons.clockPart
      (Fiber.await (Request.service (X := X) party i).store.read)).Timely := by
  refine timely_run fun w a w' acted => ?_
  change (if (w.cell i).isWritten then _ else _) = _ at acted
  split at acted <;> cases acted
  rfl

theorem timely_write :
    (ctx.run Commons.clockPart
      (Fiber.await (Request.service (X := X) party i).store.write)).Timely := by
  refine timely_run fun w a w' acted => ?_
  change (if (w.cell i).isFree then _ else _) = _ at acted
  split at acted <;> cases acted
  rfl

theorem clock_takeIn (entry : Log.Entry) (reached : Version) (w : Commons ι P X) :
    ((Request.service party i).takeIn entry reached w).2.clock = w.clock := by
  rcases takeIn_redrafts entry reached w with same | ⟨s, after⟩
  · rw [same]
  · rw [after]
    rfl

theorem timely_visit (entries : List Log.Entry) (reached : Version) :
    (Log.Memory.visit Commons.clockPart ctx (Request.service (X := X) party i).takeIn entries
      reached).Timely := by
  induction entries generalizing reached with
  | nil => exact timely_pure
  | cons entry rest ih =>
      refine timely_bind timely_look ?_
      rintro (_ | reason)
      · refine timely_bind (timely_still (clock_takeIn entry reached)) ?_
        rintro (error | reached')
        · exact timely_pure
        · exact ih reached'
      · exact timely_pure

theorem timely_syncIn : ((Request.service (X := X) party i).syncIn ctx).Timely := by
  refine timely_bind timely_look ?_
  rintro (e | recorded)
  · exact timely_pure
  dsimp only
  rw [versionOrOrigin_eq, pure_bind]
  refine timely_bind (timely_bind timely_look ?_) ?_
  · rintro (e | entries)
    · exact timely_pure
    · exact timely_visit entries _
  · rintro ⟨_ | e | e | reason, reached⟩
    · exact timely_pure
    · dsimp only
      split <;> exact timely_pure
    · exact timely_pure
    · exact timely_pure

theorem timely_finish (keep : Bool) :
    ((Request.service (X := X) party i).finish keep).Timely :=
  timely_still fun w => by cases keep <;> rfl

theorem timely_syncWith (accepts : SyncError (ε i) → Bool) :
    ((Request.service (X := X) party i).syncWith ctx accepts).Timely := by
  refine timely_bind timely_write ?_
  rintro (reason | e | begun)
  · exact timely_pure
  · exact timely_pure
  · exact timely_bind timely_syncIn fun _ => timely_bind (timely_finish _) fun _ => timely_pure

theorem timely_projectionVersion :
    ((Request.service (X := X) party i).projectionVersion ctx).Timely := by
  refine timely_bind timely_read ?_
  rintro (reason | e | begun)
  · exact timely_pure
  · exact timely_pure
  refine timely_bind timely_look fun version => timely_bind (timely_still fun _ => rfl) fun _ => ?_
  cases version with
  | error e => exact timely_pure
  | ok v =>
      dsimp only
      rw [versionOrOrigin_eq]
      exact timely_pure

theorem timely_runReadonly (punctual : Punctual logic) :
    ((Request.service party i).runReadonly ctx logic).Timely := by
  refine timely_bind timely_read ?_
  rintro (reason | e | begun)
  · exact timely_pure
  · exact timely_pure
  refine timely_bind (timely_atomic fun w => punctual ctx _ w) fun result => ?_
  refine timely_bind (timely_still fun _ => rfl) fun _ => ?_
  cases result <;> exact timely_pure

theorem timely_append (payload : Log.Payload) :
    (Log.Memory.append Commons.clockPart Commons.logPart payload :
      Fiber (Commons ι P X) _).Timely := by
  unfold Log.Memory.append
  cases Log.split payload with
  | error e => exact timely_pure
  | ok texts => exact timely_still fun _ => rfl

theorem timely_runAppend (punctual : Punctual logic) :
    ((Request.service party i).runAppend ctx m logic).Timely := by
  refine timely_bind (timely_runReadonly punctual) ?_
  rintro (failure | ⟨output, events⟩)
  · exact timely_pure
  dsimp only
  split
  · exact timely_pure
  refine timely_bind timely_look ?_
  rintro (_ | reason)
  · dsimp only
    split
    · exact timely_pure
    · split
      · exact timely_pure
      · refine timely_bind (timely_append _) ?_
        rintro (e | appended) <;> exact timely_pure
  · exact timely_pure

theorem timely_tryAppend (punctual : Punctual logic) (rounds : Nat) (assumed : Version)
    (memory : Produced O (E i)) :
    (Log.Memory.tryAppend Commons.clockPart Commons.logPart ctx
      ((Request.service party i).attempt ctx m logic) rounds assumed memory).Timely := by
  induction rounds generalizing assumed memory with
  | zero => exact Fiber.abides_stuck
  | succ rounds ih =>
      refine timely_bind timely_look ?_
      rintro (_ | reason)
      · refine timely_bind (timely_atomic fun w => ?_) ?_
        · have ran := punctual ctx (w.cell i).visible.projection w
          have after : ((Request.service party i).produce ctx m logic memory w).2 =
              (logic ctx (w.cell i).visible.projection w).2 := produce_after memory w
          rwa [← after] at ran
        rintro ⟨error | _ | payload, memory'⟩
        · exact timely_pure
        · exact timely_pure
        dsimp only
        split
        · exact timely_pure
        · exact timely_pure
        refine timely_bind (timely_still fun _ => rfl) ?_
        rintro (_ | appended)
        · refine timely_bind (timely_bind timely_syncIn ?_) ?_
          · rintro (e | v) <;> exact timely_pure
          · rintro ⟨error | v, memory''⟩
            · exact timely_pure
            · exact ih v memory''
        · exact timely_pure
      · exact timely_pure

theorem timely_runTransaction (punctual : Punctual logic) :
    ((Request.service party i).runTransaction ctx m logic).Timely := by
  have transact : ((Request.service party i).transact ctx m logic).Timely := by
    refine timely_bind timely_look ?_
    rintro (e | recorded)
    · exact timely_pure
    dsimp only
    rw [versionOrOrigin_eq, pure_bind]
    refine timely_bind (timely_tryAppend punctual _ _ none) ?_
    rintro ⟨(e | e | reason) | appended, _ | ⟨output, events⟩⟩ <;> exact timely_pure
  refine timely_bind timely_write ?_
  rintro (reason | e | begun)
  · exact timely_pure
  · exact timely_pure
  · exact timely_bind transact fun _ => timely_bind (timely_finish _) fun _ => timely_pure

/-- Time goes on in every call whose method is punctual. -/
theorem timely_answer (r : Request ι P E ε X) (punctual : r.Punctual) :
    (Request.answer party r).Timely := by
  cases r with
  | raw payload => exact timely_append payload
  | sync i ctx => exact timely_syncWith _
  | syncWith i ctx accepts => exact timely_syncWith accepts
  | version i ctx => exact timely_projectionVersion
  | readonly i ctx name logic =>
      unfold Request.answer Service.readonly
      dsimp only
      split
      · exact timely_pure
      · exact timely_runReadonly punctual
  | append i ctx name logic =>
      unfold Request.answer Service.append
      dsimp only
      split
      · exact timely_pure
      · exact timely_runAppend punctual
  | transaction i ctx name logic =>
      unfold Request.answer Service.transaction
      dsimp only
      split
      · exact timely_pure
      · exact timely_runTransaction punctual
  | call i ctx name logic =>
      unfold Request.answer Service.call
      dsimp only
      split
      · exact timely_pure
      · split
        · exact timely_runAppend punctual
        · exact timely_runTransaction punctual
        · refine timely_bind (timely_runReadonly punctual) ?_
          rintro (e | ⟨output, events⟩)
          · exact timely_pure
          · dsimp only
            split <;> exact timely_pure

/-- A context that was over after some move of a task is over in all later ones. -/
theorem over_of_reachable (ctx : Context) {allowed : Request ι P E ε X → Prop}
    {outside : Commons ι P X → Commons ι P X → Prop} {start : Commons ι P X}
    {pool : Request.Traffic ι P E ε X} (punctual : ∀ r, allowed r → r.Punctual)
    (outer : ∀ w w', outside w w' → w.Onward w')
    (reachable : Pool.Reachable (Request.answer party) allowed outside start pool)
    {task : Task (Commons ι P X) fun r : Request ι P E ε X => r.Result}
    (member : task ∈ pool.tasks) {before later : List (Move (Commons ι P X))}
    {mv : Move (Commons ι P X)} (moves : task.moves = before ++ mv :: later)
    (expired : (ctx.interruption? mv.after.clock).isSome) :
    ∀ mv' ∈ later, (ctx.interruption? mv'.before.clock).isSome := by
  intro mv' next
  have refl (w : Commons ι P X) : w.Onward w := .refl w.clock
  have trans {w w₁ w₂ : Commons ι P X} (first : w.Onward w₁) (second : w₁.Onward w₂) :
      w.Onward w₂ := first.trans second
  have answers (r : Request ι P E ε X) (may : allowed r) : (Request.answer party r).Timely :=
    timely_answer r (punctual r may)
  exact Context.over_of_onward
    (Pool.gone_on_of_reachable refl trans outer answers reachable member moves mv' next) expired

end EventSourcing
