import EventSourcing.Proofs.Fiber.Pool
import EventSourcing.Proofs.Service.Replay
import Mathlib.Logic.Function.Basic

/-!
# Proofs.Service.Commons -- services around one log

Any number of services share a log, and each of them has a store of its own.  They are
asked to synchronize and to run methods, by any number of callers at the same time, and
others append to the log as they like.
-/

namespace EventSourcing

set_option autoImplicit false

open EventSourcing.Store (Cell)

structure Commons (ι : Type) (P : ι → Type) (X : Type) where
  clock : Clock
  log : Log.Memory
  /-- The store of each service. -/
  cell : (i : ι) → Cell (P i)
  /-- Whatever methods remember, and all else. -/
  rest : X

namespace Commons

variable {ι : Type} [DecidableEq ι] {P : ι → Type} {X : Type}

def clockPart : Part (Commons ι P X) Clock where
  get := clock
  set c w := { w with clock := c }

def logPart : Part (Commons ι P X) Log.Memory where
  get := log
  set l w := { w with log := l }

def cellPart (i : ι) : Part (Commons ι P X) (Cell (P i)) where
  get w := w.cell i
  set c w := { w with cell := Function.update w.cell i c }
  get_set c w := Function.update_self i c w.cell
  set_get w := by rw [Function.update_eq_self]
  set_set c d w := by rw [Function.update_idem]

/-! ## What a change of one store leaves alone -/

variable (i : ι) (f : Cell (P i) → Cell (P i)) (w : Commons ι P X)

@[simp] theorem cell_modify_self : ((cellPart i).modify f w).cell i = f (w.cell i) :=
  Function.update_self i _ w.cell

theorem cell_modify_ne {j : ι} (other : j ≠ i) :
    ((cellPart i).modify f w).cell j = w.cell j :=
  Function.update_of_ne other _ w.cell

@[simp] theorem log_modify : ((cellPart i).modify f w).log = w.log := rfl

end Commons

/-! ## Requests -/

open Service (Logic SyncError CallFailure Emitted)

/-- What the services around a log can be asked for, and raw appends to the log. -/
inductive Request (ι : Type) (P E ε : ι → Type) (X : Type) : Type 1 where
  | raw (payload : Log.Payload)
  | sync (i : ι) (ctx : Context)
  | syncWith (i : ι) (ctx : Context) (accepts : SyncError (ε i) → Bool)
  | version (i : ι) (ctx : Context)
  | readonly (i : ι) (ctx : Context) (name : String) {L O : Type}
      (logic : Logic (Commons ι P X) (P i) (E i) L O)
  | append (i : ι) (ctx : Context) (name : String) {L O : Type}
      (logic : Logic (Commons ι P X) (P i) (E i) L O)
  | transaction (i : ι) (ctx : Context) (name : String) {L O : Type}
      (logic : Logic (Commons ι P X) (P i) (E i) L O)
  | call (i : ι) (ctx : Context) (name : String) {L O : Type}
      (logic : Logic (Commons ι P X) (P i) (E i) L O)

namespace Request

variable {ι : Type} {P E ε : ι → Type} {X : Type}

def Result : Request ι P E ε X → Type
  | raw _ => Except Log.Error Log.Appended
  | sync i _ => Except (SyncError (ε i)) Version
  | syncWith i _ _ => Except (SyncError (ε i)) Version
  | version i _ => Except (SyncError (ε i)) Version
  | readonly (L := L) (O := O) i _ _ _ => Except (CallFailure L (ε i)) (O × List (E i))
  | append (L := L) (O := O) i _ _ _ => Except (CallFailure L (ε i)) (Emitted O (E i))
  | transaction (L := L) (O := O) i _ _ _ => Except (CallFailure L (ε i)) (Emitted O (E i))
  | call (L := L) (O := O) i _ _ _ => Except (CallFailure L (ε i)) (Emitted O (E i))

abbrev Traffic (ι : Type) (P E ε : ι → Type) (X : Type) :=
  Pool (Commons ι P X) fun r : Request ι P E ε X => r.Result

variable [DecidableEq ι] (party : (i : ι) → Party (P i) (E i) (ε i))

def service (i : ι) : Service (Commons ι P X) (P i) (E i) (ε i) :=
  (party i).service Commons.clockPart Commons.logPart (Commons.cellPart i)

def answer : (r : Request ι P E ε X) → Fiber (Commons ι P X) r.Result
  | raw payload => Log.Memory.append Commons.clockPart Commons.logPart payload
  | sync i ctx => (service party i).sync ctx
  | syncWith i ctx accepts => (service party i).syncWith ctx accepts
  | version i ctx => (service party i).projectionVersion ctx
  | readonly i ctx name logic => (service party i).readonly ctx name logic
  | append i ctx name logic => (service party i).append ctx name logic
  | transaction i ctx name logic => (service party i).transaction ctx name logic
  | call i ctx name logic => (service party i).call ctx name logic

end Request

end EventSourcing
