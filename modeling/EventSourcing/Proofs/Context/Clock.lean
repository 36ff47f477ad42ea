import EventSourcing.Context.Basic
import Mathlib.Data.List.Count

/-!
# Proofs.Context.Clock -- time goes on

As time passes and others are at work, a clock only goes on: nobody who was canceled comes
back, no notice is taken back and no alarm is forgotten (`Clock.Later`).  Main statement: a
context that is at its end stays there (`Context.over_of_onward`).
-/

namespace EventSourcing

set_option autoImplicit false

namespace Clock

/-- Time has passed, if anything, and whoever was canceled still is. -/
structure Onward (c c' : Clock) : Prop where
  now : c.now ≤ c'.now
  canceled : c.canceled ⊆ c'.canceled

/-- What may become of a clock as time passes and others are at work. -/
structure Later (c c' : Clock) : Prop extends Onward c c' where
  notices : ∀ family, c.noticesOf family ≤ c'.noticesOf family
  alarms : c.alarms ⊆ c'.alarms

/-- Nobody has been notified of a flag that is not up. -/
def Sound (c : Clock) : Prop :=
  c.notices ⊆ c.canceled

/-- Those who wait for a flag have been notified if it is up, and only then. -/
def Settled (c : Clock) : Prop :=
  ∀ family, family ∈ c.notices ↔ family ∈ c.canceled

variable {c c' c'' : Clock} {family : Nat}

theorem Onward.refl (c : Clock) : c.Onward c :=
  ⟨Nat.le_refl _, List.Subset.refl _⟩

theorem Onward.trans (first : c.Onward c') (second : c'.Onward c'') : c.Onward c'' :=
  ⟨Nat.le_trans first.now second.now, List.Subset.trans first.canceled second.canceled⟩

theorem onward_cancelFamily (family : Nat) (c : Clock) : c.Onward (c.cancelFamily family) :=
  ⟨Nat.le_refl _, List.subset_cons_self _ _⟩

theorem Later.refl (c : Clock) : c.Later c :=
  ⟨.refl c, fun _ => Nat.le_refl _, List.Subset.refl _⟩

theorem Later.trans (first : c.Later c') (second : c'.Later c'') : c.Later c'' :=
  ⟨first.toOnward.trans second.toOnward,
    fun family => Nat.le_trans (first.notices family) (second.notices family),
    List.Subset.trans first.alarms second.alarms⟩

theorem later_setAlarm (time : Nat) (c : Clock) : c.Later (c.setAlarm time) :=
  { Later.refl c with alarms := List.subset_cons_self _ _ }

theorem later_advanceTo (time : Nat) (c : Clock) : c.Later (c.advanceTo time) :=
  { Later.refl c with now := Nat.le_max_left _ _ }

theorem later_raise (family : Nat) (c : Clock) : c.Later (c.raise family) :=
  { Later.refl c with canceled := List.subset_cons_self _ _ }

theorem later_notify (family : Nat) (c : Clock) : c.Later (c.notify family) :=
  { Later.refl c with notices := fun _ => List.count_le_count_cons }

theorem noticesOf_pos : 0 < c.noticesOf family ↔ family ∈ c.notices :=
  List.count_pos_iff

theorem noticesOf_eq_zero : c.noticesOf family = 0 ↔ family ∉ c.notices :=
  List.count_eq_zero

theorem Later.mem_notices (later : c.Later c') (noticed : family ∈ c.notices) :
    family ∈ c'.notices :=
  noticesOf_pos.1 (Nat.lt_of_lt_of_le (noticesOf_pos.2 noticed) (later.notices family))

theorem Settled.sound (settled : c.Settled) : c.Sound := fun family => (settled family).1

end Clock

namespace Context

variable {ctx : Context} {c c' : Clock}

/-! ## Interruptions -/

theorem interruption?_eq_canceled :
    ctx.interruption? c = some .canceled ↔ ctx.family ∈ c.canceled := by
  unfold interruption?
  by_cases canceled : ctx.family ∈ c.canceled
  · simp [canceled]
  · cases ctx.deadline <;> simp [canceled]

theorem interruption?_eq_deadlineExceeded :
    ctx.interruption? c = some .deadlineExceeded ↔
      ctx.family ∉ c.canceled ∧ ∃ time, ctx.deadline = some time ∧ time ≤ c.now := by
  unfold interruption?
  by_cases canceled : ctx.family ∈ c.canceled
  · simp [canceled]
  · cases ctx.deadline <;> simp [canceled]

theorem interruption?_eq_none :
    ctx.interruption? c = none ↔
      ctx.family ∉ c.canceled ∧ ∀ time, ctx.deadline = some time → c.now < time := by
  unfold interruption?
  by_cases canceled : ctx.family ∈ c.canceled
  · simp [canceled]
  · cases ctx.deadline <;> simp [canceled]

/-- A reason for which a context is at its end; there may be two at the same time. -/
def Ended (ctx : Context) (c : Clock) : Interruption → Prop
  | .canceled => ctx.family ∈ c.canceled
  | .deadlineExceeded => ∃ time, ctx.deadline = some time ∧ time ≤ c.now

theorem isSome_interruption?_iff :
    (ctx.interruption? c).isSome ↔ ∃ reason, ctx.Ended c reason := by
  rw [← not_iff_not, Option.not_isSome_iff_eq_none, interruption?_eq_none]
  constructor
  · rintro ⟨live, future⟩ ⟨reason, ended⟩
    cases reason with
    | canceled => exact live ended
    | deadlineExceeded =>
        obtain ⟨time, deadline, passed⟩ := ended
        exact absurd (future time deadline) (Nat.not_lt.2 passed)
  · refine fun without => ⟨fun canceled => without ⟨.canceled, canceled⟩, fun time deadline => ?_⟩
    exact Nat.lt_of_not_le fun passed => without ⟨.deadlineExceeded, time, deadline, passed⟩

theorem Ended.onward {reason : Interruption} (ended : ctx.Ended c reason)
    (onward : c.Onward c') : ctx.Ended c' reason := by
  cases reason with
  | canceled => exact onward.canceled ended
  | deadlineExceeded =>
      obtain ⟨time, deadline, passed⟩ := ended
      exact ⟨time, deadline, Nat.le_trans passed onward.now⟩

/-- A context that has come to its end stays there. -/
theorem over_of_onward (onward : c.Onward c') (expired : (ctx.interruption? c).isSome) :
    (ctx.interruption? c').isSome := by
  rw [isSome_interruption?_iff] at expired ⊢
  obtain ⟨reason, ended⟩ := expired
  exact ⟨reason, ended.onward onward⟩

/-! ## Biding -/

variable {W : Type} {clock : Part W Clock} {w w' : W}

/-- What those do to the state who bide their time. -/
def Bides (clock : Part W Clock) (w w' : W) : Prop :=
  w' = w ∨ ∃ time, w' = clock.modify (Clock.setAlarm time) w

theorem Bides.set (bides : Bides clock w w') : ∃ c, w' = clock.set c w := by
  rcases bides with rfl | ⟨time, rfl⟩
  · exact ⟨_, (clock.set_get w').symm⟩
  · exact ⟨_, rfl⟩

theorem Bides.later (bides : Bides clock w w') : (clock.get w).Later (clock.get w') := by
  rcases bides with rfl | ⟨time, rfl⟩
  · exact .refl _
  · rw [Part.get_modify]
    exact Clock.later_setAlarm time _

end Context

end EventSourcing
