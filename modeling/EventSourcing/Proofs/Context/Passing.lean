import EventSourcing.Proofs.Context.Clock
import EventSourcing.Proofs.Fiber.Racing
import EventSourcing.Proofs.Fiber.Schedule

/-!
# Proofs.Context.Passing -- when time passes

In a pool of fibers time passes only while all of them have to wait, and not beyond a time for
which there is an alarm (`Pool.Timed`).  A fiber that raises a flag notifies those who wait for
it in its next step, which it can always take (`Fiber.Courteous`).  Main statement: when time
can pass, whoever waits for a flag that is up has been notified (`Pool.settled_of_rest`).
-/

namespace EventSourcing

set_option autoImplicit false

/-! ## Orderly changes -/

namespace Clock

/-- A change that takes no time, and in which those who wait for a flag are notified if and only
if it is up. -/
structure Orderly (c c' : Clock) : Prop extends Later c c' where
  still : c'.now = c.now
  raised : ∀ family ∈ c'.canceled, family ∈ c.canceled ∨ family ∈ c'.notices
  noticed : ∀ family ∈ c'.notices, family ∈ c.notices ∨ family ∈ c'.canceled

/-- What a fiber does to a clock in one step: an orderly change, or half a cancellation.  Before
and after the step it may owe a notice to those who wait for a family. -/
inductive Acts (c : Clock) : Clock → Option Nat → Option Nat → Prop where
  | orderly {c' : Clock} (orderly : c.Orderly c') : Acts c c' none none
  | raise (family : Nat) : Acts c (c.raise family) none (some family)
  | notify (family : Nat) : Acts c (c.notify family) (some family) none

variable {c c' : Clock} {owes owes' : Option Nat}

theorem Acts.later (acts : c.Acts c' owes owes') : c.Later c' := by
  cases acts with
  | orderly orderly => exact orderly.toLater
  | raise family => exact later_raise family c
  | notify family => exact later_notify family c

theorem Acts.now (acts : c.Acts c' owes owes') : c'.now = c.now := by
  cases acts with
  | orderly orderly => exact orderly.still
  | raise family => rfl
  | notify family => rfl

theorem Orderly.refl (c : Clock) : c.Orderly c :=
  { Later.refl c with
    still := rfl
    raised := fun _ => .inl
    noticed := fun _ => .inl }

theorem Orderly.sound (orderly : c.Orderly c') (sound : c.Sound) : c'.Sound := fun family told =>
  (orderly.noticed family told).elim (fun old => orderly.canceled (sound old)) id

theorem orderly_setAlarm (time : Nat) (c : Clock) : c.Orderly (c.setAlarm time) :=
  { later_setAlarm time c with
    still := rfl
    raised := fun _ => .inl
    noticed := fun _ => .inl }

end Clock

theorem Context.Bides.orderly {W : Type} {clock : Part W Clock} {w w' : W}
    (bides : Context.Bides clock w w') : (clock.get w).Orderly (clock.get w') := by
  rcases bides with rfl | ⟨time, rfl⟩
  · exact .refl _
  · rw [Part.get_modify]
    exact Clock.orderly_setAlarm time _

/-! ## Courteous fibers -/

namespace Fiber

variable {W α β : Type} (clock : Part W Clock)

/-- A fiber in whose steps no time passes, and which keeps to the order of canceling: once it
has raised a flag it notifies those who wait for it, in its next step and without waiting. -/
def Courteous : Fiber W α → (owes : Option Nat) → Prop
  | done _, owes => owes = none
  | step act rest, none => ∀ w b w', act w = some (b, w') →
      ∃ owes, (clock.get w).Acts (clock.get w') none owes ∧ Courteous (rest b) owes
  | step act rest, some family => ∀ w, ∃ b w', act w = some (b, w') ∧
      clock.get w' = (clock.get w).notify family ∧ Courteous (rest b) none

variable {clock} {p q : Fiber W α} {owes : Option Nat} {mv : Move W}

theorem Courteous.goes (courteous : p.Courteous clock owes) (goes : p.Goes mv q) :
    ∃ owes', (clock.get mv.before).Acts (clock.get mv.after) owes owes' ∧
      q.Courteous clock owes' := by
  obtain @⟨_, act, rest, b, w, w', taken⟩ := goes
  cases owes with
  | none => exact courteous w b w' taken
  | some family =>
      obtain ⟨b', w₁, taken', notified, after⟩ := courteous w
      cases taken'.symm.trans taken
      exact ⟨none, notified ▸ .notify family, after⟩

/-- A fiber that owes a notice does not wait. -/
theorem Courteous.awake {family : Nat} (courteous : p.Courteous clock (some family)) (w : W) :
    p.Pending ∧ ¬ p.Asleep w := by
  cases p with
  | done a => cases courteous
  | step act rest =>
      obtain ⟨b, w', taken, _⟩ := courteous w
      refine ⟨trivial, fun asleep => ?_⟩
      cases taken.symm.trans asleep

/-- What is kept by each step of a fiber, and tells that it is courteous then. -/
theorem courteous_of_goes (kept : Fiber W α → Option Nat → Prop)
    (ended : ∀ a owes, kept (done a) owes → owes = none)
    (awake : ∀ p family w, kept p (some family) → ¬ p.Asleep w)
    (goes : ∀ p owes mv q, kept p owes → p.Goes mv q →
      ∃ owes', (clock.get mv.before).Acts (clock.get mv.after) owes owes' ∧ kept q owes')
    (begun : kept p owes) : p.Courteous clock owes := by
  induction p generalizing owes with
  | done a => exact ended a owes begun
  | step act rest ih =>
      cases owes with
      | none =>
          intro w b w' taken
          obtain ⟨owes', acts, after⟩ := goes _ _ _ _ begun (.go taken)
          exact ⟨owes', acts, ih b after⟩
      | some family =>
          intro w
          cases taken : act w with
          | none => exact absurd taken (awake _ family w begun)
          | some r =>
              obtain ⟨owes', acts, after⟩ := goes _ _ _ _ begun (.go taken)
              generalize same : clock.get r.2 = c at acts
              cases acts with
              | notify _ => exact ⟨r.1, r.2, rfl, same, ih r.1 after⟩

theorem courteous_of_keeps
    (keeps : p.Keeps fun w w' => (clock.get w).Orderly (clock.get w')) :
    p.Courteous clock none := by
  refine courteous_of_goes
    (fun p owes => owes = none ∧ p.Keeps fun w w' => (clock.get w).Orderly (clock.get w'))
    (fun _ _ kept => kept.1) (fun _ _ _ kept => nomatch kept.1) ?_ ⟨rfl, keeps⟩
  rintro p _ mv q ⟨rfl, keeps⟩ goes
  obtain ⟨orderly, after⟩ := keeps.goes goes
  exact ⟨none, .orderly orderly, rfl, after⟩

theorem courteous_bind {next : α → Fiber W β} (first : p.Courteous clock owes)
    (later : ∀ a, (next a).Courteous clock none) : (p >>= next).Courteous clock owes := by
  induction p generalizing owes with
  | done a =>
      obtain rfl : owes = none := first
      exact later a
  | step act rest ih =>
      cases owes with
      | none =>
          intro w b w' taken
          obtain ⟨owes', acts, after⟩ := first w b w' taken
          exact ⟨owes', acts, ih b after⟩
      | some family =>
          intro w
          obtain ⟨b, w', taken, notified, after⟩ := first w
          exact ⟨b, w', taken, notified, ih b after⟩

/-- A race is courteous if its first fiber is and the second does nothing disorderly. -/
theorem courteous_race {q : Fiber W β} (first : p.Courteous clock none) (pending : q.Pending)
    (second : q.Keeps fun w w' => (clock.get w).Orderly (clock.get w')) :
    (race p q).Courteous clock none := by
  let Kept (q : Fiber W β) := q.Keeps fun w w' => (clock.get w).Orderly (clock.get w')
  -- It is the turn of the second fiber only while the first one owes nothing.
  refine courteous_of_goes (fun r owes => ∃ (p : Fiber W α) (q : Fiber W β),
      p.Courteous clock owes ∧ Kept q ∧ (q.Pending ∧ r = race p q ∨
        owes = none ∧ p.Pending ∧ r = raceBack p q))
    ?_ ?_ ?_ ⟨p, q, first, second, .inl ⟨pending, rfl⟩⟩
  · rintro result owes ⟨p, q, courteous, _, ⟨pending, same⟩ | ⟨rfl, _⟩⟩
    · cases p with
      | done a => exact courteous
      | step act rest =>
          have still := pending_race (p := step act rest) trivial pending
          rw [← same] at still
          exact still.elim
    · rfl
  · rintro r family w ⟨p, q, courteous, _, ⟨pending, rfl⟩ | ⟨free, _⟩⟩ asleep
    · exact (courteous.awake w).2 ((asleep_race pending).1 asleep).1
    · cases free
  · rintro r owes mv r' ⟨p, q, courteous, kept, ⟨pending, rfl⟩ | ⟨rfl, pending, rfl⟩⟩ goes
    · rcases goes_race pending goes with ⟨p', own, rfl⟩ | ⟨asleep, q', other, rfl⟩
      · obtain ⟨owes', acts, after⟩ := courteous.goes own
        exact ⟨owes', acts, p', q, after, kept, .inl ⟨pending, rfl⟩⟩
      · cases owes with
        | none =>
            obtain ⟨orderly, after⟩ := kept.goes other
            exact ⟨none, .orderly orderly, p, q', courteous, after, .inr ⟨rfl, asleep.pending, rfl⟩⟩
        | some family => exact absurd asleep (courteous.awake _).2
    · rcases goes_raceBack pending goes with ⟨q', other, rfl⟩ | ⟨asleep, same, rfl⟩
      · obtain ⟨orderly, after⟩ := kept.goes other
        exact ⟨none, .orderly orderly, p, q', courteous, after, .inr ⟨rfl, pending, rfl⟩⟩
      · exact ⟨none, .orderly (same ▸ .refl _), p, q, courteous, kept, .inl ⟨asleep.pending, rfl⟩⟩

end Fiber

/-! ## Pools -/

namespace Pool

variable {W : Type} {R : Type 1} {Result : R → Type}

/-- All tasks have to wait, or have ended. -/
def Rests (pool : Pool W Result) : Prop :=
  ∀ task ∈ pool.tasks, task.fiber.Pending → task.fiber.Asleep pool.state

instance (pool : Pool W Result) : Decidable pool.Rests :=
  inferInstanceAs (Decidable (∀ task ∈ pool.tasks, _ → _))

/-- What can happen next where the shared state has a clock: what can happen in any pool, or time
passes while everybody has to wait. -/
inductive Timed (clock : Part W Clock) (answer : (r : R) → Fiber W (Result r))
    (allowed : R → Prop) (outside : W → W → Prop) : Pool W Result → Pool W Result → Prop where
  | work {pool pool' : Pool W Result} :
      Step answer allowed outside pool pool' → Timed clock answer allowed outside pool pool'
  | pass {pool : Pool W Result} (time : Nat) (rests : pool.Rests)
      (alarms : ∀ alarm ∈ (clock.get pool.state).alarms,
        (clock.get pool.state).now < alarm → time ≤ alarm) :
      Timed clock answer allowed outside pool
        ⟨clock.modify (Clock.advanceTo time) pool.state, pool.tasks⟩

/-- What comes of a pool as time passes. -/
def Becomes (clock : Part W Clock) (answer : (r : R) → Fiber W (Result r)) (allowed : R → Prop)
    (outside : W → W → Prop) : Pool W Result → Pool W Result → Prop :=
  Relation.ReflTransGen (Timed clock answer allowed outside)

variable {clock : Part W Clock} {answer : (r : R) → Fiber W (Result r)} {allowed : R → Prop}
  {outside : W → W → Prop} {start : W} {pool pool' : Pool W Result}

theorem becomes_of_steps
    (steps : Relation.ReflTransGen (Step answer allowed outside) pool pool') :
    Becomes clock answer allowed outside pool pool' :=
  Relation.ReflTransGen.mono (fun _ _ => .work) _ _ steps

theorem becomes_turn (becomes : Becomes clock answer allowed outside pool pool') (k : Nat) :
    Becomes clock answer allowed outside pool (pool'.turn k) :=
  becomes.trans (becomes_of_steps (steps_turn answer allowed outside pool' k))

theorem becomes_play {cues : List (Cue R)} (may : ∀ r, Cue.start r ∈ cues → allowed r)
    (becomes : Becomes clock answer allowed outside pool pool') :
    Becomes clock answer allowed outside pool (play answer cues pool') :=
  becomes.trans (becomes_of_steps (steps_play may))

/-- Each task at its place keeps its request and goes on by its own moves, and time passes for it
only while it waits. -/
theorem Timed.task (timed : Timed clock answer allowed outside pool pool') {k : Nat}
    {task : Task W Result} (found : pool.tasks[k]? = some task) :
    pool'.tasks[k]? = some task ∨ ∃ mv q, task.fiber.Goes mv q ∧ mv.before = pool.state ∧
      mv.after = pool'.state ∧ pool'.tasks[k]? = some ⟨task.request, task.moves ++ [mv], q⟩ := by
  cases timed with
  | work step =>
      cases step with
      | start r may =>
          exact .inl ((List.getElem?_append_left (List.getElem?_eq_some_iff.1 found).1).trans found)
      | turn j found' taken =>
          by_cases same : j = k
          · subst same
            cases found'.symm.trans found
            exact .inr ⟨_, _, .go taken, rfl, rfl,
              List.getElem?_set_self (List.getElem?_eq_some_iff.1 found).1⟩
          · exact .inl ((List.getElem?_set_ne same).trans found)
      | outside happened => exact .inl found
  | pass time rests alarms => exact .inl found

/-! ## Notices that are owed -/

/-- What the tasks owe: whatever flag is up, those who wait for it have been notified, or some
task owes them a notice. -/
def Owed (clock : Part W Clock) (w : W) (hs : List (Option Nat)) : Prop :=
  (∀ family, some family ∈ hs → family ∈ (clock.get w).canceled) ∧
    ∀ family ∈ (clock.get w).canceled, family ∈ (clock.get w).notices ∨ some family ∈ hs

/-- The terms on which courteous fibers share a clock. -/
def courtesy (clock : Part W Clock) : Terms W (Option Nat) where
  known w := (clock.get w).Sound
  others _ w w' := (clock.get w).Later (clock.get w')
  own owes w w' owes' := (clock.get w).Acts (clock.get w') owes owes'

theorem mem_set_of_ne {hs : List (Option Nat)} {k : Nat} {h h' g : Option Nat}
    (held : hs[k]? = some h) (member : g ∈ hs) (other : g ≠ h) : g ∈ hs.set k h' := by
  obtain ⟨j, found⟩ := List.getElem?_of_mem member
  have apart : k ≠ j := by
    rintro rfl
    exact other (Option.some.inj (found.symm.trans held))
  exact List.mem_of_getElem? ((List.getElem?_set_ne apart).trans found)

theorem Owed.orderly {w w' : W} {hs : List (Option Nat)} (owed : Owed clock w hs)
    (orderly : (clock.get w).Orderly (clock.get w')) : Owed clock w' hs := by
  obtain ⟨up, noticed⟩ := owed
  refine ⟨fun family member => orderly.canceled (up family member), fun family member => ?_⟩
  rcases orderly.raised family member with old | new
  · exact (noticed family old).imp_left orderly.mem_notices
  · exact .inl new

/-- A step of a task changes what it owes itself, and no more. -/
theorem Owed.turn {w w' : W} {hs : List (Option Nat)} {k : Nat} {owes owes' : Option Nat}
    (sound : (clock.get w).Sound) (owed : Owed clock w hs) (held : hs[k]? = some owes)
    (acts : (clock.get w).Acts (clock.get w') owes owes') :
    (clock.get w').Sound ∧ Owed clock w' (hs.set k owes') := by
  have inside : k < hs.length := (List.getElem?_eq_some_iff.1 held).1
  generalize after : clock.get w' = c' at acts
  cases acts with
  | orderly orderly =>
      subst after
      have same : hs.set k none = hs := by
        obtain ⟨_, here⟩ := List.getElem?_eq_some_iff.1 held
        simpa [here] using List.set_getElem_self inside
      rw [same]
      exact ⟨orderly.sound sound, owed.orderly orderly⟩
  | raise family =>
      obtain ⟨up, noticed⟩ := owed
      rw [Owed, after]
      refine ⟨fun f member => .tail _ (sound member), fun f member => ?_, fun f member => ?_⟩
      · rcases List.mem_or_eq_of_mem_set member with old | new
        · exact .tail _ (up f old)
        · cases new
          exact .head _
      · rcases List.mem_cons.1 member with rfl | old
        · exact .inr (List.mem_of_getElem? (List.getElem?_set_self inside))
        · exact (noticed f old).imp_right fun owing => mem_set_of_ne held owing nofun
  | notify family =>
      obtain ⟨up, noticed⟩ := owed
      rw [Owed, after]
      have raised : family ∈ (clock.get w).canceled := up family (List.mem_of_getElem? held)
      refine ⟨fun f member => ?_, fun f member => ?_, fun f member => ?_⟩
      · rcases List.mem_cons.1 member with rfl | old
        · exact raised
        · exact sound old
      · rcases List.mem_or_eq_of_mem_set member with old | new
        · exact up f old
        · cases new
      · rcases noticed f member with old | owing
        · exact .inl (.tail _ old)
        · by_cases same : f = family
          · exact .inl (same ▸ .head _)
          · exact .inr (mem_set_of_ne held owing fun eq => same (Option.some.inj eq))

/-- What happens outside of the tasks, the passing of time included. -/
def Around (clock : Part W Clock) (outside : W → W → Prop) (w w' : W) : Prop :=
  outside w w' ∨ ∃ time, w' = clock.modify (Clock.advanceTo time) w

theorem harmony_courtesy
    (orderly : ∀ w w', outside w w' → (clock.get w).Orderly (clock.get w')) :
    (courtesy clock).Harmony none (Owed clock) (Around clock outside) where
  refl _ _ := .refl _
  trans first second := first.trans second
  start := fun owed => by
    refine ⟨fun family member => ?_, fun family up => ?_⟩
    · rcases List.mem_append.1 member with old | new
      · exact owed.1 family old
      · cases List.mem_singleton.1 new
    · exact (owed.2 family up).imp_right (List.mem_append_left _)
  turn := fun sound owed held acts =>
    ⟨(owed.turn sound held acts).1, (owed.turn sound held acts).2, fun _ _ _ _ => acts.later⟩
  outside := by
    rintro w w' hs sound owed (happened | ⟨time, rfl⟩)
    · have orderly := orderly w w' happened
      exact ⟨orderly.sound sound, owed.orderly orderly, fun _ => orderly.toLater⟩
    · have same : clock.get (clock.modify (Clock.advanceTo time) w) =
          (clock.get w).advanceTo time := clock.get_modify _ _
      refine ⟨?_, ?_, fun _ => ?_⟩
      · show (clock.get _).Sound
        rw [same]
        exact sound
      · unfold Owed
        rw [same]
        exact owed
      · show (clock.get w).Later (clock.get _)
        rw [same]
        exact Clock.later_advanceTo time _

/-- As time passes nothing happens that could not happen in any pool. -/
theorem reachable_of_becomes
    (becomes : Becomes clock answer allowed outside ⟨start, []⟩ pool) :
    Reachable answer allowed (Around clock outside) start pool := by
  induction becomes with
  | refl => exact .refl
  | tail _ timed ih =>
      refine ih.tail ?_
      cases timed with
      | work step =>
          cases step with
          | start r may => exact .start r may
          | turn k found taken => exact .turn k found taken
          | outside happened => exact .outside (.inl happened)
      | pass time rests alarms => exact .outside (.inr ⟨time, rfl⟩)

/-- All tasks of a pool are courteous at any time, if their requests are. -/
theorem courteous_of_becomes
    (answers : ∀ r, allowed r → (answer r).Courteous clock none)
    (orderly : ∀ w w', outside w w' → (clock.get w).Orderly (clock.get w'))
    (settled : (clock.get start).Settled)
    (becomes : Becomes clock answer allowed outside ⟨start, []⟩ pool) :
    Holds (courtesy clock) (Owed clock) (fun _ task owes => task.fiber.Courteous clock owes)
      pool := by
  refine holds_of_reachable (harmony_courtesy orderly) (fun r _ may => answers r may) ?_
    (fun courteous _ => courteous) settled.sound ?_ (reachable_of_becomes becomes)
  · intro w w' r moves β act rest b owes _ courteous taken
    obtain ⟨owes', acts, after⟩ := courteous.goes (.go taken)
    exact ⟨owes', acts, after⟩
  · exact ⟨fun family owing => (List.not_mem_nil owing).elim,
      fun family up => .inl ((settled family).2 up)⟩

/-- When all tasks have to wait, nobody owes a notice any more. -/
theorem settled_of_rest
    (holds : Holds (courtesy clock) (Owed clock)
      (fun _ task owes => task.fiber.Courteous clock owes) pool)
    (rests : pool.Rests) : (clock.get pool.state).Settled := by
  obtain ⟨sound, hs, ⟨_, noticed⟩, lengths, each⟩ := holds
  refine fun family => ⟨fun member => sound member, fun up => ?_⟩
  rcases noticed family up with told | owing
  · exact told
  · obtain ⟨k, held⟩ := List.getElem?_of_mem owing
    have inside : k < pool.tasks.length := lengths ▸ (List.getElem?_eq_some_iff.1 held).1
    have found := List.getElem?_eq_getElem inside
    have courteous := each k _ _ found held
    have pending := (courteous.awake pool.state).1
    exact absurd (rests _ (List.mem_of_getElem? found) pending) (courteous.awake pool.state).2

end Pool

end EventSourcing
