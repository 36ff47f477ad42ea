import EventSourcing.Proofs.Context.Clock
import Mathlib.Logic.Relation
import Mathlib.Order.Bounds.Basic

/-!
# Proofs.Context.Family -- what becomes of contexts

Contexts are made anew or as clones of others, they get deadlines and are canceled, and meanwhile
time passes (`Context.Deed`).  From what was done one can tell which contexts are of one family,
which deadlines were set on the way to a context, and how late it is, and from this alone whether
and why it is at its end (`Context.Verdict`).  Main statement: this is what is found
(`Context.verdict_of_valid`).
-/

namespace EventSourcing.Context

set_option autoImplicit false

/-! ## What is done -/

def alone : Part Clock Clock where
  get c := c
  set c _ := c

/-- What is done with contexts, which are numbered in the order in which they are made. -/
inductive Deed where
  | make
  | clone (of : Nat)
  | deadline (of time : Nat)
  | timeout (of span : Nat)
  | cancel (of : Nat)
  | pass (span : Nat)

def Deed.subject? : Deed → Option Nat
  | .make => none
  | .clone i => some i
  | .deadline i _ => some i
  | .timeout i _ => some i
  | .cancel i => some i
  | .pass _ => none

structure Scene where
  contexts : List Context
  clock : Clock

def Scene.family? (s : Scene) (i : Nat) : Option Nat :=
  s.contexts[i]?.map (·.family)

def Scene.perform (s : Scene) : Deed → Scene
  | .make =>
      let (ctx, clock) := Context.new s.clock
      ⟨s.contexts ++ [ctx], clock⟩
  | .clone i => ⟨s.contexts ++ s.contexts[i]?.toList, s.clock⟩
  | .deadline i time => ⟨s.contexts.modify i (·.withDeadline time), s.clock⟩
  | .timeout i span => ⟨s.contexts.modify i (·.withTimeout s.clock span), s.clock⟩
  | .cancel i =>
      let cancel (ctx : Context) := ((ctx.cancel alone).advance s.clock).2
      ⟨s.contexts, (s.contexts[i]?.map cancel).getD s.clock⟩
  | .pass span => ⟨s.contexts, s.clock.advanceTo (s.clock.now + span)⟩

/-- What has become of the contexts; the latest deed is the first of the list. -/
def scene : List Deed → Scene
  | [] => ⟨[], .start⟩
  | d :: before => (scene before).perform d

/-! ## What the deeds tell -/

def made : List Deed → Nat
  | [] => 0
  | .make :: before => made before + 1
  | .clone _ :: before => made before + 1
  | _ :: before => made before

def elapsed : List Deed → Nat
  | [] => 0
  | .pass span :: before => elapsed before + span
  | _ :: before => elapsed before

/-- Nothing is done with a context that has not been made. -/
def Valid : List Deed → Prop
  | [] => True
  | d :: before => (∀ i ∈ d.subject?, i < made before) ∧ Valid before

def ClonedFrom : List Deed → Nat → Nat → Prop
  | [], _, _ => False
  | d :: before, i, j => ClonedFrom before i j ∨ d = .clone i ∧ j = made before

/-- Contexts of one family: clones of each other, of clones of each other, and so on. -/
def Related (deeds : List Deed) : Nat → Nat → Prop :=
  Relation.EqvGen (ClonedFrom deeds)

def Canceled (deeds : List Deed) (k : Nat) : Prop :=
  ∃ i, Deed.cancel i ∈ deeds ∧ Related deeds i k

/-- A deadline was set on a context, or on one that it comes from by clones before it was cloned. -/
def SetAlong : List Deed → Nat → Nat → Prop
  | [], _, _ => False
  | d :: before, k, time =>
      SetAlong before k time ∨ d = .deadline k time ∨
        (∃ span, d = .timeout k span ∧ time = elapsed before + span) ∨
          ∃ i, d = .clone i ∧ k = made before ∧ SetAlong before i time

/-- What is to be said of a context, by what was done. -/
def Verdict (deeds : List Deed) (k : Nat) : Option Interruption → Prop
  | some .canceled => Canceled deeds k
  | some .deadlineExceeded => ¬ Canceled deeds k ∧
      ∃ time, IsLeast {t | SetAlong deeds k t} time ∧ time ≤ elapsed deeds
  | none => ¬ Canceled deeds k ∧ ∀ time, SetAlong deeds k time → elapsed deeds < time

variable {deeds before : List Deed} {s : Scene} {d : Deed} {i j k time : Nat}

theorem made_le (d : Deed) (before : List Deed) : made before ≤ made (d :: before) := by
  cases d <;> simp [made]

theorem setAlong_lt (valid : Valid deeds) (along : SetAlong deeds k time) : k < made deeds := by
  induction deeds generalizing k with
  | nil => exact along.elim
  | cons d before ih =>
      obtain ⟨known, valid⟩ := valid
      rcases along with along | rfl | ⟨span, rfl, _⟩ | ⟨i, rfl, rfl, _⟩
      · exact (ih valid along).trans_le (made_le _ before)
      · exact known k rfl
      · exact known k rfl
      · exact Nat.lt_succ_self _

theorem Related.mono (related : Related before i j) : Related (d :: before) i j := by
  have more : ClonedFrom before ≤ ClonedFrom (d :: before) := fun _ _ cloned => .inl cloned
  exact Relation.EqvGen.mono more i j related

/-! ## What the contexts keep -/

def Smallest (times : Set Nat) : Option Nat → Prop
  | none => times = ∅
  | some time => IsLeast times time

/-- The contexts are as many and as related as the deeds tell. -/
structure Kin (deeds : List Deed) (s : Scene) : Prop where
  length : s.contexts.length = made deeds
  fresh : ∀ i f, s.family? i = some f → f < s.clock.families
  cloned : ∀ i j, ClonedFrom deeds i j → s.family? i = s.family? j
  related : ∀ i j f, s.family? i = some f → s.family? j = some f → Related deeds i j

/-- The contexts and their clock are as the deeds tell. -/
structure Told (deeds : List Deed) (s : Scene) : Prop extends Kin deeds s where
  now : s.clock.now = elapsed deeds
  canceled : ∀ f, f ∈ s.clock.canceled ↔ ∃ i, Deed.cancel i ∈ deeds ∧ s.family? i = some f
  deadline : ∀ k ctx, s.contexts[k]? = some ctx →
    Smallest {t | SetAlong deeds k t} ctx.deadline

/-- A further deadline is kept if it is earlier. -/
theorem smallest_withDeadline {ctx : Context} {times : Set Nat}
    (smallest : Smallest times ctx.deadline) (time : Nat) :
    Smallest {t | t ∈ times ∨ t = time} (ctx.withDeadline time).deadline := by
  have union : {t | t ∈ times ∨ t = time} = insert time times := by
    ext t
    exact or_comm
  rw [union, withDeadline]
  cases deadline : ctx.deadline with
  | none =>
      rw [deadline] at smallest
      have empty : times = ∅ := smallest
      rw [empty]
      exact ⟨Set.mem_insert _ _, by simp⟩
  | some earlier =>
      rw [deadline] at smallest
      have least : IsLeast (insert time times) (min time earlier) := IsLeast.insert time smallest
      rw [min_comm] at least
      exact least

theorem family?_modify {f : Context → Context} (kept : ∀ ctx, (f ctx).family = ctx.family)
    (s : Scene) (c : Clock) (i j : Nat) :
    Scene.family? ⟨s.contexts.modify j f, c⟩ i = s.family? i := by
  rw [Scene.family?, Scene.family?, List.getElem?_modify]
  cases s.contexts[i]? with
  | none => rfl
  | some ctx => by_cases same : j = i <;> simp [same, kept]

/-- A context keeps its family, whatever is done. -/
theorem family?_perform (old : i < s.contexts.length) (d : Deed) :
    (s.perform d).family? i = s.family? i := by
  cases d with
  | make => exact congrArg (Option.map _) (List.getElem?_append_left old)
  | clone j => exact congrArg (Option.map _) (List.getElem?_append_left old)
  | deadline j time => exact family?_modify (f := (·.withDeadline time)) (fun _ => rfl) s _ i j
  | timeout j span =>
      exact family?_modify (f := (·.withTimeout s.clock span)) (fun _ => rfl) s _ i j
  | cancel j => rfl
  | pass span => rfl

theorem cloned_lt (valid : Valid deeds) (cloned : ClonedFrom deeds i j) :
    i < made deeds ∧ j < made deeds := by
  induction deeds with
  | nil => exact cloned.elim
  | cons d before ih =>
      obtain ⟨known, valid⟩ := valid
      rcases cloned with cloned | ⟨rfl, rfl⟩
      · exact (ih valid cloned).imp (·.trans_le (made_le _ before)) (·.trans_le (made_le _ before))
      · exact ⟨(known i rfl).trans (Nat.lt_succ_self _), Nat.lt_succ_self _⟩

theorem subject_lt (valid : Valid deeds) (listed : d ∈ deeds) (subject : d.subject? = some i) :
    i < made deeds := by
  induction deeds with
  | nil => cases listed
  | cons d' before ih =>
      obtain ⟨known, valid⟩ := valid
      rcases List.mem_cons.1 listed with rfl | listed
      · exact (known i subject).trans_le (made_le _ before)
      · exact (ih valid listed).trans_le (made_le _ before)

/-! ### Families -/

/-- What is made has the number after those of the contexts that there were. -/
theorem old_or_new {xs : List Context} {ctx ctx' : Context}
    (found : (xs ++ [ctx])[k]? = some ctx') :
    xs[k]? = some ctx' ∨ k = xs.length ∧ ctx' = ctx := by
  rcases Nat.lt_trichotomy k xs.length with old | rfl | beyond
  · exact .inl (List.getElem?_append_left old ▸ found)
  · rw [List.getElem?_concat_length] at found
    exact .inr ⟨rfl, (Option.some.inj found).symm⟩
  · rw [List.getElem?_eq_none (by simp; omega)] at found
    cases found

theorem Kin.make (valid : Valid before) (kin : Kin before s) :
    Kin (.make :: before) (s.perform .make) := by
  have kept {i : Nat} (old : i < s.contexts.length) := family?_perform old .make
  have new {i f : Nat} (found : (s.perform .make).family? i = some f) :
      s.family? i = some f ∨ i = s.contexts.length ∧ f = s.clock.families := by
    obtain ⟨ctx, here, rfl⟩ := Option.map_eq_some_iff.1 found
    rcases old_or_new here with old | ⟨rfl, rfl⟩
    · exact .inl (congrArg (Option.map _) old)
    · exact .inr ⟨rfl, rfl⟩
  constructor
  · exact List.length_append.trans (congrArg (· + 1) kin.length)
  · intro i f found
    have more : (s.perform .make).clock.families = s.clock.families + 1 := rfl
    rw [more]
    rcases new found with old | ⟨_, rfl⟩
    · exact (kin.fresh i f old).trans (Nat.lt_succ_self _)
    · exact Nat.lt_succ_self _
  · rintro i j (cloned | ⟨other, _⟩)
    · obtain ⟨first, second⟩ := cloned_lt valid cloned
      rw [kept (kin.length ▸ first), kept (kin.length ▸ second)]
      exact kin.cloned i j cloned
    · cases other
  · intro i j f found found'
    rcases new found with old | ⟨rfl, rfl⟩ <;> rcases new found' with old' | ⟨rfl, same⟩
    · exact (kin.related i j f old old').mono
    · exact absurd (kin.fresh i f old) (by omega)
    · exact absurd (kin.fresh j _ old') (Nat.lt_irrefl _)
    · exact .refl _

theorem contexts_clone {o : Nat} {origin : Context} (there : s.contexts[o]? = some origin) :
    (s.perform (.clone o)).contexts = s.contexts ++ [origin] := by
  rw [Scene.perform, there]
  rfl

theorem Kin.clone (valid : Valid before) (kin : Kin before s) {o : Nat} {origin : Context}
    (there : s.contexts[o]? = some origin) :
    Kin (.clone o :: before) (s.perform (.clone o)) := by
  have kept {i : Nat} (old : i < s.contexts.length) := family?_perform old (.clone o)
  have contexts := contexts_clone there
  have family : s.family? o = some origin.family := congrArg (Option.map _) there
  have new {i f : Nat} (found : (s.perform (.clone o)).family? i = some f) :
      s.family? i = some f ∨ i = s.contexts.length ∧ s.family? o = some f := by
    obtain ⟨ctx, here, rfl⟩ := Option.map_eq_some_iff.1 found
    rw [contexts] at here
    rcases old_or_new here with old | ⟨rfl, rfl⟩
    · exact .inl (congrArg (Option.map _) old)
    · exact .inr ⟨rfl, family⟩
  have last : (s.perform (.clone o)).family? s.contexts.length = some origin.family := by
    rw [Scene.family?, contexts, List.getElem?_concat_length]
    rfl
  have link : Related (.clone o :: before) o s.contexts.length :=
    .rel _ _ (.inr ⟨rfl, kin.length⟩)
  constructor
  · rw [contexts]
    exact List.length_append.trans (congrArg (· + 1) kin.length)
  · intro i f found
    rcases new found with old | ⟨_, old⟩
    · exact kin.fresh i f old
    · exact kin.fresh o f old
  · rintro i j (cloned | ⟨same, rfl⟩)
    · obtain ⟨first, second⟩ := cloned_lt valid cloned
      rw [kept (kin.length ▸ first), kept (kin.length ▸ second)]
      exact kin.cloned i j cloned
    · cases same
      rw [kept (List.getElem?_eq_some_iff.1 there).1, family, ← kin.length, last]
  · intro i j f found found'
    rcases new found with old | ⟨rfl, old⟩ <;> rcases new found' with old' | ⟨rfl, old'⟩
    · exact (kin.related i j f old old').mono
    · exact .trans _ _ _ (kin.related i o f old old').mono link
    · exact .symm _ _ (.trans _ _ _ (kin.related j o f old' old).mono link)
    · exact .refl _

/-- Where no context is made, none gets another family. -/
theorem Kin.still (kin : Kin before s) (unmade : made (d :: before) = made before)
    (length : (s.perform d).contexts.length = s.contexts.length)
    (families : (s.perform d).clock.families = s.clock.families) :
    Kin (d :: before) (s.perform d) := by
  have kept (i : Nat) : (s.perform d).family? i = s.family? i := by
    by_cases old : i < s.contexts.length
    · exact family?_perform old d
    · rw [Scene.family?, Scene.family?, List.getElem?_eq_none (by omega),
        List.getElem?_eq_none (by omega)]
  have fewer {i j : Nat} (cloned : ClonedFrom (d :: before) i j) : ClonedFrom before i j := by
    rcases cloned with cloned | ⟨rfl, _⟩
    · exact cloned
    · exact absurd unmade (Nat.succ_ne_self _)
  constructor
  · rw [length, kin.length, unmade]
  · intro i f found
    rw [families]
    exact kin.fresh i f (kept i ▸ found)
  · intro i j cloned
    rw [kept, kept]
    exact kin.cloned i j (fewer cloned)
  · intro i j f found found'
    exact (kin.related i j f (kept i ▸ found) (kept j ▸ found')).mono

/-! ### Cancellations -/

/-- Who was canceled before and is so now, and the other way round, if nobody else is. -/
theorem Told.canceled_iff (valid : Valid before) (told : Told before s) (d : Deed) {f : Nat} :
    (∃ i, Deed.cancel i ∈ before ∧ (s.perform d).family? i = some f) ↔ f ∈ s.clock.canceled := by
  rw [told.canceled f]
  refine exists_congr fun i => and_congr_right fun listed => ?_
  rw [family?_perform (told.length ▸ subject_lt valid listed rfl)]

theorem Told.canceled_still (valid : Valid before) (told : Told before s)
    (other : ∀ i, d ≠ .cancel i) (same : (s.perform d).clock.canceled = s.clock.canceled)
    (f : Nat) :
    f ∈ (s.perform d).clock.canceled ↔
      ∃ i, Deed.cancel i ∈ d :: before ∧ (s.perform d).family? i = some f := by
  rw [same, ← told.canceled_iff valid d]
  simp [fun i => (other i).symm]

/-! ### Deadlines -/

/-- Where no deadline is set on a context, those along its way are the same. -/
theorem Told.deadline_still (told : Told before s) {ctx : Context}
    (found : s.contexts[k]? = some ctx)
    (same : ∀ t, SetAlong (d :: before) k t → SetAlong before k t) :
    Smallest {t | SetAlong (d :: before) k t} ctx.deadline := by
  have all : {t | SetAlong (d :: before) k t} = {t | SetAlong before k t} :=
    Set.ext fun t => ⟨same t, .inl⟩
  rw [all]
  exact told.deadline k ctx found

theorem Told.not_along (valid : Valid before) (told : Told before s) (time : Nat) :
    ¬ SetAlong before s.contexts.length time := fun along =>
  absurd (told.length ▸ setAlong_lt valid along) (Nat.lt_irrefl _)

/-! ### Deed by deed -/

theorem Told.make (valid : Valid before) (told : Told before s) :
    Told (.make :: before) (s.perform .make) := by
  refine ⟨told.toKin.make valid, told.now,
    told.canceled_still valid (fun _ => nofun) rfl, fun k ctx found => ?_⟩
  have same (t : Nat) (along : SetAlong (.make :: before) k t) : SetAlong before k t := by
    simpa [SetAlong] using along
  rcases old_or_new found with old | ⟨rfl, rfl⟩
  · exact told.deadline_still old same
  · exact Set.eq_empty_of_forall_notMem fun t along => told.not_along valid t (same t along)

theorem Told.clone (valid : Valid before) (told : Told before s) {o : Nat}
    (known : o < made before) : Told (.clone o :: before) (s.perform (.clone o)) := by
  obtain ⟨origin, there⟩ : ∃ origin, s.contexts[o]? = some origin :=
    ⟨_, List.getElem?_eq_getElem (told.length ▸ known)⟩
  refine ⟨told.toKin.clone valid there, told.now,
    told.canceled_still valid (fun _ => nofun) rfl, fun k ctx found => ?_⟩
  rw [contexts_clone there] at found
  rcases old_or_new found with old | ⟨rfl, rfl⟩
  · have other : k ≠ made before := by
      rw [← told.length]
      exact Nat.ne_of_lt (List.getElem?_eq_some_iff.1 old).1
    exact told.deadline_still old fun t along => by simpa [SetAlong, other] using along
  · have inherited : {t | SetAlong (.clone o :: before) s.contexts.length t} =
        {t | SetAlong before o t} := by
      ext t
      simp [SetAlong, told.not_along valid t, ← told.length]
    rw [inherited]
    exact told.deadline o ctx there

/-- A deadline at some time, or some time from now. -/
theorem Told.set (valid : Valid before) (told : Told before s)
    (sets : d = .deadline i time ∨ ∃ span, d = .timeout i span ∧ time = elapsed before + span) :
    Told (d :: before) (s.perform d) := by
  have performed : s.perform d = ⟨s.contexts.modify i (·.withDeadline time), s.clock⟩ := by
    rcases sets with rfl | ⟨span, rfl, rfl⟩
    · rfl
    · rw [← told.now]
      rfl
  have unmade : made (d :: before) = made before := by
    rcases sets with rfl | ⟨span, rfl, rfl⟩ <;> rfl
  have other (j : Nat) : d ≠ .cancel j := by
    rcases sets with rfl | ⟨span, rfl, rfl⟩ <;> nofun
  have along (k t : Nat) : SetAlong (d :: before) k t ↔ SetAlong before k t ∨ i = k ∧ t = time := by
    rcases sets with rfl | ⟨span, rfl, rfl⟩
    · simp [SetAlong, eq_comm]
    · simp [SetAlong]
  have passed : elapsed (d :: before) = elapsed before := by
    rcases sets with rfl | ⟨span, rfl, rfl⟩ <;> rfl
  have clock : (s.perform d).clock = s.clock := by rw [performed]
  have length : (s.perform d).contexts.length = s.contexts.length := by
    rw [performed]
    exact List.length_modify _ _ _
  refine ⟨told.toKin.still unmade length (congrArg _ clock), ?_,
    told.canceled_still valid other (congrArg _ clock), fun k ctx found => ?_⟩
  · rw [clock, passed]
    exact told.now
  · rw [performed, List.getElem?_modify] at found
    obtain ⟨old, here, rfl⟩ := Option.map_eq_some_iff.1 found
    by_cases same : i = k
    · have more : {t | SetAlong (d :: before) k t} =
          {t | t ∈ {t | SetAlong before k t} ∨ t = time} := by
        ext t
        simpa [same] using along k t
      rw [more, if_pos same]
      exact smallest_withDeadline (told.deadline k old here) time
    · rw [if_neg same]
      exact told.deadline_still here fun t set => by simpa [same] using (along k t).1 set

theorem Told.cancel (valid : Valid before) (told : Told before s) (known : i < made before) :
    Told (.cancel i :: before) (s.perform (.cancel i)) := by
  obtain ⟨ctx, there⟩ : ∃ ctx, s.contexts[i]? = some ctx :=
    ⟨_, List.getElem?_eq_getElem (told.length ▸ known)⟩
  have clock : (s.perform (.cancel i)).clock = s.clock.cancelFamily ctx.family := by
    rw [Scene.perform, there]
    rfl
  have family : s.family? i = some ctx.family := congrArg (Option.map _) there
  have families : (s.perform (.cancel i)).clock.families = s.clock.families := by rw [clock]; rfl
  refine ⟨told.toKin.still rfl rfl families, ?_, fun f => ?_, fun k ctx found => ?_⟩
  · rw [clock]
    exact told.now
  · have canceled : (s.perform (.cancel i)).clock.canceled = ctx.family :: s.clock.canceled :=
      congrArg Clock.canceled clock
    rw [canceled, List.mem_cons, ← told.canceled_iff valid (.cancel i)]
    constructor
    · rintro (rfl | ⟨j, listed, found⟩)
      · exact ⟨i, List.mem_cons_self, family⟩
      · exact ⟨j, List.mem_cons_of_mem _ listed, found⟩
    · rintro ⟨j, listed, found⟩
      rcases List.mem_cons.1 listed with same | listed
      · cases same
        exact .inl (Option.some.inj (found.symm.trans family))
      · exact .inr ⟨j, listed, found⟩
  · exact told.deadline_still found fun t along => by simpa [SetAlong] using along

theorem Told.pass (valid : Valid before) (told : Told before s) (span : Nat) :
    Told (.pass span :: before) (s.perform (.pass span)) := by
  refine ⟨told.toKin.still rfl rfl rfl, ?_, told.canceled_still valid (fun _ => nofun) rfl,
    fun k ctx found => ?_⟩
  · have now : (s.perform (.pass span)).clock.now = max s.clock.now (s.clock.now + span) := rfl
    rw [now, told.now, Nat.max_eq_right (Nat.le_add_right _ _)]
    rfl
  · exact told.deadline_still found fun t along => by simpa [SetAlong] using along

/-- Whatever is done, the contexts and their clock are as the deeds tell. -/
theorem told_scene (valid : Valid deeds) : Told deeds (scene deeds) := by
  induction deeds with
  | nil =>
      refine ⟨⟨rfl, ?_, fun _ _ empty => empty.elim, ?_⟩, rfl, ?_, ?_⟩
      · exact fun i f found => nomatch found
      · exact fun i j f found => nomatch found
      · exact fun f => by simp [scene, Clock.start]
      · exact fun k ctx found => nomatch found
  | cons d before ih =>
      obtain ⟨known, valid⟩ := valid
      have told := ih valid
      cases d with
      | make => exact told.make valid
      | clone o => exact told.clone valid (known o rfl)
      | deadline i time => exact told.set valid (.inl rfl)
      | timeout i span => exact told.set valid (.inr ⟨span, rfl, rfl⟩)
      | cancel i => exact told.cancel valid (known i rfl)
      | pass span => exact told.pass valid span

/-- Whoever waits for a context that has been canceled has been notified. -/
theorem settled_scene (deeds : List Deed) : (scene deeds).clock.Settled := by
  induction deeds with
  | nil => exact fun _ => Iff.rfl
  | cons d before ih =>
      cases d with
      | cancel i =>
          have cancels (ctx : Context) : ((scene before).clock.cancelFamily ctx.family).Settled :=
            fun family => by
              simpa [Clock.cancelFamily, Clock.raise, Clock.notify] using or_congr_right (ih family)
          cases found : (scene before).contexts[i]? with
          | none => simpa [scene, Scene.perform, found] using ih
          | some ctx =>
              have clock : (scene (.cancel i :: before)).clock =
                  (scene before).clock.cancelFamily ctx.family := by
                rw [scene, Scene.perform, found]
                rfl
              rw [clock]
              exact cancels ctx
      | make => exact ih
      | clone o => exact ih
      | deadline i time => exact ih
      | timeout i span => exact ih
      | pass span => exact ih

/-! ## What is found -/

/-- Related contexts have the same family. -/
theorem Told.family_of_related (told : Told deeds s) (related : Related deeds i j) :
    s.family? i = s.family? j := by
  induction related with
  | rel i j cloned => exact told.cloned i j cloned
  | refl i => rfl
  | symm i j _ ih => exact ih.symm
  | trans i j k _ _ first second => exact first.trans second

theorem Told.mem_canceled_iff (told : Told deeds s) {ctx : Context}
    (found : s.contexts[k]? = some ctx) : ctx.family ∈ s.clock.canceled ↔ Canceled deeds k := by
  have family : s.family? k = some ctx.family := congrArg (Option.map _) found
  rw [told.canceled]
  refine exists_congr fun i => and_congr_right fun _ => ⟨fun same => ?_, fun related => ?_⟩
  · exact told.related i k ctx.family same family
  · exact (told.family_of_related related).trans family

/-- Only one thing is to be said of a context. -/
theorem Verdict.unique {r r' : Option Interruption} (verdict : Verdict deeds k r)
    (verdict' : Verdict deeds k r') : r = r' := by
  have apart (time : Nat) (least : IsLeast {t | SetAlong deeds k t} time ∧ time ≤ elapsed deeds)
      (future : ∀ time, SetAlong deeds k time → elapsed deeds < time) : False :=
    absurd (future time least.1.1) (Nat.not_lt.2 least.2)
  rcases r with _ | _ | _ <;> rcases r' with _ | _ | _
  · rfl
  · exact absurd verdict' verdict.1
  · exact (apart _ verdict'.2.choose_spec verdict.2).elim
  · exact absurd verdict verdict'.1
  · rfl
  · exact absurd verdict verdict'.1
  · exact (apart _ verdict.2.choose_spec verdict'.2).elim
  · exact absurd verdict' verdict.1
  · rfl

/-- What a context is found to be is what is to be said of it. -/
theorem Told.verdict (told : Told deeds s) {ctx : Context} (found : s.contexts[k]? = some ctx) :
    Verdict deeds k (ctx.interruption? s.clock) := by
  have smallest := told.deadline k ctx found
  cases interrupted : ctx.interruption? s.clock with
  | none =>
      obtain ⟨live, future⟩ := interruption?_eq_none.1 interrupted
      refine ⟨mt (told.mem_canceled_iff found).2 live, fun time along => ?_⟩
      cases deadline : ctx.deadline with
      | none =>
          rw [deadline] at smallest
          have empty : {t | SetAlong deeds k t} = ∅ := smallest
          exact (Set.eq_empty_iff_forall_notMem.1 empty time along).elim
      | some first =>
          rw [deadline] at smallest
          have least : IsLeast {t | SetAlong deeds k t} first := smallest
          rw [told.now] at future
          exact (future first deadline).trans_le (least.2 along)
  | some reason =>
      cases reason with
      | canceled =>
          exact (told.mem_canceled_iff found).1 (interruption?_eq_canceled.1 interrupted)
      | deadlineExceeded =>
          obtain ⟨live, time, deadline, passed⟩ := interruption?_eq_deadlineExceeded.1 interrupted
          rw [deadline] at smallest
          rw [told.now] at passed
          exact ⟨mt (told.mem_canceled_iff found).2 live, time, smallest, passed⟩

/-- Whether and why a context is at its end is what the deeds tell. -/
theorem verdict_of_valid (valid : Valid deeds) {ctx : Context}
    (found : (scene deeds).contexts[k]? = some ctx) (r : Option Interruption) :
    ctx.interruption? (scene deeds).clock = r ↔ Verdict deeds k r := by
  have verdict := (told_scene valid).verdict found
  constructor
  · rintro rfl
    exact verdict
  · exact verdict.unique

/-- A deadline that is set on one context leaves the others as they are, and the clock. -/
theorem others_of_set (sets : (∃ time, d = .deadline i time) ∨ ∃ span, d = .timeout i span)
    (other : k ≠ i) :
    (scene (d :: deeds)).contexts[k]? = (scene deeds).contexts[k]? ∧
      (scene (d :: deeds)).clock = (scene deeds).clock := by
  rcases sets with ⟨time, rfl⟩ | ⟨span, rfl⟩
  · exact ⟨List.getElem?_modify_ne _ _ (Ne.symm other), rfl⟩
  · exact ⟨List.getElem?_modify_ne _ _ (Ne.symm other), rfl⟩

theorem verdict_none_of_later {later : List Deed}
    (live : Verdict (later ++ deeds) k none) : Verdict deeds k none := by
  induction later with
  | nil => exact live
  | cons d before ih =>
      obtain ⟨never, future⟩ := live
      have waited : elapsed (before ++ deeds) ≤ elapsed (d :: (before ++ deeds)) := by
        cases d <;> simp [elapsed]
      refine ih ⟨fun ⟨i, listed, related⟩ => never ?_, fun time along => ?_⟩
      · exact ⟨i, List.mem_cons_of_mem _ listed, related.mono⟩
      · exact waited.trans_lt (future time (.inl along))

theorem Valid.earlier {later : List Deed} (valid : Valid (later ++ deeds)) : Valid deeds := by
  induction later with
  | nil => exact valid
  | cons d before ih => exact ih valid.2

/-- A context that is at its end stays there, whatever is done. -/
theorem over_of_later {later : List Deed} (valid : Valid (later ++ deeds))
    {ctx ctx' : Context} (found : (scene deeds).contexts[k]? = some ctx)
    (found' : (scene (later ++ deeds)).contexts[k]? = some ctx')
    (ended : (ctx.interruption? (scene deeds).clock).isSome) :
    (ctx'.interruption? (scene (later ++ deeds)).clock).isSome := by
  rw [Option.isSome_iff_ne_none, ne_eq, verdict_of_valid valid found']
  rw [Option.isSome_iff_ne_none, ne_eq, verdict_of_valid valid.earlier found] at ended
  exact mt verdict_none_of_later ended

end EventSourcing.Context
