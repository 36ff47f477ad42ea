import EventSourcing.Proofs.Fiber.Terms
import EventSourcing.Proofs.Service.Commons

/-!
# Proofs.Service.Conduct -- what a call may do to its store and to the log

A call that holds no transaction leaves the stores alone.  A reader can rely on the
projection that it sees, and a writer can rely on the whole store.  Entries are only ever
put at the end of the log.  `Acts` lists all that a call may do on these terms; the terms
are in harmony because a store never has a writer beside another transaction
(`harmony_terms`).
-/

namespace EventSourcing

set_option autoImplicit false

open EventSourcing.Store (Cell Snapshot)

inductive Hold (ι : Type) where
  | nothing
  | reads (i : ι)
  | writes (i : ι)
  deriving DecidableEq

/-- What is known of the shared state at any time, and what calls may do besides keeping
to their transactions. -/
structure Policy (ι : Type) (P : ι → Type) (X : Type) where
  known : Commons ι P X → Prop
  /-- What a run of a method of a service may make of the state. -/
  runs : ι → Commons ι P X → Commons ι P X → Prop
  /-- When the draft in a store may be committed. -/
  commits : ι → Commons ι P X → Prop
  /-- What may be put at the end of the log. -/
  pushes : Commons ι P X → List String → Prop

variable {ι : Type} [DecidableEq ι] {P E ε : ι → Type} {X : Type}
  (party : (i : ι) → Party (P i) (E i) (ε i)) (policy : Policy ι P X)

/-- What the transaction under way sees is the committed snapshot with some more entries
folded in. -/
def Clean (i : ι) (w : Commons ι P X) : Prop :=
  ∃ m, (party i).Ahead w.log.records (w.cell i).committed m (w.cell i).visible

/-- What a call may make of the shared state, by the transaction that it holds before and
after. -/
inductive Acts : Hold ι → Commons ι P X → Commons ι P X → Hold ι → Prop where
  | tick {h : Hold ι} {w : Commons ι P X} (clock : Clock) : Acts h w { w with clock } h
  | run {h : Hold ι} {w w' : Commons ι P X} (i : ι) (held : h = .reads i ∨ h = .writes i)
      (log : w'.log = w.log) (cell : w'.cell = w.cell) (clean : Clean party i w)
      (runs : policy.runs i w w') : Acts h w w' h
  | push {h : Hold ι} {w : Commons ι P X} (texts : List String)
      (pushes : policy.pushes w texts) :
      Acts h w { w with log := (w.log.push w.clock.now texts).2 } h
  | beginRead {w : Commons ι P X} (i : ι) (unwritten : (w.cell i).draft = none) :
      Acts .nothing w ((Commons.cellPart i).modify Cell.beginRead w) (.reads i)
  | endRead {w : Commons ι P X} (i : ι) :
      Acts (.reads i) w ((Commons.cellPart i).modify Cell.endRead w) .nothing
  | beginWrite {w : Commons ι P X} (i : ι) (unwritten : (w.cell i).draft = none)
      (unread : (w.cell i).readers = 0) :
      Acts .nothing w ((Commons.cellPart i).modify Cell.beginWrite w) (.writes i)
  | redraft {w : Commons ι P X} (i : ι) (s : Snapshot (P i)) :
      Acts (.writes i) w ((Commons.cellPart i).modify (Cell.modifyDraft fun _ => s) w) (.writes i)
  | commit {w : Commons ι P X} (i : ι) (commits : policy.commits i w) :
      Acts (.writes i) w ((Commons.cellPart i).modify Cell.commit w) .nothing
  | rollback {w : Commons ι P X} (i : ι) :
      Acts (.writes i) w ((Commons.cellPart i).modify Cell.rollback w) .nothing

/-- What the holder of a transaction can rely on while others act. -/
def Hold.Undisturbed : Hold ι → Commons ι P X → Commons ι P X → Prop
  | .nothing, _, _ => True
  | .reads i, w, w' =>
      (w'.cell i).committed = (w.cell i).committed ∧ (w'.cell i).visible = (w.cell i).visible
  | .writes i, w, w' => w'.cell i = w.cell i

def terms : Terms (Commons ι P X) (Hold ι) where
  known := policy.known
  others h w w' := w.log.records <+: w'.log.records ∧ h.Undisturbed w w'
  own := Acts party policy

variable {party policy} in
theorem Acts.grows {h h' : Hold ι} {w w' : Commons ι P X} (acts : Acts party policy h w w' h') :
    w.log.records <+: w'.log.records := by
  cases acts with
  | run i held log => exact log ▸ List.prefix_rfl
  | push texts => exact List.prefix_append _ _
  | _ => exact List.prefix_rfl

/-! ## Transactions on one store -/

/-- How many transactions read and write a store. -/
structure Counts {S : Type} (c : Cell S) (readers writers : Nat) : Prop where
  readers : c.readers = readers
  writers : (if c.draft.isSome then 1 else 0) = writers
  /-- Nobody reads while somebody writes. -/
  exclusive : c.draft.isSome → c.readers = 0

/-- The transactions that are held account for the state of every store. -/
def Shares (w : Commons ι P X) (hs : List (Hold ι)) : Prop :=
  ∀ i, Counts (w.cell i) (hs.count (.reads i)) (hs.count (.writes i))

/-- One, if a hold is a certain one. -/
def Hold.weight (h g : Hold ι) : Nat := if h = g then 1 else 0

theorem count_split {hs : List (Hold ι)} {k : Nat} {h : Hold ι} (held : hs[k]? = some h)
    (g : Hold ι) : hs.count g = (hs.eraseIdx k).count g + h.weight g := by
  induction hs generalizing k with
  | nil => simp at held
  | cons x rest ih =>
      cases k with
      | zero =>
          simp only [List.getElem?_cons_zero, Option.some.injEq] at held
          subst held
          simp [List.count_cons, Hold.weight]
      | succ k =>
          simp only [List.getElem?_cons_succ] at held
          simp only [List.eraseIdx_cons_succ, List.count_cons, ih held]
          omega

theorem count_set {hs : List (Hold ι)} {k : Nat} {h : Hold ι} (held : hs[k]? = some h)
    (h' g : Hold ι) : (hs.set k h').count g = (hs.eraseIdx k).count g + h'.weight g := by
  have inside : k < hs.length := (List.getElem?_eq_some_iff.1 held).1
  rw [count_split (List.getElem?_set_self inside) g, List.eraseIdx_set_eq]

theorem count_pos {hs : List (Hold ι)} {j k : Nat} {g : Hold ι} (held : hs[j]? = some g)
    (other : j ≠ k) : 0 < (hs.eraseIdx k).count g :=
  List.count_pos_iff.2 (List.mem_eraseIdx_iff_getElem?.2 ⟨j, other, held⟩)

/-- How a step of one transaction on a store fits in with the others on it: `r` and `v` of
them read and write, whatever their number. -/
structure Fits {S : Type} (c c' : Cell S) (reads writes reads' writes' : Nat) : Prop where
  counts : ∀ {r v}, Counts c (r + reads) (v + writes) → Counts c' (r + reads') (v + writes')
  readers : ∀ {r v}, Counts c (r + reads) (v + writes) → 0 < r →
    c'.committed = c.committed ∧ c'.visible = c.visible
  writers : ∀ {r v}, Counts c (r + reads) (v + writes) → 0 < v → c' = c

section Fits

variable {S : Type} {c : Cell S}

theorem fits_beginRead (unwritten : c.draft = none) : Fits c c.beginRead 0 0 1 0 where
  counts := by
    intro r v counts
    refine ⟨?_, counts.writers, ?_⟩
    · have := counts.readers
      simp only [Cell.beginRead]
      omega
    · simp [Cell.beginRead, unwritten]
  readers := fun _ _ => ⟨rfl, rfl⟩
  writers := by
    intro r v counts written
    have := counts.writers
    simp [unwritten] at this
    omega

theorem fits_endRead : Fits c c.endRead 1 0 0 0 where
  counts := by
    intro r v counts
    have readers := counts.readers
    refine ⟨by simp only [Cell.endRead]; omega, counts.writers, fun written => ?_⟩
    have := counts.exclusive written
    omega
  readers := fun _ _ => ⟨rfl, rfl⟩
  writers := by
    intro r v counts written
    have readers := counts.readers
    have writers := counts.writers
    by_cases drafted : c.draft.isSome
    · have := counts.exclusive drafted
      omega
    · simp [drafted] at writers
      omega

theorem fits_beginWrite (unwritten : c.draft = none) (unread : c.readers = 0) :
    Fits c c.beginWrite 0 0 0 1 where
  counts := by
    intro r v counts
    have readers := counts.readers
    have writers := counts.writers
    simp only [unwritten, Option.isSome_none, Bool.false_eq_true, if_false] at writers
    refine ⟨readers, ?_, fun _ => unread⟩
    simp only [Cell.beginWrite, Option.isSome_some, if_true]
    omega
  readers := by
    intro r v counts read
    have := counts.readers
    omega
  writers := by
    intro r v counts written
    have := counts.writers
    simp [unwritten] at this
    omega

/-- A writer is alone with the store. -/
theorem Counts.alone {r v : Nat} (counts : Counts c (r + 0) (v + 1)) :
    c.draft.isSome ∧ r = 0 ∧ v = 0 := by
  have readers := counts.readers
  have writers := counts.writers
  by_cases drafted : c.draft.isSome
  · have := counts.exclusive drafted
    rw [if_pos drafted] at writers
    exact ⟨drafted, by omega, by omega⟩
  · simp [drafted] at writers

theorem fits_redraft (s : Snapshot S) : Fits c (c.modifyDraft fun _ => s) 0 1 0 1 where
  counts := by
    intro r v counts
    obtain ⟨drafted, rfl, rfl⟩ := counts.alone
    refine ⟨counts.readers, ?_, fun _ => counts.readers⟩
    simp [Cell.modifyDraft, drafted]
  readers := fun counts read => by have := counts.alone; omega
  writers := fun counts written => by have := counts.alone; omega

/-- A writer that ends leaves a store that nobody uses. -/
theorem fits_end {c' : Cell S} (readers : c'.readers = c.readers) (draft : c'.draft = none) :
    Fits c c' 0 1 0 0 where
  counts := by
    intro r v counts
    obtain ⟨_, rfl, rfl⟩ := counts.alone
    exact ⟨readers.trans counts.readers, by simp [draft], by simp [draft]⟩
  readers := fun counts read => by have := counts.alone; omega
  writers := fun counts written => by have := counts.alone; omega

theorem fits_commit : Fits c c.commit 0 1 0 0 :=
  fits_end rfl rfl

theorem fits_rollback : Fits c c.rollback 0 1 0 0 :=
  fits_end rfl rfl

end Fits

/-! ## All stores together -/

/-- What a step of one call on its store means for the others. -/
structure Keeps (w w' : Commons ι P X) (hs : List (Hold ι)) (k : Nat) (h' : Hold ι) : Prop where
  shares : Shares w' (hs.set k h')
  undisturbed : ∀ j g, j ≠ k → hs[j]? = some g → g.Undisturbed w w'

/-- A call that leaves all stores alone, and the transaction that it holds. -/
theorem keeps_of_cell_eq {w w' : Commons ι P X} {hs : List (Hold ι)} {k : Nat} {h : Hold ι}
    (shares : Shares w hs) (held : hs[k]? = some h) (same : w'.cell = w.cell) :
    Keeps w w' hs k h where
  shares := by
    intro i
    rw [same, count_set held, count_set held, ← count_split held, ← count_split held]
    exact shares i
  undisturbed := by
    intro j g _ _
    cases g <;> simp [Hold.Undisturbed, same]

/-- A call that changes its store in a way that fits in. -/
theorem keeps_of_fits {w : Commons ι P X} {hs : List (Hold ι)} {k : Nat} {h h' : Hold ι} {i : ι}
    {f : Cell (P i) → Cell (P i)} (shares : Shares w hs) (held : hs[k]? = some h)
    (own : h = .nothing ∨ h = .reads i ∨ h = .writes i)
    (own' : h' = .nothing ∨ h' = .reads i ∨ h' = .writes i)
    (fits : Fits (w.cell i) (f (w.cell i)) (h.weight (.reads i)) (h.weight (.writes i))
      (h'.weight (.reads i)) (h'.weight (.writes i))) :
    Keeps w ((Commons.cellPart i).modify f w) hs k h' := by
  have before := shares i
  rw [count_split held, count_split held] at before
  refine ⟨fun j => ?_, fun j g other held' => ?_⟩
  · rw [count_set held, count_set held]
    by_cases same : j = i
    · subst same
      rw [Commons.cell_modify_self]
      exact fits.counts before
    · have elsewhere := shares j
      rw [count_split held, count_split held] at elsewhere
      rw [Commons.cell_modify_ne _ _ _ same]
      rcases own with rfl | rfl | rfl <;> rcases own' with rfl | rfl | rfl <;>
        simpa [Hold.weight, Ne.symm same] using elsewhere
  · have present := count_pos held' other
    cases g with
    | nothing => trivial
    | reads j =>
        by_cases same : j = i
        · subst same
          simpa only [Hold.Undisturbed, Commons.cell_modify_self] using fits.readers before present
        · simp only [Hold.Undisturbed, Commons.cell_modify_ne _ _ _ same, and_self]
    | writes j =>
        by_cases same : j = i
        · subst same
          simpa only [Hold.Undisturbed, Commons.cell_modify_self] using fits.writers before present
        · simp only [Hold.Undisturbed, Commons.cell_modify_ne _ _ _ same]

variable {party policy}

theorem Acts.keeps {h h' : Hold ι} {w w' : Commons ι P X} {hs : List (Hold ι)} {k : Nat}
    (acts : Acts party policy h w w' h') (shares : Shares w hs) (held : hs[k]? = some h) :
    Keeps w w' hs k h' := by
  cases acts with
  | tick clock => exact keeps_of_cell_eq shares held rfl
  | run i _ _ cell => exact keeps_of_cell_eq shares held cell
  | push texts => exact keeps_of_cell_eq shares held rfl
  | beginRead i unwritten =>
      refine keeps_of_fits shares held (by simp) (by simp) ?_
      simpa [Hold.weight] using fits_beginRead unwritten
  | endRead i =>
      refine keeps_of_fits shares held (by simp) (by simp) ?_
      simpa [Hold.weight] using fits_endRead
  | beginWrite i unwritten unread =>
      refine keeps_of_fits shares held (by simp) (by simp) ?_
      simpa [Hold.weight] using fits_beginWrite unwritten unread
  | redraft i s =>
      refine keeps_of_fits shares held (by simp) (by simp) ?_
      simpa [Hold.weight] using fits_redraft s
  | commit i =>
      refine keeps_of_fits shares held (by simp) (by simp) ?_
      simpa [Hold.weight] using fits_commit
  | rollback i =>
      refine keeps_of_fits shares held (by simp) (by simp) ?_
      simpa [Hold.weight] using fits_rollback

/-- What happens outside of the calls: time passes, contexts are canceled, and methods
find other things than before.  The log and the stores stay as they are. -/
def Outside (w w' : Commons ι P X) : Prop :=
  w'.log = w.log ∧ w'.cell = w.cell

/-- The terms of calls are in harmony if what is known stays true. -/
theorem harmony_terms {outside : Commons ι P X → Commons ι P X → Prop}
    (acts : ∀ {h w w' h'}, policy.known w → Acts party policy h w w' h' → policy.known w')
    (outer : ∀ {w w'}, policy.known w → outside w w' → policy.known w' ∧ Outside w w') :
    (terms party policy).Harmony .nothing Shares outside where
  refl h w := by
    refine ⟨List.prefix_rfl, ?_⟩
    cases h <;> simp [Hold.Undisturbed]
  trans := by
    rintro h w w₁ w₂ ⟨grown, first⟩ ⟨grown', second⟩
    refine ⟨grown.trans grown', ?_⟩
    cases h with
    | nothing => trivial
    | reads i => exact ⟨second.1.trans first.1, second.2.trans first.2⟩
    | writes i => exact Eq.trans second first
  start := by
    intro w hs shares i
    simpa using shares i
  turn := by
    intro w w' hs k h h' known shares held own
    have keeps := own.keeps shares held
    exact ⟨acts known own, keeps.shares,
      fun j g other held' => ⟨own.grows, keeps.undisturbed j g other held'⟩⟩
  outside := by
    intro w w' hs known shares happened
    obtain ⟨known', log, cell⟩ := outer known happened
    refine ⟨known', fun i => by rw [cell]; exact shares i, fun g => ⟨log ▸ List.prefix_rfl, ?_⟩⟩
    cases g <;> simp [Hold.Undisturbed, cell]

end EventSourcing
