import EventSourcing.Proofs.Fiber.Standing
import EventSourcing.Proofs.Service.Atomicity

/-!
# Proofs.Service.Exclusion -- a writer has its store to itself

Methods may append to the log themselves while they run.  Even then nobody but the holder of a
transaction that writes changes its store, and the log only grows.  The terms on which this is
so ask less of a call than those of `Conduct`: nothing is said of what it puts into its draft
or when it keeps it.  Main statements: every call keeps to them (`civil_answer`), and a call
that has begun to write finds its draft as it left it in each of its moves, whether it will ever
end or not (`writer_of_chain`, `Writer.next`).
-/

namespace EventSourcing

set_option autoImplicit false
set_option linter.unusedSectionVars false

open EventSourcing.Store (Cell Snapshot)
open Service (SyncError CallFailure Emitted Logic Produced)

variable {ι : Type} [DecidableEq ι] {P E ε : ι → Type} {X L O : Type}
  (party : (i : ι) → Party (P i) (E i) (ε i))

/-! ## The terms -/

/-- A method that leaves the stores alone while it runs and at most appends to the log. -/
def Civil {i : ι} (logic : Logic (Commons ι P X) (P i) (E i) L O) : Prop :=
  ∀ ctx p w, w.log.records <+: (logic ctx p w).2.log.records ∧ (logic ctx p w).2.cell = w.cell

theorem Aloof.civil {i : ι} {logic : Logic (Commons ι P X) (P i) (E i) L O}
    (aloof : Aloof logic) : Civil logic :=
  fun ctx p w => ⟨(aloof ctx p w).1 ▸ List.prefix_rfl, (aloof ctx p w).2⟩

/-- Requests whose methods leave the stores alone and at most append to the log. -/
def Request.Civil : Request ι P E ε X → Prop :=
  Request.Methods fun _ => EventSourcing.Civil

theorem Request.Aloof.civil {r : Request ι P E ε X} (aloof : r.Aloof) : r.Civil :=
  Request.Methods.mono (fun _ _ _ _ aloof => EventSourcing.Aloof.civil aloof) aloof

/-- What a call may make of the shared state if its methods may append meanwhile. -/
def Conducts (h : Hold ι) (w w' : Commons ι P X) (h' : Hold ι) : Prop :=
  ∃ w₁, Acts party Policy.free h w w₁ h' ∧ w'.cell = w₁.cell ∧
    w₁.log.records <+: w'.log.records

def civil : Terms (Commons ι P X) (Hold ι) where
  known _ := True
  others h w w' := w.log.records <+: w'.log.records ∧ h.Undisturbed w w'
  own := Conducts party

variable {party} {i : ι} {h h' : Hold ι} {w w' : Commons ι P X}

theorem Acts.conducts (acts : Acts party Policy.free h w w' h') : Conducts party h w w' h' :=
  ⟨w', acts, rfl, List.prefix_rfl⟩

/-- Whoever leaves all stores alone may append in any way. -/
theorem conducts_of_grown (grown : w.log.records <+: w'.log.records) (cell : w'.cell = w.cell) :
    Conducts party h w w' h :=
  ⟨_, .tick w.clock, cell, grown⟩

theorem Conducts.grows (conducts : Conducts party h w w' h') :
    w.log.records <+: w'.log.records := by
  obtain ⟨_, acts, _, grown⟩ := conducts
  exact acts.grows.trans grown

theorem Conducts.keeps {hs : List (Hold ι)} {k : Nat} (conducts : Conducts party h w w' h')
    (shares : Shares w hs) (held : hs[k]? = some h) : Keeps w w' hs k h' := by
  obtain ⟨w₁, acts, cell, _⟩ := conducts
  obtain ⟨shares', undisturbed⟩ := acts.keeps shares held
  refine ⟨fun i => by rw [cell]; exact shares' i, fun j g other held' => ?_⟩
  have kept := undisturbed j g other held'
  cases g with
  | nothing => trivial
  | _ => simpa only [Hold.Undisturbed, cell] using kept

theorem harmony_civil {outside : Commons ι P X → Commons ι P X → Prop}
    (outer : ∀ w w', outside w w' → Outside w w') :
    (civil party).Harmony .nothing Shares outside :=
  -- Only moves of the calls themselves go beyond what the terms with a policy allow.
  have strict : (terms party Policy.free).Harmony .nothing Shares outside :=
    harmony_terms (fun _ _ => trivial) fun _ happened => ⟨trivial, outer _ _ happened⟩
  { refl := strict.refl
    trans := strict.trans
    start := strict.start
    turn := fun _ shares held own => ⟨trivial, (own.keeps shares held).shares,
      fun j g other held' => ⟨own.grows, (own.keeps shares held).undisturbed j g other held'⟩⟩
    outside := fun _ shares happened => strict.outside trivial shares happened }

/-! ## Fibers on these terms -/

variable {α β : Type}

variable (party) in
/-- A fiber that keeps to the terms if it holds `h` at first, and that ends with `post`. -/
def Fiber.Behaves (h : Hold ι) (post : α → Hold ι → Prop) (p : Fiber (Commons ι P X) α) : Prop :=
  ∀ moves w, p.Safe (civil party) (fun a g _ _ => post a g) h moves w

section Rules

variable {post post' : α → Hold ι → Prop} {later : β → Hold ι → Prop}

theorem behaves_pure {a : α} (holds : post a h) :
    (pure a : Fiber (Commons ι P X) α).Behaves party h post :=
  fun _ _ => Fiber.safe_pure holds

theorem behaves_bind {p : Fiber (Commons ι P X) α} {next : α → Fiber (Commons ι P X) β}
    (first : p.Behaves party h post) (on : ∀ a g, post a g → (next a).Behaves party g later) :
    (p >>= next).Behaves party h later :=
  fun moves w => Fiber.safe_bind
    (Fiber.safe_mono (fun a g moves w holds => on a g holds moves w) (first moves w))

/-- A bind whose first part ends with `g`, whatever comes of it. -/
theorem behaves_then (g : Hold ι) {p : Fiber (Commons ι P X) α}
    {next : α → Fiber (Commons ι P X) β} (first : p.Behaves party h fun _ g' => g' = g)
    (on : ∀ a, (next a).Behaves party g later) : (p >>= next).Behaves party h later :=
  behaves_bind first fun a _ same => same ▸ on a

theorem behaves_mono {p : Fiber (Commons ι P X) α} (behaves : p.Behaves party h post)
    (weaker : ∀ a g, post a g → post' a g) : p.Behaves party h post' :=
  fun moves w => Fiber.safe_mono (fun a g _ _ => weaker a g) (behaves moves w)

theorem behaves_atomic {act : Commons ι P X → α × Commons ι P X}
    (behaves : ∀ w, ∃ h', Conducts party h w (act w).2 h' ∧ post (act w).1 h') :
    (Fiber.atomic act).Behaves party h post :=
  fun _ _ => Fiber.safe_atomic fun w _ _ => behaves w

/-- An action that leaves the stores alone and at most appends to the log. -/
theorem behaves_apart {act : Commons ι P X → α × Commons ι P X}
    (grown : ∀ w, w.log.records <+: (act w).2.log.records) (cell : ∀ w, (act w).2.cell = w.cell) :
    (Fiber.atomic act).Behaves party h fun _ g => g = h :=
  behaves_atomic fun w => ⟨h, conducts_of_grown (grown w) (cell w), rfl⟩

theorem behaves_look {f : Commons ι P X → α} :
    (Fiber.atomic fun w => (f w, w)).Behaves party h fun _ g => g = h :=
  behaves_apart (fun _ => List.prefix_rfl) fun _ => rfl

/-- How a call stands that has waited for an action: it has taken the action, or it was
interrupted and stands as before. -/
def Waited (h : Hold ι) (post : α → Hold ι → Prop) : Except Interruption α → Hold ι → Prop
  | .ok a, g => post a g
  | .error _, g => g = h

theorem behaves_run {ctx : Context} {act : Commons ι P X → Option (α × Commons ι P X)}
    (taken : ∀ w a w', act w = some (a, w') → ∃ h', Conducts party h w w' h' ∧ post a h') :
    (ctx.run Commons.clockPart (Fiber.await act)).Behaves party h (Waited h post) := by
  intro moves w
  refine Context.safe_run_await (fun _ _ => True) trivial (fun _ _ w₁ w₂ _ _ _ bides => ?_)
    (fun _ _ _ _ => rfl) fun _ _ w₁ a w₂ _ _ _ acted => taken w₁ a w₂ acted
  obtain ⟨c, rfl⟩ := bides.set
  exact ⟨conducts_of_grown List.prefix_rfl rfl, trivial⟩

end Rules

/-! ## What services do -/

variable {ctx : Context} {logic : Logic (Commons ι P X) (P i) (E i) L O} {m : Contract.Method}

/-- A change of the draft replaces it, if there is one. -/
theorem modify_eq_redrafted (f : Snapshot (P i) → Snapshot (P i)) (w : Commons ι P X) :
    (Commons.cellPart i).modify (Cell.modifyDraft f) w = redrafted i (f (w.cell i).visible) w := by
  have same (c : Cell (P i)) : c.modifyDraft f = c.modifyDraft fun _ => f c.visible := by
    cases c with
    | mk committed readers draft => cases draft <;> rfl
  exact congrArg (fun c => (Commons.cellPart i).set c w) (same (w.cell i))

theorem record_redrafts (v : Version) (w : Commons ι P X) :
    (Request.service party i).store.record v w =
      (.ok (), redrafted i { (w.cell i).visible with version := some v } w) :=
  congrArg (Prod.mk _) (modify_eq_redrafted (fun s => { s with version := some v }) w)

variable (party) in
theorem apply_redrafts (v : Version) (time : Nat) (event : E i) (w : Commons ι P X) :
    ∃ s, ((Request.service party i).store.apply v time event w).2 = redrafted i s w :=
  ⟨_, modify_eq_redrafted (fun s : Snapshot (P i) => { s with
    projection := ((party i).folding.apply v time event (w.cell i).visible.projection).2 }) w⟩

/-- Taking in an entry changes the draft at most. -/
theorem takeIn_redrafts (entry : Log.Entry) (reached : Version) (w : Commons ι P X) :
    ((Request.service party i).takeIn entry reached w).2 = w ∨
      ∃ s, ((Request.service party i).takeIn entry reached w).2 = redrafted i s w := by
  unfold Service.takeIn
  cases (Request.service party i).set.decodeText entry.payload with
  | error e => exact .inl rfl
  | ok event =>
      refine .inr ?_
      dsimp only
      by_cases subscribed : (Request.service (X := X) party i).contract.subscribesTo
          ((Request.service (X := X) party i).set.name event)
      · obtain ⟨s, after⟩ := apply_redrafts party entry.next entry.timestamp event w
        rw [if_pos subscribed]
        rcases applied : (Request.service party i).store.apply entry.next entry.timestamp event w
          with ⟨e | done, w₁⟩ <;> rw [applied] at after
        · exact ⟨s, after⟩
        · obtain rfl : w₁ = redrafted i s w := after
          simp only [record_redrafts, redrafted_redrafted]
          exact ⟨_, rfl⟩
      · rw [if_neg subscribed]
        simp only [record_redrafts]
        exact ⟨_, rfl⟩

theorem behaves_takeIn (entry : Log.Entry) (reached : Version) :
    (Fiber.atomic ((Request.service party i).takeIn entry reached)).Behaves (X := X) party
      (.writes i) fun _ g => g = .writes i := by
  refine behaves_atomic fun w => ⟨.writes i, ?_, rfl⟩
  rcases takeIn_redrafts entry reached w with same | ⟨s, after⟩
  · rw [same]
    exact conducts_of_grown List.prefix_rfl rfl
  · rw [after]
    exact (Acts.redraft i s).conducts

theorem behaves_visit (entries : List Log.Entry) (reached : Version) :
    (Log.Memory.visit Commons.clockPart ctx (Request.service (X := X) party i).takeIn entries
      reached).Behaves party (.writes i) fun _ g => g = .writes i := by
  induction entries generalizing reached with
  | nil => exact behaves_pure rfl
  | cons entry rest ih =>
      refine behaves_bind behaves_look ?_
      rintro (_ | reason) _ rfl
      · refine behaves_bind (behaves_takeIn entry reached) ?_
        rintro (error | reached') _ rfl
        · exact behaves_pure rfl
        · exact ih reached'
      · exact behaves_pure rfl

theorem behaves_syncIn :
    ((Request.service (X := X) party i).syncIn ctx).Behaves party (.writes i)
      fun _ g => g = .writes i := by
  refine behaves_bind behaves_look ?_
  rintro (e | recorded) _ rfl
  · exact behaves_pure rfl
  dsimp only
  rw [versionOrOrigin_eq, pure_bind]
  refine behaves_then (.writes i) (behaves_bind behaves_look ?_) ?_
  · rintro (e | entries) _ rfl
    · exact behaves_pure rfl
    · exact behaves_visit entries _
  · rintro ⟨_ | e | e | reason, reached⟩
    · exact behaves_pure rfl
    · dsimp only
      split <;> exact behaves_pure rfl
    · exact behaves_pure rfl
    · exact behaves_pure rfl

theorem behaves_finish (keep : Bool) :
    ((Request.service (X := X) party i).finish keep).Behaves party (.writes i)
      fun _ g => g = .nothing := by
  refine behaves_atomic fun w => ⟨.nothing, ?_, rfl⟩
  cases keep with
  | true => exact (Acts.commit i trivial).conducts
  | false => exact (Acts.rollback i).conducts

theorem behaves_write :
    (ctx.run Commons.clockPart (Fiber.await (Request.service (X := X) party i).store.write)).Behaves
      party .nothing (Waited .nothing fun a g => a = .ok () ∧ g = .writes i) := by
  refine behaves_run fun w a w' acted => ?_
  change (if (w.cell i).isFree then _ else _) = _ at acted
  split at acted
  · rename_i free
    cases acted
    have cell := cell_of_isFree free
    exact ⟨.writes i, (Acts.beginWrite i (congrArg Cell.draft cell)
      (congrArg Cell.readers cell)).conducts, rfl, rfl⟩
  · cases acted

theorem behaves_read :
    (ctx.run Commons.clockPart (Fiber.await (Request.service (X := X) party i).store.read)).Behaves
      party .nothing (Waited .nothing fun a g => a = .ok () ∧ g = .reads i) := by
  refine behaves_run fun w a w' acted => ?_
  change (if (w.cell i).isWritten then _ else _) = _ at acted
  split at acted
  · cases acted
  · rename_i unwritten
    cases acted
    have empty : (w.cell i).draft = none := by
      simpa [Cell.isWritten] using unwritten
    exact ⟨.reads i, (Acts.beginRead i empty).conducts, rfl, rfl⟩

/-- A method that is run on what is committed holds no transaction in the end. -/
theorem behaves_runReadonly (civil : Civil logic) :
    ((Request.service party i).runReadonly ctx logic).Behaves party .nothing
      fun _ g => g = .nothing := by
  refine behaves_bind behaves_read ?_
  · rintro (reason | _) _ stands
    · exact behaves_pure stands
    obtain ⟨rfl, rfl⟩ := stands
    refine behaves_bind (behaves_apart (fun w => (civil ctx _ w).1) fun w => (civil ctx _ w).2) ?_
    rintro result _ rfl
    refine behaves_then .nothing (behaves_atomic fun w =>
      ⟨.nothing, (Acts.endRead i).conducts, rfl⟩) fun _ => ?_
    cases result <;> exact behaves_pure rfl

theorem behaves_projectionVersion :
    ((Request.service (X := X) party i).projectionVersion ctx).Behaves party .nothing
      fun _ _ => True := by
  refine behaves_bind behaves_read ?_
  · rintro (reason | _) _ stands
    · exact behaves_pure trivial
    obtain ⟨rfl, rfl⟩ := stands
    refine behaves_bind behaves_look ?_
    rintro version _ rfl
    refine behaves_then .nothing (behaves_atomic fun w =>
      ⟨.nothing, (Acts.endRead i).conducts, rfl⟩) fun _ => ?_
    cases version with
    | error e => exact behaves_pure trivial
    | ok v =>
        dsimp only
        rw [versionOrOrigin_eq]
        exact behaves_pure trivial

theorem behaves_append (payload : Log.Payload) :
    (Log.Memory.append Commons.clockPart Commons.logPart payload).Behaves (X := X) party h
      fun _ _ => True := by
  unfold Log.Memory.append
  cases Log.split payload with
  | error e => exact behaves_pure trivial
  | ok texts =>
      exact behaves_mono (behaves_apart (fun w => List.prefix_append _ _) fun w => rfl)
        fun _ _ _ => trivial

theorem behaves_runAppend (civil : Civil logic) :
    ((Request.service party i).runAppend ctx m logic).Behaves party .nothing fun _ _ => True := by
  refine behaves_bind (behaves_runReadonly civil) ?_
  rintro (failure | ⟨output, events⟩) _ rfl
  · exact behaves_pure trivial
  dsimp only
  split
  · exact behaves_pure trivial
  refine behaves_bind behaves_look ?_
  rintro (_ | reason) _ rfl
  · dsimp only
    split
    · exact behaves_pure trivial
    · split
      · exact behaves_pure trivial
      · refine behaves_bind (behaves_append _) ?_
        rintro (e | appended) _ _ <;> exact behaves_pure trivial
  · exact behaves_pure trivial

/-! ## Transactions -/

/-- A run of a method, whatever comes of it, is what the method does to the state. -/
theorem produce_after (memory : Produced O (E i)) (w : Commons ι P X) :
    ((Request.service party i).produce ctx m logic memory w).2 =
      (logic ctx (w.cell i).visible.projection w).2 :=
  (outcome_produce party ctx m logic memory rfl).1

theorem behaves_tryAppend (civil : Civil logic) (rounds : Nat) (assumed : Version)
    (memory : Produced O (E i)) :
    (Log.Memory.tryAppend Commons.clockPart Commons.logPart ctx
      ((Request.service party i).attempt ctx m logic) rounds assumed memory).Behaves party
      (.writes i) fun _ g => g = .writes i := by
  induction rounds generalizing assumed memory with
  | zero => exact fun _ _ => Fiber.safe_stuck
  | succ rounds ih =>
      refine behaves_bind behaves_look ?_
      rintro (_ | reason) _ rfl
      · refine behaves_bind (behaves_apart (fun w => ?_) fun w => ?_) ?_
        · exact (produce_after (m := m) memory w).symm ▸ (civil ctx _ w).1
        · exact (congrArg Commons.cell (produce_after (m := m) memory w)).trans (civil ctx _ w).2
        rintro ⟨error | _ | payload, memory'⟩ _ rfl
        · exact behaves_pure rfl
        · exact behaves_pure rfl
        dsimp only
        split
        · exact behaves_pure rfl
        · exact behaves_pure rfl
        refine behaves_bind (behaves_apart (fun w => ?_) fun w => rfl) ?_
        · dsimp only [Log.Memory.pushIf]
          split
          · exact List.prefix_append _ _
          · exact List.prefix_rfl
        rintro (_ | appended) _ rfl
        · refine behaves_then (.writes i) (behaves_bind behaves_syncIn ?_) ?_
          · rintro (e | v) _ rfl <;> exact behaves_pure rfl
          · rintro ⟨error | v, memory''⟩
            · exact behaves_pure rfl
            · exact ih v memory''
        · exact behaves_pure rfl
      · exact behaves_pure rfl

theorem behaves_transact (civil : Civil logic) :
    ((Request.service party i).transact ctx m logic).Behaves party (.writes i)
      fun _ g => g = .writes i := by
  refine behaves_bind behaves_look ?_
  rintro (e | recorded) _ rfl
  · exact behaves_pure rfl
  dsimp only
  rw [versionOrOrigin_eq, pure_bind]
  refine behaves_bind (behaves_tryAppend civil _ _ none) ?_
  rintro ⟨(e | e | reason) | appended, _ | ⟨output, events⟩⟩ _ rfl <;> exact behaves_pure rfl

theorem behaves_runTransaction (civil : Civil logic) :
    ((Request.service party i).runTransaction ctx m logic).Behaves party .nothing
      fun _ _ => True := by
  refine behaves_bind behaves_write ?_
  rintro (reason | _) _ stands
  · exact behaves_pure trivial
  obtain ⟨rfl, rfl⟩ := stands
  refine behaves_bind (behaves_transact civil) ?_
  rintro result _ rfl
  exact behaves_bind (behaves_finish _) fun _ _ _ => behaves_pure trivial

theorem behaves_syncWith (accepts : SyncError (ε i) → Bool) :
    ((Request.service (X := X) party i).syncWith ctx accepts).Behaves party .nothing
      fun _ _ => True := by
  refine behaves_bind behaves_write ?_
  rintro (reason | _) _ stands
  · exact behaves_pure trivial
  obtain ⟨rfl, rfl⟩ := stands
  refine behaves_bind behaves_syncIn ?_
  rintro result _ rfl
  exact behaves_bind (behaves_finish _) fun _ _ _ => behaves_pure trivial

/-! ## Whole calls -/

/-- Every request whose methods are civil is answered on these terms. -/
theorem civil_answer (r : Request ι P E ε X) (polite : r.Civil) :
    (Request.answer party r).Behaves party .nothing fun _ _ => True := by
  cases r with
  | raw payload => exact behaves_append payload
  | sync i ctx => exact behaves_syncWith _
  | syncWith i ctx accepts => exact behaves_syncWith accepts
  | version i ctx => exact behaves_projectionVersion
  | readonly i ctx name logic =>
      unfold Request.answer Service.readonly
      dsimp only
      split
      · exact behaves_pure trivial
      · exact behaves_mono (behaves_runReadonly polite) fun _ _ _ => trivial
  | append i ctx name logic =>
      unfold Request.answer Service.append
      dsimp only
      split
      · exact behaves_pure trivial
      · exact behaves_runAppend polite
  | transaction i ctx name logic =>
      unfold Request.answer Service.transaction
      dsimp only
      split
      · exact behaves_pure trivial
      · exact behaves_runTransaction polite
  | call i ctx name logic =>
      unfold Request.answer Service.call
      dsimp only
      split
      · exact behaves_pure trivial
      · split
        · exact behaves_runAppend polite
        · exact behaves_runTransaction polite
        · refine behaves_bind (behaves_runReadonly polite) ?_
          rintro (e | ⟨output, events⟩) _ rfl
          · exact behaves_pure trivial
          · dsimp only
            split <;> exact behaves_pure trivial

/-! ## The moves of a writer -/

/-- A store without a draft that is changed in such a way that it still has none. -/
theorem undrafted_modify {j : ι} {f : Cell (P j) → Cell (P j)}
    (keeps : ∀ c, c.draft = none → (f c).draft = none) (undrafted : (w.cell i).draft = none) :
    (((Commons.cellPart j).modify f w).cell i).draft = none := by
  by_cases same : i = j
  · subst same
    rw [Commons.cell_modify_self]
    exact keeps _ undrafted
  · rw [Commons.cell_modify_ne _ _ _ same]
    exact undrafted

/-- Whoever leaves a draft in a store that had none, or that he wrote to, writes to it. -/
theorem Conducts.writes (conducts : Conducts party h w w' h')
    (before : (w.cell i).draft = none ∨ h = .writes i)
    (drafted : (w'.cell i).draft.isSome) : h' = .writes i := by
  obtain ⟨w₁, acts, cell, _⟩ := conducts
  rw [cell] at drafted
  have undrafted : (w₁.cell i).draft ≠ none := Option.isSome_iff_ne_none.1 drafted
  cases acts with
  | tick clock => exact before.resolve_left undrafted
  | run j _ _ cell => exact before.resolve_left (cell ▸ undrafted)
  | push texts => exact before.resolve_left undrafted
  | beginRead j =>
      rcases before with vacant | other
      · exact absurd (undrafted_modify (f := Cell.beginRead) (fun _ kept => kept) vacant) undrafted
      · cases other
  | endRead j =>
      rcases before with vacant | other
      · exact absurd (undrafted_modify (f := Cell.endRead) (fun _ kept => kept) vacant) undrafted
      · cases other
  | beginWrite j =>
      by_cases same : i = j
      · rw [same]
      · rw [Commons.cell_modify_ne _ _ _ same] at undrafted
        rcases before with vacant | other
        · exact absurd vacant undrafted
        · cases other
  | redraft j s =>
      refine before.resolve_left fun vacant =>
        undrafted (undrafted_modify (fun c undrafted => ?_) vacant)
      rw [Cell.modifyDraft, undrafted]
      rfl
  | commit j =>
      rcases before with vacant | same
      · exact absurd (undrafted_modify (fun _ _ => rfl) vacant) undrafted
      · cases same
        rw [Commons.cell_modify_self] at undrafted
        exact absurd rfl undrafted
  | rollback j =>
      rcases before with vacant | same
      · exact absurd (undrafted_modify (fun _ _ => rfl) vacant) undrafted
      · cases same
        rw [Commons.cell_modify_self] at undrafted
        exact absurd rfl undrafted

section Chains

variable {moves inside : List (Move (Commons ι P X))} {mv : Move (Commons ι P X)}

theorem grown_of_chain (chain : (civil party).Chain h w moves h' w') :
    ∀ mv ∈ moves, mv.before.log.records <+: mv.after.log.records := by
  induction chain with
  | wait => exact fun mv member => (List.not_mem_nil member).elim
  | move _ own _ ih => exact List.forall_mem_cons.2 ⟨Conducts.grows own, ih⟩

theorem grown_stateAfter {tail : List (Move (Commons ι P X))}
    (chain : (civil party).Chain h w (moves ++ tail) h' w') :
    w.log.records <+: (stateAfter w moves).log.records := by
  induction moves generalizing h w with
  | nil => exact List.prefix_rfl
  | cons mv rest ih =>
      cases chain with
      | move meanwhile own later => exact meanwhile.1.trans ((Conducts.grows own).trans (ih later))

/-- The next move of a writer finds the store as the last one has left it, in a log that has
at most grown.  If it leaves a draft there, the same goes for the moves after it. -/
theorem next_of_chain (chain : (civil party).Chain (.writes i) w (mv :: moves) h w') :
    mv.before.cell i = w.cell i ∧ w.log.records <+: mv.before.log.records ∧
      ((mv.after.cell i).draft.isSome → (civil party).Chain (.writes i) mv.after moves h w') := by
  cases chain with
  | move meanwhile own later =>
      refine ⟨meanwhile.2, meanwhile.1, fun drafted => ?_⟩
      obtain rfl := Conducts.writes own (.inr rfl) drafted
      exact later

variable (party) in
/-- A writer whose draft is `s` in place of `c`, and the moves that it is going to make. -/
structure Writer (i : ι) (c s : Snapshot (P i)) (w : Commons ι P X)
    (moves : List (Move (Commons ι P X))) (h' : Hold ι) (w' : Commons ι P X) : Prop where
  cell : w.cell i = ⟨c, 0, some s⟩
  chain : (civil party).Chain (.writes i) w moves h' w'

variable {c s : Snapshot (P i)}

/-- The next move finds the draft as the last one has left it, and so on. -/
theorem Writer.next (writer : Writer party i c s w (mv :: moves) h' w') :
    mv.before.cell i = ⟨c, 0, some s⟩ ∧ w.log.records <+: mv.before.log.records ∧
      ∀ s', mv.after.cell i = ⟨c, 0, some s'⟩ → Writer party i c s' mv.after moves h' w' := by
  obtain ⟨same, grown, on⟩ := next_of_chain writer.chain
  refine ⟨same.trans writer.cell, grown, fun s' cell => ⟨cell, on ?_⟩⟩
  rw [cell]
  rfl

/-- A writer that looks at the shared state. -/
theorem Writer.look {w₁ : Commons ι P X} (writer : Writer party i c s w (⟨w₁, w₁⟩ :: moves) h' w') :
    w.log.records <+: w₁.log.records ∧ Writer party i c s w₁ moves h' w' := by
  obtain ⟨cell, grown, on⟩ := writer.next
  exact ⟨grown, on s cell⟩

/-- A call that begins to write is a writer from then on. -/
theorem writer_of_chain {outside : Commons ι P X → Commons ι P X → Prop}
    (outer : ∀ w w', outside w w' → Outside w w') {before : List (Move (Commons ι P X))}
    {taking : Move (Commons ι P X)} {s₀ : Snapshot (P i)} (took : Taking i s₀ taking)
    (chain : (civil party).Chain h w (before ++ taking :: inside) h' w') :
    Writer party i s₀ s₀ taking.after inside h' w' := by
  have cell : taking.after.cell i = ⟨s₀, 0, some s₀⟩ := by
    rw [took.taken, Commons.cell_modify_self, took.free]
    rfl
  obtain ⟨_, _, _, since⟩ := chain.parts (harmony_civil outer)
  cases since with
  | move _ own later =>
      obtain rfl := Conducts.writes own (.inl (congrArg Cell.draft took.free)) (by rw [cell]; rfl)
      exact ⟨cell, later⟩

end Chains

/-! ## In the long run -/

/-- All moves of all calls form chains, and none of them takes anything from the log. -/
theorem chain_of_civil {allowed : Request ι P E ε X → Prop}
    {outside : Commons ι P X → Commons ι P X → Prop} {start : Commons ι P X}
    {pool : Request.Traffic ι P E ε X} (polite : ∀ r, allowed r → r.Civil)
    (outer : ∀ w w', outside w w' → Outside w w')
    (free : ∀ i, (start.cell i).readers = 0 ∧ (start.cell i).draft = none)
    (reachable : Pool.Reachable (Request.answer party) allowed outside start pool) :
    ∀ task ∈ pool.tasks, ∃ w h, (civil party).Chain .nothing w task.moves h pool.state := by
  have shares : Shares start [] :=
    fun i => ⟨(free i).1, by simp [(free i).2], fun _ => (free i).1⟩
  have answers (r : Request ι P E ε X) (may : allowed r) (w : Commons ι P X) :
      (Request.answer party r).Safe (civil party) (fun _ _ _ _ => True) .nothing [] w :=
    civil_answer r (polite r may) [] w
  exact Pool.chain_of_reachable (harmony_civil outer) answers trivial shares reachable

end EventSourcing
