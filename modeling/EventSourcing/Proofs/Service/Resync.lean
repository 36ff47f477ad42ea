import EventSourcing.Proofs.Service.Conduct
import Mathlib.Data.List.Infix

/-!
# Proofs.Service.Resync -- bringing a draft up to date

A transaction that writes takes in the entries after the version of its draft, one move
for each.  At any time its draft is the committed snapshot with so many entries folded in
as it has made such moves (`Drafting`), whatever is appended meanwhile.  Only an event that
is refused spoils the draft.
-/

namespace EventSourcing

set_option autoImplicit false
set_option linter.unusedSectionVars false

open EventSourcing.Store (Cell Snapshot)
open Service (SyncError)

/-- Whether an event was refused, or the store failed in another way. -/
def Service.SyncError.isStore {ε : Type} : SyncError ε → Bool
  | store _ => true
  | _ => false

/-- Whether an entry of the log stands in the way of all that come after it. -/
def Service.SyncError.isBlocking {ε : Type} : SyncError ε → Bool
  | store _ => true
  | decode _ _ => true
  | _ => false

variable {ι : Type} [DecidableEq ι] {P E ε : ι → Type} {X : Type}
  (party : (i : ι) → Party (P i) (E i) (ε i)) (policy : Policy ι P X)

/-- How many of some moves took an entry into a store: those that gave it another version. -/
def entriesTaken (i : ι) (moves : List (Move (Commons ι P X))) : Nat :=
  moves.countP fun mv =>
    decide ((mv.after.cell i).visible.version ≠ (mv.before.cell i).visible.version)

/-- Moves that leave the log alone. -/
def Quiet (moves : List (Move (Commons ι P X))) : Prop :=
  ∀ mv ∈ moves, mv.after.log = mv.before.log

/-- A transaction that writes to a store in which `s₀` is committed, and that has made the
moves `inside` since it began: it alone uses the store, and its draft is `s`. -/
structure Drafting (i : ι) (s₀ : Snapshot (P i)) (inside : List (Move (Commons ι P X)))
    (s : Snapshot (P i)) (w : Commons ι P X) : Prop where
  cell : w.cell i = ⟨s₀, 0, some s⟩
  ahead : (party i).Ahead w.log.records s₀ (entriesTaken i inside) s
  quiet : Quiet inside

/-- A transaction that writes and whose draft is of no use. -/
structure Spoiled (i : ι) (s₀ : Snapshot (P i)) (inside : List (Move (Commons ι P X)))
    (w : Commons ι P X) : Prop where
  cell : ∃ s, w.cell i = ⟨s₀, 0, some s⟩
  quiet : Quiet inside

/-- At some time a service came upon an entry that could not be folded in. -/
def Blocked (i : ι) : Prop :=
  ∃ (w : Commons ι P X) (m n : Nat) (r : Log.Record) (s : Snapshot (P i)), policy.known w ∧
    (party i).Ahead w.log.records (w.cell i).committed m s ∧
    (w.cell i).committed.position? = some n ∧ w.log.records[n + m]? = some r ∧
    (party i).takeUp (n + m) r s.projection = none

/-- A failure to synchronize on account of an entry has its reason in the log. -/
def Service.SyncError.Founded (i : ι) (e : SyncError (ε i)) : Prop :=
  e.isBlocking → Blocked party policy i

variable {party policy} {i : ι} {s₀ s : Snapshot (P i)}
  {base inside moves : List (Move (Commons ι P X))} {w w₁ : Commons ι P X}

/-! ## Moves -/

theorem entriesTaken_concat (mv : Move (Commons ι P X)) :
    entriesTaken i (moves ++ [mv]) = entriesTaken i moves +
      if (mv.after.cell i).visible.version ≠ (mv.before.cell i).visible.version then 1 else 0 := by
  simp [entriesTaken, List.countP_append, List.countP_singleton]

theorem quiet_nil : Quiet ([] : List (Move (Commons ι P X))) := by
  intro mv member
  cases member

theorem Quiet.concat (quiet : Quiet moves) {mv : Move (Commons ι P X)}
    (same : mv.after.log = mv.before.log) : Quiet (moves ++ [mv]) := by
  intro mv' member
  rcases List.mem_append.1 member with old | new
  · exact quiet mv' old
  · rw [List.mem_singleton.1 new]
    exact same

theorem Quiet.cons {mv : Move (Commons ι P X)} (same : mv.after.log = mv.before.log)
    (quiet : Quiet moves) : Quiet (mv :: moves) :=
  List.forall_mem_cons.2 ⟨same, quiet⟩

/-! ## Drafts -/

theorem Drafting.visible (drafting : Drafting party i s₀ inside s w) :
    (w.cell i).visible = s := by
  rw [drafting.cell]
  rfl

/-- Others leave the draft alone. -/
theorem Drafting.later (drafting : Drafting party i s₀ inside s w)
    (meanwhile : (terms party policy).others (.writes i) w w₁) :
    Drafting party i s₀ inside s w₁ :=
  ⟨meanwhile.2.trans drafting.cell, drafting.ahead.mono meanwhile.1, drafting.quiet⟩

/-- A move that leaves the draft and the log alone. -/
theorem Drafting.pause (drafting : Drafting party i s₀ inside s w) (log : w₁.log = w.log)
    (cell : w₁.cell = w.cell) : Drafting party i s₀ (inside ++ [⟨w, w₁⟩]) s w₁ := by
  refine ⟨cell ▸ drafting.cell, ?_, drafting.quiet.concat log⟩
  rw [entriesTaken_concat, if_neg (by simp [cell]), Nat.add_zero, log]
  exact drafting.ahead

theorem Drafting.clean (drafting : Drafting party i s₀ inside s w) : Clean party i w := by
  refine ⟨entriesTaken i inside, ?_⟩
  rw [drafting.visible, drafting.cell]
  exact drafting.ahead

theorem Clean.later (clean : Clean party i w) (grown : w.log.records <+: w₁.log.records)
    (same : w₁.cell i = w.cell i) : Clean party i w₁ := by
  obtain ⟨m, ahead⟩ := clean
  refine ⟨m, ?_⟩
  rw [same]
  exact ahead.mono grown

theorem Drafting.spoiled (drafting : Drafting party i s₀ inside s w) : Spoiled i s₀ inside w :=
  ⟨⟨s, drafting.cell⟩, drafting.quiet⟩

def redrafted (i : ι) (s : Snapshot (P i)) (w : Commons ι P X) : Commons ι P X :=
  (Commons.cellPart i).modify (Cell.modifyDraft fun _ => s) w

theorem cell_redrafted (drafting : w.cell i = ⟨s₀, 0, some s⟩) (s' : Snapshot (P i)) :
    (redrafted i s' w).cell i = ⟨s₀, 0, some s'⟩ := by
  rw [redrafted, Commons.cell_modify_self, drafting]
  rfl

/-- A move that takes in the next entry. -/
theorem Drafting.next (drafting : Drafting party i s₀ inside s w) {n : Nat} {r : Log.Record}
    {p : P i} (position : s₀.position? = some n)
    (entry : w.log.records[n + entriesTaken i inside]? = some r)
    (taken : (party i).takeUp (n + entriesTaken i inside) r s.projection = some p) :
    let s' : Snapshot (P i) := ⟨p, some (.ofNat (n + entriesTaken i inside + 1))⟩
    Drafting party i s₀ (inside ++ [⟨w, redrafted i s' w⟩]) s' (redrafted i s' w) ∧
      entriesTaken i (inside ++ [⟨w, redrafted i s' w⟩]) = entriesTaken i inside + 1 := by
  intro s'
  have cell := cell_redrafted drafting.cell s'
  have count : entriesTaken i (inside ++ [⟨w, redrafted i s' w⟩]) = entriesTaken i inside + 1 := by
    rw [entriesTaken_concat, if_pos]
    dsimp only
    rw [cell, drafting.cell]
    exact (drafting.ahead.version_ne position).symm
  refine ⟨⟨cell, ?_, drafting.quiet.concat rfl⟩, count⟩
  rw [count]
  exact drafting.ahead.next position entry taken

/-! ## One entry -/

theorem redrafted_redrafted (s' : Snapshot (P i)) :
    redrafted i s' (redrafted i s w) = redrafted i s' w := by
  simp only [redrafted, Part.modify, Commons.cellPart, Function.update_self, Function.update_idem,
    Cell.modifyDraft, Option.map_map, Function.comp_def]

/-- A change of the draft, once the draft is known. -/
theorem modify_modifyDraft (cell : w.cell i = ⟨s₀, 0, some s⟩)
    (f : Snapshot (P i) → Snapshot (P i)) :
    (Commons.cellPart i).modify (Cell.modifyDraft f) w = redrafted i (f s) w := by
  simp only [redrafted, Part.modify, Commons.cellPart, cell]
  rfl

theorem service_record (cell : w.cell i = ⟨s₀, 0, some s⟩) (v : Version) :
    (Request.service party i).store.record v w =
      (.ok (), redrafted i ⟨s.projection, some v⟩ w) :=
  congrArg (Prod.mk _) (modify_modifyDraft cell fun s => { s with version := some v })

theorem service_apply (cell : w.cell i = ⟨s₀, 0, some s⟩) (v : Version) (time : Nat)
    (event : E i) :
    (Request.service party i).store.apply v time event w =
      (((party i).folding.apply v time event s.projection).1,
        redrafted i ⟨((party i).folding.apply v time event s.projection).2, s.version⟩ w) := by
  have drafted := modify_modifyDraft cell fun s' : Snapshot (P i) =>
    { s' with projection := ((party i).folding.apply v time event s.projection).2 }
  refine Eq.trans ?_ (congrArg (Prod.mk _) drafted)
  simp only [Request.service, Party.service, Cell.store, Cell.apply, Commons.cellPart,
    Part.modify, cell]
  rfl

/-- What the visitor of a scan makes of an entry: it is taken in, or it cannot be and only a
refused event changes the draft. -/
theorem takeIn_cases (cell : w.cell i = ⟨s₀, 0, some s⟩) (k : Nat) (r : Log.Record)
    (reached : Version) :
    let taken := (Request.service party i).takeIn
      ⟨.ofNat k, .ofNat (k + 1), r.timestamp, r.payload⟩ reached w
    (∃ p, (party i).takeUp k r s.projection = some p ∧
        taken = (.ok (.ofNat (k + 1)), redrafted i ⟨p, some (.ofNat (k + 1))⟩ w)) ∨
      (party i).takeUp k r s.projection = none ∧
        ((∃ e, (party i).set.decodeText r.payload = .error e ∧
            taken = (.error (.decode (.ofNat k) e), w)) ∨
          ∃ e p, (party i).Refuses k r s.projection e p ∧
            taken = (.error (.store e), redrafted i ⟨p, s.version⟩ w)) := by
  have set : (Request.service (X := X) party i).set = (party i).set := rfl
  have contract : (Request.service (X := X) party i).contract = (party i).contract := rfl
  simp only [Service.takeIn, Party.takeUp, set, contract]
  cases decoded : (party i).set.decodeText r.payload with
  | error e => exact .inr ⟨rfl, .inl ⟨e, rfl, rfl⟩⟩
  | ok event =>
      by_cases subscribed : (party i).contract.subscribesTo ((party i).set.name event)
      · simp only [subscribed, if_true, service_apply cell]
        cases applied : (party i).folding.apply (.ofNat (k + 1)) r.timestamp event
            s.projection with
        | mk result p =>
            cases result with
            | error e => exact .inr ⟨rfl, .inr ⟨e, p, ⟨event, decoded, subscribed, applied⟩, rfl⟩⟩
            | ok done =>
                refine .inl ⟨p, rfl, ?_⟩
                simp only [service_record (cell_redrafted cell _), redrafted_redrafted]
      · simp only [subscribed, Bool.false_eq_true, if_false, service_record cell]
        exact .inl ⟨s.projection, rfl, rfl⟩

/-! ## All entries that there are -/

/-- A move that looks at the shared state and leaves it as it is. -/
theorem safe_look {α : Type} {f : Commons ι P X → α} {h : Hold ι}
    {post : α → Hold ι → List (Move (Commons ι P X)) → Commons ι P X → Prop}
    (safe : ∀ w₁, (terms party policy).others h w w₁ → policy.known w₁ →
      post (f w₁) h (moves ++ [⟨w₁, w₁⟩]) w₁) :
    (Fiber.atomic fun w => (f w, w)).Safe (terms party policy) post h moves w :=
  Fiber.safe_atomic fun w₁ meanwhile known => ⟨h, .tick w₁.clock, safe w₁ meanwhile known⟩

/-- A writer that looks at the shared state finds its draft as it left it. -/
theorem Drafting.look {α : Type} {f : Commons ι P X → α}
    {post : α → Hold ι → List (Move (Commons ι P X)) → Commons ι P X → Prop}
    (drafting : Drafting party i s₀ inside s w)
    (safe : ∀ w₁, w.log.records <+: w₁.log.records → policy.known w₁ →
      Drafting party i s₀ (inside ++ [⟨w₁, w₁⟩]) s w₁ →
        post (f w₁) (.writes i) (base ++ (inside ++ [⟨w₁, w₁⟩])) w₁) :
    (Fiber.atomic fun w => (f w, w)).Safe (terms party policy) post (.writes i) (base ++ inside)
      w := by
  refine safe_look fun w₁ meanwhile known => ?_
  rw [List.append_assoc]
  exact safe w₁ meanwhile.1 known ((drafting.later meanwhile).pause rfl rfl)

/-- How a resync leaves the transaction that has made the moves `base` before.  Whatever
fails, the draft is still good unless a store refused an event. -/
def Resynced (party : (i : ι) → Party (P i) (E i) (ε i)) (policy : Policy ι P X) (i : ι)
    (s₀ : Snapshot (P i)) (base : List (Move (Commons ι P X)))
    (result : Except (SyncError (ε i)) Version) (h : Hold ι) (moves : List (Move (Commons ι P X)))
    (w : Commons ι P X) : Prop :=
  h = .writes i ∧ ∃ inside, moves = base ++ inside ∧
    match result with
    | .ok v => ∃ s, Drafting party i s₀ inside s w ∧ v = s.version.getD (.ofNat 0)
    | .error e => Spoiled i s₀ inside w ∧
        (e.isStore = false → ∃ s, Drafting party i s₀ inside s w) ∧
        e.Founded party policy i

/-- What fails for another reason than an entry leaves the draft good. -/
theorem Drafting.failed (drafting : Drafting party i s₀ inside s w) {e : SyncError (ε i)}
    (elsewhere : e.isBlocking = false) :
    Spoiled i s₀ inside w ∧ (e.isStore = false → ∃ s, Drafting party i s₀ inside s w) ∧
      e.Founded party policy i :=
  ⟨drafting.spoiled, fun _ => ⟨s, drafting⟩, fun blocking => by simp [elsewhere] at blocking⟩

/-- How a scan leaves the transaction: a log that refuses to be scanned leaves it as it is. -/
def Scanned (party : (i : ι) → Party (P i) (E i) (ε i)) (policy : Policy ι P X) (i : ι)
    (s₀ : Snapshot (P i)) (base : List (Move (Commons ι P X))) :
    Option (Log.ScanFailure (SyncError (ε i))) × Version → Hold ι →
      List (Move (Commons ι P X)) → Commons ι P X → Prop
  | (none, v) => Resynced party policy i s₀ base (.ok v)
  | (some (.log _), v) => Resynced party policy i s₀ base (.ok v)
  | (some (.visitor e), _) => Resynced party policy i s₀ base (.error e)
  | (some (.interrupted reason), _) =>
      Resynced party policy i s₀ base (.error (.interrupted reason))

/-- One entry is shown, and it is the next one. -/
theorem Drafting.takeIn (drafting : Drafting party i s₀ inside s w) {n : Nat} {r : Log.Record}
    (position : s₀.position? = some n)
    (entry : w.log.records[n + entriesTaken i inside]? = some r) (reached : Version) :
    (Fiber.atomic ((Request.service party i).takeIn ⟨.ofNat (n + entriesTaken i inside),
      .ofNat (n + entriesTaken i inside + 1), r.timestamp, r.payload⟩ reached)).Safe
      (terms party policy) (fun result h moves w' =>
        match result with
        | .ok v => h = .writes i ∧ ∃ inside' s', moves = base ++ inside' ∧
            Drafting party i s₀ inside' s' w' ∧
            entriesTaken i inside' = entriesTaken i inside + 1 ∧
            v = s'.version.getD (.ofNat 0) ∧ w.log.records <+: w'.log.records
        | .error e => Resynced party policy i s₀ base (.error e) h moves w')
      (.writes i) (base ++ inside) w := by
  refine Fiber.safe_atomic fun w₁ meanwhile known => ?_
  have grown : w.log.records <+: w₁.log.records := meanwhile.1
  have found : w₁.log.records[n + entriesTaken i inside]? = some r := by
    obtain ⟨later, same⟩ := grown
    rw [← same, List.getElem?_append_left (List.getElem?_eq_some_iff.1 entry).1]
    exact entry
  have waiting := drafting.later meanwhile
  rw [List.append_assoc]
  rcases takeIn_cases waiting.cell (n + entriesTaken i inside) r reached with
    ⟨p, taken, step⟩ | ⟨refused, stopped⟩
  · rw [step]
    obtain ⟨next, count⟩ := waiting.next position found taken
    exact ⟨.writes i, .redraft i _, rfl, _, _, rfl, next, count, rfl, grown⟩
  · have blocked : Blocked party policy i := by
      refine ⟨w₁, entriesTaken i inside, n, r, s, known, ?_, ?_, found, refused⟩
      · rw [waiting.cell]
        exact waiting.ahead
      · rw [waiting.cell]
        exact position
    rcases stopped with ⟨e, _, step⟩ | ⟨e, p, _, step⟩
    · rw [step]
      have paused : Drafting party i s₀ (inside ++ [⟨w₁, w₁⟩]) s w₁ := waiting.pause rfl rfl
      exact ⟨.writes i, .tick w₁.clock, rfl, _, rfl, paused.spoiled, fun _ => ⟨s, paused⟩,
        fun _ => blocked⟩
    · rw [step]
      refine ⟨.writes i, .redraft i _, rfl, _, rfl, ⟨?_, ?_⟩, ?_, fun _ => blocked⟩
      · exact ⟨_, cell_redrafted waiting.cell _⟩
      · exact waiting.quiet.concat rfl
      · intro good
        cases good

/-- Entries are shown in the order of the log, from the end of the draft on. -/
theorem safe_visit (ctx : Context) {n : Nat} (position : s₀.position? = some n)
    {rs : List Log.Record} {reached : Version} (drafting : Drafting party i s₀ inside s w)
    (shown : rs <+: w.log.records.drop (n + entriesTaken i inside))
    (recorded : reached = s.version.getD (.ofNat 0)) :
    (Log.Memory.visit Commons.clockPart ctx (Request.service party i).takeIn
      (Log.Memory.entriesAt (n + entriesTaken i inside) rs) reached).Safe (terms party policy)
      (Scanned party policy i s₀ base) (.writes i) (base ++ inside) w := by
  induction rs generalizing inside s w reached with
  | nil => exact Fiber.safe_pure ⟨rfl, inside, rfl, s, drafting, recorded⟩
  | cons r later ih =>
      refine Fiber.safe_bind (drafting.look fun w₁ grown _ looked => ?_)
      cases ctx.interruption? (Commons.clockPart.get w₁) with
      | some reason => exact Fiber.safe_pure ⟨rfl, _, rfl, looked.failed rfl⟩
      | none =>
          have count : entriesTaken i (inside ++ [⟨w₁, w₁⟩]) = entriesTaken i inside := by
            rw [entriesTaken_concat, if_neg (fun other => other rfl), Nat.add_zero]
          rw [← count] at shown ⊢
          obtain ⟨more, split⟩ := shown.trans (List.IsPrefix.drop grown _)
          have entry : w₁.log.records[n + entriesTaken i (inside ++ [⟨w₁, w₁⟩])]? = some r := by
            rw [← List.head?_drop, ← split]
            rfl
          have others : later <+:
              w₁.log.records.drop (n + entriesTaken i (inside ++ [⟨w₁, w₁⟩]) + 1) := by
            rw [← List.tail_drop, ← split]
            exact List.prefix_append _ _
          refine Fiber.safe_bind (Fiber.safe_mono ?_ (looked.takeIn position entry reached))
          intro result h moves w₂ taken
          cases result with
          | error e => exact Fiber.safe_pure taken
          | ok v =>
              obtain ⟨rfl, inside', s', rfl, next, further, recorded', grown'⟩ := taken
              rw [Nat.add_assoc, ← further] at others ⊢
              exact ih next (others.trans (List.IsPrefix.drop grown' _)) recorded'

/-- A scan from the version of the draft on. -/
theorem safe_scan (ctx : Context) (drafting : Drafting party i s₀ inside s w) :
    ((Request.service party i).log.scan ctx (s.version.getD (.ofNat 0)) 0
      (Request.service party i).takeIn (s.version.getD (.ofNat 0))).Safe (terms party policy)
      (Scanned party policy i s₀ base) (.writes i) (base ++ inside) w := by
  refine Fiber.safe_bind (drafting.look fun w₁ _ _ looked => ?_)
  simp only [Log.Memory.entriesFrom, Log.Memory.offsetOf]
  cases position : (s.version.getD (.ofNat 0)).offset? with
  | none => exact Fiber.safe_pure ⟨rfl, _, rfl, s, looked, rfl⟩
  | some k =>
      dsimp only
      by_cases atEnd : (Commons.logPart.get w₁).size ≤ k
      · rw [if_pos atEnd]
        exact Fiber.safe_pure ⟨rfl, _, rfl, s, looked, rfl⟩
      · simp only [atEnd, if_false, if_true]
        obtain ⟨n, first, rfl⟩ := looked.ahead.position position
        exact safe_visit ctx first looked List.prefix_rfl rfl

theorem versionOrOrigin_eq (ctx : Context) (v : Option Version) :
    (Request.service (X := X) party i).versionOrOrigin ctx v =
      pure (.ok (v.getD (.ofNat 0))) := by
  cases v with
  | none => rfl
  | some v => rfl

/-- A transaction that writes brings its draft up to date. -/
theorem safe_syncIn (ctx : Context) (drafting : Drafting party i s₀ inside s w) :
    ((Request.service party i).syncIn ctx).Safe (terms party policy)
      (Resynced party policy i s₀ base) (.writes i) (base ++ inside) w := by
  refine Fiber.safe_bind (drafting.look fun w₁ _ _ looked => ?_)
  have version : (Request.service party i).store.version w₁ = .ok s.version :=
    congrArg (fun s : Snapshot (P i) => Except.ok s.version) looked.visible
  rw [version]
  dsimp only
  rw [versionOrOrigin_eq, pure_bind]
  refine Fiber.safe_bind (Fiber.safe_mono ?_ (safe_scan ctx looked))
  rintro ⟨failure, reached⟩ h moves w₂ scanned
  match failure, scanned with
  | none, scanned => exact Fiber.safe_pure scanned
  | some (.visitor e), scanned => exact Fiber.safe_pure scanned
  | some (.interrupted reason), scanned => exact Fiber.safe_pure scanned
  | some (.log e), scanned =>
      dsimp only
      cases e.isOutOfBound with
      | true => exact Fiber.safe_pure scanned
      | false =>
          obtain ⟨held, inside', made, s', drafting', _⟩ := scanned
          exact Fiber.safe_pure ⟨held, inside', made, drafting'.failed rfl⟩

end EventSourcing
