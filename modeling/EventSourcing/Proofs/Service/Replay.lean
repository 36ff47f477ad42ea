import EventSourcing.Service.Call
import EventSourcing.Log.Memory
import EventSourcing.Store.Memory

/-!
# Proofs.Service.Replay -- projections as folds of a log

What a projection ought to be is the fold of the entries of a log: each entry is rebuilt
as an event, and the events that the service subscribes to are applied one after another,
each with the version after its entry and the time of its entry.  A snapshot is ahead of
another by some entries if it arises from it by folding in just these (`Party.Ahead`), and
it reflects a log up to a version if it arises from the first projection by folding in all
entries before that version (`Party.Reflects`).
-/

namespace EventSourcing

set_option autoImplicit false

/-- What a service is made of, besides the log and the store. -/
structure Party (P E ε : Type) where
  contract : Contract
  set : EventSet E
  folding : Folding P E ε
  /-- How often a conditional append is tried at most. -/
  rounds : Nat

namespace Party

variable {P E ε : Type} (q : Party P E ε)

def service {W : Type} (clock : Part W Clock) (log : Part W Log.Memory)
    (cell : Part W (Store.Cell P)) : Service W P E ε where
  contract := q.contract
  set := q.set
  clock := clock
  log := Log.Memory.eventLog clock log q.rounds
  store := Store.Cell.store q.folding cell

/-! ## Folding records -/

/-- The projection after the record at an offset; none if the record is no event or its
event is refused. -/
def takeUp (offset : Nat) (r : Log.Record) (p : P) : Option P :=
  match q.set.decodeText r.payload with
  | .error _ => none
  | .ok event =>
      if q.contract.subscribesTo (q.set.name event) then
        match q.folding.apply (.ofNat (offset + 1)) r.timestamp event p with
        | (.error _, _) => none
        | (.ok (), p) => some p
      else some p

/-- A record whose event is refused, and what the refused event makes of the projection. -/
def Refuses (offset : Nat) (r : Log.Record) (p : P) (e : ε) (p' : P) : Prop :=
  ∃ event, q.set.decodeText r.payload = .ok event ∧
    q.contract.subscribesTo (q.set.name event) ∧
      q.folding.apply (.ofNat (offset + 1)) r.timestamp event p = (.error e, p')

/-- The projection after some records, the first of them at an offset. -/
def replayFrom : Nat → List Log.Record → P → Option P
  | _, [], p => some p
  | offset, r :: rest, p => (q.takeUp offset r p).bind (replayFrom (offset + 1) rest)

theorem replayFrom_append (offset : Nat) (rs rs' : List Log.Record) (p : P) :
    q.replayFrom offset (rs ++ rs') p =
      (q.replayFrom offset rs p).bind (q.replayFrom (offset + rs.length) rs') := by
  induction rs generalizing offset p with
  | nil => rfl
  | cons r rest ih =>
      have further : offset + (r :: rest).length = offset + 1 + rest.length := by
        rw [List.length_cons]; omega
      simp only [List.cons_append, replayFrom, further]
      cases q.takeUp offset r p with
      | none => rfl
      | some p' => exact ih (offset + 1) p'

theorem replayFrom_concat (offset : Nat) (rs : List Log.Record) (r : Log.Record) (p : P) :
    q.replayFrom offset (rs ++ [r]) p =
      (q.replayFrom offset rs p).bind (q.takeUp (offset + rs.length) r) := by
  rw [replayFrom_append]
  congr 1
  funext p'
  simp only [replayFrom]
  cases q.takeUp (offset + rs.length) r p' <;> rfl

/-- Every record that has been folded in is an event of the set. -/
theorem decodes_of_replayFrom {offset : Nat} {rs : List Log.Record} {p p' : P}
    (replayed : q.replayFrom offset rs p = some p') :
    ∀ r ∈ rs, ∃ event, q.set.decodeText r.payload = .ok event := by
  induction rs generalizing offset p with
  | nil => intro r member; cases member
  | cons first rest ih =>
      simp only [replayFrom, Option.bind_eq_some_iff] at replayed
      obtain ⟨p₁, taken, replayed⟩ := replayed
      intro r member
      cases member with
      | head =>
          unfold takeUp at taken
          split at taken
          · cases taken
          · exact ⟨_, by assumption⟩
      | tail _ member => exact ih replayed r member

end Party

/-- The offset at which a snapshot goes on; none if its version is no offset. -/
def Store.Snapshot.position? {P : Type} (s : Store.Snapshot P) : Option Nat :=
  (s.version.getD (.ofNat 0)).offset?

namespace Party

open EventSourcing.Store (Snapshot)

variable {P E ε : Type} (q : Party P E ε)

/-! ## Being ahead -/

/-- A snapshot that arises from another by folding in so many of the entries after it. -/
def Ahead (records : List Log.Record) (from_ : Snapshot P) : Nat → Snapshot P → Prop
  | 0, s => s = from_
  | m + 1, s => ∃ n, from_.position? = some n ∧ n + m < records.length ∧
      q.replayFrom n ((records.drop n).take (m + 1)) from_.projection = some s.projection ∧
      s.version = some (.ofNat (n + m + 1))

variable {q} {records records' : List Log.Record} {s₀ s : Snapshot P} {m : Nat}

theorem Ahead.refl : q.Ahead records s₀ 0 s₀ :=
  rfl

/-- Entries that come later make no difference. -/
theorem Ahead.mono (ahead : q.Ahead records s₀ m s) (grown : records <+: records') :
    q.Ahead records' s₀ m s := by
  cases m with
  | zero => exact ahead
  | succ m =>
      obtain ⟨n, position, within, replayed, version⟩ := ahead
      obtain ⟨later, rfl⟩ := grown
      refine ⟨n, position, by rw [List.length_append]; omega, ?_, version⟩
      rw [List.drop_append_of_le_length (by omega), List.take_append_of_le_length, replayed]
      rw [List.length_drop]
      omega

/-- Where a snapshot goes on that is ahead of another. -/
theorem Ahead.position (ahead : q.Ahead records s₀ m s) {k : Nat}
    (position : s.position? = some k) : ∃ n, s₀.position? = some n ∧ k = n + m := by
  cases m with
  | zero => cases ahead; exact ⟨k, position, rfl⟩
  | succ m =>
      obtain ⟨n, first, _, _, version⟩ := ahead
      rw [Snapshot.position?, version] at position
      exact ⟨n, first, Version.eq_of_offset?_ofNat position⟩

/-- One more entry. -/
theorem Ahead.next (ahead : q.Ahead records s₀ m s) {n : Nat} {r : Log.Record} {p : P}
    (position : s₀.position? = some n) (entry : records[n + m]? = some r)
    (taken : q.takeUp (n + m) r s.projection = some p) :
    q.Ahead records s₀ (m + 1) ⟨p, some (.ofNat (n + m + 1))⟩ := by
  obtain ⟨within, found⟩ := List.getElem?_eq_some_iff.1 entry
  have entries : (records.drop n).take (m + 1) = (records.drop n).take m ++ [r] := by
    rw [List.take_add_one, List.getElem?_drop, entry]
    rfl
  have length : ((records.drop n).take m).length = m := by
    rw [List.length_take, List.length_drop]
    omega
  have before : q.replayFrom n ((records.drop n).take m) s₀.projection = some s.projection := by
    cases m with
    | zero => cases ahead; rfl
    | succ m =>
        obtain ⟨n', first, _, replayed, _⟩ := ahead
        cases position.symm.trans first
        exact replayed
  refine ⟨n, position, within, ?_, rfl⟩
  rw [entries, replayFrom_concat, before, length]
  exact taken

/-- A snapshot that takes in an entry gets another version. -/
theorem Ahead.version_ne (ahead : q.Ahead records s₀ m s) {n : Nat}
    (position : s₀.position? = some n) : s.version ≠ some (.ofNat (n + m + 1)) := by
  intro same
  cases m with
  | zero =>
      cases ahead
      rw [Snapshot.position?, same] at position
      have := Version.eq_of_offset?_ofNat position
      omega
  | succ m =>
      obtain ⟨n', first, _, _, version⟩ := ahead
      cases position.symm.trans first
      have := Version.ofNat_injective (Option.some.inj (version.symm.trans same))
      omega

/-! ## Reflecting a log -/

variable (q)

/-- A snapshot that holds the first `n` entries of a log folded into a first projection,
each of them once and in order, and that is at the version after them. -/
structure Reflects (p₀ : P) (records : List Log.Record) (s : Snapshot P) (n : Nat) : Prop where
  within : n ≤ records.length
  /-- A snapshot without a version is at the beginning. -/
  version : s.version.getD (.ofNat 0) = .ofNat n
  replayed : q.replayFrom 0 (records.take n) p₀ = some s.projection

variable {q} {p₀ : P} {n : Nat}

theorem Reflects.new : q.Reflects p₀ records ⟨p₀, none⟩ 0 :=
  ⟨Nat.zero_le _, rfl, by rw [List.take_zero]; rfl⟩

theorem Reflects.mono (reflects : q.Reflects p₀ records s n) (grown : records <+: records') :
    q.Reflects p₀ records' s n := by
  obtain ⟨later, rfl⟩ := grown
  refine ⟨?_, reflects.version, ?_⟩
  · have := reflects.within
    rw [List.length_append]
    omega
  · rw [List.take_append_of_le_length reflects.within]
    exact reflects.replayed

theorem Reflects.position {k : Nat} (reflects : q.Reflects p₀ records s n)
    (position : s.position? = some k) : k = n := by
  rw [Snapshot.position?, reflects.version] at position
  exact Version.eq_of_offset?_ofNat position

theorem Reflects.ahead (reflects : q.Reflects p₀ records s₀ n)
    (ahead : q.Ahead records s₀ m s) : q.Reflects p₀ records s (n + m) := by
  cases m with
  | zero => cases ahead; exact reflects
  | succ m =>
      obtain ⟨n', position, within, replayed, version⟩ := ahead
      obtain rfl := reflects.position position
      refine ⟨by omega, by rw [version]; rfl, ?_⟩
      have length : (records.take n').length = n' := List.length_take_of_le (by omega)
      rw [List.take_add, replayFrom_append, reflects.replayed, length, Nat.zero_add]
      exact replayed

end Party

end EventSourcing
