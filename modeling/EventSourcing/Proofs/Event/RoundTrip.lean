import EventSourcing.Proofs.Event.Derived
import EventSourcing.Proofs.Event.Stored
import EventSourcing.Proofs.Fiber.Abiding

/-!
# Proofs.Event.RoundTrip -- batches that are read back

A batch of events is written as an array of envelopes, split into entries that are written
anew, and each entry is read as an event.  As long as nothing is nested deeper than the reader
goes, the events that come out are those that went in; a batch that is nested deeper is
refused, and the log stays as it is.  Main statement: `batch_read_back`, for the sets that
enums derive.
-/

namespace EventSourcing

set_option autoImplicit false

open EventSourcing.Text (Glyph)
open Json (reread)

variable {E : Type} {set : EventSet E} {batch : List (E × Json)}

/-! ## Writing a batch -/

def EventSet.envelopeOf (set : EventSet E) (b : E × Json) : Envelope :=
  ⟨set.name b.1, b.2⟩

/-- Events whose payloads can be written, with these. -/
theorem batch_of_payloads {events : List E} {payloads : List Json}
    (written : events.map set.toPayload = payloads.map .ok) :
    (∀ b ∈ events.zip payloads, set.toPayload b.1 = .ok b.2) ∧
      (events.zip payloads).map (·.1) = events ∧ (events.zip payloads).map (·.2) = payloads := by
  have lengths : events.length = payloads.length := by
    simpa using congrArg List.length written
  refine ⟨?_, List.map_fst_zip (Nat.le_of_eq lengths), List.map_snd_zip (Nat.le_of_eq lengths.symm)⟩
  clear lengths
  induction events generalizing payloads with
  | nil => exact fun b member => (List.not_mem_nil member).elim
  | cons event rest ih =>
      cases payloads with
      | nil => cases written
      | cons p more =>
          obtain ⟨first, later⟩ := List.cons.inj written
          exact List.forall_mem_cons.2 ⟨first, ih later⟩

theorem exists_payloads {events : List E}
    (written : ∀ event ∈ events, ∃ p, set.toPayload event = .ok p) :
    ∃ payloads : List Json, events.map set.toPayload = payloads.map .ok := by
  induction events with
  | nil => exact ⟨[], rfl⟩
  | cons event rest ih =>
      obtain ⟨⟨p, first⟩, later⟩ := List.forall_mem_cons.1 written
      obtain ⟨payloads, rest⟩ := ih later
      exact ⟨p :: payloads, by rw [List.map_cons, List.map_cons, first, rest]⟩

theorem mapM_envelope (written : ∀ b ∈ batch, set.toPayload b.1 = .ok b.2) :
    (batch.map (·.1)).mapM set.envelope = .ok (batch.map set.envelopeOf) := by
  induction batch with
  | nil => rfl
  | cons b rest ih =>
      obtain ⟨first, rest⟩ := List.forall_mem_cons.1 written
      rw [List.map_cons, List.mapM_cons, envelope_ok first, ih rest]
      rfl

/-- A batch whose payloads can be written is written as the array of its envelopes. -/
theorem encode_of_written (written : ∀ b ∈ batch, set.toPayload b.1 = .ok b.2) :
    set.encode (batch.map (·.1)) =
      .ok (Json.arr (batch.map fun b => (set.envelopeOf b).json)).text := by
  rw [EventSet.encode, EventSet.encodeJson, mapM_envelope written]
  simp only [Except.map, List.map_map]
  rfl

/-- The first payload that cannot be written is why a batch cannot. -/
theorem encode_of_failed {failing : E} {after : List E} {e : EncodeError}
    (written : ∀ b ∈ batch, set.toPayload b.1 = .ok b.2)
    (failed : set.toPayload failing = .error e) :
    set.encode (batch.map (·.1) ++ failing :: after) = .error e := by
  have envelope : set.envelope failing = .error e := by
    rw [EventSet.envelope, failed]
    rfl
  rw [EventSet.encode, EventSet.encodeJson, List.mapM_append, mapM_envelope written,
    List.mapM_cons, envelope]
  rfl

/-! ## Reading it back -/

def EventSet.entryOf (set : EventSet E) (b : E × Json) : Json :=
  Envelope.sorted (set.name b.1) b.2

/-- The payloads of a batch stay within what the reader allows once they stand in an envelope
in an array. -/
def Shallow (batch : List (E × Json)) : Prop :=
  ∀ b ∈ batch, b.2.nesting + 2 < Json.depthLimit

instance : Decidable (Shallow batch) :=
  inferInstanceAs (Decidable (∀ b ∈ batch, b.2.nesting + 2 < Json.depthLimit))

theorem reread_envelope {b : E × Json} (plain : Json.Plain b.2) :
    reread (Json.depthLimit - 1) (set.envelopeOf b).json =
      if b.2.nesting + 2 < Json.depthLimit then some (set.entryOf b) else none := by
  have depth : (b.2.nesting < Json.depthLimit - 1 - 1) ↔ b.2.nesting + 2 < Json.depthLimit := by
    omega
  rw [EventSet.envelopeOf, Envelope.reread_json, if_neg (by decide),
    Json.reread_plain plain (by decide)]
  simp only [depth]
  split <;> rfl

/-- The text of a batch is read as the array of its entries, or not at all. -/
theorem read?_batch (plain : ∀ b ∈ batch, Json.Plain b.2) :
    Json.read? Json.depthLimit
        (Glyph.ofString (Json.arr (batch.map fun b => (set.envelopeOf b).json)).text) =
      if Shallow batch then some (.arr (batch.map set.entryOf)) else none := by
  rw [Json.ofString_text]
  change reread Json.depthLimit _ = _
  have each : ∀ b ∈ batch, (reread (Json.depthLimit - 1) ∘ fun b => (set.envelopeOf b).json) b =
      if b.2.nesting + 2 < Json.depthLimit then some (set.entryOf b) else none :=
    fun b member => reread_envelope (plain b member)
  rw [Json.reread_arr fun v _ => Json.steady v, if_neg (by decide), List.mapM_map,
    Json.mapM_of_guard each]
  change Option.map Json.arr (if Shallow batch then some (batch.map set.entryOf) else none) = _
  split <;> rfl

variable (set) in
/-- A batch is split into the texts of its entries if it is nested as the reader allows. -/
theorem split_batch (filled : batch ≠ []) (plain : ∀ b ∈ batch, Json.Plain b.2) :
    Log.split (Glyph.ofString (Json.arr (batch.map fun b => (set.envelopeOf b).json)).text) =
      if Shallow batch then .ok (batch.map fun b => (set.entryOf b).text)
      else .error .malformedPayload := by
  unfold Log.split
  rw [Glyph.toText?_ofString, read?_batch plain]
  by_cases shallow : Shallow batch
  · rw [if_pos shallow, if_pos shallow]
    cases batch with
    | nil => exact absurd rfl filled
    | cons b rest =>
        rw [List.map_cons, List.map_cons]
        dsimp only
        rw [List.map_cons, List.map_map]
        rfl
  · rw [if_neg shallow, if_neg shallow]

/-- An event is rebuilt from its entry as it is from its payload. -/
theorem decodeText_entryOf {b : E × Json} (plain : Json.Plain b.2)
    (shallow : b.2.nesting + 2 < Json.depthLimit) :
    set.decodeText (set.entryOf b).text = set.fromPayload (set.name b.1) b.2 := by
  rw [EventSet.entryOf, EventSet.decodeText, EventSet.decode, Envelope.read?_sorted,
    Json.reread_plain plain (by decide), if_pos (by omega)]
  rfl

/-! ## Refusing it -/

/-- A payload that a log refuses, appended in any case or by an attempt that produces it, so
that the log stays as it is.  Before that, an attempt may be interrupted. -/
structure Log.Refuses (payload : Log.Payload) (e : Log.Error) : Prop where
  append : ∀ {W : Type} (clock : Part W Clock) (log : Part W Log.Memory),
    Log.Memory.append clock log payload = pure (.error e)
  tryAppend : ∀ {W σ ε : Type} (clock : Part W Clock) (log : Part W Log.Memory)
    (attempt : Log.Attempt W σ ε),
    (∀ s w, (attempt.produce s w).1.1 = .ok (some payload) ∧
      log.get (attempt.produce s w).2 = log.get w) →
    ∀ (ctx : Context) (rounds : Nat) (assumed : Version) (s : σ),
      (Log.Memory.tryAppend clock log ctx attempt rounds assumed s).Abides (fun _ => True)
        (fun w w' => log.get w' = log.get w)
        (fun r => r.1 = .error (.log e) ∨ ∃ reason, r.1 = .error (.interrupted reason))

/-- What cannot be split is refused. -/
theorem refuses_of_split {payload : Log.Payload} {e : Log.Error}
    (refused : Log.split payload = .error e) : Log.Refuses payload e where
  append clock log := by rw [Log.Memory.append, refused]
  tryAppend clock log attempt produces ctx rounds assumed s := by
    cases rounds with
    | zero => exact Fiber.abides_stuck
    | succ rounds =>
        rw [Log.Memory.tryAppend]
        refine Fiber.abides_bind (Fiber.abides_atomic (fun _ => True) fun w _ => ⟨rfl, trivial⟩)
          fun interruption _ => ?_
        cases interruption with
        | some reason => exact Fiber.abides_pure (.inr ⟨reason, rfl⟩)
        | none =>
            refine Fiber.abides_bind (Fiber.abides_atomic (fun r => r.1 = .ok (some payload))
              fun w _ => ⟨(produces s w).2, (produces s w).1⟩) fun produced given => ?_
            obtain ⟨_, s'⟩ := produced
            cases given
            dsimp only
            rw [refused]
            exact Fiber.abides_pure (.inl rfl)

/-! ## Sets that enums derive -/

/-- A type of payloads whose values are rebuilt from what is written of them. -/
def PayloadType.Survives (type : PayloadType) : Prop :=
  ∀ value payload, type.encode value = .ok payload → type.decode payload = some value

namespace Derive

variable {types : List Source.Tree → PayloadType} {attributes : List Source.Attribute}
  {variants : List Source.Variant} {declared : List Member}

/-- An event of a derived set is rebuilt from its name and its payload. -/
theorem fromPayload_toPayload (derived : membersOf attributes variants = .ok declared)
    (survive : ∀ m ∈ declared, ∀ type, m.payload = some type → (types type).Survives)
    {event : Event types declared} {payload : Json}
    (written : (eventSet types declared).toPayload event = .ok payload) :
    (eventSet types declared).fromPayload ((eventSet types declared).name event) payload =
      .ok event := by
  have names : ((declared.map (Member.typed types)).map (·.name)).Nodup := by
    rw [List.map_map]
    exact (derived_spec derived).1
  have survives : ((declared.map (Member.typed types)).get event.member).payload.Survives := by
    rw [get_typed]
    cases carried : (memberAt event.member).payload with
    | none =>
        rw [Member.typed, carried]
        exact fun _ _ _ => rfl
    | some type =>
        rw [Member.typed, carried]
        exact survive _ (memberAt_mem event.member) type carried
  have again := EventSourcing.Member.fromPayload_name names event.member payload
  rw [survives event.value payload written] at again
  exact again

end Derive

open Derive in
/-- What is appended is what is read back.  Take a batch of events of a set that an enum
derives, where the payload types survive being written and the payloads hold no floating point
numbers.  The set does what the generated cases say.  If a payload cannot be written, the batch
cannot, for the first such reason.  Otherwise the batch is written, and if nothing in it is
nested too deep, it is split into one entry for each event, in order, with the fields of the
envelope in order, and the entries are read as the events that went in.  If something is, the
batch is refused and nothing is added to the log. -/
theorem batch_read_back {types : List Source.Tree → PayloadType}
    {attributes : List Source.Attribute} {variants : List Source.Variant}
    {declared : List Derive.Member}
    (derived : membersOf attributes variants = .ok declared)
    (distinct : (variants.map (·.name)).Nodup)
    (survive : ∀ m ∈ declared, ∀ type, m.payload = some type → (types type).Survives)
    {events : List (Event types declared)} (filled : events ≠ [])
    (plain : ∀ event ∈ events, ∀ payload,
      (eventSet types declared).toPayload event = .ok payload → Json.Plain payload) :
    Follows (eventSet types declared) ∧
      (∀ before failing after e, events = before ++ failing :: after →
        (∀ event ∈ before, ∃ payload, (eventSet types declared).toPayload event = .ok payload) →
        (eventSet types declared).toPayload failing = .error e →
          (eventSet types declared).encode events = .error e) ∧
      (∀ payloads, events.map (eventSet types declared).toPayload = payloads.map .ok →
        ∃ text, (eventSet types declared).encode events = .ok text ∧
          ((∀ p ∈ payloads, p.nesting + 2 < Json.depthLimit) →
            ∃ texts, Log.split (Glyph.ofString text) = .ok texts ∧
              texts = (events.zip payloads).map (fun b =>
                (Envelope.sorted ((eventSet types declared).name b.1) b.2).text) ∧
              texts.map (eventSet types declared).decodeText = events.map .ok) ∧
          ((∃ p ∈ payloads, Json.depthLimit ≤ p.nesting + 2) →
            Log.split (Glyph.ofString text) = .error .malformedPayload ∧
              Log.Refuses (Glyph.ofString text) .malformedPayload)) := by
  refine ⟨follows_of_derived derived distinct, ?_, ?_⟩
  · rintro before failing after e rfl written failed
    obtain ⟨payloads, before_written⟩ := exists_payloads written
    obtain ⟨each, same, _⟩ := batch_of_payloads before_written
    rw [← same]
    exact encode_of_failed each failed
  · intro payloads written
    obtain ⟨each, events_eq, payloads_eq⟩ := batch_of_payloads written
    have plains : ∀ b ∈ events.zip payloads, Json.Plain b.2 := fun b member =>
      plain b.1 (List.of_mem_zip member).1 b.2 (each b member)
    have encoded := encode_of_written each
    rw [events_eq] at encoded
    have batch_filled : events.zip payloads ≠ [] := fun empty =>
      filled (by rw [← events_eq, empty]; rfl)
    have split := split_batch (eventSet types declared) batch_filled plains
    refine ⟨_, encoded, fun shallow => ?_, fun ⟨p, member, deep⟩ => ?_⟩
    · have fits : Shallow (events.zip payloads) := fun b member =>
        shallow b.2 (List.of_mem_zip member).2
      rw [if_pos fits] at split
      refine ⟨_, split, rfl, ?_⟩
      rw [List.map_map]
      conv_rhs => rw [← events_eq, List.map_map]
      refine List.map_congr_left fun b member => ?_
      exact (decodeText_entryOf (plains b member) (fits b member)).trans
        (fromPayload_toPayload derived survive (each b member))
    · have refused : ¬ Shallow (events.zip payloads) := by
        intro fits
        rw [← payloads_eq] at member
        obtain ⟨b, inside, rfl⟩ := List.mem_map.1 member
        exact absurd (fits b inside) (Nat.not_lt.2 deep)
      rw [if_neg refused] at split
      exact ⟨split, refuses_of_split split⟩

/-! ### A set of notes -/

def PayloadType.text : PayloadType where
  Carrier := String
  encode s := .ok (.str s)
  decode
    | .str s => some s
    | _ => Option.none

namespace Derive

/-- An enum whose one variant carries a text and whose other carries nothing. -/
def noteVariants : List Source.Variant :=
  [⟨[], "Noted", .tuple [[]]⟩, ⟨[], "Closed", .unit⟩]

def noteMembers : List Member :=
  [⟨"Noted", "Noted", some []⟩, ⟨"Closed", "Closed", none⟩]

/-- A note with a quote in it, and then the end. -/
def noteBatch : List (Event (fun _ => .text) noteMembers) :=
  [⟨⟨0, by decide⟩, ("a \"b\"" : String)⟩, ⟨⟨1, by decide⟩, ()⟩]

end Derive

open Derive in
theorem notes_read_back :
    ∃ text texts, (eventSet (fun _ => .text) noteMembers).encode noteBatch = .ok text ∧
      Log.split (Glyph.ofString text) = .ok texts ∧
      texts.map (eventSet (fun _ => .text) noteMembers).decodeText = noteBatch.map .ok := by
  have survive : ∀ m ∈ noteMembers, ∀ type, m.payload = some type →
      PayloadType.text.Survives := by
    intro m _ type _ value payload written
    cases written
    rfl
  have plain : ∀ event ∈ noteBatch, ∀ payload,
      (eventSet (fun _ => .text) noteMembers).toPayload event = .ok payload →
        Json.Plain payload := by
    intro event member payload written
    rcases List.mem_pair.1 member with rfl | rfl <;> cases written
    · exact .str _
    · exact .obj [] .nil fun _ member => (List.not_mem_nil member).elim
  have derived : membersOf [] noteVariants = .ok noteMembers := rfl
  obtain ⟨_, _, reads⟩ :=
    batch_read_back derived (by decide) survive (List.cons_ne_nil _ _) plain
  obtain ⟨text, encoded, shallow, _⟩ := reads [.str "a \"b\"", .obj []] rfl
  obtain ⟨texts, split, _, decoded⟩ := shallow (by decide)
  exact ⟨text, texts, encoded, split, decoded⟩

end EventSourcing
