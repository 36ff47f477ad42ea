import EventSourcing.Event.Envelope
import EventSourcing.Log.Memory
import EventSourcing.Proofs.Json.Nesting

/-!
# Proofs.Event.Stored -- events in a log

A batch of events is appended as one entry for each event, in order: the text of its
envelope, read and written again (`stored_of_split`).  An event whose payload is plain is
rebuilt from its entry if its set can rebuild it from its payload (`decodeText_stored`).
-/

namespace EventSourcing

set_option autoImplicit false

open EventSourcing.Text (Glyph)
open Json (glyphs reread stringText)

variable {E : Type} (set : EventSet E)

def EventSet.stored? (event : E) : Option String :=
  match set.envelope event with
  | .error _ => none
  | .ok envelope => (reread (Json.depthLimit - 1) envelope.json).map Json.text

variable {set} {event : E} {events : List E} {text : String} {texts : List String}

/-! ## Batches -/

theorem stored_of_envelopes {envelopes : List Envelope} {vs : List Json}
    (written : events.mapM set.envelope = .ok envelopes)
    (read : (envelopes.map Envelope.json).mapM (reread (Json.depthLimit - 1)) = some vs) :
    events.mapM set.stored? = some (vs.map Json.text) := by
  induction events generalizing envelopes vs with
  | nil =>
      cases written
      cases read
      rfl
  | cons event more ih =>
      rw [List.mapM_cons] at written
      cases first : set.envelope event with
      | error e =>
          rw [first] at written
          cases written
      | ok envelope =>
          rw [first] at written
          cases later : more.mapM set.envelope with
          | error e =>
              rw [later] at written
              cases written
          | ok others =>
              rw [later] at written
              cases written
              obtain ⟨v, ws, again, rest, rfl⟩ := Json.mapM_cons_eq_some read
              have stored : set.stored? event = some v.text := by
                rw [EventSet.stored?, first]
                exact congrArg (Option.map Json.text) again
              rw [List.mapM_cons, stored, ih later rest]
              rfl

/-- A batch is split into the entries of its events. -/
theorem stored_of_split (encoded : set.encode events = .ok text)
    (split : Log.split (Glyph.ofString text) = .ok texts) :
    events.mapM set.stored? = some texts := by
  unfold EventSet.encode EventSet.encodeJson at encoded
  cases written : events.mapM set.envelope with
  | error e =>
      rw [written] at encoded
      cases encoded
  | ok envelopes =>
      rw [written] at encoded
      cases encoded
      have batch : Json.read? Json.depthLimit
          (Glyph.ofString (Json.arr (envelopes.map Envelope.json)).text) =
            ((envelopes.map Envelope.json).mapM (reread (Json.depthLimit - 1))).map .arr := by
        rw [Json.ofString_text]
        exact Json.reread_arr fun v _ => Json.steady v
      unfold Log.split at split
      rw [Glyph.toText?_ofString, batch] at split
      cases read : (envelopes.map Envelope.json).mapM (reread (Json.depthLimit - 1)) with
      | none =>
          rw [read] at split
          cases split
      | some vs =>
          rw [read] at split
          rw [stored_of_envelopes written read]
          cases vs with
          | nil => cases split
          | cons v more =>
              cases split
              rfl

/-! ## Entries -/

namespace Envelope

variable {known known' : Fields} {key : String} {fuel : Nat} {input later after : List Glyph}

theorem fields_comma (read : field known key input = some (known', .char ',' :: later)) :
    fields (fuel + 1) known (glyphs (stringText key) ++ .char ':' :: input) =
      fields fuel known' later := by
  rw [fields, Json.skipBlanks_stringText, Json.string_stringText]
  show (field known key input).bind _ = _
  rw [read]
  rfl

theorem fields_brace (read : field known key input = some (known', .char '\x7d' :: after)) :
    fields (fuel + 1) known (glyphs (stringText key) ++ .char ':' :: input) =
      some (known', after) := by
  rw [fields, Json.skipBlanks_stringText, Json.string_stringText]
  show (field known key input).bind _ = _
  rw [read]
  rfl

theorem fields_none (read : field known key input = none) :
    fields (fuel + 1) known (glyphs (stringText key) ++ .char ':' :: input) = none := by
  rw [fields, Json.skipBlanks_stringText, Json.string_stringText]
  show (field known key input).bind _ = _
  rw [read]
  rfl

/-- The payload of an envelope is read like any value. -/
theorem field_payload (p : Json) (name : Option String) {rest : List Glyph}
    (ends : Json.EndsValue rest) :
    field ⟨name, none⟩ "payload" (glyphs p.chars ++ rest) =
      (reread (Json.depthLimit - 1) p).map fun p' => (⟨name, some p'⟩, rest) := by
  have value : Json.value (Json.fuelFor (glyphs p.chars ++ rest)) (Json.depthLimit - 1)
      (glyphs p.chars ++ rest) = (reread (Json.depthLimit - 1) p).map (·, rest) := by
    refine Json.value_chars p ?_ ends
    rw [Json.fuelFor, List.length_append, Json.length_glyphs]
    omega
  unfold field
  rw [if_neg (by decide), if_pos rfl]
  dsimp only
  rw [value, Option.map_map]
  rfl

theorem field_type (name : String) (payload : Option Json) (rest : List Glyph) :
    field ⟨none, payload⟩ "type" (glyphs (stringText name) ++ rest) =
      some (⟨some name, payload⟩, rest) := by
  unfold field
  rw [if_pos rfl]
  dsimp only
  rw [Json.skipBlanks_stringText, Json.string_stringText]
  rfl

/-- The two fields of an envelope as an entry holds them. -/
def sorted (name : String) (payload : Json) : Json :=
  .obj [("payload", payload), ("type", .str name)]

theorem object_fields (name : String) (payload : Json) :
    Json.object [("type", .str name), ("payload", payload)] = sorted name payload := by
  have first : "payload" < "type" := by decide
  rw [Json.object, List.foldl_cons, List.foldl_cons, List.foldl_nil]
  dsimp only
  rw [Json.insert, Json.insert, if_pos first]
  rfl

/-- An envelope is read again with its fields in order. -/
theorem reread_json {depth : Nat} (name : String) (p : Json) :
    reread depth (json ⟨name, p⟩) =
      if depth ≤ 1 then none else (reread (depth - 1) p).map (sorted name) := by
  have type : Json.rereadField (depth - 1) ("type", .str name) = some ("type", .str name) := by
    rw [Json.rereadField, Json.reread_eq (Json.readAs_str _)]
    rfl
  rw [json, Json.reread_obj fun f _ => Json.steady f.2, List.mapM_cons, type, List.mapM_cons,
    List.mapM_nil, Json.rereadField]
  dsimp only
  cases reread (depth - 1) p with
  | none => rfl
  | some p' => exact congrArg (ite _ none ∘ some) (object_fields name p')

theorem fields_sorted (fuel : Nat) (name : String) (p : Json) (rest : List Glyph) :
    fields (fuel + 2) ⟨none, none⟩ (glyphs (stringText "payload") ++ .char ':' ::
        (glyphs p.chars ++ .char ',' :: (glyphs (stringText "type") ++ .char ':' ::
          (glyphs (stringText name) ++ .char '\x7d' :: rest)))) =
      (reread (Json.depthLimit - 1) p).map fun p' => (⟨some name, some p'⟩, rest) := by
  have payload (after : List Glyph) :
      field ⟨none, none⟩ "payload" (glyphs p.chars ++ .char ',' :: after) =
        (reread (Json.depthLimit - 1) p).map fun p' => (⟨none, some p'⟩, .char ',' :: after) :=
    field_payload p none (.inl rfl)
  cases read : reread (Json.depthLimit - 1) p with
  | none =>
      simp only [read, Option.map_none] at payload
      exact fields_none (payload _)
  | some p' =>
      simp only [read, Option.map_some] at payload
      rw [fields_comma (payload _)]
      exact fields_brace (field_type name (some p') _)

/-- An object with a field is read field by field. -/
theorem readFrom_brace {whole : List Glyph}
    (text : whole = .char '\x7b' :: (glyphs (stringText key) ++ input)) :
    readFrom whole =
      (fields whole.length ⟨none, none⟩ (glyphs (stringText key) ++ input)).bind
        fun (known, after) => (ofFields? known).bind fun e => some (e, after) := by
  subst text
  rfl

/-- An envelope is read from its entry if its payload can be read. -/
theorem read?_sorted (name : String) (p : Json) :
    read? (Glyph.ofString (sorted name p).text) =
      (reread (Json.depthLimit - 1) p).map fun p' => ⟨name, p'⟩ := by
  have text : Glyph.ofString (sorted name p).text = .char '\x7b' ::
      (glyphs (stringText "payload") ++ .char ':' :: (glyphs p.chars ++ .char ',' ::
        (glyphs (stringText "type") ++ .char ':' :: (glyphs (stringText name) ++
          .char '\x7d' :: [])))) := by
    have chars : (sorted name p).chars = '\x7b' :: (stringText "payload" ++ ':' :: p.chars ++ ',' ::
        (stringText "type" ++ ':' :: stringText name)) ++ ['\x7d'] := rfl
    rw [Json.ofString_text, chars]
    simp only [Json.glyphs_append, Json.glyphs_cons, Json.glyphs_nil, List.cons_append,
      List.append_assoc]
  obtain ⟨fuel, length⟩ : ∃ fuel, (Glyph.ofString (sorted name p).text).length = fuel + 2 := by
    refine ⟨(Glyph.ofString (sorted name p).text).length - 2, ?_⟩
    rw [text]
    simp only [List.length_cons, List.length_append]
    omega
  rw [read?, readFrom_brace text, length, fields_sorted fuel name p []]
  cases reread (Json.depthLimit - 1) p <;> rfl

end Envelope

theorem envelope_ok {p : Json} (written : set.toPayload event = .ok p) :
    set.envelope event = .ok ⟨set.name event, p⟩ := by
  rw [EventSet.envelope, written]
  rfl

/-- The text of an entry is that of an envelope with the payload as it is read again. -/
theorem stored_eq {p : Json} (written : set.toPayload event = .ok p)
    (stored : set.stored? event = some text) :
    ∃ p', reread (Json.depthLimit - 2) p = some p' ∧
      text = (Envelope.sorted (set.name event) p').text := by
  rw [EventSet.stored?, envelope_ok written] at stored
  obtain ⟨v, again, rfl⟩ := Option.map_eq_some_iff.1 stored
  rw [Envelope.reread_json, if_neg (by decide)] at again
  obtain ⟨p', payload, rfl⟩ := Option.map_eq_some_iff.1 again
  exact ⟨p', payload, rfl⟩

/-- An event is rebuilt from its entry. -/
theorem decodeText_stored {p : Json} (written : set.toPayload event = .ok p)
    (plain : Json.Plain p) (stored : set.stored? event = some text) :
    set.decodeText text = set.fromPayload (set.name event) p := by
  obtain ⟨p', again, rfl⟩ := stored_eq written stored
  rw [Json.reread_plain plain (by decide)] at again
  split at again
  · rename_i shallow
    cases again
    have read : reread (Json.depthLimit - 1) p = some p := by
      rw [Json.reread_plain plain (by decide), if_pos (by omega)]
    rw [EventSet.decodeText, EventSet.decode, Envelope.read?_sorted, read]
    rfl
  · cases again

end EventSourcing
