import EventSourcing.Proofs.Event.Stored
import EventSourcing.Proofs.Json.Framing

/-!
# Proofs.Event.Alone -- objects that are appended alone

An object is appended alone as the text that it was given as, and in an array as its value, which
is written anew.  The reader of envelopes takes the fields as they are written, and refuses a second
value for the name or the payload of an event; where the value was written anew, the last one is
left.  Main statement: the two entries are read as the same event, or refused alike, by every set of
events if neither the name nor the payload is given twice; otherwise the first entry is refused
(`lone_object_read_as_in_array`).
-/

namespace EventSourcing

set_option autoImplicit false

open EventSourcing.Text (Glyph)
open Json (Reads Written given merged)

/-! ## Envelopes, field by field -/

namespace Envelope

variable {depth fuel : Nat} {input rest : List Glyph} {v : Json} {fs : List (String × Json)}

/-- What becomes known of an envelope by one of its fields: a name or a payload must not be known
yet, and a name must be a text. -/
def take (known : Fields) (key : String) (v : Json) : Option Fields :=
  if key = "type" then
    match known.name, v with
    | none, .str name => some { known with name := some name }
    | _, _ => none
  else if key = "payload" then
    match known.payload with
    | none => some { known with payload := some v }
    | some _ => none
  else some known

def takeAll (known : Fields) : List (String × Json) → Option Fields
  | [] => some known
  | (key, v) :: fs => (take known key v).bind (takeAll · fs)

/-- The reader of strings finds those values that are texts. -/
theorem string_of_reads (reads : Reads depth input (.value v) rest) :
    Json.string (Json.skipBlanks input) =
      match v with
      | .str s => some (s, rest)
      | _ => none := by
  cases reads with
  | str text => exact text
  | literal known begins _ =>
      rw [begins]
      cases known <;> rfl
  | number digits =>
      obtain ⟨c, more, begins, head⟩ := Json.head_of_number digits
      have empty : Json.string (Json.skipBlanks input) = none := by
        rw [begins, Json.string]
        rintro inside ⟨⟩
        exact absurd head (by decide)
      rw [empty]
      rcases (Json.skipNumber_of_number digits).2.2 with ⟨n, _, rfl⟩ | ⟨d, rfl⟩ <;> rfl
  | noItems _ begins _ =>
      rw [begins]
      rfl
  | array _ begins _ _ =>
      rw [begins]
      rfl
  | object members =>
      cases members with
      | noMembers _ begins _ =>
          rw [begins]
          rfl
      | members _ begins _ _ =>
          rw [begins]
          rfl

/-- One field is read as its value is taken. -/
theorem field_of_reads (reads : Reads depth input (.value v) rest)
    (shallow : depth ≤ Json.depthLimit - 1) (known : Fields) (key : String) :
    field known key input = (take known key v).map (·, rest) := by
  have enough : 2 * (input.length - rest.length) ≤ Json.fuelFor input := by
    rw [Json.fuelFor]
    omega
  unfold field take
  split
  · rw [string_of_reads reads]
    cases known.name with
    | some name => rfl
    | none => cases v <;> rfl
  · split
    · have found : Json.value (Json.fuelFor input) (Json.depthLimit - 1) input = some (v, rest) :=
        reads.found shallow enough
      cases known.payload with
      | some payload => rfl
      | none =>
          dsimp only
          rw [found]
          rfl
    · have skipped : Json.skip (Json.fuelFor input) input = some rest := reads.skipped enough
      dsimp only
      rw [skipped]
      rfl

theorem fields_of_reads (reads : Reads depth input (.fields fs) rest)
    (shallow : depth ≤ Json.depthLimit - 1) (enough : input.length ≤ fuel) (known : Fields) :
    fields fuel known input = (takeAll known fs).map (·, rest) := by
  induction fs generalizing fuel input known with
  | nil => cases reads
  | cons f others ih =>
      have shorter := reads.shorter
      obtain ⟨fuel, rfl⟩ : ∃ k, fuel = k + 1 := ⟨fuel - 1, by omega⟩
      rw [takeAll, fields]
      cases reads with
      | lastField key marks item ends =>
          have first := field_of_reads item shallow known
          simp only [key, marks, first, Option.bind_eq_bind, Option.bind_some]
          cases take known _ _ with
          | none => rfl
          | some known' =>
              simp only [Option.map_some, Option.bind_some, ends]
              rfl
      | field key marks item goes later =>
          have first := field_of_reads item shallow known
          have key_shorter := Json.length_of_string key
          have colon := Json.length_of_begins marks
          have item_shorter := item.shorter
          have passed := Json.length_of_begins goes
          simp only [key, marks, first, Option.bind_eq_bind, Option.bind_some]
          cases take known _ _ with
          | none => rfl
          | some known' =>
              simp only [Option.map_some, Option.bind_some, goes]
              exact ih later (by omega) known'

theorem readFrom_of_begins {inside : List Glyph}
    (begins : Json.skipBlanks input = .char '\x7b' :: inside) :
    readFrom input =
      match Json.skipBlanks inside with
      | .char '\x7d' :: _ => none
      | _ => (fields input.length ⟨none, none⟩ inside).bind fun (known, after) =>
          (ofFields? known).bind fun e => some (e, after) := by
  unfold readFrom
  rw [begins]
  rfl

/-- The envelope of an object is made of what all its fields make known. -/
theorem readFrom_of_reads (reads : Reads depth input (.members fs) rest)
    (shallow : depth ≤ Json.depthLimit) :
    readFrom input = ((takeAll ⟨none, none⟩ fs).bind ofFields?).map (·, rest) := by
  cases reads with
  | noMembers deep begins ends =>
      rw [readFrom_of_begins begins, ends]
      rfl
  | members deep begins filled inside =>
      have shorter := Json.length_of_begins begins
      rw [readFrom_of_begins begins]
      split
      · rename_i ends
        exact absurd ends (filled _)
      · rw [fields_of_reads inside (by omega) (by omega) ⟨none, none⟩]
        cases takeAll ⟨none, none⟩ fs with
        | none => rfl
        | some known =>
            rw [Option.map_some, Option.bind_some, Option.bind_some]
            dsimp only
            cases ofFields? known <;> rfl

theorem read?_of_written (written : Written depth input fs) (shallow : depth ≤ Json.depthLimit) :
    read? input = (takeAll ⟨none, none⟩ fs).bind ofFields? := by
  obtain ⟨rest, reads, blank⟩ := written
  rw [read?, readFrom_of_reads reads shallow]
  cases (takeAll ⟨none, none⟩ fs).bind ofFields? with
  | none => rfl
  | some e =>
      show (if (Json.skipBlanks rest).isEmpty then some e else none) = some e
      rw [blank]
      rfl

/-! ## Names and payloads by themselves -/

/-- What is known once some values have been given for one thing, of which there may be one in
all. -/
def settle {α : Type} (read : Json → Option α) : Option α → List Json → Option (Option α)
  | known, [] => some known
  | some _, _ :: _ => none
  | none, v :: vs => (read v).bind fun a => settle read (some a) vs

def text? : Json → Option String
  | .str s => some s
  | _ => none

/-- Names and payloads do not depend on each other, nor on other fields. -/
theorem takeAll_eq (known : Fields) (fs : List (String × Json)) :
    takeAll known fs =
      (settle text? known.name (given "type" fs)).bind fun name =>
        (settle some known.payload (given "payload" fs)).map fun payload => ⟨name, payload⟩ := by
  induction fs generalizing known with
  | nil => rfl
  | cons f fs ih =>
      obtain ⟨key, v⟩ := f
      obtain ⟨name, payload⟩ := known
      rw [takeAll, Json.given_cons, Json.given_cons]
      unfold take
      by_cases type : key = "type"
      · have other : key ≠ "payload" := by
          rw [type]
          decide
        rw [if_pos type, if_pos type, if_neg other]
        cases name with
        | some name => rfl
        | none =>
            cases v with
            | str s => exact ih ⟨some s, payload⟩
            | _ => rfl
      · rw [if_neg type, if_neg type]
        by_cases carries : key = "payload"
        · rw [if_pos carries, if_pos carries]
          cases payload with
          | some payload =>
              cases settle text? name (given "type" fs) <;> rfl
          | none => exact ih ⟨name, some v⟩
        · rw [if_neg carries, if_neg carries]
          exact ih ⟨name, payload⟩

/-- The envelope of an event with the values that are given for its name and for its payload, if it
has one. -/
def ofGiven : List Json → List Json → Option Envelope
  | [.str name], [] => some ⟨name, .null⟩
  | [.str name], [payload] => some ⟨name, payload⟩
  | _, _ => none

theorem settled_eq (types payloads : List Json) :
    ((settle text? none types).bind fun name =>
      (settle some none payloads).map fun payload => (⟨name, payload⟩ : Fields)).bind ofFields? =
        ofGiven types payloads := by
  rcases types with _ | ⟨v, _ | ⟨v', types⟩⟩
  · rcases payloads with _ | ⟨p, _ | ⟨p', payloads⟩⟩ <;> rfl
  · cases v <;> rcases payloads with _ | ⟨p, _ | ⟨p', payloads⟩⟩ <;> rfl
  · cases v <;> rfl

/-- The envelope of an object is made of the values that its text gives for a name and a payload. -/
theorem read?_eq_ofGiven (written : Written depth input fs) (shallow : depth ≤ Json.depthLimit) :
    read? input = ofGiven (given "type" fs) (given "payload" fs) := by
  rw [read?_of_written written shallow, takeAll_eq, settled_eq]

end Envelope

/-! ## The two entries -/

variable {E : Type} {depth : Nat} {x text : String} {fs ordered : List (String × Json)}

/-- The event with the values that are given for its name and for its payload, if it has one. -/
def EventSet.rebuild (set : EventSet E) (types payloads : List Json) : Except DecodeError E :=
  match Envelope.ofGiven types payloads with
  | some e => set.fromPayload e.name e.payload
  | none => .error .payload

theorem decodeText_of_written (set : EventSet E) (written : Written depth (Glyph.ofString text) fs)
    (shallow : depth ≤ Json.depthLimit) :
    set.decodeText text = set.rebuild (given "type" fs) (given "payload" fs) := by
  rw [EventSet.decodeText, EventSet.decode, Envelope.read?_eq_ofGiven written shallow]
  rfl

/-- Of values that are given more than once no event is made. -/
theorem rebuild_of_repeated (set : EventSet E) {types payloads : List Json}
    (repeated : 1 < types.length ∨ 1 < payloads.length) :
    set.rebuild types payloads = .error .payload := by
  have missing : Envelope.ofGiven types payloads = none := by
    unfold Envelope.ofGiven
    split
    · exact absurd repeated (by simp)
    · exact absurd repeated (by simp)
    · rfl
  rw [EventSet.rebuild, missing]

theorem last_of_short {vs : List Json} (short : vs.length ≤ 1) : vs.getLast?.toList = vs := by
  match vs with
  | [] => rfl
  | [_] => rfl
  | _ :: _ :: _ => exact absurd short (by simp)

/-- A log in memory stores a payload as entries with these texts, whatever is in the log. -/
def Log.StoredAs (payload : Log.Payload) (texts : List String) : Prop :=
  ∀ {W : Type} (clock : Part W Clock) (log : Part W Log.Memory),
    Log.Memory.append clock log payload =
      Fiber.atomic fun w =>
        let (appended, after) := (log.get w).push (clock.get w).now texts
        (.ok appended, log.set after w)

theorem storedAs_of_split {payload : Log.Payload} {texts : List String}
    (split : Log.split payload = .ok texts) : Log.StoredAs payload texts := by
  intro W clock log
  rw [Log.Memory.append, split]

theorem split_alone (written : Written depth (Glyph.ofString x) fs)
    (shallow : depth ≤ Json.depthLimit) : Log.split (Glyph.ofString x) = .ok [x] := by
  rw [Log.split, Glyph.toText?_ofString, written.read? shallow]

theorem split_brackets (written : Written (Json.depthLimit - 1) (Glyph.ofString x) fs) :
    Log.split (Glyph.ofString ("[" ++ x ++ "]")) = .ok [(Json.obj (merged fs)).text] := by
  have glyphs : Glyph.ofString ("[" ++ x ++ "]") =
      .char '[' :: (Glyph.ofString x ++ [.char ']']) := by
    simp [Glyph.ofString]
  have read : Json.read? Json.depthLimit (Glyph.ofString ("[" ++ x ++ "]")) =
      some (.arr [.obj (merged fs)]) := by
    rw [glyphs]
    exact Json.read?_brackets written (by decide)
  rw [Log.split, Glyph.toText?_ofString, read]
  rfl

/-- An object without floating point numbers, nested so that an array may hold it, is stored as one
entry both alone and in an array: as its text and as its value.  If its text gives at most one value
for the name and for the payload of an event, each set of events makes the same of both entries.
Otherwise the entry of the object alone is refused, and the other one has the values that are given
last. -/
theorem lone_object_read_as_in_array
    (object : Json.read? (Json.depthLimit - 1) (Glyph.ofString x) = some (.obj ordered))
    (floatless : Json.Floatless (.obj ordered)) :
    Log.StoredAs (Glyph.ofString x) [x] ∧
    Log.StoredAs (Glyph.ofString ("[" ++ x ++ "]")) [(Json.obj ordered).text] ∧
    (∃ fs, Written (Json.depthLimit - 1) (Glyph.ofString x) fs) ∧
    ∀ fs, Written (Json.depthLimit - 1) (Glyph.ofString x) fs →
      merged fs = ordered ∧
      ∀ {E : Type} (set : EventSet E),
        ((given "type" fs).length ≤ 1 → (given "payload" fs).length ≤ 1 →
          set.decodeText x = set.decodeText (Json.obj ordered).text) ∧
        (1 < (given "type" fs).length ∨ 1 < (given "payload" fs).length →
          set.decodeText x = .error .payload) ∧
        set.decodeText (Json.obj ordered).text =
          set.rebuild (given "type" fs).getLast?.toList (given "payload" fs).getLast?.toList := by
  obtain ⟨first, written_first, rfl⟩ := Json.written_of_read? object
  refine ⟨storedAs_of_split (split_alone written_first (by decide)),
    storedAs_of_split (split_brackets written_first), ⟨first, written_first⟩, fun fs written => ?_⟩
  have merges : merged fs = merged first := by
    rw [written.read? (Nat.le_refl _)] at object
    exact Json.obj.inj (Option.some.inj object)
  rw [← merges] at floatless ⊢
  have anew : Written (Json.depthLimit - 1) (Glyph.ofString (Json.obj (merged fs)).text)
      (merged fs) := by
    obtain ⟨rest, members, _⟩ := written
    obtain ⟨shallow, plain⟩ := (Reads.object members).inOrder (by decide)
    cases plain floatless with
    | obj _ _ plain => exact Json.written_text plain shallow
  refine ⟨rfl, fun set => ?_⟩
  have alone := decodeText_of_written set written (by decide)
  have stored := decodeText_of_written set anew (by decide)
  rw [Json.given_merged, Json.given_merged] at stored
  refine ⟨fun one_name one_payload => ?_, fun repeated => ?_, stored⟩
  · rw [alone, stored, last_of_short one_name, last_of_short one_payload]
  · rw [alone, rebuild_of_repeated set repeated]

/-! ### Events that are nothing but names -/

/-- Events that are nothing but names, whatever their payload. -/
def namedOnly : EventSet String where
  names := []
  name := id
  toPayload _ := .ok .null
  fromPayload name _ := .ok name

/-- An event with its fields in an order of its own, and one more field. -/
def openedFields : List (String × Json) :=
  [("type", .str "Opened"), ("note", .null), ("payload", .arr [.int 1])]

def openedText : String :=
  "\x7b\"type\":\"Opened\",\"note\":null,\"payload\":[1]\x7d"

theorem written_opened :
    Written (Json.depthLimit - 1) (Glyph.ofString openedText) openedFields := by
  have text : (Json.obj openedFields).text = openedText := by decide +kernel
  have one : Json.Plain (.int 1) := .int 1 ⟨by decide, by decide⟩
  have plain : ∀ f ∈ openedFields, Json.Plain f.2 :=
    List.forall_mem_cons.2 ⟨.str _, List.forall_mem_cons.2 ⟨.null, List.forall_mem_singleton.2
      (.arr _ (List.forall_mem_singleton.2 one))⟩⟩
  rw [← text]
  exact Json.written_text plain (by decide)

/-- The event is the same alone and in an array, where its fields are put in order. -/
theorem opened_read_as_in_array :
    Json.read? (Json.depthLimit - 1) (Glyph.ofString openedText) =
      some (.obj [("note", .null), ("payload", .arr [.int 1]), ("type", .str "Opened")]) ∧
    Log.StoredAs (Glyph.ofString openedText) [openedText] ∧
    Log.StoredAs (Glyph.ofString ("[" ++ openedText ++ "]"))
      ["\x7b\"note\":null,\"payload\":[1],\"type\":\"Opened\"\x7d"] ∧
    namedOnly.decodeText openedText =
      namedOnly.decodeText "\x7b\"note\":null,\"payload\":[1],\"type\":\"Opened\"\x7d" := by
  have merges : merged openedFields =
      [("note", .null), ("payload", .arr [.int 1]), ("type", .str "Opened")] := rfl
  have anew : (Json.obj (merged openedFields)).text =
      "\x7b\"note\":null,\"payload\":[1],\"type\":\"Opened\"\x7d" := by decide +kernel
  have read := written_opened.read? (Nat.le_refl _)
  have floatless : Json.Floatless (.obj (merged openedFields)) := by
    rw [merges]
    exact .obj _ (List.forall_mem_cons.2 ⟨.null, List.forall_mem_cons.2
      ⟨.arr _ (List.forall_mem_singleton.2 (.int 1)), List.forall_mem_singleton.2 (.str _)⟩⟩)
  obtain ⟨alone, stored, _, fields⟩ := lone_object_read_as_in_array read floatless
  obtain ⟨_, same⟩ := fields openedFields written_opened
  have same := (same namedOnly).1 (by decide) (by decide)
  rw [anew] at stored same
  exact ⟨merges ▸ read, alone, stored, same⟩

/-- A name that is given twice is found in an array alone. -/
theorem repeated_name_read_in_array_alone :
    ¬ ∀ (x : String) (ordered : List (String × Json)),
      Json.read? (Json.depthLimit - 1) (Glyph.ofString x) = some (.obj ordered) →
      Json.Floatless (.obj ordered) →
      ∀ {E : Type} (set : EventSet E),
        set.decodeText x = set.decodeText (Json.obj ordered).text := by
  intro alike
  have text : (Json.obj [("type", .str "E1"), ("type", .str "E1")]).text =
      "\x7b\"type\":\"E1\",\"type\":\"E1\"\x7d" := by decide +kernel
  have plain : ∀ f ∈ [("type", Json.str "E1"), ("type", Json.str "E1")], Json.Plain f.2 :=
    List.forall_mem_cons.2 ⟨.str _, List.forall_mem_singleton.2 (.str _)⟩
  have written : Written (Json.depthLimit - 1) _ _ := Json.written_text plain (by decide)
  rw [text] at written
  have merges : merged [("type", Json.str "E1"), ("type", Json.str "E1")] =
      [("type", .str "E1")] := rfl
  have read := written.read? (Nat.le_refl _)
  rw [merges] at read
  have same := alike _ _ read (.obj _ (List.forall_mem_singleton.2 (.str _))) namedOnly
  revert same
  decide +kernel

end EventSourcing
