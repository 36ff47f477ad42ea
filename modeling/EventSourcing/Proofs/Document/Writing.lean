import EventSourcing.Proofs.Document.Keyed

/-!
# Proofs.Document.Writing -- documents as texts

Every document can be written down: texts in quotes, declarations in their order, and nothing
where something is left out (`Document.written`).  What is written is read as the document that it
was (`Document.document?_written`).
-/

namespace EventSourcing.Document

set_option autoImplicit false

open EventSourcing.Yaml (Value)
open EventSourcing.Document.Reader

/-! ## Writing -/

section Writing

variable {α : Type} (write : α → Value)

/-- A text in quotes, which means nothing but the text. -/
def quote (text : String) : Value :=
  .scalar none text false

def writeTexts (texts : List String) : Value :=
  .sequence none (texts.map quote)

def writeNamed (decls : Named α) : Value :=
  .mapping none (decls.map fun decl => (quote decl.1, write decl.2))

def writeOption : Option α → Value
  | none => .scalar none "" true
  | some a => write a

def writeFields (fields : List (String × Value)) : Value :=
  writeNamed id fields

def Documentation.written : Documentation → Value
  | .text t => quote t
  | .lines ls => writeTexts ls

def Property.written : Property → Value
  | .type reference => quote reference
  | .documented reference doc =>
      writeFields [("type", quote reference), ("doc", writeOption Documentation.written doc)]

def Projection.written (p : Projection) : Value :=
  writeFields [
    ("states", writeTexts p.states),
    ("properties", writeOption (writeNamed Property.written) p.properties),
    ("createOn", quote p.createOn),
    ("transitions", writeOption (writeNamed writeTexts) p.transitions)]

def Method.written (m : Method) : Value :=
  writeFields [
    ("in", writeOption quote m.input),
    ("out", writeOption quote m.output),
    ("type", writeOption quote m.kind),
    ("emits", writeTexts m.emits)]

def Service.written (s : Service) : Value :=
  writeFields [
    ("projections", writeTexts s.projections),
    ("methods", writeOption (writeNamed (writeOption Method.written)) s.methods)]

def written (d : Document) : Value :=
  writeFields [
    ("events", writeOption (writeNamed (writeOption (writeNamed Property.written))) d.events),
    ("projections", writeOption (writeNamed Projection.written) d.projections),
    ("services", writeOption (writeNamed Service.written) d.services)]

end Writing

/-! ## Reading what is written -/

section Reading

variable {α : Type} {write : α → Value} {read : Value → Option α}

theorem mapM_map_eq {ξ : Type} {f : α → ξ} {g : ξ → Option α} {as : List α}
    (back : ∀ a ∈ as, g (f a) = some a) : (as.map f).mapM g = some as := by
  induction as with
  | nil => rfl
  | cons a rest ih =>
      obtain ⟨first, later⟩ := List.forall_mem_cons.1 back
      rw [List.map_cons, List.mapM_cons, first, ih later]
      rfl

theorem put_fresh {name : String} {a : α} {decls : Named α} (fresh : name ∉ names decls) :
    put name a decls = decls ++ [(name, a)] := by
  induction decls with
  | nil => rfl
  | cons decl rest ih =>
      obtain ⟨other, fresh⟩ := not_or.1 (mt List.mem_cons.2 fresh)
      rw [put, if_neg (Ne.symm other), ih fresh, List.cons_append]

theorem named_of_nodup {decls : Named α} (distinct : (names decls).Nodup) :
    named decls = decls := by
  induction decls using List.reverseRecOn with
  | nil => rfl
  | append_singleton before decl ih =>
      rw [names, List.map_append, List.map_singleton, List.nodup_append] at distinct
      obtain ⟨distinct, _, apart⟩ := distinct
      rw [named_concat, ih distinct, put_fresh]
      exact fun known => apart decl.1 known decl.1 (List.mem_singleton_self _) rfl

theorem texts?_writeTexts (texts : List String) : texts? (writeTexts texts) = some texts :=
  mapM_map_eq fun _ _ => rfl

theorem named?_writeNamed {decls : Named α} (distinct : (names decls).Nodup)
    (back : ∀ decl ∈ decls, read (write decl.2) = some decl.2) :
    named? read (writeNamed write decls) = some decls := by
  have pairs : (decls.map fun decl => (quote decl.1, write decl.2)).mapM
      (fun (e : Value × Value) => do return (← text? e.1, ← read e.2)) = some decls := by
    refine mapM_map_eq fun decl member => ?_
    dsimp only
    rw [back decl member]
    rfl
  simp only [named?, Option.bind_eq_bind, Option.bind_eq_some_iff]
  exact ⟨_, rfl, decls, pairs, congrArg some (named_of_nodup distinct)⟩

theorem fields?_writeFields {known : List String} {fields : List (String × Value)}
    (all : ∀ f ∈ fields, f.1 ∈ known) (distinct : (fields.map Prod.fst).Nodup) :
    fields? known (writeFields fields) = some fields := by
  have pairs : (fields.map fun f => (quote f.1, id f.2)).mapM
      (fun (e : Value × Value) => do return (← text? e.1, e.2)) = some fields :=
    mapM_map_eq fun _ _ => rfl
  have sound :
      (fields.all (fun f => known.contains f.1) && (fields.map Prod.fst).Nodup) = true := by
    simpa [distinct] using all
  simp only [fields?, Option.bind_eq_bind, Option.bind_eq_some_iff]
  exact ⟨_, rfl, fields, pairs, if_pos sound⟩

theorem optional?_writeOption {o : Option α}
    (solid : ∀ a, optional? read (write a) = (read (write a)).map some)
    (back : ∀ a ∈ o, read (write a) = some a) :
    optional? read (writeOption write o) = some o := by
  cases o with
  | none => rfl
  | some a => rw [writeOption, solid, back a rfl]; rfl

end Reading

theorem documentation?_written (doc : Option Documentation) :
    documentation? (writeOption Documentation.written doc) = some doc := by
  rcases doc with _ | t | ls
  · rfl
  · rfl
  · have lines : (ls.map quote).mapM meantText? = some ls := mapM_map_eq fun _ _ => rfl
    show ((ls.map quote).mapM meantText?).bind (fun ls => some (some (Documentation.lines ls))) = _
    rw [lines]
    rfl

theorem property?_written (p : Property) : property? p.written = some p := by
  cases p with
  | type reference => rfl
  | documented reference doc =>
      show (documentation? (writeOption Documentation.written doc)).bind
        (fun doc => some (Property.documented reference doc)) = _
      rw [documentation?_written]
      rfl

/-- Declarations that may be left out. -/
theorem optional?_named {α : Type} {write : α → Value} {read : Value → Option α}
    {decls : Option (Named α)} (distinct : (names (decls.getD [])).Nodup)
    (back : ∀ decl ∈ decls.getD [], read (write decl.2) = some decl.2) :
    optional? (named? read) (writeOption (writeNamed write) decls) = some decls := by
  refine optional?_writeOption (fun _ => rfl) fun named given => ?_
  cases given
  exact named?_writeNamed distinct back

theorem projection?_written {p : Projection} (properties : (names p.propertyDecls).Nodup)
    (transitions : (names p.transitionDecls).Nodup) : projection? p.written = some p := by
  have struct : fields? ["states", "properties", "createOn", "transitions"] p.written = some [
      ("states", writeTexts p.states),
      ("properties", writeOption (writeNamed Property.written) p.properties),
      ("createOn", quote p.createOn),
      ("transitions", writeOption (writeNamed writeTexts) p.transitions)] :=
    fields?_writeFields (by simp) (by simp)
  simp only [projection?, Option.bind_eq_bind, Option.bind_eq_some_iff]
  exact ⟨_, struct, p.states, texts?_writeTexts _, p.properties,
    optional?_named properties fun decl _ => property?_written decl.2, _, rfl, p.createOn, rfl,
    p.transitions, optional?_named transitions fun decl _ => texts?_writeTexts decl.2, rfl⟩

theorem method?_written (m : Method) : method? m.written = some m := by
  have struct : fields? ["in", "out", "type", "emits"] m.written = some [
      ("in", writeOption quote m.input), ("out", writeOption quote m.output),
      ("type", writeOption quote m.kind), ("emits", writeTexts m.emits)] :=
    fields?_writeFields (by simp) (by simp)
  have word (o : Option String) : optional? text? (writeOption quote o) = some o :=
    optional?_writeOption (fun _ => rfl) fun _ _ => rfl
  simp only [method?, Option.bind_eq_bind, Option.bind_eq_some_iff]
  exact ⟨_, struct, m.input, word m.input, m.output, word m.output, m.kind, word m.kind, m.emits,
    texts?_writeTexts _, rfl⟩

theorem service?_written {s : Service} (methods : (names s.methodDecls).Nodup) :
    service? s.written = some s := by
  have struct : fields? ["projections", "methods"] s.written = some [
      ("projections", writeTexts s.projections),
      ("methods", writeOption (writeNamed (writeOption Method.written)) s.methods)] :=
    fields?_writeFields (by simp) (by simp)
  rw [names_methodDecls] at methods
  have method (m : Option Method) : optional? method? (writeOption Method.written m) = some m :=
    optional?_writeOption (fun _ => rfl) fun m _ => method?_written m
  simp only [service?, Option.bind_eq_bind, Option.bind_eq_some_iff]
  exact ⟨_, struct, s.projections, texts?_writeTexts _, s.methods,
    optional?_named methods fun decl _ => method decl.2, rfl⟩

/-- What is written of a document is read as it. -/
theorem document?_written {d : Document} (keyed : d.Keyed) : document? d.written = some d := by
  have struct : fields? ["events", "projections", "services"] d.written = some [
      ("events", writeOption (writeNamed (writeOption (writeNamed Property.written))) d.events),
      ("projections", writeOption (writeNamed Projection.written) d.projections),
      ("services", writeOption (writeNamed Service.written) d.services)] :=
    fields?_writeFields (by simp) (by simp)
  have event : ∀ e ∈ d.eventDecls,
      optional? (named? property?) (writeOption (writeNamed Property.written) e.2) = some e.2 :=
    fun e member => optional?_named (keyed.eventProperties e member)
      fun decl _ => property?_written decl.2
  simp only [document?, Option.bind_eq_bind, Option.bind_eq_some_iff]
  exact ⟨_, struct, d.events, optional?_named keyed.events event,
    d.projections, optional?_named keyed.projections fun p member =>
      projection?_written (keyed.projectionProperties p member) (keyed.transitions p member),
    d.services, optional?_named keyed.services fun s member =>
      service?_written (keyed.methods s member), rfl⟩

end EventSourcing.Document
