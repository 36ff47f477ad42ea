import EventSourcing.Source.Grammar.File

/-!
# Proofs.Source.Taking -- what the phrases of an item take

A phrase leaves the last of the trees ahead (`Takes`), and what it gives may be known whatever it
takes (`Gives`); both carry over from its parts.  The attributes before an item are read one after
the other (`AttributesTo`), and whoever reads some of them reads the first of all
(`AttributesTo.split`).  Main statement: what the rest of an item gives is a type with exactly the
attributes before it, or a module whose items are those of the last group taken, or nothing of
interest (`itemRest_from`).
-/

namespace EventSourcing.Source

set_option autoImplicit false

namespace Phrase

variable {α β : Type} {p q : Phrase α} {f : α → Phrase β} {input rest : List Tree}

theorem bind_eq_some {b : β} :
    (p >>= f) input = some (b, rest) ↔
      ∃ a between, p input = some (a, between) ∧ f a between = some (b, rest) := by
  show (p input).bind (fun x => f x.1 x.2) = _ ↔ _
  rw [Option.bind_eq_some_iff, Prod.exists]

/-! ## What a phrase gives -/

/-- Whatever a phrase gives has a property. -/
def Gives (p : Phrase α) (P : α → Prop) : Prop :=
  ∀ input rest a, p input = some (a, rest) → P a

theorem gives_pure {P : α → Prop} {a : α} (holds : P a) : Gives (pure a) P := by
  intro input rest _ given
  cases given
  exact holds

theorem gives_bind {P : β → Prop} (each : ∀ a, Gives (f a) P) : Gives (p >>= f) P := by
  intro input rest b given
  obtain ⟨a, between, _, second⟩ := bind_eq_some.1 given
  exact each a _ _ _ second

/-! ## What a phrase leaves -/

/-- What a phrase leaves are the last of the trees ahead. -/
def Takes (p : Phrase α) : Prop :=
  ∀ input rest a, p input = some (a, rest) → rest <:+ input

theorem takes_pure {a : α} : Takes (pure a) := by
  intro input rest _ given
  cases given
  exact List.suffix_rfl

theorem takes_bind (first : Takes p) (each : ∀ a, Takes (f a)) : Takes (p >>= f) := by
  intro input rest b given
  obtain ⟨a, between, taken, second⟩ := bind_eq_some.1 given
  exact (each a _ _ _ second).trans (first _ _ _ taken)

theorem takes_ite {c : Prop} [Decidable c] (yes : Takes p) (no : Takes q) :
    Takes (if c then p else q) := by
  split
  · exact yes
  · exact no

theorem takes_fail : Takes (fail : Phrase α) := by
  intro input rest a given
  cases given

theorem takes_sees {test : List Tree → Bool} : Takes (sees test) := by
  intro input rest a given
  cases given
  exact List.suffix_rfl

theorem takes_demand {test : List Tree → Bool} : Takes (demand test) := by
  intro input rest a given
  rw [demand] at given
  split at given
  · cases given
    exact List.suffix_rfl
  · cases given

theorem takes_skip {n : Nat} : Takes (skip n) := by
  intro input rest a given
  cases given
  exact List.drop_suffix n input

theorem takes_expect {test : List Tree → Bool} {n : Nat} : Takes (expect test n) :=
  takes_bind takes_demand fun _ => takes_skip

theorem takes_accept {test : List Tree → Bool} {n : Nat} : Takes (accept test n) :=
  takes_bind takes_sees fun _ =>
    takes_ite (takes_bind takes_skip fun _ => takes_pure) takes_pure

theorem takes_anyWord : Takes anyWord := by
  intro input rest a given
  rw [anyWord.eq_def] at given
  split at given
  · cases given
    exact List.suffix_cons _ _
  · cases given

theorem takes_name : Takes name :=
  takes_bind takes_demand fun _ => takes_anyWord

theorem group_eq_some {d : Delimiter} {trees : List Tree} :
    group d input = some (trees, rest) ↔ input = .group d trees :: rest := by
  rw [group.eq_def]
  split
  · split
    · simp_all
    · simp_all [eq_comm]
  · simp_all

theorem takes_group {d : Delimiter} : Takes (group d) := by
  intro input rest trees given
  rw [group_eq_some.1 given]
  exact List.suffix_cons _ _

/-- A phrase that makes up the inside of a group takes the group. -/
theorem inside_eq_some {d : Delimiter} {a : α} :
    inside d p input = some (a, rest) ↔
      ∃ trees, input = .group d trees :: rest ∧ whole p trees = some a := by
  rw [inside, bind_eq_some]
  constructor
  · rintro ⟨trees, between, taken, given⟩
    cases read : whole p trees with
    | none =>
        rw [read] at given
        cases given
    | some a' =>
        rw [read] at given
        cases given
        exact ⟨trees, group_eq_some.1 taken, read⟩
  · rintro ⟨trees, rfl, read⟩
    refine ⟨trees, rest, group_eq_some.2 rfl, ?_⟩
    rw [read]
    rfl

theorem takes_inside {d : Delimiter} : Takes (inside d p) := by
  intro input rest a given
  obtain ⟨trees, rfl, _⟩ := inside_eq_some.1 given
  exact List.suffix_cons _ _

theorem whole_eq_some {a : α} {trees : List Tree} :
    whole p trees = some a ↔ p trees = some (a, []) := by
  rw [whole]
  split <;> simp_all

end Phrase

open Phrase

variable {g : Grammar}

/-! ## The attributes of an item -/

/-- Some attributes are read one after the other. -/
inductive AttributesTo (g : Grammar) : List Tree → List Attribute → List Tree → Prop where
  | none {input : List Tree} : AttributesTo g input [] input
  | next {input between rest : List Tree} {a : Attribute} {later : List Attribute}
      (reads : g.outerAttribute input = some (a, between))
      (onward : AttributesTo g between later rest) : AttributesTo g input (a :: later) rest

namespace AttributesTo

variable {input between rest : List Tree} {attributes later : List Attribute}

theorem append (first : AttributesTo g input attributes between)
    (second : AttributesTo g between later rest) :
    AttributesTo g input (attributes ++ later) rest := by
  induction first with
  | none => exact second
  | next reads _ ih => exact .next reads (ih second)

/-- An attribute begins with its mark. -/
theorem marked_of_reads {a : Attribute} (reads : g.outerAttribute input = some (a, rest)) :
    Ahead.punct "#" input = true := by
  obtain ⟨_, _, mark, _⟩ := bind_eq_some.1 reads
  obtain ⟨_, _, demanded, _⟩ := bind_eq_some.1 mark
  rw [demand] at demanded
  split at demanded
  · assumption
  · cases demanded

/-- All attributes are read before something that does not begin with their mark. -/
theorem of_outerAttributes (read : g.outerAttributes input = some (attributes, rest)) :
    AttributesTo g input attributes rest ∧ Ahead.punct "#" rest = false := by
  rw [Grammar.outerAttributes, whileSeen] at read
  generalize input.length + 1 = turns at read
  induction turns generalizing input attributes with
  | zero => cases read
  | succ turns ih =>
      obtain ⟨seen, _, sees_mark, read⟩ := bind_eq_some.1 read
      cases sees_mark
      split at read
      · obtain ⟨a, between, reads, read⟩ := bind_eq_some.1 read
        obtain ⟨later, _, read_later, given⟩ := bind_eq_some.1 read
        cases given
        obtain ⟨onward, ends⟩ := ih read_later
        exact ⟨.next reads onward, ends⟩
      · rename_i unmarked
        cases read
        exact ⟨.none, Bool.not_eq_true _ ▸ unmarked⟩

/-- Who reads some attributes reads the first of all, and the others are those that are read from
there. -/
theorem split (all : AttributesTo g input attributes rest) (ends : Ahead.punct "#" rest = false)
    {front : List Attribute} (first : AttributesTo g input front between) :
    ∃ others, attributes = front ++ others ∧ AttributesTo g between others rest := by
  induction first generalizing attributes with
  | none => exact ⟨attributes, rfl, all⟩
  | next reads _ ih =>
      cases all with
      | none =>
          rw [marked_of_reads reads] at ends
          cases ends
      | next reads' onward =>
          cases reads.symm.trans reads'
          obtain ⟨others, rfl, behind⟩ := ih onward
          exact ⟨others, rfl, behind⟩

theorem suffix (all : AttributesTo g input attributes rest) : rest <:+ input := by
  induction all with
  | none => exact List.suffix_rfl
  | next reads _ ih =>
      exact ih.trans (takes_bind takes_expect (fun _ => takes_inside) _ _ _ reads)

end AttributesTo

/-! ## Items behind their attributes -/

/-- An item that holds no others, and has the given attributes if it is a type. -/
def Item.IsPlain (attributes : List Attribute) : Item → Prop
  | .type _ _ _ own => own = attributes
  | .module _ _ => False
  | .other => True

/-- What an item is that is read from some trees behind its attributes.  The items of a module are
those of the last group taken. -/
inductive Item.From (g : Grammar) (attributes : List Attribute) :
    List Tree → Item → List Tree → Prop where
  | plain {input rest : List Tree} {item : Item} (plain : item.IsPlain attributes) :
      From g attributes input item rest
  | module {front inner rest : List Tree} {name : String} {items : List Item}
      (within : whole (do g.innerAttributes; toEnd g.item) inner = some items) :
      From g attributes (front ++ .group .brace inner :: rest) (.module name items) rest

/-- Whatever item a phrase gives is read so from what the phrase takes. -/
def Phrase.Reads (g : Grammar) (attributes : List Attribute) (p : Phrase Item) : Prop :=
  ∀ input rest item, p input = some (item, rest) → Item.From g attributes input item rest

namespace Phrase

variable {α : Type} {attributes : List Attribute}

theorem reads_of_gives {p : Phrase Item} (gives : Gives p (Item.IsPlain attributes)) :
    Reads g attributes p :=
  fun _ _ _ given => .plain (gives _ _ _ given)

theorem reads_bind {p : Phrase α} {f : α → Phrase Item} (takes : Takes p)
    (each : ∀ a, Reads g attributes (f a)) : Reads g attributes (p >>= f) := by
  intro input rest item given
  obtain ⟨a, between, first, second⟩ := bind_eq_some.1 given
  obtain ⟨front, rfl⟩ := takes _ _ _ first
  rcases each a _ _ _ second with plain | within
  · exact .plain plain
  · rw [← List.append_assoc]
    exact .module within

theorem reads_ite {c : Prop} [Decidable c] {p q : Phrase Item} (yes : Reads g attributes p)
    (no : Reads g attributes q) : Reads g attributes (if c then p else q) := by
  split
  · exact yes
  · exact no

end Phrase

theorem takes_visibility : Takes Grammar.visibility := by
  refine takes_bind takes_accept fun _ =>
    takes_ite takes_pure (takes_bind takes_sees fun given => ?_)
  cases given with
  | true => exact takes_bind takes_group fun _ => takes_pure
  | false =>
      exact takes_bind takes_sees fun _ =>
        takes_ite (takes_bind takes_fail fun _ => takes_pure) takes_pure

variable {attributes : List Attribute}

theorem reads_moduleDeclaration : Reads g attributes g.moduleDeclaration := by
  have named (named : String × Position) : Reads g attributes (do
      if ← punct? ";" then
        return .other
      let items ← inside .brace do
        g.innerAttributes
        toEnd g.item
      return .module named.1 items) := by
    refine reads_bind takes_accept fun _ => reads_ite (reads_of_gives (gives_pure trivial)) ?_
    intro input rest item given
    obtain ⟨items, between, taken, given⟩ := bind_eq_some.1 given
    cases given
    obtain ⟨inner, rfl, within⟩ := inside_eq_some.1 taken
    show Item.From g attributes ([] ++ .group .brace inner :: rest) _ rest
    exact .module within
  exact reads_bind takes_accept fun _ => reads_bind takes_expect fun _ =>
    reads_bind takes_sees fun _ => reads_ite (reads_bind takes_anyWord named)
      (reads_bind takes_name named)

theorem itemRest_from {input rest : List Tree} {item : Item}
    (read : g.itemRest attributes input = some (item, rest)) :
    Item.From g attributes input item rest := by
  have other : Gives (pure Item.other) (Item.IsPlain attributes) := gives_pure trivial
  suffices reads : Reads g attributes (g.itemRest attributes) from reads _ _ _ read
  unfold Grammar.itemRest
  refine reads_bind takes_visibility fun visible => ?_
  dsimp only
  -- Every branch looks ahead, and then a module is read, or what is given depends on nothing taken.
  repeat' first
    | exact reads_moduleDeclaration
    | refine reads_bind takes_sees fun _ => ?_
    | refine reads_bind takes_demand fun _ => ?_
    | refine reads_ite ?_ ?_
    | refine reads_of_gives ?_
    | exact other
    | refine gives_bind fun _ => ?_
  · refine gives_pure ?_
    split
    · rfl
    · trivial
  · exact gives_pure rfl

end EventSourcing.Source
