import EventSourcing.Log.Memory
import EventSourcing.Proofs.Fiber.Trail
import Mathlib.Data.List.Induction

/-!
# Proofs.Log.Scanning -- what a scan shows

A scan never waits, and it goes in one of five ways (`scanned_iff_leads`): the version it was
given stands for no number, or for one at or behind the end of the log; or entries are shown one
after the other, with consecutive versions, until the last of them, until the context is found
interrupted before one, or until the visitor refuses one.  The numbers that versions stand for
are told without reference to how they are read (`Version.offset?_eq_some_iff`).
-/

namespace EventSourcing

set_option autoImplicit false

/-! ## The numbers that versions stand for -/

namespace Version

/-- Decimal digits, at least one, and the number that they stand for. -/
inductive Decimal : List Char → Nat → Prop where
  | one {c : Char} (digit : c.isDigit) : Decimal [c] (c.toNat - '0'.toNat)
  | more {cs : List Char} {n : Nat} {c : Char} (before : Decimal cs n) (digit : c.isDigit) :
      Decimal (cs ++ [c]) (10 * n + (c.toNat - '0'.toNat))

/-- A version stands for a number of 64 bits if it is that number in decimal, perhaps with zeros
in front, perhaps after a plus sign. -/
def StandsFor (v : Version) (n : Nat) : Prop :=
  n < Word.size 64 ∧
    (Decimal v.text.toList n ∨ ∃ digits, v.text.toList = '+' :: digits ∧ Decimal digits n)

theorem Decimal.ne_nil {cs : List Char} {n : Nat} (decimal : Decimal cs n) : cs ≠ [] := by
  cases decimal with
  | one => exact List.cons_ne_nil _ _
  | more => exact List.append_ne_nil_of_right_ne_nil _ (List.cons_ne_nil _ _)

theorem Decimal.digits {cs : List Char} {n : Nat} (decimal : Decimal cs n) :
    ∀ c ∈ cs, c.isDigit = true := by
  induction decimal with
  | one digit => exact List.forall_mem_singleton.2 digit
  | more _ digit ih => exact List.forall_mem_append.2 ⟨ih, List.forall_mem_singleton.2 digit⟩

theorem Decimal.value {cs : List Char} {n : Nat} (decimal : Decimal cs n) :
    Nat.ofDigitChars 10 cs 0 = n := by
  induction decimal with
  | one digit => simp only [Nat.ofDigitChars_cons, Nat.ofDigitChars_nil, Nat.mul_zero, Nat.zero_add]
  | more _ digit ih => rw [Nat.ofDigitChars_append, ih, Nat.ofDigitChars_cons, Nat.ofDigitChars_nil]

/-- Digits stand for the number that one gets by reading them from the left. -/
theorem decimal_ofDigitChars {cs : List Char} (filled : cs ≠ [])
    (digits : ∀ c ∈ cs, c.isDigit = true) :
    Decimal cs (Nat.ofDigitChars 10 cs 0) := by
  induction cs using List.reverseRecOn with
  | nil => exact (filled rfl).elim
  | append_singleton cs c ih =>
      obtain ⟨before, last⟩ := List.forall_mem_append.1 digits
      have digit : c.isDigit = true := last c (List.mem_singleton_self c)
      by_cases first : cs = []
      · subst first
        have decimal := Decimal.one digit
        simpa only [List.nil_append, Nat.ofDigitChars_cons, Nat.ofDigitChars_nil, Nat.mul_zero,
          Nat.zero_add] using decimal
      · rw [Nat.ofDigitChars_append, Nat.ofDigitChars_cons, Nat.ofDigitChars_nil]
        exact (ih first before).more digit

def unsigned (v : Version) : List Char :=
  match v.text.toList with
  | '+' :: rest => rest
  | cs => cs

theorem standsFor_iff_unsigned {v : Version} {n : Nat} :
    v.StandsFor n ↔ n < Word.size 64 ∧ Decimal v.unsigned n := by
  refine and_congr_right fun _ => ?_
  rw [unsigned]
  split
  · rename_i rest shape
    rw [shape]
    refine ⟨?_, fun decimal => .inr ⟨rest, rfl, decimal⟩⟩
    rintro (decimal | ⟨digits, same, decimal⟩)
    · exact absurd (decimal.digits '+' List.mem_cons_self) (by decide)
    · cases same
      exact decimal
  · rename_i other
    refine ⟨?_, .inl⟩
    rintro (decimal | ⟨digits, same, _⟩)
    · exact decimal
    · exact (other digits same).elim

theorem offset?_eq_unsigned (v : Version) :
    v.offset? =
      if v.unsigned.isEmpty || !v.unsigned.all Char.isDigit then none
      else if Nat.ofDigitChars 10 v.unsigned 0 < Word.size 64 then
        some (Nat.ofDigitChars 10 v.unsigned 0)
      else none :=
  rfl

/-- The numbers that are read off versions are those that they stand for. -/
theorem offset?_eq_some_iff {v : Version} {n : Nat} : v.offset? = some n ↔ v.StandsFor n := by
  have digits : (v.unsigned.isEmpty || !v.unsigned.all Char.isDigit) = true ↔
      ¬ (v.unsigned ≠ [] ∧ ∀ c ∈ v.unsigned, c.isDigit = true) := by
    rw [Bool.or_eq_true, List.isEmpty_iff, Bool.not_eq_true', ← Bool.not_eq_true,
      List.all_eq_true, Classical.not_and_iff_not_or_not, Classical.not_not]
  rw [standsFor_iff_unsigned, offset?_eq_unsigned]
  constructor
  · intro read
    split at read
    · cases read
    · rename_i wellFormed
      obtain ⟨filled, all⟩ := Classical.not_not.1 (mt digits.2 wellFormed)
      split at read
      · cases read
        exact ⟨by assumption, decimal_ofDigitChars filled all⟩
      · cases read
  · rintro ⟨fits, decimal⟩
    rw [if_neg fun malformed => digits.1 malformed ⟨decimal.ne_nil, decimal.digits⟩,
      decimal.value, if_pos fits]

theorem offset?_eq_none_iff {v : Version} : v.offset? = none ↔ ¬ ∃ n, v.StandsFor n := by
  simp only [← offset?_eq_some_iff, Option.eq_none_iff_forall_ne_some, not_exists, ne_eq]

theorem standsFor_ofNat {n : Nat} (fits : n < Word.size 64) : (ofNat n).StandsFor n :=
  offset?_eq_some_iff.1 (offset?_ofNat fits)

end Version

/-! ## Entries one after the other -/

namespace Log

def Record.entry (k : Nat) (r : Record) : Entry :=
  ⟨.ofNat k, .ofNat (k + 1), r.timestamp, r.payload⟩

theorem entriesAt_cons (k : Nat) (r : Record) (rest : List Record) :
    Memory.entriesAt k (r :: rest) = r.entry k :: Memory.entriesAt (k + 1) rest :=
  rfl

theorem entriesAt_append (k : Nat) (rs rs' : List Record) :
    Memory.entriesAt k (rs ++ rs') =
      Memory.entriesAt k rs ++ Memory.entriesAt (k + rs.length) rs' := by
  induction rs generalizing k with
  | nil => rfl
  | cons r rest ih =>
      rw [List.cons_append, entriesAt_cons, entriesAt_cons, ih, List.length_cons,
        Nat.add_right_comm, Nat.add_assoc, List.cons_append]

theorem length_entriesAt (k : Nat) (rs : List Record) :
    (Memory.entriesAt k rs).length = rs.length := by
  induction rs generalizing k with
  | nil => rfl
  | cons r rest ih => rw [entriesAt_cons, List.length_cons, ih, List.length_cons]

section

variable {W σ ε : Type} {clock : Part W Clock} {log : Part W Memory} {ctx : Context}
  {visitor : Visitor W σ ε} {s s' : σ} {failure : Option (ScanFailure ε)} {moves : List (Move W)}

variable (clock ctx visitor)

/-- Moves that show records to a visitor, one entry after the other.  Before each of them the
context is found live, and the visitor takes each with what it remembers of those before. -/
inductive Shows : Nat → List Record → σ → List (Move W) → σ → Prop where
  | nothing (k : Nat) (s : σ) : Shows k [] s [] s
  | next {k : Nat} {r : Record} {rest : List Record} {s s₁ s₂ : σ} {w w₁ w₂ : W}
      {moves : List (Move W)} (live : ctx.interruption? (clock.get w) = none)
      (took : visitor (r.entry k) s w₁ = (.ok s₁, w₂)) (later : Shows (k + 1) rest s₁ moves s₂) :
      Shows k (r :: rest) s (⟨w, w⟩ :: ⟨w₁, w₂⟩ :: moves) s₂

/-- How the showing of records ends when so many have not been shown: there are none, or the
context is found interrupted before the first of them, or the visitor refuses the first. -/
inductive Ends (k : Nat) (s : σ) :
    List Record → List (Move W) → Option (ScanFailure ε) → Prop where
  | last : Ends k s [] [] none
  | interrupted {r : Record} {rest : List Record} {w : W} {reason : Interruption}
      (found : ctx.interruption? (clock.get w) = some reason) :
      Ends k s (r :: rest) [⟨w, w⟩] (some (.interrupted reason))
  | refused {r : Record} {rest : List Record} {w w₁ w₂ : W} {e : ε}
      (live : ctx.interruption? (clock.get w) = none)
      (refuses : visitor (r.entry k) s w₁ = (.error e, w₂)) :
      Ends k s (r :: rest) [⟨w, w⟩, ⟨w₁, w₂⟩] (some (.visitor e))

variable {clock ctx visitor}

/-- The showing of records that has ended has shown the first of them, in order. -/
theorem shown_of_leads {k : Nat} {rs : List Record}
    (leads : (Memory.visit clock ctx visitor (Memory.entriesAt k rs) s).Leads moves
      (.done (failure, s'))) :
    ∃ shown left before last, rs = shown ++ left ∧ moves = before ++ last ∧
      Shows clock ctx visitor k shown s before s' ∧
      Ends clock ctx visitor (k + shown.length) s' left last failure := by
  induction rs generalizing k s moves with
  | nil =>
      obtain ⟨rfl, same⟩ := leads.of_done
      cases same
      exact ⟨[], [], [], [], rfl, rfl, .nothing k _, .last⟩
  | cons r rest ih =>
      rw [entriesAt_cons, Memory.visit] at leads
      obtain ⟨w, moves, rfl, looked⟩ := leads.first
      cases live : ctx.interruption? (clock.get w) with
      | some reason =>
          rw [live] at looked
          obtain ⟨rfl, same⟩ := looked.of_done
          cases same
          exact ⟨[], r :: rest, [], _, rfl, rfl, .nothing k _, .interrupted live⟩
      | none =>
          rw [live] at looked
          obtain ⟨w₁, moves, rfl, visited⟩ := looked.first
          rcases took : visitor (r.entry k) s w₁ with ⟨e | s₁, w₂⟩ <;> rw [took] at visited
          · obtain ⟨rfl, same⟩ := visited.of_done
            cases same
            exact ⟨[], r :: rest, [], _, rfl, rfl, .nothing k _, .refused live took⟩
          · obtain ⟨shown, left, before, last, rfl, rfl, shows, ends⟩ := ih visited
            refine ⟨r :: shown, left, _ :: _ :: before, last, rfl, rfl, .next live took shows, ?_⟩
            rw [List.length_cons, ← Nat.add_assoc, Nat.add_right_comm]
            exact ends

/-- Records that can be shown like that are shown like that. -/
theorem leads_of_shown {k : Nat} {shown left : List Record} {before last : List (Move W)}
    (shows : Shows clock ctx visitor k shown s before s')
    (ends : Ends clock ctx visitor (k + shown.length) s' left last failure) :
    (Memory.visit clock ctx visitor (Memory.entriesAt k (shown ++ left)) s).Leads (before ++ last)
      (.done (failure, s')) := by
  induction shows with
  | nothing k s =>
      cases ends with
      | last => exact .stay _
      | interrupted found => exact .move rfl (by rw [found]; exact .stay _)
      | refused live refuses =>
          refine .move rfl ?_
          rw [live]
          exact .move (congrArg some refuses) (.stay _)
  | @next k r rest s s₁ s₂ w w₁ w₂ moves live took _ ih =>
      rw [List.length_cons, ← Nat.add_assoc, Nat.add_right_comm] at ends
      refine .move rfl ?_
      rw [live]
      exact .move (congrArg some took) (ih ends)

/-- The showing of entries never waits. -/
theorem live_visit (entries : List Entry) (s : σ) :
    (Memory.visit clock ctx visitor entries s).Live := by
  induction entries generalizing s with
  | nil => exact Fiber.live_pure
  | cons entry rest ih =>
      refine Fiber.live_bind Fiber.live_atomic ?_
      rintro (_ | reason)
      · refine Fiber.live_bind Fiber.live_atomic ?_
        rintro (error | s₁)
        · exact Fiber.live_pure
        · exact ih s₁
      · exact Fiber.live_pure

/-! ## Scans -/

/-- So many of some records, or all of them if that is zero. -/
def limited (limit : Nat) (rs : List Record) : List Record :=
  if limit = 0 then rs else rs.take limit

variable (clock log ctx visitor)

/-- How a scan goes, and what it fails with. -/
inductive Scanned (start : Version) (limit : Nat) (s : σ) :
    List (Move W) → Option (ScanFailure ε) → σ → Prop where
  | malformed (w : W) (nothing : ¬ ∃ n, start.StandsFor n) :
      Scanned start limit s [⟨w, w⟩] (some (.log (.malformedVersion start.text))) s
  | outOfBound {n : Nat} (w : W) (stands : start.StandsFor n) (behind : (log.get w).size ≤ n) :
      Scanned start limit s [⟨w, w⟩]
        (some (.log (.offsetOutOfBound n (log.get w).size))) s
  | shown {n : Nat} {w : W} {shown left : List Record} {before last : List (Move W)}
      {failure : Option (ScanFailure ε)} {s' : σ} (stands : start.StandsFor n)
      (within : n < (log.get w).size)
      (all : limited limit ((log.get w).records.drop n) = shown ++ left)
      (shows : Shows clock ctx visitor n shown s before s')
      (ends : Ends clock ctx visitor (n + shown.length) s' left last failure) :
      Scanned start limit s (⟨w, w⟩ :: (before ++ last)) failure s'

variable {clock log ctx visitor} {start : Version} {limit : Nat}

theorem entriesFrom_of_nothing (m : Memory) (nothing : ¬ ∃ n, start.StandsFor n) :
    m.entriesFrom start limit = .error (.malformedVersion start.text) := by
  rw [Memory.entriesFrom, Memory.offsetOf, Version.offset?_eq_none_iff.2 nothing]

theorem entriesFrom_of_behind {m : Memory} {n : Nat} (stands : start.StandsFor n)
    (behind : m.size ≤ n) : m.entriesFrom start limit = .error (.offsetOutOfBound n m.size) := by
  rw [Memory.entriesFrom, Memory.offsetOf, Version.offset?_eq_some_iff.2 stands]
  exact if_pos behind

theorem entriesFrom_of_within {m : Memory} {n : Nat} (stands : start.StandsFor n)
    (within : n < m.size) :
    m.entriesFrom start limit = .ok (Memory.entriesAt n (limited limit (m.records.drop n))) := by
  rw [Memory.entriesFrom, Memory.offsetOf, Version.offset?_eq_some_iff.2 stands]
  exact if_neg (Nat.not_le.2 within)

/-- Scans that have ended went like that, and they can go in each of these ways. -/
theorem scanned_iff_leads :
    (Memory.scan clock log ctx start limit visitor s).Leads moves (.done (failure, s')) ↔
      Scanned clock log ctx visitor start limit s moves failure s' := by
  constructor
  · intro leads
    obtain ⟨w, moves, rfl, scanning⟩ := leads.first
    by_cases stands : ∃ n, start.StandsFor n
    · obtain ⟨n, stands⟩ := stands
      rcases Nat.lt_or_ge n (log.get w).size with within | behind
      · simp only [entriesFrom_of_within stands within] at scanning
        obtain ⟨shown, left, before, last, all, rfl, shows, ends⟩ := shown_of_leads scanning
        exact .shown stands within all shows ends
      · simp only [entriesFrom_of_behind stands behind] at scanning
        obtain ⟨rfl, same⟩ := scanning.of_done
        cases same
        exact .outOfBound w stands behind
    · simp only [entriesFrom_of_nothing _ stands] at scanning
      obtain ⟨rfl, same⟩ := scanning.of_done
      cases same
      exact .malformed w stands
  · intro scanned
    cases scanned with
    | malformed w nothing =>
        refine .move rfl ?_
        simp only [entriesFrom_of_nothing _ nothing]
        exact .stay _
    | outOfBound w stands behind =>
        refine .move rfl ?_
        simp only [entriesFrom_of_behind stands behind]
        exact .stay _
    | shown stands within all shows ends =>
        refine .move rfl ?_
        simp only [entriesFrom_of_within stands within, all]
        exact leads_of_shown shows ends

/-- A scan never waits. -/
theorem live_scan : (Memory.scan clock log ctx start limit visitor s).Live := by
  refine Fiber.live_bind Fiber.live_atomic ?_
  rintro (e | entries)
  · exact Fiber.live_pure
  · exact live_visit entries s

end

end Log

end EventSourcing
