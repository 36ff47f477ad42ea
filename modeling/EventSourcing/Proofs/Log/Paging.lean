import EventSourcing.Proofs.Fiber.Schedule
import EventSourcing.Proofs.Log.Scanning
import EventSourcing.Proofs.Log.Tiling

/-!
# Proofs.Log.Paging -- reading a log page by page

A reader scans a log with a limit, again and again, each time from the version after the last
entry that it has seen (`pages`).  Main statement: a scan calls its visitor on the entries from
where it starts, one after the other, and as long as the log stays as it is the pages make up
what a single scan shows (`scans_and_pages_agree`), wherever they cut the log.
-/

namespace EventSourcing.Log

set_option autoImplicit false

section

variable {W σ ε : Type}

/-- A visitor that never fails.  It does what it likes with an entry, and notes it. -/
def noting (take : Entry → σ → W → σ × W) : Visitor W (σ × List Entry) ε :=
  fun entry s w =>
    let (kept, w) := take entry s.1 w
    (.ok (kept, s.2 ++ [entry]), w)

/-- The version to go on from: that after the last entry seen. -/
def resumeAt (start : Version) (seen : List Entry) : Version :=
  (seen.getLast?.map Entry.next).getD start

variable (clock : Part W Clock) (log : Part W Memory) (ctx : Context)

/-- Scans page by page with the limits given, until there are no more of them or a scan fails.
Each page starts after the last entry seen. -/
def pages (take : Entry → σ → W → σ × W) :
    List Nat → Version → σ × List Entry → Fiber W (Option (ScanFailure ε) × σ × List Entry)
  | [], _, s => pure (none, s)
  | limit :: limits, start, s => do
      match ← Memory.scan clock log ctx start limit (noting take) s with
      | (some failure, s) => return (some failure, s)
      | (none, s) => pages take limits (resumeAt start s.2) s

/-- Moves that are made while the log is as given and the context is live. -/
def Undisturbed (m : Memory) (moves : List (Move W)) : Prop :=
  ∀ mv ∈ moves, log.get mv.before = m ∧ ctx.interruption? (clock.get mv.before) = none

/-- A scan that reports that there is nothing at or after its start. -/
def ReportsEnd (m : Memory) (failure : Option (ScanFailure ε)) : Prop :=
  ∃ offset, failure = some (.log (.offsetOutOfBound offset m.size))

end

section

variable {W σ ε : Type} {clock : Part W Clock} {log : Part W Memory} {ctx : Context}
  {take : Entry → σ → W → σ × W} {m : Memory} {moves : List (Move W)} {s s' : σ × List Entry}
  {failure : Option (ScanFailure ε)} {start : Version} {n : Nat} {limit : Nat} {limits : List Nat}

/-! ## One page -/

/-- Whatever is shown is noted. -/
theorem noted_of_shows {k : Nat} {rs : List Record}
    (shows : Shows (ε := ε) clock ctx (noting take) k rs s moves s') :
    s'.2 = s.2 ++ Memory.entriesAt k rs := by
  induction shows with
  | nothing k s => exact (List.append_nil _).symm
  | @next k r rest s s₁ s₂ w w₁ w₂ moves live took _ ih =>
      have noted : s₁.2 = s.2 ++ [r.entry k] := by
        cases took
        rfl
      rw [ih, noted, List.append_assoc, entriesAt_cons, List.singleton_append]

/-- Where the context is live, a visitor that never fails is shown everything. -/
theorem all_of_ends {k : Nat} {left : List Record}
    (ends : Ends clock ctx (noting take) k s left moves failure)
    (live : ∀ mv ∈ moves, ctx.interruption? (clock.get mv.before) = none) :
    left = [] ∧ failure = none := by
  cases ends with
  | last => exact ⟨rfl, rfl⟩
  | interrupted found =>
      have live : ctx.interruption? (clock.get _) = none := live _ List.mem_cons_self
      rw [live] at found
      cases found
  | refused _ refuses => cases refuses

/-- An undisturbed page notes the next entries up to its limit, or reports that there are none. -/
theorem page_of_leads (stands : start.StandsFor n)
    (undisturbed : Undisturbed clock log ctx m moves)
    (leads : (Memory.scan clock log ctx start limit (noting take) s).Leads moves
      (.done (failure, s'))) :
    (m.size ≤ n ∧ failure = some (.log (.offsetOutOfBound n m.size)) ∧ s'.2 = s.2) ∨
      n < m.size ∧ failure = none ∧
        s'.2 = s.2 ++ Memory.entriesAt n (limited limit (m.records.drop n)) := by
  have same {n' : Nat} (stands' : start.StandsFor n') : n' = n :=
    Option.some.inj ((Version.offset?_eq_some_iff.2 stands').symm.trans
      (Version.offset?_eq_some_iff.2 stands))
  cases scanned_iff_leads.1 leads with
  | malformed w nothing => exact (nothing ⟨n, stands⟩).elim
  | outOfBound w stands' behind =>
      obtain rfl := same stands'
      obtain ⟨rfl, _⟩ := undisturbed _ List.mem_cons_self
      exact .inl ⟨behind, rfl, rfl⟩
  | shown stands' within all shows ends =>
      obtain rfl := same stands'
      obtain ⟨⟨rfl, _⟩, later⟩ := List.forall_mem_cons.1 undisturbed
      obtain ⟨rfl, rfl⟩ := all_of_ends ends fun mv member =>
        (later mv (List.mem_append_right _ member)).2
      rw [List.append_nil] at all
      refine .inr ⟨within, rfl, ?_⟩
      rw [noted_of_shows shows, all]

/-- Once some entries have been seen, the version to go on from is that behind them. -/
theorem resumeAt_entriesAt (seen : List Entry) {k : Nat} {rs : List Record} (filled : rs ≠ []) :
    resumeAt start (seen ++ Memory.entriesAt k rs) = .ofNat (k + rs.length) := by
  obtain empty | ⟨front, r, rfl⟩ := List.eq_nil_or_concat rs
  · exact (filled empty).elim
  · rw [List.concat_eq_append, entriesAt_append, ← List.append_assoc, entriesAt_cons,
      Memory.entriesAt, resumeAt, List.getLast?_concat, List.length_append]
    rfl

/-- A page with a limit takes the first of some records and leaves the others. -/
theorem limited_append_drop (rs : List Record) (positive : 0 < limit) :
    limited limit rs ++ rs.drop (limited limit rs).length = rs := by
  rw [limited, if_neg (Nat.ne_of_gt positive), List.length_take]
  rcases Nat.le_total limit rs.length with cut | all
  · rw [Nat.min_eq_left cut, List.take_append_drop]
  · rw [Nat.min_eq_right all, List.take_of_length_le all, List.drop_length, List.append_nil]

theorem limited_ne_nil {rs : List Record} (positive : 0 < limit) (filled : rs ≠ []) :
    limited limit rs ≠ [] := by
  rw [limited, if_neg (Nat.ne_of_gt positive), Ne, List.take_eq_nil_iff, not_or]
  exact ⟨Nat.ne_of_gt positive, filled⟩

/-! ## Page after page -/

/-- Undisturbed pages of at least one entry each note one part of the rest of the log after the
other.  Either the last of them reports that it is at the end, and everything has been noted; or
the limits are used up. -/
theorem noted_of_pages (fits : m.size < Word.size 64) (positive : ∀ limit ∈ limits, 0 < limit)
    (stands : start.StandsFor n) (undisturbed : Undisturbed clock log ctx m moves)
    (leads : (pages clock log ctx take limits start s).Leads moves (.done (failure, s'))) :
    (ReportsEnd m failure ∧ s'.2 = s.2 ++ Memory.entriesAt n (m.records.drop n)) ∨
      failure = none ∧ ∃ shown, shown <+: m.records.drop n ∧ limits.length ≤ shown.length ∧
        s'.2 = s.2 ++ Memory.entriesAt n shown := by
  induction limits generalizing start n s moves with
  | nil =>
      obtain ⟨_, same⟩ := leads.of_done
      cases same
      exact .inr ⟨rfl, [], List.nil_prefix, Nat.zero_le _, (List.append_nil _).symm⟩
  | cons limit limits ih =>
      obtain ⟨filled, positive⟩ := List.forall_mem_cons.1 positive
      rw [pages] at leads
      obtain ⟨⟨found, s₁⟩, first, rest, scanned, on, rfl⟩ := leads.parts
      obtain ⟨during, after⟩ := List.forall_mem_append.1 undisturbed
      rcases page_of_leads stands during scanned with ⟨behind, rfl, kept⟩ | ⟨within, rfl, noted⟩
      · obtain ⟨_, same⟩ := on.of_done
        cases same
        refine .inl ⟨⟨n, rfl⟩, ?_⟩
        rw [kept, List.drop_eq_nil_of_le behind]
        exact (List.append_nil _).symm
      · have page := limited_append_drop (m.records.drop n) filled
        have shown : limited limit (m.records.drop n) ≠ [] :=
          limited_ne_nil filled (mt List.drop_eq_nil_iff.1 (Nat.not_le.2 within))
        generalize limited limit (m.records.drop n) = part at noted page shown
        rw [List.drop_drop] at page
        have reached : (Version.ofNat (n + part.length)).StandsFor (n + part.length) := by
          have length := congrArg List.length page
          rw [List.length_append, List.length_drop, List.length_drop] at length
          refine Version.standsFor_ofNat (Nat.lt_of_le_of_lt ?_ fits)
          rw [Memory.size] at within ⊢
          omega
        dsimp only at on
        rw [noted, resumeAt_entriesAt s.2 shown] at on
        have more : 0 < part.length := List.length_pos_iff.2 shown
        rcases ih positive reached after on with ⟨ended, all⟩ | ⟨rfl, later, initial, enough, all⟩
        · refine .inl ⟨ended, ?_⟩
          rw [all, noted, List.append_assoc, ← entriesAt_append, page]
        · refine .inr ⟨rfl, part ++ later, ?_, ?_, ?_⟩
          · rw [← page]
            exact (List.prefix_append_right_inj part).2 initial
          · rw [List.length_append, List.length_cons]
            omega
          · rw [all, noted, List.append_assoc, ← entriesAt_append]

/-- An undisturbed scan without a limit notes everything from where it starts. -/
theorem noted_of_scan (stands : start.StandsFor n) (undisturbed : Undisturbed clock log ctx m moves)
    (leads : (Memory.scan clock log ctx start 0 (noting take) s).Leads moves
      (.done (failure, s'))) :
    s'.2 = s.2 ++ Memory.entriesAt n (m.records.drop n) := by
  rcases page_of_leads stands undisturbed leads with ⟨behind, _, kept⟩ | ⟨_, _, noted⟩
  · rw [kept, List.drop_eq_nil_of_le behind]
    exact (List.append_nil _).symm
  · exact noted

/-- Reading page by page never waits. -/
theorem live_pages : (pages (ε := ε) clock log ctx take limits start s).Live := by
  induction limits generalizing start s with
  | nil => exact Fiber.live_pure
  | cons limit limits ih =>
      refine Fiber.live_bind live_scan ?_
      rintro ⟨_ | failure, s₁⟩
      · exact ih
      · exact Fiber.live_pure

end

/-- Scanning and paging agree.

A scan never waits.  It fails as malformed exactly if its version stands for no number of 64 bits,
and as out of bound exactly if that number is at or behind the end of the log when the scan begins;
otherwise the visitor is called on the entries from that number on, in order and each once, with
their consecutive versions, until the last of them, the limit, the first look that finds the
context interrupted, or the first refusal (`Scanned`).

Now let a log stay as it is and a context stay live, let a visitor never fail, and let a log be
read with any positive limits, page by page, each page from the version after the last entry seen.
Then what has been seen is always the first part of what a single scan without a limit shows, and
nothing fails but for the report that the end has been reached.  Once that is reported, everything
has been seen, with the same versions; and it is reported as soon as there are more pages than
entries.  The log has fewer than `2 ^ 64` entries, so that all versions stand for numbers. -/
theorem scans_and_pages_agree {W σ ε : Type} (clock : Part W Clock) (log : Part W Memory)
    (ctx : Context) (start : Version) :
    (∀ (limit : Nat) (visitor : Visitor W σ ε) (s : σ),
      (Memory.scan clock log ctx start limit visitor s).Live ∧
      ∀ (moves : List (Move W)) (failure : Option (ScanFailure ε)) (s' : σ),
        (Memory.scan clock log ctx start limit visitor s).Leads moves (.done (failure, s')) ↔
          Scanned clock log ctx visitor start limit s moves failure s') ∧
    ∀ (take : Entry → σ → W → σ × W) (limits : List Nat) (m : Memory) (kept : σ),
      m.size < Word.size 64 → (∀ limit ∈ limits, 0 < limit) → (∃ n, start.StandsFor n) →
      (pages (ε := ε) clock log ctx take limits start (kept, [])).Live ∧
      ∀ (moves moves' : List (Move W)) (failure failure' : Option (ScanFailure ε))
        (s s' : σ × List Entry),
        Undisturbed clock log ctx m moves → Undisturbed clock log ctx m moves' →
        (pages clock log ctx take limits start (kept, [])).Leads moves (.done (failure, s)) →
        (Memory.scan clock log ctx start 0 (noting take) (kept, [])).Leads moves'
          (.done (failure', s')) →
        s.2 <+: s'.2 ∧ (failure = none ∨ ReportsEnd m failure) ∧
          (ReportsEnd m failure → s.2 = s'.2) ∧
          (s'.2.length < limits.length → ReportsEnd m failure) := by
  refine ⟨fun limit visitor s => ⟨live_scan, fun moves failure s' => scanned_iff_leads⟩, ?_⟩
  rintro take limits m kept fits positive ⟨n, stands⟩
  refine ⟨live_pages, fun moves moves' failure failure' s s' calm calm' paged scanned => ?_⟩
  have whole : s'.2 = Memory.entriesAt n (m.records.drop n) := noted_of_scan stands calm' scanned
  rcases noted_of_pages fits positive stands calm paged with ⟨ended, all⟩ |
    ⟨rfl, shown, initial, enough, part⟩
  · have same : s.2 = s'.2 := all.trans whole.symm
    exact ⟨same ▸ List.prefix_rfl, .inr ended, fun _ => same, fun _ => ended⟩
  · obtain ⟨rest, made⟩ := initial
    rw [List.nil_append] at part
    rw [← made, entriesAt_append, ← part] at whole
    refine ⟨⟨_, whole.symm⟩, .inl rfl, ?_, ?_⟩
    · rintro ⟨offset, same⟩
      cases same
    · intro more
      have seen : s.2.length = shown.length := part ▸ length_entriesAt n shown
      have fewer : s.2.length ≤ s'.2.length := List.IsPrefix.length_le ⟨_, whole.symm⟩
      omega

/-! ### Three entries and three pages -/

/-- A log of three entries. -/
def shelf : Memory :=
  ⟨[⟨1, "a"⟩, ⟨2, "b"⟩, ⟨3, "c"⟩]⟩

/-- The two ways to read the shelf from its second entry on. -/
inductive Reading : Type 1 where
  | paged
  | whole

def Reading.Result (_ : Reading) : Type :=
  Option (ScanFailure Empty) × Unit × List Entry

def Reading.take (_ : Entry) (_ : Unit) (w : Desk) : Unit × Desk :=
  ((), w)

def Reading.answer : (r : Reading) → Fiber Desk r.Result
  | paged => pages deskClock deskLog ⟨0, none⟩ take [1, 4, 1] ⟨"+01"⟩ ((), [])
  | whole => Memory.scan deskClock deskLog ⟨0, none⟩ ⟨"+01"⟩ 0 (noting take) ((), [])

/-- First the pages, then the scan. -/
def turns : List (Cue Reading) :=
  [.start .paged, .start .whole] ++ List.replicate 7 (.turn 0) ++ List.replicate 5 (.turn 1)

def readings : @Pool Desk Reading Reading.Result :=
  Pool.play Reading.answer turns ⟨(.start, shelf), []⟩

theorem reachable_readings :
    Pool.Reachable Reading.answer (fun _ => True) (fun _ _ => False) (.start, shelf) readings :=
  Pool.reachable_play (fun _ _ => trivial) .refl

/-- Nobody writes to the log, and nobody interrupts. -/
theorem undisturbed_readings {task : Task Desk Reading.Result} (member : task ∈ readings.tasks) :
    Undisturbed deskClock deskLog ⟨0, none⟩ shelf task.moves := by
  have calm : readings.tasks.all (fun task => task.moves.all fun mv =>
      mv.before.2 == shelf && (Context.interruption? ⟨0, none⟩ mv.before.1).isNone) = true := by
    decide +kernel
  intro mv made
  have calm := List.all_eq_true.1 (List.all_eq_true.1 calm task member) mv made
  rw [Bool.and_eq_true, beq_iff_eq, Option.isNone_iff_eq_none] at calm
  exact calm

def endOfShelf : Option (ScanFailure Empty) → Bool
  | some (.log (.offsetOutOfBound _ tip)) => tip == shelf.size
  | _ => false

theorem reportsEnd_of_endOfShelf {failure : Option (ScanFailure Empty)}
    (found : endOfShelf failure) : ReportsEnd shelf failure := by
  match failure, found with
  | some (.log (.offsetOutOfBound offset tip)), found => exact ⟨offset, by rw [beq_iff_eq.1 found]⟩

/-- Whether a reading has ended as it should: the pages with the report that this is the end. -/
def Reading.finished : (r : Reading) → r.Result → Bool
  | paged, (failure, _) => endOfShelf failure
  | whole, (_, _, seen) => seen == [⟨⟨"1"⟩, ⟨"2"⟩, 2, "b"⟩, ⟨⟨"2"⟩, ⟨"3"⟩, 3, "c"⟩]

/-- Pages of one entry show the second and the third, and then that there are no more. -/
theorem paged_shelf : ∃ moves failure s,
    (Reading.answer .paged).Leads moves (.done (failure, s)) ∧ ReportsEnd shelf failure ∧
      s.2 = [⟨⟨"1"⟩, ⟨"2"⟩, 2, "b"⟩, ⟨⟨"2"⟩, ⟨"3"⟩, 3, "c"⟩] := by
  have ended : (readings.tasks[0]?).any (Task.endedWith Reading.finished) := by decide +kernel
  have ended' : (readings.tasks[1]?).any (Task.endedWith Reading.finished) := by decide +kernel
  obtain ⟨moves, ⟨failure, s⟩, member, reported⟩ :=
    Pool.ended_play (show (Pool.requests turns)[0]? = some .paged from rfl) ended
  obtain ⟨moves', ⟨failure', s'⟩, member', whole⟩ :=
    Pool.ended_play (show (Pool.requests turns)[1]? = some .whole from rfl) ended'
  have leads := Pool.leads_of_reachable reachable_readings _ member
  have stands : (⟨"+01"⟩ : Version).StandsFor 1 :=
    Version.offset?_eq_some_iff.1 (by decide +kernel)
  obtain ⟨_, agree⟩ := (scans_and_pages_agree (ε := Empty) deskClock deskLog ⟨0, none⟩ ⟨"+01"⟩).2
    Reading.take [1, 4, 1] shelf () (by decide +kernel) (by decide) ⟨1, stands⟩
  obtain ⟨_, _, same, _⟩ := agree _ _ _ _ _ _ (undisturbed_readings member)
    (undisturbed_readings member') leads (Pool.leads_of_reachable reachable_readings _ member')
  have report := reportsEnd_of_endOfShelf reported
  exact ⟨moves, failure, s, leads, report, (same report).trans (beq_iff_eq.1 whole)⟩

end EventSourcing.Log
