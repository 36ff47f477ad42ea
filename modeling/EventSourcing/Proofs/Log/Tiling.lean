import EventSourcing.Proofs.Fiber.Schedule
import EventSourcing.Proofs.Log.Callers
import Mathlib.Data.List.Nodup

/-!
# Proofs.Log.Tiling -- successful appends tile the log

Any number of callers append to one log, some in any case and some only if nothing has come
between, and their moves come in any order.  The ranges that the successful calls return lie
one behind the other and fill the log, and each holds what its call has sent.  Main statement:
`successful_appends_tile`.
-/

namespace EventSourcing.Log

set_option autoImplicit false

/-! ## Tiles -/

/-- The range of a log that a call has filled. -/
structure Tile where
  /-- The place of the task among all tasks. -/
  caller : Nat
  start : Nat
  texts : List String

namespace Tile

def stop (t : Tile) : Nat :=
  t.start + t.texts.length

def appended (t : Tile) : Appended :=
  ⟨.ofNat t.start, .ofNat t.stop⟩

end Tile

/-- Tiles that lie one behind the other from `lo` to `hi`. -/
def Tiles : Nat → List Tile → Nat → Prop
  | lo, [], hi => lo = hi
  | lo, t :: rest, hi => t.start = lo ∧ t.texts ≠ [] ∧ Tiles t.stop rest hi

namespace Tiles

variable {lo hi : Nat} {t : Tile} {ts : List Tile}

theorem snoc (tiles : Tiles lo ts hi) (behind : t.start = hi) (filled : t.texts ≠ []) :
    Tiles lo (ts ++ [t]) t.stop := by
  induction ts generalizing lo with
  | nil =>
      cases tiles
      exact ⟨behind, filled, rfl⟩
  | cons first rest ih =>
      obtain ⟨start, holds, tiles⟩ := tiles
      exact ⟨start, holds, ih tiles⟩

theorem bounds (tiles : Tiles lo ts hi) : lo ≤ hi ∧ ∀ t ∈ ts, lo ≤ t.start ∧ t.stop ≤ hi := by
  induction ts generalizing lo with
  | nil =>
      cases tiles
      exact ⟨Nat.le_refl _, fun t member => (List.not_mem_nil member).elim⟩
  | cons first rest ih =>
      obtain ⟨start, _, tiles⟩ := tiles
      obtain ⟨within, each⟩ := ih tiles
      have grows : lo ≤ first.stop := by
        rw [Tile.stop]
        omega
      refine ⟨by omega, List.forall_mem_cons.2 ⟨⟨by omega, within⟩, fun t member => ?_⟩⟩
      obtain ⟨above, below⟩ := each t member
      exact ⟨by omega, below⟩

/-- Tiles do not overlap. -/
theorem disjoint (tiles : Tiles lo ts hi) : ts.Pairwise fun s t => s.stop ≤ t.start := by
  induction ts generalizing lo with
  | nil => exact .nil
  | cons first rest ih =>
      obtain ⟨_, _, tiles⟩ := tiles
      exact .cons (fun t member => (tiles.bounds.2 t member).1) (ih tiles)

/-- Every place is in a tile. -/
theorem cover (tiles : Tiles lo ts hi) {n : Nat} (above : lo ≤ n) (below : n < hi) :
    ∃ t ∈ ts, t.start ≤ n ∧ n < t.stop := by
  induction ts generalizing lo with
  | nil =>
      cases tiles
      omega
  | cons first rest ih =>
      obtain ⟨start, _, tiles⟩ := tiles
      by_cases inside : n < first.stop
      · exact ⟨first, List.mem_cons_self, by omega, inside⟩
      · obtain ⟨t, member, within⟩ := ih tiles (Nat.le_of_not_lt inside)
        exact ⟨t, List.mem_cons_of_mem _ member, within⟩

/-- What all tiles hold, cut at the ends of a tile, is what that tile holds. -/
theorem cut (tiles : Tiles lo ts hi) (member : t ∈ ts) :
    ((ts.flatMap (·.texts)).drop (t.start - lo)).take t.texts.length = t.texts := by
  induction ts generalizing lo with
  | nil => cases member
  | cons first rest ih =>
      obtain ⟨start, _, tiles⟩ := tiles
      rw [List.flatMap_cons]
      rcases List.mem_cons.1 member with rfl | later
      · rw [start, Nat.sub_self, List.drop_zero, List.take_left']
        rfl
      · have above := (tiles.bounds.2 t later).1
        rw [Tile.stop] at above
        have behind : t.start - lo = first.texts.length + (t.start - first.stop) := by
          rw [Tile.stop]
          omega
        rw [behind, List.drop_append, List.drop_eq_nil_of_le (by omega), List.nil_append,
          Nat.add_sub_cancel_left]
        exact ih tiles later

end Tiles

/-! ## What is stored -/

/-- The texts that a payload is stored as: one for each item of an array, written anew, and the
payload itself if it is another value. -/
inductive Stores (payload : Payload) : List String → Prop where
  | items {items : List Json} (read : Json.read? Json.depthLimit payload = some (.arr items))
      (filled : items ≠ []) : Stores payload (items.map Json.text)
  | whole {value : Json} {text : String}
      (read : Json.read? Json.depthLimit payload = some value)
      (single : ∀ items, value ≠ .arr items)
      (written : Text.Glyph.toText? payload = some text) : Stores payload [text]

theorem stores_of_split {payload : Payload} {texts : List String}
    (split : split payload = .ok texts) : Stores payload texts := by
  unfold Log.split at split
  split at split
  · cases split
  · rename_i read
    cases split
    exact .items read (by rintro rfl; contradiction)
  · rename_i text value _ single written read
    cases split
    exact .whole read single written
  · cases split

theorem Stores.filled {payload : Payload} {texts : List String} (stores : Stores payload texts) :
    texts ≠ [] := by
  cases stores with
  | items _ filled => exact fun empty => filled (List.map_eq_nil_iff.1 empty)
  | whole => exact List.cons_ne_nil _ _

/-! ## The log and its callers -/

section

variable {W : Type} {clock : Part W Clock} {log : Part W Memory}

/-- A call has returned the range of a tile, which it filled with what it sent last. -/
structure Filled (log : Part W Memory) (c : Call W) (moves : List (Move W)) (result : c.Result)
    (t : Tile) : Prop where
  returned : c.added? result = some t.appended
  sent : ∃ earlier put payload, moves = earlier ++ [put] ∧ c.Sends earlier t.start payload ∧
    Stores payload t.texts

/-- The tiles of the calls that have succeeded, in the order in which they came. -/
structure Tiled (log : Part W Memory) (pool : Pool W Call.Result) (tiles : List Tile) : Prop where
  chain : Tiles 0 tiles (log.get pool.state).size
  texts : (log.get pool.state).records.map (·.payload) = tiles.flatMap (·.texts)
  callers : (tiles.map (·.caller)).Nodup
  filled : ∀ t ∈ tiles, ∃ c moves result,
    pool.tasks[t.caller]? = some ⟨c, moves, .done result⟩ ∧ Filled log c moves result t
  all : ∀ k c moves result appended, pool.tasks[k]? = some ⟨c, moves, .done result⟩ →
    c.added? result = some appended → ∃ t ∈ tiles, t.caller = k

variable {tasks : List (Task W Call.Result)} {tiles : List Tile} {w w' : W}

theorem push_eq {m m' : Memory} {now : Nat} {texts : List String} {appended : Appended}
    (pushed : m.push now texts = (appended, m')) :
    m' = ⟨m.records ++ texts.map (Record.mk now)⟩ ∧
      appended = ⟨.ofNat m.size, .ofNat (m.size + texts.length)⟩ := by
  cases pushed
  simp [Memory.size, Memory.tip]

/-- Nothing changes for the tiles while the log stays as it is and the tasks that have ended stay
where they are, if no other task returns that it has added something. -/
theorem Tiled.keep {tasks' : List (Task W Call.Result)} (tiled : Tiled log ⟨w, tasks⟩ tiles)
    (same : log.get w' = log.get w)
    (stays : ∀ (k : Nat) (c : Call W) (moves : List (Move W)) (result : c.Result),
      tasks[k]? = some ⟨c, moves, .done result⟩ → tasks'[k]? = some ⟨c, moves, .done result⟩)
    (fresh : ∀ (k : Nat) (c : Call W) (moves : List (Move W)) (result : c.Result)
      (appended : Appended), tasks'[k]? = some ⟨c, moves, .done result⟩ →
        c.added? result = some appended → tasks[k]? = some ⟨c, moves, .done result⟩) :
    Tiled log ⟨w', tasks'⟩ tiles where
  chain := by
    dsimp only
    rw [same]
    exact tiled.chain
  texts := by
    dsimp only
    rw [same]
    exact tiled.texts
  callers := tiled.callers
  filled t member := by
    obtain ⟨c, moves, result, found, filled⟩ := tiled.filled t member
    exact ⟨c, moves, result, stays _ _ _ _ found, filled⟩
  all k c moves result appended found returned :=
    tiled.all k c moves result appended (fresh k c moves result appended found returned) returned

/-- A call that has just come in has returned nothing yet. -/
theorem Tiled.start {c : Call W} (tiled : Tiled log ⟨w, tasks⟩ tiles) (asked : c.Apart log) :
    Tiled log ⟨w, tasks ++ [⟨c, [], c.answer clock log⟩]⟩ tiles := by
  refine tiled.keep rfl (fun k c moves result found => ?_)
    fun k c' moves result appended found returned => ?_
  · rw [List.getElem?_append_left (List.getElem?_eq_some_iff.1 found).1]
    exact found
  · by_cases old : k < tasks.length
    · rwa [List.getElem?_append_left old] at found
    · rw [List.getElem?_append_right (by omega), List.getElem?_singleton] at found
      split at found
      · have began (task : Task W Call.Result) (new : ⟨c, [], c.answer clock log⟩ = task) :
            task.request.Apart log ∧ task.moves = [] ∧
              (task.request.answer clock log).Leads task.moves task.fiber := by
          subst new
          exact ⟨asked, rfl, .stay _⟩
        obtain ⟨apart, unmoved, leads⟩ := began _ (Option.some.inj found)
        have nothing := (Call.outcome_of_leads apart leads).nothing unmoved
        rw [returned] at nothing
        cases nothing
      · cases found

/-- A task that moves and leaves the log as it is adds no tile. -/
theorem Tiled.turn {c : Call W} {moves : List (Move W)} {k : Nat} {q : Fiber W c.Result}
    (tiled : Tiled log ⟨w, tasks⟩ tiles) (inside : k < tasks.length)
    (unfinished : ∀ (c : Call W) (moves : List (Move W)) (result : c.Result),
      tasks[k]? ≠ some ⟨c, moves, .done result⟩)
    (same : log.get w' = log.get w) (silent : ∀ result, q = .done result → c.added? result = none) :
    Tiled log ⟨w', tasks.set k ⟨c, moves, q⟩⟩ tiles := by
  refine tiled.keep same (fun j c' moves' result ended => ?_)
    fun j c' moves' result appended ended returned => ?_
  · rw [List.getElem?_set_ne (by rintro rfl; exact unfinished _ _ _ ended)]
    exact ended
  · by_cases other : k = j
    · subst other
      rw [List.getElem?_set_self inside] at ended
      cases ended
      rw [silent result rfl] at returned
      cases returned
    · rwa [List.getElem?_set_ne other] at ended

/-- A task that puts its entries at the end and succeeds with that adds a tile behind the
others. -/
theorem Tiled.put {c : Call W} {moves : List (Move W)} {result : c.Result} {k : Nat}
    {payload : Payload} {texts : List String} {now : Nat} {appended : Appended}
    (tiled : Tiled log ⟨w, tasks⟩ tiles) (inside : k < tasks.length)
    (unfinished : ∀ (c : Call W) (moves : List (Move W)) (result : c.Result),
      tasks[k]? ≠ some ⟨c, moves, .done result⟩)
    (sent : c.Sends moves (log.get w).size payload) (split : split payload = .ok texts)
    (pushed : (log.get w).push now texts = (appended, log.get w'))
    (returned : c.added? result = some appended) :
    Tiled log ⟨w', tasks.set k ⟨c, moves ++ [⟨w, w'⟩], .done result⟩⟩
      (tiles ++ [⟨k, (log.get w).size, texts⟩]) := by
  obtain ⟨after, range⟩ := push_eq pushed
  have stores := stores_of_split split
  have size : (log.get w').size = (log.get w).size + texts.length := by
    simp [after, Memory.size]
  have fresh (t : Tile) (member : t ∈ tiles) : t.caller ≠ k := by
    rintro rfl
    obtain ⟨c, moves, result, found, _⟩ := tiled.filled t member
    exact unfinished c moves result found
  refine ⟨?_, ?_, ?_, ?_, ?_⟩
  · dsimp only
    rw [size]
    exact tiled.chain.snoc rfl stores.filled
  · have before : (log.get w).records.map (·.payload) = tiles.flatMap (·.texts) := tiled.texts
    have same : (texts.map (Record.mk now)).map (·.payload) = texts := by
      rw [List.map_map]
      exact List.map_id texts
    simp [after, before, same]
  · rw [List.map_append, List.nodup_append]
    refine ⟨tiled.callers, List.nodup_singleton _, ?_⟩
    rintro _ earlier _ last same
    obtain ⟨t, member, rfl⟩ := List.mem_map.1 earlier
    exact fresh t member (same.trans (List.mem_singleton.1 last))
  · intro t member
    rcases List.mem_append.1 member with earlier | last
    · obtain ⟨c', moves', result', found, filled⟩ := tiled.filled t earlier
      refine ⟨c', moves', result', ?_, filled⟩
      exact (List.getElem?_set_ne (fresh t earlier).symm).trans found
    · rw [List.mem_singleton.1 last]
      refine ⟨c, _, result, List.getElem?_set_self inside, ?_, moves, _, payload, rfl, sent, stores⟩
      rw [returned, range]
      rfl
  · intro j c' moves' result' appended' found returned'
    by_cases same : k = j
    · exact ⟨_, List.mem_append_right _ (List.mem_singleton_self _), same⟩
    · have old : tasks[j]? = some ⟨c', moves', .done result'⟩ :=
        (List.getElem?_set_ne same).symm.trans found
      obtain ⟨t, member, caller⟩ := tiled.all j c' moves' result' appended' old returned'
      exact ⟨t, List.mem_append_left _ member, caller⟩

variable {outside : W → W → Prop} {start : W} {pool pool' : Pool W Call.Result}

/-- Whatever happens next, the tiles stay, and the log at most grows. -/
theorem tiled_step (outer : ∀ w w', outside w w' → log.get w' = log.get w)
    (reachable : Pool.Reachable (Call.answer clock log) (Call.Apart log) outside start pool)
    (step : Pool.Step (Call.answer clock log) (Call.Apart log) outside pool pool')
    (tiled : Tiled log pool tiles) :
    ∃ more, Tiled log pool' (tiles ++ more) ∧
      (log.get pool.state).records <+: (log.get pool'.state).records := by
  cases step with
  | @start w tasks c asked =>
      refine ⟨[], ?_, List.prefix_rfl⟩
      rw [List.append_nil]
      exact tiled.start asked
  | @turn w w' tasks c moves β act rest b k found taken =>
      have member := List.mem_of_getElem? found
      have inside : k < tasks.length := (List.getElem?_eq_some_iff.1 found).1
      have apart : c.Apart log := Pool.Reachable.allowed reachable _ member
      have leads := (Pool.leads_of_reachable reachable _ member).snoc taken
      have unfinished (c' : Call W) (moves' : List (Move W)) (result : c'.Result) :
          tasks[k]? ≠ some ⟨c', moves', .done result⟩ := by
        rw [found]
        intro same
        cases same
      generalize made : moves ++ [⟨w, w'⟩] = moves', left : rest b = q
      have outcome : Outcome log c.added? c.Sends moves' q := by
        rw [← made, ← left]
        exact Call.outcome_of_leads apart leads
      cases outcome with
      | quiet still silent =>
          have same : log.get w' = log.get w :=
            still ⟨w, w'⟩ (made ▸ List.mem_append_right _ (List.mem_singleton_self _))
          refine ⟨[], ?_, [], by rw [List.append_nil, same]⟩
          rw [List.append_nil]
          exact tiled.turn inside unfinished same silent
      | put still sent split pushed returned =>
          obtain ⟨rfl, last⟩ := List.append_inj' made rfl
          cases last
          refine ⟨_, tiled.put inside unfinished sent split pushed returned, ?_⟩
          dsimp only
          rw [(push_eq pushed).1]
          exact List.prefix_append _ _
  | outside happened =>
      refine ⟨[], ?_, ?_⟩
      · rw [List.append_nil]
        exact tiled.keep (outer _ _ happened) (fun _ _ _ _ found => found)
          fun _ _ _ _ _ found _ => found
      · exact ⟨[], by rw [List.append_nil, outer _ _ happened]⟩

/-- A log that was empty is tiled by the calls that have succeeded. -/
theorem tiled_of_reachable (outer : ∀ w w', outside w w' → log.get w' = log.get w)
    (fresh : log.get start = .empty)
    (reachable : Pool.Reachable (Call.answer clock log) (Call.Apart log) outside start pool) :
    ∃ tiles, Tiled log pool tiles := by
  induction reachable with
  | refl =>
      refine ⟨[], ?_, ?_, .nil, fun t member => (List.not_mem_nil member).elim, ?_⟩
      · dsimp only
        rw [fresh]
        rfl
      · dsimp only
        rw [fresh]
        rfl
      · intro k c moves result appended found
        cases found
  | tail earlier step ih =>
      obtain ⟨tiles, tiled⟩ := ih
      obtain ⟨more, tiled, _⟩ := tiled_step outer earlier step tiled
      exact ⟨_, tiled⟩

/-- What is in the log stays there, and whatever comes later comes behind it. -/
theorem records_prefix (outer : ∀ w w', outside w w' → log.get w' = log.get w)
    (fresh : log.get start = .empty)
    (reachable : Pool.Reachable (Call.answer clock log) (Call.Apart log) outside start pool)
    (later : Relation.ReflTransGen (Pool.Step (Call.answer clock log) (Call.Apart log) outside)
      pool pool') :
    (log.get pool.state).records <+: (log.get pool'.state).records := by
  induction later with
  | refl => exact List.prefix_rfl
  | tail earlier step ih =>
      have now := reachable.trans earlier
      obtain ⟨tiles, tiled⟩ := tiled_of_reachable outer fresh now
      obtain ⟨_, _, grows⟩ := tiled_step outer now step tiled
      exact ih.trans grows

/-- A call that has not returned that it has added something has left the log as it was. -/
theorem quiet_of_reachable
    (reachable : Pool.Reachable (Call.answer clock log) (Call.Apart log) outside start pool)
    {task : Task W Call.Result} (member : task ∈ pool.tasks)
    (silent : ∀ result, task.fiber = .done result → task.request.added? result = none) :
    Quiet log task.moves := by
  have apart := Pool.Reachable.allowed reachable task member
  have outcome := Call.outcome_of_leads apart (Pool.leads_of_reachable reachable task member)
  generalize task.moves = moves, left : task.fiber = q at outcome
  cases outcome with
  | quiet still => exact still
  | @put _ _ _ result _ _ _ _ _ _ _ _ returned =>
      rw [silent result left] at returned
      cases returned

/-- Successful appends tile the log.  Take any calls that append to one log that was empty, with
any payloads, in any case or only behind an assumed version, and let their moves come in any
order.  The ranges that the successful calls have returned are tiles that lie one behind the
other from the start of the log to its end: they do not overlap, and every place is in one.  The
entries in the range of a call are what its payload is stored as, and a conditional append has
put them where the version that it assumed last says (`Call.Sends`).  A call that has failed or
returned nothing, or not returned yet, has left the log as it was, and whatever is in the log
stays there in front of all that comes later. -/
theorem successful_appends_tile (outer : ∀ w w', outside w w' → log.get w' = log.get w)
    (fresh : log.get start = .empty)
    (reachable : Pool.Reachable (Call.answer clock log) (Call.Apart log) outside start pool) :
    (∃ tiles : List Tile, Tiles 0 tiles (log.get pool.state).size ∧
      tiles.Pairwise (fun s t => s.stop ≤ t.start) ∧
      (∀ n < (log.get pool.state).size, ∃ t ∈ tiles, t.start ≤ n ∧ n < t.stop) ∧
      (tiles.map (·.caller)).Nodup ∧
      (∀ (k : Nat) (c : Call W) (moves : List (Move W)) (result : c.Result) (appended : Appended),
        pool.tasks[k]? = some ⟨c, moves, .done result⟩ → c.added? result = some appended →
          ∃ t ∈ tiles, t.caller = k ∧ t.appended = appended) ∧
      ∀ t ∈ tiles, ∃ c moves result, pool.tasks[t.caller]? = some ⟨c, moves, .done result⟩ ∧
        Filled log c moves result t ∧
        (((log.get pool.state).records.drop t.start).take t.texts.length).map (·.payload) =
          t.texts) ∧
      (∀ task ∈ pool.tasks,
        (∀ result, task.fiber = .done result → task.request.added? result = none) →
          Quiet log task.moves) ∧
      ∀ later, Relation.ReflTransGen
          (Pool.Step (Call.answer clock log) (Call.Apart log) outside) pool later →
        (log.get pool.state).records <+: (log.get later.state).records := by
  obtain ⟨tiles, tiled⟩ := tiled_of_reachable outer fresh reachable
  refine ⟨⟨tiles, tiled.chain, tiled.chain.disjoint, fun n => tiled.chain.cover (Nat.zero_le n),
    tiled.callers, ?_, ?_⟩, fun task member => quiet_of_reachable reachable member,
    fun later => records_prefix outer fresh reachable⟩
  · intro k c moves result appended found returned
    obtain ⟨t, member, rfl⟩ := tiled.all k c moves result appended found returned
    obtain ⟨c', moves', result', found', filled⟩ := tiled.filled t member
    cases found.symm.trans found'
    exact ⟨t, member, rfl, Option.some.inj (filled.returned.symm.trans returned)⟩
  · intro t member
    obtain ⟨c, moves, result, found, filled⟩ := tiled.filled t member
    refine ⟨c, moves, result, found, filled, ?_⟩
    rw [List.map_take, List.map_drop, tiled.texts]
    exact tiled.chain.cut member

end

/-! ### A call that is overtaken -/

abbrev Desk := Clock × Memory

def deskClock : Part Desk Clock where
  get := Prod.fst
  set c w := (c, w.2)

def deskLog : Part Desk Memory where
  get := Prod.snd
  set m w := (w.1, m)

/-- Sends one number, and catches up by looking where the log ends. -/
def numbering : Attempt Desk Unit Unit where
  produce s w := ((.ok (some (Text.Glyph.ofString "3")), s), w)
  resync s := Fiber.atomic fun w => ((.ok w.2.tip, s), w)

theorem numbering_apart : numbering.Apart deskLog where
  produce _ _ := rfl
  resync _ := Fiber.abides_atomic _ fun _ _ => ⟨rfl, trivial⟩

/-- While one call is about to put its number at the start, another puts two there. -/
def overtaking : List (Cue (Call Desk)) :=
  [.start (.tryAppend 2 ⟨0, none⟩ (.ofNat 0) numbering ()),
    .start (.append (Text.Glyph.ofString "[1,2]")),
    .turn 0, .turn 0, .turn 1, .turn 0, .turn 0, .turn 0, .turn 0, .turn 0]

def desk : @Pool Desk (Call Desk) Call.Result :=
  Pool.play (Call.answer deskClock deskLog) overtaking ⟨(.start, .empty), []⟩

theorem reachable_desk : Pool.Reachable (Call.answer deskClock deskLog) (Call.Apart deskLog)
    (fun _ _ => False) (.start, .empty) desk := by
  refine Pool.reachable_play (fun c member => ?_) .refl
  simp only [overtaking, List.mem_cons, Cue.start.injEq, reduceCtorEq, List.not_mem_nil,
    or_false] at member
  rcases member with rfl | rfl
  · exact numbering_apart
  · trivial

/-- Whoever was overtaken puts the number behind the two. -/
theorem overtaken_tiles : ∃ tiles : List Tile, Tiles 0 tiles 3 ∧
    (∃ t ∈ tiles, t.caller = 1 ∧ t.appended = ⟨.ofNat 0, .ofNat 2⟩) ∧
    ∃ t ∈ tiles, t.caller = 0 ∧ t.appended = ⟨.ofNat 2, .ofNat 3⟩ := by
  obtain ⟨⟨tiles, chain, _, _, _, all, _⟩, _⟩ :=
    successful_appends_tile (fun _ _ => False.elim) rfl reachable_desk
  have size : (deskLog.get desk.state).size = 3 := by decide +kernel
  rw [size] at chain
  have first : (desk.tasks[1]?).any (Task.endedWith fun c result =>
      c.added? result == some ⟨.ofNat 0, .ofNat 2⟩) := by decide +kernel
  have second : (desk.tasks[0]?).any (Task.endedWith fun c result =>
      c.added? result == some ⟨.ofNat 2, .ofNat 3⟩) := by decide +kernel
  obtain ⟨c, moves, result, found, returned⟩ := Pool.ended_at first
  obtain ⟨c', moves', result', found', returned'⟩ := Pool.ended_at second
  exact ⟨tiles, chain, all 1 c moves result _ found (beq_iff_eq.1 returned),
    all 0 c' moves' result' _ found' (beq_iff_eq.1 returned')⟩

end EventSourcing.Log
