import EventSourcing.Proofs.Event.RoundTrip
import EventSourcing.Proofs.Fiber.History
import EventSourcing.Proofs.Log.Injecting
import Mathlib.Data.List.Nodup

/-!
# Proofs.Log.Ledger -- where the batches of a second writer are

A history of calls tells which batches have been let wait, which of them were taken by which
call, and which have been appended, each in the order in which it happened.  Main statement: a
batch that was let wait still waits, or has been appended once, or is left with the call that has
taken it, either because the call is under way or because the inner log has refused a batch
(`batches_appended_unless_lost`).
-/

namespace EventSourcing.Log.Queue

open Pool (ownMoves)

set_option autoImplicit false

variable {W : Type}

/-! ## Entries -/

/-- The batches that a call has taken out of the queue. -/
structure Lot where
  caller : Nat
  batches : List Payload

section

variable (queue : Part W Queue)

/-- The batches that a move has put behind those that waited. -/
def arrivals (mv : Move W) : List Payload :=
  (queue.get mv.after).pending.drop (queue.get mv.before).pending.length

/-- All batches that have been let wait. -/
def injections (made : List (Nat × Move W)) : List Payload :=
  made.flatMap fun e => arrivals queue e.2

/-- What a move has taken out of the queue. -/
def lot? (e : Nat × Move W) : Option Lot :=
  if (queue.get e.2.before).pending ≠ [] ∧ (queue.get e.2.after).pending = [] then
    some ⟨e.1, (queue.get e.2.before).pending⟩
  else none

def lots (made : List (Nat × Move W)) : List Lot :=
  made.filterMap (lot? queue)

/-- The batch that a move counts, which is the next of those that its caller has taken. -/
def confirmed (before : List (Nat × Move W)) (e : Nat × Move W) : List Payload :=
  if counts queue e.2 then (left queue (ownMoves e.1 before)).take 1 else []

/-- The batches that later moves count. -/
def appendedAfter (before : List (Nat × Move W)) : List (Nat × Move W) → List Payload
  | [] => []
  | e :: later => confirmed queue before e ++ appendedAfter (before ++ [e]) later

/-- All batches that have been appended for the second writer. -/
def appended (made : List (Nat × Move W)) : List Payload :=
  appendedAfter queue [] made

/-- Calls that take batches have come one after another. -/
def InTurn (made : List (Nat × Move W)) : Prop :=
  ∀ l ∈ lots queue made, ∀ l' ∈ lots queue made,
    [l.caller, l'.caller, l.caller].Sublist (made.map (·.1)) → l'.caller = l.caller

end

section

variable {queue : Part W Queue} {made before : List (Nat × Move W)} {e : Nat × Move W}

theorem injections_concat :
    injections queue (made ++ [e]) = injections queue made ++ arrivals queue e.2 := by
  rw [injections, List.flatMap_append, List.flatMap_singleton]
  rfl

theorem lots_concat : lots queue (made ++ [e]) = lots queue made ++ (lot? queue e).toList := by
  rw [lots, List.filterMap_append, List.filterMap_cons, List.filterMap_nil]
  cases lot? queue e <;> rfl

theorem appendedAfter_concat : appendedAfter queue before (made ++ [e]) =
    appendedAfter queue before made ++ confirmed queue (before ++ made) e := by
  induction made generalizing before with
  | nil => simp [appendedAfter]
  | cons first later ih => simp [appendedAfter, ih]

theorem appended_concat :
    appended queue (made ++ [e]) = appended queue made ++ confirmed queue made e :=
  appendedAfter_concat

/-- A lot was taken by a move of its caller. -/
theorem callers_sublist :
    ((lots queue made).map Lot.caller).Sublist (made.map (·.1)) := by
  induction made with
  | nil => exact .slnil
  | cons e later ih =>
      rw [lots, List.filterMap_cons, lot?]
      split
      · rename_i nothing
        exact ih.cons _
      · rename_i lot found
        split at found
        · cases found
          exact ih.cons_cons _
        · cases found

/-- Whoever has taken a lot has moved. -/
theorem ownMoves_caller_ne_nil {l : Lot} (member : l ∈ lots queue made) :
    ownMoves l.caller made ≠ [] := by
  have caller : l.caller ∈ made.map (·.1) := callers_sublist.subset (List.mem_map_of_mem member)
  obtain ⟨e, moved, same⟩ := List.mem_map.1 caller
  exact List.ne_nil_of_mem
    (List.mem_map_of_mem (List.mem_filter.2 ⟨moved, decide_eq_true same⟩))

/-- Nobody but the caller itself has taken batches after a caller that moves on. -/
theorem InTurn.last {l : Lot} {mv : Move W} {earlier later : List Lot}
    (inTurn : InTurn queue (made ++ [(l.caller, mv)]))
    (split : lots queue made = earlier ++ l :: later) : ∀ l' ∈ later, l'.caller = l.caller := by
  intro l' member
  have pair : [l, l'].Sublist (lots queue made) := by
    rw [split]
    exact ((List.singleton_sublist.2 member).cons_cons l).trans (List.sublist_append_right _ _)
  have both : ∀ x ∈ [l, l'], x ∈ lots queue (made ++ [(l.caller, mv)]) := by
    intro x listed
    rw [lots_concat]
    exact List.mem_append_left _ (pair.subset listed)
  refine inTurn l (both l (.head _)) l' (both l' (.tail _ (.head _))) ?_
  rw [List.map_append]
  exact ((pair.map Lot.caller).trans callers_sublist).append (List.Sublist.refl [l.caller])

theorem InTurn.of_concat (inTurn : InTurn queue (made ++ [e])) : InTurn queue made := by
  intro l member l' member' between
  refine inTurn l ?_ l' ?_ ?_
  · rw [lots_concat]
    exact List.mem_append_left _ member
  · rw [lots_concat]
    exact List.mem_append_left _ member'
  · rw [List.map_append]
    exact between.trans (List.sublist_append_left _ _)

end

/-! ## What each kind of move adds -/

section

variable {queue : Part W Queue} {made : List (Nat × Move W)} {k : Nat} {mv : Move W}
  {moves : List (Move W)} {batch : Payload} {rest : List Payload}

theorem arrivals_of_same (same : (queue.get mv.after).pending = (queue.get mv.before).pending) :
    arrivals queue mv = [] := by
  rw [arrivals, same, List.drop_length]

/-- Behind what waited there is what has been put there. -/
theorem Polite.pending_eq {w w' : W} (polite : Polite queue w w') :
    (queue.get w').pending = (queue.get w).pending ++ arrivals queue ⟨w, w'⟩ := by
  rcases polite with untouched | ⟨batch, waits⟩
  · have same : (queue.get w').pending = (queue.get w).pending := congrArg Queue.pending untouched
    rw [arrivals_of_same same, same, List.append_nil]
  · rw [arrivals, waits, List.drop_left]

theorem lot?_eq_none
    (grown : (queue.get mv.after).pending = (queue.get mv.before).pending ++ arrivals queue mv) :
    lot? queue (k, mv) = none := by
  refine if_neg ?_
  rintro ⟨filled, nothing⟩
  rw [grown] at nothing
  exact filled (List.append_eq_nil_iff.1 nothing).1

/-- A move that counts nothing has had nothing appended. -/
theorem appended_quiet (quiet : counts queue mv = false) :
    appended queue (made ++ [(k, mv)]) = appended queue made := by
  have empty : confirmed queue made (k, mv) = [] := by
    rw [confirmed, quiet]
    rfl
  rw [appended_concat, empty, List.append_nil]

theorem taken_concat (begun : moves ≠ []) : taken queue (moves ++ [mv]) = taken queue moves := by
  cases moves with
  | nil => exact (begun rfl).elim
  | cons first later => rfl

theorem delivered_concat (begun : moves ≠ []) (quiet : counts queue mv = false) :
    delivered queue (moves ++ [mv]) = delivered queue moves := by
  rw [delivered, taken_concat begun, List.countP_append, List.countP_singleton, quiet]
  rfl

/-- A call that counts a batch has had one more appended. -/
theorem delivered_counted (begun : moves ≠ []) (counted : counts queue mv = true)
    (next : left queue moves = batch :: rest) :
    delivered queue (moves ++ [mv]) = delivered queue moves ++ [batch] := by
  have following : (taken queue moves)[moves.countP (counts queue)]? = some batch := by
    rw [← List.head?_drop]
    exact congrArg List.head? next
  rw [delivered, taken_concat begun, List.countP_append, List.countP_singleton, if_pos counted,
    List.take_add_one, following]
  rfl

theorem ownMoves_concat_self : ownMoves k (made ++ [(k, mv)]) = ownMoves k made ++ [mv] := by
  rw [Pool.ownMoves_append, Pool.ownMoves_cons_self]
  rfl

theorem ownMoves_concat_ne {j : Nat} (other : k ≠ j) :
    ownMoves j (made ++ [(k, mv)]) = ownMoves j made := by
  rw [Pool.ownMoves_append, Pool.ownMoves_cons_ne other]
  exact List.append_nil _

/-- A move that counts nothing leaves all accounts as they are. -/
theorem flatMap_delivered_concat (quiet : counts queue mv = false) :
    ((lots queue made).flatMap fun l => delivered queue (ownMoves l.caller (made ++ [(k, mv)]))) =
      (lots queue made).flatMap fun l => delivered queue (ownMoves l.caller made) := by
  refine List.flatMap_congr fun l member => ?_
  by_cases same : k = l.caller
  · rw [same, ownMoves_concat_self, delivered_concat (ownMoves_caller_ne_nil member) quiet]
  · rw [ownMoves_concat_ne same]

theorem flatMap_grown {α β : Type} {before after : List α} {a : α} {f g : α → List β} {b : β}
    (earlier : ∀ x ∈ before, g x = f x) (more : g a = f a ++ [b]) (later : ∀ x ∈ after, g x = f x) :
    (before ++ a :: after).flatMap g = before.flatMap f ++ f a ++ b :: after.flatMap f := by
  rw [List.flatMap_append, List.flatMap_cons, List.flatMap_congr earlier, List.flatMap_congr later,
    more]
  simp only [List.append_assoc, List.singleton_append]

end

/-! ## The balance -/

section

variable {queue : Part W Queue}

/-- The batches that calls have had appended, lot by lot. -/
def accounts (queue : Part W Queue) (made : List (Nat × Move W)) : List Payload :=
  (lots queue made).flatMap fun l => delivered queue (ownMoves l.caller made)

/-- All other lots are those of other calls. -/
theorem caller_ne_of_mem {made : List (Nat × Move W)} {l : Lot} {before after : List Lot}
    (split : lots queue made = before ++ l :: after)
    (distinct : ((lots queue made).map Lot.caller).Nodup) :
    ∀ l' ∈ before ++ after, l.caller ≠ l'.caller := by
  intro l' member same
  rw [split, List.map_append, List.map_cons, List.nodup_middle, List.nodup_cons,
    ← List.map_append] at distinct
  exact distinct.1 (same ▸ List.mem_map_of_mem member)

/-- A batch that its caller counts is entered at the end of the account of its lot. -/
theorem accounts_counted {made : List (Nat × Move W)} {mv : Move W} {l : Lot}
    {before after : List Lot} {batch : Payload} {rest : List Payload}
    (split : lots queue made = before ++ l :: after)
    (distinct : ((lots queue made).map Lot.caller).Nodup)
    (kept : lots queue (made ++ [(l.caller, mv)]) = lots queue made)
    (counted : counts queue mv = true)
    (next : left queue (ownMoves l.caller made) = batch :: rest) :
    ∃ earlier later, accounts queue made = earlier ++ later ∧
      accounts queue (made ++ [(l.caller, mv)]) = earlier ++ batch :: later ∧
      (after = [] → later = []) := by
  have begun : ownMoves l.caller made ≠ [] :=
    ownMoves_caller_ne_nil (split ▸ List.mem_append_right _ (.head _))
  have still : ∀ l' ∈ before ++ after,
      delivered queue (ownMoves l'.caller (made ++ [(l.caller, mv)])) =
        delivered queue (ownMoves l'.caller made) := by
    intro l' member
    rw [ownMoves_concat_ne (caller_ne_of_mem split distinct l' member)]
  refine ⟨(before.flatMap fun l => delivered queue (ownMoves l.caller made)) ++
      delivered queue (ownMoves l.caller made),
    after.flatMap fun l => delivered queue (ownMoves l.caller made), ?_, ?_,
    fun last => by rw [last, List.flatMap_nil]⟩
  · rw [accounts, split, List.flatMap_append, List.flatMap_cons, List.append_assoc]
  · rw [accounts, kept, split]
    refine flatMap_grown (fun l' earlier => still l' (List.mem_append_left _ earlier)) ?_
      (fun l' later => still l' (List.mem_append_right _ later))
    rw [ownMoves_concat_self, delivered_counted begun counted next]

/-- The entries of a history agree with each other and with the queue. -/
structure Balanced (queue : Part W Queue) (made : List (Nat × Move W))
    (pool : Pool W (Request.Result (W := W))) : Prop where
  waiting : injections queue made =
    (lots queue made).flatMap Lot.batches ++ (queue.get pool.state).pending
  counted : (queue.get pool.state).injected = (appended queue made).length
  handed : (appended queue made).Perm (accounts queue made)
  ordered : InTurn queue made → appended queue made = accounts queue made
  distinct : ((lots queue made).map Lot.caller).Nodup
  /-- Each lot was taken by a conditional append. -/
  owned : ∀ l ∈ lots queue made, ∃ task, pool.tasks[l.caller]? = some task ∧
    task.request.Conditional ∧ taken queue task.moves = l.batches
  /-- Whatever a conditional append has taken is a lot. -/
  all : ∀ k task, pool.tasks[k]? = some task → task.request.Conditional →
    taken queue task.moves ≠ [] → ∃ l ∈ lots queue made, l.caller = k

variable {made : List (Nat × Move W)} {w w' : W} {tasks : List (Task W (Request.Result (W := W)))}
  {r : Request W} {moves : List (Move W)} {p q : Fiber W r.Result} {k : Nat}

/-- A lot is still its caller's once a call has moved on. -/
theorem Balanced.owned_set (balanced : Balanced queue made ⟨w, tasks⟩)
    (found : tasks[k]? = some ⟨r, moves, p⟩) (own : ownMoves k made = moves) :
    ∀ l ∈ lots queue made, ∃ task,
      (tasks.set k ⟨r, moves ++ [⟨w, w'⟩], q⟩)[l.caller]? = some task ∧
        task.request.Conditional ∧ taken queue task.moves = l.batches := by
  intro l member
  obtain ⟨task, here, conditional, batches⟩ := balanced.owned l member
  by_cases same : k = l.caller
  · subst same
    cases found.symm.trans here
    have inside := (List.getElem?_eq_some_iff.1 found).1
    have begun : moves ≠ [] := own ▸ ownMoves_caller_ne_nil member
    exact ⟨_, List.getElem?_set_self inside, conditional, (taken_concat begun).trans batches⟩
  · exact ⟨task, (List.getElem?_set_ne same).trans here, conditional, batches⟩

/-- Nothing more has been taken once a call has moved on, unless it found batches when it moved
first. -/
theorem Balanced.all_set (balanced : Balanced queue made ⟨w, tasks⟩)
    (found : tasks[k]? = some ⟨r, moves, p⟩)
    (begun : r.Conditional → moves = [] → (queue.get w).pending = []) :
    ∀ j task, (tasks.set k ⟨r, moves ++ [⟨w, w'⟩], q⟩)[j]? = some task →
      task.request.Conditional → taken queue task.moves ≠ [] →
        ∃ l ∈ lots queue made, l.caller = j := by
  intro j task here conditional took
  by_cases same : k = j
  · subst same
    have inside := (List.getElem?_eq_some_iff.1 found).1
    rw [List.getElem?_set_self inside] at here
    cases here
    by_cases first : moves = []
    · subst first
      exact (took (begun conditional rfl)).elim
    · rw [taken_concat first] at took
      exact balanced.all k _ found conditional took
  · rw [List.getElem?_set_ne same] at here
    exact balanced.all j task here conditional took

/-- A polite move adds what it lets wait. -/
theorem Balanced.turn_polite (balanced : Balanced queue made ⟨w, tasks⟩)
    (found : tasks[k]? = some ⟨r, moves, p⟩) (own : ownMoves k made = moves)
    (begun : r.Conditional → moves = [] → (queue.get w).pending = [])
    (polite : Polite queue w w') :
    Balanced queue (made ++ [(k, ⟨w, w'⟩)]) ⟨w', tasks.set k ⟨r, moves ++ [⟨w, w'⟩], q⟩⟩ := by
  have grown := polite.pending_eq
  have quiet : counts queue ⟨w, w'⟩ = false := counts_eq_false polite.injected_eq
  have kept : lots queue (made ++ [(k, ⟨w, w'⟩)]) = lots queue made := by
    rw [lots_concat, lot?_eq_none grown]
    exact List.append_nil _
  have appendedKept : appended queue (made ++ [(k, ⟨w, w'⟩)]) = appended queue made :=
    appended_quiet quiet
  have accountsKept : accounts queue (made ++ [(k, ⟨w, w'⟩)]) = accounts queue made := by
    rw [accounts, kept, flatMap_delivered_concat quiet, accounts]
  constructor
  · rw [injections_concat, kept, balanced.waiting, List.append_assoc, ← grown]
  · rw [appendedKept, polite.injected_eq, balanced.counted]
  · rw [appendedKept, accountsKept]
    exact balanced.handed
  · rw [appendedKept, accountsKept]
    exact fun inTurn => balanced.ordered inTurn.of_concat
  · rw [kept]
    exact balanced.distinct
  · rw [kept]
    exact balanced.owned_set found own
  · rw [kept]
    exact balanced.all_set found begun

/-- A conditional append begins a lot of its own with what it takes. -/
theorem Balanced.turn_takes (balanced : Balanced queue made ⟨w, tasks⟩)
    (found : tasks[k]? = some ⟨r, [], p⟩) (own : ownMoves k made = []) (conditional : r.Conditional)
    (filled : (queue.get w).pending ≠ [])
    (empties : queue.get w' = { queue.get w with pending := [] }) :
    Balanced queue (made ++ [(k, ⟨w, w'⟩)]) ⟨w', tasks.set k ⟨r, [⟨w, w'⟩], q⟩⟩ := by
  have inside := (List.getElem?_eq_some_iff.1 found).1
  have quiet : counts queue ⟨w, w'⟩ = false := counts_eq_false (by rw [empties])
  have nothing : arrivals queue ⟨w, w'⟩ = [] := by rw [arrivals, empties, List.drop_nil]
  have more : lots queue (made ++ [(k, ⟨w, w'⟩)]) =
      lots queue made ++ [⟨k, (queue.get w).pending⟩] := by
    rw [lots_concat, lot?, if_pos ⟨filled, by rw [empties]⟩]
    rfl
  have fresh : k ∉ (lots queue made).map Lot.caller := by
    intro earlier
    obtain ⟨l, member, rfl⟩ := List.mem_map.1 earlier
    exact ownMoves_caller_ne_nil member own
  have appendedKept : appended queue (made ++ [(k, ⟨w, w'⟩)]) = appended queue made :=
    appended_quiet quiet
  have accountsKept : accounts queue (made ++ [(k, ⟨w, w'⟩)]) = accounts queue made := by
    have first : delivered queue (ownMoves k (made ++ [(k, ⟨w, w'⟩)])) = [] := by
      rw [ownMoves_concat_self, own, delivered, List.nil_append, List.countP_singleton, quiet]
      rfl
    rw [accounts, more, List.flatMap_append, List.flatMap_singleton, first, List.append_nil,
      flatMap_delivered_concat quiet, accounts]
  constructor
  · rw [injections_concat, nothing, more, List.flatMap_append, List.flatMap_singleton, empties,
      List.append_nil, List.append_nil]
    exact balanced.waiting
  · rw [appendedKept, empties]
    exact balanced.counted
  · rw [appendedKept, accountsKept]
    exact balanced.handed
  · rw [appendedKept, accountsKept]
    exact fun inTurn => balanced.ordered inTurn.of_concat
  · rw [more, List.map_append]
    exact (List.perm_append_singleton _ _).nodup_iff.2
      (List.nodup_cons.2 ⟨fresh, balanced.distinct⟩)
  · rw [more]
    intro l member
    rcases List.mem_append.1 member with earlier | last
    · exact balanced.owned_set found own l earlier
    · rw [List.mem_singleton.1 last]
      exact ⟨_, List.getElem?_set_self inside, conditional, rfl⟩
  · rw [more]
    intro j task here asked took
    by_cases same : k = j
    · exact ⟨_, List.mem_append_right _ (List.mem_singleton_self _), same⟩
    · rw [List.getElem?_set_ne same] at here
      obtain ⟨l, member, caller⟩ := balanced.all j task here asked took
      exact ⟨l, List.mem_append_left _ member, caller⟩

/-- A batch that is counted passes from what its caller has left to what has been appended. -/
theorem Balanced.turn_counts {batch : Payload} {rest : List Payload}
    (balanced : Balanced queue made ⟨w, tasks⟩)
    (found : tasks[k]? = some ⟨r, moves, p⟩) (own : ownMoves k made = moves)
    (conditional : r.Conditional) (begun : moves ≠ []) (next : left queue moves = batch :: rest)
    (counted : queue.get w' = { queue.get w with injected := (queue.get w).injected + 1 }) :
    Balanced queue (made ++ [(k, ⟨w, w'⟩)]) ⟨w', tasks.set k ⟨r, moves ++ [⟨w, w'⟩], q⟩⟩ := by
  have same : (queue.get w').pending = (queue.get w).pending := by rw [counted]
  have counting : counts queue ⟨w, w'⟩ = true := counts_of_counted counted
  have nothing : arrivals queue ⟨w, w'⟩ = [] := arrivals_of_same same
  have kept : lots queue (made ++ [(k, ⟨w, w'⟩)]) = lots queue made := by
    rw [lots_concat, lot?_eq_none (by rw [nothing, List.append_nil]; exact same)]
    exact List.append_nil _
  have appendedMore : appended queue (made ++ [(k, ⟨w, w'⟩)]) = appended queue made ++ [batch] := by
    rw [appended_concat, confirmed, if_pos counting, own, next]
    rfl
  have took : taken queue moves ≠ [] := by
    intro vacant
    rw [left, vacant, List.drop_nil] at next
    cases next
  obtain ⟨l, member, rfl⟩ := balanced.all k _ found conditional took
  obtain ⟨before, after, split⟩ := List.append_of_mem member
  obtain ⟨earlier, later, accountsBefore, accountsAfter, last⟩ :=
    accounts_counted split balanced.distinct kept counting (own.symm ▸ next)
  constructor
  · rw [injections_concat, nothing, List.append_nil, kept, same]
    exact balanced.waiting
  · rw [appendedMore, List.length_append, ← balanced.counted, counted]
    rfl
  · rw [appendedMore, accountsAfter]
    exact ((accountsBefore ▸ balanced.handed).append_right [batch]).trans
      ((List.perm_append_singleton _ _).trans List.perm_middle.symm)
  · intro inTurn
    have vacant : after = [] := List.eq_nil_iff_forall_not_mem.2 fun l' behind =>
      caller_ne_of_mem split balanced.distinct l' (List.mem_append_right _ behind)
        (inTurn.last split l' behind).symm
    rw [appendedMore, accountsAfter, balanced.ordered inTurn.of_concat, accountsBefore, last vacant,
      List.append_nil]
  · rw [kept]
    exact balanced.distinct
  · rw [kept]
    exact balanced.owned_set found own
  · rw [kept]
    exact balanced.all_set found fun _ empty => (begun empty).elim

variable {inner : EventLog W} {outside : W → W → Prop} {start : W}
  {pool : Pool W (Request.Result (W := W))}

/-- What a move of a call changes, it changes on both sides. -/
theorem Balanced.turn (balanced : Balanced queue made ⟨w, tasks⟩)
    (found : tasks[k]? = some ⟨r, moves, p⟩) (own : ownMoves k made = moves)
    (turn : Turn queue r moves ⟨w, w'⟩) :
    Balanced queue (made ++ [(k, ⟨w, w'⟩)]) ⟨w', tasks.set k ⟨r, moves ++ [⟨w, w'⟩], q⟩⟩ := by
  cases turn with
  | takes conditional first some empties =>
      subst first
      exact balanced.turn_takes found own conditional some empties
  | polite begun polite => exact balanced.turn_polite found own begun polite
  | counts conditional begun next counted =>
      exact balanced.turn_counts found own conditional begun next counted

/-- Whatever calls do, in whatever order, the entries of their history agree with the queue. -/
theorem balanced_of_history (spared : Spared queue inner)
    (outer : ∀ w w', outside w w' → Untouched queue w w') (fresh : queue.get start = .empty)
    (history : Pool.History (Request.answer queue (eventLog queue inner))
      (Request.Keeps (Polite queue)) outside start made pool) : Balanced queue made pool := by
  induction history with
  | begun =>
      refine ⟨?_, ?_, .nil, fun _ => rfl, .nil, fun l member => (List.not_mem_nil member).elim, ?_⟩
      · rw [fresh]
        rfl
      · rw [fresh]
        rfl
      · intro k task found
        cases found
  | @start made w tasks r earlier asked ih =>
      refine ⟨ih.waiting, ih.counted, ih.handed, ih.ordered, ih.distinct, fun l member => ?_,
        fun k task found conditional took => ?_⟩
      · obtain ⟨task, here, others⟩ := ih.owned l member
        have inside : l.caller < tasks.length := (List.getElem?_eq_some_iff.1 here).1
        exact ⟨task, (List.getElem?_append_left inside).trans here, others⟩
      · rcases Pool.getElem?_concat found with old | ⟨_, rfl⟩
        · exact ih.all k task old conditional took
        · exact (took rfl).elim
  | @turn made w w' tasks r moves β act rest b k earlier found taken ih =>
      have member := List.mem_of_getElem? found
      have reachable := earlier.reachable
      have leads := (Pool.leads_of_reachable reachable _ member).snoc taken
      have keeps := Pool.Reachable.allowed reachable _ member
      exact ih.turn found (earlier.moves found) (turn_of_leads spared keeps leads)
  | outside _ happened ih =>
      have same := outer _ _ happened
      refine ⟨?_, ?_, ih.handed, ih.ordered, ih.distinct, ih.owned, ih.all⟩
      · rw [same]
        exact ih.waiting
      · rw [same]
        exact ih.counted

/-- Where no call has anything left, the accounts hold all that was taken. -/
theorem Balanced.accounts_eq (balanced : Balanced queue made pool)
    (own : ∀ k task, pool.tasks[k]? = some task → ownMoves k made = task.moves)
    (settled : ∀ task ∈ pool.tasks, task.request.Conditional → left queue task.moves = []) :
    accounts queue made = (lots queue made).flatMap Lot.batches := by
  refine List.flatMap_congr fun l member => ?_
  obtain ⟨task, found, conditional, batches⟩ := balanced.owned l member
  have parts : delivered queue task.moves ++ left queue task.moves = taken queue task.moves :=
    delivered_append_left task.moves
  rw [settled task (List.mem_of_getElem? found) conditional, List.append_nil, batches] at parts
  rw [own _ task found, parts]

/-- A log with a second writer loses and repeats no batch, unless the inner log refuses one.  Take
any calls on such a log around any inner log that does not know of the queue, also calls whose
visitors and attempts let batches wait, and let their moves come in any order.  At any time the
batches that have been let wait are those of the lots that were taken, followed by those that
still wait, and as many are counted as have been appended.  Each lot was taken by a conditional
append, which has the first of its batches appended one by one before the inner log takes over.
Something of a lot is left only with a call that is still at it, or that has ended because the
inner log refused the first batch that is left (`Stage`).  If nothing is left with any call, then
what has been appended and what still waits is what was let wait, each batch once; and in this
order, if the conditional appends came one after another.  All other calls are the inner log's,
and leave the queue alone (`Request.Course`). -/
theorem batches_appended_unless_lost (spared : Spared queue inner)
    (outer : ∀ w w', outside w w' → Untouched queue w w') (fresh : queue.get start = .empty)
    (history : Pool.History (Request.answer queue (eventLog queue inner))
      (Request.Keeps (Polite queue)) outside start made pool) :
    injections queue made =
      (lots queue made).flatMap Lot.batches ++ (queue.get pool.state).pending ∧
    (queue.get pool.state).injected = (appended queue made).length ∧
    (appended queue made).Perm (accounts queue made) ∧
    (InTurn queue made → appended queue made = accounts queue made) ∧
    (∀ l ∈ lots queue made, ∃ task, pool.tasks[l.caller]? = some task ∧
      task.request.Conditional ∧ taken queue task.moves = l.batches) ∧
    (∀ task ∈ pool.tasks, task.request.Course queue inner task.moves task.fiber) ∧
    ((∀ task ∈ pool.tasks, task.request.Conditional → left queue task.moves = []) →
      (appended queue made ++ (queue.get pool.state).pending).Perm (injections queue made) ∧
      (InTurn queue made →
        appended queue made ++ (queue.get pool.state).pending = injections queue made)) := by
  have balanced := balanced_of_history spared outer fresh history
  refine ⟨balanced.waiting, balanced.counted, balanced.handed, balanced.ordered, balanced.owned,
    fun task member => ?_, fun settled => ?_⟩
  · have reachable := history.reachable
    exact Request.course_of_leads spared (Pool.Reachable.allowed reachable task member)
      (Pool.leads_of_reachable reachable task member)
  · have same := balanced.accounts_eq (fun _ _ found => history.moves found) settled
    rw [balanced.waiting, ← same]
    exact ⟨balanced.handed.append_right _, fun inTurn => by rw [balanced.ordered inTurn]⟩

end

/-! ## A batch that is nested too deeply -/

abbrev Office := Clock × Memory × Queue

def officeClock : Part Office Clock where
  get := Prod.fst
  set c w := (c, w.2)

def officeLog : Part Office Memory where
  get w := w.2.1
  set m w := (w.1, m, w.2.2)

def officeQueue : Part Office Queue where
  get w := w.2.2
  set q w := (w.1, w.2.1, q)

theorem disjoint_office : officeQueue.Disjoint officeLog where
  get_set_left _ _ := rfl
  get_set_right _ _ := rfl
  set_comm _ _ _ := rfl

def notes : EventSet Json where
  names := ["Note"]
  name _ := "Note"
  toPayload v := .ok v
  fromPayload _ v := .ok v

/-- Sends one number, and catches up by looking where the log ends. -/
def numbered : Attempt Office Unit Unit where
  produce s w := ((.ok (some (Text.Glyph.ofString "3")), s), w)
  resync s := Fiber.atomic fun w => ((.ok w.2.1.tip, s), w)

theorem keeps_numbered : numbered.Keeps (Polite officeQueue) where
  produce _ _ := .inl rfl
  resync _ := Fiber.abides_atomic _ fun _ _ => ⟨.inl rfl, trivial⟩

def officeAnswer : (r : Request Office) → Fiber Office r.Result :=
  Request.answer officeQueue (eventLog officeQueue (Memory.eventLog officeClock officeLog 3))

def sending : Request Office :=
  .tryAppend ⟨0, none⟩ (.ofNat 0) numbered ()

/-- Two notes come to wait, and then a number is sent, and another one after it. -/
def writing (first : Json) (turns : Nat) : List (Cue (Request Office)) :=
  [.start (.inject notes [first]), .start (.inject notes [.int 1]), .start sending, .start sending,
    .turn 0, .turn 1] ++ List.replicate turns (.turn 2) ++ List.replicate 8 (.turn 3)

def office (first : Json) (turns : Nat) : Pool Office (Request.Result (W := Office)) :=
  Pool.play officeAnswer (writing first turns) ⟨(.start, .empty, .empty), []⟩

def officeMade (first : Json) (turns : Nat) : List (Nat × Move Office) :=
  Pool.playMade officeAnswer (writing first turns) ⟨(.start, .empty, .empty), []⟩

theorem history_office (first : Json) (turns : Nat) :
    Pool.History officeAnswer (Request.Keeps (Polite officeQueue)) (fun _ _ => False)
      (.start, .empty, .empty) (officeMade first turns) (office first turns) := by
  refine Pool.history_play fun r member => ?_
  simp only [writing, List.mem_append, List.mem_cons, Cue.start.injEq, reduceCtorEq,
    List.mem_replicate, and_false, List.not_mem_nil, or_false] at member
  rcases member with rfl | rfl | rfl | rfl
  · trivial
  · trivial
  · exact keeps_numbered
  · exact keeps_numbered

theorem inTurn_of_single {queue : Part W Queue} {made : List (Nat × Move W)} {k : Nat}
    (single : (lots queue made).map Lot.caller = [k]) : InTurn queue made := by
  have only {l : Lot} (member : l ∈ lots queue made) : l.caller = k :=
    List.mem_singleton.1 (single ▸ List.mem_map_of_mem member)
  exact fun l member l' member' _ => (only member').trans (only member).symm

/-- Two notes that are fine are both appended, and then it is as if they had never waited. -/
theorem notes_appended :
    appended officeQueue (officeMade .null 12) = injections officeQueue (officeMade .null 12) ∧
      (injections officeQueue (officeMade .null 12)).length = 2 := by
  obtain ⟨_, _, _, _, _, _, whole⟩ := batches_appended_unless_lost
    (spared_memory disjoint_office 3) (fun _ _ impossible => impossible.elim) rfl
    (history_office .null 12)
  have settled : ∀ task ∈ (office .null 12).tasks, task.request.Conditional →
      left officeQueue task.moves = [] := by decide +kernel
  have inTurn : InTurn officeQueue (officeMade .null 12) :=
    inTurn_of_single (k := 2) (by decide +kernel)
  have empty : (officeQueue.get (office .null 12).state).pending = [] := by decide +kernel
  have all := (whole settled).2 inTurn
  rw [empty, List.append_nil] at all
  exact ⟨all, by decide +kernel⟩

def nested (n : Nat) : Json :=
  Nat.repeat (fun v => .arr [v]) n .null

theorem plain_nested (n : Nat) : Json.Plain (nested n) := by
  induction n with
  | zero => exact .null
  | succ n ih => exact .arr _ fun v member => List.mem_singleton.1 member ▸ ih

theorem nesting_nested (n : Nat) : (nested n).nesting = n := by
  induction n with
  | zero => rfl
  | succ n ih =>
      change Json.deepest [nested n] + 1 = n + 1
      rw [Json.deepest, ih, Json.deepest, Nat.max_zero]

def noteBatch (note : Json) : Payload :=
  Text.Glyph.ofString (Json.arr [(notes.envelopeOf (note, note)).json]).text

/-- The first note is nested one level more than the log reads. -/
theorem split_too_deep : split (noteBatch (nested 126)) = .error .malformedPayload := by
  have deep : ¬ Shallow [(nested 126, nested 126)] := by
    intro shallow
    have within := shallow _ List.mem_cons_self
    rw [nesting_nested] at within
    exact absurd within (by decide)
  have plain : ∀ b ∈ [(nested 126, nested 126)], Json.Plain b.2 :=
    List.forall_mem_singleton.2 (plain_nested 126)
  exact (split_batch notes (List.cons_ne_nil _ _) plain).trans (if_neg deep)

theorem append_refused (clock : Part W Clock) (log : Part W Memory) (rounds : Nat) (ctx : Context)
    {payload : Payload} {e : Error} (refused : split payload = .error e) :
    (Memory.eventLog clock log rounds).append ctx payload = pure (.error e) :=
  (refuses_of_split refused).append clock log

/-- The first sending takes both notes. -/
theorem sending_took : ((office (nested 126) 1).tasks[2]?).map
      (fun task => taken officeQueue task.moves) =
    some [noteBatch (nested 126), noteBatch (.int 1)] := rfl

/-- The number is not sent, because the first note cannot be appended before it. -/
theorem sending_refused : ∃ moves, (office (nested 126) 1).tasks[2]? =
    some ⟨sending, moves, .done (.error (.log .malformedPayload), ())⟩ := by
  have asked : ((office (nested 126) 1).tasks[2]?).map Task.request = some sending := rfl
  obtain ⟨⟨r, moves, fiber⟩, found, took⟩ := Option.map_eq_some_iff.1 sending_took
  rw [found] at asked
  cases Option.some.inj asked
  have leads := Pool.leads_of_reachable (history_office (nested 126) 1).reachable _
    (List.mem_of_getElem? found)
  have refused := append_refused officeClock officeLog 3 ⟨0, none⟩ split_too_deep
  rcases stage_of_leads leads with ⟨rfl, _⟩ | ⟨done, rest, stage⟩
  · cases took
  · have ended : fiber = .done (.error (.log .malformedPayload), ()) := stage.refused refused took
    subst ended
    exact ⟨moves, found⟩

/-- The number that is sent next goes to the start of the log, as if no note had ever waited. -/
theorem sending_next : ∃ moves, (office (nested 126) 1).tasks[3]? =
    some ⟨sending, moves, .done (.ok (some ⟨.ofNat 0, .ofNat 1⟩), ())⟩ := ⟨_, rfl⟩

/-- Two notes wait, and the log refuses the first.  Neither has been appended in the end, and
neither waits. -/
theorem refused_note_loses_both :
    Pool.History officeAnswer (Request.Keeps (Polite officeQueue)) (fun _ _ => False)
      (.start, .empty, .empty) (officeMade (nested 126) 1) (office (nested 126) 1) ∧
    InTurn officeQueue (officeMade (nested 126) 1) ∧
    (∃ moves, (office (nested 126) 1).tasks[2]? =
      some ⟨sending, moves, .done (.error (.log .malformedPayload), ())⟩) ∧
    (∃ moves, (office (nested 126) 1).tasks[3]? =
      some ⟨sending, moves, .done (.ok (some ⟨.ofNat 0, .ofNat 1⟩), ())⟩) ∧
    injections officeQueue (officeMade (nested 126) 1) =
      [noteBatch (nested 126), noteBatch (.int 1)] ∧
    appended officeQueue (officeMade (nested 126) 1) ++
        (officeQueue.get (office (nested 126) 1).state).pending ≠
      injections officeQueue (officeMade (nested 126) 1) := by
  have inTurn : InTurn officeQueue (officeMade (nested 126) 1) := inTurn_of_single (k := 2) rfl
  have injected : injections officeQueue (officeMade (nested 126) 1) =
      [noteBatch (nested 126), noteBatch (.int 1)] := rfl
  have left : appended officeQueue (officeMade (nested 126) 1) ++
      (officeQueue.get (office (nested 126) 1).state).pending = [] := rfl
  refine ⟨history_office (nested 126) 1, inTurn, sending_refused, sending_next, injected, ?_⟩
  rw [left, injected]
  exact (List.cons_ne_nil _ _).symm

end EventSourcing.Log.Queue
