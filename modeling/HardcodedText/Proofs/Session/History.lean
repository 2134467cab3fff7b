import HardcodedText.Proofs.Session.Debouncer
import HardcodedText.Table

/-!
What the events around a debouncer say about it. A call waits exactly as long as nothing has
settled it since it was scheduled, a call begins only while it waits, and none begins twice. The
same events drive a table of tasks in which the beginning of a task removes the entry of its key,
whoever owns it; that table never loses the entry of another task.
-/

namespace HardcodedText

namespace Debouncer

variable {α ε : Type}

inductive Operation (α : Type)
  | schedule (key : Text) (action : α)
  | cancel (key : Text)
  | cancelAll
  deriving DecidableEq, Repr

namespace Operation

def apply (debouncer : Debouncer α ε) : Operation α → Debouncer α ε
  | schedule key action => debouncer.schedule key action
  | cancel key => debouncer.cancel key
  | cancelAll => debouncer.cancelAll

def Settles (key : Text) : Operation α → Prop
  | schedule other _ => other = key
  | cancel other => other = key
  | cancelAll => True

end Operation

/-- What can be seen of a debouncer at work: what it is asked, the calls that it begins, the errors
these raise, and the errors that reach a handler. -/
inductive Event (α ε : Type)
  | asked (operation : Operation α)
  | began (delayed : DelayedCall α)
  | raised (delayed : DelayedCall α) (error : ε)
  | handled (delayed : DelayedCall α) (error : ε)
  deriving DecidableEq, Repr

namespace Event

def Settles (delayed : DelayedCall α) : Event α ε → Prop
  | asked operation => operation.Settles delayed.key
  | began other => other.number = delayed.number
  | raised _ _ => False
  | handled _ _ => False

def isSchedule : Event α ε → Bool
  | asked (.schedule _ _) => true
  | _ => false

def begun? : Event α ε → Option (DelayedCall α)
  | began delayed => some delayed
  | _ => none

end Event

def scheduled (log : List (Event α ε)) : Nat :=
  log.countP Event.isSchedule

def begun (log : List (Event α ε)) : List (DelayedCall α) :=
  log.filterMap Event.begun?

theorem begun_concat (log : List (Event α ε)) (event : Event α ε) :
    begun (log ++ [event]) = begun log ++ event.begun?.toList := by
  rw [begun, List.filterMap_append, begun]
  cases event <;> rfl

def Awaited (log : List (Event α ε)) (delayed : DelayedCall α) : Prop :=
  ∃ before after, log = before ++ .asked (.schedule delayed.key delayed.action) :: after ∧
    scheduled before = delayed.number ∧ ∀ event ∈ after, ¬ event.Settles delayed

/-- The debouncer is what the events leave of an empty one. Only a call that waits begins. -/
inductive History : List (Event α ε) → Debouncer α ε → Prop
  | start : History [] {}
  | asked {log debouncer} (earlier : History log debouncer) (operation : Operation α) :
      History (log ++ [.asked operation]) (operation.apply debouncer)
  | began {log debouncer} {delayed : DelayedCall α} (earlier : History log debouncer)
      (waits : delayed ∈ debouncer.waiting) :
      History (log ++ [.began delayed]) (debouncer.release delayed.number)
  | raised {log debouncer} (earlier : History log debouncer) (delayed : DelayedCall α)
      (error : ε) : History (log ++ [.raised delayed error]) debouncer
  | handled {log debouncer} (earlier : History log debouncer) (delayed : DelayedCall α)
      (error : ε) : History (log ++ [.handled delayed error]) debouncer
  | finished {log debouncer} (earlier : History log debouncer) (delayed : DelayedCall α)
      (ending : Ending ε) : History log (debouncer.finish delayed ending)

/-! Splitting a log that grows at its end -/

theorem concat_eq_split {event first : Event α ε} {log before after : List (Event α ε)}
    (split : log ++ [event] = before ++ first :: after) :
    (after = [] ∧ log = before ∧ event = first) ∨
      ∃ shorter, after = shorter ++ [event] ∧ log = before ++ first :: shorter := by
  rcases List.eq_nil_or_concat after with rfl | ⟨shorter, last, rfl⟩
  · obtain ⟨same, ending⟩ := List.append_inj' split rfl
    exact Or.inl ⟨rfl, same, List.singleton_inj.mp ending⟩
  · rw [List.concat_eq_append, ← List.cons_append, ← List.append_assoc] at split
    obtain ⟨same, ending⟩ := List.append_inj' split rfl
    rw [List.concat_eq_append, List.singleton_inj.mp ending]
    exact Or.inr ⟨shorter, rfl, same⟩

theorem split_of_concat {event first : Event α ε} {log before after : List (Event α ε)}
    (split : log ++ [event] = before ++ first :: after) (different : event ≠ first) :
    ∃ shorter, log = before ++ first :: shorter := by
  rcases concat_eq_split split with ⟨-, -, same⟩ | ⟨shorter, -, shorterSplit⟩
  · exact absurd same different
  · exact ⟨shorter, shorterSplit⟩

theorem Awaited.append {log later : List (Event α ε)} {delayed : DelayedCall α}
    (awaited : Awaited log delayed) (quiet : ∀ event ∈ later, ¬ event.Settles delayed) :
    Awaited (log ++ later) delayed := by
  obtain ⟨before, after, rfl, number, silent⟩ := awaited
  refine ⟨before, after ++ later, by simp, number, ?_⟩
  intro event member
  exact (List.mem_append.mp member).elim (silent event) (quiet event)

theorem awaited_concat {log : List (Event α ε)} {event : Event α ε} {delayed : DelayedCall α} :
    Awaited (log ++ [event]) delayed ↔
      (event = .asked (.schedule delayed.key delayed.action) ∧
        scheduled log = delayed.number) ∨ (Awaited log delayed ∧ ¬ event.Settles delayed) := by
  constructor
  · rintro ⟨before, after, split, number, quiet⟩
    rcases concat_eq_split split with ⟨-, rfl, same⟩ | ⟨shorter, rfl, rfl⟩
    · exact Or.inl ⟨same, number⟩
    · refine Or.inr ⟨⟨before, shorter, rfl, number, ?_⟩, quiet event (by simp)⟩
      intro other member
      exact quiet other (List.mem_append_left _ member)
  · rintro (⟨rfl, number⟩ | ⟨awaited, last⟩)
    · exact ⟨log, [], rfl, number, by simp⟩
    · exact awaited.append (by simpa using last)

theorem Awaited.of_append {log later : List (Event α ε)} {delayed : DelayedCall α}
    (awaited : Awaited (log ++ later) delayed)
    (unscheduled : ∀ action, .asked (.schedule delayed.key action) ∉ later) :
    Awaited log delayed ∧ ∀ event ∈ later, ¬ event.Settles delayed := by
  induction later generalizing log with
  | nil => simpa using awaited
  | cons event later ih =>
      rw [List.append_cons] at awaited
      obtain ⟨first, quiet⟩ := ih awaited fun action member =>
        unscheduled action (List.mem_cons_of_mem event member)
      rcases awaited_concat.mp first with ⟨rfl, -⟩ | ⟨awaited, silent⟩
      · exact absurd List.mem_cons_self (unscheduled delayed.action)
      · exact ⟨awaited, List.forall_mem_cons.mpr ⟨silent, quiet⟩⟩

/-! Numbers and keys of the calls that wait -/

/-- At most one call waits under each key, and each under a number of its own. -/
structure Keyed (debouncer : Debouncer α ε) : Prop extends Numbered debouncer where
  one : ∀ first ∈ debouncer.waiting, ∀ second ∈ debouncer.waiting,
    first.key = second.key → first = second

theorem Keyed.fewer {before after : Debouncer α ε} (keyed : before.Keyed)
    (subset : after.waiting ⊆ before.waiting) (next : after.nextNumber = before.nextNumber) :
    after.Keyed where
  toNumbered := keyed.toNumbered.fewer subset next
  one first firstMember second secondMember :=
    keyed.one first (subset firstMember) second (subset secondMember)

theorem Keyed.cancel {debouncer : Debouncer α ε} (keyed : debouncer.Keyed) (key : Text) :
    (debouncer.cancel key).Keyed :=
  keyed.fewer (waiting_cancel debouncer key ▸ List.filter_subset_self _) rfl

theorem Keyed.schedule {debouncer : Debouncer α ε} (keyed : debouncer.Keyed) (key : Text)
    (action : α) : (debouncer.schedule key action).Keyed := by
  refine ⟨keyed.toNumbered.schedule key action, ?_⟩
  intro first firstMember second secondMember same
  simp only [waiting_schedule, List.mem_append, List.mem_filter, List.mem_singleton,
    bne_iff_ne] at firstMember secondMember
  rcases firstMember with ⟨waits, other⟩ | rfl <;> rcases secondMember with ⟨waits', other'⟩ | rfl
  · exact keyed.one first waits second waits' same
  · exact absurd same other
  · exact absurd same.symm other'
  · rfl

theorem Keyed.filter_number {debouncer : Debouncer α ε} (keyed : debouncer.Keyed)
    {delayed : DelayedCall α} (waits : delayed ∈ debouncer.waiting) :
    debouncer.waiting.filter (fun other => other.number != delayed.number) =
      debouncer.waiting.filter fun other => other.key != delayed.key := by
  apply List.filter_congr
  intro other member
  by_cases same : other = delayed
  · rw [same, bne_self_eq_false, bne_self_eq_false]
  · have number : other.number ≠ delayed.number := fun equal =>
      same (keyed.unique other member delayed waits equal)
    have key : other.key ≠ delayed.key := fun equal =>
      same (keyed.one other member delayed waits equal)
    rw [bne_iff_ne.mpr number, bne_iff_ne.mpr key]

theorem nextNumber_cancelAll (debouncer : Debouncer α ε) :
    debouncer.cancelAll.nextNumber = debouncer.nextNumber := by
  have each (keys : List Text) (start : Debouncer α ε) :
      (keys.foldl Debouncer.cancel start).nextNumber = start.nextNumber := by
    induction keys generalizing start with
    | nil => rfl
    | cons key keys ih => exact ih (start.cancel key)
  exact each debouncer.pending debouncer

namespace Operation

theorem keyed_apply {debouncer : Debouncer α ε} (keyed : debouncer.Keyed)
    (operation : Operation α) : (operation.apply debouncer).Keyed := by
  cases operation with
  | schedule key action => exact keyed.schedule key action
  | cancel key => exact keyed.cancel key
  | cancelAll =>
      exact keyed.fewer (waiting_cancelAll debouncer ▸ List.nil_subset _)
        (nextNumber_cancelAll debouncer)

theorem nextNumber_apply (debouncer : Debouncer α ε) (operation : Operation α) :
    (operation.apply debouncer).nextNumber =
      debouncer.nextNumber + scheduled [(.asked operation : Event α ε)] := by
  cases operation with
  | schedule key action => rfl
  | cancel key => rfl
  | cancelAll => exact nextNumber_cancelAll debouncer

theorem mem_waiting_apply {debouncer : Debouncer α ε} {operation : Operation α}
    {delayed : DelayedCall α} :
    delayed ∈ (operation.apply debouncer).waiting ↔
      (operation = .schedule delayed.key delayed.action ∧
        debouncer.nextNumber = delayed.number) ∨
      (delayed ∈ debouncer.waiting ∧ ¬ operation.Settles delayed.key) := by
  cases operation with
  | schedule key action =>
      simp only [apply, waiting_schedule, List.mem_append, List.mem_filter, List.mem_singleton,
        bne_iff_ne, Settles, schedule.injEq]
      rw [or_comm]
      apply or_congr
      · constructor
        · rintro rfl
          exact ⟨⟨rfl, rfl⟩, rfl⟩
        · rintro ⟨⟨rfl, rfl⟩, next⟩
          rw [next]
      · rw [ne_comm]
  | cancel key =>
      simp only [apply, waiting_cancel, List.mem_filter, bne_iff_ne, Settles, reduceCtorEq,
        false_and, false_or]
      rw [ne_comm]
  | cancelAll => simp [apply, Settles]

end Operation

/-! What the events say -/

namespace History

variable {log : List (Event α ε)} {debouncer : Debouncer α ε}

theorem asks (history : History log debouncer) (operations : List (Operation α)) :
    History (log ++ operations.map .asked) (operations.foldl Operation.apply debouncer) := by
  induction operations generalizing log debouncer with
  | nil => simpa using history
  | cons operation operations ih =>
      rw [List.map_cons, List.append_cons]
      exact ih (history.asked operation)

theorem nextNumber_eq (history : History log debouncer) :
    debouncer.nextNumber = scheduled log := by
  induction history with
  | start => rfl
  | asked _ operation ih =>
      rw [Operation.nextNumber_apply, ih, scheduled, scheduled, scheduled, List.countP_append]
  | began _ _ ih => simpa [scheduled, Event.isSchedule, release] using ih
  | raised _ _ _ ih => simpa [scheduled, Event.isSchedule] using ih
  | handled _ _ _ ih => simpa [scheduled, Event.isSchedule] using ih
  | finished _ _ _ ih => exact ih

theorem keyed (history : History log debouncer) : debouncer.Keyed := by
  induction history with
  | start => exact ⟨Numbered.of_nil rfl, by simp⟩
  | asked _ operation ih => exact operation.keyed_apply ih
  | began _ _ ih => exact ih.fewer (List.filter_subset_self _) rfl
  | raised _ _ _ ih => exact ih
  | handled _ _ _ ih => exact ih
  | finished _ _ _ ih => exact ih.fewer (List.Subset.refl _) rfl

theorem mem_waiting_iff (history : History log debouncer) (delayed : DelayedCall α) :
    delayed ∈ debouncer.waiting ↔ Awaited log delayed := by
  induction history with
  | start => simp [Awaited]
  | asked earlier operation ih =>
      rw [Operation.mem_waiting_apply, awaited_concat, ih, earlier.nextNumber_eq,
        Event.asked.injEq]
      rfl
  | began _ _ ih =>
      rw [waiting_release, List.mem_filter, awaited_concat, ih, bne_iff_ne, ne_comm]
      simp [Event.Settles]
  | raised _ _ _ ih => simpa [awaited_concat, Event.Settles] using ih
  | handled _ _ _ ih => simpa [awaited_concat, Event.Settles] using ih
  | finished _ _ _ ih => exact ih

theorem awaited_of_began (history : History log debouncer) {before after : List (Event α ε)}
    {delayed : DelayedCall α} (split : log = before ++ .began delayed :: after) :
    Awaited before delayed := by
  induction history generalizing after with
  | start => simp at split
  | asked _ _ ih =>
      obtain ⟨shorter, split⟩ := split_of_concat split (by simp)
      exact ih split
  | began earlier waits ih =>
      rcases concat_eq_split split with ⟨-, rfl, same⟩ | ⟨shorter, -, split⟩
      · obtain rfl := Event.began.inj same
        exact (earlier.mem_waiting_iff _).mp waits
      · exact ih split
  | raised _ _ _ ih =>
      obtain ⟨shorter, split⟩ := split_of_concat split (by simp)
      exact ih split
  | handled _ _ _ ih =>
      obtain ⟨shorter, split⟩ := split_of_concat split (by simp)
      exact ih split
  | finished _ _ _ ih => exact ih split

theorem begun_settled (history : History log debouncer) :
    ∀ delayed ∈ begun log, delayed.number < debouncer.nextNumber ∧
      ∀ other ∈ debouncer.waiting, other.number ≠ delayed.number := by
  induction history with
  | start => simp [begun]
  | asked earlier operation ih =>
      -- A call that is scheduled now has a number that none before it had.
      intro delayed member
      obtain ⟨below, unused⟩ := ih delayed (by simpa [begun_concat, Event.begun?] using member)
      refine ⟨by rw [Operation.nextNumber_apply]; omega, ?_⟩
      intro other waits
      rcases Operation.mem_waiting_apply.mp waits with ⟨-, next⟩ | ⟨waited, -⟩
      · omega
      · exact unused other waited
  | began earlier waits ih =>
      intro delayed member
      simp only [begun_concat, Event.begun?, Option.toList_some, List.mem_append,
        List.mem_singleton] at member
      simp only [waiting_release, List.mem_filter, bne_iff_ne]
      rcases member with old | rfl
      · exact ⟨(ih delayed old).1, fun other left => (ih delayed old).2 other left.1⟩
      · exact ⟨earlier.keyed.below _ waits, fun other left => left.2⟩
  | raised _ _ _ ih => simpa [begun_concat, Event.begun?] using ih
  | handled _ _ _ ih => simpa [begun_concat, Event.begun?] using ih
  | finished _ _ _ ih => exact ih

theorem nodup_begun (history : History log debouncer) :
    ((begun log).map DelayedCall.number).Nodup := by
  induction history with
  | start => simp [begun]
  | asked _ _ ih => simpa [begun_concat, Event.begun?] using ih
  | began earlier waits ih =>
      rw [begun_concat, List.map_append]
      refine List.nodup_append.mpr ⟨ih, by simp [Event.begun?], ?_⟩
      intro number old other new same
      obtain ⟨delayed, member, rfl⟩ := List.mem_map.mp old
      obtain rfl : other = _ := by simpa [Event.begun?] using new
      exact (earlier.begun_settled delayed member).2 _ waits same.symm
  | raised _ _ _ ih => simpa [begun_concat, Event.begun?] using ih
  | handled _ _ _ ih => simpa [begun_concat, Event.begun?] using ih
  | finished _ _ _ ih => exact ih

/-- Nothing waits under the key of a call that has begun meanwhile, unless it has been scheduled
anew. -/
theorem not_mem_pending {later : List (Event α ε)} {after : Debouncer α ε}
    {delayed : DelayedCall α} (history : History log debouncer)
    (whole : History (log ++ later) after) (waits : delayed ∈ debouncer.waiting)
    (begun : .began delayed ∈ later)
    (unscheduled : ∀ action, .asked (.schedule delayed.key action) ∉ later) :
    delayed.key ∉ after.pending := by
  intro pending
  obtain ⟨other, otherWaits, same⟩ := mem_pending.mp pending
  rw [← same] at unscheduled
  obtain ⟨awaited, quiet⟩ := ((whole.mem_waiting_iff other).mp otherWaits).of_append unscheduled
  -- Not scheduled anew, it waited before, under the same key, so it is the call that has begun.
  have before := (history.mem_waiting_iff other).mpr awaited
  rw [history.keyed.one other before delayed waits same] at quiet
  exact quiet _ begun rfl

theorem mem_waiting_of_quiet {later : List (Event α ε)} {after : Debouncer α ε}
    {delayed other : DelayedCall α} (history : History log debouncer)
    (whole : History (log ++ later) after) (waits : delayed ∈ debouncer.waiting)
    (different : other.key ≠ delayed.key)
    (alone : ∀ begun, .began begun ∈ later → begun = delayed)
    (unasked : ∀ operation, .asked operation ∈ later → ¬ operation.Settles other.key) :
    other ∈ after.waiting ↔ other ∈ debouncer.waiting := by
  constructor
  · intro otherWaits
    apply (history.mem_waiting_iff other).mpr
    apply (((whole.mem_waiting_iff other).mp otherWaits).of_append _).1
    intro action member
    exact unasked _ member rfl
  · intro otherWaits
    apply (whole.mem_waiting_iff other).mpr
    apply ((history.mem_waiting_iff other).mp otherWaits).append
    intro event member settles
    cases event with
    | asked operation => exact unasked operation member settles
    | began begun =>
        obtain rfl := alone begun member
        exact different (congrArg DelayedCall.key
          (history.keyed.unique other otherWaits _ waits settles.symm))
    | raised _ _ => exact settles
    | handled _ _ => exact settles

end History

/-! The table of tasks -/

structure Tasks (α : Type) where
  started : Nat := 0
  table : Table Nat := []
  alive : List (DelayedCall α) := []
  deriving DecidableEq, Repr

namespace Tasks

def cancel (tasks : Tasks α) (key : Text) : Tasks α :=
  match tasks.table.get? key with
  | some number =>
      { tasks with
        table := tasks.table.erase key
        alive := tasks.alive.filter fun delayed => delayed.number != number }
  | none => tasks

def schedule (tasks : Tasks α) (key : Text) (action : α) : Tasks α :=
  let cleared := tasks.cancel key
  { started := cleared.started + 1
    table := cleared.table.put key cleared.started
    alive := cleared.alive ++ [⟨cleared.started, key, action⟩] }

def cancelAll (tasks : Tasks α) : Tasks α :=
  tasks.table.keys.foldl cancel tasks

/-- The task goes on after its delay: it clears the entry of its key, be it its own or not. -/
def begin (tasks : Tasks α) (delayed : DelayedCall α) : Tasks α :=
  { tasks with
    table := tasks.table.erase delayed.key
    alive := tasks.alive.filter fun other => other.number != delayed.number }

def observe (tasks : Tasks α) : Event α ε → Tasks α
  | .asked (.schedule key action) => tasks.schedule key action
  | .asked (.cancel key) => tasks.cancel key
  | .asked .cancelAll => tasks.cancelAll
  | .began delayed => tasks.begin delayed
  | .raised _ _ => tasks
  | .handled _ _ => tasks

def replay (log : List (Event α ε)) : Tasks α :=
  log.foldl observe {}

end Tasks

def tasks (debouncer : Debouncer α ε) : Tasks α where
  started := debouncer.nextNumber
  table := debouncer.waiting.map fun delayed => (delayed.key, delayed.number)
  alive := debouncer.waiting

theorem erase_table (debouncer : Debouncer α ε) (key : Text) :
    debouncer.tasks.table.erase key =
      (debouncer.waiting.filter fun delayed => delayed.key != key).map
        fun delayed => (delayed.key, delayed.number) := by
  rw [tasks, Table.erase, List.filter_map]
  rfl

theorem Keyed.tasks_cancel {debouncer : Debouncer α ε} (keyed : debouncer.Keyed) (key : Text) :
    debouncer.tasks.cancel key = (debouncer.cancel key).tasks := by
  have shown : (debouncer.cancel key).tasks =
      { debouncer.tasks with
        table := debouncer.tasks.table.erase key
        alive := debouncer.waiting.filter fun delayed => delayed.key != key } := by
    rw [erase_table, tasks, waiting_cancel]
    rfl
  rw [shown, Tasks.cancel]
  split
  next number found =>
    obtain ⟨delayed, waits, same⟩ := List.mem_map.mp (Table.mem_of_get? found)
    obtain ⟨rfl, rfl⟩ := Prod.mk.inj same
    rw [← keyed.filter_number waits]
    rfl
  next missing =>
    -- No task is in the table under the key, so no call waits under it either.
    have absent : ∀ delayed ∈ debouncer.waiting, (delayed.key != key) = true := by
      intro delayed waits
      rw [bne_iff_ne]
      rintro rfl
      have listed : delayed.key ∈ debouncer.tasks.table.keys := by
        simpa [tasks, Table.keys] using ⟨delayed, waits, rfl⟩
      obtain ⟨number, found⟩ := Table.mem_keys_iff.mp listed
      rw [missing] at found
      simp at found
    rw [erase_table, List.filter_eq_self.mpr absent]
    rfl

theorem Keyed.tasks_cancelEach (keys : List Text) {debouncer : Debouncer α ε}
    (keyed : debouncer.Keyed) :
    keys.foldl Tasks.cancel debouncer.tasks = (keys.foldl Debouncer.cancel debouncer).tasks := by
  induction keys generalizing debouncer with
  | nil => rfl
  | cons key keys ih =>
      rw [List.foldl_cons, List.foldl_cons, keyed.tasks_cancel, ih (keyed.cancel key)]

theorem Keyed.tasks_schedule {debouncer : Debouncer α ε} (keyed : debouncer.Keyed) (key : Text)
    (action : α) : debouncer.tasks.schedule key action = (debouncer.schedule key action).tasks := by
  have absent : (debouncer.cancel key).tasks.table.get? key = none := by
    have erased : (debouncer.cancel key).tasks.table = debouncer.tasks.table.erase key := by
      rw [erase_table, tasks, waiting_cancel]
    rw [erased, Table.get?_erase_self]
  rw [Tasks.schedule, keyed.tasks_cancel, Table.put_eq_append absent, tasks, tasks,
    waiting_schedule, waiting_cancel, List.map_append]
  rfl

/-- The entry that a task clears when it goes on is its own. -/
theorem Keyed.tasks_begin {debouncer : Debouncer α ε} (keyed : debouncer.Keyed)
    {delayed : DelayedCall α} (waits : delayed ∈ debouncer.waiting) :
    debouncer.tasks.begin delayed = (debouncer.release delayed.number).tasks := by
  rw [Tasks.begin, erase_table, ← keyed.filter_number waits]
  rfl

theorem History.replay_eq {log : List (Event α ε)} {debouncer : Debouncer α ε}
    (history : History log debouncer) : Tasks.replay log = debouncer.tasks := by
  induction history with
  | start => rfl
  | asked earlier operation ih =>
      rw [Tasks.replay, List.foldl_concat, ← Tasks.replay, ih]
      cases operation with
      | schedule key action => exact earlier.keyed.tasks_schedule key action
      | cancel key => exact earlier.keyed.tasks_cancel key
      | cancelAll =>
          rw [Tasks.observe, Tasks.cancelAll, earlier.keyed.tasks_cancelEach]
          simp only [tasks, Table.keys, List.map_map]
          rfl
  | began earlier waits ih =>
      rw [Tasks.replay, List.foldl_concat, ← Tasks.replay, ih]
      exact earlier.keyed.tasks_begin waits
  | raised _ _ _ ih => rw [Tasks.replay, List.foldl_concat, ← Tasks.replay, ih]; rfl
  | handled _ _ _ ih => rw [Tasks.replay, List.foldl_concat, ← Tasks.replay, ih]; rfl
  | finished _ _ _ ih => exact ih

end Debouncer

end HardcodedText
