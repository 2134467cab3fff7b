import HardcodedText.Proofs.Session.History

/-!
Runs of a debouncer in which operations and ends of delays come in any order, and in which the
calls and their error handlers may use the debouncer themselves. A recording host writes down what
it is made to call, and the runs are judged by that record.
-/

namespace HardcodedText

namespace Debouncer

variable {α ε σ : Type}

/-- The functions and the error handlers of the host use its debouncer through operations only, and
these are the operations. -/
structure Usage (host : Host α ε σ) where
  called : DelayedCall α → σ → List (Operation α)
  handled : DelayedCall α → ε → σ → List (Operation α)
  debouncer_modify : ∀ change state,
    host.debouncer (host.modify change state) = change (host.debouncer state)
  debouncer_call : ∀ delayed state, host.debouncer (host.call delayed state).1 =
    (called delayed state).foldl Operation.apply (host.debouncer state)
  debouncer_handler : ∀ delayed handler, host.onError delayed = some handler →
    ∀ error state, host.debouncer (handler error state) =
      (handled delayed error state).foldl Operation.apply (host.debouncer state)

inductive Step (α : Type)
  | ask (operation : Operation α)
  /-- The delay of the call with the number ends. -/
  | expire (number : Nat)
  deriving DecidableEq, Repr

structure Recorded (α ε σ : Type) where
  state : σ
  log : List (Event α ε) := []

def failures (log : List (Event α ε)) : List (DelayedCall α × ε) :=
  log.filterMap fun event =>
    match event with
    | .raised delayed error => some (delayed, error)
    | _ => none

def handlings (log : List (Event α ε)) : List (DelayedCall α × ε) :=
  log.filterMap fun event =>
    match event with
    | .handled delayed error => some (delayed, error)
    | _ => none

/-- The end of a delay finds its call, unless that has been cancelled or has begun before. -/
def perform (host : Host α ε σ) (state : σ) : Step α → σ
  | .ask operation => host.modify (Operation.apply · operation) state
  | .expire number =>
      match (host.debouncer state).waiting.find? fun delayed => delayed.number == number with
      | some delayed => expire host delayed state
      | none => state

namespace Usage

variable {host : Host α ε σ} (usage : Usage host)

def recording : Host α ε (Recorded α ε σ) where
  debouncer recorded := host.debouncer recorded.state
  modify change recorded := { recorded with state := host.modify change recorded.state }
  call delayed recorded :=
    let (after, result) := host.call delayed recorded.state
    let failure := match result with
      | .ok () => []
      | .error error => [.raised delayed error]
    let own := (usage.called delayed recorded.state).map .asked
    (⟨after, recorded.log ++ .began delayed :: own ++ failure⟩, result)
  onError delayed := (host.onError delayed).map fun handler error recorded =>
    let own := (usage.handled delayed error recorded.state).map .asked
    ⟨handler error recorded.state, recorded.log ++ .handled delayed error :: own⟩

def take (recorded : Recorded α ε σ) (step : Step α) : Recorded α ε σ :=
  match step with
  | .ask operation => ⟨perform host recorded.state step, recorded.log ++ [.asked operation]⟩
  | .expire _ => perform usage.recording recorded step

def run (start : σ) (steps : List (Step α)) : Recorded α ε σ :=
  steps.foldl usage.take ⟨start, []⟩

def reaction (delayed : DelayedCall α) (error : ε) (after : σ) : List (Operation α) :=
  if (host.onError delayed).isSome then usage.handled delayed error after else []

def aftermath (delayed : DelayedCall α) (error : ε) (after : σ) : List (Event α ε) :=
  .raised delayed error ::
    if (host.onError delayed).isSome then
      .handled delayed error :: (usage.reaction delayed error after).map .asked
    else []

def events (delayed : DelayedCall α) (state : σ) : List (Event α ε) :=
  .began delayed :: (usage.called delayed state).map .asked ++
    match host.call delayed state with
    | (_, .ok ()) => []
    | (after, .error error) => usage.aftermath delayed error after

theorem runCall_recording (delayed : DelayedCall α) (recorded : Recorded α ε σ) :
    runCall usage.recording delayed recorded =
      (⟨(runCall host delayed recorded.state).1,
          recorded.log ++ usage.events delayed recorded.state⟩,
        (runCall host delayed recorded.state).2) := by
  rcases called : host.call delayed recorded.state with ⟨after, error | ⟨⟩⟩
  · cases handler : host.onError delayed <;>
      simp [runCall, recording, events, aftermath, reaction, called, handler]
  · simp [runCall, recording, events, called]

theorem expire_recording {delayed : DelayedCall α} {recorded : Recorded α ε σ}
    (waits : delayed ∈ (host.debouncer recorded.state).waiting) :
    expire usage.recording delayed recorded =
      ⟨expire host delayed recorded.state, recorded.log ++
        usage.events delayed (host.modify (·.release delayed.number) recorded.state)⟩ := by
  have recordedWaits : delayed ∈ (usage.recording.debouncer recorded).waiting := waits
  rw [expire_of_mem recordedWaits, expire_of_mem waits]
  simp only [runCall_recording]
  rfl

theorem take_expire_cases (recorded : Recorded α ε σ) (number : Nat) :
    ((∀ delayed ∈ (host.debouncer recorded.state).waiting, delayed.number ≠ number) ∧
      perform host recorded.state (.expire number) = recorded.state ∧
      usage.take recorded (.expire number) = recorded) ∨
    ∃ delayed ∈ (host.debouncer recorded.state).waiting, delayed.number = number ∧
      perform host recorded.state (.expire number) = expire host delayed recorded.state ∧
      usage.take recorded (.expire number) =
        ⟨expire host delayed recorded.state, recorded.log ++
          usage.events delayed (host.modify (·.release number) recorded.state)⟩ := by
  have recordedWaiting :
      usage.recording.debouncer recorded = host.debouncer recorded.state := rfl
  simp only [take, perform, recordedWaiting]
  cases found : (host.debouncer recorded.state).waiting.find? fun delayed =>
      delayed.number == number with
  | none =>
      refine Or.inl ⟨?_, rfl, rfl⟩
      intro delayed waits
      simpa using List.find?_eq_none.mp found delayed waits
  | some delayed =>
      have waits := List.mem_of_find?_eq_some found
      obtain rfl : delayed.number = number := by simpa using List.find?_some found
      exact Or.inr ⟨delayed, waits, rfl, rfl, usage.expire_recording waits⟩

theorem state_take (recorded : Recorded α ε σ) (step : Step α) :
    (usage.take recorded step).state = perform host recorded.state step := by
  cases step with
  | ask operation => rfl
  | expire number =>
      rcases usage.take_expire_cases recorded number with ⟨-, same, idle⟩ | ⟨_, -, -, ran, seen⟩
      · rw [same, idle]
      · rw [ran, seen]

theorem state_run (start : σ) (steps : List (Step α)) :
    (usage.run start steps).state = steps.foldl (perform host) start := by
  have each (recorded : Recorded α ε σ) :
      (steps.foldl usage.take recorded).state = steps.foldl (perform host) recorded.state := by
    induction steps generalizing recorded with
    | nil => rfl
    | cons step steps ih => rw [List.foldl_cons, ih, state_take, List.foldl_cons]
  exact each ⟨start, []⟩

@[simp] theorem asked_mem_aftermath {delayed : DelayedCall α} {error : ε} {after : σ}
    {operation : Operation α} : .asked operation ∈ usage.aftermath delayed error after ↔
      operation ∈ usage.reaction delayed error after := by
  by_cases handler : (host.onError delayed).isSome <;> simp [aftermath, reaction, handler]

@[simp] theorem began_not_mem_aftermath {delayed begun : DelayedCall α} {error : ε} {after : σ} :
    .began begun ∉ usage.aftermath delayed error after := by
  by_cases handler : (host.onError delayed).isSome <;> simp [aftermath, handler]

theorem run_induction {motive : Recorded α ε σ → Prop} {start : σ} (first : motive ⟨start, []⟩)
    (step : ∀ recorded step, motive recorded → motive (usage.take recorded step))
    (steps : List (Step α)) : motive (usage.run start steps) := by
  have each {recorded : Recorded α ε σ} (kept : motive recorded) :
      motive (steps.foldl usage.take recorded) := by
    induction steps generalizing recorded with
    | nil => exact kept
    | cons next later ih => exact ih (step recorded next kept)
  exact each first

/-! The record is the history of the debouncer -/

theorem history_runCall {log : List (Event α ε)} {delayed : DelayedCall α} {state : σ}
    (history : History (log ++ [.began delayed]) (host.debouncer state)) :
    History (log ++ usage.events delayed state)
      (host.debouncer (runCall host delayed state).1) := by
  have called := history.asks (usage.called delayed state)
  rw [← usage.debouncer_call] at called
  rcases result : host.call delayed state with ⟨after, error | ⟨⟩⟩
  · rw [result] at called
    have raised := called.raised delayed error
    cases handler : host.onError delayed with
    | none => simpa [runCall, events, aftermath, result, handler] using raised
    | some handle =>
        have handled := (raised.handled delayed error).asks (usage.handled delayed error after)
        rw [← usage.debouncer_handler delayed handle handler] at handled
        simpa [runCall, events, aftermath, reaction, result, handler] using handled
  · simpa [runCall, events, result] using called

theorem history_take {recorded : Recorded α ε σ}
    (history : History recorded.log (host.debouncer recorded.state)) (step : Step α) :
    History (usage.take recorded step).log (host.debouncer (usage.take recorded step).state) := by
  cases step with
  | ask operation =>
      change History (recorded.log ++ [.asked operation])
        (host.debouncer (host.modify (Operation.apply · operation) recorded.state))
      rw [usage.debouncer_modify]
      exact history.asked operation
  | expire number =>
      rcases usage.take_expire_cases recorded number with
        ⟨-, -, idle⟩ | ⟨delayed, waits, rfl, -, seen⟩
      · rwa [idle]
      · have begun := history.began waits
        rw [← usage.debouncer_modify (·.release delayed.number)] at begun
        have ran := usage.history_runCall begun
        rw [seen, expire_of_mem waits]
        simp only [usage.debouncer_modify]
        exact ran.finished delayed _

theorem history_run {start : σ} (empty : host.debouncer start = {}) (steps : List (Step α)) :
    History (usage.run start steps).log (host.debouncer (usage.run start steps).state) := by
  apply usage.run_induction (motive := fun recorded =>
    History recorded.log (host.debouncer recorded.state))
  · rw [empty]
    exact .start
  · intro recorded step history
    exact usage.history_take history step

/-! Errors and their handlers -/

/-- Each error comes from a call that has begun and goes to the handler of the call, if it has
one, and to no other. -/
structure Reported (host : Host α ε σ) (log : List (Event α ε)) : Prop where
  handled : handlings log = (failures log).filter fun failure => (host.onError failure.1).isSome
  begun : ((failures log).map Prod.fst).Sublist (Debouncer.begun log)

theorem Reported.append {log later : List (Event α ε)} (early : Reported host log)
    (late : Reported host later) : Reported host (log ++ later) where
  handled := by
    rw [handlings, failures, List.filterMap_append, List.filterMap_append, List.filter_append]
    exact congrArg₂ _ early.handled late.handled
  begun := by
    rw [failures, Debouncer.begun, List.filterMap_append, List.filterMap_append, List.map_append]
    exact early.begun.append late.begun

theorem Reported.of_asked (operations : List (Operation α)) :
    Reported host (operations.map .asked) := by
  constructor <;> simp [handlings, failures, List.filterMap_map]

theorem reported_events (delayed : DelayedCall α) (state : σ) :
    Reported host (usage.events delayed state) := by
  rcases result : host.call delayed state with ⟨after, error | ⟨⟩⟩
  · by_cases handler : (host.onError delayed).isSome <;> constructor <;>
      simp [events, aftermath, handlings, failures, Debouncer.begun, Event.begun?,
        List.filterMap_map, result, handler]
  · constructor <;> simp [events, handlings, failures, List.filterMap_map, result]

theorem reported_take {recorded : Recorded α ε σ} (reported : Reported host recorded.log)
    (step : Step α) : Reported host (usage.take recorded step).log := by
  cases step with
  | ask operation => exact reported.append (Reported.of_asked [operation])
  | expire number =>
      rcases usage.take_expire_cases recorded number with ⟨-, -, idle⟩ | ⟨delayed, -, -, -, seen⟩
      · rwa [idle]
      · rw [seen]
        exact reported.append (usage.reported_events delayed _)

theorem reported_run (start : σ) (steps : List (Step α)) :
    Reported host (usage.run start steps).log := by
  apply usage.run_induction (motive := fun recorded => Reported host recorded.log)
  · exact Reported.of_asked []
  · intro recorded step reported
    exact usage.reported_take reported step

theorem run_expire {start : σ} {steps : List (Step α)} {delayed : DelayedCall α}
    (empty : host.debouncer start = {})
    (waits : delayed ∈ (host.debouncer (usage.run start steps).state).waiting) :
    usage.run start (steps ++ [.expire delayed.number]) =
      ⟨expire host delayed (usage.run start steps).state, (usage.run start steps).log ++
        usage.events delayed
          (host.modify (·.release delayed.number) (usage.run start steps).state)⟩ := by
  rw [run, List.foldl_concat, ← run]
  rcases usage.take_expire_cases (usage.run start steps) delayed.number with
    ⟨gone, -, -⟩ | ⟨other, otherWaits, same, -, seen⟩
  · exact absurd rfl (gone delayed waits)
  · rw [seen, (usage.history_run empty steps).keyed.unique other otherWaits delayed waits same]

theorem debouncer_runCall {delayed : DelayedCall α} {state after : σ} {error : ε}
    (raised : host.call delayed state = (after, .error error)) :
    host.debouncer (runCall host delayed state).1 =
      (usage.called delayed state ++ usage.reaction delayed error after).foldl Operation.apply
        (host.debouncer state) := by
  have called := usage.debouncer_call delayed state
  rw [raised] at called
  rw [List.foldl_append, ← called]
  cases handler : host.onError delayed with
  | none => simp [runCall, reaction, raised, handler]
  | some handle =>
      simpa [runCall, reaction, raised, handler] using
        usage.debouncer_handler delayed handle handler error after

/-- The end of a delay whose call is given the first state and leaves the second one with the error.
The call has left its key before it began, and the other keys alone; what changes besides is what
the call and its handler ask for. -/
structure Fails (recorded next : Recorded α ε σ) (delayed : DelayedCall α) (released after : σ)
    (error : ε) : Prop where
  log : next.log = recorded.log ++ (.began delayed ::
    (usage.called delayed released).map .asked ++ usage.aftermath delayed error after)
  left : (host.debouncer released).waiting =
    (host.debouncer recorded.state).waiting.filter fun other => other.key != delayed.key
  kept : (host.debouncer next.state).waiting =
    ((usage.called delayed released ++ usage.reaction delayed error after).foldl Operation.apply
      (host.debouncer released)).waiting
  gone : (∀ action, .schedule delayed.key action ∉
      usage.called delayed released ++ usage.reaction delayed error after) →
    delayed.key ∉ (host.debouncer next.state).pending
  untouched : ∀ other, other.key ≠ delayed.key →
    (∀ operation ∈ usage.called delayed released ++ usage.reaction delayed error after,
      ¬ operation.Settles other.key) →
    (other ∈ (host.debouncer next.state).waiting ↔
      other ∈ (host.debouncer recorded.state).waiting)

theorem fails_run {start after : σ} {steps : List (Step α)} {delayed : DelayedCall α} {error : ε}
    (empty : host.debouncer start = {})
    (waits : delayed ∈ (host.debouncer (usage.run start steps).state).waiting)
    (raised : host.call delayed
      (host.modify (·.release delayed.number) (usage.run start steps).state) =
        (after, .error error)) :
    usage.Fails (usage.run start steps) (usage.run start (steps ++ [.expire delayed.number]))
      delayed (host.modify (·.release delayed.number) (usage.run start steps).state) after
      error := by
  have history := usage.history_run empty steps
  have whole := usage.history_run empty (steps ++ [.expire delayed.number])
  have step := usage.run_expire empty waits
  rw [events, raised] at step
  rw [step] at whole ⊢
  constructor
  · rfl
  · rw [usage.debouncer_modify, waiting_release, history.keyed.filter_number waits]
  · simp only [expire_of_mem waits, usage.debouncer_modify, waiting_finish,
      usage.debouncer_runCall raised]
  · intro unscheduled
    apply history.not_mem_pending whole waits (by simp)
    intro action member
    exact unscheduled action (by simpa using member)
  · intro other different unasked
    apply history.mem_waiting_of_quiet whole waits different
    · intro begun member
      simpa using member
    · intro operation member
      exact unasked operation (by simpa using member)

end Usage

/-- In every run, with any operations and ends of delays and with calls and handlers that use the
debouncer themselves: a key is pending exactly if a call is scheduled under it that has since
neither been settled nor begun. A call begins at most once, and only while it is awaited so. In the
table of tasks the same events remove no entry but that of the task concerned. Each error goes to
the handler of its call once, and a call that raises one fails alone. -/
theorem delayed_calls_run_once_unless_superseded {host : Host α ε σ} (usage : Usage host)
    {start : σ} (empty : host.debouncer start = {}) (steps : List (Step α)) :
    let recorded := usage.run start steps
    let debouncer := host.debouncer recorded.state
    recorded.state = steps.foldl (perform host) start ∧
    (∀ key, key ∈ debouncer.pending ↔
      ∃ delayed, delayed.key = key ∧ Awaited recorded.log delayed) ∧
    ((begun recorded.log).map DelayedCall.number).Nodup ∧
    (∀ before delayed after, recorded.log = before ++ .began delayed :: after →
      Awaited before delayed) ∧
    Tasks.replay recorded.log = debouncer.tasks ∧
    Usage.Reported host recorded.log ∧
    ∀ delayed ∈ debouncer.waiting, ∀ after error,
      let released := host.modify (·.release delayed.number) recorded.state
      host.call delayed released = (after, .error error) →
      usage.Fails recorded (usage.run start (steps ++ [.expire delayed.number])) delayed released
        after error := by
  intro recorded debouncer
  have history : History recorded.log debouncer := usage.history_run empty steps
  refine ⟨usage.state_run start steps, ?_, history.nodup_begun, ?_, history.replay_eq,
    usage.reported_run start steps, ?_⟩
  · intro key
    simp only [mem_pending, history.mem_waiting_iff, and_comm]
  · intro before delayed after split
    exact history.awaited_of_began split
  · intro delayed waits after error released raised
    exact usage.fails_run empty waits raised

def rescheduling : Host (Option Text) Text (Debouncer (Option Text) Text) where
  debouncer := id
  modify change := change
  call delayed debouncer :=
    match delayed.action with
    | some key => (debouncer.schedule key none, .error delayed.key)
    | none => (debouncer, .ok ())
  onError _ := some fun _ debouncer => debouncer

def rescheduling.usage : Usage rescheduling where
  called delayed _ := delayed.action.toList.map fun key => .schedule key none
  handled _ _ _ := []
  debouncer_modify _ _ := rfl
  debouncer_call delayed debouncer := by
    rcases delayed with ⟨number, key, _ | other⟩ <;> rfl
  debouncer_handler delayed handler found error debouncer := by
    rw [← Option.some.inj found]
    rfl

/-- The call of `a` has scheduled `a` again and failed. Then the call of `b` fails. -/
theorem delayed_calls_run_once_of_rescheduling :
    let steps : List (Step (Option Text)) := [.ask (.schedule ['a'] (some ['a'])),
      .ask (.schedule ['b'] (some ['c'])), .expire 0]
    let recorded := rescheduling.usage.run {} steps
    let next := rescheduling.usage.run {} (steps ++ [.expire 1])
    let failing : DelayedCall (Option Text) := ⟨1, ['b'], some ['c']⟩
    let again : DelayedCall (Option Text) := ⟨2, ['a'], none⟩
    ((begun recorded.log).map DelayedCall.number).Nodup ∧
      (∃ delayed, delayed.key = ['a'] ∧ Awaited recorded.log delayed) ∧
      failing ∈ recorded.state.waiting ∧
      next.log = recorded.log ++ [.began failing, .asked (.schedule ['c'] none),
        .raised failing ['b'], .handled failing ['b']] ∧
      ['b'] ∉ next.state.pending ∧ again ∈ next.state.waiting := by
  intro steps recorded next failing again
  have empty : rescheduling.debouncer {} = {} := rfl
  obtain ⟨-, pending, once, -, -, -, failed⟩ :=
    delayed_calls_run_once_unless_superseded rescheduling.usage empty steps
  have waits : failing ∈ recorded.state.waiting := by decide
  have alone := failed failing waits _ ['b'] rfl
  refine ⟨once, (pending ['a']).mp (by decide), waits, alone.log, alone.gone ?_, ?_⟩
  · intro action
    simp [rescheduling.usage, Usage.reaction, failing]
  · refine (alone.untouched again (by decide) ?_).mpr (by decide)
    simp [rescheduling.usage, Usage.reaction, failing, again, Operation.Settles]

end Debouncer

end HardcodedText
