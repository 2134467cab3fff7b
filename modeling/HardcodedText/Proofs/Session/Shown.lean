import HardcodedText.Session.Handlers
import HardcodedText.Proofs.Session.Debouncer
import HardcodedText.Proofs.Text

/-!
What the client shows. A document shows the diagnostics that were sent for it last. The session
records the documents that show some, and while detection is off there are none and no refresh
waits. This holds after every sequence of client actions, also when a handler fails midway.
-/

namespace HardcodedText

def Notice.diagnosticsFor? (uri : Text) : Notice → Option (List Diagnostic)
  | publish other diagnostics => if other = uri then some diagnostics else none
  | _ => none

def lastPublished (uri : Text) (sent : List Notice) : Option (List Diagnostic) :=
  (sent.filterMap (Notice.diagnosticsFor? uri)).getLast?

theorem lastPublished_append (uri : Text) (sent : List Notice) (notice : Notice) :
    lastPublished uri (sent ++ [notice]) =
      (notice.diagnosticsFor? uri).or (lastPublished uri sent) := by
  rw [lastPublished, List.filterMap_append, List.getLast?_append]
  cases found : notice.diagnosticsFor? uri <;> simp [lastPublished, found]

@[simp] theorem mem_addName {names : List Text} {name other : Text} :
    other ∈ addName names name ↔ other ∈ names ∨ other = name := by
  rw [addName]
  split
  next listed =>
    rw [List.contains_iff_mem] at listed
    constructor
    · exact Or.inl
    · rintro (member | rfl)
      · exact member
      · exact listed
  next => simp

namespace Session

def Shows (session : Session) (uri : Text) : Prop :=
  ∃ diagnostics ∈ lastPublished uri session.sent, diagnostics ≠ []

/-- The recorded documents are those that show diagnostics, and while detection is off there are
none and nothing waits. -/
structure Consistent (session : Session) : Prop where
  published_iff : ∀ uri, uri ∈ session.published ↔ session.Shows uri
  idle : session.enabled = false → session.debouncer.waiting = [] ∧ session.published = []

theorem consistent_initial : Consistent {} := by
  constructor
  · simp [Shows, lastPublished]
  · simp

theorem shows_send {session : Session} {notice : Notice} {uri : Text}
    (silent : notice.diagnosticsFor? uri = none) :
    (session.send notice).Shows uri ↔ session.Shows uri := by
  rw [Shows, Shows, send, lastPublished_append, silent, Option.none_or]

theorem shows_send_publish (session : Session) (uri : Text) (diagnostics : List Diagnostic) :
    (session.send (.publish uri diagnostics)).Shows uri ↔ diagnostics ≠ [] := by
  have found : (Notice.publish uri diagnostics).diagnosticsFor? uri = some diagnostics := by
    simp [Notice.diagnosticsFor?]
  rw [Shows, send, lastPublished_append, found]
  simp

namespace Consistent

variable {session : Session}

theorem send (consistent : session.Consistent) {notice : Notice}
    (silent : ∀ uri, notice.diagnosticsFor? uri = none) : (session.send notice).Consistent where
  published_iff uri := by
    rw [shows_send (silent uri)]
    exact consistent.published_iff uri
  idle := consistent.idle

theorem withDebouncer (consistent : session.Consistent) (debouncer : Debouncer Unit SessionError)
    (waits : session.enabled = false → debouncer.waiting = []) :
    Consistent { session with debouncer := debouncer } where
  published_iff := consistent.published_iff
  idle disabled := ⟨waits disabled, (consistent.idle disabled).2⟩

theorem publish (consistent : session.Consistent) (uri : Text) {diagnostics : List Diagnostic}
    (allowed : session.enabled = true ∨ diagnostics = []) :
    (session.publish uri diagnostics).Consistent where
  published_iff other := by
    change other ∈ (if diagnostics.isEmpty then _ else _) ↔
      (session.send (.publish uri diagnostics)).Shows other
    by_cases same : uri = other
    · subst same
      rw [shows_send_publish]
      cases diagnostics with
      | nil => simp
      | cons first later => simp
    · have silent : (Notice.publish uri diagnostics).diagnosticsFor? other = none := by
        simp [Notice.diagnosticsFor?, same]
      rw [shows_send silent, ← consistent.published_iff]
      have different : other ≠ uri := fun equal => same equal.symm
      split <;> simp [different]
  idle disabled := by
    have off : session.enabled = false := disabled
    obtain ⟨waiting, published⟩ := consistent.idle off
    refine ⟨waiting, ?_⟩
    rcases allowed with on | rfl
    · rw [off] at on
      exact absurd on (by decide)
    · simp [Session.publish, published]

end Consistent

theorem shows_clearEach (uris : List Text) (session : Session) (uri : Text) :
    (uris.foldl (fun session uri => session.send (.publish uri [])) session).Shows uri ↔
      uri ∉ uris ∧ session.Shows uri := by
  induction uris generalizing session with
  | nil => simp
  | cons first later ih =>
      rw [List.foldl_cons, ih, List.mem_cons, not_or]
      by_cases same : first = uri
      · subst same
        simp [shows_send_publish]
      · have silent : (Notice.publish first []).diagnosticsFor? uri = none := by
          simp [Notice.diagnosticsFor?, same]
        have different : uri ≠ first := fun equal => same equal.symm
        rw [shows_send silent]
        simp [different]

theorem fields_clearEach (uris : List Text) (session : Session) :
    (uris.foldl (fun session uri => session.send (.publish uri [])) session).enabled =
        session.enabled ∧
      (uris.foldl (fun session uri => session.send (.publish uri [])) session).debouncer =
        session.debouncer := by
  induction uris generalizing session with
  | nil => exact ⟨rfl, rfl⟩
  | cons first later ih => exact ih (session.send (.publish first []))

namespace Consistent

variable {session : Session}

theorem clearAll (published_iff : ∀ uri, uri ∈ session.published ↔ session.Shows uri)
    (waits : session.enabled = false → session.debouncer.waiting = []) :
    session.clearAll.Consistent where
  published_iff uri := by
    have shown := shows_clearEach (Text.sorted session.published) session uri
    rw [mem_sorted, published_iff] at shown
    change uri ∈ [] ↔ (List.foldl _ session _).Shows uri
    rw [shown]
    simp
  idle disabled := by
    obtain ⟨enabled, debouncer⟩ := fields_clearEach (Text.sorted session.published) session
    refine ⟨?_, rfl⟩
    change (List.foldl _ session _).debouncer.waiting = []
    rw [debouncer]
    exact waits (enabled.symm.trans disabled)

theorem projectSettings [CharacterNames] (consistent : session.Consistent) (client : Client) :
    (projectSettings client session).1.Consistent ∧
      (HardcodedText.projectSettings client session).1.enabled = session.enabled := by
  unfold HardcodedText.projectSettings
  split
  · exact ⟨consistent, rfl⟩
  · split
    · exact ⟨consistent, rfl⟩
    · exact ⟨consistent.send fun _ => rfl, rfl⟩
    · exact ⟨consistent, rfl⟩

theorem refresh [CharacterNames] (consistent : session.Consistent) (client : Client) (uri : Text) :
    (refresh client uri session).1.Consistent := by
  unfold HardcodedText.refresh
  split
  next => exact consistent
  next on =>
    obtain ⟨settled, enabled⟩ := consistent.projectSettings client
    split
    next after error found =>
      rw [found] at settled
      exact settled
    next after settings found =>
      rw [found] at settled enabled
      split
      · exact settled
      · split
        · exact settled
        · split
          · exact settled
          · refine settled.publish uri (Or.inl ?_)
            rw [enabled]
            simpa using on

theorem refreshEach [CharacterNames] (consistent : session.Consistent) (client : Client)
    (uris : List Text) :
    (refreshEach client uris session).1.Consistent := by
  induction uris generalizing session with
  | nil => exact consistent
  | cons uri later ih =>
      have refreshed := consistent.refresh client uri
      unfold HardcodedText.refreshEach
      split
      next after found =>
        rw [found] at refreshed
        exact ih refreshed
      next after error found =>
        rw [found] at refreshed
        exact refreshed

theorem didChange (consistent : session.Consistent) (uri : Text) :
    (didChange uri session).Consistent := by
  unfold HardcodedText.didChange
  split
  next on =>
    apply consistent.withDebouncer
    intro off
    rw [off] at on
    exact absurd on (by decide)
  next => exact consistent

theorem didClose (consistent : session.Consistent) (uri : Text) :
    (didClose uri session).Consistent := by
  refine (consistent.withDebouncer (session.debouncer.cancel uri) ?_).publish uri (Or.inr rfl)
  intro off
  rw [Debouncer.waiting_cancel, (consistent.idle off).1, List.filter_nil]

theorem toggle [CharacterNames] (consistent : session.Consistent) (client : Client) :
    (toggle client session).1.Consistent := by
  simp only [HardcodedText.toggle]
  -- Detection is on before the documents are refreshed, so a failure among them leaves it on.
  split
  next on =>
    have opened : Consistent { session with enabled := !session.enabled } := by
      refine ⟨consistent.published_iff, ?_⟩
      intro off
      exact absurd (on.symm.trans off) (by decide)
    have refreshed := opened.refreshEach client (Text.sorted client.documents.keys)
    split
    next after found =>
      rw [found] at refreshed
      exact refreshed.send fun _ => rfl
    next after error found =>
      rw [found] at refreshed
      exact refreshed
  next =>
    refine (clearAll ?_ ?_).send fun _ => rfl
    · exact consistent.published_iff
    · intro _
      exact Debouncer.waiting_cancelAll _

theorem publishEach (consistent : session.Consistent) (on : session.enabled = true)
    (place : FileScan → Text) (files : List FileScan) :
    (files.foldl (fun session file => session.publish (place file) (diagnosticsOf file.found))
      session).Consistent := by
  induction files generalizing session with
  | nil => exact consistent
  | cons file later ih => exact ih (consistent.publish (place file) (Or.inl on)) on

theorem publishScan (consistent : session.Consistent) (client : Client) (result : WorkspaceScan) :
    (session.publishScan client result).Consistent := by
  unfold Session.publishScan
  split
  next on => exact consistent.publishEach on _ result.files
  next => exact consistent

theorem logFailures (consistent : session.Consistent) (failures : List ReadFailure) :
    (session.logFailures failures).Consistent := by
  unfold Session.logFailures
  induction failures generalizing session with
  | nil => exact consistent
  | cons failure later ih => exact ih (consistent.send fun _ => rfl)

theorem scanWorkspace [CharacterNames] (consistent : session.Consistent) (client : Client) :
    (scanWorkspace client session).1.Consistent := by
  have settled := (consistent.projectSettings client).1
  unfold HardcodedText.scanWorkspace
  simp only
  split
  next after error found =>
    rw [found] at settled
    exact settled
  next after settings found =>
    rw [found] at settled
    split
    · exact settled
    next result _ =>
      exact ((settled.publishScan client result).logFailures result.failures).send fun _ => rfl

theorem runCall [CharacterNames] (consistent : session.Consistent) (client : Client)
    (delayed : DelayedCall Unit) :
    (Debouncer.runCall (Session.host client) delayed session).1.Consistent := by
  have refreshed := consistent.refresh client delayed.key
  unfold Debouncer.runCall
  split
  next after found =>
    have same : HardcodedText.refresh client delayed.key session = (after, .ok ()) := found
    rw [same] at refreshed
    exact refreshed
  next after error found =>
    have same : HardcodedText.refresh client delayed.key session = (after, .error error) := found
    rw [same] at refreshed
    exact refreshed.send fun _ => rfl

theorem expireRefresh [CharacterNames] (consistent : session.Consistent) (client : Client)
    (delayed : DelayedCall Unit) : (expireRefresh client delayed session).Consistent := by
  unfold HardcodedText.expireRefresh Debouncer.expire
  split
  next =>
    have released : Consistent
        { session with debouncer := session.debouncer.release delayed.number } := by
      apply consistent.withDebouncer
      intro off
      rw [Debouncer.waiting_release, (consistent.idle off).1, List.filter_nil]
    have ran := released.runCall client delayed
    exact ran.withDebouncer _ fun off => (ran.idle off).1
  next => exact consistent

end Consistent

end Session

/-- What the client does, and the end of a delay. The documents, the files and the configuration may
be different every time. -/
inductive Action
  | opened (client : Client) (uri : Text)
  | saved (client : Client) (uri : Text)
  | changed (uri : Text)
  | closed (uri : Text)
  | toggled (client : Client)
  | scanned (client : Client)
  | expired (client : Client) (delayed : DelayedCall Unit)

def Action.perform [CharacterNames] (session : Session) : Action → Session
  | opened client uri => (didOpen client uri session).1
  | saved client uri => (didSave client uri session).1
  | changed uri => didChange uri session
  | closed uri => didClose uri session
  | toggled client => (toggle client session).1
  | scanned client => (scanWorkspace client session).1
  | expired client delayed => expireRefresh client delayed session

def Session.after [CharacterNames] (actions : List Action) : Session :=
  actions.foldl Action.perform {}

theorem Action.perform_consistent [CharacterNames] {session : Session}
    (consistent : session.Consistent)
    (action : Action) : (action.perform session).Consistent := by
  cases action with
  | opened client uri => exact consistent.refresh client uri
  | saved client uri => exact consistent.refresh client uri
  | changed uri => exact consistent.didChange uri
  | closed uri => exact consistent.didClose uri
  | toggled client => exact consistent.toggle client
  | scanned client => exact consistent.scanWorkspace client
  | expired client delayed => exact consistent.expireRefresh client delayed

theorem Session.after_consistent [CharacterNames] (actions : List Action) :
    (Session.after actions).Consistent := by
  have run {session : Session} (consistent : session.Consistent) :
      (actions.foldl Action.perform session).Consistent := by
    induction actions generalizing session with
    | nil => exact consistent
    | cons action later ih => exact ih (Action.perform_consistent consistent action)
  exact run Session.consistent_initial

/-- After every sequence of actions a document is recorded exactly if the diagnostics sent for it
last are not empty; and if detection is off, no refresh waits and no document shows diagnostics. -/
theorem recorded_iff_shown_after [CharacterNames] (actions : List Action) :
    (∀ uri, uri ∈ (Session.after actions).published ↔
      ∃ diagnostics, lastPublished uri (Session.after actions).sent = some diagnostics ∧
        diagnostics ≠ []) ∧
    ((Session.after actions).enabled = false →
      (Session.after actions).debouncer.pending = [] ∧
        ∀ uri diagnostics, lastPublished uri (Session.after actions).sent = some diagnostics →
          diagnostics = []) := by
  have consistent := Session.after_consistent actions
  refine ⟨consistent.published_iff, ?_⟩
  intro off
  obtain ⟨waiting, published⟩ := consistent.idle off
  refine ⟨by rw [Debouncer.pending, waiting, List.map_nil], ?_⟩
  intro uri diagnostics last
  by_contra shown
  have recorded := (consistent.published_iff uri).mpr ⟨diagnostics, last, shown⟩
  rw [published] at recorded
  simp at recorded

theorem recorded_iff_shown_after_toggle :
    let _ : CharacterNames := .latinAndGreek
    let uri : Text := "file:///a.dart".toList
    let tree : FileTree := ⟨.directory [], []⟩
    let client : Client :=
      { documents := [(uri, "Text('Save it now')".toList)], reader := .ofTree tree, tree := tree }
    let actions : List Action := [.opened client uri, .changed uri]
    uri ∈ (Session.after actions).published ∧
      (∃ diagnostics, lastPublished uri (Session.after actions).sent = some diagnostics ∧
        diagnostics ≠ []) ∧
      (Session.after (actions ++ [.toggled client])).enabled = false ∧
      (Session.after (actions ++ [.toggled client])).debouncer.pending = [] ∧
      ∀ uri diagnostics,
        lastPublished uri (Session.after (actions ++ [.toggled client])).sent =
          some diagnostics → diagnostics = [] := by
  intro _ uri tree client actions
  have recorded : uri ∈ (Session.after actions).published := by decide +kernel
  have off : (Session.after (actions ++ [.toggled client])).enabled = false := by decide +kernel
  have before := recorded_iff_shown_after actions
  have after := recorded_iff_shown_after (actions ++ [.toggled client])
  refine ⟨recorded, (before.1 uri).mp recorded, off, ?_⟩
  exact after.2 off

end HardcodedText
