import HardcodedText.Proofs.Session.Effect
import Mathlib.Data.List.Induction

/-!
What the documents of an editor show after a run of events. A document that is not open shows
nothing, if it was open each time it was saved. While detection is on, an open source file whose
refresh does not wait shows the diagnostics of its text.
-/

namespace HardcodedText

inductive EditorEvent
  | opened (uri text : Text)
  | changed (uri text : Text)
  | saved (uri : Text)
  | closed (uri : Text)
  | toggled
  | expired (number : Nat)
  deriving DecidableEq

structure Editor where
  client : Client
  session : Session := {}

namespace EditorEvent

/-- The document that the event stores, if any, has a URI that names a path. -/
def namesPath : EditorEvent → Bool
  | opened uri _ | changed uri _ => (Uri.toPath uri).isOk
  | _ => true

/-- The open documents after the event. They are stored before the session handles it. -/
def store (documents : Table Text) : EditorEvent → Table Text
  | opened uri text => documents.put uri text
  | changed uri text => documents.put uri text
  | closed uri => documents.erase uri
  | _ => documents

def handle [CharacterNames] (client : Client) (session : Session) : EditorEvent → Session
  | opened uri _ => (didOpen client uri session).1
  | changed uri _ => didChange uri session
  | saved uri => (didSave client uri session).1
  | closed uri => didClose uri session
  | toggled => (toggle client session).1
  | expired number =>
      match session.debouncer.waiting.find? fun delayed => delayed.number == number with
      | some delayed => expireRefresh client delayed session
      | none => session

end EditorEvent

namespace Editor

def step [CharacterNames] (editor : Editor) (event : EditorEvent) : Editor :=
  let client := { editor.client with documents := event.store editor.client.documents }
  ⟨client, event.handle client editor.session⟩

def after [CharacterNames] (reader : DocumentReader) (tree : FileTree) (root : Option Path)
    (events : List EditorEvent) : Editor :=
  events.foldl step { client := { reader := reader, tree := tree, root := root } }

theorem after_append [CharacterNames] (reader : DocumentReader) (tree : FileTree)
    (root : Option Path) (events : List EditorEvent) (event : EditorEvent) :
    after reader tree root (events ++ [event]) = (after reader tree root events).step event := by
  rw [after, List.foldl_append]
  rfl

end Editor

theorem EditorEvent.handle_consistent [CharacterNames] {session : Session}
    (consistent : session.Consistent) (client : Client) (event : EditorEvent) :
    (event.handle client session).Consistent := by
  cases event with
  | opened uri text => exact consistent.refresh client uri
  | changed uri text => exact consistent.didChange uri
  | saved uri => exact consistent.refresh client uri
  | closed uri => exact consistent.didClose uri
  | toggled => exact consistent.toggle client
  | expired number =>
      simp only [handle]
      split
      · exact consistent.expireRefresh client _
      · exact consistent

/-! The effect of single handlers -/

theorem toggle_on [CharacterNames] (client : Client) {session : Session}
    (off : session.enabled = false) :
    Session.Confined [] (refreshEach client (Text.sorted client.documents.keys)
      { session with enabled := true }).1 (toggle client session).1 := by
  simp only [toggle, off, Bool.not_false, if_true]
  split
  next after found =>
    rw [found]
    exact Session.Confined.send (fun _ => rfl) after
  next after error found =>
    rw [found]
    exact Session.Confined.refl [] after

theorem toggle_off [CharacterNames] (client : Client) {session : Session}
    (on : session.enabled = true) :
    (toggle client session).1.enabled = false := by
  simp only [toggle, on, Bool.not_true, Bool.false_eq_true, if_false]
  exact (Session.fields_clearEach _ _).1

theorem lastPublished_didClose (uri other : Text) (session : Session) :
    lastPublished other (didClose uri session).sent =
      if uri = other then some [] else lastPublished other session.sent :=
  lastPublished_publish _ uri other []

theorem expireRefresh_eq [CharacterNames] (client : Client) {session : Session}
    {delayed : DelayedCall Unit} (waits : delayed ∈ session.debouncer.waiting) :
    ∃ ending, expireRefresh client delayed session =
      let ran := (Debouncer.runCall (Session.host client) delayed
        { session with debouncer := session.debouncer.release delayed.number }).1
      { ran with debouncer := ran.debouncer.finish delayed ending } := by
  have listed : delayed ∈ ((Session.host client).debouncer session).waiting := waits
  exact ⟨_, Debouncer.expire_of_mem listed⟩

/-- After a delay the session is the one that a refresh leaves once the call has been released, but
for log entries and the record of the calls that have ended. -/
theorem expireRefresh_after [CharacterNames] (client : Client) {session : Session}
    {delayed : DelayedCall Unit} (waits : delayed ∈ session.debouncer.waiting) :
    let refreshed := (refresh client delayed.key
      { session with debouncer := session.debouncer.release delayed.number }).1
    (expireRefresh client delayed session).enabled = session.enabled ∧
      (expireRefresh client delayed session).debouncer.waiting =
        (session.debouncer.release delayed.number).waiting ∧
      (expireRefresh client delayed session).debouncer.nextNumber =
        session.debouncer.nextNumber ∧
      ∀ uri, lastPublished uri (expireRefresh client delayed session).sent =
        lastPublished uri refreshed.sent := by
  intro refreshed
  obtain ⟨ending, same⟩ := expireRefresh_eq client waits
  have first := Session.Confined.refresh client delayed.key
    { session with debouncer := session.debouncer.release delayed.number }
  have second := Session.Confined.runCall client delayed
    { session with debouncer := session.debouncer.release delayed.number }
  have kept := second.debouncer_eq.trans first.debouncer_eq
  rw [same]
  refine ⟨second.enabled_eq.trans first.enabled_eq, ?_, ?_, ?_⟩
  · simp only [Debouncer.waiting_finish, kept]
  · simp only [Debouncer.finish, kept]
    rfl
  · intro uri
    exact second.elsewhere uri List.not_mem_nil

/-! Documents that are not open -/

/-- The document shows nothing and no refresh of it waits. -/
structure Session.Still (session : Session) (uri : Text) : Prop where
  hidden : ¬ session.Shows uri
  idle : uri ∉ session.debouncer.pending

namespace Session.Still

variable {before after : Session} {uri : Text}

theorem of_eq (still : before.Still uri)
    (last : lastPublished uri after.sent = lastPublished uri before.sent)
    (pending : uri ∈ after.debouncer.pending → uri ∈ before.debouncer.pending) :
    after.Still uri where
  hidden shows' := by
    rw [Shows, last] at shows'
    exact still.hidden shows'
  idle waits := still.idle (pending waits)

theorem confined (still : before.Still uri) {uris : List Text} (same : Confined uris before after)
    (outside : uri ∉ uris) : after.Still uri :=
  still.of_eq (same.elsewhere uri outside) (same.debouncer_eq ▸ id)

theorem of_off (consistent : after.Consistent) (off : after.enabled = false) (uri : Text) :
    after.Still uri where
  hidden := by
    rw [← consistent.published_iff, (consistent.idle off).2]
    exact List.not_mem_nil
  idle := by
    rw [Debouncer.pending, (consistent.idle off).1]
    exact List.not_mem_nil

theorem didChange (still : before.Still uri) {changed : Text} (other : uri ≠ changed) :
    (didChange changed before).Still uri := by
  rw [HardcodedText.didChange]
  split
  · refine still.of_eq rfl ?_
    intro waits
    have cancelled := (Debouncer.mem_pending_schedule _ changed uri ()).mp waits
    exact (Debouncer.mem_pending_cancel other).mp (cancelled.resolve_right other)
  · exact still

theorem didClose_self (session : Session) (uri : Text) : (didClose uri session).Still uri where
  hidden := by
    rintro ⟨diagnostics, last, shown⟩
    rw [lastPublished_didClose, if_pos rfl, Option.mem_def, Option.some_inj] at last
    exact shown last.symm
  idle waits := by
    obtain ⟨delayed, listed, key⟩ := Debouncer.mem_pending.mp waits
    change delayed ∈ (session.debouncer.cancel uri).waiting at listed
    rw [Debouncer.waiting_cancel, List.mem_filter] at listed
    simp [key] at listed

theorem didClose (still : before.Still uri) {closed : Text} (other : uri ≠ closed) :
    (didClose closed before).Still uri := by
  refine still.of_eq ?_ (Debouncer.mem_pending_cancel other).mp
  rw [lastPublished_didClose, if_neg other.symm]

theorem toggle [CharacterNames] (still : before.Still uri) (consistent : before.Consistent)
    {client : Client} (unopened : client.documents.get? uri = none) :
    (toggle client before).1.Still uri := by
  cases enabled : before.enabled with
  | true => exact of_off (consistent.toggle client) (toggle_off client enabled) uri
  | false =>
      have refreshed := (Confined.refreshEach client (Text.sorted client.documents.keys)
        { before with enabled := true }).trans (toggle_on client enabled)
      refine still.of_eq (refreshed.elsewhere uri ?_) (refreshed.debouncer_eq ▸ id)
      rw [List.append_nil, mem_sorted, Table.mem_keys_iff]
      rintro ⟨text, opened⟩
      rw [unopened] at opened
      simp at opened

/-- A delay that ends is that of another document, as no refresh of this one waits. -/
theorem expireRefresh [CharacterNames] (still : before.Still uri) (client : Client)
    {delayed : DelayedCall Unit} (waits : delayed ∈ before.debouncer.waiting) :
    (expireRefresh client delayed before).Still uri := by
  have other : uri ∉ [delayed.key] := by
    rw [List.mem_singleton]
    rintro rfl
    exact still.idle (Debouncer.mem_pending.mpr ⟨delayed, waits, rfl⟩)
  obtain ⟨-, waiting, -, last⟩ := expireRefresh_after client waits
  refine still.of_eq ?_ ?_
  · exact (last uri).trans ((Confined.refresh client delayed.key _).elsewhere uri other)
  · intro pending
    obtain ⟨later, listed, key⟩ := Debouncer.mem_pending.mp pending
    rw [waiting, Debouncer.waiting_release] at listed
    exact Debouncer.mem_pending.mpr ⟨later, List.mem_of_mem_filter listed, key⟩

end Session.Still

/-- The document is open, or it shows nothing and no refresh of it waits. -/
def Editor.Tidy (editor : Editor) (uri : Text) : Prop :=
  editor.client.documents.get? uri = none → editor.session.Still uri

theorem unopened_of_put {documents : Table Text} {uri other text : Text}
    (unopened : (documents.put uri text).get? other = none) :
    other ≠ uri ∧ documents.get? other = none := by
  have different : other ≠ uri := by
    rintro rfl
    simp at unopened
  rw [Table.get?_put_of_ne different] at unopened
  exact ⟨different, unopened⟩

theorem Editor.Tidy.step [CharacterNames] {editor : Editor} {uri : Text} (tidy : editor.Tidy uri)
    (consistent : editor.session.Consistent) (event : EditorEvent)
    (savedOpen : event = .saved uri → (editor.client.documents.get? uri).isSome = true) :
    (editor.step event).Tidy uri := by
  intro unopened
  cases event with
  | opened stored text =>
      obtain ⟨different, before⟩ := unopened_of_put unopened
      refine (tidy before).confined (Session.Confined.refresh _ stored editor.session) ?_
      simpa using different
  | changed stored text =>
      obtain ⟨different, before⟩ := unopened_of_put unopened
      exact (tidy before).didChange different
  | saved stored =>
      have before : editor.client.documents.get? uri = none := unopened
      refine (tidy before).confined (Session.Confined.refresh _ stored editor.session) ?_
      rw [List.mem_singleton]
      rintro rfl
      simp [before] at savedOpen
  | closed removed =>
      by_cases same : uri = removed
      · subst same
        exact .didClose_self editor.session uri
      · have before : editor.client.documents.get? uri = none := by
          rw [← Table.get?_erase_of_ne same]
          exact unopened
        exact (tidy before).didClose same
  | toggled => exact (tidy unopened).toggle consistent unopened
  | expired number =>
      simp only [Editor.step, EditorEvent.handle]
      split
      next delayed found =>
        exact (tidy unopened).expireRefresh editor.client (List.mem_of_find?_eq_some found)
      next => exact tidy unopened

/-! Documents that are open -/

/-- If the document is an open source file and its refresh does not wait, it shows the diagnostics
of its text. -/
def Editor.Current (settings : ProjectSettings) (editor : Editor) (uri : Text) : Prop :=
  ∀ text, editor.client.documents.get? uri = some text → settings.Covers uri →
    uri ∉ editor.session.debouncer.pending →
      lastPublished uri editor.session.sent = some (settings.detector.diagnostics text)

theorem Editor.Current.of_eq {settings : ProjectSettings} {before after : Editor} {uri : Text}
    (current : before.Current settings uri)
    (stored : after.client.documents.get? uri = before.client.documents.get? uri)
    (pending : uri ∈ before.session.debouncer.pending → uri ∈ after.session.debouncer.pending)
    (last : lastPublished uri after.session.sent = lastPublished uri before.session.sent) :
    after.Current settings uri := by
  intro text opened covered idle
  rw [last]
  exact current text (stored ▸ opened) covered fun waits => idle (pending waits)

theorem Editor.current_refresh [CharacterNames] {settings : ProjectSettings} {client : Client}
    {session : Session} (finds : client.reader.FindsOpen) (reads : client.Reads settings)
    (on : session.enabled = true) {uri : Text}
    (others : ∀ other, other ≠ uri → Current settings ⟨client, session⟩ other) (other : Text) :
    Current settings ⟨client, (refresh client uri session).1⟩ other := by
  have confined := Session.Confined.refresh client uri session
  by_cases same : other = uri
  · subst same
    intro text opened covered _
    exact refresh_shows reads on covered (finds _ _ _ opened)
  · refine (others other same).of_eq rfl ?_ (confined.elsewhere other (by simpa using same))
    intro pending
    change other ∈ (refresh client uri session).1.debouncer.pending
    rw [confined.debouncer_eq]
    exact pending

structure Editor.UpToDate [CharacterNames] (settings : ProjectSettings) (editor : Editor) :
    Prop where
  consistent : editor.session.Consistent
  numbered : editor.session.debouncer.Numbered
  finds : editor.client.reader.FindsOpen
  reads : editor.client.Reads settings
  current : editor.session.enabled = true → ∀ uri, editor.Current settings uri

def Client.NamesPaths (client : Client) : Prop :=
  ∀ uri text, client.documents.get? uri = some text → (Uri.toPath uri).isOk = true

theorem exists_path_of_isOk {uri : Text} (ok : (Uri.toPath uri).isOk = true) :
    ∃ path, Uri.toPath uri = .ok path := by
  cases found : Uri.toPath uri with
  | error error => simp [found, Except.isOk, Except.toBool] at ok
  | ok path => exact ⟨path, rfl⟩

namespace Editor.UpToDate

variable {settings : ProjectSettings} {editor : Editor}

theorem refreshed [CharacterNames] {client : Client} {session : Session} {uri : Text}
    (consistent : session.Consistent) (numbered : session.debouncer.Numbered)
    (finds : client.reader.FindsOpen) (reads : client.Reads settings)
    (others : session.enabled = true → ∀ other, other ≠ uri →
      Editor.Current settings ⟨client, session⟩ other) :
    Editor.UpToDate settings ⟨client, (refresh client uri session).1⟩ := by
  have confined := Session.Confined.refresh client uri session
  refine ⟨consistent.refresh client uri, ?_, finds, reads, ?_⟩
  · exact confined.debouncer_eq ▸ numbered
  · intro enabled
    have on : session.enabled = true := confined.enabled_eq.symm.trans enabled
    exact Editor.current_refresh finds reads on (others on)

theorem opened [CharacterNames] (upToDate : editor.UpToDate settings) (uri text : Text) :
    (editor.step (.opened uri text)).UpToDate settings := by
  refine refreshed upToDate.consistent upToDate.numbered upToDate.finds upToDate.reads ?_
  intro on other different
  exact (upToDate.current on other).of_eq (Table.get?_put_of_ne different _ _) id rfl

theorem changed [CharacterNames] (upToDate : editor.UpToDate settings) (uri text : Text) :
    (editor.step (.changed uri text)).UpToDate settings := by
  have consistent := upToDate.consistent.didChange uri
  cases enabled : editor.session.enabled with
  | false =>
      have unchanged : didChange uri editor.session = editor.session := by simp [didChange, enabled]
      refine ⟨consistent, ?_, upToDate.finds, upToDate.reads, ?_⟩
      · change (didChange uri editor.session).debouncer.Numbered
        rw [unchanged]
        exact upToDate.numbered
      · intro on
        change (didChange uri editor.session).enabled = true at on
        rw [unchanged, enabled] at on
        exact absurd on (by decide)
  | true =>
      have scheduled : didChange uri editor.session = { editor.session with
          debouncer := editor.session.debouncer.schedule uri () } := by simp [didChange, enabled]
      refine ⟨consistent, ?_, upToDate.finds, upToDate.reads, ?_⟩
      · change (didChange uri editor.session).debouncer.Numbered
        rw [scheduled]
        exact upToDate.numbered.schedule uri ()
      · intro _ other
        have pending (name : Text) :
            name ∈ (didChange uri editor.session).debouncer.pending ↔
              name ∈ (editor.session.debouncer.cancel uri).pending ∨ name = uri := by
          rw [scheduled]
          exact Debouncer.mem_pending_schedule _ uri name ()
        by_cases same : other = uri
        · intro _ _ _ idle
          exact absurd ((pending other).mpr (Or.inr same)) idle
        · refine (upToDate.current enabled other).of_eq (Table.get?_put_of_ne same _ _) ?_ ?_
          · intro waits
            exact (pending other).mpr (Or.inl ((Debouncer.mem_pending_cancel same).mpr waits))
          · change lastPublished other (didChange uri editor.session).sent = _
            rw [scheduled]

theorem saved [CharacterNames] (upToDate : editor.UpToDate settings) (uri : Text) :
    (editor.step (.saved uri)).UpToDate settings := by
  refine refreshed upToDate.consistent upToDate.numbered upToDate.finds upToDate.reads ?_
  intro on other _
  exact upToDate.current on other

theorem closed [CharacterNames] (upToDate : editor.UpToDate settings) (uri : Text) :
    (editor.step (.closed uri)).UpToDate settings where
  consistent := upToDate.consistent.didClose uri
  numbered := upToDate.numbered.cancel uri
  finds := upToDate.finds
  reads := upToDate.reads
  current enabled other := by
    by_cases same : other = uri
    · subst same
      intro text opened
      change (editor.client.documents.erase other).get? other = some text at opened
      simp at opened
    · refine (upToDate.current enabled other).of_eq (Table.get?_erase_of_ne same _) ?_ ?_
      · exact (Debouncer.mem_pending_cancel same).mpr
      · change lastPublished other (didClose uri editor.session).sent = _
        rw [lastPublished_didClose, if_neg fun equal => same equal.symm]

theorem toggled [CharacterNames] (upToDate : editor.UpToDate settings)
    (named : editor.client.NamesPaths) : (editor.step .toggled).UpToDate settings := by
  have consistent := upToDate.consistent.toggle editor.client
  cases enabled : editor.session.enabled with
  | true =>
      have off := toggle_off editor.client enabled
      refine ⟨consistent, .of_nil (consistent.idle off).1, upToDate.finds, upToDate.reads, ?_⟩
      intro on
      exact absurd (on.symm.trans off) (by decide)
  | false =>
      have announced := toggle_on editor.client enabled
      have refreshed := Session.Confined.refreshEach editor.client
        (Text.sorted editor.client.documents.keys) { editor.session with enabled := true }
      have debouncer : (toggle editor.client editor.session).1.debouncer =
          editor.session.debouncer := announced.debouncer_eq.trans refreshed.debouncer_eq
      refine ⟨consistent, debouncer ▸ upToDate.numbered, upToDate.finds, upToDate.reads, ?_⟩
      intro _ uri text opened covered _
      change lastPublished uri (toggle editor.client editor.session).1.sent = _
      rw [announced.elsewhere uri List.not_mem_nil]
      refine refreshEach_shows upToDate.reads ?_ ?_ rfl ?_ covered
        (upToDate.finds _ _ _ opened)
      · intro other listed
        obtain ⟨stored, present⟩ := Table.mem_keys_iff.mp (mem_sorted.mp listed)
        exact exists_path_of_isOk (named other stored present)
      · intro other listed
        obtain ⟨stored, present⟩ := Table.mem_keys_iff.mp (mem_sorted.mp listed)
        exact ⟨stored, upToDate.finds _ _ _ present⟩
      · rw [mem_sorted, Table.mem_keys_iff]
        exact ⟨text, opened⟩

theorem expired [CharacterNames] (upToDate : editor.UpToDate settings) (number : Nat) :
    (editor.step (.expired number)).UpToDate settings := by
  simp only [Editor.step, EditorEvent.handle]
  split
  next delayed found =>
    have waits := List.mem_of_find?_eq_some found
    obtain ⟨flag, waiting, next, last⟩ := expireRefresh_after editor.client waits
    refine ⟨upToDate.consistent.expireRefresh editor.client delayed, ?_, upToDate.finds,
      upToDate.reads, ?_⟩
    · refine upToDate.numbered.fewer ?_ next
      change (expireRefresh editor.client delayed editor.session).debouncer.waiting ⊆ _
      rw [waiting]
      exact List.filter_subset_self _
    · intro enabled uri
      have on : editor.session.enabled = true := flag.symm.trans enabled
      let released : Session := { editor.session with
        debouncer := editor.session.debouncer.release delayed.number }
      have others (other : Text) (different : other ≠ delayed.key) :
          Editor.Current settings ⟨editor.client, released⟩ other :=
        (upToDate.current on other).of_eq rfl
          (upToDate.numbered.mem_pending_release waits different) rfl
      have stillOn : released.enabled = true := on
      have refreshed : Editor.Current settings
          ⟨editor.client, (refresh editor.client delayed.key released).1⟩ uri :=
        Editor.current_refresh upToDate.finds upToDate.reads stillOn others uri
      refine refreshed.of_eq rfl ?_ (last uri)
      have kept := (Session.Confined.refresh editor.client delayed.key released).debouncer_eq
      intro pending
      simp only [kept] at pending
      change uri ∈ (expireRefresh editor.client delayed editor.session).debouncer.pending
      rw [Debouncer.pending, waiting]
      exact pending
  next => exact upToDate

theorem step [CharacterNames] (upToDate : editor.UpToDate settings) (event : EditorEvent)
    (named : editor.client.NamesPaths) : (editor.step event).UpToDate settings := by
  cases event with
  | opened uri text => exact upToDate.opened uri text
  | changed uri text => exact upToDate.changed uri text
  | saved uri => exact upToDate.saved uri
  | closed uri => exact upToDate.closed uri
  | toggled => exact upToDate.toggled named
  | expired number => exact upToDate.expired number

end Editor.UpToDate

/-! Runs -/

section Runs

variable [CharacterNames] {reader : DocumentReader} {tree : FileTree} {root : Option Path}
  {events : List EditorEvent}

theorem Editor.consistent_after :
    (after reader tree root events).session.Consistent := by
  induction events using List.reverseRecOn with
  | nil => exact Session.consistent_initial
  | append_singleton events event ih =>
      rw [after_append]
      exact event.handle_consistent ih _

def SavedWhileOpen (reader : DocumentReader) (tree : FileTree) (root : Option Path)
    (events : List EditorEvent) (uri : Text) : Prop :=
  ∀ front back, events = front ++ .saved uri :: back →
    ((Editor.after reader tree root front).client.documents.get? uri).isSome = true

theorem Editor.tidy_after {uri : Text} (savedOpen : SavedWhileOpen reader tree root events uri) :
    (after reader tree root events).Tidy uri := by
  induction events using List.reverseRecOn with
  | nil =>
      refine fun _ => ⟨?_, List.not_mem_nil⟩
      rintro ⟨diagnostics, last, -⟩
      simp [after, lastPublished] at last
  | append_singleton events event ih =>
      rw [after_append]
      refine (ih ?_).step consistent_after event ?_
      · rintro front back rfl
        exact savedOpen front (back ++ [event]) (by simp)
      · rintro rfl
        exact savedOpen events [] rfl

theorem Editor.namesPaths_after (named : ∀ event ∈ events, event.namesPath = true) :
    (after reader tree root events).client.NamesPaths := by
  induction events using List.reverseRecOn with
  | nil =>
      intro uri text opened
      simp [after, Table.get?] at opened
  | append_singleton events event ih =>
      have before := ih fun earlier member => named earlier (List.mem_append_left _ member)
      have names : event.namesPath = true := named event (by simp)
      rw [after_append]
      intro uri text opened
      cases event with
      | opened stored _ | changed stored _ =>
          by_cases same : uri = stored
          · exact same ▸ names
          · exact before uri text (Table.get?_put_of_ne same _ _ ▸ opened)
      | closed removed =>
          by_cases same : uri = removed
          · subst same
            change (Table.erase _ uri).get? uri = some text at opened
            simp at opened
          · exact before uri text (Table.get?_erase_of_ne same _ ▸ opened)
      | saved _ | toggled | expired _ => exact before uri text opened

theorem Editor.upToDate_after {settings : ProjectSettings} (finds : reader.FindsOpen)
    (reads : Client.Reads { reader := reader, tree := tree, root := root } settings)
    (named : ∀ event ∈ events, event.namesPath = true) :
    (after reader tree root events).UpToDate settings := by
  induction events using List.reverseRecOn with
  | nil =>
      refine ⟨Session.consistent_initial, .of_nil rfl, finds, reads, ?_⟩
      intro _ uri text opened
      simp [after, Table.get?] at opened
  | append_singleton events event ih =>
      have earlier : ∀ event ∈ events, event.namesPath = true :=
        fun event member => named event (List.mem_append_left _ member)
      rw [after_append]
      exact (ih earlier).step event (namesPaths_after earlier)

end Runs

end HardcodedText
