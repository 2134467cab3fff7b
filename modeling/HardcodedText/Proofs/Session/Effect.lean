import HardcodedText.Proofs.Session.Shown

/-!
What a handler can change. A refresh publishes for its own document at most; besides that it may
log that the filter settings cannot be used. When the settings can be read and the document is a
source file whose text is found, it publishes the diagnostics of the text.
-/

namespace HardcodedText

theorem lastPublished_publish (session : Session) (uri other : Text)
    (diagnostics : List Diagnostic) :
    lastPublished other (session.publish uri diagnostics).sent =
      if uri = other then some diagnostics else lastPublished other session.sent := by
  change lastPublished other (session.sent ++ [.publish uri diagnostics]) = _
  rw [lastPublished_append, Notice.diagnosticsFor?]
  split <;> simp

theorem lastPublished_send {notice : Notice} {uri : Text}
    (silent : notice.diagnosticsFor? uri = none) (session : Session) :
    lastPublished uri (session.send notice).sent = lastPublished uri session.sent := by
  rw [Session.send, lastPublished_append, silent, Option.none_or]

/-- The later session differs from the earlier one in what the given documents show and in the
messages sent. -/
structure Session.Confined (uris : List Text) (before after : Session) : Prop where
  enabled_eq : after.enabled = before.enabled
  debouncer_eq : after.debouncer = before.debouncer
  elsewhere : ∀ uri, uri ∉ uris →
    lastPublished uri after.sent = lastPublished uri before.sent

namespace Session.Confined

variable {uris : List Text} {session : Session}

theorem refl (uris : List Text) (session : Session) : Confined uris session session :=
  ⟨rfl, rfl, fun _ _ => rfl⟩

theorem trans {more : List Text} {first second third : Session}
    (early : Confined uris first second) (late : Confined more second third) :
    Confined (uris ++ more) first third where
  enabled_eq := late.enabled_eq.trans early.enabled_eq
  debouncer_eq := late.debouncer_eq.trans early.debouncer_eq
  elsewhere uri outside := by
    rw [List.mem_append, not_or] at outside
    rw [late.elsewhere uri outside.2, early.elsewhere uri outside.1]

theorem send {notice : Notice} (silent : ∀ uri, notice.diagnosticsFor? uri = none)
    (session : Session) : Confined [] session (session.send notice) :=
  ⟨rfl, rfl, fun uri _ => lastPublished_send (silent uri) session⟩

theorem publish (session : Session) (uri : Text) (diagnostics : List Diagnostic) :
    Confined [uri] session (session.publish uri diagnostics) where
  enabled_eq := rfl
  debouncer_eq := rfl
  elsewhere other outside := by
    rw [lastPublished_publish, if_neg]
    intro same
    exact outside (List.mem_singleton.mpr same.symm)

theorem projectSettings [CharacterNames] (client : Client) (session : Session) :
    Confined [] session (projectSettings client session).1 := by
  unfold HardcodedText.projectSettings
  split
  · exact refl [] session
  · split
    · exact refl [] session
    · exact send (fun _ => rfl) session
    · exact refl [] session

theorem refresh [CharacterNames] (client : Client) (uri : Text) (session : Session) :
    Confined [uri] session (refresh client uri session).1 := by
  have settled := projectSettings client session
  unfold HardcodedText.refresh
  split
  · exact refl [uri] session
  · split
    next after error found =>
      rw [found] at settled
      exact settled.trans (refl [uri] after)
    next after settings found =>
      rw [found] at settled
      have unchanged := settled.trans (refl [uri] after)
      split
      · exact unchanged
      · split
        · exact unchanged
        · split
          · exact unchanged
          · exact settled.trans (publish after uri _)

theorem refreshEach [CharacterNames] (client : Client) (uris : List Text) (session : Session) :
    Confined uris session (refreshEach client uris session).1 := by
  induction uris generalizing session with
  | nil => exact refl [] session
  | cons uri later ih =>
      have refreshed := refresh client uri session
      unfold HardcodedText.refreshEach
      split
      next after found =>
        rw [found] at refreshed
        exact refreshed.trans (ih after)
      next after error found =>
        rw [found] at refreshed
        exact refreshed.trans (refl later after)

theorem runCall [CharacterNames] (client : Client) (delayed : DelayedCall Unit)
    (session : Session) :
    Confined [] (HardcodedText.refresh client delayed.key session).1
      (Debouncer.runCall (Session.host client) delayed session).1 := by
  unfold Debouncer.runCall
  split
  next after found =>
    have same : HardcodedText.refresh client delayed.key session = (after, .ok ()) := found
    rw [same]
    exact refl [] after
  next after error found =>
    have same : HardcodedText.refresh client delayed.key session = (after, .error error) := found
    rw [same]
    exact send (fun _ => rfl) after

end Session.Confined

/-! Documents that can be found -/

/-- The text of an open document is the one that was stored. -/
def DocumentReader.FindsOpen (reader : DocumentReader) : Prop :=
  ∀ documents uri text, documents.get? uri = some text → reader documents uri = .ok text

theorem DocumentReader.findsOpen_ofTree (tree : FileTree) : (ofTree tree).FindsOpen := by
  intro documents uri text opened
  simp only [ofTree, opened]

/-! Settings that can be read -/

def Client.Reads [CharacterNames] (client : Client) (settings : ProjectSettings) : Prop :=
  (projectSettings client {}).2 = .ok settings

theorem projectSettings_snd [CharacterNames] (client : Client) (session other : Session) :
    (projectSettings client session).2 = (projectSettings client other).2 := by
  unfold projectSettings
  split
  · rfl
  · split <;> rfl

theorem Client.Reads.eq [CharacterNames] {client : Client} {settings : ProjectSettings}
    (reads : client.Reads settings) (session : Session) :
    projectSettings client session = ((projectSettings client session).1, .ok settings) := by
  have found : (projectSettings client session).2 = .ok settings :=
    (projectSettings_snd client session {}).trans reads
  exact Prod.ext rfl found

def Detector.diagnostics (detector : Detector) (text : Text) : List Diagnostic :=
  diagnosticsOf (findHardcoded text detector.catalog detector.tables)

def ProjectSettings.Covers (settings : ProjectSettings) (uri : Text) : Prop :=
  ∃ path, Uri.toPath uri = .ok path ∧ settings.scan.isSourcePath path = true

theorem refresh_shows [CharacterNames] {client : Client} {settings : ProjectSettings}
    (reads : client.Reads settings) {session : Session} (on : session.enabled = true)
    {uri text : Text} (covered : settings.Covers uri) (read : client.read uri = .ok text) :
    lastPublished uri (refresh client uri session).1.sent =
      some (settings.detector.diagnostics text) := by
  obtain ⟨path, named, source⟩ := covered
  rw [refresh, if_neg (by simp [on]), reads.eq]
  simp only [named, source, read, Bool.not_true, Bool.false_eq_true, if_false]
  rw [lastPublished_publish, if_pos rfl]
  rfl

theorem refresh_succeeds [CharacterNames] {client : Client} {settings : ProjectSettings}
    (reads : client.Reads settings) (session : Session) {uri text : Text} {path : Path}
    (named : Uri.toPath uri = .ok path) (read : client.read uri = .ok text) :
    (refresh client uri session).2 = .ok () := by
  rw [refresh]
  split
  · rfl
  · rw [reads.eq]
    simp only [named, read]
    split <;> rfl

theorem refreshEach_shows [CharacterNames] {client : Client} {settings : ProjectSettings}
    (reads : client.Reads settings) {uris : List Text}
    (named : ∀ uri ∈ uris, ∃ path, Uri.toPath uri = .ok path)
    (found : ∀ uri ∈ uris, ∃ text, client.read uri = .ok text) {session : Session}
    (on : session.enabled = true) {uri text : Text} (listed : uri ∈ uris)
    (covered : settings.Covers uri) (read : client.read uri = .ok text) :
    lastPublished uri (refreshEach client uris session).1.sent =
      some (settings.detector.diagnostics text) := by
  induction uris generalizing session with
  | nil => simp at listed
  | cons first later ih =>
      obtain ⟨path, names⟩ := named first List.mem_cons_self
      obtain ⟨firstText, firstRead⟩ := found first List.mem_cons_self
      have succeeds := refresh_succeeds reads session names firstRead
      have confined := Session.Confined.refresh client first session
      cases refreshed : refresh client first session with
      | mk after result =>
          rw [refreshed] at succeeds confined
          obtain rfl : result = .ok () := succeeds
          simp only [refreshEach, refreshed]
          by_cases remains : uri ∈ later
          · refine ih ?_ ?_ (confined.enabled_eq.trans on) remains
            · intro other member
              exact named other (List.mem_cons_of_mem _ member)
            · intro other member
              exact found other (List.mem_cons_of_mem _ member)
          · -- The later refreshes leave alone what the first one has published.
            have same : uri = first := by
              rcases List.mem_cons.mp listed with same | member
              · exact same
              · exact absurd member remains
            subst same
            have shown := refresh_shows reads on covered read
            rw [refreshed] at shown
            rw [(Session.Confined.refreshEach client later after).elsewhere uri remains]
            exact shown

end HardcodedText
