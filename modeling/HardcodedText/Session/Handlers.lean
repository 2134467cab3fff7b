import HardcodedText.Session.Basic

/-!
The handlers of an editor session: documents that are opened, saved, changed and closed, delays that
end, and the commands that switch detection on and off and scan the workspace.
-/

namespace HardcodedText

variable [CharacterNames]

def refresh (client : Client) (uri : Text) : Handler Unit := fun session =>
  if !session.enabled then (session, .ok ())
  else
    match projectSettings client session with
    | (session, .error error) => (session, .error error)
    | (session, .ok settings) =>
        match Uri.toPath uri with
        | .error error => (session, .error (.invalidUri error))
        | .ok path =>
            if !settings.scan.isSourcePath path then (session, .ok ())
            else
              match client.read uri with
              | .error reason => (session, .error (.noDocument reason))
              | .ok text =>
                  let found :=
                    findHardcoded text settings.detector.catalog settings.detector.tables
                  (session.publish uri (diagnosticsOf found), .ok ())

def didOpen (client : Client) (uri : Text) : Handler Unit :=
  refresh client uri

def didSave (client : Client) (uri : Text) : Handler Unit :=
  refresh client uri

def didChange (uri : Text) (session : Session) : Session :=
  if session.enabled then { session with debouncer := session.debouncer.schedule uri () }
  else session

def didClose (uri : Text) (session : Session) : Session :=
  { session with debouncer := session.debouncer.cancel uri }.publish uri []

def refreshFailure (uri : Text) (error : SessionError) : Notice :=
  .log .error ("translate-me: could not refresh " ++ uri.string ++ ": " ++ error.message)

def Session.host (client : Client) : Host Unit SessionError Session where
  debouncer := Session.debouncer
  modify := fun change session => { session with debouncer := change session.debouncer }
  call := fun delayed session => refresh client delayed.key session
  onError := fun delayed => some fun error session =>
    session.send (refreshFailure delayed.key error)

def expireRefresh (client : Client) (delayed : DelayedCall Unit) (session : Session) : Session :=
  Debouncer.expire (Session.host client) delayed session

def refreshEach (client : Client) : List Text → Handler Unit
  | [], session => (session, .ok ())
  | uri :: later, session =>
      match refresh client uri session with
      | (session, .ok ()) => refreshEach client later session
      | (session, .error error) => (session, .error error)

def enabledMessage : String := "Translate Me: Detection enabled"

def disabledMessage : String := "Translate Me: Detection disabled"

/-- Switches detection on, which refreshes every open document, or off, which cancels every waiting
refresh and clears all diagnostics. Returns whether it is on. -/
def toggle (client : Client) : Handler Bool := fun session =>
  let session := { session with enabled := !session.enabled }
  if session.enabled then
    match refreshEach client (Text.sorted client.documents.keys) session with
    | (session, .ok ()) => (session.send (.announce .info enabledMessage), .ok true)
    | (session, .error error) => (session, .error error)
  else
    let session := { session with debouncer := session.debouncer.cancelAll }.clearAll
    (session.send (.announce .info disabledMessage), .ok false)

def scanCompletedMessage : String := "Scan completed."

def Session.publishScan (client : Client) (result : WorkspaceScan) (session : Session) : Session :=
  if session.enabled then
    result.files.foldl (fun session file =>
      session.publish (Uri.ofParts (file.path.resolve client.tree.currentDir))
        (diagnosticsOf file.found)) session
  else session

def Session.logFailures (failures : List ReadFailure) (session : Session) : Session :=
  failures.foldl (fun session failure =>
    session.send (.log .warning ("translate-me: could not read " ++ failure.path.text.string ++
      ": " ++ failure.error.describe))) session

def scanWorkspace (client : Client) : Handler ScanResponse := fun session =>
  let root := client.root.getD ⟨.relative, []⟩
  match projectSettings client session with
  | (session, .error error) => (session, .error error)
  | (session, .ok settings) =>
      match scanPaths client.tree settings.scan client.root settings.detector [root] with
      | .error error => (session, .error (.failed (.read error)))
      | .ok result =>
          let session := (session.publishScan client result).logFailures result.failures
          (session.send (.announce .info scanCompletedMessage),
            .ok (buildResponse client.tree.currentDir (some root) result))

end HardcodedText
