import HardcodedText.Config.Settings
import HardcodedText.Session.Debouncer
import HardcodedText.Workspace.Scan
import HardcodedText.Workspace.Uri

/-!
An editor session: what it knows of the client, its own state, and the messages it has sent. The
state records which documents show diagnostics, so that they can be cleared.
-/

namespace HardcodedText

/-- How a client finds the text of a document among the open documents or elsewhere; if it finds
none, it says why. -/
abbrev DocumentReader := Table Text → Text → Except String Text

def DocumentReader.ofTree (tree : FileTree) : DocumentReader := fun documents uri =>
  match documents.get? uri with
  | some text => .ok text
  | none =>
      match Uri.toPath uri with
      | .error error => .error error.message
      | .ok path => (tree.readText path).mapError ReadError.message

structure Client where
  documents : Table Text := []
  reader : DocumentReader
  tree : FileTree
  root : Option Path := none

def Client.read (client : Client) (uri : Text) : Except String Text :=
  client.reader client.documents uri

inductive MessageKind
  | error
  | warning
  | info
  deriving DecidableEq, Repr

def diagnosticSource : String := "translate-me"

def diagnosticCode : String := "hardcoded-string"

structure Diagnostic where
  start : Position
  stop : Position
  message : String
  severity : MessageKind := .warning
  source : String := diagnosticSource
  code : String := diagnosticCode
  deriving DecidableEq, Repr

def diagnosticsOf (found : List Match) : List Diagnostic :=
  found.map fun candidate =>
    { start := candidate.start, stop := candidate.stop, message := candidate.message }

inductive Notice
  | publish (uri : Text) (diagnostics : List Diagnostic)
  | announce (kind : MessageKind) (message : String)
  | log (kind : MessageKind) (message : String)
  deriving DecidableEq, Repr

inductive SessionError
  | failed (failure : Failure)
  | invalidUri (error : Host.HostError)
  | noDocument (reason : String)
  deriving DecidableEq, Repr

def SessionError.message : SessionError → String
  | failed failure => failure.message
  | invalidUri error => error.message
  | noDocument reason => reason

structure Session where
  enabled : Bool := true
  /-- The documents that show diagnostics, each once. -/
  published : List Text := []
  debouncer : Debouncer Unit SessionError := {}
  sent : List Notice := []

/-- What a handler does: it changes the session, also when it fails. -/
abbrev Handler (α : Type) := Session → Session × Except SessionError α

namespace Session

def send (session : Session) (notice : Notice) : Session :=
  { session with sent := session.sent ++ [notice] }

def publish (session : Session) (uri : Text) (diagnostics : List Diagnostic) : Session :=
  let sent := session.send (.publish uri diagnostics)
  { sent with
    published :=
      if diagnostics.isEmpty then session.published.filter (· != uri)
      else addName session.published uri }

def clearAll (session : Session) : Session :=
  let cleared := (Text.sorted session.published).foldl
    (fun session uri => session.send (.publish uri [])) session
  { cleared with published := [] }

end Session

structure ProjectSettings where
  scan : ScanConfig
  detector : Detector

variable [CharacterNames]

/-- The settings of the client's project. Filter settings that cannot be used are reported and left
out; the others hold. -/
def projectSettings (client : Client) : Handler ProjectSettings := fun session =>
  match loadConfig client.tree client.root none with
  | .error error => (session, .error (.failed (.read error)))
  | .ok config =>
      let scan := ScanConfig.ofSection (sectionOf config "scan")
      let catalog := catalogFromSection (sectionOf config "widgets") defaultCatalog
      match tablesFromSection (sectionOf config "filters") defaultTables with
      | .ok tables => (session, .ok ⟨scan, ⟨catalog, tables⟩⟩)
      | .error (.config error) =>
          (session.send (.log .warning ("translate-me: ignoring [filters]: " ++ error.message)),
            .ok ⟨scan, ⟨catalog, defaultTables⟩⟩)
      | .error (.unusable error) => (session, .error (.failed (.pattern error)))

end HardcodedText
