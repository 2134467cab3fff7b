import HardcodedText.Proofs.Session.Effect
import HardcodedText.Proofs.Workspace.Isolation

/-!
What the files of a workspace show after a scan. A file with matches shows the diagnostics of its
content. A file without matches is passed over, so that it shows what it has shown before, and the
text of an open document is not looked at.
-/

namespace HardcodedText

theorem mem_files_scanFiles {tree : FileTree} {detector : Detector} {paths : List Path}
    {result : WorkspaceScan} (scanned : scanFiles tree detector paths = .ok result)
    {file : FileScan} :
    file ∈ result.files ↔ file.path ∈ paths ∧ file.found ≠ [] ∧
      ∃ text, tree.readText file.path = .ok text ∧
        file.found = findHardcoded text detector.catalog detector.tables := by
  obtain ⟨-, rfl⟩ := scanFiles_eq_ok_iff.mp scanned
  rw [FileTree.tally, List.mem_filterMap]
  constructor
  · rintro ⟨path, listed, reported⟩
    obtain ⟨rfl, found⟩ := FileTree.fileScan?_eq_some_iff.mp reported
    exact ⟨listed, found⟩
  · rintro ⟨listed, found⟩
    exact ⟨file.path, listed, FileTree.fileScan?_eq_some_iff.mpr ⟨rfl, found⟩⟩

theorem lastPublished_publishEach (place : FileScan → Text) {files : List FileScan} {uri : Text}
    {found : List Match} (same : ∀ file ∈ files, place file = uri → file.found = found)
    (session : Session) :
    lastPublished uri (files.foldl (fun session file =>
        session.publish (place file) (diagnosticsOf file.found)) session).sent =
      if ∃ file ∈ files, place file = uri then some (diagnosticsOf found)
      else lastPublished uri session.sent := by
  induction files generalizing session with
  | nil => simp
  | cons file later ih =>
      have rest : ∀ other ∈ later, place other = uri → other.found = found := fun other member =>
        same other (List.mem_cons_of_mem _ member)
      rw [List.foldl_cons, ih rest, lastPublished_publish]
      by_cases here : place file = uri
      · have published : file.found = found := same file List.mem_cons_self here
        simp [here, published]
      · simp [here]

theorem Session.Confined.logFailures (failures : List ReadFailure) (session : Session) :
    Confined [] session (session.logFailures failures) := by
  unfold Session.logFailures
  induction failures generalizing session with
  | nil => exact refl [] session
  | cons failure later ih => exact (send (fun _ => rfl) session).trans (ih _)

def Client.scanRoot (client : Client) : Path :=
  client.root.getD ⟨.relative, []⟩

def Client.uriOf (client : Client) (path : Path) : Text :=
  Uri.ofParts (path.resolve client.tree.currentDir)

theorem scanWorkspace_returns [CharacterNames] {client : Client} {settings : ProjectSettings}
    (reads : client.Reads settings) {session : Session} {files : List Path}
    (visited : sourcePaths client.tree settings.scan client.root [client.scanRoot] = .ok files)
    (returns : (scanWorkspace client session).2.isOk = true) :
    ∃ result, scanFiles client.tree settings.detector files = .ok result ∧
      Session.Confined [] ((projectSettings client session).1.publishScan client result)
        (scanWorkspace client session).1 := by
  have paths : scanPaths client.tree settings.scan client.root settings.detector
      [client.root.getD ⟨.relative, []⟩] =
        scanFiles client.tree settings.detector files := by
    rw [scanPaths]
    rw [Client.scanRoot] at visited
    rw [visited]
    rfl
  have settled := reads.eq session
  generalize (projectSettings client session).1 = quiet at settled ⊢
  simp only [scanWorkspace, settled, paths] at returns ⊢
  cases scanned : scanFiles client.tree settings.detector files with
  | error error => simp [scanned, Except.isOk, Except.toBool] at returns
  | ok result =>
      refine ⟨result, rfl, ?_⟩
      exact (Session.Confined.logFailures result.failures _).trans
        (Session.Confined.send (fun _ => rfl) _)

theorem lastPublished_scanWorkspace [CharacterNames] {client : Client} {settings : ProjectSettings}
    (reads : client.Reads settings) {session : Session} (on : session.enabled = true)
    {files : List Path}
    (visited : sourcePaths client.tree settings.scan client.root [client.scanRoot] = .ok files)
    (returns : (scanWorkspace client session).2.isOk = true)
    (proper : client.tree.root.isProper = true) {path : Path} (listed : path ∈ files) {text : Text}
    (read : client.tree.readText path = .ok text) :
    lastPublished (client.uriOf path) (scanWorkspace client session).1.sent =
      if findHardcoded text settings.detector.catalog settings.detector.tables = [] then
        lastPublished (client.uriOf path) session.sent
      else some (settings.detector.diagnostics text) := by
  obtain ⟨result, scanned, quiet⟩ := scanWorkspace_returns reads visited returns
  have settled := Session.Confined.projectSettings client session
  -- Files of one URI are one file, so the one that is published last cannot be another.
  have same {file : FileScan} (member : file ∈ result.files)
      (place : client.uriOf file.path = client.uriOf path) : file.path = path ∧
        file.found = findHardcoded text settings.detector.catalog settings.detector.tables ∧
        file.found ≠ [] := by
    obtain ⟨visits, some, other, otherRead, found⟩ := (mem_files_scanFiles scanned).mp member
    have paths := eq_of_uri_eq proper visited visits listed place
    rw [paths, read] at otherRead
    rw [← Except.ok.inj otherRead] at found
    exact ⟨paths, found, some⟩
  rw [quiet.elsewhere _ List.not_mem_nil, Session.publishScan,
    if_pos (settled.enabled_eq.trans on)]
  have published := lastPublished_publishEach (fun file => client.uriOf file.path)
    (fun file member place => (same member place).2.1) (projectSettings client session).1
  refine published.trans ?_
  split
  next some =>
    obtain ⟨file, member, place⟩ := some
    obtain ⟨-, found, some⟩ := same member place
    rw [if_neg (found ▸ some)]
    rfl
  next none =>
    rw [if_pos, settled.elsewhere _ List.not_mem_nil]
    by_contra some
    exact none ⟨⟨path, _⟩, (mem_files_scanFiles scanned).mpr ⟨listed, some, text, read, rfl⟩, rfl⟩

def Session.shown (session : Session) (uri : Text) : List Diagnostic :=
  (lastPublished uri session.sent).getD []

/-- After a scan a file that was read shows the diagnostics of its content if it has a match, and
what it showed before otherwise. So it shows those of its current text, which is the open document
if there is one, unless it has become clean or the document differs from the file. -/
theorem scan_shows_files_with_matches [CharacterNames] (client : Client)
    (settings : ProjectSettings)
    (session : Session) (files : List Path) (proper : client.tree.root.isProper = true)
    (reads : client.Reads settings) (on : session.enabled = true)
    (visited : sourcePaths client.tree settings.scan client.root [client.scanRoot] = .ok files)
    (returns : (scanWorkspace client session).2.isOk = true) :
    ∀ path ∈ files, ∀ text, client.tree.readText path = .ok text →
      let uri := client.uriOf path
      let found := findHardcoded text settings.detector.catalog settings.detector.tables
      let current := (client.documents.get? uri).getD text
      ((scanWorkspace client session).1.shown uri =
        if found = [] then session.shown uri else diagnosticsOf found) ∧
      (found ≠ [] ∨ session.shown uri = [] →
        (∀ buffer, client.documents.get? uri = some buffer → buffer = text) →
          (scanWorkspace client session).1.shown uri =
            diagnosticsOf
              (findHardcoded current settings.detector.catalog settings.detector.tables)) := by
  intro path listed text read uri found current
  have last := lastPublished_scanWorkspace reads on visited returns proper listed read
  have shown : (scanWorkspace client session).1.shown uri =
      if found = [] then session.shown uri else diagnosticsOf found := by
    rw [Session.shown, last]
    split <;> rfl
  refine ⟨shown, ?_⟩
  intro fresh saved
  have unchanged : current = text := by
    cases opened : client.documents.get? uri with
    | none => simp only [current, opened, Option.getD_none]
    | some buffer => simp only [current, opened, Option.getD_some, saved buffer opened]
  rw [shown, unchanged]
  split
  next none =>
    have clean : findHardcoded text settings.detector.catalog settings.detector.tables = [] := none
    rw [clean]
    exact fresh.resolve_left fun some => some none
  next => rfl

theorem scan_shows_files_with_matches_saved :
    let _ : CharacterNames := .latinAndGreek
    let text : Text := "Text('Save it')".toList
    let content : List UInt8 := text.map fun c => UInt8.ofNat c.toNat
    let tree : FileTree := ⟨.directory [("a.dart".toList, .file content)], []⟩
    let uri : Text := "file:///a.dart".toList
    let client : Client := { documents := [(uri, text)], reader := .ofTree tree, tree := tree }
    let settings : ProjectSettings := ⟨{}, {}⟩
    let path : Path := ⟨.relative, ["a.dart".toList]⟩
    let session := Session.after [.toggled client, .toggled { client with documents := [] }]
    tree.root.isProper = true ∧ client.Reads settings ∧ session.enabled = true ∧
      sourcePaths tree settings.scan none [client.scanRoot] = .ok [path] ∧
      (scanWorkspace client session).2.isOk = true ∧ tree.readText path = .ok text ∧
      client.uriOf path = uri ∧ client.documents.get? uri = some text ∧
      session.shown uri = [] ∧
      (scanWorkspace client session).1.shown uri =
        diagnosticsOf (findHardcoded text settings.detector.catalog settings.detector.tables) := by
  intro _ text content tree uri client settings path session
  have proper : tree.root.isProper = true := by decide +kernel
  have reads : client.Reads settings := by rfl
  have on : session.enabled = true := by decide +kernel
  have visited : sourcePaths tree settings.scan none [client.scanRoot] = .ok [path] := by rfl
  have returns : (scanWorkspace client session).2.isOk = true := by decide +kernel
  have read : tree.readText path = .ok text := by rfl
  have named : client.uriOf path = uri := by decide +kernel
  have opened : client.documents.get? uri = some text := by decide +kernel
  have fresh : session.shown uri = [] := by decide +kernel
  refine ⟨proper, reads, on, visited, returns, read, named, opened, fresh, ?_⟩
  have shown := scan_shows_files_with_matches client settings session [path] proper reads on visited
    returns path List.mem_cons_self text read
  simp only [named, opened, Option.getD_some] at shown
  refine shown.2 (Or.inr fresh) ?_
  intro buffer same
  exact (Option.some_inj.mp same).symm

/-- A file that has become clean between two scans still shows the diagnostics of its former
content. -/
theorem rescan_keeps_stale_diagnostics :
    let _ : CharacterNames := .latinAndGreek
    let bytes (text : Text) : List UInt8 := text.map fun c => UInt8.ofNat c.toNat
    let treeOf (text : Text) : FileTree := ⟨.directory [("a.dart".toList, .file (bytes text))], []⟩
    let edited : Text := "final x = 1;".toList
    let clientOf (text : Text) : Client := { reader := .ofTree (treeOf text), tree := treeOf text }
    let client := clientOf edited
    let settings : ProjectSettings := ⟨{}, {}⟩
    let path : Path := ⟨.relative, ["a.dart".toList]⟩
    let session := Session.after [.scanned (clientOf "Text('Save it')".toList)]
    client.Reads settings ∧ session.enabled = true ∧
      sourcePaths client.tree settings.scan none [client.scanRoot] = .ok [path] ∧
      (scanWorkspace client session).2.isOk = true ∧ client.tree.readText path = .ok edited ∧
      client.documents.get? (client.uriOf path) = none ∧
      (scanWorkspace client session).1.shown (client.uriOf path) ≠
        diagnosticsOf
          (findHardcoded edited settings.detector.catalog settings.detector.tables) := by
  intro _ bytes treeOf edited clientOf client settings path session
  refine ⟨by rfl, by decide +kernel, by rfl, by decide +kernel, by rfl, by rfl, ?_⟩
  decide +kernel

end HardcodedText
