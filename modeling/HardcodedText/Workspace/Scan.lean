import HardcodedText.Config.Settings
import HardcodedText.Detection
import HardcodedText.Workspace.FileTree
import HardcodedText.Workspace.Glob

/-!
Scanning the source files of a workspace: which files are scanned, what they hold, and the response
that reports it. A file that cannot be read is a failure of its own and stops nothing; a path that
no file can have stops the scan.
-/

namespace HardcodedText

def testSuffix : Text := "_test.dart".toList

namespace ScanConfig

def isSourcePath (config : ScanConfig) (path : Path) : Bool :=
  config.extensions.any (·.isSuffixOf path.name) &&
    (config.includeTests || !testSuffix.isSuffixOf path.name)

def isExcludedName (config : ScanConfig) (path : Path) : Bool :=
  config.excludeGlobs.any fun pattern => Glob.accepts pattern path.name

/-- The components of the directory of a path: those below the root if the path lies there, and all
of them otherwise. -/
def directoryParts (currentDir : List Text) (root : Option Path) (path : Path) : List Text :=
  let below := root.bind fun root => do
    Path.relativeTo (← root.resolve? currentDir) (← path.resolve? currentDir).dropLast
  below.getD path.parent.components

def isIgnoredPath (config : ScanConfig) (currentDir : List Text) (root : Option Path)
    (path : Path) : Bool :=
  ((directoryParts currentDir root path).any config.excludeDirs.contains) ||
    config.isExcludedName path

end ScanConfig

/-- The files that one given path stands for: the source files below a directory, or the path itself
unless it is ignored. Of a path that is too long it cannot be told which. -/
def expandPath (tree : FileTree) (config : ScanConfig) (root : Option Path) (path : Path) :
    Except FileError (List Path) :=
  match tree.find path with
  | .ok (.directory entries) =>
      let found := (Node.directory entries).walk fun name => !config.excludeDirs.contains name
      .ok ((found.map fun parts => { path with parts := path.parts ++ parts }).filter fun file =>
        config.isSourcePath file && !config.isExcludedName file)
  | .error .nameTooLong => .error ⟨.nameTooLong, path⟩
  | _ => .ok (if config.isIgnoredPath tree.currentDir root path then [] else [path])

def sourcePaths (tree : FileTree) (config : ScanConfig) (root : Option Path) :
    List Path → Except FileError (List Path)
  | [] => .ok []
  | path :: later => do
      let files ← expandPath tree config root path
      let others ← sourcePaths tree config root later
      .ok (files ++ others)

structure ReadFailure where
  path : Path
  error : ReadError
  deriving DecidableEq, Repr

structure FileScan where
  path : Path
  found : List Match
  deriving DecidableEq, Repr

structure WorkspaceScan where
  files : List FileScan := []
  failures : List ReadFailure := []
  scanned : Nat := 0
  deriving DecidableEq, Repr

namespace WorkspaceScan

def append (first second : WorkspaceScan) : WorkspaceScan :=
  { files := first.files ++ second.files
    failures := first.failures ++ second.failures
    scanned := first.scanned + second.scanned }

def matchCount (scan : WorkspaceScan) : Nat :=
  scan.files.foldl (fun count file => count + file.found.length) 0

end WorkspaceScan

structure Detector where
  catalog : List WidgetPattern := defaultCatalog
  tables : FilterTables := defaultTables

def scanText (detector : Detector) (path : Path) (text : Text) : WorkspaceScan :=
  match findHardcoded text detector.catalog detector.tables with
  | [] => { scanned := 1 }
  | found => { files := [⟨path, found⟩], scanned := 1 }

def scanFile (tree : FileTree) (detector : Detector) (path : Path) :
    Except ReadError WorkspaceScan :=
  match tree.readText path with
  | .error error =>
      if error.concernsFile then .ok { failures := [⟨path, error⟩] } else .error error
  | .ok text => .ok (scanText detector path text)

def scanFiles (tree : FileTree) (detector : Detector) :
    List Path → Except ReadError WorkspaceScan
  | [] => .ok {}
  | path :: later => do
      let first ← scanFile tree detector path
      let others ← scanFiles tree detector later
      .ok (first.append others)

def scanPaths (tree : FileTree) (config : ScanConfig) (root : Option Path) (detector : Detector)
    (paths : List Path) : Except ReadError WorkspaceScan := do
  let files ← (sourcePaths tree config root paths).mapError .file
  scanFiles tree detector files

def displayPath (currentDir : List Text) (root : Option Path) (path : Path) : Text :=
  match root.bind fun root => path.below? currentDir root with
  | some parts => Path.text ⟨.relative, parts⟩
  | none => path.text

structure ReportedMatch where
  path : Text
  found : Match
  deriving DecidableEq, Repr

structure ReportedFailure where
  path : Text
  error : String
  deriving DecidableEq, Repr

structure ScanStats where
  filesScanned : Nat
  filesWithMatches : Nat
  matchCount : Nat
  failureCount : Nat
  deriving DecidableEq, Repr

structure ScanResponse where
  found : List ReportedMatch
  failures : List ReportedFailure
  stats : ScanStats
  deriving DecidableEq, Repr

def buildResponse (currentDir : List Text) (root : Option Path) (scan : WorkspaceScan) :
    ScanResponse :=
  let found := scan.files.flatMap fun file =>
    file.found.map fun found => ⟨displayPath currentDir root file.path, found⟩
  let failures := scan.failures.map fun failure =>
    ⟨displayPath currentDir root failure.path, failure.error.describe⟩
  { found := found
    failures := failures
    stats := {
      filesScanned := scan.scanned
      filesWithMatches := scan.files.length
      matchCount := found.length
      failureCount := failures.length } }

end HardcodedText
