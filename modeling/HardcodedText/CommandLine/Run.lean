import HardcodedText.CommandLine.Arguments
import HardcodedText.Config.Settings

/-!
Running the commands: scanning files and classifying one literal.
-/

namespace HardcodedText

inductive CommandOutcome
  /-- It ended with an exit code, having written to standard output, standard error and files. -/
  | ended (exitCode : Nat) (output errors : Text) (tree : FileTree)
  /-- It could not go on. -/
  | aborted (failure : Failure) (tree : FileTree)
  | misused

variable [CharacterNames]

namespace CommandLine

def line (text : String) : Text :=
  (text ++ "\n").toList

def refuse (error : FilterError) (tree : FileTree) : CommandOutcome :=
  match error with
  | .config error => .ended 2 [] (line ("translate-me: " ++ error.message)) tree
  | .unusable error => .aborted (.pattern error) tree

def closeLine (text : Text) : Text :=
  if text.getLast? == some '\n' then text else text ++ ['\n']

def scanSettings (includeTests : Option Bool) (settings : Value) : ScanConfig :=
  let payload : Table Value :=
    [("include_tests".toList, match includeTests with
      | some value => .bool value
      | none => .null)]
  ScanConfig.ofSection (.table (Value.mergeOver payload settings.asTable))

def warning (failure : ReadFailure) : Text :=
  line ("warning: could not read " ++ failure.path.text.string ++ ": " ++ failure.error.describe)

def summary (stats : ScanStats) : Text :=
  line (toString stats.matchCount ++ " hardcoded string(s) in " ++
    toString stats.filesWithMatches ++ " of " ++ toString stats.filesScanned ++ " file(s)")

/-- Writes a report to its target: standard output if there is none or it is a dash, a file
otherwise. An empty report is not written. Returns what goes to standard output. -/
def deliver (tree : FileTree) (target : Option Path) (report : Text) :
    Except FileError (Text × FileTree) :=
  if report.isEmpty then .ok ([], tree)
  else
    match target with
    | none => .ok (closeLine report, tree)
    | some path =>
        if path.text == ['-'] then .ok (closeLine report, tree)
        else (tree.write path (Utf8.encode (closeLine report))).map fun written => ([], written)

def runScanWith (tree : FileTree) (options : ScanOptions) (config : ScanConfig)
    (detector : Detector) : CommandOutcome :=
  let paths := if options.paths.isEmpty then [options.root] else options.paths
  match scanPaths tree config (some options.root) detector paths with
  | .error error => .aborted (.read error) tree
  | .ok result =>
      let response := buildResponse tree.currentDir (some options.root) result
      match deliver tree options.output (Report.render options.format response) with
      | .error error => .aborted (.read (.file error)) tree
      | .ok (output, written) =>
          .ended (if options.failOnMatches && !response.found.isEmpty then 1 else 0) output
            (result.failures.flatMap warning ++ summary response.stats) written

def runScan (tree : FileTree) (options : ScanOptions) : CommandOutcome :=
  match loadConfig tree (some options.root) options.config with
  | .error error => .aborted (.read error) tree
  | .ok config =>
      match tablesFromSection (sectionOf config "filters") defaultTables with
      | .error error => refuse error tree
      | .ok tables =>
          runScanWith tree options (scanSettings options.includeTests (sectionOf config "scan"))
            ⟨catalogFromSection (sectionOf config "widgets") defaultCatalog, tables⟩

def classifyContext (text : Text) (param : Option Text) : LiteralContext :=
  let quote := if text.contains '\'' then '"' else '\''
  let label := match param with
    | none => []
    | some name => if name.isEmpty then [] else name ++ [':', ' ']
  { content := text
    argText := label ++ quote :: text ++ [quote]
    offset := label.length }

def describeOutcome (options : ClassifyOptions) (outcome : Classification) : Text :=
  if options.asJson then
    (Report.object [("content", .string options.text), ("keep", .bool outcome.keep),
      ("step", Report.text outcome.step)]).compact ++ ['\n']
  else if outcome.keep then line "keep"
  else line ("drop: " ++ outcome.step)

def runClassify (tree : FileTree) (options : ClassifyOptions) : CommandOutcome :=
  match loadConfig tree (some options.root) options.config with
  | .error error => .aborted (.read error) tree
  | .ok config =>
      match tablesFromSection (sectionOf config "filters") defaultTables with
      | .error error => refuse error tree
      | .ok tables =>
          let outcome := classify (classifyContext options.text options.param) tables
          .ended 0 (describeOutcome options outcome) [] tree

def run (tree : FileTree) (arguments : List Text) : CommandOutcome :=
  match Arguments.command arguments with
  | .error .misuse => .misused
  | .error (.unusablePath path) => .aborted (.read (.file ⟨.embeddedNull, path⟩)) tree
  | .ok (.scan options) => runScan tree options
  | .ok (.classify options) => runClassify tree options

end CommandLine

end HardcodedText
