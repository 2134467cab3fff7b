import HardcodedText.Report.JsonValue
import HardcodedText.Workspace.Scan

/-!
The formats of a scan report: one line of text for each match, JSON, one line of JSON for each
match, and SARIF.
-/

namespace HardcodedText

inductive OutputFormat
  | text
  | json
  | jsonLines
  | sarif
  deriving DecidableEq, Repr

def OutputFormat.ofText? (name : Text) : Option OutputFormat :=
  if name == "text".toList then some .text
  else if name == "json".toList then some .json
  else if name == "jsonl".toList then some .jsonLines
  else if name == "sarif".toList then some .sarif
  else none

namespace Report

def object (members : List (String × JsonValue)) : JsonValue :=
  .object (members.map fun (name, value) => (name.toList, value))

def text (value : String) : JsonValue :=
  .string value.toList

def matchObject (reported : ReportedMatch) : JsonValue :=
  object [("path", .string reported.path), ("literal", .string reported.found.literal),
    ("start_line", .number reported.found.start.line),
    ("start_col", .number reported.found.start.column),
    ("end_line", .number reported.found.stop.line),
    ("end_col", .number reported.found.stop.column),
    ("widget", .string reported.found.widget), ("parameter", .string reported.found.parameter)]

def responseObject (response : ScanResponse) : JsonValue :=
  object [
    ("matches", .array (response.found.map matchObject)),
    ("failures", .array (response.failures.map fun failure =>
      object [("path", .string failure.path), ("error", text failure.error)])),
    ("stats", object [
      ("files_scanned", .number response.stats.filesScanned),
      ("files_with_matches", .number response.stats.filesWithMatches),
      ("matches", .number response.stats.matchCount),
      ("failures", .number response.stats.failureCount)])]

def textLine (reported : ReportedMatch) : Text :=
  reported.path ++ ":".toList ++ (toString (reported.found.start.line + 1)).toList ++ ":".toList ++
    (toString (reported.found.start.column + 1)).toList ++ ": ".toList ++ reported.found.target ++
    " ".toList ++ reported.found.literal

def sarifRule : String := "hardcoded-string"

def sarifResult (reported : ReportedMatch) : JsonValue :=
  object [
    ("ruleId", text sarifRule),
    ("level", text "warning"),
    ("message", object [("text", text reported.found.message)]),
    ("locations", .array [object [("physicalLocation", object [
      ("artifactLocation", object [("uri", .string reported.path)]),
      ("region", object [
        ("startLine", .number (reported.found.start.line + 1)),
        ("startColumn", .number (reported.found.start.column + 1)),
        ("endLine", .number (reported.found.stop.line + 1)),
        ("endColumn", .number (reported.found.stop.column + 1))])])]])]

def sarifLog (response : ScanResponse) : JsonValue :=
  object [
    ("$schema", text "https://json.schemastore.org/sarif-2.1.0.json"),
    ("version", text "2.1.0"),
    ("runs", .array [object [
      ("tool", object [("driver", object [
        ("name", text "translate-me"),
        ("rules", .array [object [
          ("id", text sarifRule),
          ("name", text sarifRule),
          ("shortDescription",
            object [("text", text "Hardcoded user-facing string in a widget")])]])])]),
      ("results", .array (response.found.map sarifResult))]])]

def render (format : OutputFormat) (response : ScanResponse) : Text :=
  match format with
  | .text => List.intercalate ['\n'] (response.found.map textLine)
  | .json => (responseObject response).pretty
  | .jsonLines =>
      List.intercalate ['\n'] (response.found.map fun found => (matchObject found).compact)
  | .sarif => (sarifLog response).pretty

end Report

end HardcodedText
