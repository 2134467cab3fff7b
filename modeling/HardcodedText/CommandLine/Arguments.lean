import HardcodedText.Report.Formats

/-!
The arguments of the command line. Options and positional arguments may be mixed; an option takes
its value from behind an equals sign or from the next argument, whatever that is; of a repeated
option the last one holds; two dashes alone end the options.
-/

namespace HardcodedText

structure ScanOptions where
  paths : List Path := []
  root : Path := ⟨.relative, []⟩
  config : Option Path := none
  format : OutputFormat := .text
  output : Option Path := none
  includeTests : Option Bool := none
  failOnMatches : Bool := false
  deriving DecidableEq, Repr

structure ClassifyOptions where
  text : Text
  param : Option Text := none
  root : Path := ⟨.relative, []⟩
  config : Option Path := none
  asJson : Bool := false
  deriving DecidableEq, Repr

inductive Command
  | scan (options : ScanOptions)
  | classify (options : ClassifyOptions)
  deriving DecidableEq, Repr

namespace Arguments

structure Grammar where
  valued : List Text
  flags : List Text

structure Parsed where
  options : List (Text × Text) := []
  positional : List Text := []

namespace Parsed

def addOption (parsed : Parsed) (name value : Text) : Parsed :=
  { parsed with options := parsed.options ++ [(name, value)] }

def addPositional (parsed : Parsed) (arguments : List Text) : Parsed :=
  { parsed with positional := parsed.positional ++ arguments }

def last? (parsed : Parsed) (names : List Text) : Option (Text × Text) :=
  (parsed.options.filter fun option => names.contains option.1).getLast?

def value? (parsed : Parsed) (name : String) : Option Text :=
  (parsed.last? [name.toList]).map Prod.snd

def switch? (parsed : Parsed) (on off : String) : Option Bool :=
  (parsed.last? [on.toList, off.toList]).map fun option => option.1 == on.toList

end Parsed

def isOption (argument : Text) : Bool :=
  argument.head? == some '-' && argument != ['-']

def parseFrom (grammar : Grammar) (awaiting : Option Text) (parsed : Parsed) :
    List Text → Option Parsed
  | [] => if awaiting.isSome then none else some parsed
  | argument :: later =>
      match awaiting with
      | some name => parseFrom grammar none (parsed.addOption name argument) later
      | none =>
          if argument == ['-', '-'] then some (parsed.addPositional later)
          else if !isOption argument then
            parseFrom grammar none (parsed.addPositional [argument]) later
          else
            let name := argument.takeWhile (· != '=')
            let attached := argument.contains '='
            if grammar.valued.contains name then
              if attached then
                parseFrom grammar none
                  (parsed.addOption name (argument.drop (name.length + 1))) later
              else parseFrom grammar (some name) parsed later
            else if grammar.flags.contains name && !attached then
              parseFrom grammar none (parsed.addOption name []) later
            else none

def parse (grammar : Grammar) (arguments : List Text) : Option Parsed :=
  parseFrom grammar none {} arguments

def scanGrammar : Grammar where
  valued := List.map String.toList ["--root", "--config", "--format", "--output"]
  flags := List.map String.toList ["--include-tests", "--no-include-tests", "--fail-on-matches",
    "--no-fail-on-matches"]

def classifyGrammar : Grammar where
  valued := List.map String.toList ["--param", "--root", "--config"]
  flags := ["--json".toList]

inductive ArgumentError
  /-- They do not follow the grammar of any command. -/
  | misuse
  | unusablePath (path : Path)
  deriving DecidableEq, Repr

def usablePath (text : Text) : Except ArgumentError Path :=
  let path := Path.ofText text
  if path.hasNull then .error (.unusablePath path) else .ok path

def pathOptions : List Text := List.map String.toList ["--root", "--config", "--output"]

def checkOptions (parsed : Parsed) : Except ArgumentError Unit :=
  (dedupeBy id (parsed.options.map Prod.fst)).forM fun name => do
    let value := ((parsed.last? [name]).map Prod.snd).getD []
    if pathOptions.contains name then
      let _ ← usablePath value
    if name == "--format".toList && (OutputFormat.ofText? value).isNone then throw .misuse

def rootOf (parsed : Parsed) : Path :=
  ((parsed.value? "--root").map Path.ofText).getD ⟨.relative, []⟩

def formatOf (parsed : Parsed) : OutputFormat :=
  ((parsed.value? "--format").bind OutputFormat.ofText?).getD .text

def parseChecked (grammar : Grammar) (arguments : List Text) : Except ArgumentError Parsed :=
  match parse grammar arguments with
  | none => .error .misuse
  | some parsed => do
      checkOptions parsed
      return parsed

def scanCommand (arguments : List Text) : Except ArgumentError Command := do
  let parsed ← parseChecked scanGrammar arguments
  let paths ← parsed.positional.mapM usablePath
  pure (.scan {
    paths := paths
    root := rootOf parsed
    config := (parsed.value? "--config").map Path.ofText
    format := formatOf parsed
    output := (parsed.value? "--output").map Path.ofText
    includeTests := parsed.switch? "--include-tests" "--no-include-tests"
    failOnMatches :=
      (parsed.switch? "--fail-on-matches" "--no-fail-on-matches").getD false })

def classifyCommand (arguments : List Text) : Except ArgumentError Command := do
  let parsed ← parseChecked classifyGrammar arguments
  match parsed.positional with
  | [text] => pure (.classify {
      text := text
      param := parsed.value? "--param"
      root := rootOf parsed
      config := (parsed.value? "--config").map Path.ofText
      asJson := (parsed.last? ["--json".toList]).isSome })
  | _ => throw .misuse

def command (arguments : List Text) : Except ArgumentError Command :=
  let arguments := if arguments.head? == some ['-', '-'] then arguments.tail else arguments
  match arguments with
  | [] => .error .misuse
  | name :: later =>
      if name == "scan".toList then scanCommand later
      else if name == "classify".toList then classifyCommand later
      else .error .misuse

end Arguments

end HardcodedText
