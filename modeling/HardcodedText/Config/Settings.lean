import HardcodedText.Catalog
import HardcodedText.Config.Toml.Document
import HardcodedText.Config.Value
import HardcodedText.FilterTables
import HardcodedText.Text.Printable
import HardcodedText.Workspace.FileTree

/-!
The configuration file, and the settings that its sections describe: which files are scanned, the
widget catalog and the filter tables. A file that is missing or is no TOML document counts as an
empty one; a file that is not UTF-8 is an error, and so is a path that no file can have.
-/

namespace HardcodedText

/-! Loading -/

def configName : Path := Path.ofText "translate-me.toml".toList

def configPlace (root configPath : Option Path) : Path :=
  match configPath with
  | some path => path
  | none => (root.getD ⟨.relative, []⟩).inside configName

def loadConfig (tree : FileTree) (root configPath : Option Path) :
    Except ReadError (Table Value) :=
  match tree.readText (configPlace root configPath) with
  | .ok text => .ok ((Toml.parse text).getD [])
  | .error (.file error) => if error.fault = .embeddedNull then .error (.file error) else .ok []
  | .error (.decode error) => .error (.decode error)

def sectionOf (config : Table Value) (name : String) : Value :=
  .table (((config.get? name.toList).getD .null).asTable)

/-! Sections -/

def defaultExcludeDirs : List Text := List.map String.toList [
  ".dart_tool", ".git", "build", ".idea", ".fvm"]

def defaultExtensions : List Text := [".dart".toList]

structure ScanConfig where
  excludeDirs : List Text := defaultExcludeDirs
  excludeGlobs : List Text := []
  includeTests : Bool := false
  extensions : List Text := defaultExtensions
  deriving DecidableEq, Repr

def withDot (name : Text) : Text :=
  if name.head? == some '.' then name else '.' :: name

def extensionList (value : Value) : List Text :=
  match value.nameList with
  | [] => defaultExtensions
  | names => names.map withDot

def ScanConfig.ofSection (settings : Value) : ScanConfig :=
  { excludeDirs := addNames defaultExcludeDirs (settings.get "exclude").nameList
    excludeGlobs := (settings.get "exclude_globs").nameList
    includeTests := (settings.get "include_tests").asBool
    extensions := extensionList (settings.get "extensions") }

def widgetOverrides (entries : Table Value) : Table (List Text) :=
  (entries.filter fun entry => !entry.1.trim.isEmpty).map fun entry =>
    (entry.1, entry.2.nameList)

/-- Replaces the parameters of the widgets that the overrides name, each override being used once,
and appends the overrides that are left. -/
def overlay (overrides : Table (List Text)) : List WidgetPattern → List WidgetPattern
  | [] => overrides.map fun (name, params) => ⟨name, params⟩
  | entry :: later =>
      match overrides.get? entry.widget with
      | some params => ⟨entry.widget, params⟩ :: overlay (overrides.erase entry.widget) later
      | none => entry :: overlay overrides later

/-- The base catalog with the entries of a section put over it. An entry that names a widget of the
base replaces its parameters in place; new names are appended in the order of the table. A section
without entries changes nothing. -/
def catalogFromSection (settings : Value) (base : List WidgetPattern) : List WidgetPattern :=
  if settings.hasEntries then
    normalizeCatalog (overlay (widgetOverrides settings.asTable) base)
  else base

inductive ConfigError
  | invalidPattern (source : Text) (error : PatternError)
  deriving DecidableEq, Repr

namespace ConfigError

def key : ConfigError → String
  | invalidPattern .. => "filters.translation_patterns"

def message : ConfigError → String
  | invalidPattern source error =>
      "invalid translation pattern " ++ (Text.quoted source).string ++ ": " ++ error.message

end ConfigError

def overridesOfSection (settings : Value) : TableOverrides :=
  { technicalParameters := (settings.get "technical_parameters").nameList
    localizedPatterns := (settings.get "translation_patterns").patternList
    nonWidgetClasses := (settings.get "non_widget_classes").nameList
    technicalCalls := (settings.get "technical_calls").nameList
    fieldNames := (settings.get "field_names").nameList }

inductive FilterError
  | config (error : ConfigError)
  /-- A pattern is well-formed, but asks for what patterns cannot do. -/
  | unusable (error : PatternError)
  deriving DecidableEq, Repr

def FilterError.ofPattern (error : PatternError) : FilterError :=
  if error.isMalformed then .config (.invalidPattern error.source error) else .unusable error

section

variable [CharacterNames]

def tablesFromSection (settings : Value) (base : FilterTables) : Except FilterError FilterTables :=
  if settings.hasEntries then
    (base.withOverrides (overridesOfSection settings)).mapError .ofPattern
  else .ok base

end

inductive Failure
  | read (error : ReadError)
  /-- A pattern asks for what patterns cannot do. -/
  | pattern (error : PatternError)
  deriving DecidableEq, Repr

def Failure.message : Failure → String
  | read error => error.message
  | pattern error => error.message

end HardcodedText
