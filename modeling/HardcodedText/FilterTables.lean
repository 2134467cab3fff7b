import HardcodedText.Pattern.Parser

/-!
The names and patterns that the filters and the widget locator consult, their defaults, and their
extension by configuration.
-/

namespace HardcodedText

/-- Sets of names are lists without repetition, in the order in which names were added. -/
structure FilterTables where
  nonWidgetClasses : List Text
  /-- What denies a call, searched in the text before it. -/
  contextPatterns : List SourcePattern
  localizedPatterns : List SourcePattern
  /-- What marks a literal as localized right behind it. -/
  localizedSuffixes : List SourcePattern
  technicalParameters : List Text
  technicalCalls : List Text
  fieldNames : List Text
  /-- How many characters before a call are looked at for a denied context. -/
  contextWindow : Int
  deriving DecidableEq, Repr

def defaultNonWidgetClasses : List Text := List.map String.toList [
  "String", "int", "double", "num", "bool", "List", "Map", "Set", "Iterable", "Future", "Stream",
  "Duration", "DateTime", "Color", "Size", "Offset", "Rect", "Object", "Symbol", "Uri", "RegExp",
  "Exception", "Error", "StateError", "ArgumentError", "FormatException", "Completer", "Timer",
  "Navigator", "Route", "PageRoute", "MaterialPageRoute", "CupertinoPageRoute", "GoRouter",
  "GoRoute", "RouteSettings", "Provider", "Consumer", "Selector", "ChangeNotifier",
  "ValueNotifier", "StateNotifier", "StreamController", "BlocProvider", "Bloc", "Cubit",
  "Animation", "AnimationController", "Tween", "ColorTween", "Curve", "Curves", "CurvedAnimation",
  "Interval", "Http", "Dio", "Response", "Request", "Json", "Serializable", "BaseOptions",
  "Options", "FormData", "JsonKey", "JsonSerializable", "Database", "Hive", "SqlFlite", "Sqflite",
  "Firebase", "Firestore", "SharedPreferences", "Box", "Test", "Mock", "Fake", "Stub", "When",
  "Verify", "Expect"]

def defaultTechnicalParameters : List Text := List.map String.toList [
  "id", "key", "tag", "heroTag", "restorationId", "restorationScopeId", "debugLabel",
  "identifier", "groupTag", "testId", "value", "groupValue", "initialValue", "routeName",
  "initialRoute", "route", "path", "url", "uri", "scheme", "host", "fontFamily", "package",
  "textDirection", "textAlign", "locale", "assetName", "image", "mimeType", "pattern", "format",
  "dateFormat", "storageKey", "prefsKey", "channel", "method", "eventName"]

def defaultTechnicalCalls : List Text := List.map String.toList [
  "Uri.parse", "Uri.tryParse", "Key", "ValueKey", "ObjectKey", "PageStorageKey", "RegExp",
  "DateFormat", "NumberFormat", "AssetImage", "NetworkImage", "Image.asset", "Image.network",
  "SvgPicture.asset"]

def defaultFieldNames : List Text := List.map String.toList [
  "id", "uid", "uuid", "type", "value", "values", "status", "state", "key", "code", "data",
  "name", "count", "index", "url", "path", "json", "true", "false", "null"]

def denyingKeywords : List Text := List.map String.toList [
  "import", "class", "extends", "implements", "typedef", "enum", "mixin"]

def denyingWords : List Text := List.map String.toList ["new", "as", "is"]

section Patterns

open Pattern

def keywordContext (keyword : Text) : SourcePattern :=
  ⟨"\\b".toList ++ keyword ++ "\\s+[^\\n]*$".toList,
    all (boundary true :: keyword.map char ++
      [atLeast 1 (oneOf [.blank true]), many (noneOf [.single '\n']), lastLineEnd])⟩

def wordContext (word : Text) : SourcePattern :=
  ⟨"\\b".toList ++ word ++ ['$'], all (boundary true :: word.map char ++ [lastLineEnd])⟩

def defaultContextPatterns : List SourcePattern :=
  denyingKeywords.map keywordContext ++
    ⟨"\\.$".toList, all [char '.', lastLineEnd]⟩ :: denyingWords.map wordContext

def defaultLocalizedPatterns : List SourcePattern := [
  ⟨"context\\.l10n\\.".toList, exactly "context.l10n."⟩,
  ⟨"AppLocalizations\\.of\\(context\\)".toList, exactly "AppLocalizations.of(context)"⟩,
  ⟨"Localizations\\.of\\(context\\)".toList, exactly "Localizations.of(context)"⟩,
  ⟨"\\bS\\.of\\(context\\)".toList, seq (boundary true) (exactly "S.of(context)")⟩,
  ⟨"\\.tr\\(\\)".toList, exactly ".tr()"⟩,
  ⟨"\\.tr\\s*$".toList,
    all [char '.', char 't', char 'r', many (oneOf [.blank true]), lastLineEnd]⟩,
  ⟨"\\bintl\\.".toList, seq (boundary true) (exactly "intl.")⟩,
  ⟨"\\.i18n".toList, exactly ".i18n"⟩,
  ⟨"\\bLocaleKeys\\.".toList, seq (boundary true) (exactly "LocaleKeys.")⟩,
  ⟨"\\bI18n\\.".toList, seq (boundary true) (exactly "I18n.")⟩,
  ⟨"\\btranslations\\.".toList, seq (boundary true) (exactly "translations.")⟩,
  ⟨"\\blocale\\.".toList, seq (boundary true) (exactly "locale.")⟩]

def selecting (written : String) (accessor : List Pattern) : SourcePattern :=
  ⟨"^\\s*\\.\\s*".toList ++ written.toList,
    all ([textStart, many (oneOf [.blank true]), char '.', many (oneOf [.blank true])] ++ accessor)⟩

def selectedName (name : String) : SourcePattern :=
  selecting (name ++ "\\b") (name.toList.map char ++ [boundary true])

def selectedCall (name : String) : SourcePattern :=
  selecting (name ++ "\\s*\\(") (name.toList.map char ++ [many (oneOf [.blank true]), char '('])

def defaultLocalizedSuffixes : List SourcePattern := [
  selectedName "tr",
  selecting "tr[A-Z]\\w*\\b"
    [char 't', char 'r', oneOf [.range 0x41 0x5a], many (oneOf [.word true]), boundary true],
  selectedName "i18n",
  selectedCall "plural",
  selectedCall "translate"]

end Patterns

/-- Each default pattern is what its written form spells, and none of them names a character. -/
theorem parse_defaultPatterns :
    let _ : CharacterNames := ⟨fun _ => none⟩
    ∀ pattern ∈ defaultContextPatterns ++ defaultLocalizedPatterns ++ defaultLocalizedSuffixes,
      (Pattern.parse pattern.source).toOption = some pattern := by
  decide +kernel

def defaultTables : FilterTables := {
  nonWidgetClasses := defaultNonWidgetClasses
  contextPatterns := defaultContextPatterns
  localizedPatterns := defaultLocalizedPatterns
  localizedSuffixes := defaultLocalizedSuffixes
  technicalParameters := defaultTechnicalParameters
  technicalCalls := defaultTechnicalCalls
  fieldNames := defaultFieldNames
  contextWindow := 50 }

structure TableOverrides where
  technicalParameters : List Text := []
  localizedPatterns : List Text := []
  nonWidgetClasses : List Text := []
  technicalCalls : List Text := []
  fieldNames : List Text := []
  deriving DecidableEq, Repr

def addName (names : List Text) (name : Text) : List Text :=
  if names.contains name then names else names ++ [name]

def addNames (names extra : List Text) : List Text :=
  extra.foldl addName names

def addCall (calls : List Text) (call : Text) : List Text :=
  if call.isEmpty then calls else addName calls call

def addCalls (calls extra : List Text) : List Text :=
  extra.foldl addCall calls

section Parsing

variable [CharacterNames]

def parseAll : List Text → Except PatternError (List SourcePattern)
  | [] => .ok []
  | source :: later =>
      match Pattern.parse source with
      | .error error => .error error
      | .ok pattern => (parseAll later).map (pattern :: ·)

def FilterTables.withOverrides (tables : FilterTables) (overrides : TableOverrides) :
    Except PatternError FilterTables :=
  (parseAll overrides.localizedPatterns).map fun patterns => { tables with
    technicalParameters := addNames tables.technicalParameters overrides.technicalParameters
    localizedPatterns := tables.localizedPatterns ++ patterns
    nonWidgetClasses := addNames tables.nonWidgetClasses overrides.nonWidgetClasses
    technicalCalls := addCalls tables.technicalCalls overrides.technicalCalls
    fieldNames := addNames tables.fieldNames overrides.fieldNames }

end Parsing

end HardcodedText
