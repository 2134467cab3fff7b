import HardcodedText.Catalog
import HardcodedText.Filter.Identifier
import HardcodedText.FilterTables
import HardcodedText.NamedToken
import HardcodedText.Pattern.Search
import HardcodedText.Scanner.Literal

/-!
Widget calls: first the calls of catalog widgets, in catalog order, then the calls of other
capitalized names that look like widgets.
-/

namespace HardcodedText

/-- A call: the widget, its argument list and the offset at which that begins, whether the widget is
in the catalog, and the parameters to look for. -/
structure CallSite where
  widget : Text
  argText : Text
  argStart : Nat
  known : Bool
  params : List Text
  deriving DecidableEq, Repr

/-- A call head found at a place: how far away its name begins, the name, and the width of the whole
head, opening parenthesis included. -/
structure CallHead where
  nameOffset : Nat
  name : Text
  width : Nat
  deriving DecidableEq, Repr

abbrev NameReader := Option Char → Text → Option Text

def readKnownName (name : Text) : NameReader := fun previous text =>
  if name.isPrefixOf text && isBoundary previous text.head? then some name else none

def isAsciiNameChar (c : Char) : Bool :=
  c.isAlphanum || c == '_'

def readCustomName : NameReader := fun previous text =>
  if text.head?.any Char.isUpper && !previous.any isWordChar then
    let base := text.takeWhile isAsciiNameChar
    match text.drop base.length with
    | '.' :: rest =>
        if rest.head?.any isNameStart then some (base ++ '.' :: rest.takeWhile isAsciiNameChar)
        else some base
    | _ => some base
  else none

def readHead (readName : NameReader) (previous : Option Char) (text : Text) : Option CallHead :=
  (readName previous text).bind fun name =>
    let after := text.drop name.length
    let blanks := after.takeWhile isBlank
    if (after.drop blanks.length).head? == some '(' then
      some ⟨0, name, name.length + blanks.length + 1⟩
    else none

def readConstHead (readName : NameReader) (previous : Option Char) (text : Text) :
    Option CallHead :=
  if "const".toList.isPrefixOf text && !previous.any isWordChar then
    let after := text.drop 5
    let blanks := after.takeWhile isBlank
    match blanks.getLast? with
    | none => none
    | some last =>
        (readHead readName (some last) (after.drop blanks.length)).map fun head =>
          { head with
            nameOffset := 5 + blanks.length
            width := 5 + blanks.length + head.width }
  else none

def headAt (readName : NameReader) (previous : Option Char) (text : Text) : Option CallHead :=
  (readConstHead readName previous text).or (readHead readName previous text)

/-- The heads of a text that stands at `offset`, each with its own offset. The first `skip`
characters belong to the head before. -/
def headsFrom (readName : NameReader) (offset skip : Nat) (previous : Option Char) :
    Text → List (Nat × CallHead)
  | [] => []
  | c :: rest =>
      match skip with
      | skip + 1 => headsFrom readName (offset + 1) skip (some c) rest
      | 0 =>
          match headAt readName previous (c :: rest) with
          | some head =>
              (offset, head) :: headsFrom readName (offset + 1) (head.width - 1) (some c) rest
          | none => headsFrom readName (offset + 1) 0 (some c) rest

def heads (readName : NameReader) (text : Text) : List (Nat × CallHead) :=
  headsFrom readName 0 0 none text

def argumentsOf (text : Text) (offset : Nat) (head : CallHead) : Option (Text × Nat) :=
  let start := offset + head.width
  (extractBalanced text (start - 1 : Nat)).map fun argText => (argText, start)

def knownCallSites (text : Text) (pattern : WidgetPattern) (inert : SpanSet) : List CallSite :=
  (heads (readKnownName pattern.widget) text).filterMap fun (offset, head) =>
    if inert.contains (offset + head.nameOffset : Nat) then none
    else (argumentsOf text offset head).map fun (argText, start) =>
      { widget := pattern.widget, argText := argText, argStart := start, known := true,
        params := pattern.params }

def FilterTables.denies (tables : FilterTables) (window : Text) : Bool :=
  tables.contextPatterns.any fun denied => denied.pattern.foundIn window

def inDeniedContext (text : Text) (offset : Int) (tables : FilterTables) : Bool :=
  tables.denies (text.slice (max 0 (offset - tables.contextWindow)) offset).trimEnd

def isSimplyQuoted (quote : Char) (text : Text) : Bool :=
  2 ≤ text.length && text.head? == some quote && text.getLast? == some quote &&
    text.count quote == 2

def isTrivialBody (argText : Text) : Bool :=
  let body := argText.trim
  isSimplyQuoted '\'' body || isSimplyQuoted '"' body || isNamePath body

def looksLikeWidget (argText : Text) : Bool :=
  !isTrivialBody argText && hasNamedParameter argText

def baseName (name : Text) : Text :=
  name.takeWhile (· != '.')

def customCallSites (text : Text) (knownNames : List Text) (tables : FilterTables)
    (inert : SpanSet) : List CallSite :=
  (heads readCustomName text).filterMap fun (offset, head) =>
    if knownNames.contains head.name || knownNames.contains (baseName head.name) ||
        tables.nonWidgetClasses.contains (baseName head.name) ||
        inert.contains (offset + head.nameOffset : Nat) ||
        inDeniedContext text offset tables then none
    else (argumentsOf text offset head).bind fun (argText, start) =>
      if looksLikeWidget argText then
        some { widget := head.name, argText := argText, argStart := start, known := false,
               params := [] }
      else none

def callSites (text : Text) (catalog : List WidgetPattern) (tables : FilterTables)
    (inert : SpanSet) : List CallSite :=
  (catalog.flatMap fun pattern => knownCallSites text pattern inert) ++
    customCallSites text (catalog.map WidgetPattern.widget) tables inert

end HardcodedText
