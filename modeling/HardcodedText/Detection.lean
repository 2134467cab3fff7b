import HardcodedText.CallSite
import HardcodedText.Filter.Pipeline
import HardcodedText.Match
import HardcodedText.Scanner.Literal

/-!
Detection of hardcoded text in one source file: the literals of widget calls that the filters keep,
one match for each place, without those that an ignore directive silences. Marker comments state the
rules for that; the other comments are left out of the text before.
-/

namespace HardcodedText

/-! Ignore directives -/

def lineMarker : Text := "// translate-me-ignore".toList

def nextLineMarker : Text := "// translate-me-ignore-next-line".toList

def fileMarker : Text := "// translate-me-ignore-all-file".toList

def ignoreMarkers : List Text := [lineMarker, nextLineMarker, fileMarker]

inductive IgnoreRule
  | line (number : Nat)
  /-- The silenced line, one below its marker. -/
  | nextLine (number : Nat)
  | block (first last : Nat)
  deriving DecidableEq, Repr

def IgnoreRule.covers (number : Int) : IgnoreRule → Bool
  | .line silenced => number == silenced
  | .nextLine silenced => number == silenced
  | .block first last => (first : Int) ≤ number && number ≤ last

/-- The rules that one line states. The line marker is part of the other two, so a line with one of
those states a rule for itself as well. -/
def rulesOfLine (last : Nat) (line : Text) (number : Nat) : List IgnoreRule :=
  (if lineMarker.occursIn line then [.line number] else []) ++
    (if nextLineMarker.occursIn line then [.nextLine (number + 1)] else []) ++
    (if fileMarker.occursIn line then [.block number last] else [])

def ignoreRules (text : Text) : List IgnoreRule :=
  let lines := text.splitOn '\n'
  lines.zipIdx.flatMap fun (line, number) => rulesOfLine (lines.length - 1) line number

/-- The text with a space for every character of a comment that holds none of the markers. Line ends
stay, so every offset, line and column is the same in both texts. -/
def stripComments (text : Text) (markers : List Text) : Text :=
  let ordinary := (commentSpans text).filter fun span =>
    !markers.any fun marker => marker.occursIn (span.of text)
  blankOut (fun c => c == '\r' || c == '\n') ordinary text

def isIgnored (rules : List IgnoreRule) (line : Int) : Bool :=
  rules.any fun rule => rule.covers line

def filterIgnored (rules : List IgnoreRule) (found : List Match) : List Match :=
  found.filter fun candidate => !isIgnored rules candidate.start.line

/-! Matches -/

def parameterOf (site : CallSite) (tokens : List NamedToken) (offset : Nat) : Text :=
  if site.known then inferParameter tokens offset site.params
  else inferGenericParameter site.argText tokens offset

def matchOf (site : CallSite) (index : LineIndex) (tokens : List NamedToken)
    (literal : StringLiteral) : Match :=
  { literal := literal.raw
    start := index.position (site.argStart + literal.start : Nat)
    stop := index.position (site.argStart + literal.stop : Nat)
    widget := site.widget
    parameter := parameterOf site tokens literal.start }

def contextOf (site : CallSite) (literal : StringLiteral) : LiteralContext :=
  ⟨literal.content, site.argText, literal.start, literal.delimiter.width⟩

def keptLiterals (site : CallSite) (tables : FilterTables) : List StringLiteral :=
  (stringLiterals site.argText).filter fun literal =>
    (classify (contextOf site literal) tables).keep

def matchesOfSite (index : LineIndex) (tables : FilterTables) (site : CallSite) : List Match :=
  (keptLiterals site tables).map (matchOf site index (namedTokens site.argText))

def candidates (source : Text) (catalog : List WidgetPattern) (tables : FilterTables) :
    List Match :=
  (callSites source catalog tables (SpanSet.ofSpans (inertSpans source))).flatMap
    (matchesOfSite (LineIndex.ofText source) tables)

/-- The hardcoded user-facing literals of a text, in the order in which they are found: those of
catalog widgets first, and one for each place. Literals and calls that are not closed contribute
nothing. -/
def findHardcoded (text : Text) (catalog : List WidgetPattern) (tables : FilterTables) :
    List Match :=
  filterIgnored (ignoreRules text)
    (dedupe (candidates (stripComments text ignoreMarkers) catalog tables))

end HardcodedText
