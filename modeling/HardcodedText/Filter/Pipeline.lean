import HardcodedText.Filter.Identifier
import HardcodedText.Filter.Prose
import HardcodedText.Filter.TechnicalShape
import HardcodedText.FilterTables

/-!
The filters and their order. The first filter that fires decides: all of them drop the literal, but
for the prose filter, which keeps it. A literal that no filter claims is kept. The order matters,
since the shapes overlap: a lowercase phrase with an underscore may be a sentence or a key.
-/

namespace HardcodedText

/-!
A literal as seen from inside its argument list, and what the text around it says about it. Only a
fixed number of characters on either side is looked at, so the cost does not depend on the length of
the argument list.
-/

def contextSpan : Nat := 200

/-- The content of a literal, the argument list around it, the offset of its opening delimiter there
and the width of that delimiter. -/
structure LiteralContext where
  content : Text
  argText : Text := []
  offset : Int := 0
  quoteWidth : Int := 1
  deriving DecidableEq, Repr

namespace LiteralContext

def stop (context : LiteralContext) : Int :=
  context.offset + context.content.length + 2 * context.quoteWidth

def before (context : LiteralContext) : Text :=
  context.argText.slice (max 0 (context.offset - contextSpan)) context.offset

def after (context : LiteralContext) : Text :=
  context.argText.slice context.stop (context.stop + contextSpan)

def stripped (context : LiteralContext) : Text :=
  Text.trim (stripInterpolation context.content)

end LiteralContext

def anyPastBlanks (test : Text → Bool) : Text → Bool
  | [] => test []
  | c :: rest => test (c :: rest) || (isBlank c && anyPastBlanks test rest)

def endsInCallName (name reversed : Text) : Bool :=
  name.reverse.isPrefixOf reversed &&
    !(reversed.drop name.length).head?.any fun c => isWordChar c || c == '.'

def endsInCall (calls : List Text) (text : Text) : Bool :=
  match text.trimEnd.reverse with
  | '(' :: reversed =>
      !(calls.isEmpty || calls == [[]]) &&
        calls.any fun name => anyPastBlanks (endsInCallName name) reversed
  | _ => false

def trailingName (text : Text) : Option Text :=
  match text.trimEnd.reverse with
  | ':' :: reversed =>
      let name := ((Text.trimStart reversed).takeWhile isWordChar).reverse
      if name.head?.any isNameStart then some name else none
  | _ => none

/-! Filters -/

inductive Verdict
  | keep
  | drop
  deriving DecidableEq, Repr

inductive Filter
  /-- Nothing but blanks. -/
  | blank
  /-- A call of a localization, in the content or chained onto the literal. -/
  | localized
  /-- A dot before the literal or a parenthesis after it. -/
  | symbolReference
  /-- The only argument of a technical call, or the value of a technical parameter. -/
  | technicalArgument
  /-- An address, identifier, color, version, token or path. -/
  | technicalShape
  /-- Natural language or a proper noun. -/
  | prose
  /-- Symbols only, a date, number or currency format, or a regular expression. -/
  | mask
  /-- Fewer than three characters around the interpolations. -/
  | interpolation
  /-- A snake case, camel case or dotted name, or a field name. -/
  | identifier
  deriving DecidableEq, Repr

def isBlankContent (context : LiteralContext) : Bool :=
  context.content.trim.isEmpty

def isLocalized (context : LiteralContext) (tables : FilterTables) : Bool :=
  (tables.localizedPatterns.any fun localized => localized.pattern.foundIn context.content) ||
    tables.localizedSuffixes.any fun chained => chained.pattern.matchesFront context.after

def isSymbolReference (context : LiteralContext) : Bool :=
  context.before.trimEnd.getLast? == some '.' || context.after.trimStart.head? == some '('

def isTechnicalArgument (context : LiteralContext) (tables : FilterTables) : Bool :=
  let following := context.after.trimStart.head?
  (endsInCall tables.technicalCalls context.before &&
      (following == some ')' || following == some ',')) ||
    (trailingName context.before).any tables.technicalParameters.contains

def isNoise (c : Char) : Bool :=
  isBlank c || "+-*/%'\"\x60".toList.contains c

def isMainlyInterpolation (context : LiteralContext) : Bool :=
  context.content.contains '$' &&
    ((stripInterpolation context.content).filter (!isNoise ·)).length < 3

def isIdentifier (context : LiteralContext) (tables : FilterTables) : Bool :=
  isIdentifierShape context.content.trim || tables.fieldNames.contains context.content.trim

namespace Filter

def name : Filter → String
  | blank => "blank"
  | localized => "localized"
  | symbolReference => "symbol_reference"
  | technicalArgument => "technical_argument"
  | technicalShape => "technical_shape"
  | prose => "prose"
  | mask => "mask"
  | interpolation => "interpolation"
  | identifier => "identifier"

def verdict : Filter → Verdict
  | prose => .keep
  | _ => .drop

def fires (context : LiteralContext) (tables : FilterTables) : Filter → Bool
  | blank => isBlankContent context
  | localized => isLocalized context tables
  | symbolReference => isSymbolReference context
  | technicalArgument => isTechnicalArgument context tables
  | technicalShape => isTechnicalShape context.content.trim
  | prose => isProse context.stripped
  | mask => isMask context.content.trim
  | interpolation => isMainlyInterpolation context
  | identifier => isIdentifier context tables

def pipeline : List Filter :=
  [blank, localized, symbolReference, technicalArgument, technicalShape, prose, mask,
    interpolation, identifier]

end Filter

structure Classification where
  decidedBy : Option Filter
  deriving DecidableEq, Repr

namespace Classification

def verdict (outcome : Classification) : Verdict :=
  match outcome.decidedBy with
  | some filter => filter.verdict
  | none => .keep

def keep (outcome : Classification) : Bool :=
  outcome.verdict == .keep

def step (outcome : Classification) : String :=
  match outcome.decidedBy with
  | some filter => filter.name
  | none => ""

end Classification

def classifyBy (pipeline : List Filter) (context : LiteralContext) (tables : FilterTables) :
    Classification :=
  ⟨pipeline.find? (·.fires context tables)⟩

def classify (context : LiteralContext) (tables : FilterTables) : Classification :=
  classifyBy Filter.pipeline context tables

end HardcodedText
