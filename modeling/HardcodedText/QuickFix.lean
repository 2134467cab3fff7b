import HardcodedText.Detection
import HardcodedText.Session.Basic
import HardcodedText.Text.Basic
import HardcodedText.Text.Number

/-!
The insertions that silence a match: a marker above its line, a marker at the end of its line unless
one silences it already, and a marker for the whole file below the header of the file unless it has
one. They are offered as quick fixes for diagnostics.
-/

namespace HardcodedText

/-! Insertions -/

structure TextEdit where
  line : Int
  character : Nat
  newText : Text
  deriving DecidableEq, Repr

def dropLineEnd (line : Text) : Text :=
  (line.reverse.dropWhile fun c => c == '\r' || c == '\n').reverse

def lineAt (lines : List Text) (number : Int) : Text :=
  if number < 0 then [] else ((lines[number.toNat]?).map dropLineEnd).getD []

def indentation (line : Text) : Text :=
  line.takeWhile isBlank

def ignoreNextLineEdit (lines : List Text) (line : Int) : TextEdit :=
  ⟨line, 0, indentation (lineAt lines line) ++ nextLineMarker ++ ['\n']⟩

def ignoreLineEdit (lines : List Text) (line : Int) : TextEdit :=
  ⟨line, (lineAt lines line).trimEnd.length, ' ' :: lineMarker⟩

def headerLimit : Nat := 20

def headerKeywords : List Text := List.map String.toList ["import", "export", "library", "part"]

def isHeaderLine (line : Text) : Bool :=
  let body := line.trimStart
  body.isEmpty || ['/', '/'].isPrefixOf body || ['/', '*'].isPrefixOf body ||
    ['*'].isPrefixOf body ||
    headerKeywords.any fun keyword =>
      keyword.isPrefixOf body && !(body.drop keyword.length).head?.any isWordChar

def headerEnd (lines : List Text) : Nat :=
  ((lines.take headerLimit).takeWhile fun line => isHeaderLine (dropLineEnd line)).length

def ignoreFileEdit (lines : List Text) : TextEdit :=
  ⟨headerEnd lines, 0, fileMarker ++ ['\n']⟩

def hasLineIgnore (lines : List Text) (line : Int) : Bool :=
  lineMarker.occursIn (lineAt lines line) ||
    (0 < line && nextLineMarker.occursIn (lineAt lines (line - 1)))

def hasFileIgnore (text : Text) : Bool :=
  fileMarker.occursIn text

/-! Offers -/

structure ActionTarget where
  line : Int
  source : Option Text
  deriving DecidableEq, Repr

structure CodeAction where
  title : String
  preferred : Bool
  targets : List ActionTarget
  edit : TextEdit
  deriving DecidableEq, Repr

def lineActions (lines : List Text) (target : ActionTarget) : List CodeAction :=
  { title := "Ignore this string (add comment on line above)"
    preferred := true
    targets := [target]
    edit := ignoreNextLineEdit lines target.line } ::
  if hasLineIgnore lines target.line then []
  else
    [{ title := "Ignore this string (add comment at end of line)"
       preferred := false
       targets := [target]
       edit := ignoreLineEdit lines target.line }]

def fileActions (text : Text) (targets : List ActionTarget) : List CodeAction :=
  if hasFileIgnore text then []
  else
    [{ title := "Ignore ALL strings in this file"
       preferred := false
       targets := targets
       edit := ignoreFileEdit text.documentLines }]

def codeActions (client : Client) (uri : Text) (targets : List ActionTarget) :
    Except SessionError (List CodeAction) :=
  let own := targets.filter fun target => target.source == some diagnosticSource.toList
  if own.isEmpty then .ok []
  else
    match client.read uri with
    | .error reason => .error (.noDocument reason)
    | .ok text =>
        .ok (own.flatMap (lineActions text.documentLines) ++ fileActions text own)

end HardcodedText
