import HardcodedText.Text.Basic

/-!
Lines and columns of a text, and reported literals: their text, where they stand, and the widget and
parameter they belong to. Only the line feed ends a line; a carriage return before it belongs to the
line it ends.
-/

namespace HardcodedText

structure Position where
  line : Nat
  column : Nat
  deriving DecidableEq, Repr

structure LineIndex where
  starts : List Nat
  length : Nat
  deriving DecidableEq, Repr

namespace LineIndex

def startsFrom (offset : Nat) : Text → List Nat
  | [] => []
  | c :: rest =>
      if c == '\n' then (offset + 1) :: startsFrom (offset + 1) rest
      else startsFrom (offset + 1) rest

def ofText (text : Text) : LineIndex :=
  { starts := 0 :: startsFrom 0 text, length := text.length }

def lineCount (index : LineIndex) : Nat :=
  index.starts.length

def locate (offset line start : Nat) : List Nat → Position
  | [] => ⟨line, offset - start⟩
  | next :: later =>
      if next ≤ offset then locate offset (line + 1) next later else ⟨line, offset - start⟩

/-- The line and column of an offset; an offset outside the text counts as the nearer end. -/
def position (index : LineIndex) (offset : Int) : Position :=
  let clamped := min offset.toNat index.length
  match index.starts with
  | [] => ⟨0, clamped⟩
  | first :: later => locate clamped 0 first later

end LineIndex

structure Match where
  literal : Text
  start : Position
  stop : Position
  widget : Text
  parameter : Text
  deriving DecidableEq, Repr

namespace Match

def span (found : Match) : Position × Position :=
  (found.start, found.stop)

def target (found : Match) : Text :=
  if found.parameter.isEmpty then found.widget
  else found.widget ++ ['('] ++ found.parameter ++ [')']

def message (found : Match) : String :=
  "Hardcoded string detected in " ++ found.target.string ++ ". Consider using a translation."

end Match

def dedupeFrom {α κ : Type} [BEq κ] (key : α → κ) (seen : List κ) : List α → List α
  | [] => []
  | item :: later =>
      if seen.contains (key item) then dedupeFrom key seen later
      else item :: dedupeFrom key (key item :: seen) later

def dedupeBy {α κ : Type} [BEq κ] (key : α → κ) (items : List α) : List α :=
  dedupeFrom key [] items

def dedupe (found : List Match) : List Match :=
  dedupeBy Match.span found

end HardcodedText
