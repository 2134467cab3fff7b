import HardcodedText.Text.Basic

/-!
A character-level scanner for string literals, their interpolations and comments. One step reads
the character at the front of the remaining text, looking at most two characters further, and says
what it did and how many characters it consumed.

Inside an interpolation quotes have no meaning: braces are counted, and the closing brace at depth
zero returns to the literal. A delimiter after an odd run of backslashes is escaped. Three quotes in
a row open a literal that only the same run closes. Block comments nest. A line comment ends before
its line feed, so that closing it consumes nothing.
-/

namespace HardcodedText

structure Delimiter where
  quote : Char
  tripled : Bool
  deriving DecidableEq, Repr

namespace Delimiter

def text (delimiter : Delimiter) : Text :=
  if delimiter.tripled then [delimiter.quote, delimiter.quote, delimiter.quote]
  else [delimiter.quote]

def width (delimiter : Delimiter) : Nat :=
  if delimiter.tripled then 3 else 1

theorem length_text (delimiter : Delimiter) : delimiter.text.length = delimiter.width := by
  cases delimiter with
  | mk quote tripled => cases tripled <;> rfl

end Delimiter

def isQuote (c : Char) : Bool :=
  c == '\'' || c == '"' || c == '\x60'

/-- What the scanner is inside of, with the offset at which that began. -/
inductive Mode
  | code
  /-- Inside a literal; `escaped` after an odd run of backslashes. -/
  | string (delimiter : Delimiter) (start : Nat) (escaped : Bool)
  /-- Inside an interpolation with `depth` braces open. -/
  | interpolation (delimiter : Delimiter) (start depth : Nat)
  | lineComment (start : Nat)
  | blockComment (start depth : Nat)
  deriving DecidableEq, Repr

namespace Mode

def countsParentheses : Mode → Bool
  | code => true
  | interpolation .. => true
  | _ => false

def inComment : Mode → Bool
  | lineComment _ => true
  | blockComment .. => true
  | _ => false

end Mode

inductive Event
  | none
  | literalOpen
  | literalClose (delimiter : Delimiter) (start : Nat)
  | commentOpen
  | commentClose (start : Nat)
  deriving DecidableEq, Repr

structure Step where
  event : Event
  width : Nat
  mode : Mode
  deriving DecidableEq, Repr

def Delimiter.opening (quote : Char) (rest : Text) : Delimiter :=
  ⟨quote, [quote, quote].isPrefixOf rest⟩

def stepCode (index : Nat) (c : Char) (rest : Text) : Step :=
  if isQuote c then
    let delimiter := Delimiter.opening c rest
    ⟨.literalOpen, delimiter.width, .string delimiter index false⟩
  else if c == '/' && rest.head? == some '/' then ⟨.commentOpen, 2, .lineComment index⟩
  else if c == '/' && rest.head? == some '*' then ⟨.commentOpen, 2, .blockComment index 1⟩
  else ⟨.none, 1, .code⟩

def stepString (delimiter : Delimiter) (start : Nat) (escaped : Bool) (c : Char) (rest : Text) :
    Step :=
  if c == '\\' then ⟨.none, 1, .string delimiter start !escaped⟩
  else if escaped then ⟨.none, 1, .string delimiter start false⟩
  else if c == '$' && rest.head? == some '\x7b' then ⟨.none, 2, .interpolation delimiter start 0⟩
  else if delimiter.text.isPrefixOf (c :: rest) then
    ⟨.literalClose delimiter start, delimiter.width, .code⟩
  else ⟨.none, 1, .string delimiter start false⟩

def stepInterpolation (delimiter : Delimiter) (start depth : Nat) (c : Char) : Step :=
  if c == '\x7b' then ⟨.none, 1, .interpolation delimiter start (depth + 1)⟩
  else if c == '\x7d' then
    match depth with
    | 0 => ⟨.none, 1, .string delimiter start false⟩
    | depth + 1 => ⟨.none, 1, .interpolation delimiter start depth⟩
  else ⟨.none, 1, .interpolation delimiter start depth⟩

def stepLineComment (start : Nat) (c : Char) : Step :=
  if c == '\n' then ⟨.commentClose start, 0, .code⟩ else ⟨.none, 1, .lineComment start⟩

def stepBlockComment (start depth : Nat) (c : Char) (rest : Text) : Step :=
  if c == '/' && rest.head? == some '*' then ⟨.none, 2, .blockComment start (depth + 1)⟩
  else if c == '*' && rest.head? == some '/' then
    if depth ≤ 1 then ⟨.commentClose start, 2, .code⟩
    else ⟨.none, 2, .blockComment start (depth - 1)⟩
  else ⟨.none, 1, .blockComment start depth⟩

def Mode.step (mode : Mode) (index : Nat) (c : Char) (rest : Text) : Step :=
  match mode with
  | .code => stepCode index c rest
  | .string delimiter start escaped => stepString delimiter start escaped c rest
  | .interpolation delimiter start depth => stepInterpolation delimiter start depth c
  | .lineComment start => stepLineComment start c
  | .blockComment start depth => stepBlockComment start depth c rest

/-- Only the end of a line comment consumes nothing, and it leaves the scanner in code. -/
theorem Mode.step_width_eq_zero {mode : Mode} {index : Nat} {c : Char} {rest : Text}
    (still : (mode.step index c rest).width = 0) :
    c = '\n' ∧ ∃ start, mode = .lineComment start ∧
      mode.step index c rest = ⟨.commentClose start, 0, .code⟩ := by
  cases mode with
  | code =>
      simp only [step, stepCode] at still
      split at still
      · simp only [Delimiter.width] at still
        split at still <;> simp at still
      · split at still
        · simp at still
        · split at still <;> simp at still
  | string delimiter start escaped =>
      simp only [step, stepString, Delimiter.width] at still
      repeat' split at still
      all_goals simp at still
  | interpolation delimiter start depth =>
      simp only [step, stepInterpolation] at still
      repeat' split at still
      all_goals simp at still
  | lineComment start =>
      by_cases lineEnd : c = '\n'
      · exact ⟨lineEnd, start, rfl, by simp [step, stepLineComment, lineEnd]⟩
      · simp [step, stepLineComment, lineEnd] at still
  | blockComment start depth =>
      simp only [step, stepBlockComment] at still
      repeat' split at still
      all_goals simp at still

/-- A line feed in code is consumed alone. -/
theorem Mode.step_code_lineFeed (index : Nat) (rest : Text) :
    Mode.code.step index '\n' rest = ⟨.none, 1, .code⟩ := by
  simp [step, stepCode, isQuote]

/-!
The run of the scanner over a text, as the list of its moments. Everything that is read off a text
(literals, comments, code) is read off this list.
-/

/-- One step of a run: it began at `index` in mode `before`, and the next step begins at `next`. -/
structure Moment where
  index : Nat
  before : Mode
  event : Event
  next : Nat
  after : Mode
  deriving DecidableEq, Repr

namespace Moment

def ofStep (index : Nat) (before : Mode) (step : Step) : Moment :=
  ⟨index, before, step.event, index + step.width, step.mode⟩

end Moment

/-- The moments of a run over the rest of a text. The first `skip` characters are those that the
step before has consumed already. A step that consumes nothing is followed by a second one at the
same character. -/
def runFrom (mode : Mode) (index skip : Nat) : Text → List Moment
  | [] => []
  | c :: rest =>
      match skip with
      | skip + 1 => runFrom mode (index + 1) skip rest
      | 0 =>
          let first := mode.step index c rest
          if first.width = 0 then
            let second := first.mode.step index c rest
            Moment.ofStep index mode first :: Moment.ofStep index first.mode second ::
              runFrom second.mode (index + 1) (second.width - 1) rest
          else
            Moment.ofStep index mode first :: runFrom first.mode (index + 1) (first.width - 1) rest

def run (text : Text) : List Moment :=
  runFrom .code 0 0 text

def modeAfter (moments : List Moment) : Mode :=
  match moments.getLast? with
  | some moment => moment.after
  | none => .code

end HardcodedText
