import HardcodedText.Scanner.Basic

/-!
What a run of the scanner finds in a text: its closed string literals, its comments and the spans in
which nothing is code, the copy of the text in which the literals are blank, and the text between
two parentheses.
-/

namespace HardcodedText

structure Span where
  start : Nat
  stop : Nat
  deriving DecidableEq, Repr

namespace Span

def contains (span : Span) (offset : Nat) : Bool :=
  span.start ≤ offset && offset < span.stop

def of (span : Span) (text : Text) : Text :=
  (text.drop span.start).take (span.stop - span.start)

end Span

structure StringLiteral where
  delimiter : Delimiter
  content : Text
  start : Nat
  length : Nat
  deriving DecidableEq, Repr

namespace StringLiteral

def stop (literal : StringLiteral) : Nat :=
  literal.start + literal.length

def span (literal : StringLiteral) : Span :=
  ⟨literal.start, literal.stop⟩

def raw (literal : StringLiteral) : Text :=
  literal.delimiter.text ++ literal.content ++ literal.delimiter.text

end StringLiteral

def Moment.literal? (text : Text) (moment : Moment) : Option StringLiteral :=
  match moment.event with
  | .literalClose delimiter start =>
      some {
        delimiter := delimiter
        content := Span.of ⟨start + delimiter.width, moment.index⟩ text
        start := start
        length := moment.next - start }
  | _ => none

def Moment.comment? (moment : Moment) : Option Span :=
  match moment.event with
  | .commentClose start => some ⟨start, moment.next⟩
  | _ => none

def Moment.inert? (moment : Moment) : Option Span :=
  match moment.event with
  | .literalClose _ start => some ⟨start, moment.next⟩
  | .commentClose start => some ⟨start, moment.next⟩
  | _ => none

def stringLiterals (text : Text) : List StringLiteral :=
  (run text).filterMap (Moment.literal? text)

def openComment (length : Nat) : Mode → List Span
  | .lineComment start => [⟨start, length⟩]
  | .blockComment start _ => [⟨start, length⟩]
  | _ => []

def openInert (length : Nat) : Mode → List Span
  | .code => []
  | .string _ start _ => [⟨start, length⟩]
  | .interpolation _ start _ => [⟨start, length⟩]
  | .lineComment start => [⟨start, length⟩]
  | .blockComment start _ => [⟨start, length⟩]

def commentSpans (text : Text) : List Span :=
  let moments := run text
  moments.filterMap Moment.comment? ++ openComment text.length (modeAfter moments)

def inertSpans (text : Text) : List Span :=
  let moments := run text
  moments.filterMap Moment.inert? ++ openInert text.length (modeAfter moments)

/-- The text with a space for every character that some span covers, but for those to be kept.
Offsets stay as they are. -/
def blankOut (kept : Char → Bool) (spans : List Span) (text : Text) : Text :=
  text.zipIdx.map fun (c, offset) =>
    if !kept c && spans.any (·.contains offset) then ' ' else c

def maskLiterals (text : Text) : Text :=
  blankOut (· == '\n') ((stringLiterals text).map StringLiteral.span) text

@[simp] theorem length_blankOut (kept : Char → Bool) (spans : List Span) (text : Text) :
    (blankOut kept spans text).length = text.length := by
  simp [blankOut]

/-!
Point lookup in a set of intervals. The intervals are kept in order, and only the last one that
begins at or before an offset is asked, which is enough for intervals that do not overlap.
-/

structure Interval where
  start : Int
  stop : Int
  deriving DecidableEq, Repr

namespace Interval

def le (left right : Interval) : Bool :=
  left.start < right.start || (left.start == right.start && left.stop ≤ right.stop)

end Interval

def Span.interval (span : Span) : Interval :=
  ⟨span.start, span.stop⟩

structure SpanSet where
  intervals : List Interval
  deriving DecidableEq, Repr

namespace SpanSet

def ofIntervals (intervals : List Interval) : SpanSet :=
  ⟨sortBy Interval.le intervals⟩

def ofSpans (spans : List Span) : SpanSet :=
  ofIntervals (spans.map Span.interval)

def empty : SpanSet := ⟨[]⟩

def lastStarted (offset : Int) (latest : Option Interval) : List Interval → Option Interval
  | [] => latest
  | interval :: later =>
      if interval.start ≤ offset then lastStarted offset (some interval) later else latest

def contains (set : SpanSet) (offset : Int) : Bool :=
  (lastStarted offset none set.intervals).any fun interval => offset < interval.stop

end SpanSet

/-!
The argument list of a call: the text inside a balanced pair of parentheses. A parenthesis inside a
literal, outside its interpolations, or inside a comment does not count.
-/

def balancedFrom (mode : Mode) (index skip depth : Nat) : Text → Option Text
  | [] => none
  | c :: rest =>
      match skip with
      | skip + 1 => (balancedFrom mode (index + 1) skip depth rest).map (c :: ·)
      | 0 =>
          let closes := mode.countsParentheses && c == ')'
          if closes && depth ≤ 1 then some []
          else
            let depth :=
              if closes then depth - 1
              else if mode.countsParentheses && c == '(' then depth + 1
              else depth
            let first := mode.step index c rest
            let last := if first.width = 0 then first.mode.step index c rest else first
            (balancedFrom last.mode (index + 1) (last.width - 1) depth rest).map (c :: ·)

def extractBalanced (text : Text) (openOffset : Int) : Option Text :=
  if openOffset < 0 then none
  else
    match text.drop openOffset.toNat with
    | '(' :: rest => balancedFrom .code (openOffset.toNat + 1) 0 1 rest
    | _ => none

end HardcodedText
