import HardcodedText.Pattern.Basic
import HardcodedText.Text.Printable

/-!
Why a text is refused as a pattern, and how the refusal is worded.
-/

namespace HardcodedText

inductive NameKind
  | group
  | character
  deriving DecidableEq, Repr

def NameKind.text : NameKind → String
  | group => "group name"
  | character => "character name"

inductive PatternFault
  | unterminatedGroup
  | unterminatedComment
  | unbalancedParenthesis
  | unterminatedSet
  | badRange (low high : Text)
  | nothingToRepeat
  | multipleRepeat
  | repeatBoundsReversed
  | tooManyRepetitions
  | danglingEscape
  | badEscape (escape : Text)
  | incompleteEscape (escape : Text)
  | octalOutOfRange (escape : Text)
  | missingBrace
  | undefinedCharacter (name : Text)
  | missingName (kind : NameKind)
  | unterminatedName (terminator : Char)
  | badGroupName (name : Text)
  | unknownGroup (name : Text)
  | redefinedGroup (name : Text) (number earlier : Nat)
  | openGroup
  | groupOfSameLookBehind
  | invalidGroupReference (number : Nat)
  | badGroupNumber
  | tooManyBranches
  | unexpectedEnd
  | unknownExtension (extension : Text)
  | lateGlobalFlags
  | localeFlag
  | incompatibleFlags
  | contradictoryFlags
  | unknownFlag
  | missingFlagEnd
  | missingFlag
  | missingColon
  | globalFlagOn
  | globalFlagOff
  | reachFlagOff
  | flagOnAndOff
  | variableLookBehind
  | distantLookBehind
  | repetitionInTemplate (greed : Greed)
  deriving DecidableEq, Repr

def Greed.operator : Greed → String
  | greedy => "MAX_REPEAT"
  | lazy => "MIN_REPEAT"
  | possessive => "POSSESSIVE_REPEAT"

namespace PatternFault

def message : PatternFault → String
  | unterminatedGroup => "missing ), unterminated subpattern"
  | unterminatedComment => "missing ), unterminated comment"
  | unbalancedParenthesis => "unbalanced parenthesis"
  | unterminatedSet => "unterminated character set"
  | badRange low high => "bad character range " ++ low.string ++ "-" ++ high.string
  | nothingToRepeat => "nothing to repeat"
  | multipleRepeat => "multiple repeat"
  | repeatBoundsReversed => "min repeat greater than max repeat"
  | tooManyRepetitions => "the repetition number is too large"
  | danglingEscape => "bad escape (end of pattern)"
  | badEscape escape => "bad escape " ++ escape.string
  | incompleteEscape escape => "incomplete escape " ++ escape.string
  | octalOutOfRange escape =>
      "octal escape value " ++ escape.string ++ " outside of range 0-0o377"
  | missingBrace => "missing \x7b"
  | undefinedCharacter name => "undefined character name " ++ (Text.quoted name).string
  | missingName kind => "missing " ++ kind.text
  | unterminatedName terminator => "missing " ++ terminator.toString ++ ", unterminated name"
  | badGroupName name => "bad character in group name " ++ (Text.quoted name).string
  | unknownGroup name => "unknown group name " ++ (Text.quoted name).string
  | redefinedGroup name number earlier =>
      "redefinition of group name " ++ (Text.quoted name).string ++ " as group " ++
        toString number ++ "; was group " ++ toString earlier
  | openGroup => "cannot refer to an open group"
  | groupOfSameLookBehind =>
      "cannot refer to group defined in the same lookbehind subpattern"
  | invalidGroupReference number => "invalid group reference " ++ toString number
  | badGroupNumber => "bad group number"
  | tooManyBranches => "conditional backref with more than two branches"
  | unexpectedEnd => "unexpected end of pattern"
  | unknownExtension extension => "unknown extension " ++ extension.string
  | lateGlobalFlags => "global flags not at the start of the expression"
  | localeFlag => "bad inline flags: cannot use 'L' flag with a str pattern"
  | incompatibleFlags => "bad inline flags: flags 'a', 'u' and 'L' are incompatible"
  | contradictoryFlags => "ASCII and UNICODE flags are incompatible"
  | unknownFlag => "unknown flag"
  | missingFlagEnd => "missing -, : or )"
  | missingFlag => "missing flag"
  | missingColon => "missing :"
  | globalFlagOn => "bad inline flags: cannot turn on global flag"
  | globalFlagOff => "bad inline flags: cannot turn off global flag"
  | reachFlagOff => "bad inline flags: cannot turn off flags 'a', 'u' and 'L'"
  | flagOnAndOff => "bad inline flags: flag turned on and off"
  | variableLookBehind => "look-behind requires fixed-width pattern"
  | distantLookBehind => "looks too much behind"
  | repetitionInTemplate greed =>
      "internal: unsupported template operator " ++ greed.operator

end PatternFault

inductive FaultKind
  | malformed
  /-- A number of repetitions is beyond what can be counted. -/
  | excessive
  /-- The flags of the whole pattern contradict each other. -/
  | contradictory
  deriving DecidableEq, Repr

def PatternFault.kind : PatternFault → FaultKind
  | tooManyRepetitions => .excessive
  | contradictoryFlags => .contradictory
  | _ => .malformed

structure PatternError where
  fault : PatternFault
  position : Option Nat
  source : Text
  deriving DecidableEq, Repr

namespace PatternError

def isMalformed (error : PatternError) : Bool :=
  error.fault.kind == .malformed

/-- Where a position lies: in a text of several lines also by line and column, both counted from
one. -/
def describePosition (source : Text) (position : Nat) : String :=
  let base := " at position " ++ toString position
  if source.contains '\n' then
    let before := source.take position
    let column := (before.reverse.takeWhile (· != '\n')).length + 1
    base ++ " (line " ++ toString (before.count '\n' + 1) ++ ", column " ++ toString column ++ ")"
  else base

def message (error : PatternError) : String :=
  match error.position with
  | some position => error.fault.message ++ describePosition error.source position
  | none => error.fault.message

end PatternError

end HardcodedText
