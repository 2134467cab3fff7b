import HardcodedText.Text.Basic
import HardcodedText.Text.Case
import HardcodedText.Text.Number

/-!
Natural language (words that are no runs of date letters, proper nouns, sentence punctuation) and
masks (texts of symbols only, date, number and currency formats, and regular expressions).
-/

namespace HardcodedText

def runsFrom (test : Char → Bool) (current : Text) : Text → List Text
  | [] => if current.isEmpty then [] else [current.reverse]
  | c :: rest =>
      if test c then runsFrom test (c :: current) rest
      else if current.isEmpty then runsFrom test [] rest
      else current.reverse :: runsFrom test [] rest

def runs (test : Char → Bool) (text : Text) : List Text :=
  runsFrom test [] text

def isDateLetter (c : Char) : Bool :=
  "dMyHhmsSEazZLQkKG".toList.contains c

/-- The date letters that stand in pairs: their runs have even length. The runs of the others have
any length from two on. -/
def isPairedDateLetter (c : Char) : Bool :=
  "HhmsakK".toList.contains c

def isDateRun (c : Char) (length : Nat) : Bool :=
  isDateLetter c && 2 ≤ length && (!isPairedDateLetter c || length % 2 == 0)

def isDateRunsFrom (letter : Char) (length : Nat) : Text → Bool
  | [] => isDateRun letter length
  | c :: rest =>
      if c == letter then isDateRunsFrom letter (length + 1) rest
      else isDateRun letter length && isDateRunsFrom c 1 rest

def isDateWord : Text → Bool
  | [] => false
  | c :: rest => (isDateLetter c && rest.all (· == c)) || isDateRunsFrom c 1 rest

def isProseChar (c : Char) : Bool :=
  isAlphanumeric c && !isDecimal c

def hasProseWord (text : Text) : Bool :=
  (runs isProseChar text).any fun word => 2 ≤ word.length && !isDateWord word

def isProperNoun : Text → Bool
  | first :: second :: rest =>
      (first :: second :: rest).all isLetter && isUppercase first &&
        (second :: rest).all (fun c => !isUppercase c && !isTitlecase c) &&
        (second :: rest).any isLowercase
  | _ => false

def isSentenceMark (c : Char) : Bool :=
  "!?,;:¿¡…。！？，；：".toList.contains c

def hasSentencePunctuation : Text → Bool
  | [] => false
  | c :: rest =>
      isSentenceMark c || (c == '.' && (rest.isEmpty || rest.head?.any isBlank)) ||
        hasSentencePunctuation rest

def isProse (text : Text) : Bool :=
  isProperNoun text ||
    (hasProseWord text && (text.any isBlank || hasSentencePunctuation text))

/-! Masks -/

def isSymbolsOnly (text : Text) : Bool :=
  !text.any isAlphanumeric

def isDateSeparator (c : Char) : Bool :=
  isBlank c || "/.-:,".toList.contains c

def isDateMaskChar (c : Char) : Bool :=
  isDateLetter c || isDateSeparator c || c == '\'' || c == 'T'

def isDateMask (text : Text) : Bool :=
  let words := runs Char.isAlpha text
  !text.isEmpty && text.all isDateMaskChar && !words.isEmpty && words.all isDateWord &&
    (words.any (2 ≤ ·.length) || (2 ≤ words.length && text.any isDateSeparator))

def isNumericMaskChar (c : Char) : Bool :=
  isBlank c || c.isDigit || "#.,:;+-/()*%".toList.contains c

def isNumericMask (text : Text) : Bool :=
  text.all isNumericMaskChar && text.any fun c => c == '#' || c.isDigit

def isCurrencySign (c : Char) : Bool :=
  "$€£¥₹¤".toList.contains c

def isAmountMask (text : Text) : Bool :=
  text.all (fun c => isBlank c || c.isDigit || "#.,".toList.contains c) &&
    text.any fun c => c == '#' || c == '0'

def dropOneBlank : Text → Text
  | [] => []
  | c :: rest => if isBlank c then rest else c :: rest

def isSignedAmount (text : Text) : Bool :=
  let capitals := text.takeWhile Char.isUpper
  capitals.length ≤ 3 &&
    match dropOneBlank (text.drop capitals.length) with
    | [] => false
    | sign :: amount => isCurrencySign sign && isAmountMask amount

def isCurrencyMask (text : Text) : Bool :=
  isSignedAmount text ||
    match text.reverse with
    | [] => false
    | sign :: amount => isCurrencySign sign && isAmountMask amount

def isNumberMask (text : Text) : Bool :=
  isNumericMask text || isCurrencyMask text

def isRangeSet (inside : Text) : Bool :=
  (inside.takeWhile (· != ']')).contains '-' && inside.contains ']'

def isRepeatCount (inside : Text) : Bool :=
  let afterLow := inside.dropWhile isDecimal
  inside.head?.any isDecimal &&
    match afterLow with
    | '\x7d' :: _ => true
    | ',' :: rest => (rest.dropWhile isDecimal).head? == some '\x7d'
    | _ => false

def startsRegexPart : Text → Bool
  | '\\' :: c :: _ => "dDwWsSbB".toList.contains c
  | '[' :: inside => isRangeSet inside
  | '(' :: '?' :: c :: _ => ":=!<".toList.contains c
  | '\x7b' :: inside => isRepeatCount inside
  | '*' :: ')' :: _ => true
  | '+' :: ')' :: _ => true
  | '?' :: ')' :: _ => true
  | ']' :: '+' :: _ => true
  | ']' :: '*' :: _ => true
  | _ => false

/-- Whether the text ends, up to one line feed, in a dollar sign that no backslash escapes and that
is not its first character. -/
def endsInAnchor (previous : Option Char) (rest : Text) : Bool :=
  (rest == ['$'] || rest == ['$', '\n']) && previous.any (· != '\\')

def isRegexShape (text : Text) : Bool :=
  text.head? == some '^' ||
    text.anyPlace (fun previous rest => startsRegexPart rest || endsInAnchor previous rest) none

def isMask (text : Text) : Bool :=
  isSymbolsOnly text || isDateMask text || isNumberMask text || isRegexShape text

end HardcodedText
