import HardcodedText.Config.Value
import HardcodedText.Text.Basic

/-!
The scalar values of TOML: strings in their four forms, integers, and numbers and dates that only
have to be recognized. Each reader returns what it read and the text after it.
-/

namespace HardcodedText.Toml

abbrev Reader (α : Type) := Text → Option (α × Text)

/-- Control characters that no string and no comment may hold; a line feed only where lines may
end. -/
def isIllegal (lineEnds : Bool) (c : Char) : Bool :=
  (c.toNat < 0x20 || c.toNat == 0x7f) && c != '\t' && !(lineEnds && c == '\n')

def scalarOf (digits : Text) : Option Char :=
  let code := Text.numeral 16 digits
  if digits.all Text.isHexDigit && code ≤ 0x10ffff && !(0xd800 ≤ code && code ≤ 0xdfff) then
    some (Char.ofNat code)
  else none

def simpleEscape : Char → Option Char
  | 'b' => some '\x08'
  | 't' => some '\t'
  | 'n' => some '\n'
  | 'f' => some '\x0c'
  | 'r' => some '\r'
  | '"' => some '"'
  | '\\' => some '\\'
  | _ => none

/-- A backslash at the end of a line drops the line end and all blanks around it. -/
inductive Gap
  | none
  | beforeLineEnd
  | afterLineEnd
  deriving DecidableEq

def readBasic (multiline : Bool) (gap : Gap) : Reader Text
  | [] => none
  | c :: rest =>
      if gap = .beforeLineEnd then
        if c == ' ' || c == '\t' then readBasic multiline .beforeLineEnd rest
        else if c == '\n' then readBasic multiline .afterLineEnd rest
        else none
      else if gap = .afterLineEnd && (c == ' ' || c == '\t' || c == '\n') then
        readBasic multiline .afterLineEnd rest
      else if c == '"' then
        if !multiline then some ([], rest)
        else if ['"', '"'].isPrefixOf rest then some ([], rest.drop 2)
        else (readBasic multiline .none rest).map fun (text, after) => (c :: text, after)
      else if c == '\\' then
        match rest with
        | 'u' :: c1 :: c2 :: c3 :: c4 :: after =>
            (scalarOf [c1, c2, c3, c4]).bind fun scalar =>
              (readBasic multiline .none after).map fun (text, last) => (scalar :: text, last)
        | 'U' :: c1 :: c2 :: c3 :: c4 :: c5 :: c6 :: c7 :: c8 :: after =>
            (scalarOf [c1, c2, c3, c4, c5, c6, c7, c8]).bind fun scalar =>
              (readBasic multiline .none after).map fun (text, last) => (scalar :: text, last)
        | escaped :: after =>
            if multiline && (escaped == ' ' || escaped == '\t') then
              readBasic multiline .beforeLineEnd after
            else if multiline && escaped == '\n' then readBasic multiline .afterLineEnd after
            else
              (simpleEscape escaped).bind fun scalar =>
                (readBasic multiline .none after).map fun (text, last) => (scalar :: text, last)
        | [] => none
      else if isIllegal multiline c then none
      else (readBasic multiline .none rest).map fun (text, after) => (c :: text, after)

def readLiteral (closing : Text) (multiline : Bool) : Reader Text
  | [] => none
  | c :: rest =>
      if closing.isPrefixOf (c :: rest) then some ([], (c :: rest).drop closing.length)
      else if isIllegal multiline c then none
      else (readLiteral closing multiline rest).map fun (text, after) => (c :: text, after)

def dropFirstLineFeed : Text → Text
  | '\n' :: rest => rest
  | text => text

/-- At most two quotes right after the closing ones still belong to the string. -/
def takeExtraQuotes (quote : Char) : Text × Text → Text × Text
  | (text, after) =>
      let extra := (after.takeWhile (· == quote)).take 2
      (text ++ extra, after.drop extra.length)

def readString : Reader Text
  | '"' :: '"' :: '"' :: rest =>
      (readBasic true .none (dropFirstLineFeed rest)).map (takeExtraQuotes '"')
  | '"' :: rest => readBasic false .none rest
  | '\'' :: '\'' :: '\'' :: rest =>
      (readLiteral ['\'', '\'', '\''] true (dropFirstLineFeed rest)).map (takeExtraQuotes '\'')
  | '\'' :: rest => readLiteral ['\''] false rest
  | _ => none

def digitRun (isDigit : Char → Bool) (afterDigit : Bool) : Text → Text × Text
  | [] => ([], [])
  | c :: rest =>
      if isDigit c then
        let (digits, after) := digitRun isDigit true rest
        (c :: digits, after)
      else if afterDigit && c == '_' && rest.head?.any isDigit then digitRun isDigit false rest
      else ([], c :: rest)

def readDigits (isDigit : Char → Bool) (text : Text) : Option (Text × Text) :=
  let (digits, after) := digitRun isDigit false text
  if digits.isEmpty then none else some (digits, after)

def readDecimal (text : Text) : Option (Nat × Text) :=
  match text with
  | '0' :: rest => some (0, rest)
  | _ => (readDigits Char.isDigit text).map fun (digits, after) => (Text.numeral 10 digits, after)

def skipFraction (text : Text) : Option Text :=
  match text with
  | '.' :: rest => (readDigits Char.isDigit rest).map Prod.snd
  | _ => none

def skipSign : Text → Text
  | '+' :: rest => rest
  | '-' :: rest => rest
  | text => text

def skipExponent (text : Text) : Option Text :=
  match text with
  | 'e' :: rest => (readDigits Char.isDigit (skipSign rest)).map Prod.snd
  | 'E' :: rest => (readDigits Char.isDigit (skipSign rest)).map Prod.snd
  | _ => none

def readSigned (text : Text) : Option (Value × Text) :=
  (readDecimal (skipSign text)).map fun (value, after) =>
    let afterFraction := skipFraction after
    let afterExponent := skipExponent (afterFraction.getD after)
    match afterExponent.or afterFraction with
    | some rest => (.other, rest)
    | none => (.int (if text.head? == some '-' then -value else value), after)

def readBased (base : Nat) (isDigit : Char → Bool) (text : Text) : Option (Value × Text) :=
  (readDigits isDigit text).map fun (digits, after) => (.int (Text.numeral base digits), after)

def readNumber (text : Text) : Option (Value × Text) :=
  let based :=
    match text with
    | '0' :: 'x' :: rest => readBased 16 Text.isHexDigit rest
    | '0' :: 'b' :: rest => readBased 2 (fun c => c == '0' || c == '1') rest
    | '0' :: 'o' :: rest => readBased 8 Text.isOctalDigit rest
    | _ => none
  based.or (readSigned text)

def readField (width low high : Nat) (text : Text) : Option (Nat × Text) :=
  let digits := text.take width
  let value := Text.numeral 10 digits
  if digits.length == width && digits.all Char.isDigit && low ≤ value && value ≤ high then
    some (value, text.drop width)
  else none

def readChar (accepts : Char → Bool) : Text → Option Text
  | c :: rest => if accepts c then some rest else none
  | [] => none

def skipTime (text : Text) : Option Text := do
  let (_, text) ← readField 2 0 23 text
  let text ← readChar (· == ':') text
  let (_, text) ← readField 2 0 59 text
  let text ← readChar (· == ':') text
  let (_, text) ← readField 2 0 59 text
  match text with
  | '.' :: rest =>
      if rest.head?.any Char.isDigit then pure (rest.dropWhile Char.isDigit) else pure text
  | _ => pure text

def skipZone (text : Text) : Option Text :=
  match readChar (fun c => c == 'Z' || c == 'z') text with
  | some rest => some rest
  | none => do
      let text ← readChar (fun c => c == '+' || c == '-') text
      let (_, text) ← readField 2 0 23 text
      let text ← readChar (· == ':') text
      let (_, text) ← readField 2 0 59 text
      pure text

def isLeapYear (year : Nat) : Bool :=
  year % 4 == 0 && (year % 100 != 0 || year % 400 == 0)

def daysIn (year month : Nat) : Nat :=
  if month == 2 then (if isLeapYear year then 29 else 28)
  else if [4, 6, 9, 11].contains month then 30
  else 31

def readDate (text : Text) : Option ((Nat × Nat × Nat) × Text) := do
  let (year, text) ← readField 4 0 9999 text
  let text ← readChar (· == '-') text
  let (month, text) ← readField 2 1 12 text
  let text ← readChar (· == '-') text
  let (day, text) ← readField 2 1 31 text
  pure ((year, month, day), text)

def skipDateTime (text : Text) : Text :=
  let time := (readChar (fun c => c == 'T' || c == 't' || c == ' ') text).bind skipTime
  match time with
  | some after => (skipZone after).getD after
  | none => text

def readSpecial (text : Text) : Option (Value × Text) :=
  let unsigned := skipSign text
  if ['i', 'n', 'f'].isPrefixOf unsigned || ['n', 'a', 'n'].isPrefixOf unsigned then
    some (.other, unsigned.drop 3)
  else none

def readPlain (text : Text) : Option (Value × Text) :=
  match readDate text with
  | some ((year, month, day), after) =>
      if 1 ≤ year && day ≤ daysIn year month then some (.other, skipDateTime after) else none
  | none =>
      match skipTime text with
      | some after => some (.other, after)
      | none => (readNumber text).or (readSpecial text)

end HardcodedText.Toml
