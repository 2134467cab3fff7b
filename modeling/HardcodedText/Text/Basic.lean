/-!
Text as a list of characters: blank space, trimming, searching, sorting, slices whose ends may count
from the end of the text, numerals, and the lines of a document.
-/

namespace HardcodedText

/-- Source text, names and contents. Every offset counts characters. -/
abbrev Text := List Char

section Sorting

variable {α : Type} (le : α → α → Bool)

def insertBy (entry : α) : List α → List α
  | [] => [entry]
  | head :: tail => if le entry head then entry :: head :: tail else head :: insertBy entry tail

/-- Insertion sort. It recurs on the list itself, so that closed lists are sorted by computation. -/
def sortBy (entries : List α) : List α :=
  entries.foldr (insertBy le) []

end Sorting

/-- Blank space: the controls from tab to carriage return and from U+001C to U+001F, the next-line
control, and the space separators. The zero-width characters are not blank. -/
def isBlank (c : Char) : Bool :=
  let code := c.toNat
  (0x09 ≤ code && code ≤ 0x0d) || (0x1c ≤ code && code ≤ 0x20) || code == 0x85 || code == 0xa0 ||
    code == 0x1680 || (0x2000 ≤ code && code ≤ 0x200a) || code == 0x2028 || code == 0x2029 ||
    code == 0x202f || code == 0x205f || code == 0x3000

namespace Text

def string (text : Text) : String :=
  String.ofList text

def trimStart (text : Text) : Text :=
  text.dropWhile isBlank

def trimEnd (text : Text) : Text :=
  (text.reverse.dropWhile isBlank).reverse

def trim (text : Text) : Text :=
  trimEnd (trimStart text)

def occursIn (needle : Text) : Text → Bool
  | [] => needle.isEmpty
  | c :: rest => needle.isPrefixOf (c :: rest) || occursIn needle rest

/-- The place that a signed offset names in a text of the given length: a negative offset counts
from the end, and an offset outside the text is moved to the nearer end. -/
def place (length : Nat) (offset : Int) : Nat :=
  if offset < 0 then (offset + length).toNat else min offset.toNat length

def slice (text : Text) (start stop : Int) : Text :=
  let first := place text.length start
  let last := place text.length stop
  (text.drop first).take (last - first)

/-- Whether the predicate holds at some place of the text, given the character before the place and
the text from it on. The end of the text is a place too. -/
def anyPlace (holds : Option Char → Text → Bool) (previous : Option Char) : Text → Bool
  | [] => holds previous []
  | c :: rest => holds previous (c :: rest) || anyPlace holds (some c) rest

def le : Text → Text → Bool
  | [], _ => true
  | _ :: _, [] => false
  | a :: left, b :: right => a.toNat < b.toNat || (a == b && le left right)

def sorted (texts : List Text) : List Text :=
  sortBy le texts

end Text

/-! Tables of code points -/

def inRanges (table : List (Nat × Nat)) (c : Char) : Bool :=
  table.any fun (first, last) => first ≤ c.toNat && c.toNat ≤ last

def inStrides (table : List (Nat × Nat × Nat)) (c : Char) : Bool :=
  table.any fun (first, last, step) =>
    first ≤ c.toNat && c.toNat ≤ last && (c.toNat - first) % step == 0

/-! Digits and numerals -/

namespace Text

def isOctalDigit (c : Char) : Bool :=
  '0' ≤ c && c ≤ '7'

def isHexDigit (c : Char) : Bool :=
  c.isDigit || ('a' ≤ c && c ≤ 'f') || ('A' ≤ c && c ≤ 'F')

def digitValue (c : Char) : Nat :=
  if c.isDigit then c.toNat - '0'.toNat
  else if 'a' ≤ c then c.toNat - 'a'.toNat + 10
  else c.toNat - 'A'.toNat + 10

def numeral (base : Nat) (digits : Text) : Nat :=
  digits.foldl (fun value c => value * base + digitValue c) 0

def hexadecimal (width number : Nat) : Text :=
  let digits := Nat.toDigits 16 number
  List.replicate (width - digits.length) '0' ++ digits

end Text

/-!
The lines of an open document. Editors end a line at more characters than the source language does:
carriage returns, vertical tabs, form feeds, the separators U+001C to U+001E, the next-line control
and the line and paragraph separators.
-/

namespace Text

def isLineBreak (c : Char) : Bool :=
  let code := c.toNat
  (0x0a ≤ code && code ≤ 0x0d) || (0x1c ≤ code && code ≤ 0x1e) || code == 0x85 ||
    code == 0x2028 || code == 0x2029

/-- The lines with their ends, given the open line in reverse. A carriage return and the line feed
after it are one line end, and nothing after the last line end is no line. -/
def documentLinesFrom (current : Text) : Text → List Text
  | [] => if current.isEmpty then [] else [current.reverse]
  | c :: rest =>
      if c == '\r' && rest.head? == some '\n' then documentLinesFrom (c :: current) rest
      else if isLineBreak c then (c :: current).reverse :: documentLinesFrom [] rest
      else documentLinesFrom (c :: current) rest

def documentLines (text : Text) : List Text :=
  documentLinesFrom [] text

end Text

end HardcodedText
