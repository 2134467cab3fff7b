import HardcodedText.Text.Basic
import HardcodedText.Text.CaseFold
import HardcodedText.Text.Number

/-!
Search patterns, the sets of characters and the ways to build them.
-/

namespace HardcodedText

/-!
Sets of characters as patterns name them: single characters, ranges and the classes of decimal
digits, blanks and word characters, possibly without regard to case.
-/

inductive Reach
  | unicode
  | ascii
  deriving DecidableEq, Repr

namespace Reach

def isWithin (reach : Reach) (c : Char) : Bool :=
  match reach with
  | unicode => true
  | ascii => c.toNat < 0x80

def isDecimal (reach : Reach) (c : Char) : Bool :=
  HardcodedText.isDecimal c && reach.isWithin c

/-- Among the ASCII characters, the separators from U+001C to U+001F are no blanks. -/
def isBlank (reach : Reach) (c : Char) : Bool :=
  match reach with
  | unicode => HardcodedText.isBlank c
  | ascii => (0x09 ≤ c.toNat && c.toNat ≤ 0x0d) || c == ' '

def isWordChar (reach : Reach) (c : Char) : Bool :=
  HardcodedText.isWordChar c && reach.isWithin c

end Reach

inductive ClassItem
  | single (c : Char)
  | range (low high : Nat)
  | decimal (inside : Bool)
  | blank (inside : Bool)
  | word (inside : Bool)
  deriving DecidableEq, Repr

/-- Whether an item holds the character. A single character or a range also holds it through one of
its variants. -/
def ClassItem.accepts (reach : Reach) (variants : List Char) (c : Char) : ClassItem → Bool
  | single own => variants.contains own
  | range low high => variants.any fun variant => low ≤ variant.toNat && variant.toNat ≤ high
  | decimal inside => reach.isDecimal c == inside
  | blank inside => reach.isBlank c == inside
  | word inside => reach.isWordChar c == inside

structure CharClass where
  negated : Bool
  items : List ClassItem
  reach : Reach := .unicode
  /-- Whether characters that differ only in case are the same. -/
  folded : Bool := false
  deriving DecidableEq, Repr

def variantsOf (reach : Reach) (folded : Bool) (c : Char) : List Char :=
  if folded then
    match reach with
    | .unicode => caseVariants c
    | .ascii => asciiCaseVariants c
  else [c]

def CharClass.accepts (allowed : CharClass) (c : Char) : Bool :=
  let variants := variantsOf allowed.reach allowed.folded c
  allowed.items.any (·.accepts allowed.reach variants c) != allowed.negated

def foldedForm (reach : Reach) (folded : Bool) (c : Char) : Char :=
  if folded then
    match reach with
    | .unicode => lowerChar c
    | .ascii => c.toLower
  else c

/-! Patterns -/

inductive Landmark
  | textStart
  | textEnd
  /-- The end of the text, or the place before a line feed that ends it. -/
  | lastLineEnd
  | lineStart
  | lineEnd
  /-- Whether a word begins or ends here. -/
  | wordEdge (present : Bool) (reach : Reach)
  deriving DecidableEq, Repr

inductive Greed
  | greedy
  | lazy
  /-- As many as possible, and never fewer. -/
  | possessive
  deriving DecidableEq, Repr

inductive Pattern
  | nothing
  | one (allowed : CharClass)
  | landmark (mark : Landmark)
  | seq (first second : Pattern)
  | either (left right : Pattern)
  | repeated (body : Pattern) (least : Nat) (most : Option Nat) (greed : Greed)
  /-- Whether the body matches from here on; nothing is consumed. -/
  | ahead (present : Bool) (body : Pattern)
  /-- Whether the body matches from `width` characters before; nothing is consumed. -/
  | behind (present : Bool) (width : Nat) (body : Pattern)
  | group (number : Nat) (body : Pattern)
  | reference (number : Nat) (reach : Reach) (folded : Bool)
  /-- One of two patterns, by whether a group has kept a text. -/
  | ifGroup (number : Nat) (yes no : Pattern)
  /-- The body in the first way in which it matches, and in no other. -/
  | atomic (body : Pattern)
  deriving DecidableEq, Repr

namespace Pattern

def textStart : Pattern :=
  landmark .textStart

def lastLineEnd : Pattern :=
  landmark .lastLineEnd

def boundary (present : Bool) : Pattern :=
  landmark (.wordEdge present .unicode)

def oneOf (items : List ClassItem) : Pattern :=
  one { negated := false, items }

def noneOf (items : List ClassItem) : Pattern :=
  one { negated := true, items }

def char (c : Char) : Pattern :=
  oneOf [.single c]

def all : List Pattern → Pattern
  | [] => nothing
  | [pattern] => pattern
  | pattern :: later => seq pattern (all later)

def any : List Pattern → Pattern
  | [] => ahead false nothing
  | [pattern] => pattern
  | pattern :: later => either pattern (any later)

def exactly (text : String) : Pattern :=
  all (text.toList.map char)

def anyOf (texts : List String) : Pattern :=
  any (texts.map exactly)

def between (least most : Nat) (body : Pattern) : Pattern :=
  repeated body least (some most) .greedy

def optional (body : Pattern) : Pattern :=
  between 0 1 body

def atLeast (least : Nat) (body : Pattern) : Pattern :=
  repeated body least none .greedy

def many (body : Pattern) : Pattern :=
  atLeast 0 body

def times (count : Nat) (body : Pattern) : Pattern :=
  between count count body

end Pattern

structure SourcePattern where
  source : Text
  pattern : Pattern
  deriving DecidableEq, Repr

/-! How many characters a pattern can consume, counted up to a limit that no text reaches -/

structure Width where
  least : Nat
  most : Nat
  deriving DecidableEq, Repr

namespace Width

def limit : Nat := Nat.pow 2 64

def capped (width : Width) : Width :=
  ⟨min width.least limit, min width.most limit⟩

def one : Width := ⟨1, 1⟩

def zero : Width := ⟨0, 0⟩

def add (first second : Width) : Width :=
  capped ⟨first.least + second.least, first.most + second.most⟩

def union (left right : Width) : Width :=
  ⟨min left.least right.least, max left.most right.most⟩

/-- The width of a repetition; one without an upper bound is as wide as can be, unless its body is
empty. -/
def repeated (body : Width) (least : Nat) (most : Option Nat) : Width :=
  capped ⟨body.least * least, match most with
    | some most => body.most * most
    | none => if body.most = 0 then 0 else limit⟩

end Width

def Pattern.width (groups : Nat → Width) : Pattern → Width
  | nothing | landmark _ | ahead .. | behind .. => .zero
  | one _ => .one
  | seq first second => (width groups first).add (width groups second)
  | either left right => (width groups left).union (width groups right)
  | repeated body least most _ => (width groups body).repeated least most
  | group _ body | atomic body => width groups body
  | reference number _ _ => groups number
  | ifGroup _ yes no => (width groups yes).union (width groups no)

end HardcodedText
