import HardcodedText.Pattern.Source
import HardcodedText.Text.CharName

/-!
Escapes and sets in the text of a pattern.
-/

namespace HardcodedText

/-- The item of one code point. A code point that is no character is held by no text. -/
def ClassItem.ofCode (code : Nat) : ClassItem :=
  if (Char.ofNat code).toNat = code then .single (Char.ofNat code) else .range code code

structure Scope where
  reach : Reach := .unicode
  folded : Bool := false
  multiline : Bool := false
  dotAll : Bool := false
  /-- Whether blanks and comments between the items are skipped. -/
  verbose : Bool := false
  deriving DecidableEq, Repr

namespace Pattern

def setOf (scope : Scope) (negated : Bool) (items : List ClassItem) : Pattern :=
  .one { negated, items, reach := scope.reach, folded := scope.folded }

inductive ItemKind
  | plain
  | anchor
  | repetition
  deriving DecidableEq, Repr

structure Item where
  pattern : Pattern
  kind : ItemKind

def Item.code (scope : Scope) (code : Nat) : Item :=
  ⟨setOf scope false [.ofCode code], .plain⟩

def controlEscape : Char → Option Char
  | 'a' => some '\x07'
  | 'f' => some '\x0c'
  | 'n' => some '\n'
  | 'r' => some '\r'
  | 't' => some '\t'
  | 'v' => some '\x0b'
  | '\\' => some '\\'
  | _ => none

def classEscape : Char → Option ClassItem
  | 'd' => some (.decimal true)
  | 'D' => some (.decimal false)
  | 's' => some (.blank true)
  | 'S' => some (.blank false)
  | 'w' => some (.word true)
  | 'W' => some (.word false)
  | _ => none

def hexadecimalWidth : Char → Option Nat
  | 'x' => some 2
  | 'u' => some 4
  | 'U' => some 8
  | _ => none

def readHexadecimal (letter : Char) (width : Nat) : Reader Nat := do
  let digits ← readWhile Text.isHexDigit width
  let escape := '\\' :: letter :: digits
  if digits.length ≠ width then refuseBack (.incompleteEscape escape) escape.length
  else
    let value := Text.numeral 16 digits
    if value > 0x10ffff then refuseBack (.badEscape escape) escape.length else return value

variable [CharacterNames]

def readNamed : Reader Nat := do
  if !(← accept '\x7b') then refuseBack .missingBrace 0
  else
    let name ← readName '\x7d' .character
    match CharacterNames.char? name with
    | some c => return c.toNat
    | none => refuseBack (.undefinedCharacter name) (name.length + 4)

def readCodeEscape (c : Char) : Reader (Option Nat) := do
  match controlEscape c, hexadecimalWidth c with
  | some control, _ => return some control.toNat
  | _, some width => return some (← readHexadecimal c width)
  | _, _ => if c == 'N' then return some (← readNamed) else return none

def readOctal (first : Char) : Reader Nat := do
  let digits := first :: (← readWhile Text.isOctalDigit 2)
  let value := Text.numeral 8 digits
  if value > 0o377 then refuseBack (.octalOutOfRange ('\\' :: digits)) (digits.length + 1)
  else return value

inductive SetMember
  | code (value : Nat)
  | item (own : ClassItem)
  deriving DecidableEq, Repr

def SetMember.classItem : SetMember → ClassItem
  | .code value => .ofCode value
  | .item own => own

def readSetEscape (c : Char) : Reader SetMember := do
  match classEscape c, ← readCodeEscape c with
  | some item, _ => return .item item
  | _, some code => return .code code
  | none, none =>
      if c == 'b' then return .code 8
      else if Text.isOctalDigit c then return .code (← readOctal c)
      else if c.isAlphanum then refuseBack (.badEscape ['\\', c]) 2
      else return .code c.toNat

def readSetMember : Token → Reader SetMember
  | .plain c => return .code c.toNat
  | .escape c => readSetEscape c

def readRange (first last : Token) (low : SetMember) : Reader ClassItem := do
  let high ← readSetMember last
  let refused := refuseBack (.badRange first.text last.text)
    (first.text.length + 1 + last.text.length)
  match low, high with
  | .code low, .code high => if high < low then refused else return .range low high
  | _, _ => refused

/-- The items of a set up to its closing bracket; `opened` is the position of the bracket that
opened it, and a closing bracket that comes first is an item. -/
def readSetFrom (opened : Nat) : Nat → List ClassItem → Reader (List ClassItem)
  | 0, _ => refuse .unterminatedSet opened
  | fuel + 1, items => do
      match ← nextToken with
      | none => refuse .unterminatedSet opened
      | some token =>
          if token == .plain ']' && !items.isEmpty then return items
          else
            let member ← readSetMember token
            if ← accept '-' then
              match ← nextToken with
              | none => refuse .unterminatedSet opened
              | some (.plain ']') => return items ++ [member.classItem, .single '-']
              | some last =>
                  let range ← readRange token last member
                  readSetFrom opened fuel (items ++ [range])
            else readSetFrom opened fuel (items ++ [member.classItem])

def readSet (scope : Scope) : Reader Pattern := do
  let opened := (← position) - 1
  let negated ← accept '^'
  let items ← readSetFrom opened ((← get).rest.length + 1) []
  return setOf scope negated items

def referTo (scope : Scope) (number written : Nat) : Reader Item := do
  if ((← get).widthOf number).isNone then refuseBack .openGroup written
  else
    checkLookBehind number
    return ⟨.reference number scope.reach scope.folded, .plain⟩

def readNumberEscape (scope : Scope) (first : Char) : Reader Item := do
  let digits := first :: (← readWhile Char.isDigit 1)
  let isCode := digits.length == 2 && digits.all Text.isOctalDigit
  let third ← if isCode then readWhile Text.isOctalDigit 1 else pure []
  if !third.isEmpty then
    let value := Text.numeral 8 (digits ++ third)
    if value > 0o377 then refuseBack (.octalOutOfRange ('\\' :: digits ++ third)) 4
    else return .code scope value
  else
    let number := Text.numeral 10 digits
    if number ≤ (← get).groups.length then referTo scope number (digits.length + 1)
    else refuseBack (.invalidGroupReference number) digits.length

def landmarkEscape (scope : Scope) : Char → Option Landmark
  | 'A' => some .textStart
  | 'Z' => some .textEnd
  | 'b' => some (.wordEdge true scope.reach)
  | 'B' => some (.wordEdge false scope.reach)
  | _ => none

def readEscape (scope : Scope) (c : Char) : Reader Item := do
  match landmarkEscape scope c, classEscape c with
  | some mark, _ => return ⟨.landmark mark, .anchor⟩
  | _, some item => return ⟨setOf scope false [item], .plain⟩
  | none, none =>
      match ← readCodeEscape c with
      | some code => return .code scope code
      | none =>
          if c == '0' then return .code scope (Text.numeral 8 (← readWhile Text.isOctalDigit 2))
          else if c.isDigit then readNumberEscape scope c
          else if c.isAlpha then refuseBack (.badEscape ['\\', c]) 2
          else return .code scope c.toNat

end Pattern

end HardcodedText
