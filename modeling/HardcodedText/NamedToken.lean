import HardcodedText.Filter.Identifier
import HardcodedText.Scanner.Literal

/-!
Named arguments: the names in front of a colon in an argument list, outside its literals, and the
name that a literal belongs to.
-/

namespace HardcodedText

structure NamedToken where
  offset : Nat
  name : Text
  deriving DecidableEq, Repr

/-- The name at the front of a text if a colon follows, blanks allowed between, with the text after
the colon; `previous` is the character before the name. -/
def namedTokenAt (previous : Option Char) (text : Text) : Option (Text × Text) :=
  if text.head?.any isNameStart && !previous.any isWordChar then
    match Text.trimStart (text.dropWhile isWordChar) with
    | ':' :: rest => some (text.takeWhile isWordChar, rest)
    | _ => none
  else none

def namedTokensFrom (offset : Nat) (previous : Option Char) : Text → List NamedToken
  | [] => []
  | c :: rest =>
      match namedTokenAt previous (c :: rest) with
      | some (name, _) => ⟨offset, name⟩ :: namedTokensFrom (offset + 1) (some c) rest
      | none => namedTokensFrom (offset + 1) (some c) rest

def namedTokens (argText : Text) : List NamedToken :=
  namedTokensFrom 0 none (maskLiterals argText)

def tokensOf (argText : Text) (known : Option (List NamedToken)) : List NamedToken :=
  known.getD (namedTokens argText)

/-- How many tokens stand before the offset, the tokens being in order. The number lies between
`low` and `high`, and every step halves what is between them. -/
def countBefore (tokens : List NamedToken) (offset : Int) (low high : Nat) : Nat :=
  if low < high then
    let middle := (low + high) / 2
    if tokens[middle]?.any fun token => (token.offset : Int) < offset then
      countBefore tokens offset (middle + 1) high
    else countBefore tokens offset low middle
  else low
termination_by high - low

def tokensBefore (tokens : List NamedToken) (offset : Int) : List NamedToken :=
  (tokens.take (countBefore tokens offset 0 tokens.length)).reverse

def inferParameter (tokens : List NamedToken) (offset : Int) (candidates : List Text) : Text :=
  match (tokensBefore tokens offset).find? fun token => candidates.contains token.name with
  | some token => token.name
  | none => []

def lineStart (argText : Text) (offset : Int) : Nat :=
  let before := argText.take (Text.place argText.length offset)
  before.length - (before.reverse.takeWhile (· != '\n')).length

def inferGenericParameter (argText : Text) (tokens : List NamedToken) (offset : Int) : Text :=
  match tokensBefore tokens offset with
  | [] => []
  | token :: _ => if token.offset < lineStart argText offset then [] else token.name

def hasNamedParameter (argText : Text) : Bool :=
  (maskLiterals argText).anyPlace (fun previous text =>
    match namedTokenAt previous text with
    | some (_, rest) => rest.head? != some ':'
    | none => false) none

end HardcodedText
