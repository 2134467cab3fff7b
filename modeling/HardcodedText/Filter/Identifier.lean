import HardcodedText.Text.Basic
import HardcodedText.Text.Number

/-!
The content of a literal without its interpolations, which are brace-balanced spans and references
to a name and its fields; and identifiers and keys: snake case, camel case and dotted names.
-/

namespace HardcodedText

def isNameStart (c : Char) : Bool :=
  c.isAlpha || c == '_'

/-- The content without its braced interpolations. `depth` is `none` outside an interpolation and
counts the braces open inside it. One that is not closed reaches to the end. -/
def dropBraced : Option Nat → Text → Text
  | none, '$' :: '\x7b' :: rest => dropBraced (some 0) rest
  | none, c :: rest => c :: dropBraced none rest
  | some depth, c :: rest =>
      if c == '\x7b' then dropBraced (some (depth + 1)) rest
      else if c == '\x7d' then
        match depth with
        | 0 => dropBraced none rest
        | depth + 1 => dropBraced (some depth) rest
      else dropBraced (some depth) rest
  | _, [] => []

def referenceWidth : Text → Nat
  | [] => 0
  | c :: rest =>
      if isWordChar c || (c == '.' && rest.head?.any isNameStart) then 1 + referenceWidth rest
      else 0

def dropReferencesFrom (skip : Nat) : Text → Text
  | [] => []
  | c :: rest =>
      match skip with
      | skip + 1 => dropReferencesFrom skip rest
      | 0 =>
          if c == '$' && rest.head?.any isNameStart then
            dropReferencesFrom (referenceWidth rest) rest
          else c :: dropReferencesFrom 0 rest

def dropReferences (content : Text) : Text :=
  dropReferencesFrom 0 content

def stripInterpolation (content : Text) : Text :=
  dropReferences (dropBraced none content)

def isLowerOrDigit (c : Char) : Bool :=
  c.isLower || c.isDigit

def isSnakeCase (text : Text) : Bool :=
  match text with
  | [] => false
  | '_' :: rest => !rest.isEmpty && rest.all fun c => isLowerOrDigit c || c == '_'
  | first :: _ =>
      let words := text.splitOn '_'
      first.isLower && 2 ≤ words.length &&
        words.all fun word => !word.isEmpty && word.all isLowerOrDigit

def isCamelCase : Text → Bool
  | [] => false
  | first :: rest => first.isLower && rest.all Char.isAlphanum && rest.any Char.isUpper

def isName : Text → Bool
  | [] => false
  | first :: rest => isNameStart first && rest.all isWordChar

def isNamePath (text : Text) : Bool :=
  (text.splitOn '.').all isName

def isDottedName (text : Text) : Bool :=
  text.contains '.' && isNamePath text

def isIdentifierShape (text : Text) : Bool :=
  isSnakeCase text || isCamelCase text || isDottedName text

end HardcodedText
