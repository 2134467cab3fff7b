import HardcodedText.Table

/-!
The values of a configuration: what a configuration file or a client can supply.
-/

namespace HardcodedText

inductive Value
  | null
  | bool (value : Bool)
  | int (value : Int)
  | string (value : Text)
  | list (items : List Value)
  | table (entries : List (Text × Value))
  /-- A fractional number, a date or a time. No setting uses one, so it carries nothing. -/
  | other
  deriving Inhabited

namespace Value

def get (value : Value) (key : String) : Value :=
  match value with
  | table entries => (Table.get? entries key.toList).getD null
  | _ => null

def asTable : Value → Table Value
  | table entries => entries
  | _ => []

def hasEntries : Value → Bool
  | table entries => !entries.isEmpty
  | _ => false

def splitNames (text : Text) : List Text :=
  ((text.splitOn ',').map Text.trim).filter fun name => !name.isEmpty

/-- The names that a value lists: a text with commas, or a list of such texts. Anything else lists
none. -/
def nameList : Value → List Text
  | string text => splitNames text
  | list items => items.flatMap fun
      | string text => splitNames text
      | _ => []
  | _ => []

/-- The patterns that a value lists. A pattern may hold commas, so a text is one pattern. -/
def patternList : Value → List Text
  | string text => if text.trim.isEmpty then [] else [text]
  | list items => items.filterMap fun
      | string text => if text.trim.isEmpty then none else some text
      | _ => none
  | _ => []

def affirmations : List Text := List.map String.toList ["1", "true", "yes", "on"]

/-- A number other than zero and the affirmative texts, in any case, count as true. Only ASCII
letters have to be lowered: no other character lowers to a letter of an affirmative text. -/
def asBool : Value → Bool
  | bool value => value
  | int value => value != 0
  | string text => affirmations.contains (text.trim.map Char.toLower)
  | _ => false

def mergeOver (payload defaults : Table Value) : Table Value :=
  payload.foldl (fun merged entry =>
    match entry.2 with
    | null => merged
    | value => merged.put entry.1 value) defaults

end Value

end HardcodedText
