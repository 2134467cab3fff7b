import HardcodedText.Text.Basic

/-!
File name patterns: a star matches any text, a question mark any character, and a bracket one of a
set of characters and ranges, or none of them after an exclamation mark. A bracket that is not
closed stands for itself, and a range whose ends are reversed is empty. A pattern is matched part by
part, from the last to the first, against all places of a name at once.
-/

namespace HardcodedText.Glob

inductive Part
  | any
  | one
  | char (c : Char)
  /-- The characters of the chunks and the ranges between the end of each chunk and the beginning of
  the next. -/
  | set (negated : Bool) (chunks : List Text)
  deriving DecidableEq, Repr

def inChunks (c : Char) : List Text → Bool
  | [] => false
  | [chunk] => chunk.contains c
  | chunk :: next :: later =>
      chunk.contains c ||
        (match chunk.getLast?, next.head? with
          | some low, some high => low.toNat ≤ c.toNat && c.toNat ≤ high.toNat
          | _, _ => false) ||
        inChunks c (next :: later)

/-- Cuts the inside of a bracket at the dashes that make ranges. The first `skip` characters, at
least one, cannot be such a dash; after a dash neither can the next two. A dash at the very end is
an ordinary character. -/
def chunksFrom (skip : Nat) (current : Text) : Text → List Text
  | [] => [current.reverse]
  | c :: rest =>
      match skip with
      | skip + 1 => chunksFrom skip (c :: current) rest
      | 0 =>
          if c == '-' && !rest.isEmpty then current.reverse :: chunksFrom 2 [] rest
          else chunksFrom 0 (c :: current) rest

def joinReversed : List Text → List Text
  | [] => []
  | chunk :: later =>
      match joinReversed later with
      | [] => [chunk]
      | next :: rest =>
          match chunk.getLast?, next.head? with
          | some low, some high =>
              if low.toNat > high.toNat then (chunk.dropLast ++ next.drop 1) :: rest
              else chunk :: next :: rest
          | _, _ => chunk :: next :: rest

def setOf (inside : Text) : Part :=
  let skip := if inside.head? == some '!' then 2 else 1
  match joinReversed (chunksFrom skip [] inside) with
  | ('!' :: chunk) :: later => .set true (chunk :: later)
  | chunks => .set false chunks

/-- The length of the inside of a bracket that has been opened, if it is closed. An exclamation mark
and a closing bracket that come first belong to the inside. -/
def insideLength (text : Text) : Option Nat :=
  let start := if text.head? == some '!' then 1 else 0
  let start := if (text.drop start).head? == some ']' then start + 1 else start
  let length := start + ((text.drop start).takeWhile (· != ']')).length
  if length < text.length then some length else none

def partsFrom (skip : Nat) : Text → List Part
  | [] => []
  | c :: rest =>
      match skip with
      | skip + 1 => partsFrom skip rest
      | 0 =>
          if c == '*' then .any :: partsFrom 0 rest
          else if c == '?' then .one :: partsFrom 0 rest
          else if c == '[' then
            match insideLength rest with
            | some length => setOf (rest.take length) :: partsFrom (length + 1) rest
            | none => .char c :: partsFrom 0 rest
          else .char c :: partsFrom 0 rest

def Part.acceptsChar (c : Char) : Part → Bool
  | any | one => true
  | char own => c == own
  | set negated chunks => inChunks c chunks != negated

def holdsFrom : List Bool → List Bool
  | [] => []
  | holds :: later =>
      let row := holdsFrom later
      (holds || row.headD false) :: row

/-- For every place of a text whether the part accepts the next character and the row holds one
place later. -/
def stepRow (part : Part) : Text → List Bool → List Bool
  | c :: text, _ :: row => (part.acceptsChar c && row.headD false) :: stepRow part text row
  | _, _ => [false]

/-- For every place of a text, the end included, whether the parts match all that follows it. -/
def matchRow (parts : List Part) (text : Text) : List Bool :=
  match parts with
  | [] => text.map (fun _ => false) ++ [true]
  | .any :: later => holdsFrom (matchRow later text)
  | part :: later => stepRow part text (matchRow later text)

def accepts (pattern name : Text) : Bool :=
  (matchRow (partsFrom 0 pattern) name).headD false

end HardcodedText.Glob
