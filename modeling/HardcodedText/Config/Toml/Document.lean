import HardcodedText.Config.Toml.Scalar

/-!
TOML documents. A statement opens a table, opens a further entry of an array of tables, or assigns a
value to a key. The reader keeps the tables read so far, the paths that a header or a dotted key has
defined, and the paths that an inline value has closed; a document that breaks one of their rules is
refused as a whole.
-/

namespace HardcodedText.Toml

def isBlankChar (c : Char) : Bool :=
  c == ' ' || c == '\t'

def skipBlanks (text : Text) : Text :=
  text.dropWhile isBlankChar

def skipLines (inComment : Bool) : Text → Option Text
  | [] => some []
  | c :: rest =>
      if c == '\n' then skipLines false rest
      else if inComment then if isIllegal false c then none else skipLines true rest
      else if isBlankChar c then skipLines false rest
      else if c == '#' then skipLines true rest
      else some (c :: rest)

def skipComment (text : Text) : Option Text :=
  match text with
  | '#' :: rest =>
      let comment := rest.takeWhile (· != '\n')
      if comment.any (isIllegal false) then none else some (rest.drop comment.length)
  | _ => some text

def isBareKeyChar (c : Char) : Bool :=
  c.isAlphanum || c == '-' || c == '_'

def readKeyPart (text : Text) : Option (Text × Text) :=
  match text with
  | '\'' :: rest => readLiteral ['\''] false rest
  | '"' :: rest => readBasic false .none rest
  | _ =>
      let key := text.takeWhile isBareKeyChar
      if key.isEmpty then none else some (key, text.drop key.length)

def readKey : Nat → Text → Option (List Text × Text)
  | 0, _ => none
  | fuel + 1, text => do
      let (part, after) ← readKeyPart text
      match skipBlanks after with
      | '.' :: rest =>
          let (parts, last) ← readKey fuel (skipBlanks rest)
          pure (part :: parts, last)
      | rest => pure ([part], rest)

/-- Changes the table that a path leads to, making tables on the way. Where `throughLists` holds, an
array of tables stands for its last entry. -/
def modifyAt (throughLists : Bool) (change : Table Value → Option (Table Value)) :
    List Text → Table Value → Option (Table Value)
  | [], table => change table
  | key :: path, table =>
      match table.get? key with
      | none => (modifyAt throughLists change path []).map fun inner => table.put key (.table inner)
      | some (.table inner) =>
          (modifyAt throughLists change path inner).map fun inner => table.put key (.table inner)
      | some (.list items) =>
          match throughLists, items.getLast? with
          | true, some (.table inner) =>
              (modifyAt throughLists change path inner).map fun inner =>
                table.put key (.list (items.dropLast ++ [.table inner]))
          | _, _ => none
      | some _ => none

def addKey (key : Text) (value : Value) (table : Table Value) : Option (Table Value) :=
  if table.contains key then none else some (table.put key value)

def isContainer : Value → Bool
  | .table _ => true
  | .list _ => true
  | _ => false

def isClosed (closed : List (List Text)) (path : List Text) : Bool :=
  closed.any fun shut => shut.isPrefixOf path

def assignInline (table : Table Value) (closed : List (List Text)) (key : List Text)
    (value : Value) : Option (Table Value × List (List Text)) := do
  let stem ← key.getLast?
  if isClosed closed key then none
  let table ← modifyAt false (addKey stem value) key.dropLast table
  pure (table, if isContainer value then key :: closed else closed)

mutual

def readValue : Nat → Text → Option (Value × Text)
  | 0, _ => none
  | fuel + 1, text =>
      match text with
      | '"' :: _ => (readString text).map fun (content, after) => (.string content, after)
      | '\'' :: _ => (readString text).map fun (content, after) => (.string content, after)
      | '[' :: rest => do
          let rest ← skipLines false rest
          readItems fuel [] rest
      | '\x7b' :: rest =>
          match skipBlanks rest with
          | '\x7d' :: after => some (.table [], after)
          | rest => readPairs fuel [] [] rest
      | _ =>
          if "true".toList.isPrefixOf text then some (.bool true, text.drop 4)
          else if "false".toList.isPrefixOf text then some (.bool false, text.drop 5)
          else readPlain text

def readItems : Nat → List Value → Text → Option (Value × Text)
  | 0, _, _ => none
  | fuel + 1, items, text =>
      match text with
      | ']' :: after => some (.list items, after)
      | _ => do
          let (item, after) ← readValue fuel text
          match ← skipLines false after with
          | ']' :: rest => pure (.list (items ++ [item]), rest)
          | ',' :: rest =>
              let rest ← skipLines false rest
              readItems fuel (items ++ [item]) rest
          | _ => none

def readPairs : Nat → Table Value → List (List Text) → Text → Option (Value × Text)
  | 0, _, _, _ => none
  | fuel + 1, table, closed, text => do
      let (key, after) ← readKey fuel text
      match after with
      | '=' :: rest =>
          let (value, after) ← readValue fuel (skipBlanks rest)
          let (table, closed) ← assignInline table closed key value
          match skipBlanks after with
          | '\x7d' :: rest => pure (.table table, rest)
          | ',' :: rest => readPairs fuel table closed (skipBlanks rest)
          | _ => none
      | _ => none

end

structure Document where
  table : Table Value := []
  /-- The paths that no header may open. -/
  defined : List (List Text) := []
  /-- The paths of dotted keys, which become defined with the next header. -/
  pending : List (List Text) := []
  /-- The paths of inline values; nothing below them can be changed. -/
  closed : List (List Text) := []
  header : List Text := []

def properBeginnings (path : List Text) : List (List Text) :=
  (List.range (path.length - 1)).map fun count => path.take (count + 1)

namespace Document

def settle (document : Document) : Document :=
  { document with defined := document.pending ++ document.defined, pending := [] }

def openTable (document : Document) (path : List Text) : Option Document :=
  let document := document.settle
  if document.defined.contains path || isClosed document.closed path then none
  else
    (modifyAt true some path document.table).map fun table =>
      { document with table := table, defined := path :: document.defined, header := path }

def addEntry (stem : Text) (table : Table Value) : Option (Table Value) :=
  match table.get? stem with
  | none => some (table.put stem (.list [.table []]))
  | some (.list items) => some (table.put stem (.list (items ++ [.table []])))
  | some _ => none

/-- Opens a further entry of the array of tables of a path. What earlier entries defined does not
bind the new one. -/
def openEntry (document : Document) (path : List Text) : Option Document := do
  let document := document.settle
  let stem ← path.getLast?
  if isClosed document.closed path then none
  let table ← modifyAt true (addEntry stem) path.dropLast document.table
  pure { document with
    table := table
    defined := path :: document.defined.filter fun other => !path.isPrefixOf other
    closed := document.closed.filter fun other => !path.isPrefixOf other
    header := path }

def assign (document : Document) (key : List Text) (value : Value) : Option Document := do
  let stem ← key.getLast?
  let tables := (properBeginnings key).map (document.header ++ ·)
  if tables.any document.defined.contains then none
  if isClosed document.closed (document.header ++ key.dropLast) then none
  let table ← modifyAt true (addKey stem value) (document.header ++ key.dropLast) document.table
  pure { document with
    table := table
    pending := tables ++ document.pending
    closed :=
      if isContainer value then (document.header ++ key) :: document.closed else document.closed }

end Document

def readStatement (fuel : Nat) (document : Document) (text : Text) : Option (Document × Text) :=
  match text with
  | '#' :: _ => some (document, text)
  | '[' :: '[' :: rest => do
      let (path, after) ← readKey fuel (skipBlanks rest)
      match after with
      | ']' :: ']' :: rest => pure (← document.openEntry path, rest)
      | _ => none
  | '[' :: rest => do
      let (path, after) ← readKey fuel (skipBlanks rest)
      match after with
      | ']' :: rest => pure (← document.openTable path, rest)
      | _ => none
  | _ => do
      let (key, after) ← readKey fuel text
      match after with
      | '=' :: rest =>
          let (value, rest) ← readValue fuel (skipBlanks rest)
          pure (← document.assign key value, rest)
      | _ => none

def readDocument (nesting : Nat) : Nat → Document → Text → Option Document
  | 0, _, _ => none
  | fuel + 1, document, text =>
      match skipBlanks text with
      | [] => some document
      | '\n' :: rest => readDocument nesting fuel document rest
      | text => do
          let (document, after) ← readStatement nesting document text
          match ← skipComment (skipBlanks after) with
          | [] => pure document
          | '\n' :: rest => readDocument nesting fuel document rest
          | _ => none

def parse (text : Text) : Option (Table Value) :=
  (readDocument (2 * text.length + 2) (text.length + 1) {} text).map Document.table

end HardcodedText.Toml
