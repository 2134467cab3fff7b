import HardcodedText.Text.Basic
import HardcodedText.Workspace.FileTree

/-!
JSON output. Members are written in the order of their names, and only ASCII is written: other
characters become escapes of their UTF-16 units.
-/

namespace HardcodedText

inductive JsonValue
  | bool (value : Bool)
  | number (value : Nat)
  | string (value : Text)
  | array (items : List JsonValue)
  | object (members : List (Text × JsonValue))

namespace JsonValue

def unitEscape (unit : Nat) : Text :=
  '\\' :: 'u' :: Text.hexadecimal 4 unit

def escapeChar (c : Char) : Text :=
  if c == '"' || c == '\\' then ['\\', c]
  else if c == '\n' then ['\\', 'n']
  else if c == '\r' then ['\\', 'r']
  else if c == '\t' then ['\\', 't']
  else if c == '\x08' then ['\\', 'b']
  else if c == '\x0c' then ['\\', 'f']
  else if 0x20 ≤ c.toNat && c.toNat < 0x7f then [c]
  else if c.toNat < 0x10000 then unitEscape c.toNat
  else
    let offset := c.toNat - 0x10000
    unitEscape (0xd800 + offset / 0x400) ++ unitEscape (0xdc00 + offset % 0x400)

def quote (text : Text) : Text :=
  '"' :: text.flatMap escapeChar ++ ['"']

/-- How a value is spread over lines: `none` on one line, otherwise the current indentation. -/
abbrev Layout := Option Nat

namespace Layout

def deeper (layout : Layout) : Layout :=
  layout.map (· + 2)

def lineBreak : Layout → Text
  | none => []
  | some width => '\n' :: List.replicate width ' '

def separator : Layout → Text
  | none => [',', ' ']
  | some width => ',' :: '\n' :: List.replicate width ' '

end Layout

def bracketed (opening closing : Char) (layout : Layout) (items : List Text) : Text :=
  if items.isEmpty then [opening, closing]
  else
    opening :: layout.deeper.lineBreak ++ List.intercalate layout.deeper.separator items ++
      layout.lineBreak ++ [closing]

mutual

def render (layout : Layout) : JsonValue → Text
  | bool value => if value then "true".toList else "false".toList
  | number value => (toString value).toList
  | string value => quote value
  | array items => bracketed '[' ']' layout (renderItems layout.deeper items)
  | object members =>
      bracketed '\x7b' '\x7d' layout
        ((sortNamed (renderMembers layout.deeper members)).map Prod.snd)

def renderItems (layout : Layout) : List JsonValue → List Text
  | [] => []
  | item :: later => render layout item :: renderItems layout later

def renderMembers (layout : Layout) : List (Text × JsonValue) → List (Text × Text)
  | [] => []
  | (name, value) :: later =>
      (name, quote name ++ [':', ' '] ++ render layout value) :: renderMembers layout later

end

def compact (value : JsonValue) : Text :=
  render none value

def pretty (value : JsonValue) : Text :=
  render (some 0) value

end JsonValue

end HardcodedText
