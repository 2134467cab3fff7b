import HardcodedText.Text.Basic

/-!
File paths with `/` between components. Reading a path drops empty components and single dots; two
dots are kept until the path is resolved. A path that begins with exactly two slashes keeps both.
-/

namespace HardcodedText

inductive Anchor
  | relative
  | root
  | doubleRoot
  deriving DecidableEq, Repr

namespace Anchor

def text : Anchor → Text
  | relative => []
  | root => ['/']
  | doubleRoot => ['/', '/']

end Anchor

structure Path where
  anchor : Anchor
  parts : List Text
  deriving DecidableEq, Repr

namespace Path

def ofText (text : Text) : Path :=
  let anchor : Anchor :=
    match (text.takeWhile (· == '/')).length with
    | 0 => .relative
    | 2 => .doubleRoot
    | _ => .root
  ⟨anchor, (text.splitOn '/').filter fun part => !part.isEmpty && part != ['.']⟩

def text (path : Path) : Text :=
  if path.anchor = .relative && path.parts.isEmpty then ['.']
  else path.anchor.text ++ List.intercalate ['/'] path.parts

def name (path : Path) : Text :=
  path.parts.getLast?.getD []

def parent (path : Path) : Path :=
  { path with parts := path.parts.dropLast }

def components (path : Path) : List Text :=
  if path.anchor = .relative then path.parts else path.anchor.text :: path.parts

def inside (base path : Path) : Path :=
  if path.anchor = .relative then ⟨base.anchor, base.parts ++ path.parts⟩ else path

/-- Follows the components from an absolute place, given by its components in reverse: two dots lead
one level up, and from the root to itself. -/
def follow (reversed : List Text) : List Text → List Text
  | [] => reversed.reverse
  | part :: later =>
      if part == ['.', '.'] then follow reversed.tail later else follow (part :: reversed) later

/-- The components of the absolute path without dots, relative paths taken from the current
directory. -/
def resolve (currentDir : List Text) (path : Path) : List Text :=
  if path.anchor = .relative then follow currentDir.reverse path.parts
  else follow [] path.parts

def hasNull (path : Path) : Bool :=
  path.parts.any (·.contains '\x00')

def resolve? (currentDir : List Text) (path : Path) : Option (List Text) :=
  if path.hasNull then none else some (path.resolve currentDir)

def relativeTo (base : List Text) (parts : List Text) : Option (List Text) :=
  if base.isPrefixOf parts then some (parts.drop base.length) else none

def below? (currentDir : List Text) (path root : Path) : Option (List Text) := do
  relativeTo (← root.resolve? currentDir) (← path.resolve? currentDir)

end Path

end HardcodedText
