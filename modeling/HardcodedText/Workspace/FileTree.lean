import HardcodedText.Table
import HardcodedText.Text.Printable
import HardcodedText.Text.Utf8
import HardcodedText.Workspace.Path

/-!
A file tree without links, and the operations on it: finding what a path names, reading, writing,
and walking. Finding follows a path component by component, so that each component but the last has
to be a directory.
-/

namespace HardcodedText

inductive Node
  /-- A file that is not accessible can be neither read nor written. -/
  | file (bytes : List UInt8) (accessible : Bool := true)
  | directory (entries : List (Text × Node))

inductive FileFault
  | notFound
  | accessDenied
  | notADirectory
  | isADirectory
  | exists
  | nameTooLong
  /-- The path holds the character that no file name can hold. -/
  | embeddedNull
  deriving DecidableEq, Repr

structure FileError where
  fault : FileFault
  path : Path
  deriving DecidableEq, Repr

def FileFault.kind : FileFault → String
  | notFound => "FileNotFoundError"
  | accessDenied => "PermissionError"
  | notADirectory => "NotADirectoryError"
  | isADirectory => "IsADirectoryError"
  | .exists => "FileExistsError"
  | nameTooLong => "OSError"
  | embeddedNull => "ValueError"

def FileFault.description : FileFault → String
  | notFound => "[Errno 2] No such file or directory"
  | accessDenied => "[Errno 13] Permission denied"
  | notADirectory => "[Errno 20] Not a directory"
  | isADirectory => "[Errno 21] Is a directory"
  | .exists => "[Errno 17] File exists"
  | nameTooLong => "[Errno 36] File name too long"
  | embeddedNull => "embedded null byte"

def FileError.message (error : FileError) : String :=
  if error.fault = .embeddedNull then error.fault.description
  else error.fault.description ++ ": " ++ (Text.quoted error.path.text).string

def nameLimit : Nat := 255

def pathLimit : Nat := 4095

namespace Node

def entry? (name : Text) : Node → Except FileFault Node
  | file .. => .error .notADirectory
  | directory entries =>
      match Table.get? entries name with
      | some node => .ok node
      | none => .error (if nameLimit < Utf8.size name then .nameTooLong else .notFound)

def descend (above : List Node) (here : Node) : List Text → Except FileFault Node
  | [] => .ok here
  | part :: later =>
      if part == ['.', '.'] then
        match here with
        | file .. => .error .notADirectory
        | directory _ => descend above.tail (above.head?.getD here) later
      else
        match here.entry? part with
        | .ok next => descend (here :: above) next later
        | .error fault => .error fault

/-- The node with another one put at the given components below it, making directories on the way;
components below a file are not reached. -/
def putAt (here : Node) (parts : List Text) (node : Node) : Node :=
  match parts, here with
  | [], _ => node
  | part :: later, directory entries =>
      let next := (Table.get? entries part).getD (directory [])
      directory (Table.put entries part (putAt next later node))
  | _ :: _, file bytes accessible => file bytes accessible

end Node

structure FileTree where
  root : Node
  currentDir : List Text

namespace FileTree

def find (tree : FileTree) (path : Path) : Except FileFault Node :=
  let start := if path.anchor = .relative then tree.currentDir else []
  if path.hasNull then .error .embeddedNull
  else if pathLimit < Utf8.size path.text then .error .nameTooLong
  else tree.root.descend [] (start ++ path.parts)

def readBytes (tree : FileTree) (path : Path) : Except FileError (List UInt8) :=
  match tree.find path with
  | .ok (.file bytes true) => .ok bytes
  | .ok (.file _ false) => .error ⟨.accessDenied, path⟩
  | .ok (.directory _) => .error ⟨.isADirectory, path⟩
  | .error fault => .error ⟨fault, path⟩

def insert (tree : FileTree) (path : Path) (node : Node) : FileTree :=
  { tree with root := tree.root.putAt (path.resolve tree.currentDir) node }

/-- Makes the directory of a path and those above it, given the path's components from the last to
the first. A directory that is there already is left alone. -/
def makeDirectories (tree : FileTree) (anchor : Anchor) : List Text → Except FileError FileTree
  | [] => .ok tree
  | part :: above =>
      let path : Path := ⟨anchor, (part :: above).reverse⟩
      match tree.find path with
      | .ok (.directory _) => .ok tree
      | .ok (.file ..) => .error ⟨.exists, path⟩
      | .error .notFound => do
          let made ← makeDirectories tree anchor above
          match made.find path with
          | .ok (.directory _) => .ok made
          | .ok (.file ..) => .error ⟨.exists, path⟩
          | .error .notFound => .ok (made.insert path (.directory []))
          | .error fault => .error ⟨fault, path⟩
      | .error fault => .error ⟨fault, path⟩

def write (tree : FileTree) (path : Path) (bytes : List UInt8) : Except FileError FileTree := do
  let made ← tree.makeDirectories path.anchor path.parts.dropLast.reverse
  match made.find path with
  | .ok (.directory _) => .error ⟨.isADirectory, path⟩
  | .ok (.file _ false) => .error ⟨.accessDenied, path⟩
  | .ok (.file _ true) => .ok (made.insert path (.file bytes))
  | .error .notFound => .ok (made.insert path (.file bytes))
  | .error fault => .error ⟨fault, path⟩

end FileTree

/-! Text files -/

inductive ReadError
  | file (error : FileError)
  | decode (error : Utf8.DecodeError)
  deriving DecidableEq, Repr

namespace ReadError

def kind : ReadError → String
  | file error => error.fault.kind
  | decode _ => "UnicodeDecodeError"

def message : ReadError → String
  | file error => error.message
  | decode error => error.message

def describe (error : ReadError) : String :=
  error.kind ++ ": " ++ error.message

/-- Whether the error is one of the file. A path that can name no file is an error of its user. -/
def concernsFile : ReadError → Bool
  | file error => error.fault != .embeddedNull
  | decode _ => true

end ReadError

def FileTree.readText (tree : FileTree) (path : Path) : Except ReadError Text :=
  match tree.readBytes path with
  | .error error => .error (.file error)
  | .ok bytes => (Utf8.readText bytes).mapError .decode

/-!
The files below a directory in walking order: a directory's own files by code point, then its
subdirectories by code point, each in the same way.
-/

def sortNamed {α : Type} (entries : List (Text × α)) : List (Text × α) :=
  sortBy (fun left right => Text.le left.1 right.1) entries

namespace Node

def isFile : Node → Bool
  | file .. => true
  | directory _ => false

def fileNames (entries : List (Text × Node)) : List Text :=
  (entries.filter fun entry => entry.2.isFile).map Prod.fst

mutual

def walk (enters : Text → Bool) : Node → List (List Text)
  | file .. => []
  | directory entries =>
      ((Text.sorted (fileNames entries)).map fun name => [name]) ++
        (sortNamed (walkEntries enters entries)).flatMap fun (name, files) =>
          files.map (name :: ·)

def walkEntries (enters : Text → Bool) : List (Text × Node) → List (Text × List (List Text))
  | [] => []
  | (name, node) :: later =>
      if !node.isFile && enters name then
        (name, walk enters node) :: walkEntries enters later
      else walkEntries enters later

end

mutual

def files : Node → List (List Text × List UInt8)
  | file bytes _ => [([], bytes)]
  | directory entries => filesOf entries

def filesOf : List (Text × Node) → List (List Text × List UInt8)
  | [] => []
  | (name, node) :: later =>
      ((files node).map fun (parts, bytes) => (name :: parts, bytes)) ++ filesOf later

end

end Node

def FileTree.changedFiles (earlier later : FileTree) : List (List Text × List UInt8) :=
  let before := earlier.root.files
  later.root.files.filter fun file => !before.contains file

end HardcodedText
