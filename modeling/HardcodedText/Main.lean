import HardcodedText.CommandLine.Run

/-!
The program: it reads the files that the arguments name, runs the command on them, and writes what
the command leaves behind.
-/

namespace HardcodedText.Main

def loadFile (read : IO ByteArray) : IO Node := do
  try
    return .file (← read).toList
  catch _ => return .file [] false

/-- The files and directories of a directory. What lies in a directory that is never entered is not
read. -/
partial def loadEntries (entries : List IO.FS.DirEntry) : IO (List (Text × Node)) :=
  entries.mapM fun entry => do
    let name := entry.fileName.toList
    if ← entry.path.isDir then
      if defaultExcludeDirs.contains name then return (name, .directory [])
      return (name, .directory (← loadEntries (← entry.path.readDir).toList))
    else
      return (name, ← loadFile (IO.FS.readBinFile entry.path))

def loadPath (tree : FileTree) (path : Path) : IO FileTree := do
  let target := (← IO.currentDir) / path.text.string
  if ← target.isDir then
    return tree.insert path (.directory (← loadEntries (← target.readDir).toList))
  else if ← target.pathExists then
    return tree.insert path (← loadFile (IO.FS.readBinFile target))
  else return tree

def pathsOf : Command → List Path
  | .scan options =>
      configPlace (some options.root) options.config ::
        if options.paths.isEmpty then [options.root] else options.paths
  | .classify options => [configPlace (some options.root) options.config]

def loadTree (arguments : List Text) : IO FileTree := do
  let here := Path.ofText (← IO.currentDir).toString.toList
  let start : FileTree := ⟨(Node.directory []).putAt here.parts (.directory []), here.parts⟩
  match Arguments.command arguments with
  | .error _ => return start
  | .ok command => (pathsOf command).foldlM loadPath start

def save (file : List Text × List UInt8) : IO Unit := do
  let directory := Path.text ⟨.root, file.1.dropLast⟩
  IO.FS.createDirAll directory.string
  IO.FS.writeBinFile (Path.text ⟨.root, file.1⟩).string (ByteArray.mk file.2.toArray)

def run (arguments : List Text) : IO UInt32 := do
  let tree ← loadTree arguments
  let _ : CharacterNames := .latinAndGreek
  match CommandLine.run tree arguments with
  | .misused =>
      IO.eprintln "usage: translate-me (scan [PATH...] | classify TEXT) [OPTION...]"
      return 2
  | .aborted failure _ =>
      IO.eprintln failure.message
      return 1
  | .ended exitCode output errors after =>
      (tree.changedFiles after).forM save
      IO.print output.string
      IO.eprint errors.string
      return UInt32.ofNat exitCode

end HardcodedText.Main

def main (arguments : List String) : IO UInt32 :=
  HardcodedText.Main.run (arguments.map String.toList)
