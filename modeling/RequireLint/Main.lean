import RequireLint.Command.Run
import RequireLint.Scan.UserFile

/-!
# The program

The files that a run can look at are read into a tree, the run is carried out on the tree, and
what has changed in it is written back.
-/

namespace RequireLint

/-- Why a file cannot be read or written. -/
def FileError.ofIO : IO.Error → FileError
  | .permissionDenied _ 13 _ => .denied
  | error => .other error.toString.toList

/-- Reads a file, or a directory with all that is below it.  Symbolic links are passed over. -/
partial def readBelow (tree : FileTree) (path : String) (place : Place) : IO FileTree := do
  let here ← IO.currentDir
  let info ← (here / path).symlinkMetadata
  match info.type with
  | .file =>
    try
      let bytes ← IO.FS.readBinFile path
      return tree.put place (.file (.ofBytes bytes.toList))
    catch error =>
      return (tree.put place (.file (.text []))).refuseRead place (.ofIO error)
  | .dir =>
    let mut tree := tree.put place .directory
    for entry in ← (here / path).readDir do
      tree ← try readBelow tree entry.path.toString (place ++ [entry.fileName.toList])
        catch _ => pure tree
    return tree
  | _ => return tree

/-- Finds out which files cannot be written to.  A file that is opened to add to it stays as it
is. -/
def probeFiles (tree : FileTree) : IO FileTree := do
  let mut tree := tree
  for place in tree.filesBelow [] do
    let path := (Place.toText place).toString
    tree ← try IO.FS.withFile path .append fun _ => pure tree
      catch error => pure (tree.refuseWrite place (.ofIO error))
  return tree

/-- Adds a directory and those above it, with the markers of project roots in them. -/
def readAbove (tree : FileTree) (place : Place) : IO FileTree := do
  let here ← IO.currentDir
  let mut tree := tree
  for depth in List.range (place.length + 1) do
    let dir := place.take depth
    if !dir.isEmpty && (tree.node? dir).isNone then tree := tree.put dir .directory
    for marker in rootMarkers do
      let target := dir ++ [marker]
      if (tree.node? target).isNone then
        if ← (here / (Place.toText target).toString).pathExists then
          tree := tree.put target (.file (.text []))
  return tree

def placeOf (path : String) : Place := (path.toList.splitOn '/').filter (!·.isEmpty)

/-- Reads what a path leads to, and what is above it.  If it leads nowhere, something may still be
written there, so its directory is read. -/
def readPath (tree : FileTree) (path : String) : IO FileTree := do
  let here ← IO.currentDir
  try
    let real := (← IO.FS.realPath (here / path)).toString
    let tree ← readBelow tree real (placeOf real)
    readAbove tree (placeOf real).dropLast
  catch _ =>
    let dir := ((Path.parent? path.toList).getD path.toList).toString
    try
      let real ← IO.FS.realPath (here / dir)
      readAbove tree (placeOf real.toString)
    catch _ => return tree

/-- Whether a command may write to the files that it looks at. -/
def Command.fixes : Command → Bool
  | .check options => options.fix
  | _ => false

/-- Reads the workspace of a command. -/
def readWorkspace (command : Command) : IO Workspace := do
  let here := (← IO.FS.realPath (← IO.currentDir)).toString
  let current := placeOf here
  let home := (← IO.getEnv "HOME").map String.toList
  let named := (← IO.getEnv "XDG_CONFIG_HOME").map String.toList
  let configs := ((settingsDirectory? home named).map
    (Path.under · "packaging-guard/config.toml")).toList
  let mut tree ← readAbove .empty current
  for path in Config.fileName :: command.paths ++ configs ++ controlFiles home named do
    tree ← readPath tree (Path.under here.toList path).toString
  -- The ignore file of the user is known only when the settings have been read.
  let settings := userSettings? tree current home named
  for path in settings.map (·.ignoreFile) do
    tree ← readPath tree (Path.under here.toList path).toString
  if command.fixes then tree ← probeFiles tree
  return {
    tree := tree
    current := current
    settings := settings
    outIsTerminal := ← (← IO.getStdout).isTty
    errIsTerminal := ← (← IO.getStderr).isTty
    forbidsColors := (← IO.getEnv "NO_COLOR").isSome }

/-- Writes back what has changed. -/
def writeChanges (before after : FileTree) : IO Unit := do
  for (place, node) in before.changes after do
    let path := (Place.toText place).toString
    match node with
    | .directory => IO.FS.createDirAll path
    | .file (.text content) => IO.FS.writeFile path content.toString
    | .file (.binary bytes) => IO.FS.writeBinFile path ⟨bytes.toArray⟩

end RequireLint

open RequireLint

def main (arguments : List String) : IO UInt32 := do
  match Invocation.ofArguments (arguments.map String.toList) with
  | .error refusal =>
    if refusal.exitCode = 0 then IO.print refusal.output.toString
    else IO.eprint refusal.output.toString
    return UInt32.ofNat refusal.exitCode
  | .ok call =>
    let ws ← readWorkspace call.command
    let outcome := call.run ws
    writeChanges ws.tree outcome.tree
    IO.print outcome.out.toString
    IO.eprint outcome.err.toString
    return UInt32.ofNat outcome.exitCode
