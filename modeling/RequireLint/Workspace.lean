import RequireLint.Config.Document
import RequireLint.File.Tree

/-!
# Workspaces

A workspace is all that a run depends on besides its command line: the files, the directory it
is started in, the settings of the user, and what its output goes to.
-/

namespace RequireLint

/-- Where a run finds the settings of the user. -/
structure UserSettings where
  /-- The directory that the settings of all programs are in. -/
  directory : Text
  /-- The ignore file that counts for all directories of the user.  The settings of the version
  control may name any file for it. -/
  ignoreFile : Text
deriving Repr, DecidableEq

/-- A directory of settings, in which the ignore file has its usual name. -/
def UserSettings.ofDirectory (directory : Text) : UserSettings :=
  ⟨directory, Path.under (Path.under directory "git") "ignore"⟩

instance : Coe Text UserSettings := ⟨UserSettings.ofDirectory⟩

/-- What a run starts from. -/
structure Workspace where
  tree : FileTree
  current : Place
  /-- The settings of the user, if there are any. -/
  settings : Option UserSettings
  /-- Whether standard output goes to a terminal. -/
  outIsTerminal : Bool
  /-- Whether standard error goes to a terminal. -/
  errIsTerminal : Bool
  /-- Whether the environment forbids colours. -/
  forbidsColors : Bool

namespace Workspace

def currentPath (ws : Workspace) : Text := ws.current.toText

end Workspace

end RequireLint
