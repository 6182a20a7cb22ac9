import RequireLint.File.Walk
import RequireLint.Scan.Ignore
import RequireLint.Workspace

/-!
# Walks that respect ignore files

Such a walk has settings: which ignore files count for it, whether those of the version control
do so in repositories only, and whether hidden names are passed over.  Of several ignore files
that say something about a path, the kind decides first, and then how near the file is.
-/

namespace RequireLint

def versionControlName : Text := ".git"

/-- The rules of the ignore file at a place.  A file that cannot be read has none. -/
def FileTree.ignoreRules (tree : FileTree) (place : Place) : List IgnoreRule :=
  match tree.contentAt place with
  | .ok content => IgnoreRule.ofContent content
  | .error _ => []

/-- What a walk that respects ignore files pays attention to. -/
structure IgnoreSettings where
  /-- Whether names with a dot at their start are passed over. -/
  hidden : Bool
  /-- Whether ignore files above the directory of the walk count. -/
  parents : Bool
  /-- Whether the files `.ignore` count. -/
  ignoreFiles : Bool
  /-- Whether the files `.gitignore` count. -/
  gitIgnore : Bool
  /-- Whether the files that a repository excludes for itself count. -/
  gitExclude : Bool
  /-- Whether the ignore file of the user counts. -/
  gitGlobal : Bool
  /-- Whether the ignore files of the version control count in a repository only. -/
  requireGit : Bool
deriving Repr, DecidableEq

/-- The settings of a walk that is not told otherwise. -/
def IgnoreSettings.standard : IgnoreSettings := ⟨true, true, true, true, true, true, true⟩

namespace Workspace

/-- The rules of the ignore file that counts for all directories of the user. -/
def userIgnoreRules (ws : Workspace) : List IgnoreRule :=
  match ws.settings with
  | none => []
  | some settings =>
    match ws.tree.resolve ws.current settings.ignoreFile with
    | .ok place => ws.tree.ignoreRules place
    | .error _ => []

/-- What the ignore files of one name say about the path `below` the directory `top`.  They are
asked in the directories at some depths on the way, and the first one that says anything
decides. -/
def verdictBy? (ws : Workspace) (top name below : Place) (isDirectory : Bool)
    (depths : List Nat) : Option Verdict :=
  depths.findSome? fun depth =>
    IgnoreRule.decide? (ws.tree.ignoreRules (top ++ below.take depth ++ name))
      (Place.toRelative (below.drop depth)) isDirectory

/-- A path as seen from the current directory. -/
def seenFromCurrent (ws : Workspace) (path : Text) : Text :=
  match Text.dropPrefix? ws.currentPath path with
  | none => path
  | some rest => (Text.dropPrefix? "/" rest).getD rest

/-- Those of the directories at some depths in which the version control counts: all of them, or,
if a repository is needed, those up to the first one that is a repository. -/
def controlledDepths (ws : Workspace) (requireGit : Bool) (top below : Place)
    (depths : List Nat) : List Nat :=
  let isRepository (depth : Nat) : Bool :=
    (ws.tree.node? (top ++ below.take depth ++ [versionControlName])).isSome
  if requireGit then
    match depths.findIdx? isRepository with
    | some first => depths.take (first + 1)
    | none => []
  else depths

/-- What the ignore files say to a walk from `root` about the path `below` it. -/
def verdict? (ws : Workspace) (settings : IgnoreSettings) (root below : Place)
    (isDirectory : Bool) : Option Verdict :=
  let (top, rest) := if settings.parents then ([], root ++ below) else (root, below)
  let depths := (List.range rest.length).reverse
  let controlled := ws.controlledDepths settings.requireGit top rest depths
  let verdictIf (counts : Bool) (name : Place) (depths : List Nat) : Option Verdict :=
    if counts then ws.verdictBy? top name rest isDirectory depths else none
  verdictIf settings.ignoreFiles [".ignore"] depths <|>
    verdictIf settings.gitIgnore [".gitignore"] controlled <|>
    verdictIf settings.gitExclude [versionControlName, "info", "exclude"] controlled <|>
    if settings.gitGlobal && !controlled.isEmpty then
      IgnoreRule.decide? ws.userIgnoreRules
        (ws.seenFromCurrent (root ++ below).toText) isDirectory
    else none

/-- Whether a walk from `root` passes over what it comes to.  What an ignore file keeps is not
passed over for being hidden. -/
def passesOver (ws : Workspace) (settings : IgnoreSettings) (root : Place) (entry : WalkEntry) :
    Bool :=
  match ws.verdict? settings root entry.below (entry.node = .directory) with
  | some verdict => verdict == .ignored
  | none => settings.hidden && entry.below.getLast?.any (·.startsWith ".")

/-- A walk from `root` that respects ignore files.  It always starts at `root`, and further on
`keeps` decides about what is not passed over. -/
def respectingWalk (ws : Workspace) (settings : IgnoreSettings) (root : Place)
    (keeps : WalkEntry → Bool) : List WalkEntry :=
  ws.tree.walk root fun entry =>
    entry.below.isEmpty || (!ws.passesOver settings root entry && keeps entry)

end Workspace

end RequireLint
