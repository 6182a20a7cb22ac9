import RequireLint.Scan.Filter
import RequireLint.Scan.Respect

/-!
# Scanning directories

A scan lists the files at or below a directory, as places relative to it and in order.  There are
two kinds of scan, each with a walk of its own: one that only turns away from the directories of
the version control, and one that respects ignore files as well.
-/

namespace RequireLint

structure Scanner where
  filter : FileFilter
  /-- Whether ignore files are respected. -/
  respectsIgnoreFiles : Bool

namespace Scanner

/-- Whether the last name on the way to an entry is that of the version control. -/
def isVersionControl (root : Place) (entry : WalkEntry) : Bool :=
  (root ++ entry.below).getLast? == some versionControlName

/-- The path of an entry, if it is a file that the filter accepts. -/
def listed? (scanner : Scanner) (entry : WalkEntry) : Option Place :=
  match entry.node with
  | .file _ => if scanner.filter.accepts entry.below.toRelative then some entry.below else none
  | .directory => none

/-- The files among what a walk has come to, if the filter accepts them. -/
def accepted (scanner : Scanner) (entries : List WalkEntry) : List Place :=
  entries.filterMap scanner.listed?

/-- What is found without a look at ignore files.  The walk starts at `root` whatever its name. -/
def scanPlainly (scanner : Scanner) (ws : Workspace) (root : Place) : List Place :=
  scanner.accepted <| ws.tree.walk root fun entry =>
    entry.below.length == 0 || !isVersionControl root entry

/-- The settings of a scan that respects ignore files.  Hidden files are scanned, what lies above
the directory has no say, and ignore files count outside of repositories, too. -/
def ignoreSettings : IgnoreSettings :=
  { IgnoreSettings.standard with
    gitIgnore := true
    gitGlobal := true
    gitExclude := true
    requireGit := false
    hidden := false
    parents := false }

/-- What is found when ignore files are respected. -/
def scanRespectfully (scanner : Scanner) (ws : Workspace) (root : Place) : List Place :=
  scanner.accepted <| ws.respectingWalk ignoreSettings root fun entry =>
    !isVersionControl root entry

/-- The files of a scan of `root`, relative to it and in order. -/
def scan (scanner : Scanner) (ws : Workspace) (root : Place) : List Place :=
  Place.sorted <|
    if scanner.respectsIgnoreFiles then scanner.scanRespectfully ws root
    else scanner.scanPlainly ws root

/-- The paths of a scan of the directory that a path leads to, in order. -/
def scanPath (scanner : Scanner) (ws : Workspace) (path : Text) : List Text :=
  match ws.tree.resolve ws.current path with
  | .error _ => []
  | .ok root =>
    (scanner.scan ws root).map fun below =>
      if below.isEmpty then path else Path.join path below.toRelative

end Scanner

end RequireLint
