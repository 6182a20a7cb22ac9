import RequireLint.Config.Model
import RequireLint.Failure
import RequireLint.Glob.Match
import RequireLint.Path.Component

/-!
# File filters

A filter takes the files with certain extensions or names, less those that a pattern excludes.
It looks at paths relative to the directory that is scanned.
-/

namespace RequireLint

structure FileFilter where
  extensions : List Text
  fileNames : List Text
  excludes : List Glob

namespace FileFilter

def readPattern (pattern : Text) : Except Failure Glob :=
  match Glob.ofText .exclude pattern with
  | .ok glob => .ok glob
  | .error cause => .error (.invalidPattern pattern cause)

/-- The filter with given extensions, names and patterns. -/
def ofPatterns (extensions fileNames patterns : List Text) : Except Failure FileFilter :=
  (patterns.mapM readPattern).map fun excludes => ⟨extensions, fileNames, excludes⟩

/-- The filter of the scanner settings, with more patterns to exclude. -/
def ofConfig (scanner : ScannerConfig) (extra : List Text) : Except Failure FileFilter :=
  ofPatterns scanner.extensions scanner.fileNames (scanner.exclude ++ extra)

/-- Whether a path has one of the extensions or names.  Without any of either, every path has. -/
def isCandidate (filter : FileFilter) (path : Text) : Bool :=
  (filter.extensions.isEmpty && filter.fileNames.isEmpty) ||
    (Path.extension? path).any (filter.extensions.contains ·) ||
    (Path.fileName? path).any (filter.fileNames.contains ·)

def isExcluded (filter : FileFilter) (path : Text) : Bool :=
  filter.excludes.any (·.isMatch path)

def accepts (filter : FileFilter) (path : Text) : Bool :=
  filter.isCandidate path && !filter.isExcluded path

end FileFilter

end RequireLint
