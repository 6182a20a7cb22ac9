import RequireLint.File.Content
import RequireLint.Glob.Match
import RequireLint.Text.Blank

/-!
# Ignore files

Each line of an ignore file is a rule on the paths below the directory of the file.  The last
rule that fits a path decides about it.
-/

namespace RequireLint

/-- What the ignore files say about a path. -/
inductive Verdict where
  /-- It is to be passed over. -/
  | ignored
  /-- It is to be kept, whatever other files say. -/
  | kept
deriving Repr, DecidableEq

structure IgnoreRule where
  glob : Glob
  verdict : Verdict
  /-- Whether it is about directories only. -/
  directoriesOnly : Bool

namespace IgnoreRule

/-- A line without the blanks at its end, unless a backslash protects the last of them. -/
def trimLine (line : Text) : Text :=
  if line.endsWith "\\ " then line else Text.trimEnd line

/-- The verdict of a line, the pattern after its marks, and whether it is tied to the directory
of the file. -/
def splitMarks (line : Text) : Verdict × Text × Bool :=
  match line with
  | '\\' :: '!' :: rest => (.ignored, '!' :: rest, false)
  | '\\' :: '#' :: rest => (.ignored, '#' :: rest, false)
  | '!' :: '/' :: rest => (.kept, rest, true)
  | '!' :: rest => (.kept, rest, false)
  | '/' :: rest => (.ignored, rest, true)
  | _ => (.ignored, line, false)

/-- A pattern without the slash at its end, which ties it to directories, and whether it had
one.  A backslash before the slash goes with it. -/
def splitSlash (pattern : Text) : Text × Bool :=
  match pattern.reverse with
  | '/' :: '\\' :: rest => (rest.reverse, true)
  | '/' :: rest => (rest.reverse, true)
  | _ => (pattern, false)

/-- The glob pattern of a rule.  A pattern without a slash fits at any depth, and one for all
that is below a directory does not fit the directory. -/
def globText (anchored : Bool) (pattern : Text) : Text :=
  let deep := !anchored && !Text.contains pattern "/" && pattern != "**"
  let placed : Text := if deep then ("**/" : Text) ++ pattern else pattern
  if Text.endsWith placed "/**" then placed ++ ("/*" : Text) else placed

/-- The rule on a line.  Comments, blank lines and patterns that make no sense have none. -/
def ofLine? (line : Text) : Option IgnoreRule :=
  if line.startsWith "#" then none
  else
    let line := trimLine line
    if line.isEmpty then none
    else
      let (verdict, marked, anchored) := splitMarks line
      let (pattern, directoriesOnly) := splitSlash marked
      match Glob.ofText .ignoreFile (globText anchored pattern) with
      | .ok glob => some ⟨glob, verdict, directoriesOnly⟩
      | .error _ => none

/-- A line without the carriage return before its line feed. -/
def dropReturn (line : Text) : Text :=
  if line.endsWith "\r" then line.dropLast else line

def lines (content : Text) : List Text :=
  let parts := content.splitOn '\n'
  parts.dropLast.map dropReturn ++ (parts.getLast?.filter (!·.isEmpty)).toList

/-- The rules of an ignore file.  Marks of the byte order at its start do not count. -/
def ofContent (content : FileContent) : List IgnoreRule :=
  (lines (content.leadingText.dropWhile (· = '\ufeff'))).filterMap ofLine?

/-- What some rules say about a path. -/
def decide? (rules : List IgnoreRule) (path : Text) (isDirectory : Bool) : Option Verdict :=
  (rules.reverse.find? fun rule =>
    (isDirectory || !rule.directoriesOnly) && rule.glob.isMatch path).map (·.verdict)

end IgnoreRule

end RequireLint
