import RequireLint.Command.Outcome
import RequireLint.Correction
import RequireLint.Project.Root
import RequireLint.Report.Render
import RequireLint.Rule.Set
import RequireLint.Scan.Walk

/-!
# Checking files

A check settles the configuration and the rules, selects the files, checks each of them by
itself, and reports.  Corrections are written to the files they belong to and nowhere else.  A file
that cannot be read or written is passed over with a warning.
-/

namespace RequireLint

namespace Scanner

/-- The files that a path stands for: the file itself, or those of a scan. -/
def filesAt (scanner : Scanner) (ws : Workspace) (path : Text) : List Place :=
  match ws.tree.locate ws.current path with
  | .error _ => []
  | .ok place =>
    match ws.tree.node? place with
    | some (.file _) => [place]
    | some .directory => (scanner.scan ws place).map (place ++ ·)
    | none => []

def collect (scanner : Scanner) (ws : Workspace) (paths : List Text) : List Place :=
  Place.distinct (Place.sorted (paths.flatMap (scanner.filesAt ws)))

end Scanner

/-- What came of one file, and the text to write to it if it was corrected. -/
structure FileResult where
  report : FileReport
  corrected : Option Text
deriving Repr, DecidableEq

namespace Workspace

/-- The project root of the file at a path: the one that was named, or the one found by its
markers. -/
def rootFor (ws : Workspace) (named : Option Text) (path : Text) : Text :=
  match named with
  | some root => ws.tree.absolute ws.current root
  | none => ws.projectRoot ws.currentPath path

/-- Checks one file.  It is corrected if that is asked for and any offense can be corrected; the
offenses are then those of the corrected text.  This fails if the file cannot be read, or cannot
be written to when it is to be corrected. -/
def checkFile (ws : Workspace) (rules : RuleSet) (root : Option Text) (fix : Bool)
    (place : Place) : Except Failure FileResult :=
  let path := place.toText
  match ws.tree.readPlace place with
  | .error cause => .error (.fileRead path cause)
  | .ok content =>
    let check (text : Text) : List Offense := rules.check (ws.rootFor root path) path text
    let offenses := check content
    if fix && offenses.any (·.correction.isSome) then
      let (text, applied) := Correction.applyAll content offenses
      match ws.tree.writePlace place text with
      | .error cause => .error (.fileWrite path cause)
      | .ok _ => .ok ⟨⟨path, check text, applied⟩, some text⟩
    else .ok ⟨⟨path, offenses, 0⟩, none⟩

end Workspace

/-- What came of the files of a check, in order. -/
abbrev CheckResults := List (Place × Except Failure FileResult)

namespace CheckResults

/-- The files that could not be read or written, with the reason. -/
def skipped (results : CheckResults) : List (Place × Failure) :=
  results.filterMap fun entry =>
    match entry.2 with
    | .ok _ => none
    | .error failure => some (entry.1, failure)

/-- The reports on the files that have been checked. -/
def reports (results : CheckResults) : List FileReport :=
  results.filterMap fun entry =>
    match entry.2 with
    | .ok result => some result.report
    | .error _ => none

/-- A tree after the corrections have been written to it.  Where the tree refuses that, it stays
as it is. -/
def writeTo (results : CheckResults) (tree : FileTree) : FileTree :=
  results.foldl (fun tree entry =>
    match entry.2 with
    | .ok ⟨_, some text⟩ => (tree.writePlace entry.1 text).toOption.getD tree
    | _ => tree) tree

end CheckResults

namespace CheckOptions

/-- The warning that no rule runs. -/
def nothingToCheck : Notice := ⟨"No rules enabled; nothing to check", none, none⟩

/-- The warning about a path that leads nowhere. -/
def notFound (path : Text) : Notice :=
  ⟨("Path not found: " : Text) ++ path, none,
    some "Check the paths passed to `packaging-guard check`"⟩

/-- The warning about a file that cannot be read or written. -/
def passedOver (ws : Workspace) (entry : Place × Failure) : Notice :=
  ⟨("Skipped " : Text) ++ Path.display entry.1.toText (some ws.currentPath),
    some (entry.2.detail?.getD entry.2.message), none⟩

def rules (options : CheckOptions) (config : Config) : Except Failure RuleSet := do
  let overrides ←
    RuleOverrides.ofNames (options.only.map Text.trim) (options.disable.map Text.trim)
  RuleSet.ofConfig config overrides

/-- How directories are scanned, given the configuration. -/
def scanner (options : CheckOptions) (config : Config) : Except Failure Scanner :=
  (FileFilter.ofConfig config.scanner options.exclude).map fun filter =>
    ⟨filter, config.scanner.gitignore⟩

/-- The warnings about paths that lead nowhere. -/
def missingPaths (options : CheckOptions) (ws : Workspace) : Text :=
  let found (path : Text) : Option Node :=
    (ws.tree.locate ws.current path).toOption.bind ws.tree.node?
  (options.paths.filter fun path => (found path).isNone).flatMap fun path =>
    ws.warning (notFound (ws.tree.absolute ws.current path))

/-- The tree after the directory of a report file has been made, and why it could not be, if
so. -/
def makeReportDirectory (tree : FileTree) (current : Place) (path : Text) :
    FileTree × Option FileError :=
  match Path.parent? path with
  | none | some [] => (tree, none)
  | some dir => tree.makeDirectories current dir

/-- Writes a report to the file that is named for it, whose directory is made if need be.  The
tree is what has become of the files, also when that fails. -/
def writeReport (tree : FileTree) (current : Place) (path report : Text) :
    FileTree × Option Failure :=
  match makeReportDirectory tree current path with
  | (tree, some cause) => (tree, some (.io cause))
  | (tree, none) =>
    match tree.write current path report with
    | .ok written => (written, none)
    | .error cause => (tree, some (.fileWrite path cause))

/-- The configuration of a check and the rules that run. -/
def settle (options : CheckOptions) (ws : Workspace) (call : Invocation) :
    Except Failure (Config × RuleSet) := do
  let loaded ← ws.loadConfig call.skipConfig options.config
  let rules ← options.rules loaded.config
  return (loaded.config, rules)

/-- What comes of the files of a check. -/
def results (options : CheckOptions) (ws : Workspace) (rules : RuleSet) (scanner : Scanner) :
    CheckResults :=
  (scanner.collect ws options.paths).map fun place =>
    (place, ws.checkFile rules options.root options.fix place)

/-- The rest of a check once the configuration, the rules and the scanner are settled. -/
def attemptWith (options : CheckOptions) (ws : Workspace) (call : Invocation) (rules : RuleSet)
    (scanner : Scanner) (warnings : Text) : Attempt :=
  let results := options.results ws rules scanner
  let tree := results.writeTo ws.tree
  let reports := results.reports
  let layout : PlainReport.Layout :=
    ⟨call.color.useColors ws.outIsTerminal ws.forbidsColors, call.verbosity⟩
  let report := options.format.render layout (some ws.currentPath) reports
  let err := warnings ++ options.missingPaths ws ++
    results.skipped.flatMap fun entry => ws.warning (passedOver ws entry)
  let code :=
    if (reports.any fun report => !report.offenses.isEmpty) && !options.warnOnly then offensesCode
    else successCode
  match options.output with
  | none => ⟨tree, if call.quiet then [] else report, err, .ok code⟩
  | some path =>
    let (written, problem) := writeReport tree ws.current path report
    ⟨written, [], err, problem.elim (.ok code) .error⟩

/-- Carries out a check, which may fail. -/
def attempt (options : CheckOptions) (ws : Workspace) (call : Invocation) : Attempt :=
  match options.settle ws call with
  | .error failure => ⟨ws.tree, [], [], .error failure⟩
  | .ok (config, rules) =>
    let warnings := if rules.isEmpty then ws.warning nothingToCheck else []
    match options.scanner config with
    | .error failure => ⟨ws.tree, [], warnings, .error failure⟩
    | .ok scanner => options.attemptWith ws call rules scanner warnings

def run (options : CheckOptions) (ws : Workspace) (call : Invocation) : Outcome :=
  (options.attempt ws call).outcome ws call

end CheckOptions

end RequireLint
