import RequireLint.Report.Basic
import RequireLint.Report.Color

/-!
# Reports for a reader

Each file with offenses has a block of lines, and a summary closes the report.  A clean file
is mentioned when something was corrected in it or when more detail is wanted.
-/

namespace RequireLint.PlainReport

structure Layout where
  useColors : Bool
  /-- How much detail is wanted. -/
  verbosity : Nat
deriving Repr, DecidableEq

def line (parts : List Text) : Text := parts.flatten ++ ("\n" : Text)

def offenseLines (layout : Layout) (offense : Offense) : Text :=
  let paint := paint layout.useColors
  let location := Text.ofNat offense.span.line ++ (":" : Text) ++ Text.ofNat offense.span.column
  line ["  ", paint .dim location, " ",
      paint .yellow (("[" : Text) ++ offense.rule.name ++ ("]" : Text)), " ",
      offense.rule.message] ++
    line ["    ", offense.source] ++
    match offense.correction with
    | some (.replace text) => line ["    ", paint .green "fix:", " ", text]
    | some .remove => line ["    ", paint .green "fix:", " remove"]
    | none => []

def fileLines (layout : Layout) (base : Option Text) (report : FileReport) : Text :=
  let paint := paint layout.useColors
  let path := Path.display report.path base
  (if report.offenses.isEmpty then line [paint .green "✓", " ", path]
    else line [paint .bold path] ++ report.offenses.flatMap (offenseLines layout)) ++
    (if 0 < report.corrected then
      line ["  corrected ", Text.ofNat report.corrected, " offense(s)"]
    else [])

def summary (layout : Layout) (totals : ReportTotals) : Text :=
  let paint := paint layout.useColors
  line ["Summary: ", Text.ofNat totals.files, " files inspected, ",
    paint (if totals.offenses = 0 then .green else .red) (Text.ofNat totals.offenses),
    " offenses, ", Text.ofNat totals.correctable, " correctable",
    if 0 < totals.corrected then
      (", " : Text) ++ paint .green (Text.ofNat totals.corrected) ++ (" corrected" : Text)
    else []]

def isShown (layout : Layout) (report : FileReport) : Bool :=
  !report.offenses.isEmpty || 0 < report.corrected || 1 ≤ layout.verbosity

def render (layout : Layout) (base : Option Text) (reports : List FileReport) : Text :=
  ((reports.filter (isShown layout)).flatMap fun report =>
      fileLines layout base report ++ ("\n" : Text)) ++
    summary layout (.ofReports reports)

end RequireLint.PlainReport
