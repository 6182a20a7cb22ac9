import RequireLint.Json
import RequireLint.Report.Basic

/-!
# Reports as JSON

The totals, then each file with its offenses.  What an offense has no value for is left out.
-/

namespace RequireLint

def Correction.toJson : Correction → Json
  | replace text => .object [("kind", .string "replace"), ("text", .string text)]
  | remove => .object [("kind", .string "remove")]

namespace JsonReport

def offenseJson (offense : Offense) : Json :=
  .record
    [("rule", .string offense.rule.name),
      ("message", .string offense.rule.message),
      ("line", .number offense.span.line),
      ("column", .number offense.span.column),
      ("source", .string offense.source)]
    [("correction", offense.correction.map (·.toJson))]

def fileJson (base : Option Text) (report : FileReport) : Json :=
  .object
    [("path", .string (Path.display report.path base)),
      ("corrected", .number report.corrected),
      ("offenses", .array (report.offenses.map offenseJson))]

def totalsJson (totals : ReportTotals) : Json :=
  .object
    [("files", .number totals.files),
      ("offenses", .number totals.offenses),
      ("correctable", .number totals.correctable),
      ("corrected", .number totals.corrected)]

def toJson (base : Option Text) (reports : List FileReport) : Json :=
  .object
    [("summary", totalsJson (.ofReports reports)),
      ("files", .array (reports.map (fileJson base)))]

end JsonReport

end RequireLint
