import RequireLint.Path.Component
import RequireLint.Rule.Offense

/-!
# Reports

A run ends with a report on each inspected file.  The totals over all of them are part of the
text and of the JSON form.
-/

namespace RequireLint

structure FileReport where
  path : Text
  /-- The offenses left in it. -/
  offenses : List Offense
  /-- The number of corrections written to it. -/
  corrected : Nat
deriving Repr, DecidableEq

structure ReportTotals where
  files : Nat
  /-- Number of offenses left. -/
  offenses : Nat
  /-- Number of those that can be corrected. -/
  correctable : Nat
  /-- Number of corrections written. -/
  corrected : Nat
deriving Repr, DecidableEq

def ReportTotals.ofReports (reports : List FileReport) : ReportTotals :=
  let offenses := reports.flatMap (·.offenses)
  { files := reports.length
    offenses := offenses.length
    correctable := (offenses.filter (·.correction.isSome)).length
    corrected := (reports.map (·.corrected)).foldr Nat.add 0 }

inductive ReportFormat where
  /-- Lines for a reader. -/
  | text
  | json
  /-- The interchange format of static analysers. -/
  | sarif
deriving Repr, DecidableEq

/-- The format with a given name, in any case of letters. -/
def ReportFormat.ofName? (name : Text) : Option ReportFormat :=
  let name := name.toLowerAscii
  if name = "text" then some .text
  else if name = "json" then some .json
  else if name = "sarif" then some .sarif
  else none

def ReportFormat.unknownMessage (name : Text) : Text :=
  ("Unknown output format: " : Text) ++ name

end RequireLint
