import RequireLint.Report.Plain
import RequireLint.Report.Sarif

/-!
# Reports in any format
-/

namespace RequireLint

def ReportFormat.render (format : ReportFormat) (layout : PlainReport.Layout)
    (base : Option Text) (reports : List FileReport) : Text :=
  match format with
  | text => PlainReport.render layout base reports
  | json => (JsonReport.toJson base reports).render
  | sarif => (SarifReport.toJson base reports).render

end RequireLint
