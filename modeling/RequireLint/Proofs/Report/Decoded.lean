import RequireLint.Proofs.Json.Reader
import RequireLint.Report.Sarif

/-!
# Decoded reports

The JSON and the SARIF form of a report are nested differently and leave out different things.  Each
of them has a decoder here that knows its layout and no more: where a field is looked up it has to
stand exactly once, and a value of another kind than expected is refused.  Both decoders return the
findings of the reports, in order.
-/

namespace RequireLint

namespace Json

/-- The values of the fields with a name. -/
def valuesOf (name : Text) : Json → List Json
  | object fields => (fields.filter fun field => field.1 = name).map (·.2)
  | _ => []

/-- The value of a field that stands in an object exactly once. -/
def field (name : Text) (value : Json) : Option Json :=
  match value.valuesOf name with
  | [found] => some found
  | _ => none

/-- What a field stands for, if an object has the field.  It must not stand there twice. -/
def optionalField {α : Type} (decode : Json → Option α) (name : Text) (value : Json) :
    Option (Option α) :=
  match value.valuesOf name with
  | [] => some none
  | [found] => (decode found).map some
  | _ => none

/-- The value at the end of some fields, each of them in the value of the one before it. -/
def fieldAt (names : List Text) (value : Json) : Option Json :=
  names.foldlM (fun found name => found.field name) value

def text? : Json → Option Text
  | string text => some text
  | _ => none

def count? : Json → Option Nat
  | number n => some n
  | _ => none

def values? : Json → Option (List Json)
  | array values => some values
  | _ => none

end Json

def Correction.ofJson? (value : Json) : Option Correction := do
  let kind ← (← value.field "kind").text?
  if kind = "replace" then return .replace (← (← value.field "text").text?)
  else if kind = "remove" then return .remove
  else none

/-- What is told of one offense. -/
structure Finding where
  path : Text
  rule : Text
  message : Text
  line : Nat
  column : Nat
  source : Text
  correction : Option Correction
deriving Repr, DecidableEq

/-- The finding that an offense in a file is. -/
def Offense.finding (path : Text) (offense : Offense) : Finding where
  path := path
  rule := offense.rule.name
  message := offense.rule.message
  line := offense.span.line
  column := offense.span.column
  source := offense.source
  correction := offense.correction

def FileReport.findings (base : Option Text) (report : FileReport) : List Finding :=
  report.offenses.map (Offense.finding (Path.display report.path base))

/-! ## Decoders -/

namespace JsonReport

def finding? (path : Text) (offense : Json) : Option Finding := do
  let rule ← (← offense.field "rule").text?
  let message ← (← offense.field "message").text?
  let line ← (← offense.field "line").count?
  let column ← (← offense.field "column").count?
  let source ← (← offense.field "source").text?
  let correction ← offense.optionalField Correction.ofJson? "correction"
  return { path, rule, message, line, column, source, correction }

def fileFindings? (file : Json) : Option (List Finding) := do
  let path ← (← file.field "path").text?
  (← (← file.field "offenses").values?).mapM (finding? path)

/-- The findings of all files, file by file. -/
def findings? (output : Json) : Option (List Finding) := do
  return (← (← (← output.field "files").values?).mapM fileFindings?).flatten

def totals? (output : Json) : Option ReportTotals := do
  let summary ← output.field "summary"
  let files ← (← summary.field "files").count?
  let offenses ← (← summary.field "offenses").count?
  let correctable ← (← summary.field "correctable").count?
  let corrected ← (← summary.field "corrected").count?
  return { files, offenses, correctable, corrected }

end JsonReport

namespace SarifReport

/-- The value of a list with one value. -/
def only? (list : Json) : Option Json :=
  match list with
  | .array [value] => some value
  | _ => none

def run? (log : Json) : Option Json := do only? (← log.field "runs")

def results? (log : Json) : Option (List Json) := do (← (← run? log).field "results").values?

/-- The rules of the driver. -/
def rules? (log : Json) : Option (List Json) := do
  (← (← run? log).fieldAt ["tool", "driver", "rules"]).values?

def id? (rule : Json) : Option Text := do (← rule.field "id").text?

def ruleId? (result : Json) : Option Text := do (← result.field "ruleId").text?

def ruleIndex? (result : Json) : Option Nat := do (← result.field "ruleIndex").count?

/-- The rule of the driver that a result points at is the one that it names. -/
def PointsAtRule (rules : List Json) (result : Json) : Prop :=
  ∃ index name rule, ruleIndex? result = some index ∧ ruleId? result = some name ∧
    rules[index]? = some rule ∧ id? rule = some name

def propertiesCorrection? (properties : Json) : Option Correction := do
  Correction.ofJson? (← properties.field "correction")

def finding? (result : Json) : Option Finding := do
  let place ← (← only? (← result.field "locations")).field "physicalLocation"
  let path ← (← place.fieldAt ["artifactLocation", "uri"]).text?
  let rule ← ruleId? result
  let message ← (← result.fieldAt ["message", "text"]).text?
  let line ← (← place.fieldAt ["region", "startLine"]).count?
  let column ← (← place.fieldAt ["region", "startColumn"]).count?
  let source ← (← place.fieldAt ["region", "snippet", "text"]).text?
  let correction ← result.optionalField propertiesCorrection? "properties"
  return { path, rule, message, line, column, source, correction }

def findings? (log : Json) : Option (List Finding) := do (← results? log).mapM finding?

end SarifReport

/-! ## What is decoded -/

theorem mapM_map_eq_some {α β γ : Type} {encode : α → β} {decode : β → Option γ} {f : α → γ}
    (h : ∀ a, decode (encode a) = some (f a)) (l : List α) :
    (l.map encode).mapM decode = some (l.map f) := by
  have hcomp : decode ∘ encode = fun a => pure (f a) := funext h
  rw [List.mapM_map, hcomp, List.mapM_pure]
  rfl

theorem Correction.ofJson?_toJson (correction : Correction) :
    ofJson? correction.toJson = some correction := by
  cases correction <;> rfl

namespace JsonReport

theorem finding?_offenseJson (path : Text) (offense : Offense) :
    finding? path (offenseJson offense) = some (offense.finding path) := by
  obtain ⟨rule, span, source, correction⟩ := offense
  cases correction with
  | none => rfl
  | some correction =>
      have hfield : (offenseJson ⟨rule, span, source, some correction⟩).optionalField
          Correction.ofJson? "correction" = (Correction.ofJson? correction.toJson).map some := rfl
      rw [Correction.ofJson?_toJson] at hfield
      rw [finding?, hfield]
      rfl

theorem fileFindings?_fileJson (base : Option Text) (report : FileReport) :
    fileFindings? (fileJson base report) = some (report.findings base) :=
  mapM_map_eq_some (finding?_offenseJson (Path.display report.path base)) report.offenses

theorem findings?_toJson (base : Option Text) (reports : List FileReport) :
    findings? (toJson base reports) = some (reports.flatMap (·.findings base)) := by
  have hfield : (toJson base reports).field "files" =
      some (.array (reports.map (fileJson base))) := rfl
  have hfiles := mapM_map_eq_some (fileFindings?_fileJson base) reports
  rw [findings?, hfield, List.flatMap_def]
  simp only [Option.bind_eq_bind, Option.bind_some, Json.values?, hfiles]
  rfl

theorem totals?_toJson (base : Option Text) (reports : List FileReport) :
    totals? (toJson base reports) = some (.ofReports reports) := rfl

end JsonReport

namespace SarifReport

theorem finding?_resultJson (path : Text) (offense : Offense) :
    finding? (resultJson path offense) = some (offense.finding path) := by
  obtain ⟨rule, span, source, correction⟩ := offense
  cases correction with
  | none => rfl
  | some correction =>
      have hfield : (resultJson path ⟨rule, span, source, some correction⟩).optionalField
          propertiesCorrection? "properties" =
            (Correction.ofJson? correction.toJson).map some := rfl
      rw [Correction.ofJson?_toJson] at hfield
      rw [finding?, hfield]
      rfl

/-- The results are those of the offenses, one for each. -/
theorem results?_toJson (base : Option Text) (reports : List FileReport) :
    results? (toJson base reports) = some (reports.flatMap fun report =>
      report.offenses.map (resultJson (Path.display report.path base))) := rfl

theorem mapM_finding?_results (base : Option Text) (reports : List FileReport) :
    (reports.flatMap fun report =>
      report.offenses.map (resultJson (Path.display report.path base))).mapM finding? =
      some (reports.flatMap (·.findings base)) := by
  induction reports with
  | nil => rfl
  | cons report reports ih =>
      have hfirst := mapM_map_eq_some (finding?_resultJson (Path.display report.path base))
        report.offenses
      rw [List.flatMap_cons, List.mapM_append, hfirst, ih]
      rfl

theorem findings?_toJson (base : Option Text) (reports : List FileReport) :
    findings? (toJson base reports) = some (reports.flatMap (·.findings base)) :=
  mapM_finding?_results base reports

theorem rules?_toJson (base : Option Text) (reports : List FileReport) :
    rules? (toJson base reports) = some (RuleId.all.map ruleJson) := rfl

theorem pointsAtRule_resultJson (path : Text) (offense : Offense) :
    PointsAtRule (RuleId.all.map ruleJson) (resultJson path offense) := by
  obtain ⟨rule, span, source, correction⟩ := offense
  refine ⟨rule.index, rule.name, ruleJson rule, ?_, ?_, ?_, rfl⟩
  · cases correction <;> rfl
  · cases correction <;> rfl
  · cases rule <;> rfl

end SarifReport

end RequireLint
