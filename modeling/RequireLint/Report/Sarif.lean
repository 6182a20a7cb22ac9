import RequireLint.Report.Json

/-!
# Reports as SARIF

The interchange format of static analysers has one list of results, which point at the rules
by their position in the list of rules.
-/

namespace RequireLint

def programName : Text := "packaging-guard"

def programVersion : Text := "0.1.0"

namespace SarifReport

def schema : Text :=
  "https://raw.githubusercontent.com/oasis-tcs/sarif-spec/master/Schemata/sarif-schema-2.1.0.json"

def messageJson (text : Text) : Json := .object [("text", .string text)]

def ruleJson (id : RuleId) : Json :=
  .object
    [("id", .string id.name),
      ("shortDescription", messageJson id.description),
      ("fullDescription", messageJson id.message),
      ("defaultConfiguration",
        .object [("enabled", .bool id.enabledByDefault), ("level", .string "warning")])]

def locationJson (uri : Text) (offense : Offense) : Json :=
  .object
    [("physicalLocation",
      .object
        [("artifactLocation",
            .object [("uri", .string uri), ("uriBaseId", .string "%SRCROOT%")]),
          ("region",
            .object
              [("startLine", .number offense.span.line),
                ("startColumn", .number offense.span.column),
                ("snippet", messageJson offense.source)])])]

def resultJson (uri : Text) (offense : Offense) : Json :=
  .record
    [("ruleId", .string offense.rule.name),
      ("ruleIndex", .number offense.rule.index),
      ("level", .string "warning"),
      ("message", messageJson offense.rule.message),
      ("locations", .array [locationJson uri offense])]
    [("properties",
      offense.correction.map fun correction => .object [("correction", correction.toJson)])]

def toJson (base : Option Text) (reports : List FileReport) : Json :=
  .object
    [("$schema", .string schema),
      ("version", .string "2.1.0"),
      ("runs", .array
        [.object
          [("tool", .object
              [("driver", .object
                [("name", .string programName),
                  ("version", .string programVersion),
                  ("rules", .array (RuleId.all.map ruleJson))])]),
            ("results", .array (reports.flatMap fun report =>
              report.offenses.map (resultJson (Path.display report.path base))))]])]

end SarifReport

end RequireLint
