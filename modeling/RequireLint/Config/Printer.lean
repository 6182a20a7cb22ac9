import RequireLint.Config.Model
import RequireLint.Json
import RequireLint.Toml.Printer

/-!
# Showing configurations

A configuration is shown with the state of every rule that results from it, or as a TOML or JSON
document of what is set in it.
-/

namespace RequireLint

/-- The entry of a setting that has a value. -/
def optionalLine (key : Text) (value : Option Bool) : Text :=
  match value with
  | none => []
  | some b => Toml.settingLine key (Toml.ofBool b)

namespace RuleConfig

def tomlLines (rule : RuleConfig) : Text :=
  optionalLine "enabled" rule.enabled ++
    optionalLine "allow_in_test_directories" rule.allowInTests

def toJson (rule : RuleConfig) : Json :=
  .record []
    [("enabled", rule.enabled.map .bool),
      ("allow_in_test_directories", rule.allowInTests.map .bool)]

end RuleConfig

namespace ScannerConfig

def tomlLines (scanner : ScannerConfig) : Text :=
  Toml.settingLine "gitignore" (Toml.ofBool scanner.gitignore) ++
    Toml.settingLine "extensions" (Toml.quotedStrings scanner.extensions) ++
    Toml.settingLine "file_names" (Toml.quotedStrings scanner.fileNames) ++
    Toml.settingLine "exclude" (Toml.quotedStrings scanner.exclude)

def toJson (scanner : ScannerConfig) : Json :=
  .object
    [("gitignore", .bool scanner.gitignore),
      ("extensions", .strings scanner.extensions),
      ("file_names", .strings scanner.fileNames),
      ("exclude", .strings scanner.exclude)]

def textLines (scanner : ScannerConfig) : Text :=
  ("  gitignore = " : Text) ++ Toml.ofBool scanner.gitignore ++
    ("\n  extensions = " : Text) ++ Text.quotedList scanner.extensions ++
    ("\n  file_names = " : Text) ++ Text.quotedList scanner.fileNames ++
    (if scanner.exclude.isEmpty then []
      else ("\n  exclude = " : Text) ++ Text.quotedList scanner.exclude) ++
    ("\n" : Text)

end ScannerConfig

namespace Config

/-- The part of a TOML document that sets the rules. -/
def rulesToml (rules : RuleTable) : Text :=
  if rules.isEmpty then "\n[rules]\n"
  else
    rules.flatMap fun (name, rule) =>
      ("\n[rules." : Text) ++ Toml.quotedKey name ++ ("]\n" : Text) ++ rule.tomlLines

def toToml (config : Config) : Text :=
  (match config.version with
    | none => []
    | some version => Toml.settingLine "version" (Toml.quoted version) ++ ("\n" : Text)) ++
    ("[scanner]\n" : Text) ++ config.scanner.tomlLines ++ rulesToml config.rules

def toJson (config : Config) : Json :=
  let settings : List (Text × Json) :=
    [("scanner", config.scanner.toJson),
      ("rules", .object (config.rules.map fun (name, rule) => (name, rule.toJson)))]
  match config.version with
  | none => .object settings
  | some version => .object (("version", .string version) :: settings)

/-- The state of a rule, as lines for a reader. -/
def ruleText (config : Config) (id : RuleId) : Text :=
  ("\n[rules." : Text) ++ id.name ++ ("]\n  enabled = " : Text) ++
    Toml.ofBool (config.isEnabled id) ++ ("\n" : Text) ++
    (if id.allowsTestDirectories then
      ("  allow_in_test_directories = " : Text) ++ Toml.ofBool (config.allowsInTests id) ++
        ("\n" : Text)
    else [])

/-- A configuration with the state of every rule. -/
def toText (config : Config) : Text :=
  ("=== Effective Configuration ===\n\n[scanner]\n" : Text) ++ config.scanner.textLines ++
    RuleId.all.flatMap config.ruleText

end Config

end RequireLint
