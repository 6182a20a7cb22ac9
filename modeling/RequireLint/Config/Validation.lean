import RequireLint.Config.Model
import RequireLint.Scan.Filter

/-!
# Validating configurations

A configuration can be well formed and still ask for what makes no sense.  The first such thing
is reported: of the rules in the order of their names, then of the patterns, then of the rest.
-/

namespace RequireLint.Config

/-- The wording for a rule that cannot be told to leave test code alone. -/
def unsupportedOption (name : Text) : Text :=
  ("rules." : Text) ++ name ++
    (": allow_in_test_directories is only supported by " : Text) ++
    RuleId.requireRelativeHardcodingLib.name

/-- The wording for scanner settings that take no file. -/
def nothingInspected : Text :=
  "scanner: extensions and file_names are both empty, no file would be inspected"

def validateRule (name : Text) (rule : RuleConfig) : Except Failure Unit :=
  match RuleId.ofName? name with
  | none => .error (.unknownRule name)
  | some id =>
    if rule.allowInTests.isSome && !id.allowsTestDirectories then
      .error (.config (unsupportedOption name))
    else .ok ()

/-- Checks a configuration. -/
def validate (config : Config) : Except Failure Unit := do
  config.rules.forM fun entry => validateRule entry.1 entry.2
  config.scanner.exclude.forM fun pattern => (FileFilter.readPattern pattern).map fun _ => ()
  if config.scanner.extensions.isEmpty && config.scanner.fileNames.isEmpty then
    .error (.config nothingInspected)

end RequireLint.Config
