import RequireLint.Config.Model
import RequireLint.Failure
import RequireLint.Rule.Specification
import RequireLint.Source.Directive.Reader

/-!
# Rule sets

A rule set holds the rules that run, in order.  It is made from the configuration and what the
command line adds to it.  Its offenses come in the order of the content.
-/

namespace RequireLint

/-- A rule that runs, with its setting. -/
structure ActiveRule where
  id : RuleId
  /-- Whether it leaves test code alone. -/
  allowInTests : Bool
deriving Repr, DecidableEq

namespace ActiveRule

def policy? (rule : ActiveRule) : Option Policy :=
  match rule.id with
  | .requireHardcodingLib => some .hardcodingLib
  | .requireRelativeHardcodingLib => some (.relativeHardcodingLib rule.allowInTests)
  | .relativeRequireToLib => some .textualRelativeLib
  | .requireWithRelativePath => some .textualRelativePath
  | .bundlerSetupInTests | .gemspecGit => none

def offenses (rule : ActiveRule) (unit : SourceUnit) : List Offense :=
  match rule.policy? with
  | some policy => policy.offenses rule.id unit
  | none =>
    match rule.id with
    | .bundlerSetupInTests => bundlerSetupOffenses unit
    | _ => Specification.offenses unit

end ActiveRule

/-- What the command line says about the rules. -/
structure RuleOverrides where
  /-- The rules to run, unless there are none. -/
  only : List RuleId
  disable : List RuleId
deriving Repr, DecidableEq

namespace RuleOverrides

def none : RuleOverrides := ⟨[], []⟩

/-- The overrides with the given identifiers. -/
def ofNames (only disable : List Text) : Except Failure RuleOverrides := do
  let parse (name : Text) : Except Failure RuleId :=
    match RuleId.ofName? name with
    | some id => .ok id
    | .none => .error (.unknownRule name)
  let only ← only.mapM parse
  let disable ← disable.mapM parse
  return ⟨only, disable⟩

def isEnabled (overrides : RuleOverrides) (config : Config) (id : RuleId) : Bool :=
  if overrides.disable.contains id then false
  else if overrides.only.isEmpty then config.isEnabled id
  else overrides.only.contains id

end RuleOverrides

/-- The rules that run, in order. -/
abbrev RuleSet := List ActiveRule

namespace RuleSet

def ids (rules : RuleSet) : List RuleId := rules.map (·.id)

def default : RuleSet := (RuleId.all.filter (·.enabledByDefault)).map fun id => ⟨id, false⟩

/-- The first name of a rule table that is not that of a rule. -/
def unknownName? (table : RuleTable) : Option Text :=
  (table.map (·.1)).find? fun name => (RuleId.ofName? name).isNone

/-- The rules that a configuration and the command line ask for. -/
def ofConfig (config : Config) (overrides : RuleOverrides) : Except Failure RuleSet :=
  match unknownName? config.rules with
  | some name => .error (.unknownRule name)
  | none =>
    .ok ((RuleId.all.filter (overrides.isEnabled config)).map fun id =>
      ⟨id, config.allowsInTests id⟩)

def offenses (rules : RuleSet) (unit : SourceUnit) : List Offense :=
  (rules.flatMap fun rule => rule.offenses unit).mergeSort Offense.le

/-- The offenses of a content as that of a file in a project. -/
def check (rules : RuleSet) (root file content : Text) : List Offense :=
  rules.offenses ⟨content, inclusionCalls content, .ofPaths root file⟩

end RuleSet

end RequireLint
