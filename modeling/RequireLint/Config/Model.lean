import RequireLint.Rule.Id

/-!
# Configurations

A configuration says which files are inspected and how the rules are set.  What it leaves out
has a default.
-/

namespace RequireLint

/-- Which files of a directory are inspected. -/
structure ScannerConfig where
  /-- Whether ignore files are respected. -/
  gitignore : Bool
  extensions : List Text
  /-- The file names to inspect whatever their extension. -/
  fileNames : List Text
  exclude : List Text
deriving Repr, DecidableEq

def ScannerConfig.default : ScannerConfig where
  gitignore := true
  extensions := ["rb", "gemspec", "rake", "ru"]
  fileNames := ["Gemfile", "Rakefile", "Guardfile"]
  exclude := []

structure RuleConfig where
  enabled : Option Bool
  /-- Whether the rule leaves test code alone. -/
  allowInTests : Option Bool
deriving Repr, DecidableEq

/-- The settings of the rules, by name in increasing order. -/
abbrev RuleTable := List (Text × RuleConfig)

namespace RuleTable

def insert (name : Text) (rule : RuleConfig) : RuleTable → RuleTable
  | [] => [(name, rule)]
  | (key, value) :: rest =>
    if key = name then (name, rule) :: rest
    else if Text.le name key then (name, rule) :: (key, value) :: rest
    else (key, value) :: insert name rule rest

/-- The table with the given settings.  Of two settings of one rule the later counts. -/
def ofList (settings : List (Text × RuleConfig)) : RuleTable :=
  settings.foldl (fun table (name, rule) => insert name rule table) []

def get? (table : RuleTable) (id : RuleId) : Option RuleConfig :=
  (table.find? fun entry => entry.1 = id.name).map (·.2)

end RuleTable

structure Config where
  /-- The version of the format, if the document states it. -/
  version : Option Text
  scanner : ScannerConfig
  rules : RuleTable
deriving Repr, DecidableEq

namespace Config

/-- The configuration where nothing is configured. -/
def default : Config := ⟨none, .default, []⟩

def formatVersion : Text := "1"

def fileName : Text := ".packaging-guard.toml"

/-- Whether a rule runs, going by the configuration alone. -/
def isEnabled (config : Config) (id : RuleId) : Bool :=
  ((config.rules.get? id).bind (·.enabled)).getD id.enabledByDefault

/-- Whether a rule leaves test code alone. -/
def allowsInTests (config : Config) (id : RuleId) : Bool :=
  ((config.rules.get? id).bind (·.allowInTests)).getD false

end Config

end RequireLint
