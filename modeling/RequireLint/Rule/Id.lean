import RequireLint.Text

/-!
# The rules by name

Each rule has an identifier that configurations and command lines use, a message that its
offenses carry, and a description for the list of rules.
-/

namespace RequireLint

/-- The rules, in the order in which they are listed and reported. -/
inductive RuleId where
  /-- A `require` that resolves into the library. -/
  | requireHardcodingLib
  /-- A `require_relative` that resolves into the library. -/
  | requireRelativeHardcodingLib
  /-- A literal with `../lib/` in it. -/
  | relativeRequireToLib
  /-- A `require` of a path with `./lib/` in it. -/
  | requireWithRelativePath
  /-- The set-up of the bundler in test code. -/
  | bundlerSetupInTests
  /-- A call of git in the manifest. -/
  | gemspecGit
deriving Repr, DecidableEq

namespace RuleId

def all : List RuleId :=
  [requireHardcodingLib, requireRelativeHardcodingLib, relativeRequireToLib,
    requireWithRelativePath, bundlerSetupInTests, gemspecGit]

def index : RuleId → Nat
  | requireHardcodingLib => 0
  | requireRelativeHardcodingLib => 1
  | relativeRequireToLib => 2
  | requireWithRelativePath => 3
  | bundlerSetupInTests => 4
  | gemspecGit => 5

def name : RuleId → Text
  | requireHardcodingLib => "require-hardcoding-lib"
  | requireRelativeHardcodingLib => "require-relative-hardcoding-lib"
  | relativeRequireToLib => "relative-require-to-lib"
  | requireWithRelativePath => "require-with-relative-path"
  | bundlerSetupInTests => "bundler-setup-in-tests"
  | gemspecGit => "gemspec-git"

def ofName? (name : Text) : Option RuleId := all.find? fun id => id.name = name

/-- Whether a rule runs unless told otherwise.  The two textual rules are alternatives to the
rules that resolve paths, and have to be asked for. -/
def enabledByDefault : RuleId → Bool
  | relativeRequireToLib | requireWithRelativePath => false
  | _ => true

def autocorrectable : RuleId → Bool
  | requireHardcodingLib | bundlerSetupInTests => true
  | _ => false

/-- Whether a rule can be told to leave test code alone. -/
def allowsTestDirectories (id : RuleId) : Bool := id == requireRelativeHardcodingLib

/-- What an offense against a rule is reported with. -/
def message : RuleId → Text
  | requireHardcodingLib =>
    "Avoid using relative path to `lib/`. Use absolute path instead."
  | requireRelativeHardcodingLib =>
    "Avoid using `require_relative` with relative path to lib. Use `require` instead."
  | relativeRequireToLib => "Avoid using `require` with relative path to lib."
  | requireWithRelativePath => "Avoid using `require` with relative path."
  | bundlerSetupInTests => "Avoid using `bundler/setup` in your tests."
  | gemspecGit =>
    ("Avoid using git to produce lists of files. Downstreams often need to build " : Text) ++
      ("your package in an environment that does not have git (on purpose). " : Text) ++
      ("Use some pure Ruby alternative, like `Dir` or `Dir.glob`." : Text)

/-- What a rule looks for. -/
def description : RuleId → Text
  | requireHardcodingLib =>
    "`require` of a path that resolves into lib/, outside lib/ and the gemspec"
  | requireRelativeHardcodingLib => "`require_relative` of a literal that resolves into lib/"
  | relativeRequireToLib => "any literal containing `../lib/`, wherever it appears"
  | requireWithRelativePath => "`require` whose path contains `./lib/`"
  | bundlerSetupInTests => "`require \"bundler/setup\"` under spec/ or test/"
  | gemspecGit => "shelling out to git inside `Gem::Specification.new`"

end RuleId

end RequireLint
