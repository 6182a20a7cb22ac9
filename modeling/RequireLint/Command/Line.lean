import RequireLint.Config.Model
import RequireLint.Report.Basic
import RequireLint.Report.Color

/-!
# Command lines

What a command line asks for: one of the commands with its options, and some options that all
commands share.
-/

namespace RequireLint

inductive ConfigFormat where
  | text
  | json
  | toml
deriving Repr, DecidableEq

structure CheckOptions where
  paths : List Text
  /-- The configuration file, if one is named. -/
  config : Option Text
  /-- The project root of all files, if one is named. -/
  root : Option Text
  fix : Bool
  format : ReportFormat
  /-- The file for the report, if it does not go to standard output. -/
  output : Option Text
  only : List Text
  disable : List Text
  exclude : List Text
  /-- Whether offenses leave the exit code alone. -/
  warnOnly : Bool
deriving Repr, DecidableEq

inductive Command where
  | check (options : CheckOptions)
  | rules
  | init (output : Text) (force : Bool)
  | validate (config : Text)
  | showConfig (config : Option Text) (format : ConfigFormat)
deriving Repr, DecidableEq

/-- What a command line asks for. -/
structure Invocation where
  /-- How much is told about clean files. -/
  verbosity : Nat
  /-- Whether what is not essential is left out. -/
  quiet : Bool
  /-- Whether configuration files are passed over. -/
  skipConfig : Bool
  color : ColorMode
  command : Command
deriving Repr, DecidableEq

def Command.paths : Command → List Text
  | check options =>
    options.paths ++ options.config.toList ++ options.root.toList ++ options.output.toList
  | rules => []
  | init output _ => [output]
  | validate config => [config]
  | showConfig config _ => config.toList

/-- Why a command line is not carried out. -/
inductive Refusal where
  | helpWanted
  | versionWanted
  /-- It says nothing where a command has to be chosen. -/
  | nothingSaid
  | commandMissing
  | unknownCommand
  /-- It has an argument that the command does not take. -/
  | unknownArgument
  /-- An option lacks its value or has one that is not among those to choose from. -/
  | wrongValue
  /-- An option has a value that does not name a form of report. -/
  | unknownFormat
  | needlessValue
  | repeatedOption
deriving Repr, DecidableEq

namespace Refusal

/-- The exit code of a refusal.  Asking for help or the version is no error. -/
def exitCode : Refusal → Nat
  | helpWanted | versionWanted => 0
  | _ => 2

end Refusal

end RequireLint
