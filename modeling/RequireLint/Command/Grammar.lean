import RequireLint.Command.Line

/-!
# The grammar of command lines

A command has a name, further commands or paths after it, and options.  The options that all
commands share may stand after any of them.
-/

namespace RequireLint

/-- What can be set on a command line. -/
inductive Setting where
  | verbosity
  | quiet
  | color
  | skipConfig
  | paths
  | config
  | root
  | fix
  | format
  | output
  | only
  | disable
  | exclude
  | warnOnly
  | force
  | help
  | version
deriving Repr, DecidableEq

/-- What an option takes, and how often it may be given. -/
inductive OptionKind where
  /-- Nothing; it asks for help. -/
  | help
  /-- Nothing; it asks for the version. -/
  | version
  /-- Nothing; it may be given any number of times. -/
  | count
  /-- Nothing. -/
  | flag
  /-- A path that is not empty. -/
  | path
  /-- The name of a form of report. -/
  | reportFormat
  /-- One of some words. -/
  | choice (words : List Text)
  /-- A text; it may be given any number of times. -/
  | text
  /-- Texts with commas between them; it may be given any number of times. -/
  | list
  /-- Paths that are not empty, each an argument of its own. -/
  | paths
deriving Repr, DecidableEq

namespace OptionKind

def takesValue : OptionKind → Bool
  | help | version | count | flag => false
  | _ => true

def isSingle : OptionKind → Bool
  | flag | path | reportFormat | choice _ => true
  | _ => false

/-- The values that one value on the command line stands for. -/
def split (kind : OptionKind) (value : Text) : List Text :=
  if kind = list then value.splitOn ',' else [value]

def validate (kind : OptionKind) (value : Text) : Except Refusal Unit :=
  match kind with
  | path | paths => if value.isEmpty then .error .wrongValue else .ok ()
  | reportFormat => if (ReportFormat.ofName? value).isSome then .ok () else .error .unknownFormat
  | choice words => if words.contains value then .ok () else .error .wrongValue
  | _ => .ok ()

end OptionKind

structure OptionSpec where
  setting : Setting
  short : Option Char
  long : Text
  kind : OptionKind
deriving Repr, DecidableEq

inductive CommandName where
  | program
  | check
  | rules
  | init
  | config
  | validate
  | showConfig
deriving Repr, DecidableEq

namespace CommandName

def sharedOptions : List OptionSpec :=
  [⟨.verbosity, some 'v', "verbose", .count⟩, ⟨.quiet, some 'q', "quiet", .flag⟩,
    ⟨.color, none, "color", .choice ["auto", "always", "never"]⟩,
    ⟨.skipConfig, none, "no-config", .flag⟩, ⟨.help, some 'h', "help", .help⟩]

def ownOptions : CommandName → List OptionSpec
  | program => [⟨.version, some 'V', "version", .version⟩]
  | check =>
    [⟨.config, some 'c', "config", .path⟩, ⟨.root, none, "root", .path⟩,
      ⟨.fix, none, "fix", .flag⟩, ⟨.format, some 'f', "format", .reportFormat⟩,
      ⟨.output, some 'o', "output", .path⟩, ⟨.only, none, "only", .list⟩,
      ⟨.disable, none, "disable", .list⟩, ⟨.exclude, some 'x', "exclude", .text⟩,
      ⟨.warnOnly, none, "warn-only", .flag⟩]
  | rules | config => []
  | init => [⟨.output, some 'o', "output", .path⟩, ⟨.force, none, "force", .flag⟩]
  | validate => [⟨.config, some 'c', "config", .path⟩]
  | showConfig =>
    [⟨.config, some 'c', "config", .path⟩,
      ⟨.format, some 'f', "format", .choice ["text", "json", "toml"]⟩]

/-- The options that may stand after a command. -/
def options (name : CommandName) : List OptionSpec := name.ownOptions ++ sharedOptions

/-- The arguments that are not options, if the command takes any. -/
def positional? : CommandName → Option OptionSpec
  | check => some ⟨.paths, none, [], .paths⟩
  | _ => none

/-- The commands that may follow a command, by their words. -/
def following : CommandName → List (Text × CommandName)
  | program => [("check", check), ("rules", rules), ("init", init), ("config", config)]
  | config => [("validate", validate), ("show", showConfig)]
  | _ => []

/-- The command that a word chooses after a command. -/
def next? (name : CommandName) (word : Text) : Option CommandName :=
  (name.following.find? fun entry => entry.1 = word).map (·.2)

def needsNext (name : CommandName) : Bool := !name.following.isEmpty

def helpWord : Text := "help"

/-- Whether a word is one of those that may follow a command. -/
def knows (name : CommandName) (word : Text) : Bool :=
  (name.next? word).isSome || (name.needsNext && word = helpWord)

end CommandName

end RequireLint
