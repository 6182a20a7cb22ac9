import RequireLint.Command.Grammar

/-!
# Reading command lines

The arguments are read from left to right, one command after the other.  An option that is still
to get its values is pending; it is settled, and its values are checked, when the next option
starts or the command ends.
-/

namespace RequireLint

/-- The settings that a command has been given, in order. -/
abbrev Given := List (Setting × List Text)

namespace Given

def isSet (given : Given) (setting : Setting) : Bool := given.any fun entry => entry.1 = setting

def values (given : Given) (setting : Setting) : List Text :=
  given.flatMap fun entry => if entry.1 = setting then entry.2 else []

/-- The only value of a setting. -/
def value? (given : Given) (setting : Setting) : Option Text := (given.values setting).head?

/-- How often a setting is given.  The count stops at 255. -/
def count (given : Given) (setting : Setting) : Nat :=
  min 255 (given.filter fun entry => entry.1 = setting).length

end Given

/-- The arguments of one command, read in part. -/
structure ArgumentState where
  given : Given
  /-- The option that is still to be settled, with its values so far. -/
  pending : Option (OptionSpec × List Text)
  /-- Whether the pending option waits for a value. -/
  awaitsValue : Bool
deriving Repr, DecidableEq

namespace ArgumentState

def start : ArgumentState := ⟨[], none, false⟩

/-- Settles an option with its values. -/
def record (given : Given) (spec : OptionSpec) (values : List Text) : Except Refusal Given := do
  if spec.kind.takesValue && values.isEmpty then .error .wrongValue
  if spec.kind.isSingle && given.isSet spec.setting then .error .repeatedOption
  let values := values.flatMap spec.kind.split
  values.forM spec.kind.validate
  return given ++ [(spec.setting, values)]

/-- Settles the pending option. -/
def settle (state : ArgumentState) : Except Refusal Given :=
  match state.pending with
  | none => .ok state.given
  | some (spec, values) => record state.given spec values

/-- Reads an option that takes no value. -/
def readFlag (state : ArgumentState) (spec : OptionSpec) : Except Refusal ArgumentState := do
  let given ← state.settle
  match spec.kind with
  | .help => .error .helpWanted
  | .version => .error .versionWanted
  | _ => return ⟨← record given spec [], none, false⟩

/-- Reads an option that takes a value, which is attached to it or follows. -/
def readValued (state : ArgumentState) (spec : OptionSpec) (attached : Option Text) :
    Except Refusal ArgumentState := do
  let given ← state.settle
  match attached with
  | some value => return ⟨← record given spec [value], none, false⟩
  | none => return ⟨given, some (spec, []), true⟩

/-- Reads an argument that is not an option but the value of one, or stands for itself. -/
def readPlain (state : ArgumentState) (spec : OptionSpec) (value : Text) :
    Except Refusal ArgumentState :=
  match state.pending with
  | some (before, values) =>
    if before = spec then .ok ⟨state.given, some (spec, values ++ [value]), false⟩
    else state.settle.map fun given => ⟨given, some (spec, [value]), false⟩
  | none => .ok ⟨state.given, some (spec, [value]), false⟩

/-- Reads an option by its long name, after the dashes. -/
def readLong (state : ArgumentState) (name : CommandName) (argument : Text) :
    Except Refusal ArgumentState :=
  let long := argument.takeWhile (· ≠ '=')
  let attached := Text.dropPrefix? "=" (argument.dropWhile (· ≠ '='))
  match name.options.find? fun spec => spec.long = long with
  | none => .error .unknownArgument
  | some spec =>
    if spec.kind.takesValue then state.readValued spec attached
    else if attached.isSome then .error .needlessValue
    else state.readFlag spec

/-- Reads options by their short names, after the dash.  What follows the name of an option that
takes a value is its value. -/
def readShorts (name : CommandName) : ArgumentState → Text → Except Refusal ArgumentState
  | state, [] => .ok state
  | state, c :: rest =>
    match name.options.find? fun spec => spec.short = some c with
    | none => .error .unknownArgument
    | some spec =>
      if spec.kind.takesValue then
        let attached := if rest.isEmpty then none else some ((Text.dropPrefix? "=" rest).getD rest)
        state.readValued spec attached
      else
        match state.readFlag spec with
        | .ok next => readShorts name next rest
        | .error refusal => .error refusal

/-- Why an argument that is not an option is refused. -/
def refusePlain (name : CommandName) (afterDashes : Bool) (argument : Text) : Refusal :=
  if afterDashes && name.knows argument then .unknownArgument
  else if name.needsNext then .unknownCommand
  else .unknownArgument

/-- Ends the arguments of a command that no other command follows. -/
def finish (state : ArgumentState) (name : CommandName) : Except Refusal Given := do
  let given ← state.settle
  if name.needsNext then
    if given.isEmpty then .error .nothingSaid else .error .commandMissing
  return given

end ArgumentState

namespace CommandName

/-- What a request for help on some commands comes to. -/
def helpOn (name : CommandName) : List Text → Refusal
  | [] => .helpWanted
  | word :: rest =>
    match name.next? word with
    | some next => helpOn next rest
    | none =>
      if name.needsNext && word = helpWord && rest.isEmpty then .helpWanted else .unknownCommand

/-- Reads the arguments of a command.  The result holds what each command on the line has been
given, the outermost first. -/
def readArguments (name : CommandName) (afterDashes : Bool) (state : ArgumentState) :
    List Text → Except Refusal (List (CommandName × Given))
  | [] => (state.finish name).map fun given => [(name, given)]
  | argument :: rest =>
    let plain : Except Refusal (List (CommandName × Given)) :=
      match name.positional? with
      | none => .error (ArgumentState.refusePlain name afterDashes argument)
      | some spec =>
        match state.readPlain spec argument with
        | .ok next => readArguments name afterDashes next rest
        | .error refusal => .error refusal
    if afterDashes then plain
    else
      match (if state.awaitsValue then none else name.next? argument) with
      | some next =>
        match readArguments next false .start rest with
        | .error refusal => .error refusal
        | .ok below => state.settle.map fun given => (name, given) :: below
      | none =>
        if !state.awaitsValue && name.needsNext && argument = helpWord then
          .error (name.helpOn rest)
        else
          match argument with
          | ['-', '-'] => readArguments name true state rest
          | '-' :: '-' :: long =>
            match state.readLong name long with
            | .ok next => readArguments name false next rest
            | .error refusal => .error refusal
          | '-' :: c :: shorts =>
            match ArgumentState.readShorts name state (c :: shorts) with
            | .ok next => readArguments name false next rest
            | .error refusal => .error refusal
          | _ =>
            match (if state.awaitsValue then state.pending else none) with
            | some (spec, values) =>
              let next : ArgumentState := ⟨state.given, some (spec, values ++ [argument]), false⟩
              readArguments name false next rest
            | none => plain

end CommandName

namespace Invocation

/-- What the last command that sets something at all has been given. -/
def shared (levels : List (CommandName × Given)) (setting : Setting) : Given :=
  ((levels.reverse.map (·.2)).find? fun given => given.isSet setting).getD []

def colorNamed (name : Option Text) : ColorMode :=
  if name = some "always" then .always else if name = some "never" then .never else .auto

def formatNamed (name : Option Text) : ConfigFormat :=
  if name = some "json" then .json else if name = some "toml" then .toml else .text

def checkOptions (given : Given) : CheckOptions where
  paths := if given.isSet .paths then given.values .paths else ["."]
  config := given.value? .config
  root := given.value? .root
  fix := given.isSet .fix
  format := ((given.value? .format).bind ReportFormat.ofName?).getD .text
  output := given.value? .output
  only := given.values .only
  disable := given.values .disable
  exclude := given.values .exclude
  warnOnly := given.isSet .warnOnly

/-- The command that has been chosen, with its options. -/
def commandOf (name : CommandName) (given : Given) : Option Command :=
  match name with
  | .check => some (.check (checkOptions given))
  | .rules => some .rules
  | .init => some (.init ((given.value? .output).getD Config.fileName) (given.isSet .force))
  | .validate => some (.validate ((given.value? .config).getD Config.fileName))
  | .showConfig => some (.showConfig (given.value? .config) (formatNamed (given.value? .format)))
  | .program | .config => none

/-- What a command line asks for, given its arguments. -/
def ofArguments (arguments : List Text) : Except Refusal Invocation := do
  let levels ← CommandName.program.readArguments false .start arguments
  match levels.getLast?.bind fun level => commandOf level.1 level.2 with
  | none => .error .commandMissing
  | some command =>
    return {
      verbosity := (shared levels .verbosity).count .verbosity
      quiet := (shared levels .quiet).isSet .quiet
      skipConfig := (shared levels .skipConfig).isSet .skipConfig
      color := colorNamed ((shared levels .color).value? .color)
      command := command }

end Invocation

end RequireLint
